import Mathlib.Logic.Function.Basic
import Mathlib.Data.List.Induction

set_option relaxedAutoImplicit false
set_option autoImplicit false

/-!
# Stores with pending writes

A pipelined machine reads a store `K → V` while older instructions still hold writes to it.
The reader is right when it sees the store with all pending writes performed in age order.

## Main definitions

* `Clocked.applyWrite`, `Clocked.drain` — one write, and all pending writes oldest first.
* `Clocked.Hits` — a write is to a given key.

## Main results

* `Clocked.drain_of_kept`, `drain_of_not_hit` — a key no pending write changes keeps its value.
-/

namespace Clocked

variable {K V : Type*} [DecidableEq K]

/-- The store after an optional write. -/
def applyWrite (f : K → V) : Option (K × V) → K → V
  | none => f
  | some (k, v) => Function.update f k v

/-- The store after the pending writes `ws`, oldest first. -/
def drain (f : K → V) (ws : List (Option (K × V))) : K → V := ws.foldl applyWrite f

/-- A pending write hits the key `k`. -/
def Hits (w : Option (K × V)) (k : K) : Prop := ∃ v, w = some (k, v)

omit [DecidableEq K] in
/-- No write hits nothing. -/
@[simp] lemma not_hits_none (k : K) : ¬ Hits (none : Option (K × V)) k := by
  rintro ⟨v, hv⟩; cases hv

omit [DecidableEq K] in
/-- A write hits exactly its own key. -/
@[simp] lemma hits_some (k k' : K) (v : V) : Hits (some (k, v)) k' ↔ k = k' := by
  constructor
  · rintro ⟨v', hv⟩
    exact congrArg Prod.fst (Option.some.inj hv)
  · rintro rfl
    exact ⟨v, rfl⟩

/-- A write that hits `k` sets it. -/
lemma applyWrite_hit (f : K → V) (k : K) (v : V) : applyWrite f (some (k, v)) k = v :=
  Function.update_self ..

/-- A write, key by key. -/
lemma applyWrite_some (f : K → V) (k r : K) (v : V) :
    applyWrite f (some (k, v)) r = if r = k then v else f r :=
  Function.update_apply ..

/-- A write that does not hit `k` keeps it. -/
lemma applyWrite_miss (f : K → V) {w : Option (K × V)} {k : K} (h : ¬ Hits w k) :
    applyWrite f w k = f k := by
  cases w with
  | none => rfl
  | some kv =>
    obtain ⟨k', v⟩ := kv
    exact Function.update_of_ne (fun hk => h ⟨v, by rw [hk]⟩) _ _

/-- Draining one more, younger write. -/
lemma drain_append_singleton (f : K → V) (ws : List (Option (K × V)))
    (w : Option (K × V)) : drain f (ws ++ [w]) = applyWrite (drain f ws) w := by
  simp [drain]

/-- A write looks at the store at its own key only. -/
lemma applyWrite_congr {f g : K → V} {k : K} (w : Option (K × V)) (h : f k = g k) :
    applyWrite f w k = applyWrite g w k := by
  by_cases hw : Hits w k
  · obtain ⟨v, rfl⟩ := hw
    rw [applyWrite_hit, applyWrite_hit]
  · rw [applyWrite_miss f hw, applyWrite_miss g hw, h]

/-- A key that every pending write leaves as it is stored keeps its value: the writes miss it
or write what is there. -/
theorem drain_of_kept (f : K → V) {ws : List (Option (K × V))} {k : K}
    (h : ∀ w ∈ ws, applyWrite f w k = f k) : drain f ws k = f k := by
  induction ws using List.reverseRecOn with
  | nil => rfl
  | append_singleton ws w ih =>
    rw [drain_append_singleton, applyWrite_congr w (ih fun w' hw' => h w' (by simp [hw']))]
    exact h w (by simp)

/-- A key that no pending write hits keeps its stored value. -/
theorem drain_of_not_hit (f : K → V) {ws : List (Option (K × V))} {k : K}
    (h : ∀ w ∈ ws, ¬ Hits w k) : drain f ws k = f k :=
  drain_of_kept f fun w hw => applyWrite_miss f (h w hw)

end Clocked
