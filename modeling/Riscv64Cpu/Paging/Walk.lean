import Mathlib.Algebra.Group.Nat.Defs
import Mathlib.Data.Nat.Basic

set_option relaxedAutoImplicit false
set_option autoImplicit false

/-!
# Walks of radix page tables

A page table of several levels is a tree of tables.  At each level the walker looks up one entry
of the current table, which is invalid, points to a table of the level below, or is a leaf; a
pointer at level `0` leads nowhere.

## Main definitions

* `Paging.Entry` — what an entry says.
* `Paging.Outcome` — the level at which a walk ends, and its leaf, if any.
* `Paging.walk` — the walk from a table.

## Main results

* `Paging.walk_level_le` — a walk ends at or below the level it starts from.
* `Paging.walker_rule` — a machine that looks up one entry every `c` edges performs the walk, and
  takes `c` edges for every level it visits.
-/

namespace Paging

/-- What an entry of a table says: the tables are named by `T`, the frames by `F`. -/
inductive Entry (T F : Type*)
  | invalid
  | pointer (table : T)
  | leaf (frame : F)

/-- The end of a walk: its level and its leaf; a walk without a leaf is a fault. -/
structure Outcome (F : Type*) where
  level : ℕ
  leaf : Option F

variable {T F : Type*} (entry : ℕ → T → Entry T F)

/-- The walk from table `t` of a level, when `entry l t` is the entry that the address selects in
table `t` of level `l`. -/
def walk : ℕ → T → Outcome F
  | 0, t =>
    match entry 0 t with
    | .leaf f => ⟨0, some f⟩
    | _ => ⟨0, none⟩
  | l + 1, t =>
    match entry (l + 1) t with
    | .invalid => ⟨l + 1, none⟩
    | .pointer t' => walk l t'
    | .leaf f => ⟨l + 1, some f⟩

variable {entry} {l : ℕ} {t t' : T} {f : F}

/-- A walk that meets an invalid entry has no leaf. -/
lemma walk_of_invalid (h : entry l t = .invalid) : walk entry l t = ⟨l, none⟩ := by
  cases l <;> simp [walk, h]

/-- A walk that meets a leaf ends there. -/
lemma walk_of_leaf (h : entry l t = .leaf f) : walk entry l t = ⟨l, some f⟩ := by
  cases l <;> simp [walk, h]

/-- A pointer in the last table has no leaf. -/
lemma walk_of_pointer_zero (h : entry 0 t = .pointer t') : walk entry 0 t = ⟨0, none⟩ := by
  simp [walk, h]

/-- A pointer in another table is followed. -/
lemma walk_of_pointer_succ (h : entry (l + 1) t = .pointer t') :
    walk entry (l + 1) t = walk entry l t' := by
  simp [walk, h]

/-- A walk ends at or below the level it starts from. -/
theorem walk_level_le : ∀ (l : ℕ) (t : T), (walk entry l t).level ≤ l := by
  intro l
  induction l with
  | zero =>
    intro t
    cases h : entry 0 t with
    | invalid => rw [walk_of_invalid h]
    | leaf f => rw [walk_of_leaf h]
    | pointer t' => rw [walk_of_pointer_zero h]
  | succ l ih =>
    intro t
    cases h : entry (l + 1) t with
    | invalid => rw [walk_of_invalid h]
    | leaf f => rw [walk_of_leaf h]
    | pointer t' =>
      rw [walk_of_pointer_succ h]
      exact Nat.le_trans (ih t') (Nat.le_succ l)

variable (entry) in
/-- **The walker rule**: let `At n l t` say that in cycle `n` a machine looks at the entry of
table `t` of level `l`, and `End n o` that in cycle `n` it has ended with `o`.  If it needs `c`
edges for each entry and is busy meanwhile, it ends with the outcome of the walk, after `c` edges
for every level that the walk visits, and is busy until then.

**Proof sketch.** Induction on the level, by cases on the entry, as the walk itself. -/
theorem walker_rule (c : ℕ) (At : ℕ → ℕ → T → Prop) (End : ℕ → Outcome F → Prop) (Busy : ℕ → Prop)
    (hbusy : ∀ n l t, At n l t → ∀ m, n ≤ m → m < n + c → Busy m)
    (hinvalid : ∀ n l t, At n l t → entry l t = .invalid → End (n + c) ⟨l, none⟩)
    (hleaf : ∀ n l t f, At n l t → entry l t = .leaf f → End (n + c) ⟨l, some f⟩)
    (hzero : ∀ n t t', At n 0 t → entry 0 t = .pointer t' → End (n + c) ⟨0, none⟩)
    (hsucc : ∀ n l t t', At n (l + 1) t → entry (l + 1) t = .pointer t' → At (n + c) l t') :
    ∀ l t n, At n l t → End (n + c * (l - (walk entry l t).level + 1)) (walk entry l t) ∧
      ∀ m, n ≤ m → m < n + c * (l - (walk entry l t).level + 1) → Busy m := by
  -- an entry that ends the walk takes `c` edges
  have hlast : ∀ l t n o, At n l t → walk entry l t = o → o.level = l → End (n + c) o →
      End (n + c * (l - (walk entry l t).level + 1)) (walk entry l t) ∧
        ∀ m, n ≤ m → m < n + c * (l - (walk entry l t).level + 1) → Busy m := by
    intro l t n o hat ho hl hend
    rw [ho, hl, Nat.sub_self, Nat.zero_add, Nat.mul_one]
    exact ⟨hend, hbusy n l t hat⟩
  intro l
  induction l with
  | zero =>
    intro t n hat
    cases h : entry 0 t with
    | invalid => exact hlast 0 t n _ hat (walk_of_invalid h) rfl (hinvalid n 0 t hat h)
    | leaf f => exact hlast 0 t n _ hat (walk_of_leaf h) rfl (hleaf n 0 t f hat h)
    | pointer t' => exact hlast 0 t n _ hat (walk_of_pointer_zero h) rfl (hzero n t t' hat h)
  | succ l ih =>
    intro t n hat
    cases h : entry (l + 1) t with
    | invalid => exact hlast (l + 1) t n _ hat (walk_of_invalid h) rfl (hinvalid n _ t hat h)
    | leaf f => exact hlast (l + 1) t n _ hat (walk_of_leaf h) rfl (hleaf n _ t f hat h)
    | pointer t' =>
      obtain ⟨hend, hb⟩ := ih t' (n + c) (hsucc n l t t' hat h)
      have hle : (walk entry l t').level ≤ l := walk_level_le l t'
      have hlen : n + c * (l + 1 - (walk entry l t').level + 1) =
          n + c + c * (l - (walk entry l t').level + 1) := by
        rw [show l + 1 - (walk entry l t').level + 1 = l - (walk entry l t').level + 1 + 1 by omega,
          Nat.mul_succ]
        omega
      rw [walk_of_pointer_succ h, hlen]
      refine ⟨hend, fun m hm hlt => ?_⟩
      by_cases hc : m < n + c
      · exact hbusy n _ t hat m hm hc
      · exact hb m (by omega) hlt

end Paging
