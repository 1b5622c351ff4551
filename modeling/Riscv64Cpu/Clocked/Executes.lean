import Mathlib.Logic.Function.Iterate

set_option relaxedAutoImplicit false
set_option autoImplicit false

/-!
# Runs of instructions

A machine that executes a list of instructions, each where it may be executed, and another machine
whose steps are these instructions under a view of its states.

## Main definitions

* `Clocked.execAll` — the state after a list of instructions.
* `Clocked.Executes` — every instruction of a list is executed where it may be.
* `Clocked.outputs` — what the instructions show.

## Main results

* `Clocked.Executes.get` — what holds where an instruction of a run is executed.
* `Clocked.Executes.kept` — a run keeps what every instruction keeps.
* `Clocked.Executes.iterate` — the simulation rule.
* `Clocked.Executes.outputs_iterate` — the other machine shows the same.
-/

namespace Clocked

variable {I S T O : Type*}

section Definitions

variable (exec : I → S → S)

/-- The state after the instructions. -/
def execAll (is : List I) (s : S) : S := is.foldl (fun s i => exec i s) s

/-- The instructions are executed one after another, each in a state where `ok` holds of it. -/
def Executes (ok : S → I → Prop) : List I → S → Prop
  | [], _ => True
  | i :: is, s => ok s i ∧ Executes ok is (exec i s)

/-- What the instructions show, each in the state in which it is executed. -/
def outputs (out : I → S → O) : List I → S → List O
  | [], _ => []
  | i :: is, s => out i s :: outputs out is (exec i s)

/-- Whether the instructions may be executed can be computed. -/
instance decidableExecutes (ok : S → I → Prop) [∀ s i, Decidable (ok s i)] :
    (is : List I) → (s : S) → Decidable (Executes exec ok is s)
  | [], _ => isTrue trivial
  | i :: is, s =>
    have := decidableExecutes ok is (exec i s)
    inferInstanceAs (Decidable (ok s i ∧ Executes exec ok is (exec i s)))

end Definitions

section Runs

variable {exec : I → S → S} {ok : S → I → Prop} {is : List I} {s : S} {k : ℕ} {i : I}

/-- One instruction more. -/
lemma execAll_take_succ (hk : is[k]? = some i) :
    execAll exec (is.take (k + 1)) s = exec i (execAll exec (is.take k) s) := by
  rw [execAll, List.take_add_one, hk, List.foldl_append]
  rfl

/-- What holds where an instruction of a run is executed. -/
theorem Executes.get (h : Executes exec ok is s) (hk : is[k]? = some i) :
    ok (execAll exec (is.take k) s) i := by
  induction is generalizing s k with
  | nil => cases hk
  | cons j is ih =>
    cases k with
    | zero =>
      obtain rfl : j = i := Option.some.inj hk
      exact h.1
    | succ k => exact ih h.2 hk

/-- A weaker condition on the instructions. -/
lemma Executes.mono {ok' : S → I → Prop} (hok : ∀ s i, ok s i → ok' s i)
    (h : Executes exec ok is s) : Executes exec ok' is s := by
  induction is generalizing s with
  | nil => trivial
  | cons i is ih => exact ⟨hok s i h.1, ih h.2⟩

/-- A run keeps what every instruction keeps. -/
theorem Executes.kept {f : S → O} (hf : ∀ s i, ok s i → f (exec i s) = f s)
    (h : Executes exec ok is s) : ∀ k ≤ is.length, f (execAll exec (is.take k) s) = f s := by
  intro k hk
  induction k with
  | zero => rfl
  | succ k ih =>
    have hget : is[k]? = some is[k] := List.getElem?_eq_getElem (by omega)
    rw [execAll_take_succ hget, hf _ _ (h.get hget), ih (by omega)]

section Simulation

variable {step : T → T} {view : T → S}
  (hstep : ∀ t i, ok (view t) i → view (step t) = exec i (view t)) {t : T}
  (h : Executes exec ok is (view t))
include hstep h

/-- **The simulation rule**: when a step from a state in whose view an instruction may be executed
is that instruction, then the steps from a state in whose view a list of them may be executed are
the instructions of the list.

**Proof sketch.** Induction on the number of steps; the view before the last of them executes the
last instruction (`Executes.get`). -/
theorem Executes.iterate :
    ∀ k ≤ is.length, view (step^[k] t) = execAll exec (is.take k) (view t) := by
  intro k hk
  induction k with
  | zero => rfl
  | succ k ih =>
    have hget : is[k]? = some is[k] := List.getElem?_eq_getElem (by omega)
    have hview := ih (by omega)
    rw [Function.iterate_succ_apply', execAll_take_succ hget, ← hview]
    exact hstep _ _ (hview ▸ h.get hget)

/-- What holds in the view of a state that executes an instruction of the list. -/
lemma Executes.ok_iterate (hk : k < is.length) : ok (view (step^[k] t)) is[k] := by
  rw [h.iterate hstep k (Nat.le_of_lt hk)]
  exact h.get (List.getElem?_eq_getElem hk)

/-- The steps show what the instructions show. -/
theorem Executes.outputs_iterate {out : I → S → O} {obs : T → O}
    (hobs : ∀ t i, ok (view t) i → obs t = out i (view t)) :
    (List.range is.length).map (fun k => obs (step^[k] t)) = outputs exec out is (view t) := by
  induction is generalizing t with
  | nil => rfl
  | cons i is ih =>
    obtain ⟨hi, hrest⟩ := h
    have hnext := hstep t i hi
    rw [← hnext] at hrest
    rw [List.length_cons, List.range_succ_eq_map, List.map_cons, List.map_map, outputs, ← hnext,
      ← ih hrest, ← hobs t i hi]
    rfl

end Simulation

end Runs

end Clocked
