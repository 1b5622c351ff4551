import Mathlib.Logic.Function.Basic
import Mathlib.Data.List.Induction

set_option relaxedAutoImplicit false
set_option autoImplicit false

/-!
# Stores written in pieces

A store `A → V` and a sequence of writes to it, each of which covers any set of addresses.  An
address holds what the latest write that covers it wrote there.

## Main definitions

* `Patches.Patch` — a write: its values at the addresses that it covers.
* `Patches.applyAll` — the store after a sequence of writes.
* `Patches.latest` — the latest value written at an address.

## Main results

* `Patches.latest_eq_some_iff`, `latest_eq_none_iff` — the latest write that covers an address.
* `Patches.applyAll_eq_latest` — the store holds the latest values.
-/

namespace Patches

variable {A V : Type*}

/-- A write: the values that it writes, at the addresses that it covers. -/
abbrev Patch (A V : Type*) := A → Option V

/-- The store after a write. -/
def apply (f : A → V) (p : Patch A V) : A → V := fun a => (p a).getD (f a)

/-- The store after the writes `ps`, oldest first. -/
def applyAll (f : A → V) (ps : List (Patch A V)) : A → V := ps.foldl apply f

/-- The latest value that the writes `ps` write at the address `a`. -/
def latest : List (Patch A V) → A → Option V
  | [], _ => none
  | p :: ps, a => (latest ps a).or (p a)

/-- One more write. -/
lemma applyAll_append_singleton (f : A → V) (ps : List (Patch A V)) (p : Patch A V) :
    applyAll f (ps ++ [p]) = apply (applyAll f ps) p := by
  simp [applyAll]

/-- One more write comes before all others. -/
lemma latest_append_singleton (ps : List (Patch A V)) (p : Patch A V) (a : A) :
    latest (ps ++ [p]) a = (p a).or (latest ps a) := by
  induction ps with
  | nil => cases h : p a <;> simp [latest, h]
  | cons q ps ih => rw [List.cons_append, latest, ih, latest, Option.or_assoc]

/-- **The store holds the latest values.** -/
theorem applyAll_eq_latest (f : A → V) (ps : List (Patch A V)) (a : A) :
    applyAll f ps a = (latest ps a).getD (f a) := by
  induction ps using List.reverseRecOn with
  | nil => rfl
  | append_singleton ps p ih =>
    rw [applyAll_append_singleton, latest_append_singleton, apply, ih]
    cases p a <;> rfl

/-- No write covers the address. -/
theorem latest_eq_none_iff {ps : List (Patch A V)} {a : A} :
    latest ps a = none ↔ ∀ p ∈ ps, p a = none := by
  induction ps with
  | nil => simp [latest]
  | cons p ps ih => rw [latest, Option.or_eq_none_iff, ih, List.forall_mem_cons, and_comm]

/-- **The latest write**: some write covers the address with this value, and no later one covers
it. -/
theorem latest_eq_some_iff {ps : List (Patch A V)} {a : A} {v : V} : latest ps a = some v ↔
    ∃ before p later, ps = before ++ p :: later ∧ p a = some v ∧ ∀ q ∈ later, q a = none := by
  constructor
  · intro h
    induction ps with
    | nil => cases h
    | cons p ps ih =>
      rw [latest, Option.or_eq_some_iff] at h
      rcases h with h | ⟨hnone, hp⟩
      · obtain ⟨before, q, later, rfl, hq, hlater⟩ := ih h
        exact ⟨p :: before, q, later, rfl, hq, hlater⟩
      · exact ⟨[], p, ps, rfl, hp, latest_eq_none_iff.mp hnone⟩
  · rintro ⟨before, p, later, rfl, hp, hlater⟩
    induction before with
    | nil => rw [List.nil_append, latest, latest_eq_none_iff.mpr hlater, hp, Option.none_or]
    | cons q before ih => rw [List.cons_append, latest, ih, Option.some_or]

end Patches
