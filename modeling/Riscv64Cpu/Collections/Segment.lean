import Mathlib.Logic.Function.Basic
import Mathlib.Algebra.Group.Nat.Defs
import Mathlib.Algebra.Group.Int.Defs

set_option relaxedAutoImplicit false
set_option autoImplicit false

/-!
# Lists laid out in a sequence

A list lies in a sequence from a place on, as a string lies in a memory.

## Main definitions

* `Segment.At` — the list lies there.
* `Segment.reversed` — the sequence with a part of it turned around.

## Main results

* `Segment.at_append` — a list of two parts.
* `Segment.At.copy`, `At.reverse` — a copy, and a copy in the opposite order.
* `Segment.reversed_swap` — turning around by exchanging the two ends.
-/

namespace Segment

variable {α : Type*}

/-- The values of `f` from the place `p` on begin with the list. -/
def At (f : ℕ → α) : ℕ → List α → Prop
  | _, [] => True
  | p, x :: l => f p = x ∧ At f (p + 1) l

/-- The empty list lies anywhere. -/
@[simp] lemma at_nil (f : ℕ → α) (p : ℕ) : At f p [] := trivial

/-- A list is its first element and the rest one place further. -/
lemma at_cons (f : ℕ → α) (p : ℕ) (x : α) (l : List α) :
    At f p (x :: l) ↔ f p = x ∧ At f (p + 1) l := Iff.rfl

/-- A list of one element. -/
@[simp] lemma at_singleton (f : ℕ → α) (p : ℕ) (x : α) : At f p [x] ↔ f p = x := by
  rw [at_cons, and_iff_left (at_nil f _)]

/-- Two lists one behind the other. -/
theorem at_append (f : ℕ → α) (l₁ l₂ : List α) :
    ∀ p, At f p (l₁ ++ l₂) ↔ At f p l₁ ∧ At f (p + l₁.length) l₂ := by
  induction l₁ with
  | nil => intro p; simp
  | cons x l₁ ih =>
    intro p
    rw [List.cons_append, at_cons, at_cons, ih, List.length_cons, and_assoc,
      show p + 1 + l₁.length = p + (l₁.length + 1) by omega]

/-- The places one by one. -/
lemma at_iff_get (f : ℕ → α) (l : List α) :
    ∀ p, At f p l ↔ ∀ k (h : k < l.length), f (p + k) = l[k] := by
  induction l with
  | nil => intro p; simp
  | cons x l ih =>
    intro p
    rw [at_cons, ih]
    constructor
    · rintro ⟨hx, hl⟩ k hk
      cases k with
      | zero => exact hx
      | succ k =>
        have h := hl k (by simpa using hk)
        rw [show p + (k + 1) = p + 1 + k by omega, h]
        rfl
    · intro h
      refine ⟨h 0 (by simp), fun k hk => ?_⟩
      have h' := h (k + 1) (by simpa using hk)
      rw [show p + (k + 1) = p + 1 + k by omega] at h'
      exact h'

/-- A list that lies in one sequence lies in a copy of that part of it. -/
theorem At.copy {f g : ℕ → α} {p q : ℕ} {l : List α} (h : At f p l)
    (hg : ∀ k < l.length, g (q + k) = f (p + k)) : At g q l := by
  rw [at_iff_get] at h ⊢
  intro k hk
  rw [hg k hk, h k hk]

/-- In a copy in the opposite order lies the reversed list. -/
theorem At.reverse {f g : ℕ → α} {p q : ℕ} {l : List α} (h : At f p l)
    (hg : ∀ k < l.length, g (q + k) = f (p + (l.length - 1 - k))) : At g q l.reverse := by
  rw [at_iff_get] at h ⊢
  intro k hk
  rw [List.length_reverse] at hk
  rw [hg k hk, h _ (by omega), List.getElem_reverse]

/-- The list as the values of the sequence. -/
lemma At.eq_map {f : ℕ → α} {p : ℕ} {l : List α} (h : At f p l) :
    l = (List.range l.length).map fun k => f (p + k) := by
  rw [at_iff_get] at h
  apply List.ext_getElem
  · simp
  · intro k hk _
    rw [List.getElem_map, List.getElem_range, h k hk]

/-! ## Turning a part around -/

/-- The sequence with the values at the places from `l` to `r` in the opposite order. -/
def reversed (f : ℕ → α) (l r : ℤ) : ℕ → α := fun i =>
  if l ≤ i ∧ i ≤ r then f (l + r - i).toNat else f i

/-- An empty range is not turned around. -/
lemma reversed_of_lt (f : ℕ → α) {l r : ℤ} (h : r < l) : reversed f l r = f := by
  funext i
  rw [reversed, if_neg (by omega)]

/-- **Exchanging the two ends**, then turning around what is between them. -/
theorem reversed_swap (f : ℕ → α) {l r : ℤ} (h0 : 0 ≤ l) (h : l ≤ r) :
    reversed (Function.update (Function.update f l.toNat (f r.toNat)) r.toNat (f l.toNat))
      (l + 1) (r - 1) = reversed f l r := by
  funext i
  unfold reversed
  by_cases hr : (i : ℤ) = r
  · rw [if_neg (by omega), if_pos (by omega), show i = r.toNat by omega, Function.update_self]
    congr 1
    omega
  by_cases hl : (i : ℤ) = l
  · rw [if_neg (by omega), if_pos (by omega), Function.update_of_ne (by omega),
      show i = l.toNat by omega, Function.update_self]
    congr 1
    omega
  by_cases hi : l ≤ i ∧ i ≤ r
  · rw [if_pos (by omega), if_pos hi, Function.update_of_ne (by omega),
      Function.update_of_ne (by omega)]
    congr 1
    omega
  · rw [if_neg (by omega), if_neg hi, Function.update_of_ne (by omega),
      Function.update_of_ne (by omega)]

end Segment
