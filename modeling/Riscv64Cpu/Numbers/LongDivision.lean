import Mathlib.Algebra.Group.Nat.Defs
import Mathlib.Tactic.SplitIfs

set_option relaxedAutoImplicit false
set_option autoImplicit false

/-!
# Binary long division

The dividend goes into the remainder bit by bit, from the most significant one on, and the divisor
is subtracted where it fits.

## Main definitions

* `LongDivision.Partial` — the division of the dividend without its last `j` bits.

## Main results

* `LongDivision.Partial.next` — one more bit.
* `LongDivision.Partial.finish` — the quotient and the remainder.
-/

namespace LongDivision

/-- `n` without its last `j` bits has the quotient `k` by `d` and the remainder `r`. -/
structure Partial (n d j k r : ℕ) : Prop where
  eq : n / 2 ^ j = k * d + r
  lt : r < d

variable {n d j k r : ℕ}

/-- A beginning of the dividend that is below the divisor. -/
lemma Partial.start (h : n / 2 ^ j < d) : Partial n d j 0 (n / 2 ^ j) :=
  ⟨by rw [Nat.zero_mul, Nat.zero_add], h⟩

/-- The remainder with one more bit is below twice the divisor. -/
lemma Partial.shifted_lt (h : Partial n d j k r) (m : ℕ) : 2 * r + m % 2 < 2 * d := by
  have hr := h.lt
  omega

/-- The dividend with one more bit. -/
lemma Partial.shifted_eq (h : Partial n d (j + 1) k r) :
    n / 2 ^ j = 2 * k * d + (2 * r + n / 2 ^ j % 2) := by
  have heq := h.eq
  rw [Nat.pow_succ, ← Nat.div_div_eq_div_mul] at heq
  have hmod := Nat.div_add_mod (n / 2 ^ j) 2
  rw [heq, Nat.mul_add, ← Nat.mul_assoc] at hmod
  omega

/-- **One more bit.** -/
theorem Partial.next (h : Partial n d (j + 1) k r) :
    Partial n d j (2 * k + if d ≤ 2 * r + n / 2 ^ j % 2 then 1 else 0)
      (if d ≤ 2 * r + n / 2 ^ j % 2 then 2 * r + n / 2 ^ j % 2 - d
        else 2 * r + n / 2 ^ j % 2) := by
  have hlt := h.shifted_lt (n / 2 ^ j)
  have heq := h.shifted_eq
  split_ifs with hd
  · refine ⟨?_, by omega⟩
    rw [Nat.add_mul, Nat.one_mul]
    omega
  · exact ⟨by rwa [Nat.add_zero], by omega⟩

/-- A quotient has no more bits than the dividend that it is of. -/
lemma Partial.quotient_le (h : Partial n d j k r) : k ≤ n / 2 ^ j := by
  have hd : 0 < d := Nat.lt_of_le_of_lt (Nat.zero_le r) h.lt
  have hle : k * 1 ≤ k * d := Nat.mul_le_mul_left k hd
  rw [h.eq]
  omega

/-- **The end.** -/
theorem Partial.finish (h : Partial n d 0 k r) : k = n / d ∧ r = n % d := by
  have hd : 0 < d := Nat.lt_of_le_of_lt (Nat.zero_le r) h.lt
  have heq := h.eq
  rw [Nat.pow_zero, Nat.div_one, Nat.mul_comm] at heq
  have huniq := (Nat.div_mod_unique hd).2 ⟨(Nat.add_comm _ _).trans heq.symm, h.lt⟩
  exact ⟨huniq.1.symm, huniq.2.symm⟩

end LongDivision
