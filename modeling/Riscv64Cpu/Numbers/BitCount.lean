import Mathlib.Algebra.Group.Nat.Defs

set_option relaxedAutoImplicit false
set_option autoImplicit false

/-!
# Leading and trailing zeros by halving

How many zeros a number of `w` bits has above its first and below its last one, and how both are
found by looking at halves of the number.

## Main definitions

* `BitCount.Leads`, `Trails` — the number of leading and of trailing zeros.

## Main results

* `BitCount.Leads.lower`, `upper` — the first one in the lower or in the upper half.
* `BitCount.Trails.lower`, `upper` — the last one in the lower or in the upper half.
* `BitCount.leads_clz`, `trails_ctz` — the counts of bit vectors.
-/

namespace BitCount

/-- The `w` bits of `x` start with `c` zeros and a one. -/
structure Leads (w x c : ℕ) : Prop where
  lt : c < w
  le : 2 ^ (w - 1 - c) ≤ x
  above : x < 2 ^ (w - c)

/-- The bits of `x` end with a one and `c` zeros. -/
structure Trails (x c : ℕ) : Prop where
  dvd : 2 ^ c ∣ x
  odd : x / 2 ^ c % 2 = 1

variable {u v w x c c' : ℕ}

/-! ## Leading zeros -/

/-- The first one is in the lower half. -/
theorem Leads.lower (h : Leads v x c) : Leads (u + v) x (u + c) := by
  have hlt := h.lt
  refine ⟨by omega, ?_, ?_⟩
  · rw [show u + v - 1 - (u + c) = v - 1 - c by omega]
    exact h.le
  · rw [show u + v - (u + c) = v - c by omega]
    exact h.above

/-- The first one is in the upper half. -/
theorem Leads.upper (h : Leads u (x / 2 ^ v) c) : Leads (u + v) x c := by
  have hlt := h.lt
  refine ⟨by omega, ?_, ?_⟩
  · rw [show u + v - 1 - c = u - 1 - c + v by omega, Nat.pow_add]
    exact (Nat.le_div_iff_mul_le (Nat.two_pow_pos v)).1 h.le
  · rw [show u + v - c = u - c + v by omega, Nat.pow_add]
    exact (Nat.div_lt_iff_lt_mul (Nat.two_pow_pos v)).1 h.above

/-- There is one number of leading zeros. -/
lemma Leads.unique (h : Leads w x c) (h' : Leads w x c') : c = c' := by
  have hle : ∀ {c c' : ℕ}, Leads w x c → Leads w x c' → c ≤ c' := by
    intro c c' h h'
    refine Nat.le_of_not_lt fun hlt => ?_
    have hpow : 2 ^ (w - c) ≤ 2 ^ (w - 1 - c') := Nat.pow_le_pow_right (by decide) (by omega)
    have hle := h'.le
    have habove := h.above
    omega
  exact Nat.le_antisymm (hle h h') (hle h' h)

/-- The leading zeros of a bit vector. -/
theorem leads_clz {x : BitVec w} (hx : x ≠ 0#w) : Leads w x.toNat x.clz.toNat := by
  have hlt : x.clz.toNat < w := by
    have h := BitVec.clz_lt_iff_ne_zero.2 hx
    have hw : w < 2 ^ w := Nat.lt_two_pow_self
    simpa [BitVec.lt_def, Nat.mod_eq_of_lt hw] using h
  refine ⟨hlt, ?_, BitVec.toNat_lt_two_pow_sub_clz⟩
  exact BitVec.two_pow_sub_clz_le_toNat_of_ne_zero (by omega) hx

/-! ## Trailing zeros -/

/-- The last one is in the upper part. -/
theorem Trails.upper (hv : 2 ^ v ∣ x) (h : Trails (x / 2 ^ v) c) : Trails x (c + v) := by
  constructor
  · obtain ⟨y, rfl⟩ := hv
    rw [Nat.mul_div_cancel_left _ (Nat.two_pow_pos v)] at h
    rw [Nat.pow_add, Nat.mul_comm]
    exact Nat.mul_dvd_mul_left _ h.dvd
  · rw [Nat.pow_add, Nat.mul_comm, ← Nat.div_div_eq_div_mul]
    exact h.odd

/-- The last one is in the lower part. -/
theorem Trails.lower (hc : c < v) (h : Trails (x % 2 ^ v) c) : Trails x c := by
  have hdvd : 2 ^ (c + 1) ∣ 2 ^ v := Nat.pow_dvd_pow 2 hc
  have hmod : x % 2 ^ v % 2 ^ (c + 1) = x % 2 ^ (c + 1) := Nat.mod_mod_of_dvd x hdvd
  have hbit : ∀ y, y / 2 ^ c % 2 = y % 2 ^ (c + 1) / 2 ^ c := fun y => by
    rw [Nat.pow_succ, Nat.mod_mul_right_div_self]
  constructor
  · have h0 := Nat.mod_mod_of_dvd x (Nat.pow_dvd_pow 2 (Nat.le_of_lt hc))
    rw [Nat.mod_eq_zero_of_dvd h.dvd] at h0
    exact Nat.dvd_of_mod_eq_zero h0.symm
  · rw [hbit, ← hmod, ← hbit]
    exact h.odd

/-- There is one number of trailing zeros. -/
lemma Trails.unique (h : Trails x c) (h' : Trails x c') : c = c' := by
  have hle : ∀ {c c' : ℕ}, Trails x c → Trails x c' → c ≤ c' := by
    intro c c' h h'
    refine Nat.le_of_not_lt fun hlt => ?_
    have hdvd : 2 ^ (c' + 1) ∣ x := Nat.dvd_trans (Nat.pow_dvd_pow 2 (by omega)) h.dvd
    obtain ⟨y, rfl⟩ := hdvd
    have hodd := h'.odd
    rw [Nat.pow_succ, Nat.mul_assoc, Nat.mul_div_cancel_left _ (Nat.two_pow_pos c')] at hodd
    omega
  exact Nat.le_antisymm (hle h h') (hle h' h)

/-- The trailing zeros of a bit vector. -/
theorem trails_ctz {x : BitVec w} (hx : x ≠ 0#w) : Trails x.toNat x.ctz.toNat := by
  constructor
  · apply Nat.dvd_of_mod_eq_zero
    apply Nat.eq_of_testBit_eq
    intro i
    rw [Nat.testBit_mod_two_pow, Nat.zero_testBit]
    by_cases hi : i < x.ctz.toNat
    · have hbit : x.toNat.testBit i = false := BitVec.getLsbD_false_of_lt_ctz hi
      rw [hbit, Bool.and_false]
    · rw [decide_eq_false hi, Bool.false_and]
  · have hbit : x.toNat.testBit x.ctz.toNat = true := BitVec.getLsbD_true_ctz_of_ne_zero hx
    rw [Nat.testBit_eq_decide_div_mod_eq] at hbit
    exact of_decide_eq_true hbit

end BitCount
