import Riscv64Cpu.Isa.Rv64m

set_option relaxedAutoImplicit false
set_option autoImplicit false

/-!
# Division by magnitudes

The division instructions of RV64M in terms of each other, as software uses them: the signed ones
from the unsigned ones on the magnitudes of the operands, and the ones on words from the ones on
double words.

## Main results

* `Rv64m.div_of_nonneg_nonneg`, … — a signed quotient, by the signs of the operands.
* `Rv64m.rem_of_nonneg`, `rem_of_neg` — a signed remainder, by the sign of the dividend.
* `Rv64m.div_signExtend`, `rem_signExtend` — words divided as double words.
* `Rv64m.divu_shiftLeft`, `remu_setWidth` — unsigned words divided as double words.
-/

namespace Rv64m

/-! ## Signed division from unsigned division -/

section Magnitudes

variable {n : ℕ} {a b : BitVec n}

/-- The sign bit of a number that is not negative. -/
lemma msb_of_nonneg (h : 0 ≤ a.toInt) : a.msb = false := by
  rw [BitVec.msb_eq_toInt]
  exact decide_eq_false (Int.not_lt.mpr h)

/-- The sign bit of a negative number. -/
lemma msb_of_neg (h : a.toInt < 0) : a.msb = true := by
  rw [BitVec.msb_eq_toInt]
  exact decide_eq_true h

/-- A negative number is not zero. -/
private lemma ne_zero_of_neg (h : a.toInt < 0) : a ≠ 0#n := by
  rintro rfl
  exact absurd h (by rw [BitVec.toInt_zero]; decide)

/-- The magnitude of a number that is not zero is not zero. -/
lemma neg_ne_zero (h : a ≠ 0#n) : -a ≠ 0#n := fun h0 => h (BitVec.neg_eq_zero_iff.mp h0)

/-- The quotient of numbers that are not negative. -/
theorem div_of_nonneg_nonneg (ha : 0 ≤ a.toInt) (hb : 0 ≤ b.toInt) : div a b = divu a b := by
  by_cases h0 : b = 0#n
  · rw [div, divu, if_pos h0, if_pos h0]
  · rw [div_eq_sdiv h0, divu_eq_udiv h0, BitVec.sdiv_eq, msb_of_nonneg ha, msb_of_nonneg hb]
    rfl

/-- The quotient by a negative number. -/
lemma div_of_nonneg_neg (ha : 0 ≤ a.toInt) (hb : b.toInt < 0) : div a b = -divu a (-b) := by
  have h0 := ne_zero_of_neg hb
  rw [div_eq_sdiv h0, divu_eq_udiv (neg_ne_zero h0), BitVec.sdiv_eq, msb_of_nonneg ha,
    msb_of_neg hb]
  rfl

/-- The quotient of a negative number. -/
lemma div_of_neg_pos (ha : a.toInt < 0) (hb : 0 < b.toInt) : div a b = -divu (-a) b := by
  have h0 : b ≠ 0#n := by
    rintro rfl
    exact absurd hb (by rw [BitVec.toInt_zero]; decide)
  rw [div_eq_sdiv h0, divu_eq_udiv h0, BitVec.sdiv_eq, msb_of_neg ha,
    msb_of_nonneg (Int.le_of_lt hb)]
  rfl

/-- The quotient of a negative number by a negative number, or by zero. -/
lemma div_of_neg_nonpos (ha : a.toInt < 0) (hb : b.toInt ≤ 0) : div a b = divu (-a) (-b) := by
  by_cases h0 : b = 0#n
  · rw [div, divu, if_pos h0, if_pos (by rw [h0, BitVec.neg_zero])]
  · have hneg : b.toInt < 0 := by
      have hne : b.toInt ≠ (0#n).toInt := fun h => h0 (BitVec.eq_of_toInt_eq h)
      rw [BitVec.toInt_zero] at hne
      omega
    rw [div_eq_sdiv h0, divu_eq_udiv (neg_ne_zero h0), BitVec.sdiv_eq, msb_of_neg ha,
      msb_of_neg hneg]
    rfl

/-- The remainder of a number that is not negative, by the magnitude of the divisor. -/
theorem rem_of_nonneg (ha : 0 ≤ a.toInt) :
    rem a b = remu a (if b.toInt < 0 then -b else b) := by
  by_cases h0 : b = 0#n
  · rw [h0, rem, if_pos rfl, BitVec.toInt_zero, if_neg (by decide), remu, if_pos rfl]
  · split_ifs with hb
    · rw [rem_eq_srem h0, remu_eq_umod (neg_ne_zero h0), BitVec.srem_eq, msb_of_nonneg ha,
        msb_of_neg hb]
    · rw [rem_eq_srem h0, remu_eq_umod h0, BitVec.srem_eq, msb_of_nonneg ha,
        msb_of_nonneg (Int.not_lt.mp hb)]

/-- The remainder of a negative number, by the magnitude of the divisor. -/
theorem rem_of_neg (ha : a.toInt < 0) :
    rem a b = -remu (-a) (if b.toInt < 0 then -b else b) := by
  by_cases h0 : b = 0#n
  · rw [h0, rem, if_pos rfl, BitVec.toInt_zero, if_neg (by decide), remu, if_pos rfl,
      BitVec.neg_neg]
  · split_ifs with hb
    · rw [rem_eq_srem h0, remu_eq_umod (neg_ne_zero h0), BitVec.srem_eq, msb_of_neg ha,
        msb_of_neg hb]
    · rw [rem_eq_srem h0, remu_eq_umod h0, BitVec.srem_eq, msb_of_neg ha,
        msb_of_nonneg (Int.not_lt.mp hb)]

end Magnitudes

/-! ## Division of words as division of double words -/

section Words

variable (p q : BitVec 32)

/-- The extension of a word has its value. -/
lemma toInt_signExtend_word : (p.signExtend 64).toInt = p.toInt :=
  BitVec.toInt_signExtend_of_le (by decide)

/-- The extension of a word is zero for the word zero only. -/
lemma signExtend_eq_zero_iff : p.signExtend 64 = 0#64 ↔ p = 0#32 := by
  rw [← BitVec.toInt_inj, toInt_signExtend_word, ← BitVec.toInt_inj, BitVec.toInt_zero,
    BitVec.toInt_zero]

/-- A sign extended word is not the least double word. -/
private lemma signExtend_ne_intMin : p.signExtend 64 ≠ BitVec.intMin 64 := by
  intro h
  have hint := congrArg BitVec.toInt h
  have hle := BitVec.le_toInt p
  rw [toInt_signExtend_word, BitVec.toInt_intMin_of_pos (by decide)] at hint
  omega

/-- **Words divided as double words**, but for the quotient that is no word. -/
theorem div_signExtend (h : ¬(p = BitVec.intMin 32 ∧ q = -1#32)) :
    div (p.signExtend 64) (q.signExtend 64) = (div p q).signExtend 64 := by
  by_cases h0 : q = 0#32
  · rw [div, div, if_pos ((signExtend_eq_zero_iff q).mpr h0), if_pos h0]
    decide
  · rw [div_eq_sdiv h0, div_eq_sdiv (mt (signExtend_eq_zero_iff q).mp h0)]
    apply BitVec.eq_of_toInt_eq
    have hor : p ≠ BitVec.intMin 32 ∨ q ≠ -1#32 := Decidable.not_and_iff_or_not.mp h
    rw [toInt_signExtend_word, BitVec.toInt_sdiv_of_ne_or_ne _ _ (.inl (signExtend_ne_intMin p)),
      BitVec.toInt_sdiv_of_ne_or_ne _ _ hor, toInt_signExtend_word, toInt_signExtend_word]

/-- The remainder of words is that of double words. -/
theorem rem_signExtend : rem (p.signExtend 64) (q.signExtend 64) = (rem p q).signExtend 64 := by
  by_cases h0 : q = 0#32
  · rw [rem, rem, if_pos ((signExtend_eq_zero_iff q).mpr h0), if_pos h0]
  · rw [rem_eq_srem h0, rem_eq_srem (mt (signExtend_eq_zero_iff q).mp h0)]
    apply BitVec.eq_of_toInt_eq
    rw [toInt_signExtend_word, BitVec.toInt_srem, BitVec.toInt_srem, toInt_signExtend_word,
      toInt_signExtend_word]

/-- Words in the upper halves have the same quotient. -/
theorem divu_shiftLeft (a b : BitVec 64) :
    (divu (a <<< 32) (b <<< 32)).setWidth 32 = divu (a.setWidth 32) (b.setWidth 32) := by
  have hshift : ∀ v : BitVec 64, (v <<< 32).toNat = (v.setWidth 32).toNat * 2 ^ 32 := by
    intro v
    rw [BitVec.toNat_shiftLeft, BitVec.toNat_setWidth, Nat.shiftLeft_eq]
    omega
  have hzero : b <<< 32 = 0#64 ↔ b.setWidth 32 = 0#32 := by
    rw [← BitVec.toNat_inj, hshift, ← BitVec.toNat_inj, BitVec.toNat_zero, BitVec.toNat_zero]
    omega
  by_cases h0 : b.setWidth 32 = 0#32
  · rw [divu, divu, if_pos (hzero.mpr h0), if_pos h0]
    decide
  · apply BitVec.eq_of_toNat_eq
    rw [divu, divu, if_neg (mt hzero.mp h0), if_neg h0, hshift, hshift,
      Nat.mul_div_mul_right _ _ (by decide), BitVec.toNat_setWidth, BitVec.toNat_ofNat,
      BitVec.toNat_ofNat]
    have hle := Nat.div_le_self (a.setWidth 32).toNat (b.setWidth 32).toNat
    omega

/-- Words with zeros above them have the same remainder. -/
theorem remu_setWidth (p q : BitVec 32) :
    (remu (p.setWidth 64) (q.setWidth 64)).setWidth 32 = remu p q := by
  have hwide : ∀ v : BitVec 32, (v.setWidth 64).toNat = v.toNat := by
    intro v
    rw [BitVec.toNat_setWidth]
    omega
  have hzero : q.setWidth 64 = 0#64 ↔ q = 0#32 := by
    rw [← BitVec.toNat_inj, hwide, ← BitVec.toNat_inj, BitVec.toNat_zero, BitVec.toNat_zero]
  by_cases h0 : q = 0#32
  · rw [remu, remu, if_pos (hzero.mpr h0), if_pos h0]
    exact BitVec.setWidth_setWidth_of_le p (by decide)
  · apply BitVec.eq_of_toNat_eq
    rw [remu, remu, if_neg (mt hzero.mp h0), if_neg h0, hwide, hwide, BitVec.toNat_setWidth,
      BitVec.toNat_ofNat, BitVec.toNat_ofNat]
    have hle := Nat.mod_le p.toNat q.toNat
    omega

end Words

end Rv64m
