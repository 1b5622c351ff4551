import Riscv64Cpu.Isa.Asm
import Riscv64Cpu.Isa.Rv64m

set_option relaxedAutoImplicit false
set_option autoImplicit false

/-!
# Division in software

`div.S` for registers of 64 bits: signed and unsigned division and remainder, of double words and
of words.  All of them call `__udivdi3`, which shifts the divisor up to the dividend and subtracts
it while it shifts it down again.

## Main definitions

* `Libgcc.div` — the text, with the entries of its routines.
* `Libgcc.Aligning`, `Subtracting` — the invariants of the two loops.

## Main results

* `Libgcc.within_udivdi3` — the quotient and the remainder of `__udivdi3`.
-/

namespace Riscv64Cpu.Libgcc

open Clocked Rv64i Rv64i.Line

/-- `div.S`. -/
def div : Text where
  lines := [
    -- __udivsi3
    slli a0 a0 32#6,
    slli a1 a1 32#6,
    mv t0 ra,
    jal ra 18,
    sextw a0 a0,
    jr t0,
    -- __umodsi3
    slli a0 a0 32#6,
    slli a1 a1 32#6,
    srli a0 a0 32#6,
    srli a1 a1 32#6,
    mv t0 ra,
    jal ra 18,
    sextw a0 a1,
    jr t0,
    -- __divsi3
    li t0 (-1#12),
    beq a1 t0 61,
    -- __divdi3
    bltz a0 40,
    bltz a1 44,
    -- __udivdi3
    mv a2 a1,
    mv a1 a0,
    li a0 (-1#12),
    beqz a2 35,
    li a3 1#12,
    bgeu a2 a1 28,
    -- .L1
    blez a2 28,
    slli a2 a2 1#6,
    slli a3 a3 1#6,
    bgtu a1 a2 24,
    -- .L2
    li a0 0#12,
    -- .L3
    bltu a1 a2 32,
    sub a1 a1 a2,
    or a0 a0 a3,
    -- .L4
    srli a3 a3 1#6,
    srli a2 a2 1#6,
    bnez a3 29,
    -- .L5
    ret,
    -- __umoddi3
    mv t0 ra,
    jal ra 18,
    mv a0 a1,
    jr t0,
    -- .L10
    neg a0 a0,
    bgtz a1 45,
    neg a1 a1,
    j 18,
    -- .L11
    neg a1 a1,
    -- .L12
    mv t0 ra,
    jal ra 18,
    neg a0 a0,
    jr t0,
    -- __moddi3
    mv t0 ra,
    bltz a1 55,
    bltz a0 57,
    -- .L30
    jal ra 18,
    mv a0 a1,
    jr t0,
    -- .L31
    neg a1 a1,
    bgez a0 52,
    -- .L32
    neg a0 a0,
    jal ra 18,
    neg a0 a1,
    jr t0,
    -- .L20
    slli t0 t0 31#6,
    bne a0 t0 16,
    ret]
  length_le := by decide
  label_lt := by decide

/-! ## The loops of `__udivdi3` -/

section Loops

/-- At `.L1`, with the divisor and the bit for the quotient shifted up by `63 - n`. -/
structure Aligning (x : Regs) (n : ℕ) (y : Regs) : Prop where
  le : n ≤ 63
  divisor : (y.get a2).toNat = (x.get a1).toNat * 2 ^ (63 - n)
  bit : (y.get a3).toNat = 2 ^ (63 - n)
  dividend : y.get a1 = x.get a0
  same : Regs.SameBut [a0, a1, a2, a3] x y

/-- At `.L2`, with the divisor shifted up by `i`, above half of the dividend. -/
structure Aligned (x : Regs) (y : Regs) : Prop where
  shift : ∃ i, (y.get a2).toNat = (x.get a1).toNat * 2 ^ i ∧ (y.get a3).toNat = 2 ^ i ∧
    (x.get a0).toNat < 2 * ((x.get a1).toNat * 2 ^ i)
  dividend : y.get a1 = x.get a0
  same : Regs.SameBut [a0, a1, a2, a3] x y

/-- At `.L3`, with the bits of the quotient above bit `i` found. -/
structure Subtracting (x : Regs) (i : ℕ) (y : Regs) : Prop where
  divisor : (y.get a2).toNat = (x.get a1).toNat * 2 ^ i
  bit : (y.get a3).toNat = 2 ^ i
  quotient : 2 ^ (i + 1) ∣ (y.get a0).toNat
  split : (x.get a0).toNat = (y.get a0).toNat * (x.get a1).toNat + (y.get a1).toNat
  remainder : (y.get a1).toNat < 2 * ((x.get a1).toNat * 2 ^ i)
  same : Regs.SameBut [a0, a1, a2, a3] x y

/-- At `.L4`, with bit `i` of the quotient found. -/
structure Subtracted (x : Regs) (i : ℕ) (y : Regs) : Prop where
  divisor : (y.get a2).toNat = (x.get a1).toNat * 2 ^ i
  bit : (y.get a3).toNat = 2 ^ i
  quotient : 2 ^ i ∣ (y.get a0).toNat
  split : (x.get a0).toNat = (y.get a0).toNat * (x.get a1).toNat + (y.get a1).toNat
  remainder : (y.get a1).toNat < (x.get a1).toNat * 2 ^ i
  same : Regs.SameBut [a0, a1, a2, a3] x y

variable (base : BitVec 64) {x y : Regs}

/-- A double word below half of the range is doubled by a shift. -/
lemma toNat_shiftLeft_one {v : BitVec 64} (h : v.toNat < 2 ^ 63) :
    (v <<< 1).toNat = 2 * v.toNat := by
  rw [BitVec.toNat_shiftLeft, Nat.shiftLeft_eq]
  omega

/-- A shift to the right halves. -/
lemma toNat_ushiftRight_one (v : BitVec 64) : (v >>> 1).toNat = v.toNat / 2 := by
  rw [BitVec.toNat_ushiftRight, Nat.shiftRight_eq_div_pow, Nat.pow_one]

/-- Signed comparison with zero. -/
lemma toInt_pos_iff {v : BitVec 64} : 0 < v.toInt ↔ 0 < v.toNat ∧ v.toNat < 2 ^ 63 := by
  have hlt := v.isLt
  rw [BitVec.toInt_eq_toNat_cond]
  split_ifs <;> omega

/-- A round of the first loop. -/
private lemma within_alignRound (hD : 0 < (x.get a1).toNat) {n : ℕ} (h : Aligning x n y) :
    Within (Hart.step (div.code base)) (fun t =>
      At base 28 (Aligned x) t ∨ ∃ m < n, At base 24 (Aligning x m) t) 4 ⟨addr base 24, y⟩ := by
  have hN := (x.get a0).isLt
  have hdiv := h.divisor
  have hpow : 0 < 2 ^ (63 - n) := Nat.two_pow_pos _
  have hpos : 0 < (y.get a2).toNat := by rw [hdiv]; exact Nat.mul_pos hD hpow
  refine Text.within_line (l := blez a2 28) base rfl ?_
  rw [next_blez]
  split_ifs with hle
  · have htop : 2 ^ 63 ≤ (y.get a2).toNat := by
      by_contra hlt
      have hint := toInt_pos_iff.mpr ⟨hpos, Nat.lt_of_not_le hlt⟩
      omega
    exact Within.now (.inl ⟨y, rfl, ⟨63 - n, hdiv, h.bit, by omega⟩, h.dividend, h.same⟩)
  · obtain ⟨-, hlt⟩ := toInt_pos_iff.mp (Int.not_le.mp hle)
    have hn : n ≠ 0 := by
      rintro rfl
      have hle : 1 * 2 ^ (63 - 0) ≤ (x.get a1).toNat * 2 ^ (63 - 0) := Nat.mul_le_mul_right _ hD
      omega
    obtain ⟨m, rfl⟩ : ∃ m, n = m + 1 := ⟨n - 1, by omega⟩
    have hexp : 2 ^ (63 - m) = 2 * 2 ^ (63 - (m + 1)) := by
      have hle := h.le
      rw [show 63 - m = 63 - (m + 1) + 1 by omega, Nat.pow_succ, Nat.mul_comm]
    have hdiv' : (y.get a2 <<< 1).toNat = (x.get a1).toNat * 2 ^ (63 - m) := by
      rw [toNat_shiftLeft_one hlt, hdiv, hexp, Nat.mul_left_comm]
    have hbit' : (y.get a3 <<< 1).toNat = 2 ^ (63 - m) := by
      have hle : 1 * 2 ^ (63 - (m + 1)) ≤ (x.get a1).toNat * 2 ^ (63 - (m + 1)) :=
        Nat.mul_le_mul_right _ hD
      have hbit := h.bit
      rw [toNat_shiftLeft_one (by omega), hbit, hexp]
    have hsame := (h.same.set a2 (by decide) (y.get a2 <<< 1)).set a3 (by decide)
      (y.get a3 <<< 1)
    refine Text.within_line (l := slli a2 a2 1#6) base rfl ?_
    rw [next_slli]
    refine Text.within_line (l := slli a3 a3 1#6) base rfl ?_
    rw [next_slli]
    refine Text.within_line (l := bgtu a1 a2 24) base rfl ?_
    rw [next_bgtu]
    split_ifs with hgt
    · refine Within.now
        (.inr ⟨m, by omega, _, rfl, ⟨by have hle := h.le; omega, ?_, ?_, ?_, hsame⟩⟩)
      · simpa using hdiv'
      · simpa using hbit'
      · simpa using h.dividend
    · have hgt : ¬y.get a2 <<< 1 < x.get a0 := by
        rw [← h.dividend]
        simpa using hgt
      rw [BitVec.lt_def, hdiv'] at hgt
      have hpow : 0 < (x.get a1).toNat * 2 ^ (63 - m) := Nat.mul_pos hD (Nat.two_pow_pos _)
      refine Within.now (.inl ⟨_, rfl, ⟨63 - m, ?_, ?_, by omega⟩, ?_, hsame⟩)
      · simpa using hdiv'
      · simpa using hbit'
      · simpa using h.dividend

/-- A round of the second loop, up to `.L4`. -/
private lemma within_subtract {i : ℕ} (h : Subtracting x i y) :
    Within (Hart.step (div.code base)) (At base 32 (Subtracted x i)) 3 ⟨addr base 29, y⟩ := by
  have hsplit := h.split
  have hrem := h.remainder
  obtain ⟨q, hq⟩ := h.quotient
  have hq' : (y.get a0).toNat = 2 ^ i * (2 * q) := by rw [hq, Nat.pow_succ, Nat.mul_assoc]
  refine Text.within_line (l := bltu a1 a2 32) base rfl ?_
  rw [next_bltu]
  split_ifs with hlt
  · rw [BitVec.lt_def, h.divisor] at hlt
    exact Within.now ⟨y, rfl, h.divisor, h.bit, ⟨2 * q, hq'⟩, hsplit, hlt, h.same⟩
  · rw [BitVec.lt_def, h.divisor] at hlt
    have hsub : (y.get a1 - y.get a2).toNat = (y.get a1).toNat - (x.get a1).toNat * 2 ^ i := by
      rw [BitVec.toNat_sub_of_le (by rw [BitVec.le_def, h.divisor]; omega), h.divisor]
    have hor : (y.get a0 ||| y.get a3).toNat = (y.get a0).toNat + 2 ^ i := by
      rw [BitVec.toNat_or, h.bit, hq, ← Nat.two_pow_add_eq_or_of_lt
        (Nat.pow_lt_pow_right (by decide) (Nat.lt_succ_self i))]
    refine Text.within_line (l := sub a1 a1 a2) base rfl ?_
    rw [next_sub]
    refine Text.within_line (l := or a0 a0 a3) base rfl ?_
    rw [next_or]
    refine Within.now ⟨_, rfl, ?_, ?_, ⟨2 * q + 1, ?_⟩, ?_, ?_,
      (h.same.set _ (by decide) _).set _ (by decide) _⟩
    · simpa using h.divisor
    · simpa using h.bit
    · have hnew : (y.get a0 ||| y.get a3).toNat = 2 ^ i * (2 * q + 1) := by
        rw [hor, hq', Nat.mul_add, Nat.mul_one]
      simpa using hnew
    · have hnew : (x.get a0).toNat = (y.get a0 ||| y.get a3).toNat * (x.get a1).toNat +
          (y.get a1 - y.get a2).toNat := by
        rw [hor, hsub, Nat.add_mul, Nat.mul_comm (2 ^ i)]
        omega
      simpa using hnew
    · have hnew : (y.get a1 - y.get a2).toNat < (x.get a1).toNat * 2 ^ i := by
        rw [hsub]
        omega
      simpa using hnew

/-- The results of `__udivdi3`, for the arguments in `x`. -/
structure Divided (x z : Regs) : Prop where
  quotient : z.get a0 = Rv64m.divu (x.get a0) (x.get a1)
  remainder : z.get a1 = Rv64m.remu (x.get a0) (x.get a1)

/-- Quotient and remainder are unique. -/
private lemma divided_of_split {z : Regs}
    (hsplit : (x.get a0).toNat = (z.get a0).toNat * (x.get a1).toNat + (z.get a1).toNat)
    (hrem : (z.get a1).toNat < (x.get a1).toNat) : Divided x z := by
  have hb : x.get a1 ≠ 0#64 := by
    rintro h0
    rw [h0, BitVec.toNat_zero] at hrem
    exact Nat.not_lt_zero _ hrem
  obtain ⟨hq, hr⟩ := (Nat.div_mod_unique (Nat.zero_lt_of_lt hrem)).mpr
    ⟨show (z.get a1).toNat + (x.get a1).toNat * (z.get a0).toNat = (x.get a0).toNat by
      rw [hsplit, Nat.add_comm, Nat.mul_comm], hrem⟩
  exact ⟨by rw [Rv64m.divu, if_neg hb, hq, BitVec.ofNat_toNat, BitVec.setWidth_eq],
    by rw [Rv64m.remu, if_neg hb, hr, BitVec.ofNat_toNat, BitVec.setWidth_eq]⟩

/-- A round of the second loop returns or comes back to `.L3` for the next bit. -/
private lemma within_subtractRound {i : ℕ} (h : Subtracting x i y) :
    Within (Hart.step (div.code base)) (fun t =>
      Returned x [a0, a1, a2, a3] (Divided x) t ∨ ∃ m < i, At base 29 (Subtracting x m) t) 7
      ⟨addr base 29, y⟩ := by
  refine (within_subtract base h).bind (n := 4) ?_
  rintro t ⟨z, rfl, hz⟩
  have hsame := (hz.same.set a3 (by decide) (z.get a3 >>> 1)).set a2 (by decide)
    (z.get a2 >>> 1)
  refine Text.within_line (l := srli a3 a3 1#6) base rfl ?_
  rw [next_srli]
  refine Text.within_line (l := srli a2 a2 1#6) base rfl ?_
  rw [next_srli]
  refine Text.within_line (l := bnez a3 29) base rfl ?_
  rw [next_bnez]
  have hbit : (z.get a3 >>> 1).toNat = 2 ^ i / 2 := by rw [toNat_ushiftRight_one, hz.bit]
  cases i with
  | zero =>
    have hzero : z.get a3 >>> 1 = 0#64 := BitVec.eq_of_toNat_eq hbit
    rw [if_neg (by simpa using hzero)]
    have hdiv : Divided x z := by
      have hrem := hz.remainder
      rw [Nat.pow_zero, Nat.mul_one] at hrem
      exact divided_of_split hz.split hrem
    refine (Text.within_ret rfl hsame (by decide) ⟨?_, ?_⟩).imp fun _ => Or.inl
    · simpa using hdiv.quotient
    · simpa using hdiv.remainder
  | succ i =>
    have hhalf : 2 ^ (i + 1) / 2 = 2 ^ i := by rw [Nat.pow_succ, Nat.mul_div_cancel _ (by decide)]
    rw [hhalf] at hbit
    have hdiv : (z.get a2 >>> 1).toNat = (x.get a1).toNat * 2 ^ i := by
      rw [toNat_ushiftRight_one, hz.divisor, Nat.pow_succ, ← Nat.mul_assoc,
        Nat.mul_div_cancel _ (by decide)]
    have hne : z.get a3 >>> 1 ≠ 0#64 := by
      intro h0
      rw [h0, BitVec.toNat_zero] at hbit
      exact absurd hbit (Nat.ne_of_lt (Nat.two_pow_pos i))
    have hrem : (z.get a1).toNat < 2 * ((x.get a1).toNat * 2 ^ i) := by
      have hlt := hz.remainder
      rwa [Nat.pow_succ, ← Nat.mul_assoc, Nat.mul_comm _ 2] at hlt
    rw [if_pos (by simpa using hne)]
    refine Within.now (.inr ⟨i, Nat.lt_succ_self i, _, rfl, ?_, ?_, ?_, ?_, ?_, hsame⟩)
    · simpa using hdiv
    · simpa using hbit
    · simpa using hz.quotient
    · simpa using hz.split
    · simpa using hrem

/-- From `.L2` to the return. -/
lemma within_aligned (h : Aligned x y) :
    Within (Hart.step (div.code base)) (Returned x [a0, a1, a2, a3] (Divided x)) 449
      ⟨addr base 28, y⟩ := by
  obtain ⟨i, hdiv, hbit, hN⟩ := h.shift
  have hi : i < 64 := by
    have hlt := (y.get a3).isLt
    rw [hbit] at hlt
    exact (Nat.pow_lt_pow_iff_right (by decide)).mp hlt
  refine Text.within_line (l := li a0 0#12) base rfl ?_
  rw [next_li]
  have hinv : Subtracting x i (y.set a0 ((0#12).signExtend 64)) := by
    refine ⟨?_, ?_, ?_, ?_, ?_, h.same.set _ (by decide) _⟩
    · simpa using hdiv
    · simpa using hbit
    · simp
    · simpa using congrArg BitVec.toNat h.dividend.symm
    · rw [← h.dividend] at hN
      simpa using hN
  exact (Text.within_loop base 29 (fun n y => within_subtractRound base) i _ hinv).mono (by omega)

end Loops

/-! ## `__udivdi3` -/

/-- **`__udivdi3`** returns within 711 instructions, with the quotient in `a0` and the remainder in
`a1`.

**Proof sketch.** A zero divisor is returned on at once.  Otherwise the loop rule is used for each
of the two loops, with the distance to a shift by 63 and with the shift as the variants. -/
theorem within_udivdi3 (base : BitVec 64) (x : Regs) :
    Within (Hart.step (div.code base)) (Returned x [a0, a1, a2, a3] (Divided x)) 711
      ⟨addr base 18, x⟩ := by
  have hsame := (((Regs.SameBut.refl x [a0, a1, a2, a3]).set a2 (by decide)
    (x.get a1)).set a1 (by decide) (x.get a0)).set a0 (by decide)
    ((-1#12).signExtend 64)
  refine Text.within_line (l := mv a2 a1) base rfl ?_
  rw [next_mv]
  refine Text.within_line (l := mv a1 a0) base rfl ?_
  rw [next_mv]
  refine Text.within_line (l := li a0 (-1#12)) base rfl ?_
  rw [next_li]
  refine Text.within_line (l := beqz a2 35) base rfl ?_
  rw [next_beqz]
  split_ifs with hzero
  · have hzero : x.get a1 = 0#64 := by simpa using hzero
    refine (Text.within_ret rfl hsame (by decide) ⟨?_, ?_⟩).mono (by decide)
    · simp [Rv64m.divu, hzero, BitVec.neg_one_eq_allOnes]
    · simp [Rv64m.remu, hzero]
  · have hne : x.get a1 ≠ 0#64 := by simpa using hzero
    have hD : 0 < (x.get a1).toNat := BitVec.toNat_pos_of_ne_zero hne
    refine Text.within_line (l := li a3 1#12) base rfl ?_
    rw [next_li]
    refine Text.within_line (l := bgeu a2 a1 28) base rfl ?_
    rw [next_bgeu]
    split_ifs with hle
    · have hle : (x.get a0).toNat ≤ (x.get a1).toNat := by simpa [BitVec.le_def] using hle
      refine (within_aligned base ⟨⟨0, ?_, ?_, by omega⟩, ?_, hsame.set _ (by decide) _⟩).mono
        (by decide)
      · simp
      · simp
      · simp
    · refine (Within.bind (n := 449) (Text.within_loop base 24
        (fun n y => within_alignRound base hD) 63 _ ⟨Nat.le_refl 63, ?_, ?_, ?_,
          hsame.set _ (by decide) _⟩) ?_).mono (by decide)
      · simp
      · simp
      · simp
      · rintro t ⟨z, rfl, hz⟩
        exact within_aligned base hz

end Riscv64Cpu.Libgcc
