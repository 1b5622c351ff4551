import Riscv64Cpu.Isa.Asm
import Riscv64Cpu.Isa.Rv64m

set_option relaxedAutoImplicit false
set_option autoImplicit false

/-!
# Multiplication in software

`muldi3.S`, the product of two registers by shifts and additions.

## Main definitions

* `Libgcc.muldi3` — the text.
* `Libgcc.MulInv` — the invariant of its loop.

## Main results

* `Libgcc.within_muldi3` — the routine returns with the product.
-/

namespace Riscv64Cpu.Libgcc

open Clocked Rv64i Rv64i.Line

/-- `muldi3.S`. -/
def muldi3 : Text where
  lines := [
    mv a2 a0,
    li a0 0#12,
    -- .L1
    andi a3 a1 1#12,
    beqz a3 5,
    add a0 a0 a2,
    -- .L2
    srli a1 a1 1#6,
    slli a2 a2 1#6,
    bnez a1 2,
    ret]
  length_le := by decide
  label_lt := by decide

/-! ## The loop -/

/-- A product, from that of the shifted factors and the bit shifted out. -/
private lemma mul_eq_shift (p q : BitVec 64) :
    p * q = (p <<< 1) * (q >>> 1) + p * (q &&& 1#64) := by
  have hbit : (q &&& 1#64).toNat = q.toNat % 2 := by
    rw [BitVec.toNat_and]
    exact Nat.and_one_is_mod _
  have hq : q = (q >>> 1) * 2#64 + (q &&& 1#64) := by
    apply BitVec.eq_of_toNat_eq
    have hlt := q.isLt
    rw [BitVec.toNat_add, BitVec.toNat_mul, BitVec.toNat_ushiftRight, hbit,
      Nat.shiftRight_eq_div_pow]
    simp only [BitVec.toNat_ofNat]
    omega
  have hp : p <<< 1 = p * 2#64 := by
    apply BitVec.eq_of_toNat_eq
    rw [BitVec.toNat_shiftLeft, BitVec.toNat_mul, Nat.shiftLeft_eq]
    rfl
  calc p * q = p * ((q >>> 1) * 2#64 + (q &&& 1#64)) := by rw [← hq]
    _ = (p * 2#64) * (q >>> 1) + p * (q &&& 1#64) := by
      rw [BitVec.mul_add, BitVec.mul_comm (q >>> 1), BitVec.mul_assoc]
    _ = (p <<< 1) * (q >>> 1) + p * (q &&& 1#64) := by rw [hp]

/-- The lowest bit is zero or one. -/
private lemma and_one_eq (q : BitVec 64) : q &&& 1#64 = 0#64 ∨ q &&& 1#64 = 1#64 := by
  have hbit : (q &&& 1#64).toNat = q.toNat % 2 := by
    rw [BitVec.toNat_and]
    exact Nat.and_one_is_mod _
  rcases Nat.mod_two_eq_zero_or_one q.toNat with h | h
  · exact .inl (BitVec.eq_of_toNat_eq (hbit.trans h))
  · exact .inr (BitVec.eq_of_toNat_eq (hbit.trans h))

/-- The invariant at `.L1`, for the arguments in `x` and `n + 1` bits of the second factor left:
the sum so far and the product still to add make the product of the arguments. -/
structure MulInv (x : Regs) (n : ℕ) (y : Regs) : Prop where
  product : y.get a0 + y.get a2 * y.get a1 = x.get a0 * x.get a1
  bits : (y.get a1).toNat < 2 ^ (n + 1)
  same : Regs.SameBut [a0, a1, a2, a3] x y

section Loop

variable (base : BitVec 64) {x y : Regs} {n : ℕ}

/-- The registers at `.L2`: the bit has been added. -/
structure MulBit (x : Regs) (n : ℕ) (y : Regs) : Prop where
  product : y.get a0 + (y.get a2 <<< 1) * (y.get a1 >>> 1) = x.get a0 * x.get a1
  bits : (y.get a1).toNat < 2 ^ (n + 1)
  same : Regs.SameBut [a0, a1, a2, a3] x y

/-- From `.L1` to `.L2`. -/
private lemma within_mulBit (h : MulInv x n y) :
    Within (Hart.step (muldi3.code base)) (At base 5 (MulBit x n)) 3
      ⟨addr base 2, y⟩ := by
  have hsplit := h.product
  rw [mul_eq_shift, ← BitVec.add_assoc] at hsplit
  refine Text.within_line (l := andi a3 a1 1#12) base rfl ?_
  rw [next_andi]
  refine Text.within_line (l := beqz a3 5) base rfl ?_
  rw [next_beqz]
  split_ifs with hbit
  · have hzero : y.get a1 &&& 1#64 = 0#64 := by simpa using hbit
    rw [hzero, BitVec.mul_zero, BitVec.add_zero] at hsplit
    refine Within.now ⟨_, rfl, ⟨?_, h.bits, h.same.set _ (by decide) _⟩⟩
    simpa using hsplit
  · have hone : y.get a1 &&& 1#64 = 1#64 := by
      have hne : ¬y.get a1 &&& 1#64 = 0#64 := by simpa using hbit
      exact (and_one_eq (y.get a1)).resolve_left hne
    rw [hone, BitVec.mul_one, BitVec.add_assoc, BitVec.add_comm _ (y.get a2),
      ← BitVec.add_assoc] at hsplit
    refine Text.within_line (l := add a0 a0 a2) base rfl ?_
    rw [next_add]
    refine Within.now ⟨_, rfl, ⟨?_, h.bits, (h.same.set _ (by decide) _).set _ (by decide) _⟩⟩
    simpa using hsplit

/-- A round of the loop returns or comes back to `.L1` with fewer bits left. -/
private lemma within_mulRound (h : MulInv x n y) :
    Within (Hart.step (muldi3.code base)) (fun t =>
      Returned x [a0, a1, a2, a3] (fun z => z.get a0 = x.get a0 * x.get a1) t ∨
      ∃ m < n, At base 2 (MulInv x m) t) 7 ⟨addr base 2, y⟩ := by
  refine (within_mulBit base h).bind (n := 4) ?_
  rintro t ⟨z, rfl, hz⟩
  have hsame := (hz.same.set a1 (by decide) (z.get a1 >>> 1)).set a2 (by decide)
    (z.get a2 <<< 1)
  have hshift : (z.get a1 >>> 1).toNat = (z.get a1).toNat / 2 := by
    rw [BitVec.toNat_ushiftRight, Nat.shiftRight_eq_div_pow, Nat.pow_one]
  refine Text.within_line (l := srli a1 a1 1#6) base rfl ?_
  rw [next_srli]
  refine Text.within_line (l := slli a2 a2 1#6) base rfl ?_
  rw [next_slli]
  refine Text.within_line (l := bnez a1 2) base rfl ?_
  rw [next_bnez]
  split_ifs with hleft
  · have hleft : z.get a1 >>> 1 ≠ 0#64 := by simpa using hleft
    have hpos : 0 < (z.get a1 >>> 1).toNat := BitVec.toNat_pos_of_ne_zero hleft
    have hn : n ≠ 0 := by
      rintro rfl
      have hbits := hz.bits
      omega
    obtain ⟨m, rfl⟩ : ∃ m, n = m + 1 := ⟨n - 1, by omega⟩
    refine Within.now (.inr ⟨m, by omega, _, rfl, ⟨?_, ?_, hsame⟩⟩)
    · simpa using hz.product
    · have hlt : (z.get a1 >>> 1).toNat < 2 ^ (m + 1) := by
        have hbits := hz.bits
        rw [Nat.pow_succ] at hbits
        omega
      simpa using hlt
  · have hnone : z.get a1 >>> 1 = 0#64 := by simpa using hleft
    have hprod := hz.product
    rw [hnone, BitVec.mul_zero, BitVec.add_zero] at hprod
    refine (Text.within_ret rfl hsame (by decide) ?_).imp fun _ => Or.inl
    simpa using hprod

end Loop

/-! ## The routine -/

/-- **`__muldi3` multiplies**: called with any arguments it returns within 450 instructions, with
the product in `a0`.

**Proof sketch.** The loop rule with the number of bits of the second factor as the variant. -/
theorem within_muldi3 (base : BitVec 64) (x : Regs) :
    Within (Hart.step (muldi3.code base)) (Returned x [a0, a1, a2, a3] fun z =>
      z.get a0 = Rv64m.Op.mul.eval (x.get a0) (x.get a1)) 450 ⟨addr base 0, x⟩ := by
  have hmul : Rv64m.Op.mul.eval (x.get a0) (x.get a1) = x.get a0 * x.get a1 := by
    rw [Rv64m.Op.eval, BitVec.ofInt_mul, BitVec.ofInt_toInt, BitVec.ofInt_toInt]
  rw [hmul]
  refine Text.within_line (l := mv a2 a0) base rfl ?_
  rw [next_mv]
  refine Text.within_line (l := li a0 0#12) base rfl ?_
  rw [next_li]
  have hinv : MulInv x 63 ((x.set a2 (x.get a0)).set a0 ((0#12).signExtend 64)) := by
    refine ⟨?_, (x.get a1).isLt, ((Regs.SameBut.refl x _).set _ (by decide) _).set _ (by decide) _⟩
    simp
  exact Text.within_loop base 2 (fun n y => within_mulRound base) 63 _ hinv

end Riscv64Cpu.Libgcc
