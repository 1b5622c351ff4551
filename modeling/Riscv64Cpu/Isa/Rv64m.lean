import Mathlib.Algebra.Group.Int.Defs
import Mathlib.Tactic.SplitIfs
import Riscv64Cpu.Isa.Rv64i

set_option relaxedAutoImplicit false
set_option autoImplicit false

/-!
# The multiplication and division instructions RV64M

The thirteen instructions of the extension M for 64-bit registers: their encodings and results, as
the instruction set manual states them, over the integers.

## Main definitions

* `Rv64m.Op`, `Rv64m.Op.encode` — the instructions and their encodings.
* `Rv64m.div`, `divu`, `rem`, `remu` — division at any width, with the results for a zero divisor
  and for signed overflow.
* `Rv64m.Op.eval` — the result of an instruction.

## Main results

* `Rv64m.div_eq_sdiv`, `divu_eq_udiv`, `rem_eq_srem`, `remu_eq_umod` — division by a nonzero
  divisor is that of bit vectors, overflow included.
* `Rv64m.extract_ofInt` — the high half of a product.
-/

namespace Rv64m

open Rv64i

/-! ## Instructions -/

/-- The instructions of RV64M. -/
inductive Op
  | mul | mulh | mulhsu | mulhu | mulw | div | divu | rem | remu | divw | divuw | remw | remuw
deriving DecidableEq

namespace Op

/-- The instruction works on the low words of its operands. -/
def word : Op → Bool
  | mulw | divw | divuw | remw | remuw => true
  | _ => false

/-- The field of an operation; an operation on words has that of the one on double words. -/
def funct3 : Op → BitVec 3
  | mul | mulw => 0b000#3
  | mulh => 0b001#3
  | mulhsu => 0b010#3
  | mulhu => 0b011#3
  | div | divw => 0b100#3
  | divu | divuw => 0b101#3
  | rem | remw => 0b110#3
  | remu | remuw => 0b111#3

/-- The encoding of an instruction. -/
def encode (op : Op) (rd rs1 rs2 : BitVec 5) : BitVec 32 :=
  encodeR (if op.word then 0b0111011#7 else 0b0110011#7) op.funct3 0b0000001#7 rd rs1 rs2

end Op

/-! ## Division -/

section Division

variable {n : ℕ} (a b : BitVec n)

/-- Signed division rounds towards zero; the quotient of a division by zero has all bits set, and
that of the least number by `-1` is the dividend. -/
def div : BitVec n :=
  if b = 0#n then BitVec.allOnes n
  else if a = BitVec.intMin n ∧ b = -1#n then a
  else BitVec.ofInt n (a.toInt.tdiv b.toInt)

/-- Unsigned division. -/
def divu : BitVec n := if b = 0#n then BitVec.allOnes n else BitVec.ofNat n (a.toNat / b.toNat)

/-- The remainder has the sign of the dividend; the remainder of a division by zero is the
dividend, and that of the least number by `-1` is zero. -/
def rem : BitVec n :=
  if b = 0#n then a
  else if a = BitVec.intMin n ∧ b = -1#n then 0#n
  else BitVec.ofInt n (a.toInt.tmod b.toInt)

/-- The unsigned remainder. -/
def remu : BitVec n := if b = 0#n then a else BitVec.ofNat n (a.toNat % b.toNat)

variable {a} {b} (hb : b ≠ 0#n)
include hb

/-- The signed quotient is that of two's complement. -/
theorem div_eq_sdiv : div a b = a.sdiv b := by
  rw [div, if_neg hb]
  split_ifs with h
  · rw [h.1, h.2, BitVec.intMin_sdiv_neg_one]
  · apply BitVec.eq_of_toInt_eq
    rw [BitVec.toInt_ofInt, BitVec.toInt_sdiv]

/-- The unsigned quotient. -/
theorem divu_eq_udiv : divu a b = a / b := by
  rw [divu, if_neg hb, BitVec.udiv_def]

/-- The signed remainder is that of two's complement. -/
theorem rem_eq_srem : rem a b = a.srem b := by
  rw [rem, if_neg hb]
  split_ifs with h
  · have hdvd : b.toInt ∣ a.toInt := by
      rw [h.2, BitVec.neg_one_eq_allOnes, BitVec.toInt_allOnes]
      split_ifs with hn
      · exact ⟨-a.toInt, by omega⟩
      · obtain rfl : n = 0 := by omega
        exact absurd BitVec.of_length_zero hb
    exact (BitVec.srem_zero_of_dvd hdvd).symm
  · rw [← BitVec.toInt_srem, BitVec.ofInt_toInt]

/-- The unsigned remainder. -/
theorem remu_eq_umod : remu a b = a % b := by
  rw [remu, if_neg hb, BitVec.umod_def]

end Division

/-! ## Products -/

/-- The high half of a double word. -/
theorem extract_ofInt (z : ℤ) :
    (BitVec.ofInt 128 z).extractLsb' 64 64 = BitVec.ofInt 64 (z / 2 ^ 64) := by
  apply BitVec.eq_of_toNat_eq
  rw [BitVec.extractLsb'_toNat, BitVec.toNat_ofInt, BitVec.toNat_ofInt, Nat.shiftRight_eq_div_pow]
  omega

/-! ## Results -/

/-- The result of an instruction on the low words, sign extended. -/
def onWords (f : BitVec 32 → BitVec 32 → BitVec 32) (a b : BitVec 64) : BitVec 64 :=
  (f (a.setWidth 32) (b.setWidth 32)).signExtend 64

/-- The result of an instruction, from the values of its source registers. -/
def Op.eval (a b : BitVec 64) : Op → BitVec 64
  | mul => BitVec.ofInt 64 (a.toInt * b.toInt)
  | mulh => BitVec.ofInt 64 (a.toInt * b.toInt / 2 ^ 64)
  | mulhsu => BitVec.ofInt 64 (a.toInt * b.toNat / 2 ^ 64)
  | mulhu => BitVec.ofInt 64 (a.toNat * b.toNat / 2 ^ 64)
  | mulw => onWords (fun x y => BitVec.ofInt 32 (x.toInt * y.toInt)) a b
  | div => Rv64m.div a b
  | divu => Rv64m.divu a b
  | rem => Rv64m.rem a b
  | remu => Rv64m.remu a b
  | divw => onWords Rv64m.div a b
  | divuw => onWords Rv64m.divu a b
  | remw => onWords Rv64m.rem a b
  | remuw => onWords Rv64m.remu a b

end Rv64m
