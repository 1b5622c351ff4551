import Riscv64Cpu.Isa.Rv64i

set_option relaxedAutoImplicit false
set_option autoImplicit false

/-!
# The CSR instructions Zicsr

The six instructions that exchange a CSR with a register or a five-bit immediate: their
encodings, the value they take from their source and the value they leave in the CSR.

## Main definitions

* `Zicsr.Op`, `Zicsr.Op.encode` — the instructions and their encodings.
* `Zicsr.Op.operand` — the source: a register, or the immediate in its place.
* `Zicsr.Op.newValue` — the new value of the CSR.
* `Zicsr.Op.mask` — the bits of the source that the new value depends on.

## Main results

* `Zicsr.Op.newValue_eq_iff` — when two sources give the same new value.
-/

namespace Zicsr

open Rv64i

/-- The instructions of Zicsr. -/
inductive Op
  | csrrw | csrrs | csrrc | csrrwi | csrrsi | csrrci
deriving DecidableEq

namespace Op

/-- The field of a CSR instruction. -/
def funct3 : Op → BitVec 3
  | csrrw => 0b001#3
  | csrrs => 0b010#3
  | csrrc => 0b011#3
  | csrrwi => 0b101#3
  | csrrsi => 0b110#3
  | csrrci => 0b111#3

/-- The encoding of an instruction; `src` is the number of the source register or the
immediate. -/
def encode (op : Op) (rd src : BitVec 5) (csr : BitVec 12) : BitVec 32 :=
  encodeI 0b1110011#7 op.funct3 rd src csr

/-- The source is an immediate. -/
def immediate : Op → Bool
  | csrrw | csrrs | csrrc => false
  | csrrwi | csrrsi | csrrci => true

/-- The source value: the register `src` with value `v`, or the zero-extended immediate. -/
def operand (v : BitVec 64) (src : BitVec 5) (op : Op) : BitVec 64 :=
  if op.immediate then src.setWidth 64 else v

/-- The new value of a CSR that holds `c`, for the source value `y`. -/
def newValue (c y : BitVec 64) : Op → BitVec 64
  | csrrw | csrrwi => y
  | csrrs | csrrsi => c ||| y
  | csrrc | csrrci => c &&& ~~~y

/-- The bits of the source that the new value of a CSR that holds `c` depends on: a set bit stays
set under `csrrs`, a clear one stays clear under `csrrc`. -/
def mask (c : BitVec 64) : Op → BitVec 64
  | csrrw | csrrwi => BitVec.allOnes 64
  | csrrs | csrrsi => ~~~c
  | csrrc | csrrci => c

section Masks

variable {n : ℕ} (c y y' : BitVec n)

/-- Setting bits depends on the bits that are clear. -/
private lemma or_eq_or_iff : c ||| y = c ||| y' ↔ y &&& ~~~c = y' &&& ~~~c := by
  simp only [BitVec.eq_of_getLsbD_eq_iff, BitVec.getLsbD_or, BitVec.getLsbD_and,
    BitVec.getLsbD_not]
  refine forall₂_congr fun i hi => ?_
  cases c.getLsbD i <;> simp [hi]

/-- Clearing bits depends on the bits that are set. -/
private lemma and_not_eq_and_not_iff : c &&& ~~~y = c &&& ~~~y' ↔ y &&& c = y' &&& c := by
  simp only [BitVec.eq_of_getLsbD_eq_iff, BitVec.getLsbD_and, BitVec.getLsbD_not]
  refine forall₂_congr fun i hi => ?_
  cases c.getLsbD i <;> simp [hi]

end Masks

/-- Two source values give the same new value exactly if they agree in the bits of the mask. -/
theorem newValue_eq_iff (op : Op) (c y y' : BitVec 64) :
    op.newValue c y = op.newValue c y' ↔ y &&& op.mask c = y' &&& op.mask c := by
  cases op with
  | csrrw | csrrwi => simp only [newValue, mask, BitVec.and_allOnes]
  | csrrs | csrrsi => exact or_eq_or_iff c y y'
  | csrrc | csrrci => exact and_not_eq_and_not_iff c y y'

end Op

end Zicsr
