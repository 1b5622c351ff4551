import Riscv64Cpu.Isa.Rv64i

set_option relaxedAutoImplicit false
set_option autoImplicit false

/-!
# The base instruction set RV32I with CSR accesses

The computational instructions, control transfers, loads and stores of RV32I and the instructions
`csrrw` and `csrrs`: their encodings and their architectural effect, as the instruction set manual
states them.  The formats and the operations are those of RV64I at half the width.

## Main definitions

* `Rv32i.Instr`, `Rv32i.Instr.encode` — the instructions and their encodings.
* `Rv32i.Effect` — the register write, the next pc, the CSR write and the memory access of an
  instruction.
* `Rv32i.Instr.effect` — the effect, from the pc, the registers, the CSRs and the memory.

## Design

The memory is given by its four-byte windows, as in RV64I by its eight-byte ones: `window a` is the
little-endian number in the four bytes from address `a` on.
-/

namespace Rv32i

open Rv64i (BranchOp ImmOp ShiftOp RegOp encodeR encodeI encodeS encodeB encodeU encodeJ)

/-! ## Instructions -/

/-- The loads. -/
inductive LoadOp | lb | lh | lw | lbu | lhu
deriving DecidableEq

/-- The stores. -/
inductive StoreOp | sb | sh | sw
deriving DecidableEq

/-- The instructions, with their fields. -/
inductive Instr
  | lui (rd : BitVec 5) (imm : BitVec 20)
  | auipc (rd : BitVec 5) (imm : BitVec 20)
  | jal (rd : BitVec 5) (offset : BitVec 20)
  | jalr (rd rs1 : BitVec 5) (imm : BitVec 12)
  | branch (op : BranchOp) (rs1 rs2 : BitVec 5) (offset : BitVec 12)
  | load (op : LoadOp) (rd rs1 : BitVec 5) (imm : BitVec 12)
  | store (op : StoreOp) (rs1 rs2 : BitVec 5) (imm : BitVec 12)
  | opImm (op : ImmOp) (rd rs1 : BitVec 5) (imm : BitVec 12)
  | shiftImm (op : ShiftOp) (rd rs1 shamt : BitVec 5)
  | reg (op : RegOp) (rd rs1 rs2 : BitVec 5)
  | csrrw (rd rs1 : BitVec 5) (csr : BitVec 12)
  | csrrs (rd rs1 : BitVec 5) (csr : BitVec 12)
deriving DecidableEq

/-- Width and sign of a load. -/
def LoadOp.funct3 : LoadOp → BitVec 3
  | lb => 0b000#3
  | lh => 0b001#3
  | lw => 0b010#3
  | lbu => 0b100#3
  | lhu => 0b101#3

/-- Width of a store. -/
def StoreOp.funct3 : StoreOp → BitVec 3
  | sb => 0b000#3
  | sh => 0b001#3
  | sw => 0b010#3

/-- The encoding of an instruction. -/
def Instr.encode : Instr → BitVec 32
  | lui rd imm => encodeU 0b0110111#7 rd imm
  | auipc rd imm => encodeU 0b0010111#7 rd imm
  | jal rd offset => encodeJ 0b1101111#7 rd offset
  | jalr rd rs1 imm => encodeI 0b1100111#7 0b000#3 rd rs1 imm
  | branch op rs1 rs2 offset => encodeB 0b1100011#7 op.funct3 rs1 rs2 offset
  | load op rd rs1 imm => encodeI 0b0000011#7 op.funct3 rd rs1 imm
  | store op rs1 rs2 imm => encodeS 0b0100011#7 op.funct3 rs1 rs2 imm
  | opImm op rd rs1 imm => encodeI 0b0010011#7 op.funct3 rd rs1 imm
  | shiftImm op rd rs1 shamt => encodeI 0b0010011#7 op.funct3 rd rs1 (op.funct6 ++ 0#1 ++ shamt)
  | reg op rd rs1 rs2 => encodeR 0b0110011#7 op.funct3 op.funct7 rd rs1 rs2
  | csrrw rd rs1 csr => encodeI 0b1110011#7 0b001#3 rd rs1 csr
  | csrrs rd rs1 csr => encodeI 0b1110011#7 0b010#3 rd rs1 csr

/-! ## Effects -/

/-- A memory access. -/
inductive Access
  | load (addr : BitVec 32) (len : ℕ)
  | store (addr : BitVec 32) (len : ℕ) (data : BitVec 32)
deriving DecidableEq

/-- The architectural effect of an instruction. -/
structure Effect where
  regWrite : Option (BitVec 5 × BitVec 32)
  nextPc : BitVec 32
  csrWrite : Option (BitVec 12 × BitVec 32)
  access : Option Access
deriving DecidableEq

/-- The write of `value` to register `rd`; writes to `x0` are discarded. -/
def write (rd : BitVec 5) (value : BitVec 32) : Option (BitVec 5 × BitVec 32) :=
  if rd = 0#5 then none else some (rd, value)

/-- The condition of a branch. -/
def taken (a b : BitVec 32) : BranchOp → Bool
  | .beq => decide (a = b)
  | .bne => decide (a ≠ b)
  | .blt => decide (a.toInt < b.toInt)
  | .bge => decide (b.toInt ≤ a.toInt)
  | .bltu => decide (a.toNat < b.toNat)
  | .bgeu => decide (b.toNat ≤ a.toNat)

/-- The number of bytes a load accesses. -/
def LoadOp.len : LoadOp → ℕ
  | lb | lbu => 1
  | lh | lhu => 2
  | lw => 4

/-- The loaded value, from the window at the address. -/
def LoadOp.value (window : BitVec 32) : LoadOp → BitVec 32
  | lb => (window.setWidth 8).signExtend 32
  | lh => (window.setWidth 16).signExtend 32
  | lw => window
  | lbu => (window.setWidth 8).setWidth 32
  | lhu => (window.setWidth 16).setWidth 32

/-- The number of bytes a store accesses. -/
def StoreOp.len : StoreOp → ℕ
  | sb => 1
  | sh => 2
  | sw => 4

/-- The result of a register-register operation. -/
def eval (a b : BitVec 32) : RegOp → BitVec 32
  | .add => a + b
  | .sub => a - b
  | .sll => a <<< (b.toNat % 32)
  | .slt => if a.toInt < b.toInt then 1#32 else 0#32
  | .sltu => if a.toNat < b.toNat then 1#32 else 0#32
  | .xor => a ^^^ b
  | .srl => a >>> (b.toNat % 32)
  | .sra => a.sshiftRight (b.toNat % 32)
  | .or => a ||| b
  | .and => a &&& b

/-- The effect of an instruction at `pc`, with the register values `x` and the CSR values `c`. -/
def Instr.effect (pc : BitVec 32) (x : BitVec 5 → BitVec 32) (c : BitVec 12 → BitVec 32)
    (window : BitVec 32 → BitVec 32) : Instr → Effect
  | lui rd imm => ⟨write rd (imm ++ 0#12), pc + 4#32, none, none⟩
  | auipc rd imm => ⟨write rd (pc + (imm ++ 0#12)), pc + 4#32, none, none⟩
  | jal rd offset => ⟨write rd (pc + 4#32), pc + (offset ++ 0#1).signExtend 32, none, none⟩
  | jalr rd rs1 imm =>
    ⟨write rd (pc + 4#32), (x rs1 + imm.signExtend 32) &&& ~~~1#32, none, none⟩
  | branch op rs1 rs2 offset =>
    ⟨none, if taken (x rs1) (x rs2) op then pc + (offset ++ 0#1).signExtend 32 else pc + 4#32,
      none, none⟩
  | load op rd rs1 imm =>
    ⟨write rd (op.value (window (x rs1 + imm.signExtend 32))), pc + 4#32, none,
      some (.load (x rs1 + imm.signExtend 32) op.len)⟩
  | store op rs1 rs2 imm =>
    ⟨none, pc + 4#32, none, some (.store (x rs1 + imm.signExtend 32) op.len (x rs2))⟩
  | opImm op rd rs1 imm =>
    ⟨write rd (eval (x rs1) (imm.signExtend 32) op.toRegOp), pc + 4#32, none, none⟩
  | shiftImm op rd rs1 shamt => ⟨write rd (op.eval (x rs1) shamt.toNat), pc + 4#32, none, none⟩
  | reg op rd rs1 rs2 => ⟨write rd (eval (x rs1) (x rs2) op), pc + 4#32, none, none⟩
  | csrrw rd rs1 csr => ⟨write rd (c csr), pc + 4#32, some (csr, x rs1), none⟩
  | csrrs rd rs1 csr =>
    ⟨write rd (c csr), pc + 4#32, if rs1 = 0#5 then none else some (csr, x rs1 ||| c csr), none⟩

end Rv32i
