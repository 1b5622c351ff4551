import Mathlib.Algebra.Group.Nat.Defs

set_option relaxedAutoImplicit false
set_option autoImplicit false

/-!
# The base instruction set RV64I

The computational instructions, control transfers, loads and stores of RV64I: their encodings
and their architectural effect, as the instruction set manual states them.  Fences and system
instructions are not part of it.

## Main definitions

* `Rv64i.Instr` — the instructions.
* `Rv64i.Instr.encode` — the 32-bit encodings, format by format.
* `Rv64i.Effect` — the register write, the next pc and the memory access of an instruction.
* `Rv64i.Instr.effect` — the effect, from the pc, the values of the two source registers and the
  memory.

## Main results

* `Rv64i.extract_encodeR`, … — the fields of the formats.

## Design

The memory is given by its aligned and unaligned eight-byte windows: `window a` is the
little-endian number in the eight bytes from address `a` on.  A load of `n` bytes takes the low
`n` bytes of the window at its address; a store of `n` bytes stores the low `n` bytes of its
data.  The offsets of branches and `jal` are given in units of two bytes.
-/

namespace Rv64i

/-! ## Instructions -/

/-- The branches. -/
inductive BranchOp | beq | bne | blt | bge | bltu | bgeu
deriving DecidableEq

/-- The loads. -/
inductive LoadOp | lb | lh | lw | ld | lbu | lhu | lwu
deriving DecidableEq

/-- The stores. -/
inductive StoreOp | sb | sh | sw | sd
deriving DecidableEq

/-- The operations with an immediate. -/
inductive ImmOp | addi | slti | sltiu | xori | ori | andi
deriving DecidableEq

/-- The shifts. -/
inductive ShiftOp | sll | srl | sra
deriving DecidableEq

/-- The operations on registers. -/
inductive RegOp | add | sub | sll | slt | sltu | xor | srl | sra | or | and
deriving DecidableEq

/-- The operations on words in registers. -/
inductive RegwOp | addw | subw | sllw | srlw | sraw
deriving DecidableEq

/-- The instructions, with their fields. -/
inductive Instr
  | lui (rd : BitVec 5) (imm : BitVec 20)
  | auipc (rd : BitVec 5) (imm : BitVec 20)
  | jal (rd : BitVec 5) (offset : BitVec 20)
  | jalr (rd rs1 : BitVec 5) (imm : BitVec 12)
  | branch (op : BranchOp) (rs1 rs2 : BitVec 5) (offset : BitVec 12)
  | load (op : LoadOp) (rd rs1 : BitVec 5) (imm : BitVec 12)
  | store (op : StoreOp) (rs1 rs2 : BitVec 5) (imm : BitVec 12)
  | opImm (op : ImmOp) (rd rs1 : BitVec 5) (imm : BitVec 12)
  | shiftImm (op : ShiftOp) (rd rs1 : BitVec 5) (shamt : BitVec 6)
  | addiw (rd rs1 : BitVec 5) (imm : BitVec 12)
  | shiftImmw (op : ShiftOp) (rd rs1 : BitVec 5) (shamt : BitVec 5)
  | reg (op : RegOp) (rd rs1 rs2 : BitVec 5)
  | regw (op : RegwOp) (rd rs1 rs2 : BitVec 5)
deriving DecidableEq

/-! ## Encodings -/

/-- `funct7`, `rs2`, `rs1`, `funct3`, `rd`, `opcode`. -/
def encodeR (opcode : BitVec 7) (funct3 : BitVec 3) (funct7 : BitVec 7) (rd rs1 rs2 : BitVec 5) :
    BitVec 32 :=
  funct7 ++ rs2 ++ rs1 ++ funct3 ++ rd ++ opcode

/-- `imm[11:0]`, `rs1`, `funct3`, `rd`, `opcode`. -/
def encodeI (opcode : BitVec 7) (funct3 : BitVec 3) (rd rs1 : BitVec 5) (imm : BitVec 12) :
    BitVec 32 :=
  imm ++ rs1 ++ funct3 ++ rd ++ opcode

/-- `imm[11:5]`, `rs2`, `rs1`, `funct3`, `imm[4:0]`, `opcode`. -/
def encodeS (opcode : BitVec 7) (funct3 : BitVec 3) (rs1 rs2 : BitVec 5) (imm : BitVec 12) :
    BitVec 32 :=
  imm.extractLsb' 5 7 ++ rs2 ++ rs1 ++ funct3 ++ imm.extractLsb' 0 5 ++ opcode

/-- `offset[12]`, `offset[10:5]`, `rs2`, `rs1`, `funct3`, `offset[4:1]`, `offset[11]`, `opcode`,
for the offset in bytes. -/
def encodeB (opcode : BitVec 7) (funct3 : BitVec 3) (rs1 rs2 : BitVec 5) (offset : BitVec 12) :
    BitVec 32 :=
  offset.extractLsb' 11 1 ++ offset.extractLsb' 4 6 ++ rs2 ++ rs1 ++ funct3 ++
    offset.extractLsb' 0 4 ++ offset.extractLsb' 10 1 ++ opcode

/-- `imm[31:12]`, `rd`, `opcode`. -/
def encodeU (opcode : BitVec 7) (rd : BitVec 5) (imm : BitVec 20) : BitVec 32 :=
  imm ++ rd ++ opcode

/-- `offset[20]`, `offset[10:1]`, `offset[11]`, `offset[19:12]`, `rd`, `opcode`, for the offset
in bytes. -/
def encodeJ (opcode : BitVec 7) (rd : BitVec 5) (offset : BitVec 20) : BitVec 32 :=
  offset.extractLsb' 19 1 ++ offset.extractLsb' 0 10 ++ offset.extractLsb' 10 1 ++
    offset.extractLsb' 11 8 ++ rd ++ opcode

/-- The comparison of a branch. -/
def BranchOp.funct3 : BranchOp → BitVec 3
  | beq => 0b000#3
  | bne => 0b001#3
  | blt => 0b100#3
  | bge => 0b101#3
  | bltu => 0b110#3
  | bgeu => 0b111#3

/-- Width and sign of a load. -/
def LoadOp.funct3 : LoadOp → BitVec 3
  | lb => 0b000#3
  | lh => 0b001#3
  | lw => 0b010#3
  | ld => 0b011#3
  | lbu => 0b100#3
  | lhu => 0b101#3
  | lwu => 0b110#3

/-- Width of a store. -/
def StoreOp.funct3 : StoreOp → BitVec 3
  | sb => 0b000#3
  | sh => 0b001#3
  | sw => 0b010#3
  | sd => 0b011#3

/-- The field of an operation with an immediate. -/
def ImmOp.funct3 : ImmOp → BitVec 3
  | addi => 0b000#3
  | slti => 0b010#3
  | sltiu => 0b011#3
  | xori => 0b100#3
  | ori => 0b110#3
  | andi => 0b111#3

/-- The direction of a shift. -/
def ShiftOp.funct3 : ShiftOp → BitVec 3
  | sll => 0b001#3
  | srl => 0b101#3
  | sra => 0b101#3

/-- The upper bits of the immediate, above a shift amount of six bits. -/
def ShiftOp.funct6 : ShiftOp → BitVec 6
  | sll => 0b000000#6
  | srl => 0b000000#6
  | sra => 0b010000#6

/-- The field of an operation on registers. -/
def RegOp.funct3 : RegOp → BitVec 3
  | add => 0b000#3
  | sub => 0b000#3
  | sll => 0b001#3
  | slt => 0b010#3
  | sltu => 0b011#3
  | xor => 0b100#3
  | srl => 0b101#3
  | sra => 0b101#3
  | or => 0b110#3
  | and => 0b111#3

/-- The field that tells subtraction and the arithmetic shift apart. -/
def RegOp.funct7 : RegOp → BitVec 7
  | sub => 0b0100000#7
  | sra => 0b0100000#7
  | _ => 0b0000000#7

/-- The field of an operation on words. -/
def RegwOp.funct3 : RegwOp → BitVec 3
  | addw => 0b000#3
  | subw => 0b000#3
  | sllw => 0b001#3
  | srlw => 0b101#3
  | sraw => 0b101#3

/-- The field that tells subtraction and the arithmetic shift of words apart. -/
def RegwOp.funct7 : RegwOp → BitVec 7
  | subw => 0b0100000#7
  | sraw => 0b0100000#7
  | _ => 0b0000000#7

/-- The encoding of an instruction. -/
def Instr.encode : Instr → BitVec 32
  | lui rd imm => encodeU 0b0110111#7 rd imm
  | auipc rd imm => encodeU 0b0010111#7 rd imm
  | jal rd offset => encodeJ 0b1101111#7 rd offset
  | jalr rd rs1 imm => encodeI 0b1100111#7 0b000#3 rd rs1 imm
  | branch op rs1 rs2 offset => encodeB 0b1100011#7 op.funct3 rs1 rs2 offset
  | load op rd rs1 imm => encodeI 0b0000011#7 op.funct3 rd rs1 imm
  | store op rs1 rs2 imm => encodeS 0b0100011#7 op.funct3 rs1 rs2 imm
  | opImm op rd rs1 imm => encodeI 0b0010011#7 op.funct3 rd rs1 imm
  | shiftImm op rd rs1 shamt => encodeI 0b0010011#7 op.funct3 rd rs1 (op.funct6 ++ shamt)
  | addiw rd rs1 imm => encodeI 0b0011011#7 0b000#3 rd rs1 imm
  | shiftImmw op rd rs1 shamt =>
    encodeI 0b0011011#7 op.funct3 rd rs1 (op.funct6 ++ 0#1 ++ shamt)
  | reg op rd rs1 rs2 => encodeR 0b0110011#7 op.funct3 op.funct7 rd rs1 rs2
  | regw op rd rs1 rs2 => encodeR 0b0111011#7 op.funct3 op.funct7 rd rs1 rs2

/-! ## Effects -/

/-- A memory access. -/
inductive Access
  | load (addr : BitVec 64) (len : ℕ)
  | store (addr : BitVec 64) (len : ℕ) (data : BitVec 64)
deriving DecidableEq

/-- The architectural effect of an instruction. -/
structure Effect where
  regWrite : Option (BitVec 5 × BitVec 64)
  nextPc : BitVec 64
  access : Option Access
deriving DecidableEq

/-- The write of `value` to register `rd`; writes to `x0` are discarded. -/
def write (rd : BitVec 5) (value : BitVec 64) : Option (BitVec 5 × BitVec 64) :=
  if rd = 0#5 then none else some (rd, value)

/-- The condition of a branch. -/
def BranchOp.taken (a b : BitVec 64) : BranchOp → Bool
  | beq => decide (a = b)
  | bne => decide (a ≠ b)
  | blt => decide (a.toInt < b.toInt)
  | bge => decide (b.toInt ≤ a.toInt)
  | bltu => decide (a.toNat < b.toNat)
  | bgeu => decide (b.toNat ≤ a.toNat)

/-- The number of bytes a load accesses. -/
def LoadOp.len : LoadOp → ℕ
  | lb | lbu => 1
  | lh | lhu => 2
  | lw | lwu => 4
  | ld => 8

/-- The loaded value, from the window at the address. -/
def LoadOp.value (window : BitVec 64) : LoadOp → BitVec 64
  | lb => (window.setWidth 8).signExtend 64
  | lh => (window.setWidth 16).signExtend 64
  | lw => (window.setWidth 32).signExtend 64
  | ld => window
  | lbu => (window.setWidth 8).setWidth 64
  | lhu => (window.setWidth 16).setWidth 64
  | lwu => (window.setWidth 32).setWidth 64

/-- A loaded value depends on the bytes it accesses. -/
lemma LoadOp.value_congr (op : LoadOp) {v v' : BitVec 64}
    (h : v.setWidth (8 * op.len) = v'.setWidth (8 * op.len)) : op.value v = op.value v' := by
  cases op with
  | lb => exact congrArg (fun b : BitVec 8 => b.signExtend 64) h
  | lh => exact congrArg (fun b : BitVec 16 => b.signExtend 64) h
  | lw => exact congrArg (fun b : BitVec 32 => b.signExtend 64) h
  | ld => exact (BitVec.setWidth_eq v).symm.trans (h.trans (BitVec.setWidth_eq v'))
  | lbu => exact congrArg (fun b : BitVec 8 => b.setWidth 64) h
  | lhu => exact congrArg (fun b : BitVec 16 => b.setWidth 64) h
  | lwu => exact congrArg (fun b : BitVec 32 => b.setWidth 64) h

/-- The number of bytes a store accesses. -/
def StoreOp.len : StoreOp → ℕ
  | sb => 1
  | sh => 2
  | sw => 4
  | sd => 8

/-- The result of a register-register operation. -/
def RegOp.eval (a b : BitVec 64) : RegOp → BitVec 64
  | add => a + b
  | sub => a - b
  | sll => a <<< (b.toNat % 64)
  | slt => if a.toInt < b.toInt then 1#64 else 0#64
  | sltu => if a.toNat < b.toNat then 1#64 else 0#64
  | xor => a ^^^ b
  | srl => a >>> (b.toNat % 64)
  | sra => a.sshiftRight (b.toNat % 64)
  | or => a ||| b
  | and => a &&& b

/-- The register-register operation of a register-immediate one. -/
def ImmOp.toRegOp : ImmOp → RegOp
  | addi => .add
  | slti => .slt
  | sltiu => .sltu
  | xori => .xor
  | ori => .or
  | andi => .and

/-- The result of a shift. -/
def ShiftOp.eval {n : ℕ} (a : BitVec n) (shamt : ℕ) : ShiftOp → BitVec n
  | sll => a <<< shamt
  | srl => a >>> shamt
  | sra => a.sshiftRight shamt

/-- The result of an operation on words, before its sign extension. -/
def RegwOp.eval (a b : BitVec 32) : RegwOp → BitVec 32
  | addw => a + b
  | subw => a - b
  | sllw => a <<< (b.toNat % 32)
  | srlw => a >>> (b.toNat % 32)
  | sraw => a.sshiftRight (b.toNat % 32)

/-- The effect of an instruction at `pc`, with the register values `x`. -/
def Instr.effect (pc : BitVec 64) (x : BitVec 5 → BitVec 64) (window : BitVec 64 → BitVec 64) :
    Instr → Effect
  | lui rd imm => ⟨write rd ((imm ++ 0#12).signExtend 64), pc + 4#64, none⟩
  | auipc rd imm => ⟨write rd (pc + (imm ++ 0#12).signExtend 64), pc + 4#64, none⟩
  | jal rd offset => ⟨write rd (pc + 4#64), pc + (offset ++ 0#1).signExtend 64, none⟩
  | jalr rd rs1 imm =>
    ⟨write rd (pc + 4#64), (x rs1 + imm.signExtend 64) &&& ~~~1#64, none⟩
  | branch op rs1 rs2 offset =>
    ⟨none, if op.taken (x rs1) (x rs2) then pc + (offset ++ 0#1).signExtend 64 else pc + 4#64,
      none⟩
  | load op rd rs1 imm =>
    ⟨write rd (op.value (window (x rs1 + imm.signExtend 64))), pc + 4#64,
      some (.load (x rs1 + imm.signExtend 64) op.len)⟩
  | store op rs1 rs2 imm =>
    ⟨none, pc + 4#64, some (.store (x rs1 + imm.signExtend 64) op.len (x rs2))⟩
  | opImm op rd rs1 imm =>
    ⟨write rd (op.toRegOp.eval (x rs1) (imm.signExtend 64)), pc + 4#64, none⟩
  | shiftImm op rd rs1 shamt => ⟨write rd (op.eval (x rs1) shamt.toNat), pc + 4#64, none⟩
  | addiw rd rs1 imm =>
    ⟨write rd (((x rs1).setWidth 32 + imm.signExtend 32).signExtend 64), pc + 4#64, none⟩
  | shiftImmw op rd rs1 shamt =>
    ⟨write rd ((op.eval ((x rs1).setWidth 32) shamt.toNat).signExtend 64), pc + 4#64, none⟩
  | reg op rd rs1 rs2 => ⟨write rd (op.eval (x rs1) (x rs2)), pc + 4#64, none⟩
  | regw op rd rs1 rs2 =>
    ⟨write rd ((op.eval ((x rs1).setWidth 32) ((x rs2).setWidth 32)).signExtend 64), pc + 4#64,
      none⟩

/-! ## Immediates -/

section Immediates

/-- A sign extension keeps the low bits. -/
private lemma toNat_signExtend_mod (x : BitVec 12) (k : ℕ) (hk : k ≤ 12) :
    (x.signExtend 64).toNat % 2 ^ k = x.toNat % 2 ^ k := by
  have h : (x.signExtend 64).setWidth k = x.setWidth k := by
    ext i hi
    simp only [BitVec.getElem_setWidth, BitVec.getLsbD_signExtend]
    simp [show i < 64 by omega, show i < 12 by omega]
  simpa only [BitVec.toNat_setWidth] using congrArg BitVec.toNat h

/-- The shift amount in an immediate. -/
lemma toNat_shamt {m k : ℕ} (f : BitVec m) (shamt : BitVec k) (hk : k ≤ 12) (hm : m + k = 12) :
    (((f ++ shamt).cast hm).signExtend 64).toNat % 2 ^ k = shamt.toNat := by
  have hs : (f ++ shamt).setWidth k = shamt := BitVec.setWidth_append_eq_right
  rw [toNat_signExtend_mod _ k hk, BitVec.toNat_cast]
  simpa only [BitVec.toNat_setWidth] using congrArg BitVec.toNat hs

end Immediates

/-! ## The fields of the formats -/

section Fields

variable (opcode : BitVec 7) (funct3 : BitVec 3) (funct7 : BitVec 7) (rd rs1 rs2 : BitVec 5)

/-- A field above the last part of a concatenation. -/
lemma extract_above {m n k w : ℕ} (a : BitVec m) (b : BitVec n) (h : n ≤ k) :
    (a ++ b).extractLsb' k w = a.extractLsb' (k - n) w :=
  BitVec.extractLsb'_append_eq_of_le h

/-- The last part of a concatenation. -/
lemma extract_last {m n : ℕ} (a : BitVec m) (b : BitVec n) : (a ++ b).extractLsb' 0 n = b :=
  BitVec.extractLsb'_append_eq_right

/-- Two neighbouring fields are one field. -/
lemma extract_join {n k w w' : ℕ} (x : BitVec n) :
    x.extractLsb' (k + w') w ++ x.extractLsb' k w' = x.extractLsb' k (w + w') :=
  BitVec.extractLsb'_append_extractLsb'_eq_extractLsb' rfl

/-- The fields of format R. -/
theorem extract_encodeR :
    (encodeR opcode funct3 funct7 rd rs1 rs2).extractLsb' 0 7 = opcode ∧
    (encodeR opcode funct3 funct7 rd rs1 rs2).extractLsb' 7 5 = rd ∧
    (encodeR opcode funct3 funct7 rd rs1 rs2).extractLsb' 12 3 = funct3 ∧
    (encodeR opcode funct3 funct7 rd rs1 rs2).extractLsb' 15 5 = rs1 ∧
    (encodeR opcode funct3 funct7 rd rs1 rs2).extractLsb' 20 5 = rs2 ∧
    (encodeR opcode funct3 funct7 rd rs1 rs2).extractLsb' 25 7 = funct7 := by
  unfold encodeR
  refine ⟨extract_last _ _, ?_, ?_, ?_, ?_, ?_⟩ <;>
    repeat rw [extract_above _ _ (by decide)]
  · exact extract_last _ _
  · exact extract_last _ _
  · exact extract_last _ _
  · exact extract_last _ _
  · exact BitVec.extractLsb'_eq_self

section Imm

variable (imm : BitVec 12)

/-- The fields of format I; the upper seven bits of the immediate are where `funct7` stands. -/
lemma extract_encodeI :
    (encodeI opcode funct3 rd rs1 imm).extractLsb' 0 7 = opcode ∧
    (encodeI opcode funct3 rd rs1 imm).extractLsb' 7 5 = rd ∧
    (encodeI opcode funct3 rd rs1 imm).extractLsb' 12 3 = funct3 ∧
    (encodeI opcode funct3 rd rs1 imm).extractLsb' 15 5 = rs1 ∧
    (encodeI opcode funct3 rd rs1 imm).extractLsb' 20 12 = imm ∧
    (encodeI opcode funct3 rd rs1 imm).extractLsb' 25 7 = imm.extractLsb' 5 7 ∧
    (encodeI opcode funct3 rd rs1 imm).extractLsb' 26 6 = imm.extractLsb' 6 6 := by
  unfold encodeI
  refine ⟨extract_last _ _, ?_, ?_, ?_, ?_, ?_, ?_⟩ <;>
    repeat rw [extract_above _ _ (by decide)]
  · exact extract_last _ _
  · exact extract_last _ _
  · exact extract_last _ _
  · exact BitVec.extractLsb'_eq_self

/-- The fields of format S, with the two parts of the immediate joined. -/
lemma extract_encodeS :
    (encodeS opcode funct3 rs1 rs2 imm).extractLsb' 0 7 = opcode ∧
    (encodeS opcode funct3 rs1 rs2 imm).extractLsb' 12 3 = funct3 ∧
    (encodeS opcode funct3 rs1 rs2 imm).extractLsb' 15 5 = rs1 ∧
    (encodeS opcode funct3 rs1 rs2 imm).extractLsb' 20 5 = rs2 ∧
    (encodeS opcode funct3 rs1 rs2 imm).extractLsb' 25 7 ++
      (encodeS opcode funct3 rs1 rs2 imm).extractLsb' 7 5 = imm := by
  unfold encodeS
  have hlo : (imm.extractLsb' 5 7 ++ rs2 ++ rs1 ++ funct3 ++ imm.extractLsb' 0 5 ++
      opcode).extractLsb' 7 5 = imm.extractLsb' 0 5 := by
    rw [extract_above _ _ (by decide)]
    exact extract_last _ _
  have hhi : (imm.extractLsb' 5 7 ++ rs2 ++ rs1 ++ funct3 ++ imm.extractLsb' 0 5 ++
      opcode).extractLsb' 25 7 = imm.extractLsb' 5 7 := by
    repeat rw [extract_above _ _ (by decide)]
    exact BitVec.extractLsb'_eq_self
  refine ⟨extract_last _ _, ?_, ?_, ?_, ?_⟩
  · repeat rw [extract_above _ _ (by decide)]
    exact extract_last _ _
  · repeat rw [extract_above _ _ (by decide)]
    exact extract_last _ _
  · repeat rw [extract_above _ _ (by decide)]
    exact extract_last _ _
  · exact (congrArg₂ _ hhi hlo).trans ((extract_join imm).trans BitVec.extractLsb'_eq_self)

end Imm

/-- The fields of format B, with the parts of the offset joined. -/
lemma extract_encodeB (offset : BitVec 12) :
    (encodeB opcode funct3 rs1 rs2 offset).extractLsb' 0 7 = opcode ∧
    (encodeB opcode funct3 rs1 rs2 offset).extractLsb' 12 3 = funct3 ∧
    (encodeB opcode funct3 rs1 rs2 offset).extractLsb' 15 5 = rs1 ∧
    (encodeB opcode funct3 rs1 rs2 offset).extractLsb' 20 5 = rs2 ∧
    (encodeB opcode funct3 rs1 rs2 offset).extractLsb' 31 1 ++
      (encodeB opcode funct3 rs1 rs2 offset).extractLsb' 7 1 ++
      (encodeB opcode funct3 rs1 rs2 offset).extractLsb' 25 6 ++
      (encodeB opcode funct3 rs1 rs2 offset).extractLsb' 8 4 = offset := by
  have h31 : (encodeB opcode funct3 rs1 rs2 offset).extractLsb' 31 1 = offset.extractLsb' 11 1 := by
    unfold encodeB
    repeat rw [extract_above _ _ (by decide)]
    exact BitVec.extractLsb'_eq_self
  have h7 : (encodeB opcode funct3 rs1 rs2 offset).extractLsb' 7 1 = offset.extractLsb' 10 1 := by
    unfold encodeB
    repeat rw [extract_above _ _ (by decide)]
    exact extract_last _ _
  have h25 : (encodeB opcode funct3 rs1 rs2 offset).extractLsb' 25 6 = offset.extractLsb' 4 6 := by
    unfold encodeB
    repeat rw [extract_above _ _ (by decide)]
    exact extract_last _ _
  have h8 : (encodeB opcode funct3 rs1 rs2 offset).extractLsb' 8 4 = offset.extractLsb' 0 4 := by
    unfold encodeB
    repeat rw [extract_above _ _ (by decide)]
    exact extract_last _ _
  have hjoin : offset.extractLsb' 11 1 ++ offset.extractLsb' 10 1 ++ offset.extractLsb' 4 6 ++
      offset.extractLsb' 0 4 = offset := by
    rw [@extract_join _ 10 1 1, @extract_join _ 4 (1 + 1) 6, @extract_join _ 0 (1 + 1 + 6) 4]
    exact BitVec.extractLsb'_eq_self
  refine ⟨extract_last _ _, ?_, ?_, ?_, ?_⟩
  · unfold encodeB
    repeat rw [extract_above _ _ (by decide)]
    exact extract_last _ _
  · unfold encodeB
    repeat rw [extract_above _ _ (by decide)]
    exact extract_last _ _
  · unfold encodeB
    repeat rw [extract_above _ _ (by decide)]
    exact extract_last _ _
  · rw [h31, h7, h25, h8]
    exact hjoin

/-- The fields of format U. -/
lemma extract_encodeU (imm : BitVec 20) :
    (encodeU opcode rd imm).extractLsb' 0 7 = opcode ∧
    (encodeU opcode rd imm).extractLsb' 7 5 = rd ∧
    (encodeU opcode rd imm).extractLsb' 12 20 = imm := by
  unfold encodeU
  refine ⟨extract_last _ _, ?_, ?_⟩ <;> repeat rw [extract_above _ _ (by decide)]
  · exact extract_last _ _
  · exact BitVec.extractLsb'_eq_self

/-- The fields of format J, with the parts of the offset joined. -/
lemma extract_encodeJ (offset : BitVec 20) :
    (encodeJ opcode rd offset).extractLsb' 0 7 = opcode ∧
    (encodeJ opcode rd offset).extractLsb' 7 5 = rd ∧
    (encodeJ opcode rd offset).extractLsb' 31 1 ++
      (encodeJ opcode rd offset).extractLsb' 12 8 ++
      (encodeJ opcode rd offset).extractLsb' 20 1 ++
      (encodeJ opcode rd offset).extractLsb' 21 10 = offset := by
  have h31 : (encodeJ opcode rd offset).extractLsb' 31 1 = offset.extractLsb' 19 1 := by
    unfold encodeJ
    repeat rw [extract_above _ _ (by decide)]
    exact BitVec.extractLsb'_eq_self
  have h12 : (encodeJ opcode rd offset).extractLsb' 12 8 = offset.extractLsb' 11 8 := by
    unfold encodeJ
    repeat rw [extract_above _ _ (by decide)]
    exact extract_last _ _
  have h20 : (encodeJ opcode rd offset).extractLsb' 20 1 = offset.extractLsb' 10 1 := by
    unfold encodeJ
    repeat rw [extract_above _ _ (by decide)]
    exact extract_last _ _
  have h21 : (encodeJ opcode rd offset).extractLsb' 21 10 = offset.extractLsb' 0 10 := by
    unfold encodeJ
    repeat rw [extract_above _ _ (by decide)]
    exact extract_last _ _
  have hjoin : offset.extractLsb' 19 1 ++ offset.extractLsb' 11 8 ++ offset.extractLsb' 10 1 ++
      offset.extractLsb' 0 10 = offset := by
    rw [@extract_join _ 11 1 8, @extract_join _ 10 (1 + 8) 1, @extract_join _ 0 (1 + 8 + 1) 10]
    exact BitVec.extractLsb'_eq_self
  refine ⟨extract_last _ _, ?_, ?_⟩
  · unfold encodeJ
    repeat rw [extract_above _ _ (by decide)]
    exact extract_last _ _
  · rw [h31, h12, h20, h21]
    exact hjoin

end Fields

end Rv64i
