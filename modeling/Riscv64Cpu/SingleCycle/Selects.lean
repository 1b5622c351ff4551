import Mathlib.Tactic.SplitIfs
import Riscv64Cpu.Isa.Rv32i
import Riscv64Cpu.SingleCycle.Cpu

set_option relaxedAutoImplicit false
set_option autoImplicit false

/-!
# What the control unit selects

The outputs of `CTRL.v` and the immediate of `IDU.v` for the formats of RV32I.  The unit looks at
five bits of the opcode, at `func3` and at two bits of `func7`.

## Main definitions

* `SingleCycle.Selects` — the outputs that a class of words has in common.

## Main results

* `SingleCycle.selects_addFam`, `selects_addiFam`, … — class by class.
* `SingleCycle.iduValC_encodeI`, … — the immediates.
-/

namespace Riscv64Cpu.SingleCycle

open Rv64i (encodeR encodeI encodeS encodeB encodeU encodeJ extract_encodeR extract_encodeI
  extract_encodeS extract_encodeB extract_encodeU extract_encodeJ)

variable {w : BitVec 32}

/-! ## Fields -/

/-- The five bits of the opcode. -/
lemma opcode_of_extract {o : BitVec 7} (h : w.extractLsb' 0 7 = o) :
    Ctrl.opcode w = o.extractLsb' 2 5 := by
  rw [← h, Ctrl.opcode]
  ext i hi
  simp [BitVec.getElem_extractLsb']

/-- A word with another opcode or `func3` is no `ecall` and no `mret`. -/
lemma not_trap (h : Ctrl.opcode w ≠ 0b11100#5 ∨ Ctrl.func3 w ≠ 0b000#3) :
    Ctrl.rv32Ecall w = false ∧ Ctrl.rv32Mret w = false := by
  have hw : ∀ v : BitVec 32, Ctrl.opcode v = 0b11100#5 → Ctrl.func3 v = 0b000#3 →
      (w == v) = false := by
    intro v ho h3
    rw [beq_eq_false_iff_ne]
    rintro rfl
    rcases h with h | h
    · exact h ho
    · exact h h3
  exact ⟨hw _ (by decide) (by decide), hw _ (by decide) (by decide)⟩

/-! ## Selects -/

/-- The outputs of the control unit but for the function of the arithmetic unit, the immediate and
the next pc. -/
structure Selects (w : BitVec 32) (valASel valBSel regWen : Bool) (wbSel : BitVec 2)
    (memRw : BitVec 4) (csrFlag : BitVec 3) : Prop where
  valASel : Ctrl.valASel w = valASel
  valBSel : Ctrl.valBSel w = valBSel
  regWen : Ctrl.regWen w = regWen
  wbSel : Ctrl.wbSel w = wbSel
  memRw : Ctrl.memRw w = memRw
  csrFlag : Ctrl.csrFlag w = csrFlag

/-- The memory access of a load. -/
def loadRw : Rv32i.LoadOp → BitVec 4
  | .lb => memLb
  | .lh => memLh
  | .lw => memLw
  | .lbu => memLbu
  | .lhu => memLhu

/-- The memory access of a store. -/
def storeRw : Rv32i.StoreOp → BitVec 4
  | .sb => memSb
  | .sh => memSh
  | .sw => memSw

/-- Operations on registers take two registers and write the result. -/
theorem selects_addFam (ho : Ctrl.opcode w = 0b01100#5) :
    Selects w valASelValA valBSelValB regWenW wbSelValE memNoRw csrNone := by
  obtain ⟨he, hm⟩ := not_trap (.inl (by rw [ho]; decide))
  constructor <;> simp [ho, he, hm]

/-- Operations with an immediate take a register and the immediate. -/
theorem selects_addiFam (ho : Ctrl.opcode w = 0b00100#5) :
    Selects w valASelValA valBSelValC regWenW wbSelValE memNoRw csrNone := by
  obtain ⟨he, hm⟩ := not_trap (.inl (by rw [ho]; decide))
  constructor <;> simp [ho, he, hm]

/-- `lui` and `auipc` take the pc and the immediate. -/
lemma selects_uType (ho : Ctrl.opcode w = 0b01101#5 ∨ Ctrl.opcode w = 0b00101#5) :
    Selects w valASelPc valBSelValC regWenW wbSelValE memNoRw csrNone := by
  rcases ho with ho | ho <;> obtain ⟨he, hm⟩ := not_trap (.inl (by rw [ho]; decide)) <;>
    constructor <;> simp [ho, he, hm]

/-- `jal` takes the pc and the offset and writes the next pc. -/
lemma selects_jal (ho : Ctrl.opcode w = 0b11011#5) :
    Selects w valASelPc valBSelValC regWenW wbSelValP memNoRw csrNone := by
  obtain ⟨he, hm⟩ := not_trap (.inl (by rw [ho]; decide))
  constructor <;> simp [ho, he, hm]

/-- `jalr` takes a register and the offset and writes the next pc. -/
lemma selects_jalr (ho : Ctrl.opcode w = 0b11001#5) (h3 : Ctrl.func3 w = 0b000#3) :
    Selects w valASelValA valBSelValC regWenW wbSelValP memNoRw csrNone := by
  obtain ⟨he, hm⟩ := not_trap (.inl (by rw [ho]; decide))
  constructor <;> simp [ho, h3, he, hm]

/-- Branches take the pc and the offset and write nothing. -/
lemma selects_branch (ho : Ctrl.opcode w = 0b11000#5) :
    Selects w valASelPc valBSelValC regWenNoW wbSelValM memNoRw csrNone := by
  obtain ⟨he, hm⟩ := not_trap (.inl (by rw [ho]; decide))
  constructor <;> simp [ho, he, hm]

/-- Loads take a register and the offset and write what they read. -/
lemma selects_load (op : Rv32i.LoadOp) (ho : Ctrl.opcode w = 0b00000#5)
    (h3 : Ctrl.func3 w = op.funct3) :
    Selects w valASelValA valBSelValC regWenW wbSelValM (loadRw op) csrNone := by
  obtain ⟨he, hm⟩ := not_trap (.inl (by rw [ho]; decide))
  constructor <;> cases op <;> simp [ho, h3, he, hm, loadRw, Rv32i.LoadOp.funct3]

/-- Stores take a register and the offset and write no register. -/
lemma selects_store (op : Rv32i.StoreOp) (ho : Ctrl.opcode w = 0b01000#5)
    (h3 : Ctrl.func3 w = op.funct3) :
    Selects w valASelValA valBSelValC regWenNoW wbSelValM (storeRw op) csrNone := by
  obtain ⟨he, hm⟩ := not_trap (.inl (by rw [ho]; decide))
  constructor <;> cases op <;> simp [ho, h3, he, hm, storeRw, Rv32i.StoreOp.funct3]

/-- `csrrw` writes the old CSR and takes the register to the CSR. -/
lemma selects_csrrw (ho : Ctrl.opcode w = 0b11100#5) (h3 : Ctrl.func3 w = 0b001#3) :
    Selects w valASelValA valBSelValC regWenW wbSelValR memNoRw csrCsrrw := by
  constructor <;> simp [ho, h3]

/-- `csrrs` writes the old CSR and sets the bits of the register in the CSR. -/
lemma selects_csrrs (ho : Ctrl.opcode w = 0b11100#5) (h3 : Ctrl.func3 w = 0b010#3) :
    Selects w valASelValA valBSelValC regWenW wbSelValR memNoRw csrCsrrs := by
  constructor <;> simp [ho, h3]

/-! ## The next pc -/

/-- A word that does not transfer control goes on. -/
lemma pcSel_of_next (hb : Ctrl.opcode w ≠ 0b11000#5) (hj : Ctrl.opcode w ≠ 0b11011#5)
    (hjr : Ctrl.opcode w ≠ 0b11001#5) (ht : Ctrl.opcode w ≠ 0b11100#5 ∨ Ctrl.func3 w ≠ 0b000#3)
    (lt eq : Bool) : Ctrl.pcSel w lt eq = pcSelValP := by
  obtain ⟨he, hm⟩ := not_trap ht
  simp [hb, hj, hjr, he, hm]

/-- A branch goes to its target if the comparison says so. -/
lemma pcSel_branch (op : Rv64i.BranchOp) (ho : Ctrl.opcode w = 0b11000#5)
    (h3 : Ctrl.func3 w = op.funct3) (a b : BitVec 32) :
    Ctrl.pcSel w (brJmpBrLt (Ctrl.brUn w) a b) (brJmpBrEq a b) =
      if Rv32i.taken a b op then pcSelValE else pcSelValP := by
  obtain ⟨he, hm⟩ := not_trap (.inl (by rw [ho]; decide))
  cases op <;>
    simp [ho, h3, he, hm, Rv64i.BranchOp.funct3, Rv32i.taken, brJmpBrLt, brJmpBrEq, BitVec.slt,
      BitVec.ult]

/-! ## The arithmetic unit -/

/-- The function of a register-register operation. -/
def aluFunc : Rv64i.RegOp → BitVec 4
  | .add => funcAdd
  | .sub => funcSub
  | .sll => funcSll
  | .slt => funcSlt
  | .sltu => funcSltu
  | .xor => funcXor
  | .srl => funcSrl
  | .sra => funcSra
  | .or => funcOr
  | .and => funcAnd

/-- The function of an operation on registers. -/
lemma aluSel_reg (op : Rv64i.RegOp) (ho : Ctrl.opcode w = 0b01100#5)
    (h3 : Ctrl.func3 w = op.funct3) (h7 : Ctrl.func7 w = op.funct7) :
    Ctrl.aluSel w = aluFunc op := by
  cases op <;>
    simp [ho, h3, h7, aluFunc, Rv64i.RegOp.funct3, Rv64i.RegOp.funct7]

/-- The function of an operation with an immediate, which is I-type. -/
lemma aluSel_opImm (op : Rv64i.ImmOp) (ho : Ctrl.opcode w = 0b00100#5)
    (h3 : Ctrl.func3 w = op.funct3) :
    Ctrl.aluSel w = aluFunc op.toRegOp ∧ Ctrl.valCSel w = valCIType := by
  cases op <;> simp [ho, h3, aluFunc, Rv64i.ImmOp.funct3, Rv64i.ImmOp.toRegOp]

/-- The register-register operation of a shift. -/
def shiftRegOp : Rv64i.ShiftOp → Rv64i.RegOp
  | .sll => .sll
  | .srl => .srl
  | .sra => .sra

/-- A shift has its own immediate. -/
lemma aluSel_shiftImm (op : Rv64i.ShiftOp) (ho : Ctrl.opcode w = 0b00100#5)
    (h3 : Ctrl.func3 w = op.funct3) (h7 : Ctrl.func7 w = op.funct6 ++ 0#1) :
    Ctrl.aluSel w = aluFunc (shiftRegOp op) ∧ Ctrl.valCSel w = valCIShamt := by
  cases op <;>
    simp [ho, h3, h7, aluFunc, shiftRegOp, Rv64i.ShiftOp.funct3, Rv64i.ShiftOp.funct6]

/-- A word that is neither arithmetic nor `jalr` nor `lui` adds. -/
lemma aluSel_of_add (ho : Ctrl.opcode w ≠ 0b01100#5) (hi : Ctrl.opcode w ≠ 0b00100#5)
    (hjr : Ctrl.opcode w ≠ 0b11001#5) (hl : Ctrl.opcode w ≠ 0b01101#5) :
    Ctrl.aluSel w = funcAdd := by
  simp [ho, hi, hjr, hl]

/-- The result of a register-register operation. -/
lemma exuResult_aluFunc (op : Rv64i.RegOp) (a b : BitVec 32) :
    exuResult (aluFunc op) a b = Rv32i.eval a b op := by
  have hamt : (b.extractLsb' 0 5).toNat = b.toNat % 32 := by simp
  cases op <;>
    simp [exuResult, aluFunc, Rv32i.eval, hamt, funcAdd, funcSub, funcSll, funcSlt, funcSltu,
      funcXor, funcSrl, funcSra, funcOr, funcAnd, BitVec.slt, BitVec.ult]

/-! ## Immediates -/

section Immediates

/-- The only bit of a vector of one bit is its sign. -/
private lemma msb_one (s : BitVec 1) : s.msb = s.getLsbD 0 := BitVec.msb_eq_getLsbD_last s

/-- A vector behind copies of its sign bit. -/
lemma signExtend_append {k n : ℕ} (s : BitVec 1) (x : BitVec n) (hs : s.getLsbD 0 = x.msb) :
    s.signExtend k ++ x = x.signExtend (k + n) := by
  apply BitVec.eq_of_getLsbD_eq
  intro i hi
  rw [BitVec.getLsbD_append, BitVec.getLsbD_signExtend, BitVec.getLsbD_signExtend, msb_one, hs]
  by_cases hin : i < n
  · simp only [hin, hi, decide_true, if_true, Bool.true_and]
  · have hk : i - n < k := by omega
    simp only [hin, hi, hk, decide_true, if_false, Bool.true_and]
    split_ifs with h1
    · rw [show i - n = 0 by omega, hs]
    · rfl

/-- A shift to the left after a sign extension. -/
lemma signExtend_shiftLeft_one {m n : ℕ} (x : BitVec n) (hn : 0 < n) :
    x.signExtend m <<< 1 = (x ++ 0#1).signExtend m := by
  apply BitVec.eq_of_getLsbD_eq
  intro i hi
  have hmsb : (x ++ 0#1).msb = x.msb := by
    rw [BitVec.msb_append, if_neg (by omega)]
  rw [BitVec.getLsbD_shiftLeft, BitVec.getLsbD_signExtend, BitVec.getLsbD_signExtend, hmsb,
    BitVec.getLsbD_append]
  cases i with
  | zero => simp [hi]
  | succ i =>
    have hin : i + 1 < n + 1 ↔ i < n := by omega
    simp [hi, hin, show i < m by omega]

/-- A sign extension with further bits behind it. -/
lemma append_signExtend {k m n : ℕ} (x : BitVec n) (y : BitVec m) (hn : 0 < n) :
    x.signExtend k ++ y = (x ++ y).signExtend (k + m) := by
  apply BitVec.eq_of_getLsbD_eq
  intro i hi
  have hmsb : (x ++ y).msb = x.msb := by rw [BitVec.msb_append, if_neg (by omega)]
  rw [BitVec.getLsbD_append, BitVec.getLsbD_signExtend, BitVec.getLsbD_signExtend, hmsb,
    BitVec.getLsbD_append]
  by_cases him : i < m
  · simp [hi, him, show i < n + m by omega]
  · have hin : i < n + m ↔ i - m < n := by omega
    simp [hi, him, hin, show i - m < k by omega]

/-- The sign bit of a word is that of its upper field. -/
lemma getLsbD_sign (w : BitVec 32) {k n : ℕ} (hn : 0 < n) (hkn : k + n = 32) :
    (w.extractLsb' 31 1).getLsbD 0 = (w.extractLsb' k n).msb := by
  rw [BitVec.msb_eq_getLsbD_last, BitVec.getLsbD_extractLsb', BitVec.getLsbD_extractLsb',
    show k + (n - 1) = 31 by omega]
  simp [show n - 1 < n by omega]

/-- The immediate of a U-type word. -/
lemma iduValC_encodeU {o : BitVec 7} (rd : BitVec 5) (imm : BitVec 20)
    (ho : o = 0b0110111#7 ∨ o = 0b0010111#7) :
    iduValC (encodeU o rd imm) = imm ++ 0#12 := by
  obtain ⟨hop, -, himm⟩ := extract_encodeU o rd imm
  have hsel : Ctrl.valCSel (encodeU o rd imm) = valCUType := by
    have hop := opcode_of_extract hop
    rcases ho with rfl | rfl <;> simp [hop]
  rw [iduValC, hsel, himm]
  rfl

/-- The immediate of format I. -/
private lemma iduValC_iType {w : BitVec 32} (hsel : Ctrl.valCSel w = valCIType) :
    iduValC w = (w.extractLsb' 20 12).signExtend 32 := by
  rw [← signExtend_append (k := 20) _ _ (getLsbD_sign w (by decide) rfl), iduValC, hsel]
  rfl

/-- The immediate of an I-type word. -/
theorem iduValC_encodeI {o : BitVec 7} (f3 : BitVec 3) (rd rs1 : BitVec 5) (imm : BitVec 12)
    (hsel : Ctrl.valCSel (encodeI o f3 rd rs1 imm) = valCIType) :
    iduValC (encodeI o f3 rd rs1 imm) = imm.signExtend 32 := by
  obtain ⟨-, -, -, -, himm, -, -⟩ := extract_encodeI o f3 rd rs1 imm
  rw [iduValC_iType hsel, himm]

/-- The immediate of format S. -/
private lemma iduValC_sType {w : BitVec 32} (hsel : Ctrl.valCSel w = valCSType) :
    iduValC w = (w.extractLsb' 25 7 ++ w.extractLsb' 7 5).signExtend 32 := by
  have hvalue : (w.extractLsb' 31 1).signExtend 20 ++ w.extractLsb' 25 7 ++ w.extractLsb' 7 5 =
      (w.extractLsb' 25 7 ++ w.extractLsb' 7 5).signExtend 32 := by
    rw [signExtend_append _ _ (getLsbD_sign w (by decide) rfl), append_signExtend _ _ (by decide)]
  rw [iduValC, hsel]
  exact hvalue

/-- The immediate of an S-type word. -/
lemma iduValC_encodeS (f3 : BitVec 3) (rs1 rs2 : BitVec 5) (imm : BitVec 12) :
    iduValC (encodeS 0b0100011#7 f3 rs1 rs2 imm) = imm.signExtend 32 := by
  obtain ⟨hop, -, -, -, himm⟩ := extract_encodeS 0b0100011#7 f3 rs1 rs2 imm
  exact (iduValC_sType (by simp [opcode_of_extract hop])).trans
    (congrArg (BitVec.signExtend 32) himm)

/-- The immediate of format B. -/
private lemma iduValC_bType {w : BitVec 32} (hsel : Ctrl.valCSel w = valCBType) :
    iduValC w = ((w.extractLsb' 31 1 ++ w.extractLsb' 7 1 ++ w.extractLsb' 25 6 ++
      w.extractLsb' 8 4) ++ 0#1).signExtend 32 := by
  have hvalue : (w.extractLsb' 31 1).signExtend 20 ++ w.extractLsb' 31 1 ++ w.extractLsb' 7 1 ++
      w.extractLsb' 25 6 ++ w.extractLsb' 8 4 =
        (w.extractLsb' 31 1 ++ w.extractLsb' 7 1 ++ w.extractLsb' 25 6 ++
          w.extractLsb' 8 4).signExtend 32 := by
    rw [signExtend_append _ _ (getLsbD_sign w (by decide) rfl), append_signExtend _ _ (by decide),
      append_signExtend _ _ (by decide), append_signExtend _ _ (by decide)]
  rw [← signExtend_shiftLeft_one _ (by decide), iduValC, hsel]
  exact congrArg (fun v : BitVec 32 => v <<< 1) hvalue

/-- The offset of a B-type word. -/
lemma iduValC_encodeB (f3 : BitVec 3) (rs1 rs2 : BitVec 5) (offset : BitVec 12) :
    iduValC (encodeB 0b1100011#7 f3 rs1 rs2 offset) = (offset ++ 0#1).signExtend 32 := by
  obtain ⟨hop, -, -, -, himm⟩ := extract_encodeB 0b1100011#7 f3 rs1 rs2 offset
  exact (iduValC_bType (by simp [opcode_of_extract hop])).trans
    (congrArg (fun x : BitVec 12 => (x ++ 0#1).signExtend 32) himm)

/-- The immediate of format J. -/
private lemma iduValC_jType {w : BitVec 32} (hsel : Ctrl.valCSel w = valCJType) :
    iduValC w = ((w.extractLsb' 31 1 ++ w.extractLsb' 12 8 ++ w.extractLsb' 20 1 ++
      w.extractLsb' 21 10) ++ 0#1).signExtend 32 := by
  have hvalue : (w.extractLsb' 31 1).signExtend 12 ++ w.extractLsb' 31 1 ++ w.extractLsb' 12 8 ++
      w.extractLsb' 20 1 ++ w.extractLsb' 21 10 =
        (w.extractLsb' 31 1 ++ w.extractLsb' 12 8 ++ w.extractLsb' 20 1 ++
          w.extractLsb' 21 10).signExtend 32 := by
    rw [signExtend_append _ _ (getLsbD_sign w (by decide) rfl), append_signExtend _ _ (by decide),
      append_signExtend _ _ (by decide), append_signExtend _ _ (by decide)]
  rw [← signExtend_shiftLeft_one _ (by decide), iduValC, hsel]
  exact congrArg (fun v : BitVec 32 => v <<< 1) hvalue

/-- The offset of a J-type word. -/
lemma iduValC_encodeJ (rd : BitVec 5) (offset : BitVec 20) :
    iduValC (encodeJ 0b1101111#7 rd offset) = (offset ++ 0#1).signExtend 32 := by
  obtain ⟨hop, -, himm⟩ := extract_encodeJ 0b1101111#7 rd offset
  exact (iduValC_jType (by simp [opcode_of_extract hop])).trans
    (congrArg (fun x : BitVec 20 => (x ++ 0#1).signExtend 32) himm)

/-- The shift amount of a shift by an immediate. -/
lemma iduValC_shamt {w : BitVec 32} (hsel : Ctrl.valCSel w = valCIShamt) :
    iduValC w = 0#27 ++ (w.extractLsb' 20 12).extractLsb' 0 5 := by
  have hfield : (w.extractLsb' 20 12).extractLsb' 0 5 = w.extractLsb' 20 5 := by
    ext i hi
    simp [BitVec.getElem_extractLsb', show i < 12 by omega]
  rw [hfield, iduValC, hsel]
  rfl

end Immediates

end Riscv64Cpu.SingleCycle
