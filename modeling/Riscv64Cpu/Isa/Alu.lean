import Riscv64Cpu.Isa.Rv64i
import Riscv64Cpu.Pipeline.Holds

set_option relaxedAutoImplicit false
set_option autoImplicit false

/-!
# The arithmetic unit against the instruction set

`alu_info` has one bit for each operation; for the encodings of the base instruction set it is
the bit of the operation, and the result multiplexer computes what the manual says.

## Main definitions

* `Pipeline.regOpBit`, `regwOpBit` — the bit of an operation in `alu_info`.

## Main results

* `Pipeline.decodeAluInfo_congr` — the fields that `alu_info` depends on.
* `Pipeline.aluResultOf_regOp`, `aluResultOf_regwOp`, `aluResultOf_system` — the result
  multiplexer.
-/

namespace Riscv64Cpu.Pipeline

open Rv64i

/-! ## The bits of `alu_info` -/

/-- The bit of a register-register operation in `alu_info`. -/
def regOpBit : RegOp → ℕ
  | .add => 27
  | .sub => 26
  | .sll => 25
  | .slt => 24
  | .sltu => 23
  | .xor => 22
  | .srl => 21
  | .sra => 20
  | .or => 19
  | .and => 18

/-- The bit of an operation on words in `alu_info`. -/
def regwOpBit : RegwOp → ℕ
  | .addw => 17
  | .subw => 16
  | .sllw => 15
  | .srlw => 14
  | .sraw => 13

/-- `alu_info` depends on the opcode, `func3` and `func7`. -/
theorem decodeAluInfo_congr {w w' : BitVec 32} (ho : opcode w = opcode w')
    (h3 : func3 w = func3 w') (h7 : func7 w = func7 w') : decodeAluInfo w = decodeAluInfo w' := by
  have h6 : ∀ v : BitVec 32, v.extractLsb' 26 6 = (func7 v).extractLsb' 1 6 := by
    intro v
    ext i hi
    have h1 : 1 + i < 7 := by omega
    have h2 : 25 + (1 + i) = 26 + i := by omega
    simp [func7, BitVec.getElem_extractLsb', h1, h2]
  simp only [decodeAluInfo, instAdd, instSub, instSll, instSlt, instSltu, instXor, instSrl,
    instSra, instOr, instAnd, instMul, instMulh, instMulhsu, instMulhu, instDiv, instDivu, instRem,
    instRemu, instAddw, instSubw, instSllw, instSrlw, instSraw, instMulw, instDivw, instDivuw,
    instRemw, instRemuw, instAddi, instSlli, instSlti, instSltiu, instXori, instSrli, instSrai,
    instOri, instAndi, instAddiw, instSlliw, instSrliw, instSraiw, aluReg, aluRegw, instAluReg,
    instAluRegw, instAluImm, instAluImmw, h6, ho, h3, h7]

/-- A system instruction asks for no arithmetic operation. -/
lemma decodeAluInfo_system {w : BitVec 32} (h : instSystem w = true) :
    decodeAluInfo w = 0#28 := by
  have hclass : instAluReg w = false ∧ instAluRegw w = false ∧ instAluImm w = false ∧
      instAluImmw w = false := by
    unfold instAluReg instAluRegw instAluImm instAluImmw
    rw [eq_of_beq h]
    decide
  obtain ⟨hr, hrw, hi, hiw⟩ := hclass
  simp only [decodeAluInfo, instAdd, instSub, instSll, instSlt, instSltu, instXor, instSrl,
    instSra, instOr, instAnd, instMul, instMulh, instMulhsu, instMulhu, instDiv, instDivu, instRem,
    instRemu, instAddw, instSubw, instSllw, instSrlw, instSraw, instMulw, instDivw, instDivuw,
    instRemw, instRemuw, instAddi, instSlli, instSlti, instSltiu, instXori, instSrli, instSrai,
    instOri, instAndi, instAddiw, instSlliw, instSrliw, instSraiw, aluReg, aluRegw, hr, hrw, hi,
    hiw, Bool.false_and, Bool.or_self]
  decide

/-! ## The result multiplexer -/

section Result

variable {e : RegE} (a b : BitVec 64)

/-- The result multiplexer for the bit of a register-register operation. -/
theorem aluResultOf_regOp (op : RegOp) (h : e.aluInfo = BitVec.twoPow 28 (regOpBit op)) :
    aluResultOf e a b = op.eval a b := by
  cases op <;>
    simp [aluResultOf, RegE.aluAnd, RegE.aluAdd, RegE.aluAddw, RegE.aluSub, RegE.aluSubw,
      RegE.aluSll, RegE.aluSllw, RegE.aluSlt, RegE.aluSltu, RegE.aluXor, RegE.aluOr, RegE.aluSra,
      RegE.aluSraw, RegE.aluSrl, h, regOpBit, RegOp.eval, BitVec.slt, BitVec.ult]

/-- The low five bits of an operand are the shift amount of the word it holds. -/
lemma toNat_setWidth_five : (b.setWidth 5).toNat = (b.setWidth 32).toNat % 32 := by
  rw [BitVec.toNat_setWidth, BitVec.toNat_setWidth]
  omega

/-- The low word of a difference. -/
private lemma setWidth_sub : (a - b).setWidth 32 = a.setWidth 32 - b.setWidth 32 := by
  apply BitVec.eq_of_toNat_eq
  simp only [BitVec.toNat_setWidth, BitVec.toNat_sub]
  omega

/-- The low word of a sign extended immediate. -/
lemma setWidth_signExtend (imm : BitVec 12) :
    (imm.signExtend 64).setWidth 32 = imm.signExtend 32 := by
  ext i hi
  have hi' : i < 64 := by omega
  simp only [BitVec.getElem_setWidth, BitVec.getLsbD_signExtend, BitVec.getElem_signExtend, hi',
    decide_true, Bool.true_and]
  split_ifs with h
  · exact BitVec.getLsbD_eq_getElem h
  · rfl

/-- The result multiplexer for the bit of an operation on words. -/
theorem aluResultOf_regwOp (op : RegwOp) (h : e.aluInfo = BitVec.twoPow 28 (regwOpBit op)) :
    aluResultOf e a b = (op.eval (a.setWidth 32) (b.setWidth 32)).signExtend 64 := by
  cases op with
  | addw =>
    have hr : aluResultOf e a b = sextWord ((a + b).setWidth 32) := by
      simp [aluResultOf, RegE.aluAnd, RegE.aluAdd, RegE.aluAddw, h, regwOpBit]
    rw [hr, BitVec.setWidth_add _ _ (by decide)]
    rfl
  | subw =>
    have hr : aluResultOf e a b = sextWord ((a - b).setWidth 32) := by
      simp [aluResultOf, RegE.aluAnd, RegE.aluAdd, RegE.aluAddw, RegE.aluSub, RegE.aluSubw, h,
        regwOpBit]
    rw [hr, setWidth_sub]
    rfl
  | sllw =>
    have hr : aluResultOf e a b = sextWord ((a <<< b.setWidth 5).setWidth 32) := by
      simp [aluResultOf, RegE.aluAnd, RegE.aluAdd, RegE.aluAddw, RegE.aluSub, RegE.aluSubw,
        RegE.aluSll, RegE.aluSllw, h, regwOpBit]
    rw [hr, BitVec.shiftLeft_eq', BitVec.setWidth_shiftLeft_of_le (by decide),
      toNat_setWidth_five]
    rfl
  | srlw =>
    have hr : aluResultOf e a b = sextWord (a.setWidth 32 >>> b.setWidth 5) := by
      simp [aluResultOf, RegE.aluAnd, RegE.aluAdd, RegE.aluAddw, RegE.aluSub, RegE.aluSubw,
        RegE.aluSll, RegE.aluSllw, RegE.aluSlt, RegE.aluSltu, RegE.aluXor, RegE.aluOr,
        RegE.aluSra, RegE.aluSraw, RegE.aluSrl, RegE.aluSrlw, h, regwOpBit]
    rw [hr, BitVec.ushiftRight_eq', toNat_setWidth_five]
    rfl
  | sraw =>
    have hr : aluResultOf e a b = sextWord ((a.setWidth 32).sshiftRight' (b.setWidth 5)) := by
      simp [aluResultOf, RegE.aluAnd, RegE.aluAdd, RegE.aluAddw, RegE.aluSub, RegE.aluSubw,
        RegE.aluSll, RegE.aluSllw, RegE.aluSlt, RegE.aluSltu, RegE.aluXor, RegE.aluOr,
        RegE.aluSra, RegE.aluSraw, h, regwOpBit]
    rw [hr, BitVec.sshiftRight', toNat_setWidth_five]
    rfl

/-- The result multiplexer without an arithmetic operation. -/
theorem aluResultOf_system (h : e.aluInfo = 0#28) :
    aluResultOf e a b =
      if e.csrrw then a
      else if e.csrrs then b ||| a
      else if e.csrrc then b &&& ~~~a
      else if e.csrrwi then a
      else if e.csrrsi then b ||| a
      else if e.csrrci then b &&& ~~~a
      else 0#64 := by
  simp [aluResultOf, RegE.aluAnd, RegE.aluAdd, RegE.aluAddw, RegE.aluSub, RegE.aluSubw,
    RegE.aluSll, RegE.aluSllw, RegE.aluSlt, RegE.aluSltu, RegE.aluXor, RegE.aluOr, RegE.aluSra,
    RegE.aluSraw, RegE.aluSrl, RegE.aluSrlw, RegE.aluMul, RegE.aluMulh, RegE.aluMulhsu,
    RegE.aluMulhu, RegE.aluMulw, RegE.aluDiv, RegE.aluDivu, RegE.aluDivw, RegE.aluDivuw,
    RegE.aluRem, RegE.aluRemu, RegE.aluRemw, RegE.aluRemuw, h]

end Result

/-! ## The bits of the encodings -/

section Encodings

variable (rd rs1 rs2 : BitVec 5)

/-- The fields of a word in format R, by the names of `decode.v`. -/
lemma fields_encodeR (o : BitVec 7) (f3 : BitVec 3) (f7 : BitVec 7) :
    opcode (encodeR o f3 f7 rd rs1 rs2) = o ∧ func3 (encodeR o f3 f7 rd rs1 rs2) = f3 ∧
      func7 (encodeR o f3 f7 rd rs1 rs2) = f7 := by
  obtain ⟨ho, -, h3, -, -, h7⟩ := extract_encodeR o f3 f7 rd rs1 rs2
  exact ⟨ho, h3, h7⟩

/-- The fields of a word in format I, by the names of `decode.v`. -/
lemma fields_encodeI (o : BitVec 7) (f3 : BitVec 3) (imm : BitVec 12) :
    opcode (encodeI o f3 rd rs1 imm) = o ∧ func3 (encodeI o f3 rd rs1 imm) = f3 ∧
      func7 (encodeI o f3 rd rs1 imm) = imm.extractLsb' 5 7 := by
  obtain ⟨ho, -, h3, -, -, h7, -⟩ := extract_encodeI o f3 rd rs1 imm
  exact ⟨ho, h3, h7⟩

/-- `alu_info` of a word, from its opcode, `func3` and `func7`. -/
lemma decodeAluInfo_eq {w : BitVec 32} {o : BitVec 7} {f3 : BitVec 3} {f7 : BitVec 7}
    (h : opcode w = o ∧ func3 w = f3 ∧ func7 w = f7) :
    decodeAluInfo w = decodeAluInfo (encodeR o f3 f7 0#5 0#5 0#5) := by
  obtain ⟨ho, h3, h7⟩ := fields_encodeR 0#5 0#5 0#5 o f3 f7
  exact decodeAluInfo_congr (h.1.trans ho.symm) (h.2.1.trans h3.symm) (h.2.2.trans h7.symm)

/-- A register instruction raises the bit of its operation. -/
lemma decodeAluInfo_reg (op : RegOp) :
    decodeAluInfo (Instr.reg op rd rs1 rs2).encode = BitVec.twoPow 28 (regOpBit op) := by
  rw [Instr.encode, decodeAluInfo_eq (fields_encodeR rd rs1 rs2 _ _ _)]
  cases op <;> decide

/-- A register instruction on words raises the bit of its operation. -/
lemma decodeAluInfo_regw (op : RegwOp) :
    decodeAluInfo (Instr.regw op rd rs1 rs2).encode = BitVec.twoPow 28 (regwOpBit op) := by
  rw [Instr.encode, decodeAluInfo_eq (fields_encodeR rd rs1 rs2 _ _ _)]
  cases op <;> decide

/-- For a register-immediate instruction other than a shift `func7` does not matter. -/
lemma decodeAluInfo_imm {w : BitVec 32} (hr : instAluReg w = false)
    (hrw : instAluRegw w = false) (h1 : func3 w ≠ 0b001#3) (h5 : func3 w ≠ 0b101#3) :
    decodeAluInfo w = decodeAluInfo (encodeR (opcode w) (func3 w) 0#7 0#5 0#5 0#5) := by
  obtain ⟨ho, h3, -⟩ := fields_encodeR 0#5 0#5 0#5 (opcode w) (func3 w) 0#7
  generalize encodeR (opcode w) (func3 w) 0#7 0#5 0#5 0#5 = w' at ho h3 ⊢
  have hreg : ∀ {v}, opcode v = opcode w → ∀ f3 f7, aluReg v f3 f7 = false := by
    intro v hv f3 f7
    have hv' : instAluReg v = false := by rwa [instAluReg, hv]
    simp [aluReg, hv']
  have hregw : ∀ {v}, opcode v = opcode w → ∀ f3 f7, aluRegw v f3 f7 = false := by
    intro v hv f3 f7
    have hv' : instAluRegw v = false := by rwa [instAluRegw, hv]
    simp [aluRegw, hv']
  have hs1 : (func3 w == 0b001#3) = false := by simpa using h1
  have hs5 : (func3 w == 0b101#3) = false := by simpa using h5
  simp only [decodeAluInfo, instAdd, instSub, instSll, instSlt, instSltu, instXor, instSrl,
    instSra, instOr, instAnd, instMul, instMulh, instMulhsu, instMulhu, instDiv, instDivu, instRem,
    instRemu, instAddw, instSubw, instSllw, instSrlw, instSraw, instMulw, instDivw, instDivuw,
    instRemw, instRemuw, instAddi, instSlli, instSlti, instSltiu, instXori, instSrli, instSrai,
    instOri, instAndi, instAddiw, instSlliw, instSrliw, instSraiw, instAluImm, instAluImmw,
    hreg rfl, hreg ho, hregw rfl, hregw ho, ho, h3, hs1, hs5, Bool.and_false, Bool.false_and]

/-- An immediate instruction raises the bit of the operation on registers. -/
lemma decodeAluInfo_opImm (op : ImmOp) (imm : BitVec 12) :
    decodeAluInfo (Instr.opImm op rd rs1 imm).encode =
      BitVec.twoPow 28 (regOpBit op.toRegOp) := by
  obtain ⟨ho, h3, -⟩ := fields_encodeI rd rs1 0b0010011#7 op.funct3 imm
  rw [Instr.encode, decodeAluInfo_imm, ho, h3]
  · cases op <;> decide
  · rw [instAluReg, ho]
    decide
  · rw [instAluRegw, ho]
    decide
  · rw [h3]
    cases op <;> decide
  · rw [h3]
    cases op <;> decide

/-- `addiw` raises the bit of `addw`. -/
lemma decodeAluInfo_addiw (imm : BitVec 12) :
    decodeAluInfo (Instr.addiw rd rs1 imm).encode = BitVec.twoPow 28 (regwOpBit .addw) := by
  obtain ⟨ho, h3, -⟩ := fields_encodeI rd rs1 0b0011011#7 0b000#3 imm
  rw [Instr.encode, decodeAluInfo_imm, ho, h3]
  · decide
  · rw [instAluReg, ho]
    decide
  · rw [instAluRegw, ho]
    decide
  · rw [h3]
    decide
  · rw [h3]
    decide

/-- The register-register operation of a shift by an immediate. -/
def shiftRegOp : ShiftOp → RegOp
  | .sll => .sll
  | .srl => .srl
  | .sra => .sra

/-- The operation on words of a shift by an immediate. -/
def shiftRegwOp : ShiftOp → RegwOp
  | .sll => .sllw
  | .srl => .srlw
  | .sra => .sraw

/-- A shift by an immediate raises the bit of the shift by a register. -/
lemma decodeAluInfo_shiftImm (op : ShiftOp) (shamt : BitVec 6) :
    decodeAluInfo (Instr.shiftImm op rd rs1 shamt).encode =
      BitVec.twoPow 28 (regOpBit (shiftRegOp op)) := by
  have h7 : (op.funct6 ++ shamt).extractLsb' 5 7 = op.funct6 ++ shamt.extractLsb' 5 1 := by
    have hhi : (op.funct6 ++ shamt).extractLsb' (5 + 1) 6 = op.funct6 := by
      rw [extract_above _ _ (by decide)]
      exact BitVec.extractLsb'_eq_self
    have hlo : (op.funct6 ++ shamt).extractLsb' 5 1 = shamt.extractLsb' 5 1 :=
      BitVec.extractLsb'_append_eq_of_add_le (by decide)
    calc (op.funct6 ++ shamt).extractLsb' 5 7
        = (op.funct6 ++ shamt).extractLsb' (5 + 1) 6 ++ (op.funct6 ++ shamt).extractLsb' 5 1 :=
          (@extract_join _ 5 6 1 (op.funct6 ++ shamt)).symm
      _ = op.funct6 ++ shamt.extractLsb' 5 1 := by rw [hhi, hlo]
  obtain ⟨ho, h3, hf⟩ := fields_encodeI rd rs1 0b0010011#7 op.funct3 (op.funct6 ++ shamt)
  rw [Instr.encode, decodeAluInfo_eq ⟨ho, h3, hf.trans h7⟩]
  generalize shamt.extractLsb' 5 1 = b
  revert b
  cases op <;> decide

/-- A shift of words by an immediate raises the bit of the shift by a register. -/
lemma decodeAluInfo_shiftImmw (op : ShiftOp) (shamt : BitVec 5) :
    decodeAluInfo (Instr.shiftImmw op rd rs1 shamt).encode =
      BitVec.twoPow 28 (regwOpBit (shiftRegwOp op)) := by
  have h7 : (op.funct6 ++ 0#1 ++ shamt).extractLsb' 5 7 = op.funct6 ++ 0#1 := by
    rw [extract_above _ _ (by decide)]
    exact BitVec.extractLsb'_eq_self
  obtain ⟨ho, h3, hf⟩ := fields_encodeI rd rs1 0b0011011#7 op.funct3 (op.funct6 ++ 0#1 ++ shamt)
  rw [Instr.encode, decodeAluInfo_eq ⟨ho, h3, hf.trans h7⟩]
  cases op <;> decide

end Encodings

end Riscv64Cpu.Pipeline
