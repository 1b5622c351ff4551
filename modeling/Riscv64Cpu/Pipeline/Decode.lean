import Riscv64Cpu.Verilog.Vector
import Riscv64Cpu.Pipeline.Define

set_option relaxedAutoImplicit false
set_option autoImplicit false

/-!
# The instruction decoder

The part of `decode.v` that looks at nothing but the instruction word: its fields, the
one-hot wires `inst_*`, the packed info vectors that travel down the pipeline, the immediate
and the write enables.

## Main definitions

* `Pipeline.decodeOpcodeInfo`, `decodeBranchInfo`, `decodeLoadStoreInfo`, `decodeCsrrwInfo`,
  `decodeSystemInfo`, `decodeAluInfo`, `decodeAmoInfo` — the info vectors.
* `Pipeline.decodeImm` — the immediate.
* `Pipeline.decodeRegWen`, `decodeCsrWen`, `decodeCsrWid` — what the instruction writes.
-/

namespace Riscv64Cpu.Pipeline

open Verilog (pack bit)

variable (instr : BitVec 32)

/-! ## Fields -/

/-- `instr[6:0]`. -/
def opcode : BitVec 7 := instr.extractLsb' 0 7

/-- `instr[11:7]`. -/
def rd : BitVec 5 := instr.extractLsb' 7 5

/-- `instr[14:12]`. -/
def func3 : BitVec 3 := instr.extractLsb' 12 3

/-- `instr[19:15]`. -/
def rs1 : BitVec 5 := instr.extractLsb' 15 5

/-- `instr[24:20]`. -/
def rs2 : BitVec 5 := instr.extractLsb' 20 5

/-- `instr[31:25]`. -/
def func7 : BitVec 7 := instr.extractLsb' 25 7

/-- `instr[31:20]`. -/
def csrId : BitVec 12 := instr.extractLsb' 20 12

/-- `instr[31:27]`. -/
def amoFunc5 : BitVec 5 := instr.extractLsb' 27 5

/-! ## Instruction classes -/

def instLui : Bool := opcode instr == 0b0110111#7
def instAuipc : Bool := opcode instr == 0b0010111#7
def instJal : Bool := opcode instr == 0b1101111#7
def instJalr : Bool := opcode instr == 0b1100111#7
def instAluReg : Bool := opcode instr == 0b0110011#7
def instAluRegw : Bool := opcode instr == 0b0111011#7
def instAluImm : Bool := opcode instr == 0b0010011#7
def instAluImmw : Bool := opcode instr == 0b0011011#7
def instLoad : Bool := opcode instr == 0b0000011#7
def instStore : Bool := opcode instr == 0b0100011#7
def instBranch : Bool := opcode instr == 0b1100011#7
def instSystem : Bool := opcode instr == 0b1110011#7
def instAmo : Bool := opcode instr == 0b0101111#7

/-! ## Register-register instructions -/

/-- An `alu_reg` instruction with the given `func3` and `func7`. -/
def aluReg (f3 : BitVec 3) (f7 : BitVec 7) : Bool :=
  instAluReg instr && func3 instr == f3 && func7 instr == f7

def instAdd : Bool := aluReg instr 0b000#3 0b0000000#7
def instSub : Bool := aluReg instr 0b000#3 0b0100000#7
def instSll : Bool := aluReg instr 0b001#3 0b0000000#7
def instSlt : Bool := aluReg instr 0b010#3 0b0000000#7
def instSltu : Bool := aluReg instr 0b011#3 0b0000000#7
def instXor : Bool := aluReg instr 0b100#3 0b0000000#7
def instSrl : Bool := aluReg instr 0b101#3 0b0000000#7
def instSra : Bool := aluReg instr 0b101#3 0b0100000#7
def instOr : Bool := aluReg instr 0b110#3 0b0000000#7
def instAnd : Bool := aluReg instr 0b111#3 0b0000000#7
def instMul : Bool := aluReg instr 0b000#3 0b0000001#7
def instMulh : Bool := aluReg instr 0b001#3 0b0000001#7
def instMulhsu : Bool := aluReg instr 0b010#3 0b0000001#7
def instMulhu : Bool := aluReg instr 0b011#3 0b0000001#7
def instDiv : Bool := aluReg instr 0b100#3 0b0000001#7
def instDivu : Bool := aluReg instr 0b101#3 0b0000001#7
def instRem : Bool := aluReg instr 0b110#3 0b0000001#7
def instRemu : Bool := aluReg instr 0b111#3 0b0000001#7

/-- An `alu_regw` instruction with the given `func3` and `func7`. -/
def aluRegw (f3 : BitVec 3) (f7 : BitVec 7) : Bool :=
  instAluRegw instr && func3 instr == f3 && func7 instr == f7

def instAddw : Bool := aluRegw instr 0b000#3 0b0000000#7
def instSubw : Bool := aluRegw instr 0b000#3 0b0100000#7
def instSllw : Bool := aluRegw instr 0b001#3 0b0000000#7
def instSrlw : Bool := aluRegw instr 0b101#3 0b0000000#7
def instSraw : Bool := aluRegw instr 0b101#3 0b0100000#7
def instMulw : Bool := aluRegw instr 0b000#3 0b0000001#7
def instDivw : Bool := aluRegw instr 0b100#3 0b0000001#7
def instDivuw : Bool := aluRegw instr 0b101#3 0b0000001#7
def instRemw : Bool := aluRegw instr 0b110#3 0b0000001#7
def instRemuw : Bool := aluRegw instr 0b111#3 0b0000001#7

/-! ## Register-immediate instructions -/

def instAddi : Bool := instAluImm instr && func3 instr == 0b000#3
def instSlli : Bool := instAluImm instr && func3 instr == 0b001#3
def instSlti : Bool := instAluImm instr && func3 instr == 0b010#3
def instSltiu : Bool := instAluImm instr && func3 instr == 0b011#3
def instXori : Bool := instAluImm instr && func3 instr == 0b100#3
def instSrli : Bool :=
  instAluImm instr && func3 instr == 0b101#3 && instr.extractLsb' 26 6 == 0b000000#6
def instSrai : Bool :=
  instAluImm instr && func3 instr == 0b101#3 && instr.extractLsb' 26 6 == 0b010000#6
def instOri : Bool := instAluImm instr && func3 instr == 0b110#3
def instAndi : Bool := instAluImm instr && func3 instr == 0b111#3

def instAddiw : Bool := instAluImmw instr && func3 instr == 0b000#3
def instSlliw : Bool := instAluImmw instr && func3 instr == 0b001#3 && func7 instr == 0b0000000#7
def instSrliw : Bool := instAluImmw instr && func3 instr == 0b101#3 && func7 instr == 0b0000000#7
def instSraiw : Bool := instAluImmw instr && func3 instr == 0b101#3 && func7 instr == 0b0100000#7

/-! ## Loads, stores and branches -/

def instLb : Bool := instLoad instr && func3 instr == 0b000#3
def instLh : Bool := instLoad instr && func3 instr == 0b001#3
def instLw : Bool := instLoad instr && func3 instr == 0b010#3
def instLd : Bool := instLoad instr && func3 instr == 0b011#3
def instLbu : Bool := instLoad instr && func3 instr == 0b100#3
def instLhu : Bool := instLoad instr && func3 instr == 0b101#3
def instLwu : Bool := instLoad instr && func3 instr == 0b110#3

def instSb : Bool := instStore instr && func3 instr == 0b000#3
def instSh : Bool := instStore instr && func3 instr == 0b001#3
def instSw : Bool := instStore instr && func3 instr == 0b010#3
def instSd : Bool := instStore instr && func3 instr == 0b011#3

def instBeq : Bool := instBranch instr && func3 instr == 0b000#3
def instBne : Bool := instBranch instr && func3 instr == 0b001#3
def instBlt : Bool := instBranch instr && func3 instr == 0b100#3
def instBge : Bool := instBranch instr && func3 instr == 0b101#3
def instBltu : Bool := instBranch instr && func3 instr == 0b110#3
def instBgeu : Bool := instBranch instr && func3 instr == 0b111#3

/-! ## System instructions -/

def instCsrrw : Bool := instSystem instr && func3 instr == 0b001#3
def instCsrrs : Bool := instSystem instr && func3 instr == 0b010#3
def instCsrrc : Bool := instSystem instr && func3 instr == 0b011#3
def instCsrrwi : Bool := instSystem instr && func3 instr == 0b101#3
def instCsrrsi : Bool := instSystem instr && func3 instr == 0b110#3
def instCsrrci : Bool := instSystem instr && func3 instr == 0b111#3

def instEcall : Bool := instr == 0x00000073#32
def instEbreak : Bool := instr == 0x00100073#32
def instUret : Bool := instr == 0x00200073#32
def instSret : Bool := instr == 0x10200073#32
def instMret : Bool := instr == 0x30200073#32
def instWfi : Bool := instr == 0x10500073#32
def instSfenceVma : Bool :=
  instSystem instr && amoFunc5 instr == 0b00010#5 && func3 instr == 0b000#3

def instCsrInstr : Bool :=
  instCsrrw instr || instCsrrs instr || instCsrrc instr || instCsrrwi instr || instCsrrsi instr ||
    instCsrrci instr

def instSystemInstr : Bool :=
  instEcall instr || instEbreak instr || instUret instr || instSret instr || instMret instr ||
    instWfi instr || instSfenceVma instr

/-! ## Atomic instructions -/

/-- A word atomic with the given `amo_func5`. -/
def amoW (f5 : BitVec 5) : Bool := instAmo instr && func3 instr == 0b010#3 && amoFunc5 instr == f5

/-- A doubleword atomic with the given `amo_func5`. -/
def amoD (f5 : BitVec 5) : Bool := instAmo instr && func3 instr == 0b011#3 && amoFunc5 instr == f5

def instLrw : Bool := amoW instr 0b00010#5
def instScw : Bool := amoW instr 0b00011#5
def instAmoswapw : Bool := amoW instr 0b00001#5
def instAmoaddw : Bool := amoW instr 0b00000#5
def instAmoxorw : Bool := amoW instr 0b00100#5
def instAmoorw : Bool := amoW instr 0b01000#5
def instAmominw : Bool := amoW instr 0b10000#5
def instAmomaxw : Bool := amoW instr 0b10100#5
def instAmominuw : Bool := amoW instr 0b11000#5
def instAmomaxuw : Bool := amoW instr 0b11100#5

def instLrd : Bool := amoD instr 0b00010#5
def instScd : Bool := amoD instr 0b00011#5
def instAmoswapd : Bool := amoD instr 0b00001#5
def instAmoaddd : Bool := amoD instr 0b00000#5
def instAmoxord : Bool := amoD instr 0b00100#5
def instAmoord : Bool := amoD instr 0b01000#5
def instAmomind : Bool := amoD instr 0b10000#5
def instAmomaxd : Bool := amoD instr 0b10100#5
def instAmominud : Bool := amoD instr 0b11000#5
def instAmomaxud : Bool := amoD instr 0b11100#5

/-! ## The info vectors -/

/-- `decode_o_opcode_info`: the instruction's class, bit `13` for `inst_amo` down to bit `0`
for `inst_system_instr`. -/
def decodeOpcodeInfo : BitVec 14 :=
  pack 14 [instAmo instr, instCsrInstr instr, instLui instr, instAuipc instr, instJal instr,
    instJalr instr, instAluReg instr, instAluRegw instr, instAluImm instr, instAluImmw instr,
    instLoad instr, instStore instr, instBranch instr, instSystemInstr instr]

section OpcodeInfo

/-- The bit of the atomic instructions. -/
@[simp] lemma opcodeInfo_amo : bit (decodeOpcodeInfo instr) 13 = instAmo instr := by
  simp [decodeOpcodeInfo]

/-- The bit of the CSR instructions. -/
@[simp] lemma opcodeInfo_csrInstr : bit (decodeOpcodeInfo instr) 12 = instCsrInstr instr := by
  simp [decodeOpcodeInfo]

/-- The bit of `jal`. -/
@[simp] lemma opcodeInfo_jal : bit (decodeOpcodeInfo instr) 9 = instJal instr := by
  simp [decodeOpcodeInfo]

/-- The bit of `jalr`. -/
@[simp] lemma opcodeInfo_jalr : bit (decodeOpcodeInfo instr) 8 = instJalr instr := by
  simp [decodeOpcodeInfo]

/-- The bit of the loads. -/
@[simp] lemma opcodeInfo_load : bit (decodeOpcodeInfo instr) 3 = instLoad instr := by
  simp [decodeOpcodeInfo]

end OpcodeInfo

/-- `decode_o_branch_info`. -/
def decodeBranchInfo : BitVec 6 :=
  pack 6 [instBeq instr, instBne instr, instBlt instr, instBge instr, instBltu instr,
    instBgeu instr]

/-- `decode_o_load_store_info`. -/
def decodeLoadStoreInfo : BitVec 11 :=
  pack 11 [instLb instr, instLh instr, instLw instr, instLd instr, instLbu instr, instLhu instr,
    instLwu instr, instSb instr, instSh instr, instSw instr, instSd instr]

/-- `decode_o_csrrw_info`. -/
def decodeCsrrwInfo : BitVec 6 :=
  pack 6 [instCsrrw instr, instCsrrs instr, instCsrrc instr, instCsrrwi instr, instCsrrsi instr,
    instCsrrci instr]

/-- `decode_o_system_info`. -/
def decodeSystemInfo : BitVec 7 :=
  pack 7 [instEcall instr, instEbreak instr, instUret instr, instSret instr, instMret instr,
    instWfi instr, instSfenceVma instr]

/-- `decode_o_alu_info`: the operation of the arithmetic unit, bit `27` for an addition down to
bit `0` for `remuw`. -/
def decodeAluInfo : BitVec 28 :=
  pack 28 [instAdd instr || instAddi instr, instSub instr, instSll instr || instSlli instr,
    instSlt instr || instSlti instr, instSltu instr || instSltiu instr,
    instXor instr || instXori instr, instSrl instr || instSrli instr,
    instSra instr || instSrai instr, instOr instr || instOri instr, instAnd instr || instAndi instr,
    instAddw instr || instAddiw instr, instSubw instr, instSllw instr || instSlliw instr,
    instSrlw instr || instSrliw instr, instSraw instr || instSraiw instr, instMul instr,
    instMulh instr, instMulhsu instr, instMulhu instr, instMulw instr, instDiv instr,
    instDivu instr, instDivw instr, instDivuw instr, instRem instr, instRemu instr,
    instRemw instr, instRemuw instr]

/-- `decode_o_amo_info`.  The vector has no place for `amoand.w` and `amoand.d`. -/
def decodeAmoInfo : BitVec 20 :=
  pack 20 [instLrw instr, instScw instr, instAmoswapw instr, instAmoaddw instr,
    instAmoxorw instr, instAmoorw instr, instAmominw instr, instAmomaxw instr,
    instAmominuw instr, instAmomaxuw instr, instLrd instr, instScd instr, instAmoswapd instr,
    instAmoaddd instr, instAmoxord instr, instAmoord instr, instAmomind instr,
    instAmomaxd instr, instAmominud instr, instAmomaxud instr]

/-! ## Immediates -/

/-- `{ {52{instr[31]}}, instr[31:20] }`. -/
def instIImm : BitVec 64 := (instr.extractLsb' 20 12).signExtend 64

/-- `{ {52{instr[31]}}, instr[31:25], instr[11:7] }`. -/
def instSImm : BitVec 64 := (instr.extractLsb' 25 7 ++ instr.extractLsb' 7 5).signExtend 64

/-- `{ {51{instr[31]}}, instr[31], instr[7], instr[30:25], instr[11:8], 1'b0 }`. -/
def instBImm : BitVec 64 :=
  (instr.extractLsb' 31 1 ++ instr.extractLsb' 7 1 ++ instr.extractLsb' 25 6 ++
    instr.extractLsb' 8 4 ++ 0#1).signExtend 64

/-- `{ {43{instr[31]}}, instr[31], instr[19:12], instr[20], instr[30:21], 1'b0 }`. -/
def instJImm : BitVec 64 :=
  (instr.extractLsb' 31 1 ++ instr.extractLsb' 12 8 ++ instr.extractLsb' 20 1 ++
    instr.extractLsb' 21 10 ++ 0#1).signExtend 64

/-- `{ {32{instr[31]}}, instr[31:12], 12'd0 }`. -/
def instUImm : BitVec 64 := (instr.extractLsb' 12 20 ++ 0#12).signExtend 64

def instIType : Bool := instLoad instr || instJalr instr || instAluImm instr || instAluImmw instr
def instUType : Bool := instLui instr || instAuipc instr
def instJType : Bool := instJal instr
def instRType : Bool := instAluReg instr || instAluRegw instr
def instSType : Bool := instStore instr
def instBType : Bool := instBranch instr

/-- `decode_o_imm`. -/
def decodeImm : BitVec 64 :=
  if instIType instr then instIImm instr
  else if instSType instr then instSImm instr
  else if instBType instr then instBImm instr
  else if instJType instr then instJImm instr
  else if instUType instr then instUImm instr
  else 0#64

/-! ## Writes -/

/-- `decode_o_reg_wen`. -/
def decodeRegWen : Bool :=
  instIType instr || instUType instr || instRType instr || instJType instr ||
    instCsrInstr instr || instAmo instr

/-- `csr_rid1`: `mret` reads `mstatus`, every other instruction the CSR in its own field. -/
def csrRid1 : BitVec 12 := if instMret instr then Csr.mstatus else csrId instr

/-- `csr_rid2`: `mret` reads `mepc`. -/
def csrRid2 : BitVec 12 := if instMret instr then Csr.mepc else csrId instr

/-- `decode_o_csr_wid`. -/
def decodeCsrWid : BitVec 12 := if instMret instr then Csr.mstatus else csrId instr

/-- `decode_o_csr_wen`. -/
def decodeCsrWen : Bool := if instMret instr then true else instCsrInstr instr

end Riscv64Cpu.Pipeline
