import Riscv64Cpu.Pipeline.Decode
import Riscv64Cpu.Pipeline.Files
import Riscv64Cpu.Pipeline.Registers

set_option relaxedAutoImplicit false
set_option autoImplicit false

/-!
# The execute stage

`execute.v`: the operands of the arithmetic unit, its result, the branch decision with its
target, the `mret` redirect and the commit information with the corrected next pc.

Division by a zero divisor that no branch of the result multiplexer catches (the low words of
`divw` and `divuw`) has the value `0`.

## Main definitions

* `Pipeline.aluSrc1`, `aluSrc2` — the operands.
* `Pipeline.executeAluResult` — the result multiplexer.
* `Pipeline.executeBranchNeedJump`, `executeBranchNextPc` — the branch decision.
* `Pipeline.execute` — all outputs of the stage.
-/

namespace Riscv64Cpu.Pipeline

open Verilog (bit)

namespace RegE

variable (e : RegE)

/-! ## The info bits, as `execute.v` numbers them -/

def opCsrrw : Bool := bit e.opcodeInfo 12
def opLui : Bool := bit e.opcodeInfo 11
def opAuipc : Bool := bit e.opcodeInfo 10
def opJal : Bool := bit e.opcodeInfo 9
def opJalr : Bool := bit e.opcodeInfo 8
def opAluReg : Bool := bit e.opcodeInfo 7
def opAluRegw : Bool := bit e.opcodeInfo 6
def opAluImm : Bool := bit e.opcodeInfo 5
def opAluImmw : Bool := bit e.opcodeInfo 4
def opLoad : Bool := bit e.opcodeInfo 3
def opStore : Bool := bit e.opcodeInfo 2
def opBranch : Bool := bit e.opcodeInfo 1

def aluRemuw : Bool := bit e.aluInfo 0
def aluRemw : Bool := bit e.aluInfo 1
def aluRemu : Bool := bit e.aluInfo 2
def aluRem : Bool := bit e.aluInfo 3
def aluDivuw : Bool := bit e.aluInfo 4
def aluDivw : Bool := bit e.aluInfo 5
def aluDivu : Bool := bit e.aluInfo 6
def aluDiv : Bool := bit e.aluInfo 7
def aluMulw : Bool := bit e.aluInfo 8
def aluMulhu : Bool := bit e.aluInfo 9
def aluMulhsu : Bool := bit e.aluInfo 10
def aluMulh : Bool := bit e.aluInfo 11
def aluMul : Bool := bit e.aluInfo 12
def aluSraw : Bool := bit e.aluInfo 13
def aluSrlw : Bool := bit e.aluInfo 14
def aluSllw : Bool := bit e.aluInfo 15
def aluSubw : Bool := bit e.aluInfo 16
def aluAddw : Bool := bit e.aluInfo 17
def aluAnd : Bool := bit e.aluInfo 18
def aluOr : Bool := bit e.aluInfo 19
def aluSra : Bool := bit e.aluInfo 20
def aluSrl : Bool := bit e.aluInfo 21
def aluXor : Bool := bit e.aluInfo 22
def aluSltu : Bool := bit e.aluInfo 23
def aluSlt : Bool := bit e.aluInfo 24
def aluSll : Bool := bit e.aluInfo 25
def aluSub : Bool := bit e.aluInfo 26
def aluAdd : Bool := bit e.aluInfo 27

def csrrw : Bool := bit e.csrrwInfo 5
def csrrs : Bool := bit e.csrrwInfo 4
def csrrc : Bool := bit e.csrrwInfo 3
def csrrwi : Bool := bit e.csrrwInfo 2
def csrrsi : Bool := bit e.csrrwInfo 1
def csrrci : Bool := bit e.csrrwInfo 0

def mret : Bool := bit e.systemInfo 2

def beq : Bool := bit e.branchInfo 5
def bne : Bool := bit e.branchInfo 4
def blt : Bool := bit e.branchInfo 3
def bge : Bool := bit e.branchInfo 2
def bltu : Bool := bit e.branchInfo 1
def bgeu : Bool := bit e.branchInfo 0

end RegE

/-! ## The arithmetic unit -/

/-- `alu_src1`. -/
def aluSrc1 (e : RegE) : BitVec 64 :=
  if e.opAluReg || e.opAluRegw then e.regdata1
  else if e.opAluImm || e.opAluImmw then e.regdata1
  else if e.opBranch then e.pc
  else if e.opStore then e.regdata1
  else if e.opLoad then e.regdata1
  else if e.opJal then e.pc
  else if e.opJalr then e.regdata1
  else if e.opLui then 0#64
  else if e.opAuipc then e.pc
  else if e.opCsrrw then e.regdata1
  else 0#64

/-- `alu_src2`. -/
def aluSrc2 (e : RegE) : BitVec 64 :=
  if e.opAluReg || e.opAluRegw then e.regdata2
  else if e.opAluImm || e.opAluImmw then e.imm
  else if e.opBranch then e.imm
  else if e.opStore then e.imm
  else if e.opLoad then e.imm
  else if e.opJal then e.imm
  else if e.opJalr then e.imm
  else if e.opLui then e.imm
  else if e.opAuipc then e.imm
  else if e.opCsrrw then e.csrRdata1
  else 0#64

/-- `{{32{x[31]}}, x}`: the sign extension of a word result. -/
def sextWord (x : BitVec 32) : BitVec 64 := x.signExtend 64

/-- `ext_mul_result[127:64]`: the high half of the signed product. -/
def mulhResult (a b : BitVec 64) : BitVec 64 :=
  (a.signExtend 128 * b.signExtend 128).extractLsb' 64 64

/-- `su_ext_mul_result[127:64]`: the high half of the product of a signed and an unsigned
operand. -/
def mulhsuResult (a b : BitVec 64) : BitVec 64 :=
  (a.signExtend 128 * b.setWidth 128).extractLsb' 64 64

/-- `u_ext_mul_result[127:64]`: the high half of the unsigned product. -/
def mulhuResult (a b : BitVec 64) : BitVec 64 :=
  (a.setWidth 128 * b.setWidth 128).extractLsb' 64 64

/-- The result of `alu_div`. -/
def divResult (a b : BitVec 64) : BitVec 64 :=
  if b == 0#64 then 0xFFFFFFFFFFFFFFFF#64
  else if a == 0x8000000000000000#64 && b == 0xFFFFFFFFFFFFFFFF#64 then 0x8000000000000000#64
  else a.sdiv b

/-- The result of `alu_divu`: one operand of the division is unsigned, so both are. -/
def divuResult (a b : BitVec 64) : BitVec 64 :=
  if b == 0#64 then 0xFFFFFFFFFFFFFFFF#64 else a / b

/-- The result of `alu_divw`: the zero test and the overflow test look at all 64 bits of the
operands.  A word division by zero that the first one misses gives `0`, as the division of two-state
simulation does; an overflow that the second one misses wraps around. -/
def divwResult (a b : BitVec 64) : BitVec 64 :=
  if b == 0#64 then 0xFFFFFFFFFFFFFFFF#64
  else if a == 0xFFFFFFFF80000000#64 && b == 0xFFFFFFFFFFFFFFFF#64 then 0xFFFFFFFF80000000#64
  else sextWord ((a.setWidth 32).sdiv (b.setWidth 32))

/-- The result of `alu_divuw`. -/
def divuwResult (a b : BitVec 64) : BitVec 64 :=
  if b == 0#64 then 0xFFFFFFFFFFFFFFFF#64 else sextWord (a.setWidth 32 / b.setWidth 32)

/-- The result of `alu_rem`. -/
def remResult (a b : BitVec 64) : BitVec 64 :=
  if b == 0#64 then a
  else if a == 0x8000000000000000#64 && b == 0xFFFFFFFFFFFFFFFF#64 then 0#64
  else a.srem b

/-- The result of `alu_remu`. -/
def remuResult (a b : BitVec 64) : BitVec 64 := if b == 0#64 then a else a % b

/-- The result of `alu_remuw`. -/
def remuwResult (a b : BitVec 64) : BitVec 64 :=
  if b.setWidth 32 == 0#32 then sextWord (a.setWidth 32)
  else sextWord (a.setWidth 32 % b.setWidth 32)

/-- The result of `alu_remw`. -/
def remwResult (a b : BitVec 64) : BitVec 64 :=
  if b.setWidth 32 == 0#32 then sextWord (a.setWidth 32)
  else if a.setWidth 32 == 0x80000000#32 && b.setWidth 32 == 0xFFFFFFFF#32 then 0#64
  else sextWord ((a.setWidth 32).srem (b.setWidth 32))

/-- The arithmetic and CSR part of the result multiplexer, from `alu_and` on. -/
def aluResultOf (e : RegE) (a b : BitVec 64) : BitVec 64 :=
  if e.aluAnd then a &&& b
  else if e.aluAdd then a + b
  else if e.aluAddw then sextWord ((a + b).setWidth 32)
  else if e.aluSub then a - b
  else if e.aluSubw then sextWord ((a - b).setWidth 32)
  else if e.aluSll then a <<< b.setWidth 6
  else if e.aluSllw then sextWord ((a <<< b.setWidth 5).setWidth 32)
  else if e.aluSlt then (if a.slt b then 1#64 else 0#64)
  else if e.aluSltu then (if a.ult b then 1#64 else 0#64)
  else if e.aluXor then a ^^^ b
  else if e.aluOr then a ||| b
  else if e.aluSra then a.sshiftRight' (b.setWidth 6)
  else if e.aluSraw then sextWord ((a.setWidth 32).sshiftRight' (b.setWidth 5))
  else if e.aluSrl then a >>> b.setWidth 6
  else if e.aluSrlw then sextWord (a.setWidth 32 >>> b.setWidth 5)
  else if e.aluMul then a * b
  else if e.aluMulh then mulhResult a b
  else if e.aluMulhsu then mulhsuResult a b
  else if e.aluMulhu then mulhuResult a b
  else if e.aluMulw then sextWord ((a * b).setWidth 32)
  else if e.aluDiv then divResult a b
  else if e.aluDivu then divuResult a b
  else if e.aluDivw then divwResult a b
  else if e.aluDivuw then divuwResult a b
  else if e.aluRem then remResult a b
  else if e.aluRemu then remuResult a b
  else if e.aluRemuw then remuwResult a b
  else if e.aluRemw then remwResult a b
  else if e.csrrw then a
  else if e.csrrs then b ||| a
  else if e.csrrc then b &&& ~~~a
  else if e.csrrwi then a
  else if e.csrrsi then b ||| a
  else if e.csrrci then b &&& ~~~a
  else 0#64

/-- `execute_o_alu_result`. -/
def executeAluResult (e : RegE) : BitVec 64 :=
  if e.opLui then aluSrc1 e + aluSrc2 e
  else if e.opAuipc then aluSrc1 e + aluSrc2 e
  else if e.opBranch then aluSrc1 e + aluSrc2 e
  else if e.opStore then aluSrc1 e + aluSrc2 e
  else if e.opJal then aluSrc1 e + aluSrc2 e
  else if e.opJalr then aluSrc1 e + aluSrc2 e
  else if e.opLoad then aluSrc1 e + aluSrc2 e
  else aluResultOf e (aluSrc1 e) (aluSrc2 e)

/-! ## Redirects -/

/-- `execute_o_branch_need_jump`. -/
def executeBranchNeedJump (e : RegE) : Bool :=
  (e.beq && e.regdata1 == e.regdata2) ||
  (e.bne && e.regdata1 != e.regdata2) ||
  (e.blt && e.regdata1.slt e.regdata2) ||
  (e.bge && e.regdata2.sle e.regdata1) ||
  (e.bltu && e.regdata1.ult e.regdata2) ||
  (e.bgeu && e.regdata2.ule e.regdata1) ||
  (e.opJal || e.opJalr)

/-- `execute_o_branch_next_pc`. -/
def executeBranchNextPc (e : RegE) : BitVec 64 :=
  if e.opJalr then executeAluResult e &&& ~~~1#64
  else if e.opJal then executeAluResult e
  else if executeBranchNeedJump e then executeAluResult e
  else 0#64

/-- `execute_o_commit_info`: the predicted next pc is replaced by the target of a redirect. -/
def executeCommitInfo (e : RegE) : BitVec 161 :=
  if executeBranchNeedJump e then
    commitInfo (commitBit e.commitInfo) (commitInstr e.commitInfo) (executeBranchNextPc e)
      (commitPc e.commitInfo)
  else if e.mret then
    commitInfo (commitBit e.commitInfo) (commitInstr e.commitInfo) e.csrRdata2
      (commitPc e.commitInfo)
  else e.commitInfo

/-- Execute passes the commit bit on. -/
@[simp] lemma commitBit_executeCommitInfo (e : RegE) :
    commitBit (executeCommitInfo e) = commitBit e.commitInfo := by
  unfold executeCommitInfo
  split_ifs <;> simp

/-- The outputs of the execute stage. -/
structure ExecuteOut where
  aluResult : BitVec 64
  mretNeedJump : Bool
  mretNextPc : BitVec 64
  branchNextPc : BitVec 64
  branchNeedJump : Bool
  commitInfo : BitVec 161

/-- The execute stage. -/
def execute (e : RegE) : ExecuteOut where
  aluResult := executeAluResult e
  mretNeedJump := e.mret
  mretNextPc := e.csrRdata2
  branchNextPc := executeBranchNextPc e
  branchNeedJump := executeBranchNeedJump e
  commitInfo := executeCommitInfo e

end Riscv64Cpu.Pipeline
