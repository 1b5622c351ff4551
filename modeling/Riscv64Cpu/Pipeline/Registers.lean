import Riscv64Cpu.Pipeline.Decode

set_option relaxedAutoImplicit false
set_option autoImplicit false

/-!
# The stage registers

The registers between the stages, `regD.v` to `regW.v`, one field for each output
`reg?_o_*`, and the value each takes for a bubble.

## Main definitions

* `Pipeline.RegD`, `RegE`, `RegM`, `RegW` — the contents of the stage registers.
* `Pipeline.RegD.nop`, … — the bubble contents.
-/

namespace Riscv64Cpu.Pipeline

/-- `regD`: a fetched instruction. -/
structure RegD where
  pc : BitVec 64
  instr : BitVec 32
  commitInfo : BitVec 161
deriving DecidableEq

/-- The bubble of `regD` is the nop instruction. -/
def RegD.nop : RegD where
  pc := 0#64
  instr := nopInstr
  commitInfo := 0#161

/-- `regE`: a decoded instruction with its operands. -/
structure RegE where
  opcodeInfo : BitVec 14
  branchInfo : BitVec 6
  loadStoreInfo : BitVec 11
  aluInfo : BitVec 28
  csrrwInfo : BitVec 6
  systemInfo : BitVec 7
  amoInfo : BitVec 20
  pc : BitVec 64
  csrRdata1 : BitVec 64
  csrRdata2 : BitVec 64
  regdata1 : BitVec 64
  regdata2 : BitVec 64
  imm : BitVec 64
  csrWid : BitVec 12
  csrWen : Bool
  regRd : BitVec 5
  regWen : Bool
  commitInfo : BitVec 161
deriving DecidableEq

/-- The bubble of `regE`. -/
def RegE.nop : RegE where
  opcodeInfo := 0#14
  branchInfo := 0#6
  loadStoreInfo := 0#11
  aluInfo := 0#28
  csrrwInfo := 0#6
  systemInfo := 0#7
  amoInfo := 0#20
  pc := 0#64
  csrRdata1 := 0#64
  csrRdata2 := 0#64
  regdata1 := 0#64
  regdata2 := 0#64
  imm := 0#64
  csrWid := 0#12
  csrWen := false
  regRd := 0#5
  regWen := false
  commitInfo := 0#161

/-- `regM`: an executed instruction. -/
structure RegM where
  loadStoreInfo : BitVec 11
  opcodeInfo : BitVec 14
  csrrwInfo : BitVec 6
  systemInfo : BitVec 7
  amoInfo : BitVec 20
  aluResult : BitVec 64
  pc : BitVec 64
  csrRdata1 : BitVec 64
  regdata1 : BitVec 64
  regdata2 : BitVec 64
  csrWid : BitVec 12
  csrWen : Bool
  regRd : BitVec 5
  regWen : Bool
  commitInfo : BitVec 161
deriving DecidableEq

/-- The bubble of `regM`. -/
def RegM.nop : RegM where
  loadStoreInfo := 0#11
  opcodeInfo := 0#14
  csrrwInfo := 0#6
  systemInfo := 0#7
  amoInfo := 0#20
  aluResult := 0#64
  pc := 0#64
  csrRdata1 := 0#64
  regdata1 := 0#64
  regdata2 := 0#64
  csrWid := 0#12
  csrWen := false
  regRd := 0#5
  regWen := false
  commitInfo := 0#161

/-- `regW`: an instruction whose memory access is done. -/
structure RegW where
  opcodeInfo : BitVec 14
  csrrwInfo : BitVec 6
  systemInfo : BitVec 7
  amoInfo : BitVec 20
  aluResult : BitVec 64
  memRdata : BitVec 64
  pc : BitVec 64
  csrRdata1 : BitVec 64
  regdata2 : BitVec 64
  regRd : BitVec 5
  regWen : Bool
  csrWid : BitVec 12
  csrWen : Bool
  commitInfo : BitVec 161
deriving DecidableEq

/-- The bubble of `regW`. -/
def RegW.nop : RegW where
  opcodeInfo := 0#14
  csrrwInfo := 0#6
  systemInfo := 0#7
  amoInfo := 0#20
  aluResult := 0#64
  memRdata := 0#64
  pc := 0#64
  csrRdata1 := 0#64
  regdata2 := 0#64
  regRd := 0#5
  regWen := false
  csrWid := 0#12
  csrWen := false
  commitInfo := 0#161

/-- The instruction in `regD` is not a bubble. -/
def RegD.valid (d : RegD) : Bool := commitBit d.commitInfo

/-- The instruction in `regE` is not a bubble. -/
def RegE.valid (e : RegE) : Bool := commitBit e.commitInfo

/-- The instruction in `regM` is not a bubble. -/
def RegM.valid (m : RegM) : Bool := commitBit m.commitInfo

/-- The instruction in `regW` is not a bubble. -/
def RegW.valid (w : RegW) : Bool := commitBit w.commitInfo

/-! The contents of a bubble are not valid. -/

/-- The nop in decode is no instruction. -/
@[simp] lemma RegD.valid_nop : RegD.nop.valid = false := commitBit_zero

/-- The nop in execute is no instruction. -/
@[simp] lemma RegE.valid_nop : RegE.nop.valid = false := commitBit_zero

/-- The nop in memory is no instruction. -/
@[simp] lemma RegM.valid_nop : RegM.nop.valid = false := commitBit_zero

/-- The nop in write back is no instruction. -/
@[simp] lemma RegW.valid_nop : RegW.nop.valid = false := commitBit_zero

end Riscv64Cpu.Pipeline
