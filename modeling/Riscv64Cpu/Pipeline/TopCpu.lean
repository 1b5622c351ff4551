import Riscv64Cpu.Clocked.Run
import Riscv64Cpu.Pipeline.Stages

set_option relaxedAutoImplicit false
set_option autoImplicit false

/-!
# The processor `rv64-pipeline-cpu-2026`

`top_cpu.v`: the registers of the processor together with the memory behind the imported
functions, the wires between the stages, and one clock edge.

## Main definitions

* `Pipeline.RegD.next`, `RegE.next`, `RegM.next`, `RegW.next`, `pcNext` — the stage registers
  under stall and bubble.
* `Pipeline.RegE.latch`, `RegM.latch`, `RegW.latch` — what a register samples when it is
  neither stalled nor bubbled.
* `Pipeline.TopCpu` — the state of the processor.
* `Pipeline.TopCpu.step` — one clock edge.
* `Pipeline.TopCpu.Reachable` — the states after a reset edge and any further edges.

## Design

`regE` is also cleared by `posedge rst`, before the edge that samples `rst`.  Every register
that samples `regE` is itself reset at that edge, so one function of the clock edge describes
both.
-/

namespace Riscv64Cpu.Pipeline

/-! ## The stage registers at a clock edge -/

/-- `pc.v`. -/
def pcNext (rst regFStall regFBubble : Bool) (branchNeedJump : Bool) (branchNextPc : BitVec 64)
    (mretNeedJump : Bool) (mretNextPc fetchNextPc pc : BitVec 64) : BitVec 64 :=
  if rst || regFBubble then 0x80000000#64
  else if regFStall then pc
  else if mretNeedJump then mretNextPc
  else if branchNeedJump then branchNextPc
  else fetchNextPc

/-- What `regD` samples. -/
def RegD.latch (f : FetchOut) : RegD where
  pc := f.pc
  instr := f.instr
  commitInfo := f.commitInfo

/-- `regD.v`: a bubble goes before a stall. -/
def RegD.next (rst regDBubble regDStall : Bool) (f : FetchOut) (d : RegD) : RegD :=
  if rst || regDBubble then RegD.nop
  else if !regDStall then RegD.latch f
  else d

/-- What `regE` samples. -/
def RegE.latch (o : DecodeOut) (pc : BitVec 64) (commitInfo : BitVec 161) : RegE where
  opcodeInfo := o.opcodeInfo
  branchInfo := o.branchInfo
  loadStoreInfo := o.loadStoreInfo
  aluInfo := o.aluInfo
  csrrwInfo := o.csrrwInfo
  systemInfo := o.systemInfo
  amoInfo := o.amoInfo
  pc := pc
  csrRdata1 := o.csrRdata1
  csrRdata2 := o.csrRdata2
  regdata1 := o.regdata1
  regdata2 := o.regdata2
  imm := o.imm
  csrWid := o.csrWid
  csrWen := o.csrWen
  regRd := o.regRd
  regWen := o.regWen
  commitInfo := commitInfo

/-- `regE.v`. -/
def RegE.next (rst regEBubble regEStall : Bool) (o : DecodeOut) (pc : BitVec 64)
    (commitInfo : BitVec 161) (e : RegE) : RegE :=
  if rst || regEBubble then RegE.nop
  else if !regEStall then RegE.latch o pc commitInfo
  else e

/-- What `regM` samples. -/
def RegM.latch (e : RegE) (x : ExecuteOut) : RegM where
  loadStoreInfo := e.loadStoreInfo
  opcodeInfo := e.opcodeInfo
  csrrwInfo := e.csrrwInfo
  systemInfo := e.systemInfo
  amoInfo := e.amoInfo
  aluResult := x.aluResult
  pc := e.pc
  csrRdata1 := e.csrRdata1
  regdata1 := e.regdata1
  regdata2 := e.regdata2
  csrWid := e.csrWid
  csrWen := e.csrWen
  regRd := e.regRd
  regWen := e.regWen
  commitInfo := x.commitInfo

/-- `regM.v`. -/
def RegM.next (rst regMBubble regMStall : Bool) (e : RegE) (x : ExecuteOut) (m : RegM) : RegM :=
  if rst || regMBubble then RegM.nop
  else if regMStall then m
  else RegM.latch e x

/-- What `regW` samples. -/
def RegW.latch (m : RegM) (memRdata : BitVec 64) : RegW where
  opcodeInfo := m.opcodeInfo
  csrrwInfo := m.csrrwInfo
  systemInfo := m.systemInfo
  amoInfo := m.amoInfo
  aluResult := m.aluResult
  memRdata := memRdata
  pc := m.pc
  csrRdata1 := m.csrRdata1
  regdata2 := m.regdata2
  regRd := m.regRd
  regWen := m.regWen
  csrWid := m.csrWid
  csrWen := m.csrWen
  commitInfo := m.commitInfo

/-- `regW.v`. -/
def RegW.next (rst regWBubble regWStall : Bool) (m : RegM) (memRdata : BitVec 64) (w : RegW) :
    RegW :=
  if rst || regWBubble then RegW.nop
  else if regWStall then w
  else RegW.latch m memRdata

/-! ## The processor -/

/-- The registers of `top_cpu` and the memory `M`. -/
structure TopCpu (M : Type) where
  pc : BitVec 64
  regD : RegD
  regE : RegE
  regM : RegM
  regW : RegW
  regfile : Regfile
  csrfile : Csrfile
  mem : M

namespace TopCpu

variable {M : Type} (dpi : Dpi M) (s : TopCpu M)

/-! ### Wires -/

/-- The outputs of `u_fetch`. -/
def fetchOut : FetchOut := fetch dpi s.mem s.pc

/-- The outputs of `u_execute`. -/
def executeOut : ExecuteOut := execute s.regE

/-- The result of execute. -/
@[simp] lemma executeOut_aluResult : s.executeOut.aluResult = executeAluResult s.regE := rfl

/-- Whether execute redirects. -/
@[simp] lemma executeOut_branchNeedJump :
    s.executeOut.branchNeedJump = executeBranchNeedJump s.regE := rfl

/-- The target of a branch or a jump. -/
@[simp] lemma executeOut_branchNextPc :
    s.executeOut.branchNextPc = executeBranchNextPc s.regE := rfl

/-- Whether `mret` redirects. -/
@[simp] lemma executeOut_mretNeedJump : s.executeOut.mretNeedJump = s.regE.mret := rfl

/-- The target of `mret` is the CSR value of the second port. -/
@[simp] lemma executeOut_mretNextPc : s.executeOut.mretNextPc = s.regE.csrRdata2 := rfl

/-- The commit information that execute hands on. -/
@[simp] lemma executeOut_commitInfo : s.executeOut.commitInfo = executeCommitInfo s.regE := rfl

/-- `memory_o_mem_rdata`. -/
def memoryMemRdata : BitVec 64 := memory dpi s.mem s.regM

/-- The outputs of `u_write_back`. -/
def writeBackOut : WriteBackOut := writeBack s.regW

/-- The outputs of `u_commit`. -/
def commitOut : CommitOut := commit s.regW

/-- The bypass inputs of `u_decode`. -/
def bypass : Bypass where
  executeAluResult := s.executeOut.aluResult
  regERegRd := s.regE.regRd
  regERegWen := s.regE.regWen
  regMOpcodeInfo := s.regM.opcodeInfo
  regMAluResult := s.regM.aluResult
  memoryMemRdata := s.memoryMemRdata dpi
  regMRegRd := s.regM.regRd
  regMRegWen := s.regM.regWen
  regWOpcodeInfo := s.regW.opcodeInfo
  regWPc := s.regW.pc
  regWAluResult := s.regW.aluResult
  regWMemRdata := s.regW.memRdata
  regWCsrRdata1 := s.regW.csrRdata1
  regWRegRd := s.regW.regRd
  regWRegWen := s.regW.regWen

/-- The outputs of `u_decode`. -/
def decodeOut : DecodeOut := decode (s.bypass dpi) s.regfile s.csrfile s.regD.instr

/-- The outputs of `u_ctrl`. -/
def ctrlOut : CtrlOut :=
  ctrl s.executeOut.branchNeedJump s.executeOut.mretNeedJump (decodeOpcodeInfo s.regD.instr)
    s.regE.opcodeInfo s.regM.opcodeInfo s.regE.regRd (rs1 s.regD.instr) (rs2 s.regD.instr)

/-! ### The clock edge -/

/-- One clock edge with reset input `rst`. -/
def step (rst : Bool) (s : TopCpu M) : TopCpu M where
  pc := pcNext rst s.ctrlOut.regFStall s.ctrlOut.regFBubble s.executeOut.branchNeedJump
    s.executeOut.branchNextPc s.executeOut.mretNeedJump s.executeOut.mretNextPc
    (s.fetchOut dpi).nextPc s.pc
  regD := s.regD.next rst s.ctrlOut.regDBubble s.ctrlOut.regDStall (s.fetchOut dpi)
  regE := s.regE.next rst s.ctrlOut.regEBubble s.ctrlOut.regEStall (s.decodeOut dpi) s.regD.pc
    s.regD.commitInfo
  regM := s.regM.next rst s.ctrlOut.regMBubble s.ctrlOut.regMStall s.regE s.executeOut
  regW := s.regW.next rst s.ctrlOut.regWBubble s.ctrlOut.regWStall s.regM (s.memoryMemRdata dpi)
  regfile := s.regfile.next rst s.writeBackOut.regRd s.writeBackOut.regWdata s.writeBackOut.regWen
  csrfile := s.csrfile.next rst s.writeBackOut.systemInfo s.writeBackOut.csrWen
    s.writeBackOut.csrWid s.writeBackOut.csrWdata
  mem := memNext dpi s.mem (memWriteCall s.regM)

/-- The states after a reset edge from any power-on contents and any further clock edges, with
`rst` free at each of them. -/
def Reachable : TopCpu M → Prop := Clocked.Reachable (step dpi) fun s => ∃ s₀, s = step dpi true s₀

/-- The state in which reset leaves the processor, with the given register file, CSRs and
memory. -/
def afterReset (regfile : Regfile) (csrfile : Csrfile) (mem : M) : TopCpu M where
  pc := 0x80000000#64
  regD := RegD.nop
  regE := RegE.nop
  regM := RegM.nop
  regW := RegW.nop
  regfile := regfile
  csrfile := csrfile.next true 0#7 false 0#12 0#64
  mem := mem

/-- The processor after `n` clock edges without reset. -/
def run (n : ℕ) (s : TopCpu M) : TopCpu M := (step dpi false)^[n] s

/-- No edge leaves the state as it is. -/
@[simp] lemma run_zero : run dpi 0 s = s := rfl

/-- The last edge of a run. -/
lemma run_succ (n : ℕ) : run dpi (n + 1) s = step dpi false (run dpi n s) :=
  Function.iterate_succ_apply' ..

/-- The first edge of a run. -/
lemma run_succ' (n : ℕ) : run dpi (n + 1) s = run dpi n (step dpi false s) :=
  Function.iterate_succ_apply ..

/-- Two runs, one after the other. -/
lemma run_run (m n : ℕ) : run dpi m (run dpi n s) = run dpi (m + n) s :=
  (Function.iterate_add_apply ..).symm

/-- A reset edge of a processor without a store in memory changes neither the general
registers nor the memory. -/
private lemma step_true_eq_afterReset (hm : memWriteCall s.regM = none) :
    step dpi true s = afterReset s.regfile s.csrfile s.mem := by
  have hrf : s.regfile.next true s.writeBackOut.regRd s.writeBackOut.regWdata
      s.writeBackOut.regWen = s.regfile := by
    ext1 r
    by_cases hr : r = 0#5
    · simp [Regfile.next, hr, s.regfile.x0]
    · simp [Regfile.next, hr]
  simp only [step, hrf, hm, memNext, pcNext, RegD.next, RegE.next, RegM.next, RegW.next,
    Bool.true_or, if_true]
  rfl

/-- Every state of `afterReset` is reachable. -/
lemma reachable_afterReset (regfile : Regfile) (csrfile : Csrfile) (mem : M) :
    Reachable dpi (afterReset regfile csrfile mem) := by
  let s₀ : TopCpu M := ⟨0#64, RegD.nop, RegE.nop, RegM.nop, RegW.nop, regfile, csrfile, mem⟩
  have hm : memWriteCall RegM.nop = none := by decide
  exact .init ⟨s₀, (step_true_eq_afterReset dpi s₀ hm).symm⟩

/-- A run from a reachable state stays in the reachable states. -/
lemma Reachable.run {dpi : Dpi M} {s : TopCpu M} (h : Reachable dpi s) (n : ℕ) :
    Reachable dpi (TopCpu.run dpi n s) :=
  Clocked.Reachable.iterate false h n

end TopCpu

end Riscv64Cpu.Pipeline
