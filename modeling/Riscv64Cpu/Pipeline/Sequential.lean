import Riscv64Cpu.Pipeline.Normal
import Riscv64Cpu.Pipeline.Forwarding

set_option relaxedAutoImplicit false
set_option autoImplicit false

/-!
# The one-instruction-at-a-time semantics

The machine that performs fetch, decode, execute, memory and write back of one instruction in
one step, from the same functions as the pipeline, with the operands read straight from the
register file.

## Main definitions

* `Pipeline.SeqState` — its state.
* `Pipeline.SeqState.step`, `run` — one instruction, and `n` instructions.

## Main results

* `Pipeline.SeqState.commit_regW` — what a step retires with.
* `Pipeline.SeqState.step_regfile_reg`, `step_mem` — the effects of a step.
-/

namespace Riscv64Cpu.Pipeline

open Clocked

/-- The state of the sequential machine: the pc, the registers and the memory, and the CSRs
that decode reads as well. -/
structure SeqState (M : Type) where
  pc : BitVec 64
  regfile : Regfile
  csrfile : Csrfile
  mem : M

namespace SeqState

variable {M : Type} (dpi : Dpi M) (σ : SeqState M)

/-! ## One instruction -/

/-- The fetched instruction. -/
def fetchOut : FetchOut := fetch dpi σ.mem σ.pc

/-- The decoded instruction, with no instruction in flight to forward from. -/
def decodeOut : DecodeOut :=
  decode Bypass.idle σ.regfile σ.csrfile (σ.fetchOut dpi).instr

/-- The instruction as `regE` holds it. -/
def regE : RegE :=
  RegE.latch (σ.decodeOut dpi) (σ.fetchOut dpi).pc (σ.fetchOut dpi).commitInfo

/-- The executed instruction. -/
def executeOut : ExecuteOut := execute (σ.regE dpi)

/-- The instruction as `regM` holds it. -/
def regM : RegM := RegM.latch (σ.regE dpi) (σ.executeOut dpi)

/-- The instruction as `regW` holds it. -/
def regW : RegW := RegW.latch (σ.regM dpi) (memory dpi σ.mem (σ.regM dpi))

/-- The instruction written back. -/
def writeBackOut : WriteBackOut := writeBack (σ.regW dpi)

/-- One instruction. -/
def step : SeqState M where
  pc := pcNext false false false (σ.executeOut dpi).branchNeedJump (σ.executeOut dpi).branchNextPc
    (σ.executeOut dpi).mretNeedJump (σ.executeOut dpi).mretNextPc (σ.fetchOut dpi).nextPc σ.pc
  regfile := σ.regfile.next false (σ.writeBackOut dpi).regRd (σ.writeBackOut dpi).regWdata
    (σ.writeBackOut dpi).regWen
  csrfile := σ.csrfile.next false (σ.writeBackOut dpi).systemInfo (σ.writeBackOut dpi).csrWen
    (σ.writeBackOut dpi).csrWid (σ.writeBackOut dpi).csrWdata
  mem := memNext dpi σ.mem (memWriteCall (σ.regM dpi))

/-- `n` instructions. -/
def run (n : ℕ) : SeqState M := (step dpi)^[n] σ

/-- The last step of a run. -/
lemma run_succ (n : ℕ) : run dpi σ (n + 1) = step dpi (run dpi σ n) :=
  Function.iterate_succ_apply' ..

/-- The state in which the sequential machine starts. -/
def afterReset (regfile : Regfile) (csrfile : Csrfile) (mem : M) : SeqState M where
  pc := 0x80000000#64
  regfile := regfile
  csrfile := csrfile
  mem := mem

/-! ## The effects of a step -/

/-- The next pc: an `mret` or branch target, or the next word. -/
lemma step_pc : (step dpi σ).pc =
    if (σ.regE dpi).mret then (σ.regE dpi).csrRdata2
    else if executeBranchNeedJump (σ.regE dpi) then executeBranchNextPc (σ.regE dpi)
    else σ.pc + 4#64 := by
  simp only [step, pcNext, executeOut, execute, fetchOut, fetch, Bool.or_self, Bool.false_eq_true,
    if_false]
  rfl

/-- The registers after a step. -/
theorem step_regfile_reg :
    (step dpi σ).regfile.reg = applyWrite σ.regfile.reg (σ.regW dpi).regWrite :=
  σ.regfile.next_reg ..

/-- The memory after a step. -/
theorem step_mem : (step dpi σ).mem = memNext dpi σ.mem (memWriteCall (σ.regM dpi)) := rfl

/-- Without instructions in flight decode reads the register file. -/
lemma forward_idle (rs : BitVec 5) (v : BitVec 64) : forward Bypass.idle rs v = v := by
  simp [forward, matchRs, Bypass.idle]

/-- `regE` of a step: the decoder's outputs and the operands from the register file. -/
lemma regE_regdata : (σ.regE dpi).regdata1 = σ.regfile.reg (rs1 (σ.fetchOut dpi).instr) ∧
    (σ.regE dpi).regdata2 = σ.regfile.reg (rs2 (σ.fetchOut dpi).instr) := by
  have h : ∀ rs, forward Bypass.idle rs (σ.regfile.read rs) = σ.regfile.reg rs := fun rs => by
    rw [forward_idle, Regfile.read_eq]
  exact ⟨h _, h _⟩

/-- `regE` of a step holds the control outputs of the fetched word. -/
lemma holds_regE : (σ.regE dpi).Holds (σ.fetchOut dpi).instr := RegE.holds_latch ..

/-- **What a step retires with**: the pc, the word and the next pc of the step. -/
theorem commit_regW : (commit (σ.regW dpi)).commit = true ∧ (commit (σ.regW dpi)).pc = σ.pc ∧
    (commit (σ.regW dpi)).instr = (σ.fetchOut dpi).instr ∧
    (commit (σ.regW dpi)).nextPc = (step dpi σ).pc := by
  have hci : (σ.regE dpi).commitInfo =
      commitInfo true (σ.fetchOut dpi).instr (σ.pc + 4#64) σ.pc := rfl
  have hx : (σ.regW dpi).commitInfo = executeCommitInfo (σ.regE dpi) := rfl
  simp only [commit, hx, executeCommitInfo, hci, step_pc]
  by_cases hm : (σ.regE dpi).mret = true
  · have hb := (σ.holds_regE dpi).not_branchNeedJump_of_mret hm
    simp [hm, hb]
  · split_ifs <;> simp

end SeqState

/-! ## What a run shows -/

/-- What the simulator sees of a retired instruction. -/
structure CommitEvent where
  pc : BitVec 64
  instr : BitVec 32
  nextPc : BitVec 64
deriving DecidableEq

/-- The commit event of an instruction in write back. -/
def RegW.commitEvent (w : RegW) : Option CommitEvent :=
  if (commit w).commit then some ⟨(commit w).pc, (commit w).instr, (commit w).nextPc⟩ else none

/-- A bubble in write back commits nothing. -/
lemma RegW.commitEvent_eq_none {w : RegW} (h : w.valid = false) : w.commitEvent = none :=
  if_neg fun hc => Bool.false_ne_true (h.symm.trans hc)

namespace SeqState

variable {M : Type} (dpi : Dpi M) (σ : SeqState M)

/-- The commit event of a step. -/
def commitEvent : CommitEvent := ⟨σ.pc, (σ.fetchOut dpi).instr, (step dpi σ).pc⟩

/-- The stores of the first `n` steps, with the arguments of their `dpi_mem_write`. -/
def stores (n : ℕ) : List MemWrite :=
  trace (fun i => memWriteCall ((run dpi σ i).regM dpi)) n

/-- A step retires with its commit event. -/
lemma commitEvent_regW : (σ.regW dpi).commitEvent = some (σ.commitEvent dpi) := by
  obtain ⟨hc, hpc, hi, hn⟩ := σ.commit_regW dpi
  rw [RegW.commitEvent, if_pos hc, hpc, hi, hn, commitEvent]

end SeqState

end Riscv64Cpu.Pipeline
