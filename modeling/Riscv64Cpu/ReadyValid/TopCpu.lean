import Riscv64Cpu.Clocked.Stage
import Riscv64Cpu.Pipeline.Invariant

set_option relaxedAutoImplicit false
set_option autoImplicit false

/-!
# The processor `rv64-pipeline-cpu-2026-ready-valid-mmu`

The rewrite of the processor with a valid flag in the pc and in every stage register and with
a chain of `allowin` signals in place of the stalls.  The modules between the registers, their
connections and the register and CSR files are those of `rv64-pipeline-cpu-2026`; the CSR file
has one more port, `satp`, that nothing uses.

## Main definitions

* `ReadyValid.pcNext`, `regDNext`, `regENext`, `regMNext`, `regWNext` — the registers at a clock
  edge.
* `ReadyValid.memWlen`, `memWriteCall` — the store of `memory.v`, with one call of
  `dpi_mem_write`.
* `ReadyValid.TopCpu` — the state of the processor; `TopCpu.core` is the part that the modules
  between the registers see.
* `ReadyValid.TopCpu.step` — one clock edge.
* `ReadyValid.TopCpu.Started` — the states after a reset.

## Design

In `regD.v` to `regW.v` the statement that loads the payload is not under `rst`, so an edge with
`rst` loads the payload of a register that is let in; only the next such edge clears it.  A
reset therefore is an edge with `rst` in a state without a valid stage: the first edge after
power-on, which `npc_init` makes, or any edge after another one with `rst`.
-/

namespace Riscv64Cpu.ReadyValid

open Clocked Pipeline

/-! ## The registers at a clock edge -/

/-- `pc.v`: the first edge after a reset makes the pc valid, the later ones advance it. -/
def pcNext (rst regFStall : Bool) (branchNeedJump : Bool) (branchNextPc : BitVec 64)
    (mretNeedJump : Bool) (mretNextPc fetchNextPc : BitVec 64) (regDAllowin : Bool)
    (pc : Stage (BitVec 64)) : Stage (BitVec 64) :=
  if rst then ⟨false, 0x80000000#64⟩
  else if pc.allowin (!regFStall) regDAllowin then
    { valid := true
      payload :=
        if pc.valid then
          if mretNeedJump then mretNextPc
          else if branchNeedJump then branchNextPc
          else fetchNextPc
        else pc.payload }
  else pc

/-- `regD.v`. -/
def regDNext (rst regDBubble regDAllowin pcOValid : Bool) (f : FetchOut) (d : Stage RegD) :
    Stage RegD :=
  Stage.next (rst || regDBubble) regDBubble regDAllowin pcOValid RegD.nop (RegD.latch f) d

/-- `regE.v`. -/
def regENext (rst regEBubble regEAllowin regDOValid : Bool) (o : DecodeOut) (pc : BitVec 64)
    (commitInfo : BitVec 161) (e : Stage RegE) : Stage RegE :=
  Stage.next (rst || regEBubble) regEBubble regEAllowin regDOValid RegE.nop
    (RegE.latch o pc commitInfo) e

/-- `regM.v`: the bubble keeps the payload out and does not clear the flag. -/
def regMNext (rst regMBubble regMAllowin regEOValid : Bool) (e : RegE) (x : ExecuteOut)
    (m : Stage RegM) : Stage RegM :=
  Stage.next rst regMBubble regMAllowin regEOValid RegM.nop (RegM.latch e x) m

/-- `regW.v`: the bubble keeps the payload out and does not clear the flag. -/
def regWNext (rst regWBubble regWAllowin regMOValid : Bool) (m : RegM) (memRdata : BitVec 64)
    (w : Stage RegW) : Stage RegW :=
  Stage.next rst regWBubble regWAllowin regMOValid RegW.nop (RegW.latch m memRdata) w

/-! ## The store -/

/-- `inst_store`. -/
def store (m : RegM) : Bool := m.sb || m.sh || m.sw || m.sd

/-- `mem_wlen`. -/
def memWlen (m : RegM) : BitVec 32 :=
  if m.sb then 1#32
  else if m.sh then 2#32
  else if m.sw then 4#32
  else if m.sd then 8#32
  else if m.amoswapw then 4#32
  else 0#32

/-- The call of `dpi_mem_write` that `memory.v` makes at a clock edge. -/
def memWriteCall (m : RegM) : Option MemWrite :=
  if store m || m.amoswapw then some ⟨m.memAddr, m.regdata2, memWlen m, m.pc⟩ else none

/-- The one call with a computed length is the one the five branches make. -/
lemma memWriteCall_eq (m : RegM) : memWriteCall m = Pipeline.memWriteCall m := by
  unfold memWriteCall Pipeline.memWriteCall store memWlen
  cases m.sb <;> cases m.sh <;> cases m.sw <;> cases m.sd <;> cases m.amoswapw <;> rfl

/-! ## The processor -/

/-- The registers of `top_cpu` and the memory `M`. -/
structure TopCpu (M : Type) where
  pc : Stage (BitVec 64)
  regD : Stage RegD
  regE : Stage RegE
  regM : Stage RegM
  regW : Stage RegW
  regfile : Regfile
  csrfile : Csrfile
  mem : M

namespace TopCpu

variable {M : Type} (dpi : Dpi M) (s : TopCpu M)

/-- The register outputs without the valid flags, as the modules between the registers see
them. -/
def core : Pipeline.TopCpu M where
  pc := s.pc.payload
  regD := s.regD.payload
  regE := s.regE.payload
  regM := s.regM.payload
  regW := s.regW.payload
  regfile := s.regfile
  csrfile := s.csrfile
  mem := s.mem

/-! ### The handshake -/

/-- `regW_o_allowin`. -/
def regWAllowin : Bool := s.regW.allowin true true

/-- `regM_o_allowin`. -/
def regMAllowin : Bool := s.regM.allowin true s.regWAllowin

/-- `regE_o_allowin`. -/
def regEAllowin : Bool := s.regE.allowin true s.regMAllowin

/-- `regD_o_allowin`. -/
def regDAllowin : Bool := s.regD.allowin (!s.core.ctrlOut.regDStall) s.regEAllowin

/-- `pc_o_valid`. -/
def pcOValid : Bool := s.pc.oValid (!s.core.ctrlOut.regFStall)

/-- `regD_o_valid`. -/
def regDOValid : Bool := s.regD.oValid (!s.core.ctrlOut.regDStall)

/-- `regE_o_valid`. -/
def regEOValid : Bool := s.regE.oValid true

/-- `regM_o_valid`. -/
def regMOValid : Bool := s.regM.oValid true

/-! ### The clock edge -/

/-- One clock edge with reset input `rst`. -/
def step (rst : Bool) (s : TopCpu M) : TopCpu M where
  pc := pcNext rst s.core.ctrlOut.regFStall s.core.executeOut.branchNeedJump
    s.core.executeOut.branchNextPc s.core.executeOut.mretNeedJump s.core.executeOut.mretNextPc
    (s.core.fetchOut dpi).nextPc s.regDAllowin s.pc
  regD := regDNext rst s.core.ctrlOut.regDBubble s.regDAllowin s.pcOValid (s.core.fetchOut dpi)
    s.regD
  regE := regENext rst s.core.ctrlOut.regEBubble s.regEAllowin s.regDOValid
    (s.core.decodeOut dpi) s.core.regD.pc s.core.regD.commitInfo s.regE
  regM := regMNext rst s.core.ctrlOut.regMBubble s.regMAllowin s.regEOValid s.core.regE
    s.core.executeOut s.regM
  regW := regWNext rst s.core.ctrlOut.regWBubble s.regWAllowin s.regMOValid s.core.regM
    (s.core.memoryMemRdata dpi) s.regW
  regfile := s.regfile.next rst s.core.writeBackOut.regRd s.core.writeBackOut.regWdata
    s.core.writeBackOut.regWen
  csrfile := s.csrfile.next rst s.core.writeBackOut.systemInfo s.core.writeBackOut.csrWen
    s.core.writeBackOut.csrWid s.core.writeBackOut.csrWdata
  mem := memNext dpi s.mem (memWriteCall s.core.regM)

/-- The processor after `n` clock edges without reset. -/
def run (n : ℕ) (s : TopCpu M) : TopCpu M := (step dpi false)^[n] s

/-- No edge leaves the state as it is. -/
@[simp] lemma run_zero : run dpi 0 s = s := rfl

/-- The last edge of a run. -/
lemma run_succ (n : ℕ) : run dpi (n + 1) s = step dpi false (run dpi n s) :=
  Function.iterate_succ_apply' ..

/-! ### Reset -/

/-- No stage is valid. -/
structure Idle (s : TopCpu M) : Prop where
  pc : s.pc.valid = false
  regD : s.regD.valid = false
  regE : s.regE.valid = false
  regM : s.regM.valid = false

/-- The states after a reset edge from an idle state.  A reset of a single edge in mid-run is
outside of it: a payload that a stage lets in at that edge stays there without its flag.  Held for
two edges, it is inside (`idle_step_true`). -/
def Started (s : TopCpu M) : Prop := ∃ s₀, Idle s₀ ∧ s = step dpi true s₀

/-- The state in which reset leaves the processor, with the given register file, CSRs and
memory. -/
def afterReset (regfile : Regfile) (csrfile : Csrfile) (mem : M) : TopCpu M where
  pc := ⟨false, 0x80000000#64⟩
  regD := .empty RegD.nop
  regE := .empty RegE.nop
  regM := .empty RegM.nop
  regW := .empty RegW.nop
  regfile := regfile
  csrfile := csrfile.next true 0#7 false 0#12 0#64
  mem := mem

/-- An edge with `rst` leaves the processor idle, so the next one is a reset. -/
lemma idle_step_true : Idle (step dpi true s) :=
  ⟨rfl, Stage.next_clear_valid, Stage.next_clear_valid, Stage.next_clear_valid⟩

/-- **A reset** clears all stages and keeps the general registers. -/
theorem step_true_of_idle (h : Idle s) : step dpi true s =
    afterReset s.regfile s.csrfile (memNext dpi s.mem (memWriteCall s.core.regM)) := by
  have hD : s.pcOValid = false := by simp [pcOValid, Stage.oValid, h.pc]
  have hE : s.regDOValid = false := by simp [regDOValid, Stage.oValid, h.regD]
  have hM : s.regEOValid = false := by simp [regEOValid, h.regE]
  have hW : s.regMOValid = false := by simp [regMOValid, h.regM]
  have hrf : s.regfile.next true s.core.writeBackOut.regRd s.core.writeBackOut.regWdata
      s.core.writeBackOut.regWen = s.regfile := by
    ext1 r
    by_cases hr : r = 0#5
    · simp [Regfile.next, hr, s.regfile.x0]
    · simp [Regfile.next, hr]
  simp only [step, hrf, hD, hE, hM, hW, pcNext, regDNext, regENext, regMNext, regWNext, Stage.next,
    Bool.true_or, Bool.false_and, Bool.false_eq_true, if_true, if_false]
  rfl

/-- The states after a reset are those of `afterReset`. -/
lemma Started.eq_afterReset {dpi : Dpi M} {s : TopCpu M} (h : Started dpi s) :
    ∃ regfile csrfile mem, s = afterReset regfile csrfile mem := by
  obtain ⟨s₀, h₀, rfl⟩ := h
  exact ⟨_, _, _, step_true_of_idle dpi s₀ h₀⟩

end TopCpu

end Riscv64Cpu.ReadyValid
