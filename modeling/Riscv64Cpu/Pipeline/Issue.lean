import Riscv64Cpu.Pipeline.Sequential

set_option relaxedAutoImplicit false
set_option autoImplicit false

/-!
# The instructions that enter execute

An instruction that is valid in execute is going to retire, and the instructions enter execute
in the order of the program.  Execute is therefore the place where the pipeline is compared with
the sequential machine: the state of the sequential machine after the instructions that have been
in execute is the state of the pipeline once memory and write back are drained.

## Main definitions

* `Pipeline.SeqState.issue` — the sequential machine with a given instruction in place of the
  fetched one.
* `Pipeline.TopCpu.issued`, `issues` — the instruction in execute, and those of a run.
* `Pipeline.TopCpu.seqAfter` — the sequential machine after the instructions of a run.
* `Pipeline.TopCpu.Drained`, `DrainedCsr` — the registers, the memory and the CSRs of the
  pipeline, once drained, are those of the sequential machine.
* `Pipeline.TopCpu.OnPath` — decode and fetch stand where the sequential machine goes on.

## Main results

* `Pipeline.TopCpu.Drained.edge`, `DrainedCsr.edge`, `OnPath.edge` — an edge keeps these
  relations.
* `Pipeline.TopCpu.trace_regW` — write back shows an instruction two edges after execute.
-/

namespace Riscv64Cpu.Pipeline

open Clocked

/-! ## One given instruction -/

namespace SeqState

variable {M : Type} (dpi : Dpi M) (σ : SeqState M) (f : FetchOut)

/-- The instruction `f` as `regE` holds it. -/
def issueRegE : RegE :=
  RegE.latch (decode Bypass.idle σ.regfile σ.csrfile f.instr) f.pc f.commitInfo

/-- The instruction `f` as `regM` holds it. -/
def issueRegM : RegM := RegM.latch (σ.issueRegE f) (execute (σ.issueRegE f))

/-- The instruction `f` as `regW` holds it. -/
def issueRegW : RegW := RegW.latch (σ.issueRegM f) (memory dpi σ.mem (σ.issueRegM f))

/-- The instruction `f`, performed alone. -/
def issue : SeqState M where
  pc := pcNext false false false (execute (σ.issueRegE f)).branchNeedJump
    (execute (σ.issueRegE f)).branchNextPc (execute (σ.issueRegE f)).mretNeedJump
    (execute (σ.issueRegE f)).mretNextPc f.nextPc σ.pc
  regfile := σ.regfile.next false (writeBack (σ.issueRegW dpi f)).regRd
    (writeBack (σ.issueRegW dpi f)).regWdata (writeBack (σ.issueRegW dpi f)).regWen
  csrfile := σ.csrfile.next false (writeBack (σ.issueRegW dpi f)).systemInfo
    (writeBack (σ.issueRegW dpi f)).csrWen (writeBack (σ.issueRegW dpi f)).csrWid
    (writeBack (σ.issueRegW dpi f)).csrWdata
  mem := memNext dpi σ.mem (memWriteCall (σ.issueRegM f))

/-- A step of the sequential machine performs the instruction that it fetches. -/
lemma step_eq_issue : step dpi σ = issue dpi σ (σ.fetchOut dpi) := rfl

/-- The registers after an instruction. -/
lemma issue_regfile_reg : (issue dpi σ f).regfile.reg =
    applyWrite σ.regfile.reg (σ.issueRegW dpi f).regWrite :=
  σ.regfile.next_reg ..

/-- The CSRs after an instruction, the timer apart. -/
lemma issue_csr {id : BitVec 12} (h : id ≠ Csr.timer) : (issue dpi σ f).csrfile.csr id =
    applyWrite σ.csrfile.csr (σ.issueRegW dpi f).csrWrite id :=
  σ.csrfile.next_csr _ h

/-- The pc after an instruction. -/
lemma issue_pc : (issue dpi σ f).pc =
    if (σ.issueRegE f).mret then (σ.issueRegE f).csrRdata2
    else if executeBranchNeedJump (σ.issueRegE f) then executeBranchNextPc (σ.issueRegE f)
    else f.nextPc := by
  simp only [issue, pcNext, execute, Bool.or_self, Bool.false_eq_true, if_false]
  rfl

end SeqState

namespace TopCpu

variable {M : Type} (dpi : Dpi M) (s : TopCpu M)

/-! ## The instructions of a run -/

/-- The instruction in execute, as it was fetched. -/
def issued : Option FetchOut :=
  if s.regE.valid then
    some ⟨commitPc s.regE.commitInfo, commitInstr s.regE.commitInfo,
      commitNextPc s.regE.commitInfo, s.regE.commitInfo⟩
  else none

/-- The instructions that have been in execute in the first `n` cycles, in order. -/
def issues (n : ℕ) : List FetchOut := trace (fun i => (run dpi i s).issued) n

/-- The sequential machine in a state of the processor. -/
def seqState : SeqState M := ⟨s.pc, s.regfile, s.csrfile, s.mem⟩

/-- The sequential machine after the instructions of the first `n` cycles, one at a time. -/
def seqAfter (n : ℕ) : SeqState M := (s.issues dpi n).foldl (SeqState.issue dpi) s.seqState

/-- The sequential machine in state `σ` after the instruction in execute, if there is one. -/
def issueNext (σ : SeqState M) : SeqState M := s.issued.elim σ (σ.issue dpi)

/-- One more cycle, one more instruction at most. -/
lemma seqAfter_succ (n : ℕ) :
    s.seqAfter dpi (n + 1) = (run dpi n s).issueNext dpi (s.seqAfter dpi n) := by
  have htr : s.issues dpi (n + 1) = s.issues dpi n ++ (run dpi n s).issued.toList := rfl
  rw [seqAfter, htr, List.foldl_append, issueNext]
  cases (run dpi n s).issued <;> rfl

/-! ## The drained pipeline -/

/-- The registers and the memory of the sequential machine in state `σ` are those of the
pipeline once memory and write back are drained, and execute holds what the sequential machine
makes of its instruction. -/
structure Drained (σ : SeqState M) : Prop where
  regfile : applyWrite (applyWrite s.regfile.reg s.regW.regWrite) (s.regWOfM dpi).regWrite =
    σ.regfile.reg
  mem : memNext dpi s.mem (memWriteCall s.regM) = σ.mem
  regE : ∀ f, s.issued = some f → s.regE.norm = (σ.issueRegE f).norm

/-- So are the CSRs, the timer apart. -/
def DrainedCsr (σ : SeqState M) : Prop := ∀ id, id ≠ Csr.timer →
  applyWrite (applyWrite s.csrfile.csr s.regW.csrWrite) (s.regWOfM dpi).csrWrite id =
    σ.csrfile.csr id

variable {dpi} {s} {σ : SeqState M}

/-- No instruction in execute. -/
lemma issued_eq_none (h : s.issued = none) : s.regE.valid = false := by
  unfold issued at h
  split_ifs at h with hv
  simpa using hv

namespace Drained

/-- What execute brings to write back. -/
lemma regWOfE_norm (h : Drained dpi s σ) {f : FetchOut} (hf : s.issued = some f) :
    (s.regWOfE dpi).norm = (σ.issueRegW dpi f).norm := by
  rw [regWOfE, h.mem]
  exact RegW.norm_latch_congr dpi _ (RegM.norm_latch_congr (h.regE f hf))

/-- The registers with the write of execute. -/
lemma issueNext_regfile (h : Drained dpi s σ) (hi : Inv dpi s) :
    (s.issueNext dpi σ).regfile.reg = applyWrite σ.regfile.reg (s.regWOfE dpi).regWrite := by
  rw [issueNext]
  cases hf : s.issued with
  | none =>
    rw [(writes_of_regE_bubble hi (issued_eq_none hf)).2]
    rfl
  | some f =>
    rw [RegW.regWrite_congr (h.regWOfE_norm hf)]
    exact σ.issue_regfile_reg dpi f

/-- The memory with the store of execute. -/
lemma issueNext_mem (h : Drained dpi s σ) (hi : Inv dpi s) :
    (s.issueNext dpi σ).mem = memNext dpi σ.mem (memWriteCall s.regMIn) := by
  rw [issueNext]
  cases hf : s.issued with
  | none =>
    rw [(writes_of_regE_bubble hi (issued_eq_none hf)).1]
    rfl
  | some f =>
    have hw : memWriteCall s.regMIn = memWriteCall (σ.issueRegM f) :=
      memWriteCall_congr (RegM.norm_latch_congr (h.regE f hf))
    rw [hw]
    rfl

/-- The CSRs with the write of execute. -/
lemma issueNext_csr (h : Drained dpi s σ) (hi : Inv dpi s) {id : BitVec 12}
    (hid : id ≠ Csr.timer) : (s.issueNext dpi σ).csrfile.csr id =
      applyWrite σ.csrfile.csr (s.regWOfE dpi).csrWrite id := by
  rw [issueNext]
  cases hf : s.issued with
  | none =>
    rw [csrWrite_of_regE_bubble hi (issued_eq_none hf)]
    rfl
  | some f =>
    rw [congr_of_norm RegW.csrWrite (h.regWOfE_norm hf) fun _ => rfl]
    exact σ.issue_csr dpi f hid

/-- **The drained registers** are those of the sequential machine with the instruction in
execute performed. -/
theorem drainedReg (h : Drained dpi s σ) (hi : Inv dpi s) :
    s.drainedReg dpi = (s.issueNext dpi σ).regfile.reg := by
  show applyWrite (applyWrite (applyWrite s.regfile.reg s.regW.regWrite)
    (s.regWOfM dpi).regWrite) (s.regWOfE dpi).regWrite = _
  rw [h.issueNext_regfile hi, h.regfile]

end Drained

/-! ## One clock edge -/

/-- A valid instruction in decode carries the commit information of its fetch. -/
lemma regD_commitInfo (hi : Inv dpi s) (hv : s.regD.valid = true) :
    s.regD.commitInfo = commitInfo true s.regD.instr (s.regD.pc + 4#64) s.regD.pc ∧
      s.pc = s.regD.pc + 4#64 := by
  obtain hd | ⟨mem, hd, hpc⟩ := hi.fetched
  · exact absurd hd (regD_ne_nop hv)
  · refine ⟨?_, hpc⟩
    rw [hd]
    rfl

/-- The instruction in decode, as it was fetched. -/
def fetchedD (s : TopCpu M) : FetchOut :=
  ⟨s.regD.pc, s.regD.instr, s.regD.pc + 4#64, s.regD.commitInfo⟩

/-- The instruction that enters execute is the one that was in decode. -/
lemma issued_edge (hi : Inv dpi s) {f : FetchOut} (hf : (step dpi false s).issued = some f) :
    EntersE dpi s ∧ s.regD.valid = true ∧ f = s.fetchedD := by
  have hv : (step dpi false s).regE.valid = true := by
    by_contra hv
    simp [issued, hv] at hf
  have he : EntersE dpi s := by
    rw [step_regE] at hv
    rw [EntersE, step_regE]
    split_ifs at hv ⊢
    · simp at hv
    · rfl
  rw [issued, if_pos hv, Option.some.injEq] at hf
  rw [show (step dpi false s).regE = s.regEIn dpi from he] at hv hf
  refine ⟨he, hv, ?_⟩
  rw [← hf]
  show FetchOut.mk (commitPc s.regD.commitInfo) (commitInstr s.regD.commitInfo)
    (commitNextPc s.regD.commitInfo) s.regD.commitInfo = s.fetchedD
  rw [fetchedD, (regD_commitInfo hi hv).1]
  simp

/-- The store of execute is performed one edge later. -/
lemma memWriteCall_edge (hi : Inv dpi s) :
    memWriteCall (step dpi false s).regM = memWriteCall s.regMIn := by
  cases hm : s.amoM with
  | false => simp [step_regM, hm]
  | true =>
    obtain ⟨he, hm'⟩ := nop_of_amoM hi hm
    have hv : s.regE.valid = false := by rw [he, RegE.valid_nop]
    rw [hm', (writes_of_regE_bubble hi hv).1]
    decide

/-- The instruction in decode reads the CSRs in `f` as far as it uses them. -/
structure CsrReads (s : TopCpu M) (f : Csrfile) : Prop where
  csr : instCsrInstr s.regD.instr = true →
    s.csrfile.read (csrRid1 s.regD.instr) = f.read (csrRid1 s.regD.instr)
  mret : instMret s.regD.instr = true →
    s.csrfile.read (csrRid2 s.regD.instr) = f.read (csrRid2 s.regD.instr)

/-- **An edge** at which the instruction that enters execute has exact operands and reads the
CSRs of the sequential machine.

**Proof sketch.** Write back performs its write and the stages behind it move up, so the file
drained after the edge is the file drained before it with the write of execute; the memory is
alike.  The instruction that enters execute sees the same word, the same operands and the same
CSRs as in the sequential machine. -/
theorem Drained.edge (h : Drained dpi s σ) (hi : Inv dpi s)
    (hops : EntersE dpi s → s.regD.valid = true → OperandsExact dpi s)
    (hcsr : EntersE dpi s → s.regD.valid = true →
      CsrReads s (s.issueNext dpi σ).csrfile) :
    Drained dpi (step dpi false s) (s.issueNext dpi σ) := by
  refine ⟨?_, ?_, fun f hf => ?_⟩
  · rw [step_regfile_reg, step_regW_eq, regWrite_two_edges hi, h.issueNext_regfile hi, h.regfile]
  · rw [step_mem, memWriteCall_edge hi, h.issueNext_mem hi, h.mem]
  · obtain ⟨he, hv, rfl⟩ := issued_edge hi hf
    have hx := hops he hv
    have hread : ∀ rs, forward Bypass.idle rs ((s.issueNext dpi σ).regfile.read rs) =
        s.drainedReg dpi rs := by
      intro rs
      rw [SeqState.forward_idle, Regfile.read_eq, h.drainedReg hi]
    rw [show (step dpi false s).regE = s.regEIn dpi from he]
    exact RegE.norm_latch_decode _ _ (hx.regdata1.trans (hread _).symm)
      (hx.regdata2.trans (hread _).symm) (hcsr he hv).csr (hcsr he hv).mret

/-- An edge keeps the relation of the CSRs. -/
theorem DrainedCsr.edge (h : DrainedCsr dpi s σ) (hd : Drained dpi s σ) (hi : Inv dpi s) :
    DrainedCsr dpi (step dpi false s) (s.issueNext dpi σ) := by
  intro id hid
  have hstep : (step dpi false s).csrfile.csr id =
      applyWrite s.csrfile.csr s.regW.csrWrite id := s.csrfile.next_csr s.regW hid
  rw [step_regW_eq, csrWrite_two_edges hi, hd.issueNext_csr hi hid]
  refine applyWrite_congr _ ?_
  rw [← h id hid]
  exact applyWrite_congr _ hstep

/-! ## The path of the program -/

/-- No atomic instruction is in decode, execute and memory. -/
structure NoAmo (s : TopCpu M) : Prop where
  decode : s.amoD = false
  execute : s.amoE = false
  memory : s.amoM = false

/-- There is none as long as fetch reads none. -/
theorem NoAmo.edge (h : NoAmo s) (hf : instAmo (s.fetchOut dpi).instr = false) :
    NoAmo (step dpi false s) := by
  refine ⟨?_, ?_, ?_⟩
  · rw [amoD, step_regD]
    split_ifs
    · decide
    · exact h.decode
    · exact hf
  · rw [amoE, step_regE]
    split_ifs
    · simp [RegE.nop]
    · exact (opcodeInfo_amo _).trans h.decode
  · rw [amoM, step_regM]
    split_ifs
    · simp [RegM.nop]
    · exact h.execute

/-- Unless a redirect is about to discard them, decode and fetch stand at the instruction that
the sequential machine performs after the one in execute. -/
structure OnPath (dpi : Dpi M) (s : TopCpu M) (σ : SeqState M) : Prop where
  regD : s.redirect = false → s.regD.valid = true → s.regD.pc = (s.issueNext dpi σ).pc
  pc : s.redirect = false → s.regD.valid = false → s.pc = (s.issueNext dpi σ).pc

/-- The pc after the instruction in execute. -/
lemma Drained.issueNext_pc (h : Drained dpi s σ) {f : FetchOut} (hf : s.issued = some f) :
    (s.issueNext dpi σ).pc = if s.redirect then s.redirectTarget else f.nextPc := by
  obtain ⟨hm, hb, hpc, hc⟩ := redirect_congr (h.regE f hf)
  rw [issueNext, hf, Option.elim_some, SeqState.issue_pc, ← hm, ← hb, ← hpc, redirect,
    redirectTarget]
  by_cases hmr : s.regE.mret = true
  · rw [if_pos hmr, if_pos hmr, if_pos (by rw [hmr, Bool.or_true]), hc hmr]
  · have hor : (executeBranchNeedJump s.regE || s.regE.mret) = executeBranchNeedJump s.regE := by
      rw [Bool.not_eq_true] at hmr
      rw [hmr, Bool.or_false]
    rw [if_neg hmr, if_neg hmr, hor]

/-- Without an instruction in execute the sequential machine stays where it is. -/
lemma issueNext_of_none (hf : s.issued = none) : s.issueNext dpi σ = σ := by
  rw [issueNext, hf]
  rfl

/-- A cleared `regE` holds no instruction. -/
lemma issued_of_nop (he : s.regE = RegE.nop) : s.issued = none := by
  rw [issued, if_neg (by simp [he])]

/-- After a redirect fetch stands at the instruction after the one that redirected. -/
lemma Drained.pc_of_redirect (h : Drained dpi s σ) (hi : Inv dpi s) (ha : NoAmo s)
    (hr : s.redirect = true) : (step dpi false s).pc = (s.issueNext dpi σ).pc := by
  cases hf : s.issued with
  | none => simp [(hi.of_regE_bubble (issued_eq_none hf)).1] at hr
  | some f =>
    rw [step_pc_of_redirect hi hr, ha.decode, if_neg Bool.false_ne_true, h.issueNext_pc hf,
      if_pos hr]

/-- The instruction after one that does not redirect is at the next word. -/
lemma OnPath.pc_of_entersE (hp : OnPath dpi s σ) (hi : Inv dpi s)
    (h' : Drained dpi (step dpi false s) (s.issueNext dpi σ)) (hr : s.redirect = false)
    (he : EntersE dpi s) (hr' : (step dpi false s).redirect = false) :
    s.pc = ((step dpi false s).issueNext dpi (s.issueNext dpi σ)).pc := by
  cases hf : (step dpi false s).issued with
  | none =>
    have hv : s.regD.valid = false := by
      have hv' := issued_eq_none hf
      rwa [show (step dpi false s).regE = s.regEIn dpi from he] at hv'
    rw [issueNext_of_none hf]
    exact hp.pc hr hv
  | some f =>
    obtain ⟨-, hv, rfl⟩ := issued_edge hi hf
    rw [h'.issueNext_pc hf, hr', if_neg Bool.false_ne_true]
    exact (regD_commitInfo hi hv).2

/-- **An edge keeps to the path** when no atomic instruction is around.

**Proof sketch.** A redirect restarts fetch at the target; a load in execute holds decode and the
pc; and otherwise the word at the pc moves into decode, at the address after the instruction
that leaves decode. -/
theorem OnPath.edge (hp : OnPath dpi s σ) (h : Drained dpi s σ)
    (h' : Drained dpi (step dpi false s) (s.issueNext dpi σ)) (hi : Inv dpi s) (ha : NoAmo s) :
    OnPath dpi (step dpi false s) (s.issueNext dpi σ) := by
  by_cases hr : s.redirect = true
  · have hD : (step dpi false s).regD = RegD.nop := by simp [step_regD, hr]
    have hE : (step dpi false s).regE = RegE.nop := by simp [step_regE, hr]
    refine ⟨fun _ hv => ?_, fun _ _ => ?_⟩
    · simp [hD] at hv
    · rw [issueNext_of_none (issued_of_nop hE)]
      exact h.pc_of_redirect hi ha hr
  rw [Bool.not_eq_true] at hr
  by_cases hl : s.loadUse = true
  · have hD : (step dpi false s).regD = s.regD := by
      simp [step_regD, hr, ha.decode, ha.execute, ha.memory, hl]
    have hE : (step dpi false s).regE = RegE.nop := by simp [step_regE, hl]
    have hpc : (step dpi false s).pc = s.pc := by simp [step_pc, hl]
    have hn : (step dpi false s).issueNext dpi (s.issueNext dpi σ) = s.issueNext dpi σ :=
      issueNext_of_none (issued_of_nop hE)
    refine ⟨fun _ hv => ?_, fun _ hv => ?_⟩
    · rw [hD] at hv ⊢
      rw [hn]
      exact hp.regD hr hv
    · rw [hD] at hv
      rw [hpc, hn]
      exact hp.pc hr hv
  · rw [Bool.not_eq_true] at hl
    have hD : (step dpi false s).regD = s.regDIn dpi := by
      simp [step_regD, hr, ha.decode, ha.execute, ha.memory, hl]
    have he : EntersE dpi s := by
      simp [EntersE, step_regE, hr, hl, ha.execute, ha.memory]
    refine ⟨fun hrs _ => ?_, fun _ hv => ?_⟩
    · rw [hD]
      exact hp.pc_of_entersE hi h' hr he hrs
    · rw [hD, regDIn_valid] at hv
      cases hv

/-! ## After reset -/

section Reset

variable (dpi) (regfile : Regfile) (csrfile : Csrfile) (mem : M)

/-- After reset nothing is in flight. -/
lemma issued_afterReset : (afterReset regfile csrfile mem).issued = none :=
  issued_of_nop rfl

/-- So the registers and the memory are those of a sequential machine that starts with them. -/
lemma drained_afterReset (hr : σ.regfile = regfile) (hm : σ.mem = mem) :
    Drained dpi (afterReset regfile csrfile mem) σ := by
  have hnop : memWriteCall RegM.nop = none := by decide
  refine ⟨?_, ?_, fun f hf => ?_⟩
  · rw [hr]
    rfl
  · show memNext dpi mem (memWriteCall RegM.nop) = σ.mem
    rw [hnop, hm]
    rfl
  · rw [issued_afterReset] at hf
    cases hf

/-- After a reset the CSRs are those of the sequential machine. -/
lemma drainedCsr_afterReset :
    DrainedCsr dpi (afterReset regfile csrfile mem) (afterReset regfile csrfile mem).seqState :=
  fun _ _ => rfl

/-- After a reset fetch stands at the first instruction of the sequential machine. -/
lemma onPath_afterReset (hpc : σ.pc = 0x80000000#64) :
    OnPath dpi (afterReset regfile csrfile mem) σ := by
  refine ⟨fun _ hv => ?_, fun _ _ => ?_⟩
  · simp [afterReset] at hv
  · rw [issueNext_of_none (issued_afterReset regfile csrfile mem), hpc]
    rfl

/-- No atomic instruction is in flight after a reset. -/
lemma noAmo_afterReset : NoAmo (afterReset regfile csrfile mem) := by
  refine ⟨?_, ?_, ?_⟩
  · exact (by decide : instAmo nopInstr = false)
  · simp [amoE, afterReset, RegE.nop]
  · simp [amoM, afterReset, RegM.nop]

end Reset

/-! ## Two edges later -/

/-- The registers two edges later, as write back and memory leave them. -/
lemma run_two_reg : (run dpi 2 s).regfile.reg =
    applyWrite (applyWrite s.regfile.reg s.regW.regWrite) (s.regWOfM dpi).regWrite := by
  rw [run_succ, run_succ, run_zero, step_regfile_reg, step_regfile_reg, step_regW_eq]

/-- The CSRs two edges later, the timer apart. -/
lemma run_two_csr {id : BitVec 12} (hid : id ≠ Csr.timer) :
    (run dpi 2 s).csrfile.csr id =
      applyWrite (applyWrite s.csrfile.csr s.regW.csrWrite) (s.regWOfM dpi).csrWrite id := by
  have hstep : ∀ t : TopCpu M, (step dpi false t).csrfile.csr id =
      applyWrite t.csrfile.csr t.regW.csrWrite id := fun t => t.csrfile.next_csr t.regW hid
  rw [run_succ, run_succ, run_zero, hstep, step_regW_eq]
  exact applyWrite_congr _ (hstep s)

/-- In the first two cycles after reset write back is empty. -/
lemma regW_valid_start (dpi : Dpi M) (regfile : Regfile) (csrfile : Csrfile) (mem : M) {n : ℕ}
    (hn : n < 2) : (run dpi n (afterReset regfile csrfile mem)).regW.valid = false := by
  obtain rfl | rfl : n = 0 ∨ n = 1 := by omega
  · exact commitBit_zero
  · rw [run_succ, step_regW]
    exact commitBit_zero

/-- What write back shows of an instruction, it shows two edges after the instruction was in
execute. -/
theorem trace_regW {O : Type*} {obs : RegW → Option O} (dpi : Dpi M) (regfile : Regfile)
    (csrfile : Csrfile) (mem : M) (hobs : ∀ w : RegW, w.valid = false → obs w = none) (n : ℕ) :
    trace (fun i => obs (run dpi i (afterReset regfile csrfile mem)).regW) (n + 2) =
      trace (fun i => obs (run dpi 2 (run dpi i (afterReset regfile csrfile mem))).regW) n := by
  have h0 := hobs _ (regW_valid_start dpi regfile csrfile mem Nat.zero_lt_two)
  have h1 := hobs _ (regW_valid_start dpi regfile csrfile mem Nat.one_lt_two)
  calc trace (fun i => obs (run dpi i (afterReset regfile csrfile mem)).regW) (n + 2)
      = trace (fun i => obs (run dpi (i + 1) (afterReset regfile csrfile mem)).regW) (n + 1) :=
        trace_delay h0 fun _ _ => rfl
    _ = trace (fun i => obs (run dpi 2 (run dpi i (afterReset regfile csrfile mem))).regW) n :=
        trace_delay h1 fun i _ => by rw [run_run, Nat.add_comm 2 i]

/-- Execute corrects neither the word nor the pc. -/
lemma executeCommitInfo_fields (e : RegE) :
    commitInstr (executeCommitInfo e) = commitInstr e.commitInfo ∧
      commitPc (executeCommitInfo e) = commitPc e.commitInfo := by
  unfold executeCommitInfo
  split_ifs <;> simp

/-- The instruction in execute is in write back two edges later. -/
lemma run_two_regW (h : Inv dpi s) : (run dpi 2 s).regW.valid = s.regE.valid ∧
    (s.regE.valid = true →
      commitPc (run dpi 2 s).regW.commitInfo = commitPc s.regE.commitInfo ∧
      commitInstr (run dpi 2 s).regW.commitInfo = commitInstr s.regE.commitInfo) := by
  rw [run_succ, run_succ, run_zero, step_regW_eq]
  cases hm : s.amoM with
  | false =>
    rw [regWOfM_edge hm]
    exact ⟨commitBit_executeCommitInfo s.regE, fun _ =>
      ⟨(executeCommitInfo_fields s.regE).2, (executeCommitInfo_fields s.regE).1⟩⟩
  | true =>
    obtain ⟨he, hm'⟩ := nop_of_amoM h hm
    refine ⟨?_, fun hv => ?_⟩
    · rw [regWOfM, regWIn, hm', he]
      rfl
    · simp [he] at hv

end TopCpu

end Riscv64Cpu.Pipeline
