import Riscv64Cpu.Pipeline.CsrHazard
import Riscv64Cpu.Pipeline.Normal
import Riscv64Cpu.ReadyValid.Invariant

set_option relaxedAutoImplicit false
set_option autoImplicit false

/-!
# The rewrite is the old processor, an edge later

A bisimulation between `rv64-pipeline-cpu-2026-ready-valid-mmu` and `rv64-pipeline-cpu-2026`.
The first edge after reset only makes the pc of the rewrite valid; from then on the two
processors go hand in hand.  Valid stages hold the same instructions with the same operands; a
stage that is not valid is empty in the rewrite and holds some bubble in the old processor.

## Main definitions

* `ReadyValid.TopCpu.Match` — the relation.
* `ReadyValid.TopCpu.OneCycleLater` — what the two runs have in common at a cycle.

## Main results

* `Pipeline.forward_congr` — what the bypass multiplexer depends on.
* `ReadyValid.TopCpu.Match.edge` — a clock edge keeps the relation.
* `ReadyValid.TopCpu.oneCycleLater` — same commits, stores and registers, one cycle later.

## Design

The timers of the two processors differ by the edge in between, so the relation leaves the CSR
`timer` out, and no committed instruction may name it.
-/

namespace Riscv64Cpu

open Clocked

namespace Pipeline

/-! ## The bypass multiplexer -/

/-- A stage with destination `x0` forwards nothing. -/
@[simp] lemma matchRs_regRd_zero (regWen : Bool) (rs : BitVec 5) :
    matchRs 0#5 regWen rs = false := by simp [matchRs]

/-- A stage that matches a source is valid, when a bubble has destination `x0`. -/
lemma valid_of_matchRs {regRd : BitVec 5} {regWen valid : Bool} {rs : BitVec 5}
    (hm : matchRs regRd regWen rs = true) (h : valid = false → regRd = 0#5) : valid = true := by
  by_contra hv
  rw [Bool.not_eq_true] at hv
  rw [h hv, matchRs_regRd_zero] at hm
  cases hm

/-- Two stages match a source alike when they do so with a valid instruction, and a bubble in either
has destination `x0`. -/
lemma matchRs_congr {valid regWen regWen' : Bool} {regRd regRd' rs : BitVec 5}
    (hvalid : valid = true → matchRs regRd regWen rs = matchRs regRd' regWen' rs)
    (hbubble : valid = false → regRd = 0#5 ∧ regRd' = 0#5) :
    matchRs regRd regWen rs = matchRs regRd' regWen' rs := by
  cases hv : valid with
  | true => exact hvalid hv
  | false =>
    obtain ⟨h, h'⟩ := hbubble hv
    rw [h, h', matchRs_regRd_zero, matchRs_regRd_zero]

/-- **What the bypass multiplexer depends on**: which stages match the source, and of these the
value and the class. -/
theorem forward_congr {b b' : Bypass} {rs : BitVec 5} {v : BitVec 64}
    (hE : matchRs b.regERegRd b.regERegWen rs = matchRs b'.regERegRd b'.regERegWen rs)
    (hM : matchRs b.regMRegRd b.regMRegWen rs = matchRs b'.regMRegRd b'.regMRegWen rs)
    (hW : matchRs b.regWRegRd b.regWRegWen rs = matchRs b'.regWRegRd b'.regWRegWen rs)
    (vE : matchRs b'.regERegRd b'.regERegWen rs = true → b.executeAluResult = b'.executeAluResult)
    (vM : matchRs b'.regMRegRd b'.regMRegWen rs = true → b.regMOpcodeInfo = b'.regMOpcodeInfo ∧
      b.regMAluResult = b'.regMAluResult ∧ b.memoryMemRdata = b'.memoryMemRdata)
    (vW : matchRs b'.regWRegRd b'.regWRegWen rs = true → b.regWOpcodeInfo = b'.regWOpcodeInfo ∧
      b.regWAluResult = b'.regWAluResult ∧ b.regWMemRdata = b'.regWMemRdata ∧
      b.regWPc = b'.regWPc ∧
      (selCsrRdata b'.regWOpcodeInfo = true → b.regWCsrRdata1 = b'.regWCsrRdata1)) :
    forward b rs v = forward b' rs v := by
  unfold forward
  rw [hE, hM, hW]
  cases mE : matchRs b'.regERegRd b'.regERegWen rs with
  | true => simp [vE mE]
  | false =>
    have hM' : ∀ x, (if matchRs b'.regMRegRd b'.regMRegWen rs && selAluResult b.regMOpcodeInfo then
          b.regMAluResult
        else if matchRs b'.regMRegRd b'.regMRegWen rs && selMemRdata b.regMOpcodeInfo then
          b.memoryMemRdata
        else x) =
        if matchRs b'.regMRegRd b'.regMRegWen rs && selAluResult b'.regMOpcodeInfo then
          b'.regMAluResult
        else if matchRs b'.regMRegRd b'.regMRegWen rs && selMemRdata b'.regMOpcodeInfo then
          b'.memoryMemRdata
        else x := by
      intro x
      cases mM : matchRs b'.regMRegRd b'.regMRegWen rs with
      | false => rfl
      | true =>
        obtain ⟨ho, ha, hm⟩ := vM mM
        rw [ho, ha, hm]
    rw [if_neg Bool.false_ne_true, if_neg Bool.false_ne_true, hM']
    cases mW : matchRs b'.regWRegRd b'.regWRegWen rs with
    | false => rfl
    | true =>
      obtain ⟨ho, ha, hm, hp, hc⟩ := vW mW
      rw [ho, ha, hm, hp]
      cases hs : selCsrRdata b'.regWOpcodeInfo with
      | false => rfl
      | true => rw [hc hs]

/-- What the commit port shows in a cycle in which an instruction retires. -/
def RegW.committed (w : RegW) : Option CommitOut :=
  if (commit w).commit then some (commit w) else none

namespace TopCpu.Inv

variable {M : Type} {dpi : Dpi M} {s : TopCpu M} (h : Inv dpi s)
include h

/-- A bubble has destination `x0`. -/
lemma regRd_of_regE_bubble (hv : s.regE.valid = false) : s.regE.regRd = 0#5 := by
  obtain ⟨w, hw, hf⟩ := h.holdsE
  exact hw.regRd.trans (hf.bubble hv).inert.regRd

/-- A bubble in memory has destination `x0`. -/
lemma regRd_of_regM_bubble (hv : s.regM.valid = false) : s.regM.regRd = 0#5 := by
  obtain ⟨w, hw, hf⟩ := h.holdsM
  exact hw.regRd.trans (hf.bubble hv).inert.regRd

/-- A bubble in write back has destination `x0`. -/
lemma regRd_of_regW_bubble (hv : s.regW.valid = false) : s.regW.regRd = 0#5 := by
  obtain ⟨w, hw, hf⟩ := h.holdsW
  exact hw.regRd.trans (hf.bubble hv).inert.regRd

end TopCpu.Inv

end Pipeline

namespace ReadyValid

open Pipeline

namespace TopCpu

variable {M : Type} {dpi : Dpi M} {r : TopCpu M} {s : Pipeline.TopCpu M}

/-! ## The relation -/

/-- The rewrite in state `r` and the old processor in state `s` are in step. -/
structure Match (r : TopCpu M) (s : Pipeline.TopCpu M) : Prop where
  pc : r.pc = ⟨true, s.pc⟩
  regD : r.regD = ⟨s.regD.valid, s.regD⟩
  validE : r.regE.valid = s.regE.valid
  validM : r.regM.valid = s.regM.valid
  validW : r.regW.valid = s.regW.valid
  normE : s.regE.valid = true → r.core.regE.norm = s.regE.norm
  normM : s.regM.valid = true → r.core.regM.norm = s.regM.norm
  normW : s.regW.valid = true → r.core.regW.norm = s.regW.norm
  regfile : r.regfile = s.regfile
  csrfile : ∀ id, id ≠ Csr.timer → r.csrfile.csr id = s.csrfile.csr id
  mem : r.mem = s.mem

namespace Match

/-! ### The wires -/

/-- The instruction in decode is the same. -/
lemma core_regD (h : Match r s) : r.core.regD = s.regD := congrArg Stage.payload h.regD

/-- Both fetch the same word. -/
lemma fetchOut (h : Match r s) : r.core.fetchOut dpi = s.fetchOut dpi := by
  have hpc : r.core.pc = s.pc := congrArg Stage.payload h.pc
  have hmem : r.core.mem = s.mem := h.mem
  rw [Pipeline.TopCpu.fetchOut, hpc, hmem, Pipeline.TopCpu.fetchOut]

/-- Both see an atomic instruction in decode or neither does. -/
lemma amoD (h : Match r s) : r.core.amoD = s.amoD := by
  rw [Pipeline.TopCpu.amoD, h.core_regD, Pipeline.TopCpu.amoD]

/-- Both read the same data. -/
lemma memoryMemRdata (h : Match r s) (hv : s.regM.valid = true) :
    r.core.memoryMemRdata dpi = s.memoryMemRdata dpi := by
  have hmem : r.core.mem = s.mem := h.mem
  rw [Pipeline.TopCpu.memoryMemRdata, hmem]
  exact congr_of_norm (memory dpi s.mem) (h.normM hv) fun _ => rfl

/-- Instructions of the same class are in execute. -/
lemma opcodeInfoE (h : Match r s) (hv : s.regE.valid = true) :
    r.core.regE.opcodeInfo = s.regE.opcodeInfo :=
  congr_of_norm RegE.opcodeInfo (h.normE hv) fun _ => rfl

/-- Instructions of the same class are in memory. -/
lemma opcodeInfoM (h : Match r s) (hv : s.regM.valid = true) :
    r.core.regM.opcodeInfo = s.regM.opcodeInfo :=
  congr_of_norm RegM.opcodeInfo (h.normM hv) fun _ => rfl

/-- An empty stage of the rewrite holds the nop. -/
lemma nopE (h : Match r s) (hr : Inv r) (hv : s.regE.valid = false) :
    r.core.regE = RegE.nop :=
  hr.soundE.payload (h.validE.trans hv)

/-- An empty memory stage of the rewrite holds the nop. -/
lemma nopM (h : Match r s) (hr : Inv r) (hv : s.regM.valid = false) :
    r.core.regM = RegM.nop :=
  hr.soundM.payload (h.validM.trans hv)

/-- An empty write back of the rewrite holds the nop. -/
lemma nopW (h : Match r s) (hr : Inv r) (hv : s.regW.valid = false) :
    r.core.regW = RegW.nop :=
  hr.soundW.payload (h.validW.trans hv)

section Hazards

variable (h : Match r s) (hr : Inv r) (hs : Pipeline.TopCpu.Inv dpi s)
include h hr hs

/-- Both redirect alike: for `mret`, for branches, and to the same target. -/
lemma redirects : r.core.regE.mret = s.regE.mret ∧
    executeBranchNeedJump r.core.regE = executeBranchNeedJump s.regE ∧
    (s.regE.mret = true → r.core.regE.csrRdata2 = s.regE.csrRdata2) ∧
    (executeBranchNeedJump s.regE = true →
      executeBranchNextPc r.core.regE = executeBranchNextPc s.regE) := by
  cases hv : s.regE.valid with
  | true =>
    obtain ⟨hm, hb, hn, hc⟩ := redirect_congr (h.normE hv)
    exact ⟨hm, hb, fun he => hc (hm.trans he), fun _ => hn⟩
  | false =>
    have hb := (hs.of_regE_bubble hv).1
    rw [Pipeline.TopCpu.redirect, Bool.or_eq_false_iff] at hb
    have hn : executeBranchNeedJump RegE.nop = false ∧ RegE.nop.mret = false := by decide
    rw [h.nopE hr hv, hb.1, hb.2, hn.1, hn.2]
    exact ⟨rfl, rfl, fun hf => (Bool.false_ne_true hf).elim,
      fun hf => (Bool.false_ne_true hf).elim⟩

/-- Both redirect or neither does. -/
lemma redirect : r.core.redirect = s.redirect := by
  obtain ⟨hm, hb, -, -⟩ := h.redirects hr hs
  rw [Pipeline.TopCpu.redirect, hm, hb, Pipeline.TopCpu.redirect]

/-- Both see an atomic instruction in execute or neither does. -/
lemma amoE : r.core.amoE = s.amoE := by
  cases hv : s.regE.valid with
  | true => rw [Pipeline.TopCpu.amoE, h.opcodeInfoE hv, Pipeline.TopCpu.amoE]
  | false =>
    rw [(hs.of_regE_bubble hv).2.2, Pipeline.TopCpu.amoE, h.nopE hr hv]
    simp [RegE.nop]

/-- Both see an atomic instruction in memory or neither does. -/
lemma amoM : r.core.amoM = s.amoM := by
  cases hv : s.regM.valid with
  | true => rw [Pipeline.TopCpu.amoM, h.opcodeInfoM hv, Pipeline.TopCpu.amoM]
  | false =>
    rw [hs.of_regM_bubble hv, Pipeline.TopCpu.amoM, h.nopM hr hv]
    simp [RegM.nop]

/-- Both see a load in execute with its consumer in decode, or neither does. -/
lemma loadUse : r.core.loadUse = s.loadUse := by
  cases hv : s.regE.valid with
  | true =>
    have hd : r.core.regE.regRd = s.regE.regRd := congr_of_norm RegE.regRd (h.normE hv) fun _ => rfl
    rw [Pipeline.TopCpu.loadUse, h.opcodeInfoE hv, hd, h.core_regD, Pipeline.TopCpu.loadUse]
  | false =>
    rw [(hs.of_regE_bubble hv).2.1, Pipeline.TopCpu.loadUse, h.nopE hr hv]
    simp [Pipeline.loadUse, RegE.nop]

/-- Execute matches a source in both or in neither. -/
lemma matchE (rs : BitVec 5) : matchRs r.core.regE.regRd r.core.regE.regWen rs =
    matchRs s.regE.regRd s.regE.regWen rs :=
  matchRs_congr
    (fun hv => congr_of_norm (fun e => matchRs e.regRd e.regWen rs) (h.normE hv) fun _ => rfl)
    fun hv => ⟨congrArg RegE.regRd (h.nopE hr hv), hs.regRd_of_regE_bubble hv⟩

/-- Memory matches a source in both or in neither. -/
lemma matchM (rs : BitVec 5) : matchRs r.core.regM.regRd r.core.regM.regWen rs =
    matchRs s.regM.regRd s.regM.regWen rs :=
  matchRs_congr
    (fun hv => congr_of_norm (fun m => matchRs m.regRd m.regWen rs) (h.normM hv) fun _ => rfl)
    fun hv => ⟨congrArg RegM.regRd (h.nopM hr hv), hs.regRd_of_regM_bubble hv⟩

/-- Write back matches a source in both or in neither. -/
lemma matchW (rs : BitVec 5) : matchRs r.core.regW.regRd r.core.regW.regWen rs =
    matchRs s.regW.regRd s.regW.regWen rs :=
  matchRs_congr
    (fun hv => congr_of_norm (fun w => matchRs w.regRd w.regWen rs) (h.normW hv) fun _ => rfl)
    fun hv => ⟨congrArg RegW.regRd (h.nopW hr hv), hs.regRd_of_regW_bubble hv⟩

/-- **Both forward the same operands.**

**Proof sketch.** The same stages match, and a stage that matches is valid, so its instruction
is the same up to CSR values that it does not use. -/
theorem forward (rs : BitVec 5) (v : BitVec 64) :
    Pipeline.forward (r.core.bypass dpi) rs v = Pipeline.forward (s.bypass dpi) rs v := by
  apply forward_congr (h.matchE hr hs rs) (h.matchM hr hs rs) (h.matchW hr hs rs)
  · intro hm
    have hv := valid_of_matchRs hm hs.regRd_of_regE_bubble
    exact congr_of_norm executeAluResult (h.normE hv) executeAluResult_norm
  · intro hm
    have hv := valid_of_matchRs hm hs.regRd_of_regM_bubble
    exact ⟨h.opcodeInfoM hv, congr_of_norm RegM.aluResult (h.normM hv) fun _ => rfl,
      h.memoryMemRdata hv⟩
  · intro hm
    have hv := valid_of_matchRs hm hs.regRd_of_regW_bubble
    have ho : r.core.regW.opcodeInfo = s.regW.opcodeInfo :=
      congr_of_norm RegW.opcodeInfo (h.normW hv) fun _ => rfl
    refine ⟨ho, congr_of_norm RegW.aluResult (h.normW hv) fun _ => rfl,
      congr_of_norm RegW.memRdata (h.normW hv) fun _ => rfl,
      congr_of_norm RegW.pc (h.normW hv) fun _ => rfl, fun hc => ?_⟩
    have hn : (if selCsrRdata r.core.regW.opcodeInfo then r.core.regW.csrRdata1 else 0#64) =
        if selCsrRdata s.regW.opcodeInfo then s.regW.csrRdata1 else 0#64 :=
      congrArg RegW.csrRdata1 (h.normW hv)
    change selCsrRdata s.regW.opcodeInfo = true at hc
    rwa [ho, if_pos hc, if_pos hc] at hn

end Hazards

/-! ### One clock edge -/

/-- The instruction in memory moves on. -/
lemma regW_edge (dpi : Dpi M) (h : Match r s) :
    (step dpi false r).regW.valid = (Pipeline.TopCpu.step dpi false s).regW.valid ∧
      ((Pipeline.TopCpu.step dpi false s).regW.valid = true →
        (step dpi false r).core.regW.norm = (Pipeline.TopCpu.step dpi false s).regW.norm) := by
  have hcore : (step dpi false r).core.regW = (step dpi false r).regW.payload := rfl
  have hvW : (s.regWIn dpi).valid = s.regM.valid := rfl
  rw [hcore, step_regW, h.validM, Pipeline.TopCpu.step_regW, hvW]
  cases hv : s.regM.valid with
  | true =>
    refine ⟨rfl, fun _ => ?_⟩
    have hmem : r.core.mem = s.mem := h.mem
    show (RegW.latch r.core.regM (memory dpi r.core.mem r.core.regM)).norm = _
    rw [hmem]
    exact RegW.norm_latch_congr dpi s.mem (h.normM hv)
  | false => exact ⟨rfl, fun hf => by cases hf⟩

section Edge

variable (h : Match r s) (hr : Inv r) (hs : Pipeline.TopCpu.Inv dpi s)
include h hr hs

/-- Both pcs stall, redirect and advance alike. -/
lemma pc_edge : (step dpi false r).pc = ⟨true, (Pipeline.TopCpu.step dpi false s).pc⟩ := by
  have hv : r.pc.valid = true := by rw [h.pc]
  have hpc : r.core.pc = s.pc := congrArg Stage.payload h.pc
  obtain ⟨hm, hb, hmt, hbt⟩ := h.redirects hr hs
  rw [step_pc dpi r hv, Pipeline.TopCpu.step_pc, h.loadUse hr hs, h.amoD, h.amoE hr hs,
    h.amoM hr hs, hpc, hm, hb]
  congr 1
  split_ifs with _ he hj
  · rfl
  · exact hmt he
  · exact hbt hj
  · rfl

/-- A bubble that the old processor holds in decode under a stall is the nop. -/
lemma regD_edge : (step dpi false r).regD =
    ⟨(Pipeline.TopCpu.step dpi false s).regD.valid, (Pipeline.TopCpu.step dpi false s).regD⟩ := by
  have hpv : r.pc.valid = true := by rw [h.pc]
  rw [step_regD, Pipeline.TopCpu.step_regD, h.redirect hr hs, h.amoD, h.amoE hr hs, h.amoM hr hs,
    h.loadUse hr hs, hpv, Pipeline.TopCpu.regDIn, h.fetchOut]
  split_ifs with hb hl hv hp
  · rw [RegD.valid_nop]
    rfl
  · exact h.regD
  · rw [h.regD] at hv
    rcases hs.fetched with hd | ⟨mem, hd, -⟩
    · rw [hd, RegD.valid_nop]
      rfl
    · have hc : s.regD.valid = true := by
        rw [hd]
        exact commitBit_commitInfo ..
      exact (hv hc).elim
  · exact congrArg (Stage.mk · _) (commitBit_commitInfo ..).symm
  · exact absurd rfl ‹_›

/-- The decoded instructions agree in normal form, unless a CSR instruction reads the timer. -/
lemma regEIn_norm
    (ht : instCsrInstr s.regD.instr = true → csrId s.regD.instr ≠ Csr.timer) :
    (r.core.regEIn dpi).norm = (s.regEIn dpi).norm := by
  have hread : ∀ id, id ≠ Csr.timer → r.core.csrfile.read id = s.csrfile.read id := by
    intro id hid
    have hc : r.core.csrfile.csr id = s.csrfile.csr id := h.csrfile id hid
    rw [Csrfile.read, hc, Csrfile.read]
  have hrf : r.core.regfile = s.regfile := h.regfile
  rw [Pipeline.TopCpu.regEIn, Pipeline.TopCpu.decodeOut, h.core_regD, hrf]
  refine RegE.norm_latch_decode _ _ (h.forward hr hs _ _) (h.forward hr hs _ _) ?_ ?_
  · intro hc
    rw [csrRid1_of_csrInstr hc]
    exact hread _ (ht hc)
  · intro hm
    have hid : csrRid2 s.regD.instr = Csr.mepc := by rw [csrRid2, if_pos hm]
    rw [hid]
    exact hread _ (by decide)

/-- The bubbles of execute coincide, and an empty decode leaves execute empty. -/
lemma regE_edge (ht : s.NoTimerCsr dpi) :
    (step dpi false r).regE.valid = (Pipeline.TopCpu.step dpi false s).regE.valid ∧
      ((Pipeline.TopCpu.step dpi false s).regE.valid = true →
        (step dpi false r).core.regE.norm = (Pipeline.TopCpu.step dpi false s).regE.norm) := by
  have hvD : r.regD.valid = s.regD.valid := congrArg Stage.valid h.regD
  have hcore : (step dpi false r).core.regE = (step dpi false r).regE.payload := rfl
  rw [hcore, step_regE, h.redirect hr hs, h.loadUse hr hs, h.amoE hr hs, h.amoM hr hs, hvD]
  by_cases hb : (s.redirect || s.loadUse || s.amoE || s.amoM) = true
  · rw [Pipeline.TopCpu.step_regE, if_pos hb, if_pos hb, RegE.valid_nop]
    exact ⟨rfl, fun hv => by cases hv⟩
  · have he : Pipeline.TopCpu.EntersE dpi s := by
      rw [Pipeline.TopCpu.EntersE, Pipeline.TopCpu.step_regE, if_neg hb]
    rw [if_neg hb, show (Pipeline.TopCpu.step dpi false s).regE = s.regEIn dpi from he]
    have hvE : (s.regEIn dpi).valid = s.regD.valid := rfl
    rw [hvE]
    cases hv : s.regD.valid with
    | true => exact ⟨rfl, fun _ => h.regEIn_norm hr hs (ht he)⟩
    | false => exact ⟨rfl, fun hf => by cases hf⟩

/-- The bubble of memory meets an empty execute in both processors. -/
lemma regM_edge :
    (step dpi false r).regM.valid = (Pipeline.TopCpu.step dpi false s).regM.valid ∧
      ((Pipeline.TopCpu.step dpi false s).regM.valid = true →
        (step dpi false r).core.regM.norm = (Pipeline.TopCpu.step dpi false s).regM.norm) := by
  have hcore : (step dpi false r).core.regM = (step dpi false r).regM.payload := rfl
  rw [hcore, step_regM hr.behindAmoM, h.validE, Pipeline.TopCpu.step_regM]
  cases hm : s.amoM with
  | true =>
    have hv : s.regE.valid = false := by rw [(hs.behindAmoM hm).2, RegE.valid_nop]
    rw [hv, if_pos rfl, RegM.valid_nop]
    exact ⟨rfl, fun hf => by cases hf⟩
  | false =>
    have hvM : s.regMIn.valid = s.regE.valid := commitBit_executeCommitInfo s.regE
    rw [if_neg Bool.false_ne_true, hvM]
    cases hv : s.regE.valid with
    | true => exact ⟨rfl, fun _ => RegM.norm_latch_congr (h.normE hv)⟩
    | false => exact ⟨rfl, fun hf => by cases hf⟩

/-- Both write the same register. -/
lemma regWrite : r.core.regW.regWrite = s.regW.regWrite := by
  cases hv : s.regW.valid with
  | true => exact RegW.regWrite_congr (h.normW hv)
  | false =>
    rw [Pipeline.TopCpu.regWrite_of_regW_bubble hs hv, h.nopW hr hv]
    exact RegW.regWrite_eq_none rfl

/-- Both write the same CSR. -/
lemma csrWrite : r.core.regW.csrWrite = s.regW.csrWrite := by
  cases hv : s.regW.valid with
  | true => exact congr_of_norm RegW.csrWrite (h.normW hv) fun _ => rfl
  | false =>
    obtain ⟨w, hw, hf⟩ := hs.holdsW
    rw [hw.csrWrite_of_inert (hf.bubble hv).inert, h.nopW hr hv]
    rfl

/-- Both call `dpi_mem_write` alike. -/
lemma memWriteCall :
    ReadyValid.memWriteCall r.core.regM = Pipeline.memWriteCall s.regM := by
  rw [memWriteCall_eq]
  cases hv : s.regM.valid with
  | true => exact memWriteCall_congr (h.normM hv)
  | false =>
    rw [(Pipeline.TopCpu.writes_of_regM_bubble hs hv).1, h.nopM hr hv]
    decide

/-- **A clock edge keeps the relation**, unless a CSR instruction that enters execute reads the
timer. -/
theorem edge (ht : s.NoTimerCsr dpi) :
    Match (step dpi false r) (Pipeline.TopCpu.step dpi false s) := by
  obtain ⟨validE, normE⟩ := h.regE_edge hr hs ht
  obtain ⟨validM, normM⟩ := h.regM_edge hr hs
  obtain ⟨validW, normW⟩ := h.regW_edge dpi
  refine ⟨h.pc_edge hr hs, h.regD_edge hr hs, validE, validM, validW, normE, normM, normW, ?_,
    fun id hid => ?_, ?_⟩
  · apply Regfile.ext
    intro rd
    have hreg : (step dpi false r).regfile.reg =
        applyWrite r.regfile.reg r.core.regW.regWrite := r.regfile.next_reg ..
    rw [hreg, Pipeline.TopCpu.step_regfile_reg, h.regfile, h.regWrite hr hs]
  · have hcsr : (step dpi false r).csrfile.csr id =
        applyWrite r.csrfile.csr r.core.regW.csrWrite id := r.csrfile.next_csr r.core.regW hid
    have hcsr' : (Pipeline.TopCpu.step dpi false s).csrfile.csr id =
        applyWrite s.csrfile.csr s.regW.csrWrite id := s.csrfile.next_csr s.regW hid
    rw [hcsr, hcsr', h.csrWrite hr hs]
    exact applyWrite_congr _ (h.csrfile id hid)
  · show memNext dpi r.mem (ReadyValid.memWriteCall r.core.regM) = _
    rw [Pipeline.TopCpu.step_mem, h.mem, h.memWriteCall hr hs]

end Edge

end Match

/-! ## Whole runs -/

/-- The first edge after reset makes the pc valid and leaves the rest as the old processor
starts. -/
lemma match_afterReset (dpi : Dpi M) (regfile : Regfile) (csrfile : Csrfile) (mem : M) :
    Match (step dpi false (afterReset regfile csrfile mem))
      (Pipeline.TopCpu.afterReset regfile csrfile mem) := by
  have hD : (step dpi false (afterReset regfile csrfile mem)).regD = .empty RegD.nop := by
    rw [step_regD]
    simp [afterReset]
  have hE : (step dpi false (afterReset regfile csrfile mem)).regE = .empty RegE.nop := by
    rw [step_regE]
    simp [afterReset]
  have hM : (step dpi false (afterReset regfile csrfile mem)).regM = .empty RegM.nop := by
    rw [step_regM fun _ => rfl]
    simp [afterReset]
  have hW : (step dpi false (afterReset regfile csrfile mem)).regW = .empty RegW.nop := by
    rw [step_regW]
    simp [afterReset]
  have hmem : ReadyValid.memWriteCall RegM.nop = none := by decide
  refine ⟨rfl, ?_, ?_, ?_, ?_, ?_, ?_, ?_, ?_, fun id hid => ?_, ?_⟩
  · rw [hD]
    exact congrArg (Stage.mk · _) RegD.valid_nop.symm
  · rw [hE]
    exact RegE.valid_nop.symm
  · rw [hM]
    exact RegM.valid_nop.symm
  · rw [hW]
    exact RegW.valid_nop.symm
  · exact fun hv => absurd (RegE.valid_nop.symm.trans hv) Bool.false_ne_true
  · exact fun hv => absurd (RegM.valid_nop.symm.trans hv) Bool.false_ne_true
  · exact fun hv => absurd (RegW.valid_nop.symm.trans hv) Bool.false_ne_true
  · exact Regfile.ext fun _ => rfl
  · exact (afterReset regfile csrfile mem).csrfile.next_csr RegW.nop hid
  · have hm : (step dpi false (afterReset regfile csrfile mem)).mem =
        memNext dpi (afterReset regfile csrfile mem).mem
          (ReadyValid.memWriteCall (afterReset regfile csrfile mem).core.regM) := rfl
    rw [hm, show (afterReset regfile csrfile mem).core.regM = RegM.nop from rfl, hmem]
    rfl

/-- The instruction that retires in this cycle is no CSR instruction that names the timer. -/
def NoTimerCommit (s : Pipeline.TopCpu M) : Prop :=
  s.commitOut.commit = true → instCsrInstr s.commitOut.instr = true →
    csrId s.commitOut.instr ≠ Csr.timer

instance (s : Pipeline.TopCpu M) : Decidable (NoTimerCommit s) :=
  inferInstanceAs (Decidable (_ → _ → _))

/-- A CSR instruction that enters execute retires three edges later. -/
private lemma noTimerCsr_of_commit (hs : Pipeline.TopCpu.Inv dpi s)
    (h : NoTimerCommit (Pipeline.TopCpu.run dpi 3 s)) : s.NoTimerCsr dpi := by
  intro he hc
  have hf := hs.inFlightD
  have hv : s.regD.valid = true := by
    by_contra hv
    rw [Bool.not_eq_true] at hv
    simp [(hf.bubble hv).inert.csrInstr] at hc
  obtain ⟨hval, hci⟩ := Pipeline.TopCpu.run_two_regW hs.edge
  rw [show (Pipeline.TopCpu.step dpi false s).regE = s.regEIn dpi from he,
    ← Pipeline.TopCpu.run_succ'] at hval hci
  have hi : (Pipeline.TopCpu.run dpi 3 s).commitOut.instr = s.regD.instr :=
    (hci hv).2.trans (hf.eq hv).symm
  rw [← hi] at hc ⊢
  exact h (hval.trans hv) hc

/-- What the run of the rewrite from `r` has at cycle `n + 1` in common with the run of the old
processor from `s` at cycle `n`: the instruction that retires, the store, the registers, and the
sequences of all retired instructions and all stores so far. -/
structure OneCycleLater (dpi : Dpi M) (r : TopCpu M) (s : Pipeline.TopCpu M) (n : ℕ) : Prop where
  commit : (run dpi (n + 1) r).core.regW.committed = (Pipeline.TopCpu.run dpi n s).regW.committed
  store : ReadyValid.memWriteCall (run dpi (n + 1) r).core.regM =
    Pipeline.memWriteCall (Pipeline.TopCpu.run dpi n s).regM
  regfile : (run dpi (n + 1) r).regfile = (Pipeline.TopCpu.run dpi n s).regfile
  commits : trace (fun i => (run dpi i r).core.regW.committed) (n + 1) =
    trace (fun i => (Pipeline.TopCpu.run dpi i s).regW.committed) n
  stores : trace (fun i => ReadyValid.memWriteCall (run dpi i r).core.regM) (n + 1) =
    trace (fun i => Pipeline.memWriteCall (Pipeline.TopCpu.run dpi i s).regM) n

/-- Both commit the same. -/
lemma Match.committed (h : Match r s) (hr : Inv r) :
    r.core.regW.committed = s.regW.committed := by
  cases hv : s.regW.valid with
  | true => rw [RegW.committed, commit_congr (h.normW hv), RegW.committed]
  | false =>
    have hr' : (Pipeline.commit r.core.regW).commit = false := by
      show r.core.regW.valid = false
      rw [h.nopW hr hv, RegW.valid_nop]
    have hs' : (Pipeline.commit s.regW).commit = false := hv
    simp [RegW.committed, hr', hs']

/-- The relation along the two runs. -/
private lemma match_run (dpi : Dpi M) (regfile : Regfile) (csrfile : Csrfile) (mem : M) (n : ℕ)
    (ht : ∀ m ≤ n + 2,
      NoTimerCommit (Pipeline.TopCpu.run dpi m
        (Pipeline.TopCpu.afterReset regfile csrfile mem))) :
    ∀ i ≤ n, Match (run dpi (i + 1) (afterReset regfile csrfile mem))
        (Pipeline.TopCpu.run dpi i (Pipeline.TopCpu.afterReset regfile csrfile mem)) ∧
      Inv (run dpi (i + 1) (afterReset regfile csrfile mem)) ∧
      Pipeline.TopCpu.Inv dpi
        (Pipeline.TopCpu.run dpi i (Pipeline.TopCpu.afterReset regfile csrfile mem)) := by
  have hlock := @lockstep _ _ (fun r s => Match r s ∧ Inv r ∧ Pipeline.TopCpu.Inv dpi s)
    (step dpi false) (Pipeline.TopCpu.step dpi false)
    (step dpi false (afterReset regfile csrfile mem))
    (Pipeline.TopCpu.afterReset regfile csrfile mem) n
    ⟨match_afterReset dpi regfile csrfile mem, (Inv.afterReset regfile csrfile mem).edge,
      (Pipeline.TopCpu.reachable_afterReset dpi regfile csrfile mem).inv⟩ ?_
  · intro i hi
    have hi' := hlock i hi
    rwa [← Function.iterate_succ_apply] at hi'
  · rintro m hm ⟨h, hr, hs⟩
    refine ⟨h.edge hr hs (noTimerCsr_of_commit hs ?_), hr.edge, hs.edge⟩
    have h3 := ht (m + 3) (by omega)
    rwa [Nat.add_comm, ← Pipeline.TopCpu.run_run] at h3

/-- **The rewrite is the old processor, one cycle later.**  Started by reset with the same
registers, CSRs and memory: as long as no committed CSR instruction names the timer, the rewrite
shows at every cycle `n + 1` the commit, the store and the registers that the old processor
shows at cycle `n`, and both have gone through the same sequences of commits and stores.

**Proof sketch.** The relation holds an edge after reset (`match_afterReset`) and is kept by
every edge (`Match.edge`), with the empty stages of the rewrite against the bubbles of the old
processor and normal forms against CSR reads that nobody uses.  The instructions that enter
execute are those that retire (`noTimerCsr_of_commit`). -/
theorem oneCycleLater (dpi : Dpi M) (regfile : Regfile) (csrfile : Csrfile) (mem : M) (n : ℕ)
    (ht : ∀ m ≤ n + 2,
      NoTimerCommit (Pipeline.TopCpu.run dpi m
        (Pipeline.TopCpu.afterReset regfile csrfile mem))) :
    OneCycleLater dpi (afterReset regfile csrfile mem)
      (Pipeline.TopCpu.afterReset regfile csrfile mem) n := by
  have hrun := match_run dpi regfile csrfile mem n ht
  have hcommit : ∀ i ≤ n, (run dpi (i + 1) (afterReset regfile csrfile mem)).core.regW.committed =
      (Pipeline.TopCpu.run dpi i
        (Pipeline.TopCpu.afterReset regfile csrfile mem)).regW.committed := by
    intro i hi
    obtain ⟨h, hr, -⟩ := hrun i hi
    exact h.committed hr
  have hstore : ∀ i ≤ n,
      ReadyValid.memWriteCall (run dpi (i + 1) (afterReset regfile csrfile mem)).core.regM =
        Pipeline.memWriteCall (Pipeline.TopCpu.run dpi i
          (Pipeline.TopCpu.afterReset regfile csrfile mem)).regM := by
    intro i hi
    obtain ⟨h, hr, hs⟩ := hrun i hi
    exact h.memWriteCall hr hs
  refine ⟨hcommit n le_rfl, hstore n le_rfl, (hrun n le_rfl).1.regfile, ?_, ?_⟩
  · exact trace_delay (if_neg (by simp [afterReset, core, Pipeline.commit, RegW.nop]))
      fun i hi => hcommit i (Nat.le_of_lt hi)
  · refine trace_delay ?_ fun i hi => hstore i (Nat.le_of_lt hi)
    show ReadyValid.memWriteCall RegM.nop = none
    decide

/-- `addi x6, x0, 3`, `csrrw x5, mscratch, x6`, `auipc x9, 0`, `amoswap.w x7, x6, (x9)`,
`csrrw x0, mepc, x9` and `mret`. -/
def amoCsrMret : List (BitVec 32) :=
  [0x00300313#32, 0x340312F3#32, 0x00000497#32, 0x0864A3AF#32, 0x34149073#32, 0x30200073#32]

/-- Twenty cycles of a program with an atomic instruction, CSR instructions and `mret`. -/
theorem oneCycleLater_amoCsrMret :
    OneCycleLater Memory.dpi
      (afterReset Regfile.initial Csrfile.initial (Memory.image amoCsrMret))
      (Memory.boot amoCsrMret) 20 :=
  oneCycleLater Memory.dpi _ _ _ 20 (by decide +kernel)

end TopCpu

end ReadyValid

end Riscv64Cpu
