import Riscv64Cpu.Pipeline.Holds

set_option relaxedAutoImplicit false
set_option autoImplicit false

/-!
# The invariant of the pipeline

What one clock edge does to each register, in terms of a handful of hazard conditions, and
the inductive invariant: what each stage holds, and which stages are empty behind an atomic
instruction or a jump.

## Main definitions

* `Pipeline.TopCpu.redirect`, `loadUse`, `amoD`, `amoE`, `amoM` — the hazard conditions.
* `Pipeline.TopCpu.Inv` — the invariant.

## Main results

* `Pipeline.TopCpu.step_pc`, `step_regD`, … — one clock edge, register by register.
* `Pipeline.TopCpu.Reachable.inv` — the invariant holds in every reachable state.
* `Pipeline.TopCpu.Inv.of_redirect` — a redirect comes alone.
-/

namespace Riscv64Cpu.Pipeline

open Verilog (bit)

namespace TopCpu

variable {M : Type} (dpi : Dpi M) (s : TopCpu M)

/-! ## Hazard conditions -/

/-- Execute requests a redirect. -/
def redirect : Bool := executeBranchNeedJump s.regE || s.regE.mret

/-- `regE` holds a load of a register that the instruction in `regD` names. -/
def loadUse : Bool :=
  Pipeline.loadUse s.regE.opcodeInfo s.regE.regRd (rs1 s.regD.instr) (rs2 s.regD.instr)

/-- An atomic instruction is in decode. -/
def amoD : Bool := instAmo s.regD.instr

/-- An atomic instruction is in execute. -/
def amoE : Bool := bit s.regE.opcodeInfo 13

/-- An atomic instruction is in memory. -/
def amoM : Bool := bit s.regM.opcodeInfo 13

/-- What `regD` samples when nothing holds it. -/
def regDIn : RegD := RegD.latch (s.fetchOut dpi)

/-- What `regE` samples when nothing holds it. -/
def regEIn : RegE := RegE.latch (s.decodeOut dpi) s.regD.pc s.regD.commitInfo

/-- What `regM` samples when nothing holds it. -/
def regMIn : RegM := RegM.latch s.regE s.executeOut

/-- What `regW` samples when nothing holds it. -/
def regWIn : RegW := RegW.latch s.regM (s.memoryMemRdata dpi)

/-! ## One clock edge -/

section Step

/-- The pc after an edge: a stall goes before a redirect. -/
theorem step_pc : (step dpi false s).pc =
    if s.loadUse || s.amoD || s.amoE || s.amoM then s.pc
    else if s.regE.mret then s.regE.csrRdata2
    else if executeBranchNeedJump s.regE then executeBranchNextPc s.regE
    else s.pc + 4#64 := by
  simp only [step, pcNext, ctrlOut, ctrl, executeOut, execute, fetchOut, fetch, loadUse, amoD, amoE,
    amoM, opcodeInfo_amo, Bool.or_self, Bool.false_eq_true, if_false]
  rfl

/-- `regD` after an edge: a bubble goes before a stall. -/
theorem step_regD : (step dpi false s).regD =
    if s.redirect || s.amoD || s.amoE || s.amoM then RegD.nop
    else if s.loadUse then s.regD
    else s.regDIn dpi := by
  simp only [step, RegD.next, ctrlOut, ctrl, executeOut, execute, loadUse, amoD, amoE, amoM,
    redirect, opcodeInfo_amo, regDIn, Bool.false_or]
  split_ifs <;> simp_all

/-- `regE` after an edge. -/
lemma step_regE : (step dpi false s).regE =
    if s.redirect || s.loadUse || s.amoE || s.amoM then RegE.nop
    else s.regEIn dpi := by
  simp only [step, RegE.next, ctrlOut, ctrl, executeOut, execute, loadUse, amoE, amoM, redirect,
    regEIn, Bool.false_or, Bool.not_false, if_true]
  split_ifs <;> simp_all

/-- `regM` after an edge. -/
lemma step_regM : (step dpi false s).regM = if s.amoM then RegM.nop else s.regMIn := by
  simp only [step, RegM.next, ctrlOut, ctrl, amoM, regMIn, Bool.false_or, Bool.false_eq_true,
    if_false]
  rfl

/-- `regW` after an edge. -/
lemma step_regW : (step dpi false s).regW = s.regWIn dpi := by
  simp [step, RegW.next, ctrlOut, ctrl, regWIn]

/-- The memory after an edge. -/
lemma step_mem (rst : Bool) : (step dpi rst s).mem = memNext dpi s.mem (memWriteCall s.regM) :=
  rfl

end Step

/-- A reset edge clears all stages. -/
lemma step_true : step dpi true s =
    { pc := 0x80000000#64, regD := RegD.nop, regE := RegE.nop, regM := RegM.nop,
      regW := RegW.nop,
      regfile := (step dpi true s).regfile, csrfile := (step dpi true s).csrfile,
      mem := (step dpi true s).mem } := by
  simp [step, pcNext, RegD.next, RegE.next, RegM.next, RegW.next]

/-! ## The invariant -/

/-- The inductive invariant of the pipeline. -/
structure Inv (s : TopCpu M) : Prop where
  /-- `regD` is empty or holds what fetch read one word before the current pc. -/
  fetched : s.regD = RegD.nop ∨
    ∃ mem, s.regD = RegD.latch (fetch dpi mem s.regD.pc) ∧ s.pc = s.regD.pc + 4#64
  /-- `regE` holds the control outputs of its instruction. -/
  holdsE : ∃ w, s.regE.Holds w ∧ InFlight s.regE.commitInfo w
  /-- `regM` holds the control outputs of its instruction. -/
  holdsM : ∃ w, s.regM.Holds w ∧ InFlight s.regM.commitInfo w
  /-- `regW` holds the control outputs of its instruction. -/
  holdsW : ∃ w, s.regW.Holds w ∧ InFlight s.regW.commitInfo w
  /-- Behind an atomic instruction in execute decode is empty. -/
  behindAmoE : s.amoE = true → s.regD = RegD.nop
  /-- Behind an atomic instruction in memory decode and execute are empty. -/
  behindAmoM : s.amoM = true → s.regD = RegD.nop ∧ s.regE = RegE.nop
  /-- Behind an atomic instruction in write back all stages are empty. -/
  behindAmoW : bit s.regW.opcodeInfo 13 = true →
    s.regD = RegD.nop ∧ s.regE = RegE.nop ∧ s.regM = RegM.nop
  /-- Behind a jump in memory decode is empty. -/
  behindJumpM : (bit s.regM.opcodeInfo 9 || bit s.regM.opcodeInfo 8) = true → s.regD = RegD.nop

variable {dpi} {s}

namespace Inv

/-! ### Which hazard conditions exclude each other -/

/-- **A redirect comes alone**: while execute requests one, no load in execute holds decode
and no atomic instruction is in execute or memory. -/
theorem of_redirect (h : Inv dpi s) (hr : s.redirect = true) :
    s.loadUse = false ∧ s.amoE = false ∧ s.amoM = false := by
  obtain ⟨w, hw, -⟩ := h.holdsE
  obtain ⟨hl, ha⟩ := not_load_amo_of_redirectClass (hw.of_redirect hr)
  refine ⟨?_, ?_, ?_⟩
  · simp [loadUse, Pipeline.loadUse, hw.opcodeInfo, hl]
  · simp [amoE, hw.opcodeInfo, ha]
  · by_contra hm
    rw [Bool.not_eq_false] at hm
    rw [redirect, (h.behindAmoM hm).2] at hr
    revert hr
    decide

/-- A bubble in execute requests no redirect, holds no load and no atomic instruction. -/
lemma of_regE_bubble (h : Inv dpi s) (hv : s.regE.valid = false) :
    s.redirect = false ∧ s.loadUse = false ∧ s.amoE = false := by
  obtain ⟨w, hw, hf⟩ := h.holdsE
  have hi := (hf.bubble hv).inert
  refine ⟨?_, ?_, ?_⟩
  · by_contra hr
    rw [Bool.not_eq_false] at hr
    have hc := hw.of_redirect hr
    simp [hi.redirect] at hc
  · simp [loadUse, Pipeline.loadUse, hw.opcodeInfo, hi.load]
  · simp [amoE, hw.opcodeInfo, hi.amo]

/-- A bubble in memory holds no atomic instruction. -/
lemma of_regM_bubble (h : Inv dpi s) (hv : s.regM.valid = false) : s.amoM = false := by
  obtain ⟨w, hw, hf⟩ := h.holdsM
  simp [amoM, hw.opcodeInfo, (hf.bubble hv).inert.amo]

/-! ### Preservation -/

/-- A reset edge establishes the invariant. -/
lemma reset (s : TopCpu M) : Inv dpi (step dpi true s) := by
  rw [step_true]
  refine ⟨.inl rfl, ⟨_, RegE.holds_nop, inFlight_zero⟩, ⟨_, RegM.holds_nop, inFlight_zero⟩,
    ⟨_, RegW.holds_nop, inFlight_zero⟩, ?_, ?_, ?_, ?_⟩
  all_goals simp [amoE, amoM, RegE.nop, RegM.nop, RegW.nop]

/-- The word in `regD` belongs to its commit information. -/
lemma inFlightD (h : Inv dpi s) : InFlight s.regD.commitInfo s.regD.instr := by
  obtain hd | ⟨mem, hd, -⟩ := h.fetched
  · simp [hd, RegD.nop, InFlight, Bubble]
  · rw [hd]
    simp [InFlight, RegD.latch, fetch]

/-- A pc that stalls keeps decode, unless decode is cleared; a pc that moves on fills it. -/
lemma fetched_edge (h : Inv dpi s) : (step dpi false s).regD = RegD.nop ∨
    ∃ mem, (step dpi false s).regD = RegD.latch (fetch dpi mem (step dpi false s).regD.pc) ∧
      (step dpi false s).pc = (step dpi false s).regD.pc + 4#64 := by
  rw [step_regD, step_pc]
  by_cases hb : (s.redirect || s.amoD || s.amoE || s.amoM) = true
  · left
    rw [if_pos hb]
  · simp only [Bool.not_eq_true, Bool.or_eq_false_iff, redirect] at hb
    obtain ⟨⟨⟨⟨hj, hm⟩, hd⟩, he⟩, ha⟩ := hb
    by_cases hl : s.loadUse = true
    · simpa [redirect, hj, hm, hd, he, ha, hl] using h.fetched
    · right
      exact ⟨s.mem, by simp [redirect, hj, hm, hd, he, ha, hl, regDIn, RegD.latch, fetchOut, fetch],
        by simp [redirect, hj, hm, hd, he, ha, hl, regDIn, RegD.latch, fetchOut, fetch]⟩

/-- `regE` is cleared or samples the word in decode. -/
lemma holdsE_edge (h : Inv dpi s) : ∃ w, (step dpi false s).regE.Holds w ∧
    InFlight (step dpi false s).regE.commitInfo w := by
  rw [step_regE]
  split_ifs
  · exact ⟨_, RegE.holds_nop, inFlight_zero⟩
  · exact ⟨_, RegE.holds_latch .., h.inFlightD⟩

/-- Execute corrects the next pc in the commit information and nothing else. -/
private lemma inFlight_executeCommitInfo {e : RegE} {w : BitVec 32} (h : InFlight e.commitInfo w) :
    InFlight (executeCommitInfo e) w := by
  unfold executeCommitInfo
  split_ifs <;> simpa [InFlight] using h

/-- `regM` is cleared or samples the instruction in execute. -/
lemma holdsM_edge (h : Inv dpi s) : ∃ w, (step dpi false s).regM.Holds w ∧
    InFlight (step dpi false s).regM.commitInfo w := by
  rw [step_regM]
  split_ifs
  · exact ⟨_, RegM.holds_nop, inFlight_zero⟩
  · obtain ⟨w, hw, hf⟩ := h.holdsE
    exact ⟨w, RegM.holds_latch hw _, inFlight_executeCommitInfo hf⟩

/-- `regW` samples the instruction in memory. -/
lemma holdsW_edge (h : Inv dpi s) : ∃ w, (step dpi false s).regW.Holds w ∧
    InFlight (step dpi false s).regW.commitInfo w := by
  rw [step_regW]
  obtain ⟨w, hw, hf⟩ := h.holdsM
  exact ⟨w, RegW.holds_latch hw _, hf⟩

/-- An atomic instruction that enters execute clears decode behind it. -/
private lemma behindAmoE_edge (ha : (step dpi false s).amoE = true) :
    (step dpi false s).regD = RegD.nop := by
  have hd : s.amoD = true := by
    rw [amoE, step_regE] at ha
    split_ifs at ha
    · simp [RegE.nop] at ha
    · simpa [amoD, regEIn, RegE.latch, decodeOut, decode] using ha
  simp [step_regD, hd]

/-- An atomic instruction that enters memory clears decode and execute behind it. -/
lemma behindAmoM_edge (ha : (step dpi false s).amoM = true) :
    (step dpi false s).regD = RegD.nop ∧ (step dpi false s).regE = RegE.nop := by
  have he : s.amoE = true := by
    rw [amoM, step_regM] at ha
    split_ifs at ha
    · simp [RegM.nop] at ha
    · simpa [amoE, regMIn, RegM.latch] using ha
  simp [step_regD, step_regE, he]

/-- An atomic instruction that enters write back clears all stages behind it. -/
private lemma behindAmoW_edge (ha : bit (step dpi false s).regW.opcodeInfo 13 = true) :
    (step dpi false s).regD = RegD.nop ∧ (step dpi false s).regE = RegE.nop ∧
      (step dpi false s).regM = RegM.nop := by
  have hm : s.amoM = true := by
    rw [step_regW] at ha
    simpa [amoM, regWIn, RegW.latch] using ha
  simp [step_regD, step_regE, step_regM, hm]

/-- A jump that enters memory has redirected and cleared decode. -/
private lemma behindJumpM_edge (hj : (bit (step dpi false s).regM.opcodeInfo 9 ||
    bit (step dpi false s).regM.opcodeInfo 8) = true) : (step dpi false s).regD = RegD.nop := by
  have hr : s.redirect = true := by
    rw [step_regM] at hj
    split_ifs at hj
    · simp [RegM.nop] at hj
    · have he : (s.regE.opJal || s.regE.opJalr) = true := hj
      simp [redirect, executeBranchNeedJump, he]
  simp [step_regD, hr]

/-- A clock edge preserves the invariant. -/
lemma edge (h : Inv dpi s) : Inv dpi (step dpi false s) :=
  ⟨h.fetched_edge, h.holdsE_edge, h.holdsM_edge, h.holdsW_edge, behindAmoE_edge,
    behindAmoM_edge, behindAmoW_edge, behindJumpM_edge⟩

end Inv

/-- **The invariant holds in every reachable state.** -/
theorem Reachable.inv (h : Reachable dpi s) : Inv dpi s := by
  refine Clocked.Reachable.invariant ?_ ?_ h
  · rintro - ⟨s₀, rfl⟩
    exact Inv.reset s₀
  · intro rst s _ hs
    cases rst with
    | false => exact hs.edge
    | true => exact Inv.reset s

end TopCpu

end Riscv64Cpu.Pipeline
