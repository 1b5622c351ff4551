import Riscv64Cpu.Pipeline.Drain
import Riscv64Cpu.Pipeline.Hazards

set_option relaxedAutoImplicit false
set_option autoImplicit false

/-!
# Atomic instructions and bubbles

Two consequences of the invariant of the pipeline: what is behind an atomic instruction, and what a
stage without an instruction can do.

## Main definitions

* `Pipeline.TopCpu.AmoAlone` — the stages behind an atomic instruction are empty.
* `Pipeline.Idle` — control outputs that write nothing, hold nothing back and forward nothing.
* `Pipeline.TopCpu.BubblesInert` — stages without an instruction are idle.
* `Pipeline.TopCpu.CausedByInstructions` — writes, stalls, bubbles and redirects come from
  instructions.

## Main results

* `Pipeline.TopCpu.amoAlone` — an atomic instruction is alone in the pipeline behind it.
* `Pipeline.TopCpu.bubbles_inert` — bubbles have no effect.

## Design

A bubble is a stage whose commit bit is `0`.  The multiplexers of decode have no input for the
result of an atomic instruction, and `regM_bubble` overwrites whatever `regE` holds; both are right
because nothing is there.  The timer counts clocks, not instructions.
-/

namespace Riscv64Cpu.Pipeline

open Verilog (bit)

namespace TopCpu

variable {M : Type} {dpi : Dpi M} {s : TopCpu M}

/-! ## Atomic instructions -/

/-- An atomic instruction is in write back. -/
def amoW (s : TopCpu M) : Bool := bit s.regW.opcodeInfo 13

/-- Behind an atomic instruction there are bubbles only, so there is no second one, and no
instruction in decode that could need its result. -/
structure AmoAlone (s : TopCpu M) : Prop where
  execute : s.amoE = true → s.regD = RegD.nop
  memory : s.amoM = true → s.regD = RegD.nop ∧ s.regE = RegE.nop
  writeBack : s.amoW = true → s.regD = RegD.nop ∧ s.regE = RegE.nop ∧ s.regM = RegM.nop
  atMostOne : ¬(s.amoE = true ∧ s.amoM = true) ∧ ¬(s.amoE = true ∧ s.amoW = true) ∧
    ¬(s.amoM = true ∧ s.amoW = true)
  notForwarded : s.amoE = true ∨ s.amoM = true ∨ s.amoW = true → s.regD.valid = false

/-- A cleared `regE` holds no atomic instruction. -/
lemma amoE_of_nop (h : s.regE = RegE.nop) : s.amoE = false := by
  rw [amoE, h]
  decide

/-- A cleared `regM` holds no atomic instruction. -/
private lemma amoM_of_nop (h : s.regM = RegM.nop) : s.amoM = false := by
  rw [amoM, h]
  decide

/-- **An atomic instruction is alone in the pipeline behind it.**

**Proof sketch.** The three clauses on bubbles are part of the invariant: an atomic instruction
clears `regD` when it leaves decode, and all that is behind it at each of the next two edges,
whatever a load or a redirect asks for at the same time. -/
theorem amoAlone (h : Reachable dpi s) : AmoAlone s := by
  obtain ⟨-, -, -, -, hE, hM, hW, -⟩ := h.inv
  refine ⟨hE, hM, hW, ⟨?_, ?_, ?_⟩, ?_⟩
  · rintro ⟨he, hm⟩
    exact absurd he (by rw [amoE_of_nop (hM hm).2]; decide)
  · rintro ⟨he, hw⟩
    exact absurd he (by rw [amoE_of_nop (hW hw).2.1]; decide)
  · rintro ⟨hm, hw⟩
    exact absurd hm (by rw [amoM_of_nop (hW hw).2.2]; decide)
  · rintro (he | hm | hw)
    · rw [hE he]
      exact RegD.valid_nop
    · rw [(hM hm).1]
      exact RegD.valid_nop
    · rw [(hW hw).1]
      exact RegD.valid_nop

/-- `amoswap.w x7, x8, (x5)` in execute, with the instruction behind it held back. -/
theorem amoAlone_execute :
    (run Memory.dpi 2 (Memory.boot [0x0882A3AF#32, 0x00138393#32])).amoE = true ∧
      AmoAlone (run Memory.dpi 2 (Memory.boot [0x0882A3AF#32, 0x00138393#32])) :=
  ⟨by decide +kernel, amoAlone ((reachable_afterReset Memory.dpi ..).run 2)⟩

end TopCpu

/-! ## Idle stages -/

/-- The control outputs of a stage that writes no register but `x0`, no CSR and no memory for an
atomic instruction, is no load or atomic instruction to `ctrl`, and forwards nothing. -/
structure Idle (opcodeInfo : BitVec 14) (amoInfo : BitVec 20) (csrWen : Bool) (regRd : BitVec 5)
    (regWen : Bool) : Prop where
  register : ¬(regWen = true ∧ regRd ≠ 0#5)
  csr : csrWen = false
  amoWrite : amoInfo = 0#20
  load : bit opcodeInfo 3 = false
  amo : bit opcodeInfo 13 = false
  forward : ∀ rs, matchRs regRd regWen rs = false

/-- The control outputs of an inert word are idle. -/
lemma Inert.idle {w : BitVec 32} (h : Inert w) : Idle (decodeOpcodeInfo w) (decodeAmoInfo w)
    (decodeCsrWen w) (rd w) (decodeRegWen w) where
  register hw := hw.2 h.regRd
  csr := h.csrWen
  amoWrite := h.amoInfo
  load := by rw [opcodeInfo_load, h.load]
  amo := by rw [opcodeInfo_amo, h.amo]
  forward rs := by
    rw [h.regRd, matchRs]
    rfl

namespace TopCpu

variable {M : Type} {dpi : Dpi M} {s : TopCpu M}

/-- The stages whose commit bit is `0` have no effect: they are idle, `regE` requests no redirect
and `regM` does not write to memory. -/
structure BubblesInert (s : TopCpu M) : Prop where
  execute : s.regE.valid = false →
    Idle s.regE.opcodeInfo s.regE.amoInfo s.regE.csrWen s.regE.regRd s.regE.regWen ∧
      s.regE.loadStoreInfo = 0#11 ∧ s.executeOut.branchNeedJump = false ∧
      s.executeOut.mretNeedJump = false
  memory : s.regM.valid = false →
    Idle s.regM.opcodeInfo s.regM.amoInfo s.regM.csrWen s.regM.regRd s.regM.regWen ∧
      memWriteCall s.regM = none
  writeBack : s.regW.valid = false →
    Idle s.regW.opcodeInfo s.regW.amoInfo s.writeBackOut.csrWen s.writeBackOut.regRd
      s.writeBackOut.regWen

/-- **Stages without an instruction are idle**: the word whose control outputs they hold is inert,
in both shapes that a bubble has. -/
theorem Inv.bubblesInert (h : Inv dpi s) : BubblesInert s := by
  refine ⟨fun hv => ?_, fun hv => ?_, fun hv => ?_⟩
  · obtain ⟨w, hw, hf⟩ := h.holdsE
    have hi := (hf.bubble hv).inert
    have hr := (h.of_regE_bubble hv).1
    rw [redirect, Bool.or_eq_false_iff] at hr
    rw [hw.opcodeInfo, hw.amoInfo, hw.csrWen, hw.regRd, hw.regWen, hw.loadStoreInfo]
    exact ⟨hi.idle, hi.loadStoreInfo, hr.1, hr.2⟩
  · obtain ⟨w, hw, hf⟩ := h.holdsM
    have hi := (hf.bubble hv).inert
    rw [hw.opcodeInfo, hw.amoInfo, hw.csrWen, hw.regRd, hw.regWen]
    exact ⟨hi.idle, hw.memWriteCall_of_inert hi⟩
  · obtain ⟨w, hw, hf⟩ := h.holdsW
    have hi := (hf.bubble hv).inert
    show Idle s.regW.opcodeInfo s.regW.amoInfo s.regW.csrWen s.regW.regRd s.regW.regWen
    rw [hw.opcodeInfo, hw.amoInfo, hw.csrWen, hw.regRd, hw.regWen]
    exact hi.idle

/-- Every change of a register, of a CSR other than the timer and of the memory, every line of
`ctrl` and every redirect comes from an instruction: a stage whose commit bit is `1`. -/
structure CausedByInstructions (dpi : Dpi M) (s : TopCpu M) : Prop where
  register : ∀ r, (step dpi false s).regfile.reg r ≠ s.regfile.reg r →
    s.regW.valid = true ∧ Clocked.Hits s.regW.regWrite r
  csr : ∀ id, id ≠ Csr.timer → (step dpi false s).csrfile.csr id ≠ s.csrfile.csr id →
    s.regW.valid = true ∧ Clocked.Hits s.regW.csrWrite id
  mem : ∀ rst, (step dpi rst s).mem ≠ s.mem →
    s.regM.valid = true ∧ memWriteCall s.regM ≠ none
  redirect : s.redirect = true → s.regE.valid = true
  fetchStall : s.ctrlOut.regFStall = true → (s.regE.valid = true ∧ s.loadUse = true) ∨
    (s.regD.valid = true ∧ s.amoD = true) ∨ (s.regE.valid = true ∧ s.amoE = true) ∨
    (s.regM.valid = true ∧ s.amoM = true)
  decodeStall : s.ctrlOut.regDStall = true → s.regE.valid = true ∧ s.loadUse = true
  decodeBubble : s.ctrlOut.regDBubble = true → (s.regE.valid = true ∧ s.redirect = true) ∨
    (s.regD.valid = true ∧ s.amoD = true) ∨ (s.regE.valid = true ∧ s.amoE = true) ∨
    (s.regM.valid = true ∧ s.amoM = true)
  executeBubble : s.ctrlOut.regEBubble = true → (s.regE.valid = true ∧ s.redirect = true) ∨
    (s.regE.valid = true ∧ s.loadUse = true) ∨ (s.regE.valid = true ∧ s.amoE = true) ∨
    (s.regM.valid = true ∧ s.amoM = true)
  memoryBubble : s.ctrlOut.regMBubble = true → s.regM.valid = true ∧ s.amoM = true
  noOther : (s.ctrlOut.regEStall || s.ctrlOut.regMStall || s.ctrlOut.regWStall ||
    s.ctrlOut.regFBubble || s.ctrlOut.regWBubble) = false

/-- The lines of `ctrl`, in terms of the hazard conditions. -/
private lemma ctrlOut_eq (s : TopCpu M) : s.ctrlOut =
    { regFBubble := false
      regDBubble := s.redirect || s.amoD || s.amoE || s.amoM
      regEBubble := s.redirect || s.loadUse || s.amoE || s.amoM
      regMBubble := s.amoM
      regWBubble := false
      regFStall := s.loadUse || s.amoD || s.amoE || s.amoM
      regDStall := s.loadUse
      regEStall := false
      regMStall := false
      regWStall := false } := by
  have hd : bit (decodeOpcodeInfo s.regD.instr) 13 = s.amoD := opcodeInfo_amo _
  rw [ctrlOut, ctrl, hd,
    Bool.or_right_comm s.executeOut.branchNeedJump _ s.executeOut.mretNeedJump]
  rfl

/-- A hazard condition comes from an instruction. -/
lemma Inv.valid_of_hazard (h : Inv dpi s) :
    (s.redirect = true → s.regE.valid = true) ∧ (s.loadUse = true → s.regE.valid = true) ∧
      (s.amoD = true → s.regD.valid = true) ∧ (s.amoE = true → s.regE.valid = true) ∧
      (s.amoM = true → s.regM.valid = true) := by
  have hcontra : ∀ c v : Bool, (v = false → c = false) → c = true → v = true := by decide
  refine ⟨hcontra _ _ fun hv => ?_, hcontra _ _ fun hv => ?_, regD_valid_of_amoD h,
    hcontra _ _ fun hv => ?_, hcontra _ _ fun hv => ?_⟩
  · exact (h.of_regE_bubble hv).1
  · exact (h.of_regE_bubble hv).2.1
  · exact (h.of_regE_bubble hv).2.2
  · exact h.of_regM_bubble hv

/-- A line that four conditions share. -/
lemma caused_of_or {a b c d p q r t : Bool} (ha : a = true → p = true) (hb : b = true → q = true)
    (hc : c = true → r = true) (hd : d = true → t = true) (h : (a || b || c || d) = true) :
    (p = true ∧ a = true) ∨ (q = true ∧ b = true) ∨ (r = true ∧ c = true) ∨
      (t = true ∧ d = true) := by
  simp only [Bool.or_eq_true] at h
  rcases h with ((h | h) | h) | h
  · exact Or.inl ⟨ha h, h⟩
  · exact Or.inr (Or.inl ⟨hb h, h⟩)
  · exact Or.inr (Or.inr (Or.inl ⟨hc h, h⟩))
  · exact Or.inr (Or.inr (Or.inr ⟨hd h, h⟩))

/-- **Every effect comes from an instruction.**

**Proof sketch.** What changes is what a write port is offered, and a bubble offers nothing to any.
The lines of `ctrl` are disjunctions of the hazard conditions, none of which a bubble meets. -/
theorem Inv.causedByInstructions (h : Inv dpi s) : CausedByInstructions dpi s := by
  obtain ⟨hr, hl, hd, he, hm⟩ := h.valid_of_hazard
  obtain ⟨w, hw, hf⟩ := h.holdsW
  constructor
  case register =>
    intro r hne
    have hhits : Clocked.Hits s.regW.regWrite r := by
      by_contra hmiss
      rw [step_regfile_reg] at hne
      exact hne (Clocked.applyWrite_miss _ hmiss)
    refine ⟨?_, hhits⟩
    by_contra hv
    rw [regWrite_of_regW_bubble h (Bool.eq_false_iff.mpr hv)] at hhits
    exact Clocked.not_hits_none r hhits
  case csr =>
    intro id hid hne
    have hhits : Clocked.Hits s.regW.csrWrite id := by
      by_contra hmiss
      exact hne ((s.csrfile.next_csr s.regW hid).trans (Clocked.applyWrite_miss _ hmiss))
    refine ⟨?_, hhits⟩
    by_contra hv
    rw [hw.csrWrite_of_inert (hf.bubble (Bool.eq_false_iff.mpr hv)).inert] at hhits
    exact Clocked.not_hits_none id hhits
  case mem =>
    intro rst hne
    have hcall : memWriteCall s.regM ≠ none := by
      intro hnone
      rw [step_mem, hnone] at hne
      exact hne rfl
    refine ⟨?_, hcall⟩
    by_contra hv
    exact hcall (writes_of_regM_bubble h (Bool.eq_false_iff.mpr hv)).1
  case redirect => exact hr
  all_goals rw [ctrlOut_eq]
  case fetchStall => exact caused_of_or hl hd he hm
  case decodeStall =>
    intro hc
    exact ⟨hl hc, hc⟩
  case decodeBubble => exact caused_of_or hr hd he hm
  case executeBubble => exact caused_of_or hr hl he hm
  case memoryBubble =>
    intro hc
    exact ⟨hm hc, hc⟩
  case noOther => rfl

/-- **Bubbles are inert** in every reachable state: a stage whose commit bit is `0` has no effect,
so every effect is that of an instruction. -/
theorem bubbles_inert (h : Reachable dpi s) : BubblesInert s ∧ CausedByInstructions dpi s :=
  ⟨h.inv.bubblesInert, h.inv.causedByInstructions⟩

/-- `jal x0, 16` in execute, behind a bubble that came through decode and a cleared stage. -/
theorem bubbles_inert_jump :
    BubblesInert (run Memory.dpi 2 (Memory.boot [0x0100006F#32, nopInstr])) ∧
      CausedByInstructions Memory.dpi (run Memory.dpi 2 (Memory.boot [0x0100006F#32, nopInstr])) :=
  bubbles_inert ((reachable_afterReset Memory.dpi ..).run 2)

end TopCpu

end Riscv64Cpu.Pipeline
