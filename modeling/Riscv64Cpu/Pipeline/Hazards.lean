import Riscv64Cpu.Pipeline.Invariant
import Riscv64Cpu.Memory.Pmem

set_option relaxedAutoImplicit false
set_option autoImplicit false

/-!
# Redirects and stalls

What a clock edge does with a redirect and with the instructions in flight, for every state a
run can reach.

## Main definitions

* `Pipeline.TopCpu.RedirectLaw` — the next pc is the target of the redirect.
* `Pipeline.TopCpu.FlowLaw` — every instruction moves on, waits, or is discarded by a
  redirect.

## Main results

* `Pipeline.TopCpu.redirectLaw_iff` — a redirect is followed exactly when no atomic
  instruction in its shadow holds the pc.
* `Pipeline.TopCpu.flowLaw_iff` — no instruction is lost or duplicated exactly when no atomic
  instruction in decode waits for a load.

## Design

`inst_amo_decode` comes from the instruction in `regD` even while a redirect discards it, and
`pc.v` tests the stall before the redirect.  `regD.v` tests the bubble before the stall, so an
atomic instruction that `load_use` holds back is overwritten by the bubble it asks for itself.
-/

namespace Riscv64Cpu.Pipeline

namespace TopCpu

variable {M : Type} {dpi : Dpi M} {s : TopCpu M}

/-! ## Redirects -/

/-- A requested redirect determines the pc after the next edge. -/
structure RedirectLaw (dpi : Dpi M) (s : TopCpu M) : Prop where
  branch : s.executeOut.branchNeedJump = true →
    (step dpi false s).pc = s.executeOut.branchNextPc
  mret : s.executeOut.mretNeedJump = true → (step dpi false s).pc = s.executeOut.mretNextPc

/-- The target of the requested redirect. -/
def redirectTarget (s : TopCpu M) : BitVec 64 :=
  if s.regE.mret then s.regE.csrRdata2 else executeBranchNextPc s.regE

/-- The pc after an edge with a redirect: an atomic instruction in decode holds it. -/
lemma step_pc_of_redirect (h : Inv dpi s) (hr : s.redirect = true) :
    (step dpi false s).pc = if s.amoD then s.pc else s.redirectTarget := by
  obtain ⟨hl, he, hm⟩ := h.of_redirect hr
  rw [step_pc, hl, he, hm, Bool.false_or, Bool.or_false, Bool.or_false]
  split_ifs with ha hmr hb
  · rfl
  · simp [redirectTarget, hmr]
  · simp [redirectTarget, hmr]
  · simp [redirect, hmr, hb] at hr

/-- The redirect law in terms of the common target. -/
private lemma redirectLaw_iff_target (h : Inv dpi s) :
    RedirectLaw dpi s ↔ (s.redirect = true → (step dpi false s).pc = s.redirectTarget) := by
  constructor
  · rintro ⟨hb, hm⟩ hr
    by_cases hmr : s.regE.mret = true
    · simpa [redirectTarget, hmr] using hm hmr
    · have hbr : executeBranchNeedJump s.regE = true := by simpa [redirect, hmr] using hr
      simpa [redirectTarget, hmr] using hb hbr
  · intro hr
    constructor
    · intro hb
      have hbr : executeBranchNeedJump s.regE = true := hb
      have hmr : s.regE.mret = false := by
        by_contra hmr
        rw [Bool.not_eq_false] at hmr
        obtain ⟨w, hw, -⟩ := h.holdsE
        simp [hw.not_branchNeedJump_of_mret hmr] at hbr
      simpa [redirectTarget, hmr] using hr (by simp [redirect, hbr])
    · intro hm
      have hmr : s.regE.mret = true := hm
      simpa [redirectTarget, hmr] using hr (by simp [redirect, hmr])

/-- **When a redirect is followed**: in every reachable state the requested redirect determines
the next pc if and only if no atomic instruction sits in decode, or the pc it holds is the
target already.

**Proof sketch.** While a redirect is requested only decode can stall the pc
(`Inv.of_redirect`), so the next pc is the held pc or the target (`step_pc_of_redirect`). -/
theorem redirectLaw_iff (h : Reachable dpi s) :
    RedirectLaw dpi s ↔ (s.redirect = true → s.amoD = true → s.pc = s.redirectTarget) := by
  rw [redirectLaw_iff_target h.inv]
  refine forall_congr' fun hr => ?_
  rw [step_pc_of_redirect h.inv hr]
  split_ifs with ha <;> simp [ha]

/-- Over a nop in its shadow the redirect of `jal x0, 16` is followed. -/
theorem redirect_followed :
    RedirectLaw Memory.dpi (run Memory.dpi 2 (Memory.boot [0x0100006F#32, nopInstr])) :=
  (redirectLaw_iff ((reachable_afterReset ..).run 2)).mpr (by decide +kernel)

/-- `jal x0, 16` with `amoswap.w x7, x8, (x5)` in its shadow. -/
def jumpOverAmo : List (BitVec 32) := [0x0100006F#32, 0x0882A3AF#32]

/-- Two edges after reset the jump executes, the atomic instruction is in decode, and the
target of the jump is lost. -/
theorem redirect_lost : ¬ ∀ (M : Type) (dpi : Dpi M) (s : TopCpu M), Reachable dpi s →
    RedirectLaw dpi s := by
  intro h
  have hs := h _ Memory.dpi (run Memory.dpi 2 (Memory.boot jumpOverAmo))
    ((reachable_afterReset ..).run 2)
  have hpc := hs.branch (by decide +kernel)
  revert hpc
  decide +kernel

/-! ## The flow of instructions -/

/-- The instruction in decode enters execute at the next edge. -/
def EntersE (dpi : Dpi M) (s : TopCpu M) : Prop := (step dpi false s).regE = s.regEIn dpi

instance : Decidable (EntersE dpi s) := inferInstanceAs (Decidable (_ = _))

/-- The instruction in decode waits for the edge after the next one. -/
def WaitsD (dpi : Dpi M) (s : TopCpu M) : Prop := (step dpi false s).regD = s.regD

/-- The word at the pc enters decode at the next edge. -/
def EntersD (dpi : Dpi M) (s : TopCpu M) : Prop := (step dpi false s).regD = s.regDIn dpi

/-- Where the instructions in flight and the fetched word are after the next edge. -/
structure FlowLaw (dpi : Dpi M) (s : TopCpu M) : Prop where
  /-- A valid instruction in decode enters execute or waits, and not both. -/
  decode : s.redirect = false → s.regD.valid = true →
    (EntersE dpi s ∧ ¬ WaitsD dpi s) ∨ (¬ EntersE dpi s ∧ WaitsD dpi s)
  /-- The fetched word enters decode and the pc moves on, or neither. -/
  fetch : s.redirect = false →
    (EntersD dpi s ∧ (step dpi false s).pc = s.pc + 4#64) ∨
      (¬ EntersD dpi s ∧ (step dpi false s).pc = s.pc)
  /-- A redirect discards the instruction in decode and the fetched word. -/
  discard : s.redirect = true →
    (step dpi false s).regE = RegE.nop ∧ (step dpi false s).regD = RegD.nop
  /-- A valid instruction in execute moves on. -/
  execute : s.regE.valid = true → (step dpi false s).regM = s.regMIn
  /-- A valid instruction in memory moves on. -/
  memory : s.regM.valid = true → (step dpi false s).regW = s.regWIn dpi

/-- What fetch delivers is valid. -/
lemma regDIn_valid : (s.regDIn dpi).valid = true := by
  simp [regDIn, RegD.latch, RegD.valid, fetchOut, Pipeline.fetch]

/-- Only valid instructions are fetched, so a bubble is not. -/
lemma nop_ne_regDIn : RegD.nop ≠ s.regDIn dpi := by
  intro h
  have hv : (s.regDIn dpi).valid = true := regDIn_valid
  rw [← h] at hv
  simp [RegD.valid, RegD.nop] at hv

/-- A bubble is not valid. -/
lemma regD_ne_nop (hv : s.regD.valid = true) : s.regD ≠ RegD.nop := by
  intro hd
  simp [hd, RegD.valid, RegD.nop] at hv

/-- The word in decode is not the one at the pc. -/
lemma regD_ne_regDIn (h : Inv dpi s) : s.regD ≠ s.regDIn dpi := by
  intro hd
  obtain hn | ⟨-, -, hpc⟩ := h.fetched
  · exact nop_ne_regDIn (hn.symm.trans hd)
  · have hdpc : s.regD.pc = s.pc := by rw [hd]; rfl
    rw [hdpc] at hpc
    exact absurd hpc (by bv_omega)

/-- A valid instruction that is not handed on is not in `regE`. -/
lemma nop_ne_regEIn (hv : s.regD.valid = true) : RegE.nop ≠ s.regEIn dpi := by
  intro he
  have hv' : (s.regEIn dpi).valid = true := hv
  rw [← he] at hv'
  simp [RegE.valid, RegE.nop] at hv'

/-- Behind a valid instruction in decode there is no atomic instruction in execute or memory. -/
lemma not_amo_of_regD_valid (h : Inv dpi s) (hv : s.regD.valid = true) :
    s.amoE = false ∧ s.amoM = false := by
  constructor <;> by_contra ha <;> rw [Bool.not_eq_false] at ha
  · exact regD_ne_nop hv (h.behindAmoE ha)
  · exact regD_ne_nop hv (h.behindAmoM ha).1

/-- An atomic instruction in decode is valid. -/
lemma regD_valid_of_amoD (h : Inv dpi s) (ha : s.amoD = true) : s.regD.valid = true := by
  obtain hd | ⟨mem, hd, -⟩ := h.fetched
  · rw [amoD, hd] at ha
    exact absurd ha (by decide)
  · rw [hd]
    simp [RegD.latch, RegD.valid, Pipeline.fetch]

/-- The flow through decode: an instruction enters execute, waits for a load, or is an atomic
instruction that waits for a load and is lost. -/
lemma decode_flow (h : Inv dpi s) (hr : s.redirect = false) (hv : s.regD.valid = true) :
    (EntersE dpi s ∧ ¬ WaitsD dpi s) ∨ (¬ EntersE dpi s ∧ WaitsD dpi s) ↔
      ¬ (s.loadUse = true ∧ s.amoD = true) := by
  obtain ⟨he, hm⟩ := not_amo_of_regD_valid h hv
  have hne : (step dpi false s).regD = s.regD ↔ s.loadUse = true ∧ s.amoD = false := by
    rw [step_regD, hr, he, hm]
    cases hl : s.loadUse <;> cases ha : s.amoD
    · simpa using (regD_ne_regDIn h).symm
    · simpa using (regD_ne_nop hv).symm
    · simp
    · simpa using (regD_ne_nop hv).symm
  have hee : (step dpi false s).regE = s.regEIn dpi ↔ s.loadUse = false := by
    rw [step_regE, hr, he, hm]
    cases hl : s.loadUse
    · simp
    · simpa using nop_ne_regEIn hv
  rw [EntersE, WaitsD, hne, hee]
  cases s.loadUse <;> cases s.amoD <;> decide

/-- The flow out of fetch: every stall holds the pc and keeps the word out of decode. -/
private lemma fetch_flow (h : Inv dpi s) (hr : s.redirect = false) :
    (EntersD dpi s ∧ (step dpi false s).pc = s.pc + 4#64) ∨
      (¬ EntersD dpi s ∧ (step dpi false s).pc = s.pc) := by
  have hr' := hr
  simp only [redirect, Bool.or_eq_false_iff] at hr'
  rw [EntersD, step_regD, step_pc, hr, hr'.1, hr'.2]
  by_cases hs : (s.amoD || s.amoE || s.amoM) = true
  · right
    simp only [Bool.or_assoc] at hs
    simp [Bool.or_assoc, hs, nop_ne_regDIn]
  · simp only [Bool.not_eq_true, Bool.or_eq_false_iff] at hs
    obtain ⟨⟨hd, he⟩, hm⟩ := hs
    cases hl : s.loadUse
    · left
      simp [hd, he, hm]
    · right
      simp [hd, he, hm, regD_ne_regDIn h]

/-- **When no instruction is lost or duplicated**: in every reachable state, if and only if
decode does not hold an atomic instruction that waits for a load.

**Proof sketch.** The clauses on fetch, execute and memory hold in every state that satisfies
the invariant, and those on decode hold up to the one case of `decode_flow`, in which no
redirect is requested (`Inv.of_redirect`) and the atomic instruction is valid. -/
theorem flowLaw_iff (h : Reachable dpi s) :
    FlowLaw dpi s ↔ ¬ (s.loadUse = true ∧ s.amoD = true) := by
  constructor
  · intro hf hla
    have hr : s.redirect = false := by
      by_contra hr
      rw [Bool.not_eq_false] at hr
      simp [(h.inv.of_redirect hr).1] at hla
    have hv := regD_valid_of_amoD h.inv hla.2
    exact (decode_flow h.inv hr hv).mp (hf.decode hr hv) hla
  · intro hla
    refine ⟨fun hr hv => (decode_flow h.inv hr hv).mpr hla, fun hr => fetch_flow h.inv hr, ?_, ?_,
      fun _ => step_regW dpi s⟩
    · intro hr
      simp [step_regE, step_regD, hr]
    · intro hv
      have hm : s.amoM = false := by
        by_contra hm
        rw [Bool.not_eq_false] at hm
        simp [(h.inv.behindAmoM hm).2, RegE.valid, RegE.nop] at hv
      simp [step_regM, hm]

/-- A load of one register and an atomic instruction that needs another one pass. -/
theorem flow_behind_load :
    FlowLaw Memory.dpi (run Memory.dpi 2 (Memory.boot [0x00032483#32, 0x0882A3AF#32])) :=
  (flowLaw_iff ((reachable_afterReset ..).run 2)).mpr (by decide +kernel)

/-- `lw x5, 0(x6)` and `amoswap.w x7, x8, (x5)`. -/
def amoAfterLoad : List (BitVec 32) := [0x00032283#32, 0x0882A3AF#32]

/-- Two edges after reset the load is in execute and the atomic instruction in decode; the
next edge puts the atomic instruction nowhere. -/
theorem amo_lost : ¬ ∀ (M : Type) (dpi : Dpi M) (s : TopCpu M), Reachable dpi s →
    FlowLaw dpi s := by
  intro h
  have hs := h _ Memory.dpi (run Memory.dpi 2 (Memory.boot amoAfterLoad))
    ((reachable_afterReset ..).run 2)
  have hd := hs.decode (by decide +kernel) (by decide +kernel)
  rw [WaitsD] at hd
  revert hd
  decide +kernel

end TopCpu

end Riscv64Cpu.Pipeline
