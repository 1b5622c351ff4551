import Riscv64Cpu.Memory.Pmem
import Riscv64Cpu.ReadyValid.TopCpu

set_option relaxedAutoImplicit false
set_option autoImplicit false

/-!
# Valid flags and payloads

The valid flag of a stage is the commit bit of its payload, and a stage that is not valid holds
the nop.  `regM` takes its flag over even when a bubble keeps the payload out; that never
happens with a valid input, because behind an atomic instruction in memory execute is empty.

## Main definitions

* `ReadyValid.TopCpu.Inv` — the invariant.
* `ReadyValid.TopCpu.Delivered` — where the valid payloads after an edge come from.
* `ReadyValid.TopCpu.Passes` — the stay of one payload in `regD`.
* `ReadyValid.TopCpu.ValidTravels` — what is claimed of a cycle of a run.

## Main results

* `ReadyValid.TopCpu.step_regD`, … — one clock edge, register by register.
* `ReadyValid.TopCpu.Inv.edge` — the invariant is kept by every edge.
* `ReadyValid.TopCpu.validTravels` — flags and payloads travel together in every run.
-/

namespace Riscv64Cpu.ReadyValid

open Clocked Pipeline
open Verilog (bit)

namespace TopCpu

variable {M : Type} {dpi : Dpi M} {s : TopCpu M}

/-! ## The handshake -/

/-- Write back always lets memory in. -/
@[simp] lemma regWAllowin_eq : s.regWAllowin = true := Stage.allowin_true _

/-- Memory always lets execute in. -/
@[simp] lemma regMAllowin_eq : s.regMAllowin = true := by
  rw [regMAllowin, regWAllowin_eq, Stage.allowin_true]

/-- Execute always lets decode in. -/
@[simp] lemma regEAllowin_eq : s.regEAllowin = true := by
  rw [regEAllowin, regMAllowin_eq, Stage.allowin_true]

/-- `regD` keeps the next word out while a load in execute holds its own. -/
lemma regDAllowin_eq : s.regDAllowin = (!s.regD.valid || !s.core.loadUse) := by
  rw [regDAllowin, regEAllowin_eq, Stage.allowin, Bool.and_true]
  rfl

/-- `regD` hands its word on unless a load in execute holds it. -/
lemma regDOValid_eq : s.regDOValid = (s.regD.valid && !s.core.loadUse) := rfl

/-- The stall of fetch. -/
lemma regFStall_eq : s.core.ctrlOut.regFStall =
    (s.core.loadUse || s.core.amoD || s.core.amoE || s.core.amoM) := by
  simp only [Pipeline.TopCpu.ctrlOut, ctrl, Pipeline.TopCpu.loadUse, Pipeline.TopCpu.amoD,
    Pipeline.TopCpu.amoE, Pipeline.TopCpu.amoM, opcodeInfo_amo]

/-- The bubble of `regD`. -/
lemma regDBubble_eq : s.core.ctrlOut.regDBubble =
    (s.core.redirect || s.core.amoD || s.core.amoE || s.core.amoM) := by
  simp only [Pipeline.TopCpu.ctrlOut, ctrl, Pipeline.TopCpu.redirect, Pipeline.TopCpu.amoD,
    Pipeline.TopCpu.amoE, Pipeline.TopCpu.amoM, opcodeInfo_amo,
    Pipeline.TopCpu.executeOut_branchNeedJump, Pipeline.TopCpu.executeOut_mretNeedJump]

/-- The bubble of `regE`. -/
lemma regEBubble_eq : s.core.ctrlOut.regEBubble =
    (s.core.redirect || s.core.loadUse || s.core.amoE || s.core.amoM) := by
  simp only [Pipeline.TopCpu.ctrlOut, ctrl, Pipeline.TopCpu.redirect, Pipeline.TopCpu.loadUse,
    Pipeline.TopCpu.amoE, Pipeline.TopCpu.amoM, Pipeline.TopCpu.executeOut_branchNeedJump,
    Pipeline.TopCpu.executeOut_mretNeedJump]
  ac_rfl

/-! ## One clock edge -/

variable (dpi) (s)

/-- A valid pc after an edge: a stall goes before a redirect. -/
lemma step_pc (hv : s.pc.valid = true) : (step dpi false s).pc = ⟨true,
    if s.core.loadUse || s.core.amoD || s.core.amoE || s.core.amoM then s.core.pc
    else if s.core.regE.mret then s.core.regE.csrRdata2
    else if executeBranchNeedJump s.core.regE then executeBranchNextPc s.core.regE
    else s.core.pc + 4#64⟩ := by
  have hpc : s.pc = ⟨true, s.core.pc⟩ := by rw [← hv]; rfl
  simp only [step, pcNext, regFStall_eq, regDAllowin_eq, Bool.false_eq_true, if_false, hpc,
    Stage.allowin, Bool.not_true, Bool.false_or, if_true]
  by_cases hF : (s.core.loadUse || s.core.amoD || s.core.amoE || s.core.amoM) = true
  · simp [hF]
  · have hl : s.core.loadUse = false := by simp_all
    rw [Bool.not_eq_true] at hF
    rw [hF, hl]
    simp only [Bool.not_false, Bool.or_true, Bool.and_self, if_true, Bool.false_eq_true, if_false]
    rfl

/-- `regD` after an edge: a bubble goes before a stall, and a stall keeps a valid word only. -/
theorem step_regD : (step dpi false s).regD =
    if s.core.redirect || s.core.amoD || s.core.amoE || s.core.amoM then .empty RegD.nop
    else if s.core.loadUse then if s.regD.valid then s.regD else .empty RegD.nop
    else if s.pc.valid then ⟨true, s.core.regDIn dpi⟩
    else .empty RegD.nop := by
  rw [step, regDNext, Bool.false_or, Stage.next_eq fun _ _ => rfl, regDBubble_eq, regDAllowin_eq,
    pcOValid, regFStall_eq]
  by_cases hb : (s.core.redirect || s.core.amoD || s.core.amoE || s.core.amoM) = true
  · rw [if_pos hb, if_pos hb]
  · rw [if_neg hb, if_neg hb]
    simp only [Bool.not_eq_true, Bool.or_eq_false_iff] at hb
    obtain ⟨⟨⟨-, hd⟩, he⟩, hm⟩ := hb
    cases s.core.loadUse <;> cases s.regD.valid <;> simp [hd, he, hm, Stage.oValid] <;> rfl

/-- `regE` after an edge. -/
lemma step_regE : (step dpi false s).regE =
    if s.core.redirect || s.core.loadUse || s.core.amoE || s.core.amoM then .empty RegE.nop
    else if s.regD.valid then ⟨true, s.core.regEIn dpi⟩
    else .empty RegE.nop := by
  rw [step, regENext, Bool.false_or, Stage.next_eq fun _ _ => rfl, regEBubble_eq, regEAllowin_eq,
    regDOValid_eq]
  by_cases hb : (s.core.redirect || s.core.loadUse || s.core.amoE || s.core.amoM) = true
  · rw [if_pos hb, if_pos hb]
  · rw [if_neg hb, if_neg hb, if_pos rfl]
    have hl : s.core.loadUse = false := by simp_all
    rw [hl, Bool.not_false, Bool.and_true]
    rfl

/-- `regW` after an edge. -/
lemma step_regW : (step dpi false s).regW =
    if s.regM.valid then ⟨true, s.core.regWIn dpi⟩ else .empty RegW.nop := by
  have hb : s.core.ctrlOut.regWBubble = false := rfl
  rw [step, regWNext, Stage.next_eq fun _ _ => hb, regWAllowin_eq, regMOValid, Stage.oValid_true]
  rfl

variable {dpi} {s}

/-- The bubble of `regM` meets no valid instruction, when an atomic instruction in memory has
none behind it. -/
lemma regMBubble_eq_false (h : s.core.amoM = true → s.regE.valid = false)
    (hv : s.regEOValid = true) : s.core.ctrlOut.regMBubble = false := by
  by_contra ha
  rw [Bool.not_eq_false] at ha
  rw [regEOValid, Stage.oValid_true, h ha] at hv
  cases hv

/-- `regM` after an edge, in the same case. -/
lemma step_regM (h : s.core.amoM = true → s.regE.valid = false) : (step dpi false s).regM =
    if s.regE.valid then ⟨true, s.core.regMIn⟩ else .empty RegM.nop := by
  rw [step, regMNext, Stage.next_eq fun hv _ => regMBubble_eq_false h hv, regMAllowin_eq,
    regEOValid, Stage.oValid_true]
  rfl

/-! ## The invariant -/

/-- The inductive invariant of the valid flags. -/
structure Inv (s : TopCpu M) : Prop where
  soundD : s.regD.Sound RegD.valid RegD.nop
  soundE : s.regE.Sound RegE.valid RegE.nop
  soundM : s.regM.Sound RegM.valid RegM.nop
  soundW : s.regW.Sound RegW.valid RegW.nop
  /-- Behind an atomic instruction in memory execute is not valid. -/
  behindAmoM : s.core.amoM = true → s.regE.valid = false

namespace Inv

/-- Reset establishes the invariant. -/
lemma afterReset (regfile : Regfile) (csrfile : Csrfile) (mem : M) :
    Inv (afterReset regfile csrfile mem) :=
  ⟨Stage.sound_empty commitBit_zero, Stage.sound_empty commitBit_zero,
    Stage.sound_empty commitBit_zero, Stage.sound_empty commitBit_zero, fun _ => rfl⟩

/-- An atomic instruction that enters memory empties execute behind it. -/
lemma behindAmoM_edge (h : Inv s) (ha : (step dpi false s).core.amoM = true) :
    (step dpi false s).regE.valid = false := by
  have he : s.core.amoE = true := by
    change bit (step dpi false s).regM.payload.opcodeInfo 13 = true at ha
    rw [step_regM h.behindAmoM] at ha
    split_ifs at ha
    · simpa [Pipeline.TopCpu.amoE, Pipeline.TopCpu.regMIn, RegM.latch] using ha
    · simp [RegM.nop] at ha
  simp [step_regE, he]

/-- **A clock edge keeps the invariant.**

**Proof sketch.** Each register is a stage with its own bubble: those of `regD` and `regE` clear
it, that of `regM` meets no valid instruction, and `regW` has none.  A valid input carries the
commit bit of the stage before it. -/
theorem edge (h : Inv s) : Inv (step dpi false s) := by
  refine ⟨?_, ?_, ?_, ?_, h.behindAmoM_edge⟩
  · refine h.soundD.next commitBit_zero (fun _ _ => (Bool.false_or _).symm) fun _ => ?_
    exact commitBit_commitInfo ..
  · refine h.soundE.next commitBit_zero (fun _ _ => (Bool.false_or _).symm) fun hv => ?_
    rw [regDOValid_eq, Bool.and_eq_true] at hv
    exact h.soundD.valid.symm.trans hv.1
  · refine h.soundM.next commitBit_zero (fun hv _ => regMBubble_eq_false h.behindAmoM hv)
      fun hv => ?_
    rw [regEOValid, Stage.oValid_true] at hv
    exact (commitBit_executeCommitInfo _).trans (h.soundE.valid.symm.trans hv)
  · refine h.soundW.next commitBit_zero (fun _ _ => rfl) fun hv => ?_
    rw [regMOValid, Stage.oValid_true] at hv
    exact h.soundM.valid.symm.trans hv

end Inv

/-- The invariant holds in every run from a reset. -/
lemma inv_run {s₀ : TopCpu M} (h : Started dpi s₀) (n : ℕ) : Inv (run dpi n s₀) := by
  induction n with
  | zero =>
    obtain ⟨regfile, csrfile, mem, rfl⟩ := h.eq_afterReset
    exact Inv.afterReset regfile csrfile mem
  | succ n ih =>
    rw [run_succ]
    exact ih.edge

/-! ## Where valid payloads come from -/

variable (dpi) (s)

/-- `regD` accepts the fetched word at the next edge. -/
def acceptsD : Bool := s.pcOValid && s.regDAllowin && !s.core.ctrlOut.regDBubble

/-- `regE` accepts the decoded instruction at the next edge. -/
def acceptsE : Bool := s.regDOValid && s.regEAllowin && !s.core.ctrlOut.regEBubble

/-- At an edge from `s` a stage that is valid afterwards holds the payload it has just accepted
from a valid stage before it or, in `regD` under a stall, the one it held. -/
structure Delivered (rst : Bool) : Prop where
  regD : (step dpi rst s).regD.valid = true →
    (s.acceptsD = true ∧ (step dpi rst s).regD.payload = RegD.latch (s.core.fetchOut dpi)) ∨
      (s.core.ctrlOut.regDStall = true ∧ (step dpi rst s).regD = s.regD)
  regE : (step dpi rst s).regE.valid = true → s.acceptsE = true ∧
    (step dpi rst s).regE.payload =
      RegE.latch (s.core.decodeOut dpi) s.core.regD.pc s.core.regD.commitInfo
  regM : (step dpi rst s).regM.valid = true → s.regEOValid = true ∧ s.regMAllowin = true ∧
    (step dpi rst s).regM.payload = RegM.latch s.core.regE s.core.executeOut
  regW : (step dpi rst s).regW.valid = true → s.regMOValid = true ∧ s.regWAllowin = true ∧
    (step dpi rst s).regW.payload = RegW.latch s.core.regM (s.core.memoryMemRdata dpi)

/-- The word that `regD` accepts at edge `m` of the run from `s` is there at cycle `n`: until
then every edge stalls. -/
structure Stays (m n : ℕ) : Prop where
  lt : m < n
  accepted : (run dpi m s).acceptsD = true
  held : ∀ i, m < i → i ≤ n →
    (run dpi i s).regD = ⟨true, RegD.latch ((run dpi m s).core.fetchOut dpi)⟩
  stalled : ∀ i, m < i → i < n → (run dpi i s).core.ctrlOut.regDStall = true

/-- The word that `regD` accepts at edge `m` of the run from `s` is handed on to `regE` at edge
`n`. -/
structure Passes (m n : ℕ) : Prop extends Stays dpi s m n where
  handed : (run dpi n s).acceptsE = true

/-- What holds at cycle `n` of the run from `s`: flags agree with payloads, empty stages ask for
nothing, valid payloads are delivered, and each valid payload in memory and write back is that
of a word that passed through `regD` two and three cycles before, which happens once. -/
structure ValidTravels (n : ℕ) : Prop where
  regD : (run dpi n s).regD.Sound RegD.valid RegD.nop
  regE : (run dpi n s).regE.Sound RegE.valid RegE.nop
  regM : (run dpi n s).regM.Sound RegM.valid RegM.nop
  regW : (run dpi n s).regW.Sound RegW.valid RegW.nop
  idleD : (run dpi n s).regD.valid = false → Inert (run dpi n s).regD.payload.instr
  idleE : (run dpi n s).regE.valid = false → ∃ w, (run dpi n s).regE.payload.Holds w ∧ Inert w
  idleM : (run dpi n s).regM.valid = false → ∃ w, (run dpi n s).regM.payload.Holds w ∧ Inert w
  idleW : (run dpi n s).regW.valid = false → ∃ w, (run dpi n s).regW.payload.Holds w ∧ Inert w
  delivered : ∀ rst, Delivered dpi (run dpi n s) rst
  originM : (run dpi n s).regM.valid = true → ∃ m k, n = k + 2 ∧ Passes dpi s m k ∧
    (run dpi n s).core.regM = RegM.latch ((run dpi k s).core.regEIn dpi)
      (execute ((run dpi k s).core.regEIn dpi))
  originW : (run dpi n s).regW.valid = true → ∃ m k, n = k + 3 ∧ Passes dpi s m k ∧
    (run dpi n s).core.regW = RegW.latch (run dpi (k + 2) s).core.regM
      ((run dpi (k + 2) s).core.memoryMemRdata dpi)
  once : ∀ m k k', Passes dpi s m k → Passes dpi s m k' → k = k'

variable {dpi} {s}

/-- A stage that is valid after an edge has been delivered. -/
lemma Inv.delivered (dpi : Dpi M) (h : Inv s) (rst : Bool) : Delivered dpi s rst := by
  cases rst with
  | true =>
    have hc : ∀ {R : Type} {bubble allowin inValid : Bool} {nop input : R} {r : Stage R},
        (Stage.next true bubble allowin inValid nop input r).valid = true → False := by
      intro R bubble allowin inValid nop input r hv
      rw [Stage.next_clear_valid] at hv
      cases hv
    exact ⟨fun hv => (hc hv).elim, fun hv => (hc hv).elim, fun hv => (hc hv).elim,
      fun hv => (hc hv).elim⟩
  | false =>
    refine ⟨fun hv => ?_, fun hv => ?_, fun hv => ?_, fun hv => ?_⟩
    · rw [step_regD] at hv ⊢
      split_ifs at hv ⊢ with hb hl hd hp
      · cases hv
      · exact .inr ⟨hl, rfl⟩
      · cases hv
      · left
        have hF : s.core.ctrlOut.regFStall = false := by rw [regFStall_eq]; simp_all
        refine ⟨?_, rfl⟩
        rw [acceptsD, regDBubble_eq, regDAllowin_eq, pcOValid, hF]
        simp_all [Stage.oValid]
      · cases hv
    · rw [step_regE] at hv ⊢
      split_ifs at hv ⊢ with hb hd
      · cases hv
      · refine ⟨?_, rfl⟩
        rw [acceptsE, regEBubble_eq, regEAllowin_eq, regDOValid_eq]
        simp_all
      · cases hv
    · rw [step_regM h.behindAmoM] at hv ⊢
      split_ifs at hv ⊢ with he
      · exact ⟨by rw [regEOValid, Stage.oValid_true, he], regMAllowin_eq, rfl⟩
      · cases hv
    · rw [step_regW] at hv ⊢
      split_ifs at hv ⊢ with hm
      · exact ⟨by rw [regMOValid, Stage.oValid_true, hm], regWAllowin_eq, rfl⟩
      · cases hv

/-! ## No payload twice -/

/-- A word in `regD` was accepted before and has been held since. -/
private lemma exists_stays (hs : Started dpi s) {n : ℕ} (hv : (run dpi n s).regD.valid = true) :
    ∃ m, Stays dpi s m n := by
  induction n with
  | zero =>
    obtain ⟨regfile, csrfile, mem, rfl⟩ := hs.eq_afterReset
    cases hv
  | succ n ih =>
    have hv' : (step dpi false (run dpi n s)).regD.valid = true := by rwa [← run_succ]
    rcases ((inv_run hs n).delivered dpi false).regD hv' with ⟨ha, hp⟩ | ⟨hst, hk⟩
    · refine ⟨n, Nat.lt_succ_self n, ha, fun i hi hin => ?_, fun i hi hin => by omega⟩
      obtain rfl : i = n + 1 := by omega
      rw [run_succ, ← hp, ← hv']
    · rw [hk] at hv'
      obtain ⟨m, hm⟩ := ih hv'
      refine ⟨m, Nat.lt_succ_of_lt hm.lt, hm.accepted, fun i hi hin => ?_, fun i hi hin => ?_⟩
      · rcases Nat.lt_or_ge n i with hlt | hge
        · obtain rfl : i = n + 1 := by omega
          rw [run_succ, hk]
          exact hm.held n hm.lt le_rfl
        · exact hm.held i hi hge
      · rcases Nat.lt_or_ge i n with hlt | hge
        · exact hm.stalled i hi hlt
        · obtain rfl : i = n := by omega
          exact hst

/-- A word leaves `regD` once: it is not handed on while it is held. -/
lemma Passes.unique {m k k' : ℕ} (h : Passes dpi s m k) (h' : Passes dpi s m k') : k = k' := by
  have hnot : ∀ {i j : ℕ}, Passes dpi s m i → Passes dpi s m j → ¬ i < j := by
    intro i j hi hj hij
    have ha := hi.handed
    rw [acceptsE, regDOValid, hj.stalled i hi.lt hij] at ha
    simp [Stage.oValid] at ha
  have h1 := hnot h h'
  have h2 := hnot h' h
  omega

/-- A valid instruction in execute passed through `regD` the cycle before. -/
private lemma passes_of_regE (hs : Started dpi s) {n : ℕ} (hv : (run dpi n s).regE.valid = true) :
    ∃ m k, n = k + 1 ∧ Passes dpi s m k ∧
      (run dpi n s).core.regE = (run dpi k s).core.regEIn dpi := by
  cases n with
  | zero =>
    obtain ⟨regfile, csrfile, mem, rfl⟩ := hs.eq_afterReset
    cases hv
  | succ k =>
    rw [run_succ] at hv
    obtain ⟨ha, hp⟩ := ((inv_run hs k).delivered dpi false).regE hv
    have hd : (run dpi k s).regD.valid = true := by
      rw [acceptsE, regDOValid_eq] at ha
      simp_all
    obtain ⟨m, hm⟩ := exists_stays hs hd
    refine ⟨m, k, rfl, ⟨hm, ha⟩, ?_⟩
    rw [run_succ]
    exact hp

/-- A valid instruction in memory passed through `regD` two cycles before. -/
lemma passes_of_regM (hs : Started dpi s) {n : ℕ} (hv : (run dpi n s).regM.valid = true) :
    ∃ m k, n = k + 2 ∧ Passes dpi s m k ∧
      (run dpi n s).core.regM = RegM.latch ((run dpi k s).core.regEIn dpi)
        (execute ((run dpi k s).core.regEIn dpi)) := by
  cases n with
  | zero =>
    obtain ⟨regfile, csrfile, mem, rfl⟩ := hs.eq_afterReset
    cases hv
  | succ n =>
    rw [run_succ] at hv
    obtain ⟨he, -, hp⟩ := ((inv_run hs n).delivered dpi false).regM hv
    rw [regEOValid, Stage.oValid_true] at he
    obtain ⟨m, k, rfl, hpass, hE⟩ := passes_of_regE hs he
    refine ⟨m, k, rfl, hpass, ?_⟩
    rw [run_succ, ← hE]
    exact hp

/-- A valid instruction in write back passed through `regD` three cycles before. -/
private lemma passes_of_regW (hs : Started dpi s) {n : ℕ} (hv : (run dpi n s).regW.valid = true) :
    ∃ m k, n = k + 3 ∧ Passes dpi s m k ∧
      (run dpi n s).core.regW = RegW.latch (run dpi (k + 2) s).core.regM
        ((run dpi (k + 2) s).core.memoryMemRdata dpi) := by
  cases n with
  | zero =>
    obtain ⟨regfile, csrfile, mem, rfl⟩ := hs.eq_afterReset
    cases hv
  | succ n =>
    rw [run_succ] at hv
    obtain ⟨hm, -, hp⟩ := ((inv_run hs n).delivered dpi false).regW hv
    rw [regMOValid, Stage.oValid_true] at hm
    obtain ⟨m, k, rfl, hpass, -⟩ := passes_of_regM hs hm
    refine ⟨m, k, rfl, hpass, ?_⟩
    rw [run_succ]
    exact hp

/-- **Valid flags travel with their own payloads.**  At every cycle of every run from a reset
the flag of each stage is the commit bit of its payload, a stage that is not valid asks for
nothing, a stage that is valid after a clock edge holds what it has just accepted or, under a
stall of `regD`, what it held, and no payload is valid in memory or in write back twice.

**Proof sketch.** The invariant gives the state and the edge (`Inv.edge`, `Inv.delivered`).
Backwards through the edges, a valid payload in memory or write back comes from a word in `regD`
a fixed number of cycles ago, and a word leaves `regD` once (`Passes.unique`). -/
theorem validTravels (h : Started dpi s) (n : ℕ) : ValidTravels dpi s n := by
  have hi := inv_run h n
  have h0 : Inert 0#32 := Bubble.inert (.inl rfl)
  refine
    { regD := hi.soundD, regE := hi.soundE, regM := hi.soundM, regW := hi.soundW
      idleD := ?_, idleE := ?_, idleM := ?_, idleW := ?_
      delivered := hi.delivered dpi
      originM := passes_of_regM h
      originW := passes_of_regW h
      once := fun _ _ _ => Passes.unique }
  · intro hv
    rw [hi.soundD.payload hv]
    exact Bubble.inert (.inr rfl)
  · intro hv
    rw [hi.soundE.payload hv]
    exact ⟨_, RegE.holds_nop, h0⟩
  · intro hv
    rw [hi.soundM.payload hv]
    exact ⟨_, RegM.holds_nop, h0⟩
  · intro hv
    rw [hi.soundW.payload hv]
    exact ⟨_, RegW.holds_nop, h0⟩

/-- `auipc x9, 0`, `lw x5, 0(x9)`, `addi x6, x5, 3` and `amoswap.w x7, x6, (x9)`. -/
def loadUseAmo : List (BitVec 32) := [0x00000497#32, 0x0004A283#32, 0x00328313#32, 0x0864A3AF#32]

/-- The processor at power-on, with a program in memory. -/
def powerOn (program : List (BitVec 32)) : TopCpu Memory.Pmem where
  pc := ⟨false, 0#64⟩
  regD := ⟨false, ⟨0#64, 0#32, 0#161⟩⟩
  regE := .empty RegE.nop
  regM := .empty RegM.nop
  regW := .empty RegW.nop
  regfile := Regfile.initial
  csrfile := Csrfile.initial
  mem := Memory.image program

/-- A run in which `regD` holds an instruction behind a load in its fourth cycle, and an atomic
instruction is in execute in its seventh: the flags travel with the payloads over both. -/
theorem validTravels_loadUseAmo :
    ((run Memory.dpi 4 (step Memory.dpi true (powerOn loadUseAmo))).core.loadUse = true ∧
      ValidTravels Memory.dpi (step Memory.dpi true (powerOn loadUseAmo)) 4) ∧
    ((run Memory.dpi 7 (step Memory.dpi true (powerOn loadUseAmo))).core.amoE = true ∧
      ValidTravels Memory.dpi (step Memory.dpi true (powerOn loadUseAmo)) 7) ∧
    ValidTravels Memory.dpi (step Memory.dpi true (powerOn loadUseAmo)) 9 := by
  have hs : Started Memory.dpi (step Memory.dpi true (powerOn loadUseAmo)) :=
    ⟨powerOn loadUseAmo, ⟨rfl, rfl, rfl, rfl⟩, rfl⟩
  exact ⟨⟨by decide +kernel, validTravels hs 4⟩, ⟨by decide +kernel, validTravels hs 7⟩,
    validTravels hs 9⟩

end TopCpu

end Riscv64Cpu.ReadyValid
