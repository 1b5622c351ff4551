import Riscv64Cpu.Pipeline.Retire

set_option relaxedAutoImplicit false
set_option autoImplicit false

/-!
# The first instructions of a program

A program does not go on for ever: it ends in an `ebreak`, and what lies behind it is data.  Until
then the pipeline refines the sequential machine all the same.  It fetches at most two words
behind an instruction before the instruction retires; so only these words count, and what is fetched
later reaches neither the registers nor the memory in time.

## Main definitions

* `Pipeline.shadow` — an address and the two words behind it.
* `Pipeline.Dpi.frozen` — instruction memory as it was at the start, with nops elsewhere.
* `Pipeline.InShadow` — the words that count for the first instructions.

## Main results

* `Pipeline.TopCpu.pc_mem_shadow` — where fetch stands.
* `Pipeline.TopCpu.run_eq_run_frozen` — two memories with the same words give the same run.
* `Pipeline.TopCpu.tracks_prefix` — the first `N` instructions.
-/

namespace Riscv64Cpu.Pipeline

open Clocked

/-- The address of an instruction and those of the two words behind it. -/
def shadow (pc : BitVec 64) : List (BitVec 64) := [pc, pc + 4#64, pc + 8#64]

namespace TopCpu

variable {M : Type} {dpi : Dpi M} {s : TopCpu M}

/-! ## Where fetch stands -/

/-- Behind an instruction that has just entered execute decode has taken in one word. -/
private lemma pc_of_regE_valid (hi : Inv dpi s) (ha : NoAmo s) {f : FetchOut}
    (hf : (step dpi false s).issued = some f) : (step dpi false s).pc = f.pc + 8#64 := by
  obtain ⟨he, hv, rfl⟩ := issued_edge hi hf
  obtain ⟨hr, hl⟩ := not_held_of_entersE hv he
  rw [redirect, Bool.or_eq_false_iff] at hr
  rw [step_pc, hl, ha.decode, ha.execute, ha.memory, hr.1, hr.2]
  simp only [Bool.or_self, Bool.false_eq_true, if_false, (regD_commitInfo hi hv).2, fetchedD]
  rw [BitVec.add_assoc]
  rfl

/-- **Where fetch stands**: at the instruction that the sequential machine fetches, or at one of the
two words behind it.

**Proof sketch.** Behind an instruction in execute fetch is two words ahead, whether the instruction
jumps or not; without one it is at the next instruction, or one word ahead if decode has that. -/
theorem FollowsTo.pc_mem_shadow {σ : SeqState M} {n N : ℕ} (h : FollowsTo dpi s σ N)
    (hn : executed dpi s n < N) :
    (run dpi n s).pc ∈ shadow (σ.run dpi (executed dpi s n)).pc := by
  have hi := h.inv n
  have hfol := h.follows n hn
  generalize σ.run dpi (executed dpi s n) = τ at hfol
  have hcases : (run dpi n s).pc = τ.pc ∨ (run dpi n s).pc = τ.pc + 4#64 ∨
      (run dpi n s).pc = τ.pc + 8#64 := by
    cases hf : (run dpi n s).issued with
    | some f =>
      right; right
      have hpc : f.pc = τ.pc := by rw [hfol.fetched f hf]; rfl
      cases n with
      | zero =>
        rw [run_zero, issued, if_neg (by simp [h.regE])] at hf
        cases hf
      | succ n =>
        rw [run_succ] at hf ⊢
        rw [← hpc]
        exact pc_of_regE_valid (h.inv n) (h.noAmo n) hf
    | none =>
      have hr := (hi.of_regE_bubble (issued_eq_none hf)).1
      have hnext := @issueNext_of_none _ dpi _ τ hf
      cases hv : (run dpi n s).regD.valid with
      | true =>
        right; left
        rw [(regD_commitInfo hi hv).2, hfol.toOnPath.regD hr hv, hnext]
      | false =>
        left
        rw [hfol.toOnPath.pc hr hv, hnext]
  simpa [shadow] using hcases

end TopCpu

/-! ## Frozen instruction memory -/

open Classical in
/-- The words of instruction memory as they are in `mem` where `good` holds, and nops elsewhere. -/
noncomputable def Dpi.frozen {M : Type} (dpi : Dpi M) (mem : M) (good : BitVec 64 → Prop) : Dpi M :=
  { dpi with instrMemRead := fun _ a => if good a then dpi.instrMemRead mem a else nopInstr }

section Frozen

variable {M : Type} {dpi : Dpi M} {mem : M} {good : BitVec 64 → Prop}

/-- The words where `good` holds. -/
lemma instrMemRead_frozen (mem' : M) {a : BitVec 64} (h : good a) :
    (dpi.frozen mem good).instrMemRead mem' a = dpi.instrMemRead mem a :=
  if_pos h

/-- What holds of these words and of nops holds of all words. -/
private lemma word_frozen {P : BitVec 32 → Prop} (h : ∀ a, good a → P (dpi.instrMemRead mem a))
    (hnop : P nopInstr) (mem' : M) (a : BitVec 64) :
    P ((dpi.frozen mem good).instrMemRead mem' a) := by
  simp only [Dpi.frozen]
  split_ifs with ha
  · exact h a ha
  · exact hnop

namespace SeqState

/-- A step that fetches the same word is the same. -/
lemma step_frozen (σ : SeqState M) (h : good σ.pc)
    (hsame : dpi.instrMemRead σ.mem σ.pc = dpi.instrMemRead mem σ.pc) :
    step (dpi.frozen mem good) σ = step dpi σ := by
  have hf : σ.fetchOut (dpi.frozen mem good) = σ.fetchOut dpi := by
    rw [fetchOut, fetch, instrMemRead_frozen _ h, ← hsame]
    rfl
  rw [step_eq_issue, hf, step_eq_issue]
  rfl

/-- It retires with the same event. -/
lemma commitEvent_frozen (σ : SeqState M) (h : good σ.pc)
    (hsame : dpi.instrMemRead σ.mem σ.pc = dpi.instrMemRead mem σ.pc) :
    σ.commitEvent (dpi.frozen mem good) = σ.commitEvent dpi := by
  rw [commitEvent, step_frozen σ h hsame, commitEvent, fetchOut, fetch, instrMemRead_frozen _ h,
    ← hsame]
  rfl

/-- So is a run. -/
lemma run_frozen {σ : SeqState M} {n : ℕ} (h : ∀ i < n, good (run dpi σ i).pc)
    (hsame : ∀ i < n, dpi.instrMemRead (run dpi σ i).mem (run dpi σ i).pc =
      dpi.instrMemRead mem (run dpi σ i).pc) :
    ∀ i ≤ n, run (dpi.frozen mem good) σ i = run dpi σ i := by
  intro i hi
  induction i with
  | zero => rw [run, run, Function.iterate_zero, Function.iterate_zero]
  | succ i ih =>
    rw [run_succ, ih (by omega), run_succ, step_frozen _ (h i (by omega)) (hsame i (by omega))]

end SeqState

namespace TopCpu

/-- An edge that fetches the same word is the same. -/
lemma step_frozen (s : TopCpu M) (h : good s.pc)
    (hsame : dpi.instrMemRead s.mem s.pc = dpi.instrMemRead mem s.pc) :
    step dpi false s = step (dpi.frozen mem good) false s := by
  have hf : s.fetchOut dpi = s.fetchOut (dpi.frozen mem good) := by
    rw [fetchOut, fetch, hsame, ← instrMemRead_frozen s.mem h]
    rfl
  simp only [step, hf]
  rfl

/-- With frozen instruction memory fetch reads these words and nops only. -/
lemma word_run_frozen {P : BitVec 32 → Prop} (h : ∀ a, good a → P (dpi.instrMemRead mem a))
    (hnop : P nopInstr) (s : TopCpu M) (n : ℕ) :
    P ((run (dpi.frozen mem good) n s).fetchOut (dpi.frozen mem good)).instr :=
  word_frozen h hnop (run (dpi.frozen mem good) n s).mem _

/-- **Two memories with the same words give the same run**, as long as fetch stands where `good`
holds and no store has changed the word there. -/
theorem run_eq_run_frozen {s : TopCpu M} {n : ℕ}
    (h : ∀ i < n, good (run (dpi.frozen mem good) i s).pc)
    (hsame : ∀ i < n, dpi.instrMemRead (run (dpi.frozen mem good) i s).mem
        (run (dpi.frozen mem good) i s).pc =
      dpi.instrMemRead mem (run (dpi.frozen mem good) i s).pc) :
    ∀ i ≤ n, run dpi i s = run (dpi.frozen mem good) i s := by
  intro i hi
  induction i with
  | zero => rw [run_zero, run_zero]
  | succ i ih =>
    rw [run_succ, ih (by omega), run_succ, step_frozen _ (h i (by omega)) (hsame i (by omega))]

/-- Write back, memory, registers and CSRs after an edge do not depend on the word that it
fetches. -/
lemma step_behind_frozen (dpi : Dpi M) (mem : M) (good : BitVec 64 → Prop) (s : TopCpu M) :
    (step dpi false s).regW = (step (dpi.frozen mem good) false s).regW ∧
      (step dpi false s).mem = (step (dpi.frozen mem good) false s).mem ∧
      (step dpi false s).regfile = (step (dpi.frozen mem good) false s).regfile ∧
      (step dpi false s).csrfile = (step (dpi.frozen mem good) false s).csrfile :=
  ⟨rfl, rfl, rfl, rfl⟩

/-- The registers and CSRs after an edge depend on them and on write back. -/
lemma step_files_congr (dpi dpi' : Dpi M) {s t : TopCpu M} (hW : s.regW = t.regW)
    (hR : s.regfile = t.regfile) (hC : s.csrfile = t.csrfile) :
    (step dpi false s).regfile = (step dpi' false t).regfile ∧
      (step dpi false s).csrfile = (step dpi' false t).csrfile := by
  simp only [step, writeBackOut, hW, hR, hC, and_self]

end TopCpu

end Frozen

/-! ## The first instructions -/

/-- The address is in the shadow of one of the first `N` instructions from `σ`. -/
def InShadow {M : Type} (dpi : Dpi M) (σ : SeqState M) (N : ℕ) (a : BitVec 64) : Prop :=
  ∃ k < N, a ∈ shadow (σ.run dpi k).pc

namespace TopCpu

section Shadows

variable {M : Type} {dpi : Dpi M} {s : TopCpu M} {σ : SeqState M} {N : ℕ}
  (h : FollowsTo (dpi.frozen s.mem (InShadow dpi σ N)) s σ N)
  (hkept : ∀ a, InShadow dpi σ N a → ∀ j < N,
    dpi.instrMemRead (σ.run dpi j).mem a = dpi.instrMemRead s.mem a)
include h hkept

/-- **The first `N` instructions from frozen memory.**

**Proof sketch.** The pipeline tracks the sequential machine (`FollowsTo.tracks`), and up to the
cycle in which the last of the instructions has left execute fetch stands in their shadows
(`FollowsTo.pc_mem_shadow`). -/
theorem frozen_prefix (hN : 0 < N) :
    let fdpi := dpi.frozen s.mem (InShadow dpi σ N)
    ∃ c, c + 2 ≤ 5 * N ∧ executed fdpi s c = N ∧ (∀ t ≤ c + 2,
        (commits fdpi s t).length ≤ N ∧
        commits fdpi s t = (List.range (commits fdpi s t).length).map (fun i =>
          (σ.run dpi i).commitEvent dpi) ∧
        (run fdpi t s).regfile = (σ.run dpi (commits fdpi s t).length).regfile) ∧
      (run fdpi (c + 1) s).mem = (σ.run dpi N).mem ∧
      ∀ i < c, InShadow dpi σ N (run fdpi i s).pc ∧
        dpi.instrMemRead (run fdpi i s).mem (run fdpi i s).pc =
          dpi.instrMemRead s.mem (run fdpi i s).pc := by
  intro fdpi
  have hpcs : ∀ k < N, InShadow dpi σ N (σ.run dpi k).pc :=
    fun k hk => ⟨k, hk, List.mem_cons_self⟩
  have hwords : ∀ k < N, _ := fun k hk => hkept _ (hpcs k hk) k hk
  have hseq := SeqState.run_frozen hpcs hwords
  obtain ⟨c, hc, hcN, hlt⟩ := exists_executed h.toFresh hN
  refine ⟨c, hc, hcN, fun t ht => ?_, ?_, fun i hi => ?_⟩
  · have hle : (commits fdpi s t).length ≤ N := hcN ▸ length_commits_le ht
    have htrack := h.tracks hle
    refine ⟨hle, htrack.events.trans (List.map_congr_left fun i hi => ?_), ?_⟩
    · have hi : i < N := Nat.lt_of_lt_of_le (List.mem_range.mp hi) hle
      rw [hseq i (Nat.le_of_lt hi), SeqState.commitEvent_frozen _ (hpcs i hi) (hwords i hi)]
    · rw [← hseq _ hle]
      exact htrack.registers
  · rw [h.mem_run_succ (Nat.le_of_eq hcN), hcN, hseq N (Nat.le_refl N)]
  · have hi := hlt i hi
    have hpc := h.pc_mem_shadow hi
    rw [hseq _ (Nat.le_of_lt hi)] at hpc
    have hin : InShadow dpi σ N (run fdpi i s).pc := ⟨_, hi, hpc⟩
    refine ⟨hin, ?_⟩
    cases i with
    | zero => rfl
    | succ i =>
      have hj := hlt i (by omega)
      rw [h.mem_run_succ (Nat.le_of_lt hj), hseq _ (Nat.le_of_lt hj)]
      exact hkept _ hin _ hj

/-- **The first `N` instructions.**  When the run from frozen memory follows the sequential machine
in them and none of them changes a word in their shadows, then within `5 N` cycles the pipeline has
retired exactly these instructions, and in every cycle until then it tracks the sequential machine;
one edge before the last of them has retired the memory is that of the sequential machine, and the
CSRs in the end are those of the run from frozen memory.

**Proof sketch.** Up to the cycle in which the last of the instructions has left execute the run is
that from frozen memory (`frozen_prefix`, `run_eq_run_frozen`).  What is in memory and write back by
then is not touched any more by what is fetched. -/
theorem tracks_prefix (hN : 0 < N) :
    let fdpi := dpi.frozen s.mem (InShadow dpi σ N)
    ∃ n < 5 * N, (commits dpi s (n + 1)).length = N ∧ (∀ t ≤ n + 1, Tracks dpi s σ t) ∧
      (run dpi n s).mem = (σ.run dpi N).mem ∧
      commits dpi s (n + 1) = commits fdpi s (n + 1) ∧
      (run dpi (n + 1) s).csrfile = (run fdpi (n + 1) s).csrfile := by
  intro fdpi
  obtain ⟨c, hc, hcN, htracks, hmem, hfetch⟩ := frozen_prefix h hkept hN
  have hrun := run_eq_run_frozen (fun i hi => (hfetch i hi).1) fun i hi => (hfetch i hi).2
  have hbehind := step_behind_frozen dpi s.mem (InShadow dpi σ N) (run dpi c s)
  rw [← run_succ, hrun c (Nat.le_refl c), ← run_succ] at hbehind
  obtain ⟨hW, hM, hR, hC⟩ := hbehind
  have hfiles := step_files_congr dpi fdpi hW hR hC
  rw [← run_succ, ← run_succ] at hfiles
  have hcommits : ∀ t ≤ c + 2, commits dpi s t = commits fdpi s t := by
    intro t ht
    refine trace_congr fun i hi => ?_
    obtain hi | rfl : i ≤ c ∨ i = c + 1 := by omega
    · rw [hrun i hi]
    · rw [hW]
  have hregs : ∀ t ≤ c + 2, (run dpi t s).regfile = (run fdpi t s).regfile := by
    intro t ht
    obtain ht | rfl | rfl : t ≤ c ∨ t = c + 1 ∨ t = c + 2 := by omega
    · rw [hrun t ht]
    · exact hR
    · exact hfiles.1
  refine ⟨c + 1, by omega, ?_, fun t ht => ⟨?_, ?_⟩, hM.trans hmem, hcommits _ (Nat.le_refl _),
    hfiles.2⟩
  · rw [hcommits _ (Nat.le_refl _)]
    exact hcN
  · rw [hcommits t ht]
    exact (htracks t ht).2.1
  · rw [hcommits t ht, hregs t ht]
    exact (htracks t ht).2.2

end Shadows

/-- Calm words in frozen memory. -/
lemma followsTo_frozen {M : Type} {dpi : Dpi M} {regfile : Regfile} {csrfile : Csrfile} {mem : M}
    {good : BitVec 64 → Prop} (hcalm : ∀ a, good a → Calm (dpi.instrMemRead mem a)) (N : ℕ) :
    FollowsTo (dpi.frozen mem good) (afterReset regfile csrfile mem)
      (SeqState.afterReset regfile csrfile mem) N :=
  followsTo_run (dpi.frozen mem good) regfile csrfile mem
    (word_run_frozen hcalm plain_nopInstr.decode (afterReset regfile csrfile mem))
    (fun _ _ => rfl) N

end TopCpu

end Riscv64Cpu.Pipeline
