import Mathlib.Data.Nat.Find
import Riscv64Cpu.Pipeline.Liveness
import Riscv64Cpu.Pipeline.Refinement

set_option relaxedAutoImplicit false
set_option autoImplicit false

/-!
# Commit by commit

A run seen from one commit to the next.  The sequential machine takes its step `i` while the
pipeline retires its commit number `i`, and the pipeline is never more than four edges away from its
next commit.

## Main definitions

* `Pipeline.SameButCsr` — two states of the sequential machine that differ in the CSRs at most.
* `Pipeline.TopCpu.Tracks` — a cycle of a run that retires what the sequential machine does.
* `Pipeline.TopCpu.executed` — how many instructions have left execute.
* `Pipeline.TopCpu.FollowsTo` — a run that follows the sequential machine in its first steps.

## Main results

* `Pipeline.TopCpu.retires_within` — in `5 n` cycles the pipeline retires `n` instructions.
* `Pipeline.TopCpu.FollowsTo.tracks` — such a run retires these steps.
* `Pipeline.TopCpu.tracks_run` — runs of calm words.
* `Pipeline.TopCpu.Tracks.retire` — what a commit shows.
* `Pipeline.SameButCsr.step` — a plain instruction does not see the CSRs.
-/

namespace Riscv64Cpu.Pipeline

open Clocked

/-! ## The sequential machine without its CSRs -/

/-- The two states agree in everything but the CSRs. -/
structure SameButCsr {M : Type} (σ τ : SeqState M) : Prop where
  pc : σ.pc = τ.pc
  regfile : σ.regfile = τ.regfile
  mem : σ.mem = τ.mem

namespace SameButCsr

variable {M : Type} {dpi : Dpi M} {σ τ : SeqState M}

/-- Every state agrees with itself. -/
lemma rfl : SameButCsr σ σ := ⟨Eq.refl _, Eq.refl _, Eq.refl _⟩

/-- Both fetch the same word. -/
lemma fetchOut (h : SameButCsr σ τ) : σ.fetchOut dpi = τ.fetchOut dpi := by
  rw [SeqState.fetchOut, h.pc, h.mem, SeqState.fetchOut]

/-- Both execute the same instruction, the CSR values apart. -/
lemma regE (h : SameButCsr σ τ) (hp : Plain (σ.fetchOut dpi).instr) :
    (σ.regE dpi).norm = (τ.regE dpi).norm := by
  obtain ⟨-, hc, hm⟩ := hp.decode
  have hregs : ∀ rs, σ.regfile.read rs = τ.regfile.read rs := fun rs => by rw [h.regfile]
  simp only [SeqState.regE, SeqState.decodeOut, ← h.fetchOut]
  refine RegE.norm_latch_decode _ _ ?_ ?_ (fun hw => ?_) fun hw => ?_
  · simp only [Pipeline.decode, hregs]
  · simp only [Pipeline.decode, hregs]
  · simp [hc] at hw
  · simp [hm] at hw

/-- **A plain instruction does not see the CSRs.** -/
theorem step (h : SameButCsr σ τ) (hp : Plain (σ.fetchOut dpi).instr) :
    SameButCsr (σ.step dpi) (τ.step dpi) := by
  have hE := h.regE hp
  have hM : (σ.regM dpi).norm = (τ.regM dpi).norm := RegM.norm_latch_congr hE
  obtain ⟨hm, hb, hto, hcsr⟩ := redirect_congr hE
  refine ⟨?_, Regfile.ext (congrFun ?_), ?_⟩
  · rw [SeqState.step_pc, SeqState.step_pc, ← hm, ← hb, ← hto, h.pc]
    split_ifs with hmr
    · exact hcsr hmr
    · exact Eq.refl _
    · exact Eq.refl _
  · have hW : (σ.regW dpi).norm = (τ.regW dpi).norm := by
      rw [SeqState.regW, SeqState.regW, ← h.mem]
      exact RegW.norm_latch_congr dpi σ.mem hM
    rw [SeqState.step_regfile_reg, SeqState.step_regfile_reg, RegW.regWrite_congr hW, h.regfile]
  · rw [SeqState.step_mem, SeqState.step_mem, memWriteCall_congr hM, h.mem]

end SameButCsr

/-! ## The run from commit to commit -/

namespace TopCpu

/-- At cycle `n` the run from `s` has retired what the sequential machine does from `σ`, and has its
registers. -/
structure Tracks {M : Type} (dpi : Dpi M) (s : TopCpu M) (σ : SeqState M) (n : ℕ) : Prop where
  events : commits dpi s n =
    (List.range (commits dpi s n).length).map fun i => (σ.run dpi i).commitEvent dpi
  registers : (run dpi n s).regfile = (σ.run dpi (commits dpi s n).length).regfile

section Commits

variable {M : Type} {dpi : Dpi M} {s : TopCpu M} {σ : SeqState M} {n : ℕ}

/-- A cycle without a commit leaves the count of commits as it is. -/
lemma length_commits_of_bubble (hv : (run dpi n s).regW.valid = false) :
    (commits dpi s (n + 1)).length = (commits dpi s n).length := by
  rw [commits, trace_succ_none (RegW.commitEvent_eq_none hv)]
  rfl

/-- A valid instruction in write back has a commit event. -/
lemma commits_of_valid (hv : (run dpi n s).regW.valid = true) :
    ∃ o, (run dpi n s).regW.commitEvent = some o ∧
      commits dpi s (n + 1) = commits dpi s n ++ [o] := by
  have ho : (run dpi n s).regW.commitEvent = some ⟨_, _, _⟩ := if_pos hv
  exact ⟨_, ho, trace_succ_some ho⟩

/-- A commit counts. -/
lemma length_commits_of_valid (hv : (run dpi n s).regW.valid = true) :
    (commits dpi s (n + 1)).length = (commits dpi s n).length + 1 := by
  obtain ⟨o, -, hc⟩ := commits_of_valid hv
  rw [hc, List.length_append, List.length_singleton]

/-- The count of commits does not fall. -/
lemma length_commits_le {m : ℕ} (h : m ≤ n) :
    (commits dpi s m).length ≤ (commits dpi s n).length := by
  induction n, h using Nat.le_induction with
  | base => exact Nat.le_refl _
  | succ n _ ih =>
    refine Nat.le_trans ih ?_
    cases hv : (run dpi n s).regW.valid with
    | true =>
      rw [length_commits_of_valid hv]
      exact Nat.le_succ _
    | false => exact Nat.le_of_eq (length_commits_of_bubble hv).symm

/-- **A commit** of a run that has retired what the sequential machine does is its next
instruction. -/
theorem Tracks.retire (h : Tracks dpi s σ (n + 1)) (hv : (run dpi n s).regW.valid = true) :
    (run dpi n s).regW.commitEvent =
      some ((σ.run dpi (commits dpi s n).length).commitEvent dpi) := by
  obtain ⟨o, ho, hc⟩ := commits_of_valid hv
  have hev := h.events
  rw [length_commits_of_valid hv, hc, List.range_succ, List.map_append] at hev
  have hlast := List.append_inj_right' hev rfl
  rw [ho, List.singleton_inj.mp hlast]

end Commits

/-! ## What has left execute -/

/-- The number of instructions that have left execute in the first `n` cycles; they are those that
retire in two cycles more. -/
def executed {M : Type} (dpi : Dpi M) (s : TopCpu M) (n : ℕ) : ℕ := (commits dpi s (n + 2)).length

/-- Nothing is in flight behind decode. -/
structure Fresh {M : Type} (dpi : Dpi M) (s : TopCpu M) : Prop where
  reachable : Reachable dpi s
  regE : s.regE.valid = false
  regM : s.regM.valid = false
  regW : s.regW.valid = false

/-- After reset nothing is. -/
lemma fresh_afterReset {M : Type} (dpi : Dpi M) (regfile : Regfile) (csrfile : Csrfile)
    (mem : M) : Fresh dpi (afterReset regfile csrfile mem) :=
  ⟨reachable_afterReset dpi regfile csrfile mem, commitBit_zero, commitBit_zero, commitBit_zero⟩

/-- The registers and the memory of the sequential machine in state `σ` are those of the pipeline
once memory and write back are drained. -/
structure FilesAt {M : Type} (dpi : Dpi M) (s : TopCpu M) (σ : SeqState M) : Prop where
  regfile : applyWrite (applyWrite s.regfile.reg s.regW.regWrite) (s.regWOfM dpi).regWrite =
    σ.regfile.reg
  mem : memNext dpi s.mem (memWriteCall s.regM) = σ.mem

section Executed

variable {M : Type} {dpi : Dpi M} {s : TopCpu M} {σ : SeqState M} {n N : ℕ}

/-- The invariant holds in every run from a reset. -/
lemma Fresh.inv (h : Fresh dpi s) (n : ℕ) : Inv dpi (run dpi n s) := (h.reachable.run n).inv

/-- So write back is empty in the first two cycles. -/
lemma Fresh.empty (h : Fresh dpi s) (hn : n < 2) : (run dpi n s).regW.valid = false := by
  obtain rfl | rfl : n = 0 ∨ n = 1 := by omega
  · exact h.regW
  · rw [run_succ, run_zero, step_regW]
    exact h.regM

/-- At the start nothing has left execute. -/
lemma executed_zero (h : Fresh dpi s) : executed dpi s 0 = 0 := by
  rw [executed, length_commits_of_bubble (h.empty Nat.one_lt_two),
    length_commits_of_bubble (h.empty Nat.zero_lt_two)]
  rfl

/-- An edge moves a valid instruction out of execute. -/
lemma executed_succ (hi : Inv dpi (run dpi n s)) :
    executed dpi s (n + 1) = executed dpi s n + (run dpi n s).regE.valid.toNat := by
  have hW := (run_two_regW hi).1
  rw [run_run, Nat.add_comm 2 n] at hW
  rw [executed, executed, ← hW]
  cases hv : (run dpi (n + 2) s).regW.valid with
  | true => exact length_commits_of_valid hv
  | false => exact length_commits_of_bubble hv

/-- The instruction in execute is the next step. -/
lemma Follows.issueNext_run (h : Follows dpi (run dpi n s) (σ.run dpi (executed dpi s n)))
    (hi : Inv dpi (run dpi n s)) :
    (run dpi n s).issueNext dpi (σ.run dpi (executed dpi s n)) =
      σ.run dpi (executed dpi s (n + 1)) := by
  rw [h.issueNext, executed_succ hi]
  cases (run dpi n s).regE.valid with
  | true => exact (SeqState.run_succ dpi σ _).symm
  | false => rfl

/-- The count does not fall. -/
lemma executed_le {m : ℕ} (h : m ≤ n) : executed dpi s m ≤ executed dpi s n :=
  length_commits_le (by omega)

/-- The next commit is at most four edges away, and until then nothing is counted. -/
lemma first_commit (h : Fresh dpi s) (n : ℕ) : ∃ j ≤ 4, (run dpi (n + j) s).regW.valid = true ∧
    (∀ i < j, (run dpi (n + i) s).regW.valid = false) ∧
    (commits dpi s (n + j)).length = (commits dpi s n).length := by
  obtain ⟨j, hj, hc, hbefore⟩ := Within.first (commit_within (h.inv n))
  have hrun : ∀ i, (step dpi false)^[i] (run dpi n s) = run dpi (n + i) s := fun i => by
    rw [Nat.add_comm n i]
    exact run_run dpi _ i n
  have hno : ∀ i < j, (run dpi (n + i) s).regW.valid = false := by
    intro i hi
    have hb := hbefore i hi
    rw [hrun] at hb
    exact (Bool.not_eq_true _).mp hb
  rw [hrun] at hc
  refine ⟨j, hj, hc, hno, ?_⟩
  clear hj hc hbefore
  induction j with
  | zero => rfl
  | succ j ih =>
    rw [← Nat.add_assoc, length_commits_of_bubble (hno j (by omega))]
    exact ih fun i hi => hno i (by omega)

/-- **The pipeline goes on**: `n` instructions after any cycle `m` there is a cycle, not later than
`m + 5 n`, before which exactly `n` more instructions have been retired.

**Proof sketch.** Induction on `n`: at most four edges to the next commit, and the edge of the
commit. -/
theorem retires_within (h : Fresh dpi s) (m n : ℕ) : ∃ k, m ≤ k ∧ k ≤ m + 5 * n ∧
    (commits dpi s k).length = (commits dpi s m).length + n := by
  induction n with
  | zero => exact ⟨m, Nat.le_refl m, Nat.le_refl m, rfl⟩
  | succ n ih =>
    obtain ⟨k, hm, hk, hn⟩ := ih
    obtain ⟨j, hj, hv, -, hsame⟩ := first_commit h k
    exact ⟨k + j + 1, by omega, by omega, by
      rw [length_commits_of_valid hv, hsame, hn, Nat.add_assoc]⟩

/-- **The cycle in which the last of the first `N` instructions has left execute.** -/
theorem exists_executed (h : Fresh dpi s) (hN : 0 < N) : ∃ c, c + 2 ≤ 5 * N ∧
    executed dpi s c = N ∧ ∀ i < c, executed dpi s i < N := by
  obtain ⟨k, -, hk, hcount⟩ := retires_within h 0 N
  rw [show (commits dpi s 0).length = 0 from rfl, Nat.zero_add] at hcount
  have hk2 : 2 ≤ k := by
    by_contra hlt
    have hle : (commits dpi s k).length ≤ executed dpi s 0 := length_commits_le (by omega)
    rw [executed_zero h] at hle
    omega
  obtain ⟨d, rfl⟩ : ∃ d, k = d + 2 := ⟨k - 2, by omega⟩
  have hex : ∃ c, executed dpi s c = N := ⟨d, hcount⟩
  refine ⟨Nat.find hex, ?_, Nat.find_spec hex, fun i hi => ?_⟩
  · have hle := Nat.find_min' hex hcount
    omega
  · have hne := Nat.find_min hex hi
    have hle : executed dpi s i ≤ executed dpi s (Nat.find hex) := executed_le (by omega)
    rw [Nat.find_spec hex] at hle
    omega

/-- Without an instruction in execute the files stay as they are. -/
lemma FilesAt.edge_of_bubble (h : FilesAt dpi s σ) (hi : Inv dpi s)
    (hv : s.regE.valid = false) : FilesAt dpi (step dpi false s) σ := by
  obtain ⟨hm, hw⟩ := writes_of_regE_bubble hi hv
  refine ⟨?_, ?_⟩
  · rw [step_regfile_reg, step_regW_eq, regWrite_two_edges hi, hw]
    exact h.regfile
  · rw [step_mem, memWriteCall_edge hi, hm]
    exact h.mem

/-- The instruction in execute adds what it writes. -/
lemma Drained.filesAt_edge (h : Drained dpi s σ) (hi : Inv dpi s) :
    FilesAt dpi (step dpi false s) (s.issueNext dpi σ) := by
  refine ⟨?_, ?_⟩
  · rw [step_regfile_reg, step_regW_eq, regWrite_two_edges hi, h.issueNext_regfile hi, h.regfile]
  · rw [step_mem, memWriteCall_edge hi, h.issueNext_mem hi, h.mem]

/-! ## The first steps -/

/-- The run from `s` follows the sequential machine from `σ` as long as less than `N` instructions
have left execute, and without atomic instructions. -/
structure FollowsTo (dpi : Dpi M) (s : TopCpu M) (σ : SeqState M) (N : ℕ) : Prop extends
    Fresh dpi s where
  start : FilesAt dpi s σ
  noAmo : ∀ n, NoAmo (run dpi n s)
  follows : ∀ n, executed dpi s n < N → Follows dpi (run dpi n s) (σ.run dpi (executed dpi s n))

namespace FollowsTo

variable (h : FollowsTo dpi s σ N)
include h

/-- The files are those of the sequential machine until all `N` instructions have left execute. -/
lemma filesAt (hn : executed dpi s n ≤ N) :
    FilesAt dpi (run dpi n s) (σ.run dpi (executed dpi s n)) := by
  induction n with
  | zero =>
    rw [executed_zero h.toFresh]
    exact h.start
  | succ n ih =>
    have hex := executed_succ (h.inv n)
    rw [run_succ]
    cases hv : (run dpi n s).regE.valid with
    | true =>
      rw [hv, Bool.toNat_true] at hex
      have hlt : executed dpi s n < N := by omega
      rw [← (h.follows n hlt).issueNext_run (h.inv n)]
      exact (h.follows n hlt).toDrained.filesAt_edge (h.inv n)
    | false =>
      rw [hv, Bool.toNat_false, Nat.add_zero] at hex
      rw [hex] at hn ⊢
      exact (ih hn).edge_of_bubble (h.inv n) hv

/-- The memory one edge after the instructions have left execute. -/
lemma mem_run_succ (hn : executed dpi s n ≤ N) :
    (run dpi (n + 1) s).mem = (σ.run dpi (executed dpi s n)).mem := by
  rw [run_succ, step_mem]
  exact (h.filesAt hn).mem

/-- In the first two cycles the registers are those at the start. -/
lemma regfile_start (hn : n < 2) : (run dpi n s).regfile = σ.regfile := by
  have hi : Inv dpi s := h.inv 0
  have hwrite : s.regW.regWrite = none := regWrite_of_regW_bubble hi h.regW
  have hreg : s.regfile.reg = σ.regfile.reg := by
    rw [← h.start.regfile, hwrite, (writes_of_regM_bubble hi h.regM).2]
    rfl
  obtain rfl | rfl : n = 0 ∨ n = 1 := by omega
  · exact Regfile.ext (congrFun hreg)
  · refine Regfile.ext (congrFun ?_)
    rw [run_succ, run_zero, step_regfile_reg, hwrite, ← hreg]
    rfl

/-- The commits are those of the sequential machine. -/
lemma events (hn : (commits dpi s n).length ≤ N) : commits dpi s n =
    (List.range (commits dpi s n).length).map fun i => (σ.run dpi i).commitEvent dpi := by
  induction n with
  | zero => rfl
  | succ n ih =>
    cases hv : (run dpi n s).regW.valid with
    | false =>
      have hc : commits dpi s (n + 1) = commits dpi s n :=
        trace_succ_none (RegW.commitEvent_eq_none hv)
      rw [hc] at hn ⊢
      exact ih hn
    | true =>
      obtain ⟨m, rfl⟩ : ∃ m, n = m + 2 := by
        refine ⟨n - 2, ?_⟩
        by_contra hm
        rw [h.empty (by omega)] at hv
        cases hv
      obtain ⟨o, ho, hc⟩ := commits_of_valid hv
      have hlen : (commits dpi s (m + 2 + 1)).length = executed dpi s m + 1 :=
        length_commits_of_valid hv
      have hlt : executed dpi s m < N := by omega
      have hobs := (h.follows m hlt).commitEvent (h.noAmo m).memory
      have hE : (run dpi m s).regE.valid = true := by
        rw [← (run_two_regW (h.inv m)).1, run_run, Nat.add_comm 2 m]
        exact hv
      rw [run_run, Nat.add_comm 2 m, hE, if_pos rfl, ho] at hobs
      rw [hlen, List.range_succ, List.map_append, hc, ih (Nat.le_of_lt hlt), Option.some.inj hobs]
      simp [executed]

/-- **The first steps of the sequential machine** are what the pipeline retires. -/
theorem tracks (hn : (commits dpi s n).length ≤ N) : Tracks dpi s σ n := by
  refine ⟨h.events hn, ?_⟩
  by_cases h2 : n < 2
  · have hzero : (commits dpi s n).length = 0 := by
      have hle : (commits dpi s n).length ≤ executed dpi s 0 := length_commits_le (by omega)
      rw [executed_zero h.toFresh] at hle
      omega
    rw [hzero]
    exact h.regfile_start h2
  · obtain ⟨m, rfl⟩ : ∃ m, n = m + 2 := ⟨n - 2, by omega⟩
    refine Regfile.ext (congrFun ?_)
    rw [Nat.add_comm m 2, ← run_run, run_two_reg, Nat.add_comm 2 m]
    exact (h.filesAt hn).regfile

end FollowsTo

end Executed

section Retire

variable {M : Type} (dpi : Dpi M) (regfile : Regfile) (csrfile : Csrfile) (mem : M)
  (hcalm : ∀ n, Calm ((run dpi n (afterReset regfile csrfile mem)).fetchOut dpi).instr)
  (hstable : ∀ m n,
    dpi.instrMemRead (run dpi (m + 1) (afterReset regfile csrfile mem)).mem
        (run dpi n (afterReset regfile csrfile mem)).pc =
      dpi.instrMemRead (run dpi m (afterReset regfile csrfile mem)).mem
        (run dpi n (afterReset regfile csrfile mem)).pc)

/-- The instruction in execute was fetched in an earlier cycle. -/
private lemma issued_fetched {n : ℕ} {f : FetchOut}
    (hf : (run dpi n (afterReset regfile csrfile mem)).issued = some f) :
    ∃ j, f.instr = ((run dpi j (afterReset regfile csrfile mem)).fetchOut dpi).instr := by
  cases n with
  | zero =>
    rw [run_zero, issued_afterReset] at hf
    cases hf
  | succ n =>
    rw [run_succ] at hf
    obtain ⟨-, hv, rfl⟩ := issued_edge (inv_run dpi regfile csrfile mem n) hf
    have h0 : (afterReset regfile csrfile mem).regD.valid = false := commitBit_zero
    obtain ⟨j, hj⟩ := exists_regDIn h0 hv
    refine ⟨j, ?_⟩
    show (run dpi n (afterReset regfile csrfile mem)).regD.instr = _
    rw [hj]
    rfl

/-- A valid instruction in execute was issued. -/
lemma issued_of_valid {s : TopCpu M} (hv : s.regE.valid = true) : ∃ f, s.issued = some f := by
  cases hf : s.issued with
  | none => simp [issued_eq_none hf] at hv
  | some f => exact ⟨f, rfl⟩

include hcalm hstable

/-- A run of calm words follows the sequential machine. -/
lemma followsTo_run (N : ℕ) : FollowsTo dpi (afterReset regfile csrfile mem)
    (SeqState.afterReset regfile csrfile mem) N := by
  have hd : Drained dpi (afterReset regfile csrfile mem)
      (SeqState.afterReset regfile csrfile mem) :=
    drained_afterReset dpi regfile csrfile mem rfl rfl
  exact ⟨fresh_afterReset dpi regfile csrfile mem, ⟨hd.regfile, hd.mem⟩,
    fun n => (quiet_run dpi regfile csrfile mem hcalm n).toNoAmo,
    fun n _ => (follows_calm_run dpi regfile csrfile mem hcalm hstable n).1⟩

/-- So it tracks the sequential machine. -/
theorem tracks_run (n : ℕ) : Tracks dpi (afterReset regfile csrfile mem)
    (SeqState.afterReset regfile csrfile mem) n :=
  (followsTo_run dpi regfile csrfile mem hcalm hstable _).tracks (Nat.le_refl _)

/-- The next word of the sequential machine at a commit was fetched in an earlier cycle. -/
lemma retired_fetched {n : ℕ}
    (hv : (run dpi n (afterReset regfile csrfile mem)).regW.valid = true) :
    ∃ j, (((SeqState.afterReset regfile csrfile mem).run dpi
        (commits dpi (afterReset regfile csrfile mem) n).length).fetchOut dpi).instr =
      ((run dpi j (afterReset regfile csrfile mem)).fetchOut dpi).instr := by
  have hn : 2 ≤ n := by
    by_contra hn
    rw [regW_valid_start dpi regfile csrfile mem (by omega)] at hv
    cases hv
  obtain ⟨m, rfl⟩ : ∃ m, n = m + 2 := ⟨n - 2, by omega⟩
  have h := (follows_calm_run dpi regfile csrfile mem hcalm hstable m).1
  have hE : (run dpi m (afterReset regfile csrfile mem)).regE.valid = true := by
    rw [← (run_two_regW (inv_run dpi regfile csrfile mem m)).1, run_run, Nat.add_comm 2 m]
    exact hv
  obtain ⟨f, hf⟩ := issued_of_valid hE
  rw [← h.fetched f hf]
  exact issued_fetched dpi regfile csrfile mem hf

/-- The memory that the sequential machine has after as many steps as the pipeline has retired is
that of some cycle of the pipeline. -/
lemma exists_mem_run (n : ℕ) : ∃ k, ((SeqState.afterReset regfile csrfile mem).run dpi
    (commits dpi (afterReset regfile csrfile mem) n).length).mem =
      (run dpi k (afterReset regfile csrfile mem)).mem := by
  have hstart : n < 2 → (commits dpi (afterReset regfile csrfile mem) n).length = 0 := by
    intro hn
    obtain rfl | rfl : n = 0 ∨ n = 1 := by omega
    · rfl
    · rw [commits, trace_succ_none (RegW.commitEvent_eq_none RegW.valid_nop)]
      rfl
  by_cases hn : n < 2
  · exact ⟨0, by rw [hstart hn]; rfl⟩
  · obtain ⟨m, rfl⟩ : ∃ m, n = m + 2 := ⟨n - 2, by omega⟩
    exact ⟨m + 1, ((followsTo_run dpi regfile csrfile mem hcalm hstable
      (executed dpi (afterReset regfile csrfile mem) m)).mem_run_succ (Nat.le_refl _)).symm⟩

end Retire

end TopCpu

end Riscv64Cpu.Pipeline
