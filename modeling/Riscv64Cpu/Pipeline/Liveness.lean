import Riscv64Cpu.Pipeline.Invariant
import Riscv64Cpu.Memory.Pmem

set_option relaxedAutoImplicit false
set_option autoImplicit false

/-!
# The wait for a commit

The simulator clocks the processor until its output `commit` is up (`execute` in `exec.c`).
The wait is short: the oldest valid instruction moves one stage at each edge, and an empty
pipeline fetches.

## Main definitions

* `Pipeline.TopCpu.waitForCommit` — the inner loop of `execute`.
* `Pipeline.TopCpu.rank` — how many edges the next commit is away.

## Main results

* `Pipeline.TopCpu.rank_edge` — an edge without a commit lowers the rank.
* `Pipeline.TopCpu.waitForCommit_ends` — a commit comes within four edges and the loop ends.
-/

namespace Riscv64Cpu.Pipeline

namespace TopCpu

variable {M : Type} {dpi : Dpi M} {s : TopCpu M}

/-- `while (dut.commit != 1) npc_single_cycle();` with at most `fuel` cycles. -/
def waitForCommit (dpi : Dpi M) (fuel : ℕ) (s : TopCpu M) : Option (TopCpu M) :=
  Clocked.loopUntil (fun t => t.commitOut.commit) (step dpi false) fuel s

/-- The stages that the oldest valid instruction has yet to pass; an empty pipeline counts the
word that is about to be fetched. -/
def rank (s : TopCpu M) : ℕ :=
  if s.regW.valid then 0 else if s.regM.valid then 1 else if s.regE.valid then 2
  else if s.regD.valid then 3 else 4

/-- A valid instruction in memory reaches write back. -/
private lemma regW_valid_edge (hm : s.regM.valid = true) :
    (step dpi false s).regW.valid = true := by
  rw [step_regW]
  exact hm

/-- A valid instruction in execute reaches memory. -/
private lemma regM_valid_edge (h : Inv dpi s) (hm : s.regM.valid = false)
    (he : s.regE.valid = true) : (step dpi false s).regM.valid = true := by
  rw [step_regM, h.of_regM_bubble hm]
  exact (commitBit_executeCommitInfo s.regE).trans he

/-- A valid instruction in decode reaches execute when execute and memory are empty. -/
private lemma regE_valid_edge (h : Inv dpi s) (hm : s.regM.valid = false)
    (he : s.regE.valid = false) (hd : s.regD.valid = true) :
    (step dpi false s).regE.valid = true := by
  obtain ⟨hr, hl, ha⟩ := h.of_regE_bubble he
  rw [step_regE, hr, hl, ha, h.of_regM_bubble hm]
  exact hd

/-- An empty pipeline fetches. -/
private lemma regD_valid_edge (h : Inv dpi s) (hm : s.regM.valid = false)
    (he : s.regE.valid = false) (hd : s.regD.valid = false) :
    (step dpi false s).regD.valid = true := by
  obtain ⟨hr, hl, ha⟩ := h.of_regE_bubble he
  have hn : s.amoD = false := (h.inFlightD.bubble hd).inert.amo
  rw [step_regD, hr, hl, ha, h.of_regM_bubble hm, hn]
  simp [regDIn, RegD.latch, RegD.valid, fetchOut, fetch]

/-- **An edge without a commit lowers the rank.** -/
theorem rank_edge (h : Inv dpi s) (hw : s.regW.valid = false) :
    rank (step dpi false s) < rank s := by
  cases hm : s.regM.valid with
  | true => simp [rank, hw, hm, regW_valid_edge hm]
  | false =>
    cases he : s.regE.valid with
    | true =>
      have hm' := regM_valid_edge h hm he
      simp only [rank, hw, hm, he, hm', Bool.false_eq_true, if_false, if_true]
      split_ifs <;> omega
    | false =>
      cases hd : s.regD.valid with
      | true =>
        have he' := regE_valid_edge h hm he hd
        simp only [rank, hw, hm, he, hd, he', Bool.false_eq_true, if_false, if_true]
        split_ifs <;> omega
      | false =>
        have hd' := regD_valid_edge h hm he hd
        simp only [rank, hw, hm, he, hd, hd', Bool.false_eq_true, if_false, if_true]
        split_ifs <;> omega

/-- A commit is at most four edges away. -/
lemma commit_within (h : Inv dpi s) :
    Clocked.Within (step dpi false) (fun t => t.commitOut.commit = true) 4 s := by
  have hr : rank s ≤ 4 := by unfold rank; split_ifs <;> omega
  refine (Clocked.within_of_rank rank (fun _ => Inv.edge) (fun t ht hc => ?_) s h).mono hr
  exact rank_edge ht (by simpa [commitOut, commit, RegW.valid] using hc)

/-- **The wait for a commit ends**: in every reachable state the output `commit` is up or comes
up within four further edges, and the loop of the simulator ends with `commit` up. -/
theorem waitForCommit_ends (h : Reachable dpi s) :
    Clocked.Within (step dpi false) (fun t => t.commitOut.commit = true) 4 s ∧
      ∃ t, t.commitOut.commit = true ∧ ∀ fuel, 4 ≤ fuel → waitForCommit dpi fuel s = some t :=
  ⟨commit_within h.inv, Clocked.loopUntil_of_within (commit_within h.inv)⟩

/-- The first commit after reset comes after four edges. -/
theorem waitForCommit_boot :
    Clocked.Within (step Memory.dpi false) (fun t => t.commitOut.commit = true) 4
        (Memory.boot [nopInstr]) ∧
      ∃ t, t.commitOut.commit = true ∧
        ∀ fuel, 4 ≤ fuel → waitForCommit Memory.dpi fuel (Memory.boot [nopInstr]) = some t :=
  waitForCommit_ends (reachable_afterReset ..)

end TopCpu

end Riscv64Cpu.Pipeline
