import Riscv64Cpu.Pipeline.Issue

set_option relaxedAutoImplicit false
set_option autoImplicit false

/-!
# The pipeline refines the sequential machine

For programs without atomic and system instructions the instructions that enter execute are the
ones that the one-instruction-at-a-time machine fetches.  The pipeline shows what they do later:
a store is called one edge after its instruction was in execute, and two edges after it the
instruction is in write back.

## Main definitions

* `Pipeline.Plain`, `Pipeline.Calm` — the words of neither class, and those that decode to nothing
  atomic and no access to a CSR.
* `Pipeline.TopCpu.Follows` — the relation to the sequential machine.
* `Pipeline.TopCpu.commits`, `stores` — what a run has retired and stored.

## Main results

* `Pipeline.TopCpu.Follows.edge` — a clock edge keeps the relation.
* `Pipeline.TopCpu.pipeline_refines` — commits, registers and stores of the pipeline are those
  of the sequential machine.
-/

namespace Riscv64Cpu.Pipeline

open Clocked

/-! ## Programs without atomic and system instructions -/

/-- The opcode of `w` is neither `AMO` nor `SYSTEM`. -/
def Plain (w : BitVec 32) : Prop := opcode w ≠ 0b0101111#7 ∧ opcode w ≠ 0b1110011#7

instance : DecidablePred Plain := fun _ => inferInstanceAs (Decidable (_ ∧ _))

/-- The nop instruction is plain. -/
lemma plain_nopInstr : Plain nopInstr := by decide

/-- A word that is neither an atomic nor a CSR instruction nor `mret`; other system instructions, as
`ebreak`, do nothing in the pipeline. -/
def Calm (w : BitVec 32) : Prop :=
  instAmo w = false ∧ instCsrInstr w = false ∧ instMret w = false

instance : DecidablePred Calm := fun _ => inferInstanceAs (Decidable (_ ∧ _ ∧ _))

/-- The decoder's view of a plain word. -/
lemma Plain.decode {w : BitVec 32} (h : Plain w) : Calm w := by
  have hs : instSystem w = false := by simpa [instSystem] using h.2
  refine ⟨by simpa [instAmo] using h.1, by simp [instCsrInstr_eq, hs], ?_⟩
  by_contra hm
  rw [Bool.not_eq_false] at hm
  simp [instSystem_of_instMret hm] at hs

namespace TopCpu

variable {M : Type} {dpi : Dpi M} {s : TopCpu M} {σ : SeqState M}

/-- The word in decode is calm, and no CSR instruction is in execute and memory. -/
structure Quiet (s : TopCpu M) : Prop extends NoAmo s where
  calm : Calm s.regD.instr
  executeCsr : selCsrRdata s.regE.opcodeInfo = false
  memoryCsr : selCsrRdata s.regM.opcodeInfo = false

/-- The pipeline stays quiet while calm words are fetched. -/
theorem Quiet.edge (h : Quiet s) (hf : Calm (s.fetchOut dpi).instr) :
    Quiet (step dpi false s) := by
  refine ⟨h.toNoAmo.edge hf.1, ?_, ?_, ?_⟩
  · rw [step_regD]
    split_ifs
    · exact plain_nopInstr.decode
    · exact h.calm
    · exact hf
  · rw [step_regE]
    split_ifs
    · rfl
    · exact (opcodeInfo_csrInstr _).trans h.calm.2.1
  · rw [step_regM]
    split_ifs
    · rfl
    · exact h.executeCsr

/-- In a quiet pipeline the operands are exact. -/
lemma Quiet.operandsExact (h : Quiet s) (hi : Inv dpi s) (he : EntersE dpi s)
    (hv : s.regD.valid = true) : OperandsExact dpi s := by
  have hsrc : ∀ rs, CsrSourceExact s rs := fun rs =>
    ⟨fun _ hc => by simp [h.executeCsr] at hc, fun _ _ hc => by simp [h.memoryCsr] at hc⟩
  exact operandsExact_of_sources hi hv he ⟨hsrc _, hsrc _⟩

/-- A calm word reads no CSR. -/
lemma Quiet.csrReads (h : Quiet s) (f : Csrfile) : CsrReads s f := by
  obtain ⟨-, hc, hm⟩ := h.calm
  exact ⟨fun hw => by simp [hc] at hw, fun hw => by simp [hm] at hw⟩

/-! ## The relation to the sequential machine -/

/-- The pipeline follows the sequential machine in state `σ`: drained, it has the registers and
the memory of `σ`; the instruction in execute, if there is one, is the one that `σ` fetches; and
decode and fetch stand at the one after it. -/
structure Follows (dpi : Dpi M) (s : TopCpu M) (σ : SeqState M) : Prop extends
    Drained dpi s σ, OnPath dpi s σ where
  fetched : ∀ f, s.issued = some f → f = σ.fetchOut dpi

namespace Follows

/-- The instruction in execute is a step of the sequential machine. -/
lemma issueNext (h : Follows dpi s σ) :
    s.issueNext dpi σ = if s.regE.valid then σ.step dpi else σ := by
  cases hf : s.issued with
  | none =>
    rw [issueNext_of_none hf, if_neg (by simp [issued_eq_none hf])]
  | some f =>
    have hv : s.regE.valid = true := by
      by_contra hv
      simp [issued, hv] at hf
    rw [if_pos hv, SeqState.step_eq_issue, ← h.fetched f hf, TopCpu.issueNext, hf]
    rfl

/-- The instruction that enters execute is the one that the sequential machine fetches next, when
the word in decode is the one that memory holds at its address once the stores in flight are
performed. -/
lemma fetchedD_eq (h : Follows dpi s σ) (hi : Inv dpi s) (he : EntersE dpi s)
    (hv : s.regD.valid = true)
    (hword : dpi.instrMemRead (run dpi 2 s).mem s.regD.pc = s.regD.instr) :
    s.fetchedD = (s.issueNext dpi σ).fetchOut dpi := by
  have hpc : s.regD.pc = (s.issueNext dpi σ).pc := h.regD (not_held_of_entersE hv he).1 hv
  have hmem : (run dpi 2 s).mem = (s.issueNext dpi σ).mem := by
    rw [run_succ, run_succ, run_zero, step_mem, step_mem, memWriteCall_edge hi,
      h.toDrained.issueNext_mem hi, h.mem]
  rw [fetchedD, (regD_commitInfo hi hv).1, ← hword, hmem, hpc]
  rfl

/-- **A clock edge keeps the relation**, when the instruction that enters execute has exact operands
and reads the CSRs of the sequential machine. -/
theorem edge_of_reads (h : Follows dpi s σ) (hi : Inv dpi s) (ha : NoAmo s)
    (hops : EntersE dpi s → s.regD.valid = true → OperandsExact dpi s)
    (hcsr : EntersE dpi s → s.regD.valid = true → CsrReads s (s.issueNext dpi σ).csrfile)
    (hword : s.regD.valid = true →
      dpi.instrMemRead (run dpi 2 s).mem s.regD.pc = s.regD.instr) :
    Follows dpi (step dpi false s) (s.issueNext dpi σ) := by
  have hd : Drained dpi (step dpi false s) (s.issueNext dpi σ) := h.toDrained.edge hi hops hcsr
  refine ⟨hd, h.toOnPath.edge h.toDrained hd hi ha, fun f hf => ?_⟩
  obtain ⟨he, hv, rfl⟩ := issued_edge hi hf
  exact h.fetchedD_eq hi he hv (hword hv)

/-- In a quiet pipeline the operands are exact and no CSR is read. -/
theorem edge (h : Follows dpi s σ) (hi : Inv dpi s) (hq : Quiet s)
    (hword : s.regD.valid = true →
      dpi.instrMemRead (run dpi 2 s).mem s.regD.pc = s.regD.instr) :
    Follows dpi (step dpi false s) (s.issueNext dpi σ) :=
  h.edge_of_reads hi hq.toNoAmo (hq.operandsExact hi) (fun _ _ => hq.csrReads _) hword

/-- Two edges later the instruction in execute retires. -/
lemma commitEvent (h : Follows dpi s σ) (hm : s.amoM = false) : (run dpi 2 s).regW.commitEvent =
    if s.regE.valid then some (σ.commitEvent dpi) else none := by
  have hw : (run dpi 2 s).regW = s.regWOfE dpi := by
    rw [run_succ, run_succ, run_zero, step_regW_eq, regWOfM_edge hm]
  rw [hw]
  cases hf : s.issued with
  | none =>
    have hv := issued_eq_none hf
    rw [RegW.commitEvent_eq_none (regWOfE_valid.trans hv), hv]
    rfl
  | some f =>
    have hv : s.regE.valid = true := by
      by_contra hv
      simp [issued, hv] at hf
    have hn := h.regWOfE_norm hf
    rw [h.fetched f hf] at hn
    rw [if_pos hv, RegW.commitEvent, commit_congr hn]
    exact σ.commitEvent_regW dpi

/-- The store of the instruction in execute is that of the sequential step. -/
lemma stores_succ {k : ℕ} (h : Follows dpi s (σ.run dpi k)) (hi : Inv dpi s) :
    σ.stores dpi (k + s.regE.valid.toNat) =
      σ.stores dpi k ++ (memWriteCall s.regMIn).toList := by
  cases hf : s.issued with
  | none =>
    rw [issued_eq_none hf, (writes_of_regE_bubble hi (issued_eq_none hf)).1]
    simp
  | some f =>
    have hv : s.regE.valid = true := by
      by_contra hv
      simp [issued, hv] at hf
    have hn := RegM.norm_latch_congr (h.regE f hf)
    rw [h.fetched f hf] at hn
    rw [hv, show memWriteCall s.regMIn = _ from memWriteCall_congr hn]
    rfl

end Follows

/-! ## Whole runs -/

section Run

variable (dpi) (s)

/-- The commit events of the first `n` cycles. -/
def commits (n : ℕ) : List CommitEvent := trace (fun i => (run dpi i s).regW.commitEvent) n

/-- The calls of `dpi_mem_write` of the first `n` cycles. -/
def stores (n : ℕ) : List MemWrite := trace (fun i => memWriteCall (run dpi i s).regM) n

/-- After `n` cycles the run from `s` shows what the sequential machine shows from `σ`: it has
retired the first steps, with their registers, and performed their stores and that of the
instruction about to retire. -/
structure Refines (σ : SeqState M) (n : ℕ) : Prop where
  events : commits dpi s n =
    (List.range (commits dpi s n).length).map fun i => (σ.run dpi i).commitEvent dpi
  registers : (run dpi n s).regfile = (σ.run dpi (commits dpi s n).length).regfile
  memWrites : stores dpi s n =
    σ.stores dpi ((commits dpi s n).length + (run dpi n s).regW.valid.toNat)

variable {dpi} {s}

/-- The word in decode was fetched in an earlier cycle. -/
lemma exists_regDIn (h0 : s.regD.valid = false) {n : ℕ}
    (hv : (run dpi n s).regD.valid = true) :
    ∃ j, (run dpi n s).regD = (run dpi j s).regDIn dpi := by
  induction n with
  | zero => simp [h0] at hv
  | succ n ih =>
    rw [run_succ, step_regD] at hv ⊢
    split_ifs at hv ⊢
    · simp at hv
    · exact ih hv
    · exact ⟨n, rfl⟩

/-- A word that no store changes is the same in the memories of all cycles. -/
lemma fetch_stable (hstable : ∀ m n, dpi.instrMemRead (run dpi (m + 1) s).mem (run dpi n s).pc =
    dpi.instrMemRead (run dpi m s).mem (run dpi n s).pc) (m n : ℕ) :
    dpi.instrMemRead (run dpi m s).mem (run dpi n s).pc =
      dpi.instrMemRead s.mem (run dpi n s).pc := by
  induction m with
  | zero => rfl
  | succ m ih => rw [hstable, ih]

/-- So the word in decode is the one that memory holds in any cycle. -/
lemma regD_stable (h0 : s.regD.valid = false)
    (hstable : ∀ m n, dpi.instrMemRead (run dpi (m + 1) s).mem (run dpi n s).pc =
      dpi.instrMemRead (run dpi m s).mem (run dpi n s).pc) {n : ℕ}
    (hv : (run dpi n s).regD.valid = true) (m : ℕ) :
    dpi.instrMemRead (run dpi m s).mem (run dpi n s).regD.pc = (run dpi n s).regD.instr := by
  obtain ⟨j, hj⟩ := exists_regDIn h0 hv
  rw [hj]
  exact (fetch_stable hstable m j).trans (fetch_stable hstable j j).symm

end Run

section Refines

variable (dpi) (regfile : Regfile) (csrfile : Csrfile) (mem : M)

/-- Every state of a run from reset satisfies the invariant. -/
lemma inv_run (n : ℕ) : Inv dpi (run dpi n (afterReset regfile csrfile mem)) :=
  ((reachable_afterReset dpi regfile csrfile mem).run n).inv

/-- The commits of a run are those of the instructions that were in execute two edges before. -/
lemma commits_eq (n : ℕ) : commits dpi (afterReset regfile csrfile mem) (n + 2) =
    trace (fun i => (run dpi 2 (run dpi i (afterReset regfile csrfile mem))).regW.commitEvent) n :=
  trace_regW dpi regfile csrfile mem (fun _ => RegW.commitEvent_eq_none) n

/-- The stores of a run are called one edge after their instructions were in execute. -/
lemma stores_eq (n : ℕ) : stores dpi (afterReset regfile csrfile mem) (n + 1) =
    trace (fun i => memWriteCall (run dpi i (afterReset regfile csrfile mem)).regMIn) n := by
  refine trace_delay ?_ fun i _ => ?_
  · show memWriteCall RegM.nop = none
    decide
  · rw [run_succ, memWriteCall_edge (inv_run dpi regfile csrfile mem i)]

/-- In the first two cycles nothing retires. -/
lemma refines_start {n : ℕ} (hn : n < 2) :
    Refines dpi (afterReset regfile csrfile mem) (SeqState.afterReset regfile csrfile mem) n := by
  have hv := regW_valid_start dpi regfile csrfile mem hn
  have hc : commits dpi (afterReset regfile csrfile mem) n = [] := by
    obtain rfl | rfl : n = 0 ∨ n = 1 := by omega
    · rfl
    · exact trace_succ_none (RegW.commitEvent_eq_none RegW.valid_nop)
  have hs : stores dpi (afterReset regfile csrfile mem) n = [] := by
    obtain rfl | rfl : n = 0 ∨ n = 1 := by omega
    · rfl
    · exact stores_eq dpi regfile csrfile mem 0
  have hr : (run dpi n (afterReset regfile csrfile mem)).regfile = regfile := by
    obtain rfl | rfl : n = 0 ∨ n = 1 := by omega
    · rfl
    · have hw : (afterReset regfile csrfile mem).regW.regWrite = none :=
        RegW.regWrite_eq_none rfl
      refine Regfile.ext (congrFun ?_)
      rw [run_succ, run_zero, step_regfile_reg, hw]
      rfl
  refine ⟨?_, ?_, ?_⟩
  · rw [hc]
    rfl
  · rw [hc, hr]
    rfl
  · rw [hc, hs, hv]
    rfl

/-- The relation holds after reset. -/
private lemma follows_afterReset : Follows dpi (afterReset regfile csrfile mem)
    (SeqState.afterReset regfile csrfile mem) := by
  refine ⟨drained_afterReset dpi regfile csrfile mem rfl rfl,
    onPath_afterReset dpi regfile csrfile mem rfl, fun f hf => ?_⟩
  rw [issued_afterReset] at hf
  cases hf

/-- The pipeline is quiet after reset. -/
private lemma quiet_afterReset : Quiet (afterReset regfile csrfile mem) :=
  ⟨noAmo_afterReset regfile csrfile mem, plain_nopInstr.decode,
    by simp [afterReset, RegE.nop, selCsrRdata], by simp [afterReset, RegM.nop, selCsrRdata]⟩

variable (hcalm : ∀ n, Calm ((run dpi n (afterReset regfile csrfile mem)).fetchOut dpi).instr)

include hcalm in
/-- The pipeline stays quiet during a run that fetches calm words only. -/
lemma quiet_run (n : ℕ) : Quiet (run dpi n (afterReset regfile csrfile mem)) := by
  induction n with
  | zero => exact quiet_afterReset regfile csrfile mem
  | succ n ih =>
    rw [run_succ]
    exact ih.edge (hcalm n)

variable (hstable : ∀ m n,
    dpi.instrMemRead (run dpi (m + 1) (afterReset regfile csrfile mem)).mem
        (run dpi n (afterReset regfile csrfile mem)).pc =
      dpi.instrMemRead (run dpi m (afterReset regfile csrfile mem)).mem
        (run dpi n (afterReset regfile csrfile mem)).pc)
include hcalm hstable

/-- The relation along a run. -/
lemma follows_succ {n : ℕ} (h : Follows dpi (run dpi n (afterReset regfile csrfile mem)) σ) :
    Follows dpi (run dpi (n + 1) (afterReset regfile csrfile mem))
      (if (run dpi n (afterReset regfile csrfile mem)).regE.valid then σ.step dpi else σ) := by
  have h0 : (afterReset regfile csrfile mem).regD.valid = false := commitBit_zero
  rw [run_succ, ← h.issueNext]
  refine h.edge (inv_run dpi regfile csrfile mem n) (quiet_run dpi regfile csrfile mem hcalm n)
    fun hv => ?_
  rw [run_run]
  exact regD_stable h0 hstable hv (2 + n)

/-- **The run against the sequential machine**: after `n + 2` cycles the pipeline has committed
what the sequential machine does in the steps that were in execute in the first `n` cycles, and
it follows the sequential machine from there on. -/
theorem follows_calm_run (n : ℕ) :
    Follows dpi (run dpi n (afterReset regfile csrfile mem))
      ((SeqState.afterReset regfile csrfile mem).run dpi
        (commits dpi (afterReset regfile csrfile mem) (n + 2)).length) ∧
    commits dpi (afterReset regfile csrfile mem) (n + 2) =
      (List.range (commits dpi (afterReset regfile csrfile mem) (n + 2)).length).map fun i =>
        ((SeqState.afterReset regfile csrfile mem).run dpi i).commitEvent dpi := by
  have hobs : ∀ n k, Follows dpi (run dpi n (afterReset regfile csrfile mem))
      ((SeqState.afterReset regfile csrfile mem).run dpi k) → _ :=
    fun n k h => h.commitEvent (quiet_run dpi regfile csrfile mem hcalm n).memory
  rw [commits_eq]
  refine @trace_eq_map_of_retire _ _ _ (fun n k =>
    Follows dpi (run dpi n (afterReset regfile csrfile mem))
      ((SeqState.afterReset regfile csrfile mem).run dpi k))
    (follows_afterReset dpi regfile csrfile mem) (fun n k h hn => ?_) (fun n k o h ho => ?_) n
  · have hs := follows_succ dpi regfile csrfile mem hcalm hstable h
    rw [hobs n k h] at hn
    split_ifs at hn hs with hv
    exact hs
  · have hs := follows_succ dpi regfile csrfile mem hcalm hstable h
    rw [hobs n k h] at ho
    split_ifs at ho hs with hv
    · rw [SeqState.run_succ]
      exact ⟨(Option.some.inj ho).symm, hs⟩

/-- The number of commits goes up two cycles after a valid instruction was in execute. -/
lemma length_commits_calm_succ (n : ℕ) :
    (commits dpi (afterReset regfile csrfile mem) (n + 3)).length =
      (commits dpi (afterReset regfile csrfile mem) (n + 2)).length +
        (run dpi n (afterReset regfile csrfile mem)).regE.valid.toNat := by
  have h := (follows_calm_run dpi regfile csrfile mem hcalm hstable n).1.commitEvent
    (quiet_run dpi regfile csrfile mem hcalm n).memory
  rw [run_run, Nat.add_comm 2 n] at h
  cases hv : (run dpi n (afterReset regfile csrfile mem)).regE.valid with
  | true =>
    rw [hv, if_pos rfl] at h
    rw [commits, trace_succ_some h, List.length_append]
    rfl
  | false =>
    rw [hv] at h
    rw [commits, trace_succ_none h]
    rfl

/-- The stores of a run are those of the sequential machine. -/
private lemma stores_calm_run (n : ℕ) : stores dpi (afterReset regfile csrfile mem) (n + 1) =
    (SeqState.afterReset regfile csrfile mem).stores dpi
      (commits dpi (afterReset regfile csrfile mem) (n + 2)).length := by
  rw [stores_eq]
  induction n with
  | zero =>
    rw [commits_eq]
    rfl
  | succ n ih =>
    have h := (follows_calm_run dpi regfile csrfile mem hcalm hstable n).1
    rw [length_commits_calm_succ dpi regfile csrfile mem hcalm hstable,
      h.stores_succ (inv_run dpi regfile csrfile mem n), ← ih]
    rfl

end Refines

section Plain

variable (dpi) (regfile : Regfile) (csrfile : Csrfile) (mem : M)
  (hplain : ∀ n, Plain ((run dpi n (afterReset regfile csrfile mem)).fetchOut dpi).instr)
  (hstable : ∀ m n,
    dpi.instrMemRead (run dpi (m + 1) (afterReset regfile csrfile mem)).mem
        (run dpi n (afterReset regfile csrfile mem)).pc =
      dpi.instrMemRead (run dpi m (afterReset regfile csrfile mem)).mem
        (run dpi n (afterReset regfile csrfile mem)).pc)
include hplain hstable

/-- A run of plain words is one of calm words. -/
private lemma follows_run (n : ℕ) :
    Follows dpi (run dpi n (afterReset regfile csrfile mem))
      ((SeqState.afterReset regfile csrfile mem).run dpi
        (commits dpi (afterReset regfile csrfile mem) (n + 2)).length) ∧
    commits dpi (afterReset regfile csrfile mem) (n + 2) =
      (List.range (commits dpi (afterReset regfile csrfile mem) (n + 2)).length).map fun i =>
        ((SeqState.afterReset regfile csrfile mem).run dpi i).commitEvent dpi :=
  follows_calm_run dpi regfile csrfile mem (fun i => (hplain i).decode) hstable n

/-- A commit comes two cycles after its instruction was in execute. -/
private lemma length_commits_succ (n : ℕ) :
    (commits dpi (afterReset regfile csrfile mem) (n + 3)).length =
      (commits dpi (afterReset regfile csrfile mem) (n + 2)).length +
        (run dpi n (afterReset regfile csrfile mem)).regE.valid.toNat :=
  length_commits_calm_succ dpi regfile csrfile mem (fun i => (hplain i).decode) hstable n

/-- The stores of a run are those of the instructions that have retired. -/
private lemma stores_run (n : ℕ) : stores dpi (afterReset regfile csrfile mem) (n + 1) =
    (SeqState.afterReset regfile csrfile mem).stores dpi
      (commits dpi (afterReset regfile csrfile mem) (n + 2)).length :=
  stores_calm_run dpi regfile csrfile mem (fun i => (hplain i).decode) hstable n

end Plain

/-- **The pipeline refines the sequential machine.**  Started by reset with any registers, CSRs
and memory, and for every number `n` of cycles: when no word that fetch ever reads is atomic or
a system instruction and no store changes a word that fetch reads, the commits of the first `n`
cycles are the first steps of the sequential machine from `0x80000000`, the register file is
that of the sequential machine after as many steps, and the stores are those of these steps and
of the instruction about to retire, in order and with their arguments.

**Proof sketch.** In the first two cycles nothing retires.  From then on the relation to the
sequential machine holds with the instruction in execute two cycles before (`Follows.edge`), and
the retirement rule turns it into the equality of the traces (`follows_run`); the registers have
been drained in these two cycles, and the stores follow by induction on `n` (`stores_run`). -/
theorem pipeline_refines (dpi : Dpi M) (regfile : Regfile) (csrfile : Csrfile) (mem : M)
    (hplain : ∀ n, Plain ((run dpi n (afterReset regfile csrfile mem)).fetchOut dpi).instr)
    (hstable : ∀ m n,
      dpi.instrMemRead (run dpi (m + 1) (afterReset regfile csrfile mem)).mem
          (run dpi n (afterReset regfile csrfile mem)).pc =
        dpi.instrMemRead (run dpi m (afterReset regfile csrfile mem)).mem
          (run dpi n (afterReset regfile csrfile mem)).pc) (n : ℕ) :
    Refines dpi (afterReset regfile csrfile mem) (SeqState.afterReset regfile csrfile mem) n := by
  match n with
  | 0 => exact refines_start dpi regfile csrfile mem Nat.zero_lt_two
  | 1 => exact refines_start dpi regfile csrfile mem Nat.one_lt_two
  | n + 2 =>
    obtain ⟨h, hev⟩ := follows_run dpi regfile csrfile mem hplain hstable n
    have hrun : run dpi (n + 2) (afterReset regfile csrfile mem) =
        run dpi 2 (run dpi n (afterReset regfile csrfile mem)) := by rw [run_run, Nat.add_comm]
    refine ⟨hev, Regfile.ext (congrFun ?_), ?_⟩
    · rw [hrun, run_two_reg]
      exact h.regfile
    · rw [stores_run dpi regfile csrfile mem hplain hstable,
        length_commits_succ dpi regfile csrfile mem hplain hstable, hrun,
        (run_two_regW (inv_run dpi regfile csrfile mem n)).1]

/-- A program in read-only memory, with nops around it; data reads give the address. -/
def romDpi (program : List (BitVec 32)) : Dpi Unit where
  instrMemRead _ addr := program.getD ((addr.toNat - 0x80000000) / 4) nopInstr
  memRead _ addr _ _ := addr
  memWrite _ _ _ _ _ := ()

/-- No store changes read-only memory. -/
lemma instrMemRead_romDpi (program : List (BitVec 32)) (mem mem' : Unit) (addr : BitVec 64) :
    (romDpi program).instrMemRead mem addr = (romDpi program).instrMemRead mem' addr := rfl

/-- Fetch from read-only memory gives words of the program and nops. -/
lemma plain_romDpi {program : List (BitVec 32)} (h : ∀ w ∈ nopInstr :: program, Plain w)
    (s : TopCpu Unit) : Plain (s.fetchOut (romDpi program)).instr := by
  have hw : (s.fetchOut (romDpi program)).instr =
      (program[(s.pc.toNat - 0x80000000) / 4]?).getD nopInstr := List.getD_eq_getElem?_getD
  rw [hw]
  cases hi : program[(s.pc.toNat - 0x80000000) / 4]? with
  | none => exact h _ List.mem_cons_self
  | some w => exact h _ (List.mem_cons_of_mem _ (List.mem_of_getElem? hi))

/-- `lw x5, 0(x6)`, `addi x7, x5, 1`, `sw x7, 8(x6)`, `jal x1, 8`, `addi x1, x0, 0` and
`addi x8, x1, 4`: a load-use pair, a store and a jump over one instruction. -/
def hazards : List (BitVec 32) :=
  [0x00032283#32, 0x00128393#32, 0x00732423#32, 0x008000EF#32, 0x00000093#32, 0x00408413#32]

/-- Twenty cycles of a program with these hazards. -/
theorem pipeline_refines_hazards :
    Refines (romDpi hazards) (afterReset Regfile.initial Csrfile.initial ())
      (SeqState.afterReset Regfile.initial Csrfile.initial ()) 20 := by
  have hall : ∀ w ∈ nopInstr :: hazards, Plain w := by
    simp only [hazards, List.forall_mem_cons, List.not_mem_nil, false_implies, implies_true,
      and_true]
    decide +kernel
  exact pipeline_refines (romDpi hazards) _ _ () (fun _ => plain_romDpi hall _)
    (fun _ _ => instrMemRead_romDpi _ _ _ _) 20

end TopCpu

end Riscv64Cpu.Pipeline
