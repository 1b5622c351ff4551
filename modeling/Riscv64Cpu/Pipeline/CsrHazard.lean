import Riscv64Cpu.Pipeline.Issue

set_option relaxedAutoImplicit false
set_option autoImplicit false

/-!
# CSR instructions in flight

A CSR is read in decode and written three edges later, and nothing stands between: a CSR
instruction reads the value of the older ones only when none of them is still on its way with
a change of that CSR, and the old CSR value it takes to its destination is not forwarded.  In
runs in which neither matters, the CSR file goes through the states of performing the
instructions one at a time.

## Main definitions

* `Pipeline.TopCpu.CsrKept` — the older instructions in flight do not change a CSR.
* `Pipeline.TopCpu.CsrSafe` — what the instruction that decode hands on reads is not in flight
  in a CSR instruction.
* `Pipeline.TopCpu.CsrOneAtATime` — what holds of a cycle when the instructions are performed one
  by one.

## Main results

* `Pipeline.TopCpu.read_of_kept` — a CSR that is kept reads as the older instructions leave it.
* `Pipeline.TopCpu.csrOneAtATime` — runs of safe reads.

## Design

`mret` raises `csr_wen` as well, so it counts among the instructions that write a CSR.
-/

namespace Riscv64Cpu.Pipeline

open Clocked

namespace TopCpu

variable {M : Type} (dpi : Dpi M) (s : TopCpu M)

/-! ## Safe reads -/

/-- No older instruction in flight changes the CSR `id`. -/
def CsrKept (id : BitVec 12) : Prop :=
  ∀ w ∈ s.csrWrites dpi, applyWrite s.csrfile.csr w id = s.csrfile.csr id

/-- When decode hands on an instruction, no older instruction in flight changes the CSR that a
CSR instruction or `mret` reads, and no CSR instruction in flight spoils one of its sources. -/
structure CsrSafe : Prop where
  csr : EntersE dpi s → instCsrInstr s.regD.instr = true → s.CsrKept dpi (csrId s.regD.instr)
  mret : EntersE dpi s → instMret s.regD.instr = true → s.CsrKept dpi Csr.mepc
  sources : EntersE dpi s →
    CsrSourceExact s (rs1 s.regD.instr) ∧ CsrSourceExact s (rs2 s.regD.instr)

/-- A CSR instruction that decode hands on does not name the timer. -/
def NoTimerCsr : Prop :=
  EntersE dpi s → instCsrInstr s.regD.instr = true → csrId s.regD.instr ≠ Csr.timer

instance (id : BitVec 12) : Decidable (s.CsrKept dpi id) :=
  List.decidableBAll _ _

instance : Decidable (s.CsrSafe dpi) :=
  decidable_of_iff
    ((EntersE dpi s → instCsrInstr s.regD.instr = true → s.CsrKept dpi (csrId s.regD.instr)) ∧
      (EntersE dpi s → instMret s.regD.instr = true → s.CsrKept dpi Csr.mepc) ∧
      (EntersE dpi s →
        CsrSourceExact s (rs1 s.regD.instr) ∧ CsrSourceExact s (rs2 s.regD.instr)))
    ⟨fun h => ⟨h.1, h.2.1, h.2.2⟩, fun h => ⟨h.csr, h.mret, h.sources⟩⟩

instance : Decidable (s.NoTimerCsr dpi) := inferInstanceAs (Decidable (_ → _ → _))

/-- The instruction that retires, by its pc and its word. -/
def retired : Option (BitVec 64 × BitVec 32) :=
  if s.regW.valid then some (commitPc s.regW.commitInfo, commitInstr s.regW.commitInfo) else none

/-- At cycle `n` of the run from `s` the CSR instructions look as if performed one at a time:
decode stands on the path of the program and reads what the older instructions leave, and two
cycles later, when the instructions that have been in execute in the first `n` cycles have
retired, the CSR file apart from the timer is as they leave it. -/
structure CsrOneAtATime (n : ℕ) : Prop where
  path : EntersE dpi (run dpi n s) → (run dpi n s).regD.valid = true →
    (run dpi n s).regD.pc = (s.seqAfter dpi (n + 1)).pc
  csr : EntersE dpi (run dpi n s) → instCsrInstr (run dpi n s).regD.instr = true →
    ((run dpi n s).decodeOut dpi).csrRdata1 =
      (s.seqAfter dpi (n + 1)).csrfile.read (csrId (run dpi n s).regD.instr)
  mret : EntersE dpi (run dpi n s) → instMret (run dpi n s).regD.instr = true →
    ((run dpi n s).decodeOut dpi).csrRdata2 = (s.seqAfter dpi (n + 1)).csrfile.read Csr.mepc
  retired : trace (fun i => (run dpi i s).retired) (n + 2) =
    (s.issues dpi n).map fun f => (f.pc, f.instr)
  csrfile : ∀ id, id ≠ Csr.timer →
    (run dpi (n + 2) s).csrfile.csr id = (s.seqAfter dpi n).csrfile.csr id

variable {dpi} {s} {σ : SeqState M}

/-- **A safe read** gives what the older instructions leave: the pending writes leave the CSR
as decode reads it. -/
theorem read_of_kept (h : Drained dpi s σ) (hc : DrainedCsr dpi s σ) (hi : Inv dpi s)
    {id : BitVec 12} (ht : id ≠ Csr.timer) (hk : s.CsrKept dpi id) :
    s.csrfile.read id = (s.issueNext dpi σ).csrfile.read id := by
  have hv : (s.issueNext dpi σ).csrfile.csr id = s.csrfile.csr id := by
    rw [h.issueNext_csr hi ht]
    calc applyWrite σ.csrfile.csr (s.regWOfE dpi).csrWrite id
        = drain s.csrfile.csr (s.csrWrites dpi) id :=
          (applyWrite_congr _ (hc id ht)).symm
      _ = s.csrfile.csr id := drain_of_kept _ hk
  rw [Csrfile.read, Csrfile.read, hv]

/-- Safe reads are those of the sequential machine. -/
lemma csrReads_of_safe (h : Drained dpi s σ) (hc : DrainedCsr dpi s σ) (hi : Inv dpi s)
    (hs : s.CsrSafe dpi) (ht : s.NoTimerCsr dpi) (he : EntersE dpi s) :
    CsrReads s (s.issueNext dpi σ).csrfile := by
  refine ⟨fun hw => ?_, fun hm => ?_⟩
  · rw [csrRid1_of_csrInstr hw]
    exact read_of_kept h hc hi (ht he hw) (hs.csr he hw)
  · rw [csrRid2, if_pos hm]
    exact read_of_kept h hc hi (by decide) (hs.mret he hm)

/-! ## Whole runs -/

section Run

variable (dpi) (regfile : Regfile) (csrfile : Csrfile) (mem : M) {n : ℕ}
  (hsafe : ∀ m < n, (run dpi m (afterReset regfile csrfile mem)).CsrSafe dpi)
  (htimer : ∀ m < n, (run dpi m (afterReset regfile csrfile mem)).NoTimerCsr dpi)
include hsafe htimer

/-- The drained pipeline in a run of safe reads. -/
lemma drained_run :
    Drained dpi (run dpi n (afterReset regfile csrfile mem))
        ((afterReset regfile csrfile mem).seqAfter dpi n) ∧
      DrainedCsr dpi (run dpi n (afterReset regfile csrfile mem))
        ((afterReset regfile csrfile mem).seqAfter dpi n) := by
  induction n with
  | zero =>
    exact ⟨drained_afterReset dpi regfile csrfile mem rfl rfl,
      drainedCsr_afterReset dpi regfile csrfile mem⟩
  | succ n ih =>
    have hr := (reachable_afterReset dpi regfile csrfile mem).run n
    have hs := hsafe n (by omega)
    obtain ⟨h, hc⟩ := ih (fun m hm => hsafe m (by omega)) (fun m hm => htimer m (by omega))
    rw [run_succ, seqAfter_succ]
    refine ⟨h.edge hr.inv (fun he hv => ?_) (fun he _ => ?_), hc.edge h hr.inv⟩
    · exact operandsExact_of_sources hr.inv hv he (hs.sources he)
    · exact csrReads_of_safe h hc hr.inv hs (htimer n (by omega)) he

/-- The path of the program in a run of safe reads without atomic instructions. -/
private lemma onPath_run
    (hamo : ∀ m < n, instAmo ((run dpi m (afterReset regfile csrfile mem)).fetchOut dpi).instr =
      false) :
    OnPath dpi (run dpi n (afterReset regfile csrfile mem))
        ((afterReset regfile csrfile mem).seqAfter dpi n) ∧
      NoAmo (run dpi n (afterReset regfile csrfile mem)) := by
  induction n with
  | zero =>
    exact ⟨onPath_afterReset dpi regfile csrfile mem rfl, noAmo_afterReset regfile csrfile mem⟩
  | succ n ih =>
    have hi := ((reachable_afterReset dpi regfile csrfile mem).run n).inv
    obtain ⟨hp, ha⟩ := ih (fun m hm => hsafe m (by omega)) (fun m hm => htimer m (by omega))
      (fun m hm => hamo m (by omega))
    have h := (drained_run dpi regfile csrfile mem (fun m hm => hsafe m (by omega))
      fun m hm => htimer m (by omega) : _ ∧ DrainedCsr dpi (run dpi n _) _).1
    have h' := (drained_run dpi regfile csrfile mem hsafe htimer).1
    rw [run_succ, seqAfter_succ] at h' ⊢
    exact ⟨hp.edge h h' hi ha, ha.edge (hamo n (by omega))⟩

end Run

/-- The instruction in execute retires two edges later. -/
private lemma retired_two_edges (h : Inv dpi s) :
    (run dpi 2 s).retired = s.issued.map fun f => (f.pc, f.instr) := by
  obtain ⟨hv, hci⟩ := run_two_regW h
  rw [retired, issued, hv]
  split_ifs with he
  · rw [(hci he).1, (hci he).2]
    rfl
  · rfl

/-- The instructions retire in the order in which they enter execute. -/
private lemma retired_eq (dpi : Dpi M) (regfile : Regfile) (csrfile : Csrfile) (mem : M) (n : ℕ) :
    trace (fun i => (run dpi i (afterReset regfile csrfile mem)).retired) (n + 2) =
      ((afterReset regfile csrfile mem).issues dpi n).map fun f => (f.pc, f.instr) := by
  have hobs : ∀ w : RegW, w.valid = false →
      (if w.valid then some (commitPc w.commitInfo, commitInstr w.commitInfo) else none) = none :=
    fun w hw => if_neg (by simp [hw])
  have h2 : ∀ i, (run dpi 2 (run dpi i (afterReset regfile csrfile mem))).retired =
      (run dpi i (afterReset regfile csrfile mem)).issued.map fun f => (f.pc, f.instr) :=
    fun i => retired_two_edges ((reachable_afterReset dpi regfile csrfile mem).run i).inv
  calc trace (fun i => (run dpi i (afterReset regfile csrfile mem)).retired) (n + 2)
      = trace (fun i => (run dpi 2 (run dpi i (afterReset regfile csrfile mem))).retired) n :=
        trace_regW dpi regfile csrfile mem hobs n
    _ = trace (fun i => (run dpi i (afterReset regfile csrfile mem)).issued.map
          fun f => (f.pc, f.instr)) n := by simp only [h2]
    _ = ((afterReset regfile csrfile mem).issues dpi n).map fun f => (f.pc, f.instr) :=
        trace_map ..

/-- **CSR instructions one at a time.**  In every run from reset, up to every cycle `n`, of a
program without atomic instructions and without CSR instructions on the timer: if whenever
decode handed on an instruction no older instruction in flight was going to change the CSR it
reads and no CSR instruction in flight spoiled its sources, then decode stands on the path of
the program and reads what the older instructions leave, and the CSR file after any number of
retired instructions is the one after performing these one at a time.

**Proof sketch.** The drained pipeline follows the sequential machine that performs the
instructions as they enter execute (`drained_run`); two edges later nothing of them is in flight
(`run_two_csr`), and exactly these instructions have retired (`retired_eq`). -/
theorem csrOneAtATime (dpi : Dpi M) (regfile : Regfile) (csrfile : Csrfile) (mem : M) (n : ℕ)
    (hamo : ∀ m ≤ n, instAmo ((run dpi m (afterReset regfile csrfile mem)).fetchOut dpi).instr =
      false)
    (htimer : ∀ m ≤ n, (run dpi m (afterReset regfile csrfile mem)).NoTimerCsr dpi)
    (hsafe : ∀ m ≤ n, (run dpi m (afterReset regfile csrfile mem)).CsrSafe dpi) :
    (afterReset regfile csrfile mem).CsrOneAtATime dpi n := by
  have hi := ((reachable_afterReset dpi regfile csrfile mem).run n).inv
  have hsafe' : ∀ m < n, _ := fun m hm => hsafe m (Nat.le_of_lt hm)
  have htimer' : ∀ m < n, _ := fun m hm => htimer m (Nat.le_of_lt hm)
  obtain ⟨h, hc⟩ := drained_run dpi regfile csrfile mem hsafe' htimer'
  have hp := (onPath_run dpi regfile csrfile mem hsafe' htimer'
    fun m hm => hamo m (Nat.le_of_lt hm)).1
  have hreads : EntersE dpi (run dpi n (afterReset regfile csrfile mem)) → CsrReads _ _ := fun he =>
    csrReads_of_safe h hc hi (hsafe n le_rfl) (htimer n le_rfl) he
  refine ⟨fun he hv => ?_, fun he hw => ?_, fun he hm => ?_,
    retired_eq dpi regfile csrfile mem n, fun id hid => ?_⟩
  · rw [seqAfter_succ]
    exact hp.regD (not_held_of_entersE hv he).1 hv
  · rw [seqAfter_succ, ← csrRid1_of_csrInstr hw]
    exact (hreads he).csr hw
  · have hrid : csrRid2 (run dpi n (afterReset regfile csrfile mem)).regD.instr = Csr.mepc := by
      rw [csrRid2, if_pos hm]
    rw [seqAfter_succ, ← hrid]
    exact (hreads he).mret hm
  · rw [Nat.add_comm, ← run_run, run_two_csr hid]
    exact hc id hid

/-- `addi x1, x0, 5`, `csrrw x5, mscratch, x1`, three nops and `csrrs x6, mscratch, x0`. -/
def csrrsLater : List (BitVec 32) :=
  [0x00500093#32, 0x340092F3#32, nopInstr, nopInstr, nopInstr, 0x34002373#32]

/-- With three instructions between them the second CSR instruction reads what the first one
wrote. -/
theorem csrOneAtATime_csrrsLater : (Memory.boot csrrsLater).CsrOneAtATime Memory.dpi 8 := by
  have h : ∀ m ∈ List.range 9,
      instAmo ((run Memory.dpi m (Memory.boot csrrsLater)).fetchOut Memory.dpi).instr = false ∧
        (run Memory.dpi m (Memory.boot csrrsLater)).NoTimerCsr Memory.dpi ∧
        (run Memory.dpi m (Memory.boot csrrsLater)).CsrSafe Memory.dpi := by
    decide +kernel
  have hm : ∀ m ≤ 8, m ∈ List.range 9 := fun m hm => List.mem_range.mpr (by omega)
  exact csrOneAtATime Memory.dpi _ _ _ 8 (fun m hn => (h m (hm m hn)).1)
    (fun m hn => (h m (hm m hn)).2.1) fun m hn => (h m (hm m hn)).2.2

/-- `addi x1, x0, 5`, `csrrw x0, mscratch, x1` and `csrrs x5, mscratch, x0`. -/
def csrrsNext : List (BitVec 32) := [0x00500093#32, 0x34009073#32, 0x340022F3#32]

/-- Directly behind a write of `mscratch`, decode reads the old value. -/
theorem csr_read_stale : ¬ ∀ (M : Type) (dpi : Dpi M) (regfile : Regfile) (csrfile : Csrfile)
    (mem : M) (n : ℕ),
    (∀ m ≤ n, instAmo ((run dpi m (afterReset regfile csrfile mem)).fetchOut dpi).instr =
      false) →
    (∀ m ≤ n, (run dpi m (afterReset regfile csrfile mem)).NoTimerCsr dpi) →
      (afterReset regfile csrfile mem).CsrOneAtATime dpi n := by
  intro h
  have hpre : ∀ m ∈ List.range 4,
      instAmo ((run Memory.dpi m (Memory.boot csrrsNext)).fetchOut Memory.dpi).instr = false ∧
        (run Memory.dpi m (Memory.boot csrrsNext)).NoTimerCsr Memory.dpi := by
    decide +kernel
  have hm : ∀ m ≤ 3, m ∈ List.range 4 := fun m hm => List.mem_range.mpr (by omega)
  have hs : (Memory.boot csrrsNext).CsrOneAtATime Memory.dpi 3 :=
    h _ Memory.dpi _ _ _ 3 (fun m hn => (hpre m (hm m hn)).1) fun m hn => (hpre m (hm m hn)).2
  have hr := hs.csr (by decide +kernel) (by decide +kernel)
  revert hr
  decide +kernel

end TopCpu

end Riscv64Cpu.Pipeline
