import Riscv64Cpu.Memory.Pmem
import Riscv64Cpu.Pipeline.Drain

set_option relaxedAutoImplicit false
set_option autoImplicit false

/-!
# The read-only CSRs

The numbers of the read-only CSRs have bits 11 and 10 up.  `check_csr_wid.v` lets a write to every
implemented CSR through, these among them, so a read-only CSR keeps its value in a run exactly as
long as the CSR instructions that name it write back the value it has.

## Main definitions

* `Pipeline.readOnly` — the number of a read-only CSR.
* `Pipeline.ReadOnlyKept` — the read-only CSRs are as they were, apart from the timer.
* `Pipeline.TopCpu.WritesBack` — the CSR instruction in write back does not change a read-only
  CSR.

## Main results

* `Pipeline.TopCpu.readOnly_edge_iff` — one clock edge.
* `Pipeline.TopCpu.readOnlyKept_iff` — whole runs.
-/

namespace Riscv64Cpu.Pipeline

open Clocked

/-- The number of a read-only CSR: bits 11 and 10 are up. -/
def readOnly (id : BitVec 12) : Bool := id.extractLsb' 10 2 == 0b11#2

/-- The read-only CSRs that the processor implements. -/
example : (csrUser ++ csrMachine ++ csrSuper ++ csrPmp).filter readOnly =
    [Csr.cycle, Csr.timer, Csr.instret, Csr.mvendorid, Csr.marchid, Csr.mimpid, Csr.mhartid,
      Csr.mconfigptr] := by
  decide

/-- After `n` edges the read-only CSRs are as they were, and the timer has counted the edges. -/
structure ReadOnlyKept (f g : Csrfile) (n : ℕ) : Prop where
  csr : ∀ id, readOnly id = true → id ≠ Csr.timer → g.csr id = f.csr id
  timer : g.csr Csr.timer = f.csr Csr.timer + BitVec.ofNat 64 n

/-- The timer counts, whatever is written. -/
lemma Csrfile.next_timer (f : Csrfile) (wbSystemInfo : BitVec 7) (wbCsrWen : Bool)
    (wbCsrWid : BitVec 12) (wbCsrWdata : BitVec 64) :
    (f.next false wbSystemInfo wbCsrWen wbCsrWid wbCsrWdata).csr Csr.timer =
      f.csr Csr.timer + 1#64 := by
  simp [Csrfile.next]

namespace TopCpu

variable {M : Type} {dpi : Dpi M} {s : TopCpu M}

/-- A valid CSR instruction in write back that names an implemented read-only CSR other than the
timer writes the value that the CSR has. -/
def WritesBack (s : TopCpu M) : Prop :=
  s.regW.valid = true → instCsrInstr (commitInstr s.regW.commitInfo) = true →
    readOnly (csrId (commitInstr s.regW.commitInfo)) = true →
      csrId (commitInstr s.regW.commitInfo) ≠ Csr.timer →
        checkCsrId (csrId (commitInstr s.regW.commitInfo)) = true →
          s.regW.aluResult = s.csrfile.csr (csrId (commitInstr s.regW.commitInfo))

/-! ## One clock edge -/

/-- What writes a read-only CSR is a CSR instruction that names it: a bubble writes no CSR, and
`mret` writes `mstatus`. -/
lemma csrWrite_readOnly (h : Inv dpi s) {id : BitVec 12} {v : BitVec 64}
    (hr : readOnly id = true) : s.regW.csrWrite = some (id, v) ↔
      s.regW.valid = true ∧ instCsrInstr (commitInstr s.regW.commitInfo) = true ∧
        csrId (commitInstr s.regW.commitInfo) = id ∧ checkCsrId id = true ∧
          s.regW.aluResult = v := by
  obtain ⟨w, hw, hf⟩ := h.holdsW
  cases hv : s.regW.valid with
  | false => simp [hw.csrWrite_of_inert (hf.bubble hv).inert]
  | true =>
    rw [← hf.eq hv]
    have hwen : s.regW.csrWen = decodeCsrWen w := hw.csrWen
    have hwid : s.regW.csrWid = decodeCsrWid w := hw.csrWid
    cases hm : instMret w with
    | true =>
      have hc := not_instCsrInstr_of_instMret hm
      have hne : Csr.mstatus ≠ id := by
        rintro rfl
        revert hr
        decide
      simp [RegW.csrWrite, hwid, decodeCsrWid, hm, hc, hne]
    | false =>
      simp only [RegW.csrWrite, hwen, hwid, decodeCsrWen, decodeCsrWid, hm, Bool.false_eq_true,
        if_false]
      split_ifs with hc
      · simp only [Option.some.injEq, Prod.mk.injEq, hc, true_and]
        constructor
        · rintro ⟨rfl, rfl⟩
          exact ⟨rfl, hc.2, rfl⟩
        · rintro ⟨rfl, -, rfl⟩
          exact ⟨rfl, rfl⟩
      · constructor
        · intro hn
          cases hn
        · rintro ⟨-, hi, rfl, hk, -⟩
          exact absurd ⟨hi, hk⟩ hc

/-- **One edge** keeps the read-only CSRs exactly if the CSR instruction in write back does. -/
theorem readOnly_edge_iff (h : Inv dpi s) :
    (∀ id, readOnly id = true → id ≠ Csr.timer →
      (step dpi false s).csrfile.csr id = s.csrfile.csr id) ↔ s.WritesBack := by
  have hnext : ∀ id, id ≠ Csr.timer → (step dpi false s).csrfile.csr id =
      applyWrite s.csrfile.csr s.regW.csrWrite id := fun id hid => s.csrfile.next_csr s.regW hid
  constructor
  · intro hk hv hi hr ht hc
    have hw := (csrWrite_readOnly h hr).mpr ⟨hv, hi, rfl, hc, rfl⟩
    rw [← hk _ hr ht, hnext _ ht, hw, applyWrite_hit]
  · intro hb id hr ht
    rw [hnext id ht]
    by_cases hit : Hits s.regW.csrWrite id
    · obtain ⟨v, hw⟩ := hit
      obtain ⟨hv, hi, rfl, hc, rfl⟩ := (csrWrite_readOnly h hr).mp hw
      rw [hw, applyWrite_hit]
      exact hb hv hi hr ht hc
    · exact applyWrite_miss _ hit

/-! ## Whole runs -/

/-- The timer in a run. -/
private lemma timer_run (dpi : Dpi M) (s : TopCpu M) (n : ℕ) :
    (run dpi n s).csrfile.csr Csr.timer = s.csrfile.csr Csr.timer + BitVec.ofNat 64 n := by
  induction n with
  | zero => simp
  | succ n ih =>
    have hstep : (step dpi false (run dpi n s)).csrfile.csr Csr.timer =
        (run dpi n s).csrfile.csr Csr.timer + 1#64 := Csrfile.next_timer ..
    rw [run_succ, hstep, ih, BitVec.add_assoc, BitVec.ofNat_add]

/-- **The read-only CSRs in a run**: in every run from reset, the read-only CSRs are as reset left
them, apart from the timer, in every state up to cycle `n` exactly if in no cycle before a CSR
instruction in write back gives one of them another value.

**Proof sketch.** Each edge by itself (`readOnly_edge_iff`); in the one direction from the values at
its two ends, in the other by induction over the run. -/
theorem readOnlyKept_iff (dpi : Dpi M) (regfile : Regfile) (csrfile : Csrfile) (mem : M) (n : ℕ) :
    (∀ m ≤ n, ReadOnlyKept (afterReset regfile csrfile mem).csrfile
      (run dpi m (afterReset regfile csrfile mem)).csrfile m) ↔
    ∀ m < n, (run dpi m (afterReset regfile csrfile mem)).WritesBack := by
  have hr := reachable_afterReset dpi regfile csrfile mem
  generalize afterReset regfile csrfile mem = s at hr ⊢
  have hedge : ∀ m, (∀ id, readOnly id = true → id ≠ Csr.timer →
      (run dpi (m + 1) s).csrfile.csr id = (run dpi m s).csrfile.csr id) ↔
        (run dpi m s).WritesBack := by
    intro m
    rw [run_succ]
    exact readOnly_edge_iff (hr.run m).inv
  constructor
  · intro hk m hm
    refine (hedge m).mp fun id hid ht => ?_
    rw [(hk (m + 1) hm).csr id hid ht, (hk m (Nat.le_of_lt hm)).csr id hid ht]
  · intro hb m hm
    refine ⟨?_, timer_run dpi s m⟩
    induction m with
    | zero => exact fun _ _ _ => rfl
    | succ m ih =>
      intro id hid ht
      rw [(hedge m).mpr (hb m hm) id hid ht]
      exact ih (Nat.le_of_lt hm) id hid ht

/-- `addi x1, x0, 5` and `csrrw x0, mvendorid, x1`. -/
def csrrwMvendorid : List (BitVec 32) := [0x00500093#32, 0xF1109073#32]

/-- Software writes `mvendorid`. -/
theorem mvendorid_written : ¬ ∀ (M : Type) (dpi : Dpi M) (regfile : Regfile) (csrfile : Csrfile)
    (mem : M) (n : ℕ), ReadOnlyKept (afterReset regfile csrfile mem).csrfile
      (run dpi n (afterReset regfile csrfile mem)).csrfile n := by
  intro h
  have hv := (h _ Memory.dpi Regfile.initial Csrfile.initial (Memory.image csrrwMvendorid) 6).csr
    Csr.mvendorid (by decide) (by decide)
  revert hv
  decide +kernel

end TopCpu

end Riscv64Cpu.Pipeline
