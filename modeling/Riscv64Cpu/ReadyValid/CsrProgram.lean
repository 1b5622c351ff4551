import Riscv64Cpu.Isa.CsrOnPipeline
import Riscv64Cpu.ReadyValid.Program

set_option relaxedAutoImplicit false
set_option autoImplicit false

/-!
# CSR instructions on the rewrite

Programs with CSR instructions on `rv64-pipeline-cpu-2026-ready-valid-mmu`.  It forwards as the old
processor does and has no interlock for CSRs either, so software keeps the same distance; and as it
starts a cycle later, it goes hand in hand with the old processor only as long as no word that they
fetch reads the timer.

## Main definitions

* `ReadyValid.CsrTame` — what a program must keep to on the rewrite.

## Main results

* `ReadyValid.TopCpu.refines_spaced` — the first `N` instructions, with their CSRs.
* `ReadyValid.rewrite_implements_zicsr` — RV64IM with Zicsr on the rewrite.
-/

namespace Riscv64Cpu.ReadyValid

open Clocked Pipeline

/-- **The first `N` instructions on the rewrite, with their CSRs**: under the conditions for the old
processor, and when no word in their shadows reads the timer, they retire one cycle later.

**Proof sketch.** From frozen memory the old processor follows the sequential machine
(`frozen_spaced`), hand in hand with the rewrite (`match_run_of_noTimer`). -/
theorem TopCpu.refines_spaced {M : Type} (dpi : Dpi M) (regfile : Regfile) (csrfile : Csrfile)
    (mem : M) {N : ℕ}
    (hkept : ∀ a, InShadow dpi (Pipeline.TopCpu.afterReset regfile csrfile mem).seqState N a →
      ∀ j < N, dpi.instrMemRead
          ((Pipeline.TopCpu.afterReset regfile csrfile mem).seqState.run dpi j).mem a =
        dpi.instrMemRead mem a)
    (hamo : ∀ a, InShadow dpi (Pipeline.TopCpu.afterReset regfile csrfile mem).seqState N a →
      instAmo (dpi.instrMemRead mem a) = false)
    (htimer : ∀ a, InShadow dpi (Pipeline.TopCpu.afterReset regfile csrfile mem).seqState N a →
      NoTimer (dpi.instrMemRead mem a))
    (hsp : SpacedTo dpi (Pipeline.TopCpu.afterReset regfile csrfile mem).seqState N)
    (hN : 0 < N) :
    ∃ n < 5 * N,
      trace (fun i => (run dpi i (afterReset regfile csrfile mem)).core.regW.commitEvent) (n + 2) =
        (List.range N).map (fun i => ((Pipeline.TopCpu.afterReset regfile csrfile mem).seqState.run
          dpi i).commitEvent dpi) ∧
      (run dpi (n + 1) (afterReset regfile csrfile mem)).mem =
        ((Pipeline.TopCpu.afterReset regfile csrfile mem).seqState.run dpi N).mem ∧
      (run dpi (n + 2) (afterReset regfile csrfile mem)).regfile =
        ((Pipeline.TopCpu.afterReset regfile csrfile mem).seqState.run dpi N).regfile ∧
      ∀ id, id ≠ Csr.timer → (run dpi (n + 2) (afterReset regfile csrfile mem)).csrfile.csr id =
        ((Pipeline.TopCpu.afterReset regfile csrfile mem).seqState.run dpi N).csrfile.csr id := by
  obtain ⟨hfollow, hfcsr⟩ :=
    Pipeline.TopCpu.frozen_spaced dpi regfile csrfile mem hkept hamo hsp
  obtain ⟨c, hc, hcN, hevents, hmem, hregs, hcsr⟩ := refines_frozen dpi regfile csrfile mem hfollow
    (match_run_of_noTimer _ regfile csrfile mem
      (Pipeline.TopCpu.word_run_frozen htimer noTimer_nopInstr _)) hkept hN
  exact ⟨c + 1, by omega, hevents, hmem, hregs, fun id hid =>
    (hcsr id hid).trans (hfcsr c hcN id hid)⟩

/-! ## RV64IM with Zicsr -/

/-- **What a program must keep to on the rewrite**: what it must on the old processor, and the two
words behind an instruction do not read the timer. -/
structure CsrTame (lo hi : ℕ) (s : Rv64imZicsr.Machine) (i : Rv64imZicsr.Instr) : Prop
    extends Pipeline.CsrTame lo hi s i where
  noTimer : NoTimer (s.word (s.pc + 4#64)) ∧ NoTimer (s.word (s.pc + 8#64))

instance decidableCsrTame (lo hi : ℕ) (s : Rv64imZicsr.Machine) (i : Rv64imZicsr.Instr) :
    Decidable (CsrTame lo hi s i) :=
  decidable_of_iff (Pipeline.CsrTame lo hi s i ∧ NoTimer (s.word (s.pc + 4#64)) ∧
      NoTimer (s.word (s.pc + 8#64)))
    ⟨fun ⟨h1, h2⟩ => ⟨h1, h2⟩, fun ⟨h1, h2⟩ => ⟨h1, h2⟩⟩

/-- Such a program keeps to what it must on the old processor. -/
lemma fetches_old {lo hi : ℕ} {is : List Rv64imZicsr.Instr} {s : Rv64imZicsr.Machine}
    (h : s.Fetches (CsrTame lo hi) is) : s.Fetches (Pipeline.CsrTame lo hi) is :=
  h.mono fun _ _ hi => ⟨hi.1, hi.2.toCsrTame⟩

section Main

variable (regfile : Regfile) (csrfile : Csrfile) (mem : Memory.Pmem) {lo hi : ℕ}
  {is : List Rv64imZicsr.Instr} (hlo : Memory.configMbase ≤ lo)
  (hhi : hi ≤ Memory.configMbase + Memory.configMsize)
  (h : (csrStart regfile csrfile mem).Fetches (CsrTame lo hi) is)
include hlo hhi h

/-- The words in the shadows of the instructions do not read the timer. -/
private lemma noTimer_inShadow (a : BitVec 64) (ha : InShadow Memory.dpi
    (Pipeline.TopCpu.afterReset regfile csrfile mem).seqState is.length a) :
    NoTimer (Memory.dpi.instrMemRead mem a) := by
  have hold := fetches_old h
  refine (csrCodeRun regfile csrfile mem hlo hhi hold).of_shadow hlo hhi (fun k hk b hb => ?_) a ha
  obtain ⟨hw, ht⟩ := @Executes.ok_iterate _ _ _ _ _ _ _ (SeqState.step Memory.dpi)
    SeqState.csrMachine
    (fun t i ht => SeqState.csrMachine_step hlo hhi t i ⟨ht.1, ht.2.toCsrTame⟩)
    (Pipeline.TopCpu.afterReset regfile csrfile mem).seqState h hk
  simp only [shadow, List.mem_cons, List.not_mem_nil, or_false] at hb
  rcases hb with rfl | rfl | rfl
  · have hpc := noTimer_encode ht.allowed
    rw [← hw] at hpc
    exact hpc
  · exact ht.noTimer.1
  · exact ht.noTimer.2

/-- **The rewrite implements RV64IM with Zicsr**, as the old processor does: under the same
conditions, and when no word close behind an instruction reads the timer, it has retired exactly the
instructions of the program within five cycles an instruction and one cycle more, with the memory,
the registers and the CSRs of the machine. -/
theorem rewrite_implements_zicsr (hsp : Spaced (is.map Rv64imZicsr.Instr.encode)) (hne : is ≠ []) :
    ∃ n < 5 * is.length,
      trace (fun i => (TopCpu.run Memory.dpi i
        (TopCpu.afterReset regfile csrfile mem)).core.regW.commitEvent) (n + 2) =
        outputs Rv64imZicsr.Instr.exec csrEvent is (csrStart regfile csrfile mem) ∧
      Memory.guestBytes
          (TopCpu.run Memory.dpi (n + 1) (TopCpu.afterReset regfile csrfile mem)).mem =
        ((csrStart regfile csrfile mem).after is).mem ∧
      (TopCpu.run Memory.dpi (n + 2) (TopCpu.afterReset regfile csrfile mem)).regfile.regs =
        ((csrStart regfile csrfile mem).after is).regs ∧
      (TopCpu.run Memory.dpi (n + 2) (TopCpu.afterReset regfile csrfile mem)).csrfile.visible =
        ((csrStart regfile csrfile mem).after is).csrs := by
  have hold := fetches_old h
  obtain ⟨n, hn, hev, hmem, hregs, hcsr⟩ := TopCpu.refines_spaced Memory.dpi regfile csrfile mem
    ((csrCodeRun regfile csrfile mem hlo hhi hold).kept hlo hhi)
    (noAmo_inShadow regfile csrfile mem hlo hhi hold)
    (noTimer_inShadow regfile csrfile mem hlo hhi h)
    (csrSpacedTo regfile csrfile mem hlo hhi hold hsp) (List.length_pos_iff.mpr hne)
  have hend := csrMachine_run_length regfile csrfile mem hlo hhi hold
  refine ⟨n, hn, hev.trans (csrEvents_run regfile csrfile mem hlo hhi hold), ?_, ?_, ?_⟩
  · rw [hmem, ← hend]
    rfl
  · rw [hregs, ← hend]
    rfl
  · rw [Csrfile.visible_congr hcsr, ← hend]
    rfl

end Main

/-- Within 51 cycles the bits are set in `x10`, and `mscratch` holds the sum. -/
theorem rewrite_implements_zicsr_csrProgram : ∃ n < 50,
    (TopCpu.run Memory.dpi (n + 2) (TopCpu.afterReset Regfile.initial Csrfile.initial
      (Memory.image (csrProgram.map Rv64imZicsr.Instr.encode)))).regfile.reg 10#5 = 15#64 ∧
    (TopCpu.run Memory.dpi (n + 2) (TopCpu.afterReset Regfile.initial Csrfile.initial
      (Memory.image (csrProgram.map Rv64imZicsr.Instr.encode)))).csrfile.csr Csr.mscratch =
        60#64 := by
  obtain ⟨n, hn, -, -, hregs, hcsrs⟩ := @rewrite_implements_zicsr Regfile.initial Csrfile.initial
    (Memory.image (csrProgram.map Rv64imZicsr.Instr.encode)) 0x80000000 0x80000040 csrProgram
    (by decide) (by decide) (by decide +kernel) (by decide +kernel) (by decide)
  refine ⟨n, hn, ?_, ?_⟩
  · refine (congrArg (fun x => x.get 10#5) hregs).trans ?_
    decide +kernel
  · refine (congrFun hcsrs Csr.mscratch).trans ?_
    decide +kernel

end Riscv64Cpu.ReadyValid
