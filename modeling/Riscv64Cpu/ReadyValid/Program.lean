import Riscv64Cpu.Isa.OnPipeline
import Riscv64Cpu.Pipeline.Spaced
import Riscv64Cpu.ReadyValid.Equivalence

set_option relaxedAutoImplicit false
set_option autoImplicit false

/-!
# Programs on the rewrite

What the first instructions of a program do on `rv64-pipeline-cpu-2026-ready-valid-mmu`: they retire
as on the old processor, one cycle later.

## Main results

* `ReadyValid.TopCpu.match_run_of_noTimer` — the relation along a run.
* `ReadyValid.TopCpu.refines_frozen` — the first `N` instructions.
* `ReadyValid.TopCpu.refines_prefix` — the first `N` instructions, of calm words.
* `ReadyValid.rewrite_implements_rv64im` — RV64IM on the rewrite.
-/

namespace Riscv64Cpu.ReadyValid

open Clocked Pipeline

namespace TopCpu

variable {M : Type} {dpi : Dpi M} {r : TopCpu M} {s : Pipeline.TopCpu M}

/-! ## The relation along a run -/

/-- Both show the same event. -/
lemma Match.commitEvent (h : Match r s) (hr : Inv r) :
    r.core.regW.commitEvent = s.regW.commitEvent := by
  have hmap : ∀ w : RegW, w.commitEvent =
      w.committed.map fun o => ⟨o.pc, o.instr, o.nextPc⟩ := by
    intro w
    rw [RegW.commitEvent, RegW.committed]
    split_ifs <;> rfl
  rw [hmap, hmap, h.committed hr]

/-- **The relation along a run that does not read the timer.** -/
theorem match_run_of_noTimer (dpi : Dpi M) (regfile : Regfile) (csrfile : Csrfile) (mem : M)
    (ht : ∀ n, NoTimer ((Pipeline.TopCpu.run dpi n
      (Pipeline.TopCpu.afterReset regfile csrfile mem)).fetchOut dpi).instr) (n : ℕ) :
    Match (run dpi (n + 1) (afterReset regfile csrfile mem))
        (Pipeline.TopCpu.run dpi n (Pipeline.TopCpu.afterReset regfile csrfile mem)) ∧
      Inv (run dpi (n + 1) (afterReset regfile csrfile mem)) := by
  induction n with
  | zero =>
    exact ⟨match_afterReset dpi regfile csrfile mem, (Inv.afterReset regfile csrfile mem).edge⟩
  | succ n ih =>
    obtain ⟨h, hr⟩ := ih
    have hs := Pipeline.TopCpu.inv_run dpi regfile csrfile mem n
    rw [run_succ, Pipeline.TopCpu.run_succ]
    exact ⟨h.edge hr hs fun _ =>
      Pipeline.TopCpu.word_regD dpi regfile csrfile mem noTimer_nopInstr ht n, hr.edge⟩

/-! ## Frozen instruction memory -/

section Frozen

variable {mem : M} {good : BitVec 64 → Prop} (r)

/-- An edge that fetches the same word is the same. -/
lemma step_frozen (h : good r.pc.payload)
    (hsame : dpi.instrMemRead r.mem r.pc.payload = dpi.instrMemRead mem r.pc.payload) :
    step dpi false r = step (dpi.frozen mem good) false r := by
  have hf : r.core.fetchOut dpi = r.core.fetchOut (dpi.frozen mem good) := by
    rw [Pipeline.TopCpu.fetchOut, fetch, show r.core.mem = r.mem from rfl,
      show r.core.pc = r.pc.payload from rfl, hsame, ← instrMemRead_frozen r.mem h]
    rfl
  simp only [step, hf]
  rfl

/-- Write back, memory, registers and CSRs after an edge do not depend on the word that it
fetches. -/
lemma step_behind_frozen :
    (step dpi false r).regW = (step (dpi.frozen mem good) false r).regW ∧
      (step dpi false r).mem = (step (dpi.frozen mem good) false r).mem ∧
      (step dpi false r).regfile = (step (dpi.frozen mem good) false r).regfile ∧
      (step dpi false r).csrfile = (step (dpi.frozen mem good) false r).csrfile :=
  ⟨rfl, rfl, rfl, rfl⟩

/-- The registers and CSRs after an edge depend on them and on write back. -/
lemma step_files_congr (dpi dpi' : Dpi M) {r r' : TopCpu M} (hW : r.regW = r'.regW)
    (hreg : r.regfile = r'.regfile) (hcsr : r.csrfile = r'.csrfile) :
    (step dpi false r).regfile = (step dpi' false r').regfile ∧
      (step dpi false r).csrfile = (step dpi' false r').csrfile := by
  have hR : ∀ dpi (r : TopCpu M), (step dpi false r).regfile =
      r.regfile.next false (writeBack r.regW.payload).regRd (writeBack r.regW.payload).regWdata
        (writeBack r.regW.payload).regWen := fun _ _ => rfl
  have hC : ∀ dpi (r : TopCpu M), (step dpi false r).csrfile =
      r.csrfile.next false (writeBack r.regW.payload).systemInfo (writeBack r.regW.payload).csrWen
        (writeBack r.regW.payload).csrWid (writeBack r.regW.payload).csrWdata := fun _ _ => rfl
  rw [hR, hR, hC, hC, hW, hreg, hcsr]
  exact ⟨rfl, rfl⟩

end Frozen

/-! ## The first instructions -/

/-- **The first `N` instructions on the rewrite.**  When the old processor follows the sequential
machine in them from frozen memory, hand in hand with the rewrite, and none of them changes a word
in their shadows, then they retire on the rewrite one cycle later.

**Proof sketch.** Fetch of the rewrite stands where that of the old processor stood an edge before,
in the shadows of the instructions, so up to that cycle the run is that from frozen memory. -/
theorem refines_frozen (dpi : Dpi M) (regfile : Regfile) (csrfile : Csrfile) (mem : M)
    {σ : SeqState M} {N : ℕ} (hfollow : Pipeline.TopCpu.FollowsTo
      (dpi.frozen mem (InShadow dpi σ N)) (Pipeline.TopCpu.afterReset regfile csrfile mem) σ N)
    (hmatch : ∀ i, Match
        (run (dpi.frozen mem (InShadow dpi σ N)) (i + 1) (afterReset regfile csrfile mem))
        (Pipeline.TopCpu.run (dpi.frozen mem (InShadow dpi σ N)) i
          (Pipeline.TopCpu.afterReset regfile csrfile mem)) ∧
      Inv (run (dpi.frozen mem (InShadow dpi σ N)) (i + 1) (afterReset regfile csrfile mem)))
    (hkept : ∀ a, InShadow dpi σ N a → ∀ j < N,
      dpi.instrMemRead (σ.run dpi j).mem a = dpi.instrMemRead mem a) (hN : 0 < N) :
    ∃ c, c + 2 ≤ 5 * N ∧ Pipeline.TopCpu.executed (dpi.frozen mem (InShadow dpi σ N))
        (Pipeline.TopCpu.afterReset regfile csrfile mem) c = N ∧
      trace (fun i => (run dpi i (afterReset regfile csrfile mem)).core.regW.commitEvent) (c + 3) =
        (List.range N).map (fun i => (σ.run dpi i).commitEvent dpi) ∧
      (run dpi (c + 2) (afterReset regfile csrfile mem)).mem = (σ.run dpi N).mem ∧
      (run dpi (c + 3) (afterReset regfile csrfile mem)).regfile = (σ.run dpi N).regfile ∧
      ∀ id, id ≠ Csr.timer → (run dpi (c + 3) (afterReset regfile csrfile mem)).csrfile.csr id =
        (Pipeline.TopCpu.run (dpi.frozen mem (InShadow dpi σ N)) (c + 2)
          (Pipeline.TopCpu.afterReset regfile csrfile mem)).csrfile.csr id := by
  obtain ⟨c, hc, hcN, htracks, hfmem, hfetch⟩ := @Pipeline.TopCpu.frozen_prefix _ dpi
    (Pipeline.TopCpu.afterReset regfile csrfile mem) σ N hfollow hkept hN
  obtain ⟨-, hevents, hregs⟩ := htracks (c + 2) (Nat.le_refl _)
  have hlen := hcN
  rw [Pipeline.TopCpu.executed] at hlen
  rw [hlen] at hevents hregs
  have hpos : 0 < c := by
    by_contra h0
    obtain rfl : c = 0 := by omega
    have hzero := Pipeline.TopCpu.executed_zero
      (Pipeline.TopCpu.fresh_afterReset (dpi.frozen mem (InShadow dpi σ N)) regfile csrfile mem)
    exact absurd (hzero.symm.trans hcN) (by omega)
  have hrun : ∀ i ≤ c + 1, run dpi i (afterReset regfile csrfile mem) =
      run (dpi.frozen mem (InShadow dpi σ N)) i (afterReset regfile csrfile mem) := by
    intro i hi
    induction i with
    | zero => rw [run_zero, run_zero]
    | succ i ih =>
      rw [run_succ, ih (by omega), run_succ]
      cases i with
      | zero => exact step_frozen _ (hfetch 0 hpos).1 rfl
      | succ i =>
        obtain ⟨hm, -⟩ := hmatch i
        obtain ⟨hin, hsame⟩ := hfetch i (by omega)
        refine step_frozen _ ?_ ?_
        · rw [hm.pc]
          exact hin
        · rw [hm.pc, hm.mem]
          exact hsame
  have hlast : run dpi (c + 2) (afterReset regfile csrfile mem) = step dpi false
      (run (dpi.frozen mem (InShadow dpi σ N)) (c + 1) (afterReset regfile csrfile mem)) := by
    rw [run_succ, hrun (c + 1) (Nat.le_refl _)]
  obtain ⟨hW, hmem, hreg, hcsr⟩ := @step_behind_frozen _ dpi
    (run (dpi.frozen mem (InShadow dpi σ N)) (c + 1) (afterReset regfile csrfile mem)) mem
    (InShadow dpi σ N)
  rw [← hlast, ← run_succ] at hW hmem hreg hcsr
  obtain ⟨hfiles, hfcsr⟩ :=
    step_files_congr dpi (dpi.frozen mem (InShadow dpi σ N)) hW hreg hcsr
  rw [← run_succ, ← run_succ] at hfiles hfcsr
  refine ⟨c, hc, hcN, ?_, ?_, ?_, fun id hid => ?_⟩
  · calc trace (fun i => (run dpi i (afterReset regfile csrfile mem)).core.regW.commitEvent) (c + 3)
        = trace (fun i => (run (dpi.frozen mem (InShadow dpi σ N)) i
            (afterReset regfile csrfile mem)).core.regW.commitEvent) (c + 3) := by
          refine trace_congr fun i hi => ?_
          obtain hi | rfl : i ≤ c + 1 ∨ i = c + 2 := by omega
          · rw [hrun i hi]
          · exact congrArg (fun w : Stage RegW => w.payload.commitEvent) hW
      _ = Pipeline.TopCpu.commits (dpi.frozen mem (InShadow dpi σ N))
            (Pipeline.TopCpu.afterReset regfile csrfile mem) (c + 2) :=
          trace_delay (RegW.commitEvent_eq_none RegW.valid_nop) fun i _ =>
            (hmatch i).1.commitEvent (hmatch i).2
      _ = _ := hevents
  · rw [hmem, (hmatch (c + 1)).1.mem]
    exact hfmem
  · rw [hfiles, (hmatch (c + 2)).1.regfile]
    exact hregs
  · rw [hfcsr]
    exact (hmatch (c + 2)).1.csrfile id hid

/-- **The first `N` instructions, of calm words**: under the conditions for the old processor they
retire one cycle later. -/
theorem refines_prefix (dpi : Dpi M) (regfile : Regfile) (csrfile : Csrfile) (mem : M) {N : ℕ}
    (hcalm : ∀ a, InShadow dpi (.afterReset regfile csrfile mem) N a →
      Calm (dpi.instrMemRead mem a))
    (hkept : ∀ a, InShadow dpi (.afterReset regfile csrfile mem) N a → ∀ j < N,
      dpi.instrMemRead ((SeqState.afterReset regfile csrfile mem).run dpi j).mem a =
        dpi.instrMemRead mem a) (hN : 0 < N) :
    ∃ n < 5 * N,
      trace (fun i => (run dpi i (afterReset regfile csrfile mem)).core.regW.commitEvent) (n + 2) =
        (List.range N).map (fun i =>
          ((SeqState.afterReset regfile csrfile mem).run dpi i).commitEvent dpi) ∧
      (run dpi (n + 1) (afterReset regfile csrfile mem)).mem =
        ((SeqState.afterReset regfile csrfile mem).run dpi N).mem ∧
      (run dpi (n + 2) (afterReset regfile csrfile mem)).regfile =
        ((SeqState.afterReset regfile csrfile mem).run dpi N).regfile := by
  obtain ⟨c, hc, -, hevents, hmem, hregs, -⟩ := refines_frozen dpi regfile csrfile mem
    (Pipeline.TopCpu.followsTo_frozen hcalm N)
    (match_run_of_noTimer (dpi.frozen mem (InShadow dpi (.afterReset regfile csrfile mem) N))
      regfile csrfile mem (Pipeline.TopCpu.word_run_frozen
        (fun a ha => noTimer_of_calm (hcalm a ha)) noTimer_nopInstr _)) hkept hN
  exact ⟨c + 1, by omega, hevents, hmem, hregs⟩

end TopCpu

/-! ## RV64IM -/

/-- **The rewrite implements RV64IM**, as the old processor does: under the same conditions it has
retired exactly the instructions of the program within five cycles an instruction and one cycle
more, with the memory and the registers of the machine. -/
theorem rewrite_implements_rv64im (regfile : Regfile) (csrfile : Csrfile) (mem : Memory.Pmem)
    {lo hi : ℕ} {is : List Rv64im.Instr} (hlo : Memory.configMbase ≤ lo)
    (hhi : hi ≤ Memory.configMbase + Memory.configMsize)
    (h : (start regfile mem).Fetches (Tame lo hi) is) (hne : is ≠ []) :
    ∃ n < 5 * is.length,
      trace (fun i => (TopCpu.run Memory.dpi i
        (TopCpu.afterReset regfile csrfile mem)).core.regW.commitEvent) (n + 2) =
        events is (start regfile mem) ∧
      Memory.guestBytes
          (TopCpu.run Memory.dpi (n + 1) (TopCpu.afterReset regfile csrfile mem)).mem =
        ((start regfile mem).after is).mem ∧
      (TopCpu.run Memory.dpi (n + 2) (TopCpu.afterReset regfile csrfile mem)).regfile.regs =
        ((start regfile mem).after is).regs := by
  have hcode := inCode_run regfile csrfile mem hlo hhi h
  obtain ⟨n, hn, hev, hmem, hregs⟩ := TopCpu.refines_prefix Memory.dpi regfile csrfile mem
    (calm_of_inShadow regfile csrfile mem hlo hhi h (Nat.le_succ _) hcode)
    ((codeRun_run regfile csrfile mem hlo hhi h (Nat.le_succ _) hcode).kept hlo hhi)
    (List.length_pos_iff.mpr hne)
  have hend := machine_run_length regfile csrfile mem hlo hhi h
  refine ⟨n, hn, hev.trans (SeqState.commitEvents_run hlo hhi h), ?_, ?_⟩
  · rw [hmem, ← hend]
    rfl
  · rw [hregs, ← hend]
    rfl

/-- Within 41 cycles the small program has divided the product that it has loaded back. -/
theorem rewrite_implements_rv64im_smallProgram : ∃ n < 40,
    (TopCpu.run Memory.dpi (n + 2) (TopCpu.afterReset Regfile.initial Csrfile.initial
      (Memory.image (smallProgram.map Rv64im.Instr.encode)))).regfile.reg 10#5 = 7#64 := by
  obtain ⟨n, hn, -, -, hregs⟩ := @rewrite_implements_rv64im Regfile.initial Csrfile.initial
    (Memory.image (smallProgram.map Rv64im.Instr.encode)) 0x80000000 0x80000040
    (smallProgram.eraseIdx 7) (by decide) (by decide) (by decide +kernel) (by decide)
  refine ⟨n, hn, ?_⟩
  have hreg := congrArg (fun x => x.get 10#5) hregs
  refine hreg.trans ?_
  decide +kernel

end Riscv64Cpu.ReadyValid
