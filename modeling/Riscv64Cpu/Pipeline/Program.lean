import Riscv64Cpu.Isa.Asm
import Riscv64Cpu.Isa.Correctness
import Riscv64Cpu.Pipeline.Retire

set_option relaxedAutoImplicit false
set_option autoImplicit false

/-!
# Programs on the pipeline

A program that has been verified on the hart of RV64I, instruction by instruction, does the same
on the sequential machine and on the pipeline, which needs at most five cycles an instruction.

## Main definitions

* `Pipeline.Loaded` — instruction memory holds a program.
* `Pipeline.SeqState.hart` — the hart in a state of the sequential machine.
* `Pipeline.TopCpu.Stands` — the hart that the pipeline shows by its registers and its next
  commit.

## Main results

* `Pipeline.SeqState.within_of_hart` — from the hart to the sequential machine.
* `Pipeline.TopCpu.stands_within` — from the hart to the pipeline.
-/

namespace Riscv64Cpu.Pipeline

open Clocked Rv64i

/-- The register file as the registers of RV64I. -/
def Regfile.regs (f : Regfile) : Regs := ⟨f.reg, f.x0⟩

/-- Instruction memory holds the program `code`, which does not access data memory. -/
def Loaded {M : Type} (dpi : Dpi M) (mem : M) (code : BitVec 64 → Option Instr) : Prop :=
  ∀ a i, code a = some i → dpi.instrMemRead mem a = i.encode ∧ i.registerOnly = true

/-! ## The sequential machine -/

namespace SeqState

variable {M : Type} {dpi : Dpi M} {σ : SeqState M} {code : BitVec 64 → Option Instr}

/-- The hart in a state. -/
def hart (σ : SeqState M) : Hart := ⟨σ.pc, σ.regfile.regs⟩

/-- An instruction of the program is executed as on the hart, and leaves the memory alone. -/
private lemma step_hart (hload : Loaded dpi σ.mem code) {i : Instr} (hi : code σ.pc = some i) :
    (step dpi σ).hart = i.exec σ.hart ∧ (step dpi σ).mem = σ.mem := by
  obtain ⟨hword, hreg⟩ := hload σ.pc i hi
  obtain ⟨hpc, hregs, hmem⟩ := step_encode dpi σ i hword
  obtain ⟨heff, haccess⟩ := Instr.effect_window hreg σ.pc σ.regfile.reg
    (window dpi σ.mem (σ.regE dpi)) fun _ => 0#64
  rw [haccess] at hmem
  rw [heff] at hpc hregs
  refine ⟨?_, hmem⟩
  have hset : (step dpi σ).regfile.regs =
      σ.hart.regs.apply (i.effect σ.pc σ.regfile.reg fun _ => 0#64).regWrite := by
    refine Regs.ext (congrFun ?_)
    exact hregs.trans (i.get_apply_effect σ.hart.regs σ.pc fun _ => 0#64).symm
  rw [hart, hset, hpc]
  rfl

/-- **From the hart to the sequential machine.**

**Proof sketch.** Induction on the number of steps; outside the program the hart does not move, so
what it reaches there holds already. -/
theorem within_of_hart {P : Hart → Prop} {n : ℕ} (hload : Loaded dpi σ.mem code)
    (h : Within (Hart.step code) P n σ.hart) :
    Within (step dpi) (fun τ => P τ.hart) n σ := by
  obtain ⟨i, hi, hP⟩ := h
  induction i generalizing σ n with
  | zero => exact Within.now hP
  | succ i ih =>
    rw [Function.iterate_succ_apply] at hP
    cases hc : code σ.pc with
    | none =>
      have hstay : Hart.step code σ.hart = σ.hart := by
        rw [Hart.step, show code σ.hart.pc = none from hc]
      rw [hstay] at hP
      exact ih hload (by omega) hP
    | some instr =>
      obtain ⟨hhart, hmem⟩ := step_hart hload hc
      have hstep : Hart.step code σ.hart = (step dpi σ).hart := by
        rw [Hart.step, show code σ.hart.pc = some instr from hc, hhart]
      rw [hstep] at hP
      obtain ⟨n, rfl⟩ : ∃ m, n = m + 1 := ⟨n - 1, by omega⟩
      exact (ih (by rwa [hmem]) (by omega) hP).next

end SeqState

/-! ## The pipeline -/

namespace TopCpu

variable {M : Type} {dpi : Dpi M}

/-- The pipeline shows the hart `h`: its registers are those of `h`, and what it commits next,
within four cycles, is the instruction at the pc of `h`. -/
structure Stands (dpi : Dpi M) (s : TopCpu M) (h : Hart) : Prop where
  regs : s.regfile.regs = h.regs
  commit : ∃ i ≤ 4, (∀ l < i, (run dpi l s).regW.commitEvent = none) ∧
    (run dpi i s).regW.commitEvent.map CommitEvent.pc = some h.pc

/-- It shows one hart only. -/
lemma Stands.unique {s : TopCpu M} {h h' : Hart} (hs : Stands dpi s h) (hs' : Stands dpi s h') :
    h = h' := by
  obtain ⟨pc, regs⟩ := h
  obtain ⟨pc', regs'⟩ := h'
  obtain rfl : regs = regs' := hs.regs.symm.trans hs'.regs
  obtain ⟨i, -, hbefore, hpc⟩ := hs.commit
  obtain ⟨i', -, hbefore', hpc'⟩ := hs'.commit
  have hi : i = i' := by
    by_contra hne
    rcases Nat.lt_or_gt_of_ne hne with hlt | hlt
    · rw [hbefore' i hlt] at hpc
      cases hpc
    · rw [hbefore i' hlt] at hpc'
      cases hpc'
  subst hi
  obtain rfl : pc = pc' := Option.some.inj (hpc.symm.trans hpc')
  rfl

section Run

variable (dpi) (regfile : Regfile) (csrfile : Csrfile) (mem : M)
  (hcalm : ∀ n, Calm ((run dpi n (afterReset regfile csrfile mem)).fetchOut dpi).instr)
  (hstable : ∀ m n,
    dpi.instrMemRead (run dpi (m + 1) (afterReset regfile csrfile mem)).mem
        (run dpi n (afterReset regfile csrfile mem)).pc =
      dpi.instrMemRead (run dpi m (afterReset regfile csrfile mem)).mem
        (run dpi n (afterReset regfile csrfile mem)).pc)
include hcalm hstable

/-- The hart that the pipeline shows is that of the sequential machine. -/
lemma stands_run (n : ℕ) : Stands dpi (run dpi n (afterReset regfile csrfile mem))
    ((SeqState.afterReset regfile csrfile mem).run dpi
      (commits dpi (afterReset regfile csrfile mem) n).length).hart := by
  obtain ⟨j, hj, hv, hno, hsame⟩ := first_commit (fresh_afterReset dpi regfile csrfile mem) n
  have hev := (tracks_run dpi regfile csrfile mem hcalm hstable (n + j + 1)).retire hv
  refine ⟨?_, j, hj, fun l hl => ?_, ?_⟩
  · rw [(tracks_run dpi regfile csrfile mem hcalm hstable _).registers]
    rfl
  · rw [run_run, Nat.add_comm]
    exact RegW.commitEvent_eq_none (hno l hl)
  · rw [run_run, Nat.add_comm, hev, hsame]
    rfl

/-- **From the hart to the pipeline**: when the pipeline shows the hart `h`, from which a loaded
program reaches `P` within `N` instructions, then within `5 N` cycles it shows a hart with `P`.

**Proof sketch.** The hart is that of the sequential machine, which reaches `P` too; the pipeline
retires as many instructions in five cycles each. -/
theorem stands_within {code : BitVec 64 → Option Instr}
    (hload : ∀ n, Loaded dpi (run dpi n (afterReset regfile csrfile mem)).mem code)
    {P : Hart → Prop} {n N : ℕ} {h : Hart}
    (hs : Stands dpi (run dpi n (afterReset regfile csrfile mem)) h)
    (hw : Within (Hart.step code) P N h) :
    ∃ k, n ≤ k ∧ k ≤ n + 5 * N ∧
      ∃ h', Stands dpi (run dpi k (afterReset regfile csrfile mem)) h' ∧ P h' := by
  obtain rfl := hs.unique (stands_run dpi regfile csrfile mem hcalm hstable n)
  obtain ⟨j, hj⟩ := exists_mem_run dpi regfile csrfile mem hcalm hstable n
  obtain ⟨i, hi, hP⟩ := SeqState.within_of_hart (hj ▸ hload j) hw
  obtain ⟨k, hnk, hk, hcount⟩ := retires_within (fresh_afterReset dpi regfile csrfile mem) n i
  refine ⟨k, hnk, by omega, _, stands_run dpi regfile csrfile mem hcalm hstable k, ?_⟩
  rw [hcount, Nat.add_comm, SeqState.run, Function.iterate_add_apply]
  exact hP

end Run

/-! ## Programs in read-only memory -/

/-- A text behind other words in read-only memory. -/
lemma loaded_romDpi (pre : List (BitVec 32)) (T : Text)
    (hreg : ∀ i ∈ T.instrs, i.registerOnly = true) (hpre : pre.length ≤ 2 ^ 20) :
    Loaded (romDpi (pre ++ T.instrs.map Instr.encode)) ()
      (T.code (Line.addr 0x80000000#64 pre.length)) := by
  intro a i hi
  obtain ⟨k, hk, rfl, hik⟩ := T.code_eq_some _ hi
  refine ⟨?_, hreg i (List.mem_of_getElem? hik)⟩
  have hle := T.length_le
  have haddr : (Line.addr (Line.addr 0x80000000#64 pre.length) k).toNat =
      0x80000000 + 4 * (pre.length + k) := by
    rw [Line.addr, Line.addr, BitVec.toNat_add, BitVec.toNat_add, BitVec.toNat_ofNat,
      BitVec.toNat_ofNat, BitVec.toNat_ofNat]
    omega
  have hword : (pre ++ T.instrs.map Instr.encode)[pre.length + k]? = some i.encode := by
    rw [List.getElem?_append_right (Nat.le_add_right _ _), Nat.add_sub_cancel_left,
      List.getElem?_map, hik]
    rfl
  show (pre ++ T.instrs.map Instr.encode).getD _ _ = _
  rw [haddr, Nat.add_sub_cancel_left, Nat.mul_div_cancel_left _ (by decide),
    List.getD_eq_getElem?_getD, hword]
  rfl

end TopCpu

end Riscv64Cpu.Pipeline
