import Riscv64Cpu.Libgcc.Muldi3
import Riscv64Cpu.Libgcc.Routines
import Riscv64Cpu.Pipeline.Program

set_option relaxedAutoImplicit false
set_option autoImplicit false

/-!
# Software arithmetic on the pipeline

What a program gets that runs on the pipeline and calls the routines of `div.S` and `muldi3.S`.

## Main results

* `Libgcc.division_on_pipeline` — the routines of `div.S`.
* `Libgcc.multiplication_on_pipeline` — `__muldi3`.
-/

namespace Riscv64Cpu.Libgcc

open Clocked Rv64i Pipeline Pipeline.TopCpu

section Pipeline

variable {M : Type} (dpi : Dpi M) (regfile : Regfile) (csrfile : Csrfile) (mem : M)
  (hplain : ∀ n, Plain ((run dpi n (afterReset regfile csrfile mem)).fetchOut dpi).instr)
  (hstable : ∀ m n,
    dpi.instrMemRead (run dpi (m + 1) (afterReset regfile csrfile mem)).mem
        (run dpi n (afterReset regfile csrfile mem)).pc =
      dpi.instrMemRead (run dpi m (afterReset regfile csrfile mem)).mem
        (run dpi n (afterReset regfile csrfile mem)).pc)

include hplain hstable

/-- **Division on the pipeline**: whenever a run without atomic and system instructions comes to
the entry of a routine of `div.S`, with arguments that the routine accepts, the routine has
returned within 3620 cycles with the result of its instruction, and has changed no register but
`ra`, `t0` and `a0` to `a3`. -/
theorem division_on_pipeline (r : Routine) {base : BitVec 64} (hbase : base.toNat % 2 = 0)
    (hload : ∀ n, Loaded dpi (run dpi n (afterReset regfile csrfile mem)).mem (div.code base))
    {n : ℕ} {x : Regs} (hx : r.Accepts (x.get a0) (x.get a1))
    (hs : Stands dpi (run dpi n (afterReset regfile csrfile mem)) ⟨Line.addr base r.entry, x⟩) :
    ∃ k, n ≤ k ∧ k ≤ n + 3620 ∧
      ∃ h, Stands dpi (run dpi k (afterReset regfile csrfile mem)) h ∧ r.Done x h :=
  stands_within dpi regfile csrfile mem (fun i => (hplain i).decode) hstable hload hs
    (r.within_done hbase hx)

/-- **Multiplication on the pipeline**: whenever such a run comes to `__muldi3`, it has returned
within 2250 cycles with the product, and has changed no register but `a0` to `a3`. -/
theorem multiplication_on_pipeline {base : BitVec 64}
    (hload : ∀ n, Loaded dpi (run dpi n (afterReset regfile csrfile mem)).mem (muldi3.code base))
    {n : ℕ} {x : Regs}
    (hs : Stands dpi (run dpi n (afterReset regfile csrfile mem)) ⟨Line.addr base 0, x⟩) :
    ∃ k, n ≤ k ∧ k ≤ n + 2250 ∧
      ∃ h, Stands dpi (run dpi k (afterReset regfile csrfile mem)) h ∧
        Returned x [a0, a1, a2, a3]
          (fun z => z.get a0 = Rv64m.Op.mul.eval (x.get a0) (x.get a1)) h :=
  stands_within dpi regfile csrfile mem (fun i => (hplain i).decode) hstable hload hs
    (within_muldi3 base x)

end Pipeline

/-! ## Two programs -/

/-- `addi a0, x0, -7`, `addi a1, x0, 2` and a call, in front of the text `T`. -/
def callOn (T : Text) (call : Instr) : List (BitVec 32) :=
  [Instr.opImm .addi a0 0#5 (-7#12), .opImm .addi a1 0#5 2#12, call].map Instr.encode ++
    T.instrs.map Instr.encode

section Programs

variable {T : Text} {call : Instr}

/-- The words are plain if a check says so. -/
lemma plain_callOn
    (h : (nopInstr :: callOn T call).all (fun w => decide (Plain w)) = true) (s : TopCpu Unit) :
    Plain (s.fetchOut (romDpi (callOn T call))).instr :=
  plain_romDpi (fun w hw => of_decide_eq_true (List.all_eq_true.mp h w hw)) s

/-- The text behind the call. -/
lemma loaded_callOn (h : T.instrs.all Instr.registerOnly = true) (mem : Unit) :
    Loaded (romDpi (callOn T call)) mem (T.code (Line.addr 0x80000000#64 3)) :=
  loaded_romDpi _ T (List.all_eq_true.mp h) (by simp)

/-- The hart after the call. -/
lemma stands_callOn
    (h : (nopInstr :: callOn T call).all (fun w => decide (Plain w)) = true) {n c k : ℕ}
    (hcount : (commits (romDpi (callOn T call)) (afterReset Regfile.initial Csrfile.initial ())
      n).length = c)
    (hpc : ((SeqState.afterReset Regfile.initial Csrfile.initial ()).run (romDpi (callOn T call))
      c).pc = Line.addr (Line.addr 0x80000000#64 3) k) :
    Stands (romDpi (callOn T call)) (run (romDpi (callOn T call)) n
        (afterReset Regfile.initial Csrfile.initial ()))
      ⟨Line.addr (Line.addr 0x80000000#64 3) k, ((SeqState.afterReset Regfile.initial
        Csrfile.initial ()).run (romDpi (callOn T call)) c).regfile.regs⟩ := by
  have hs := stands_run (romDpi (callOn T call)) Regfile.initial Csrfile.initial ()
    (fun _ => (plain_callOn h _).decode) (fun _ _ => instrMemRead_romDpi _ _ _ _) n
  rw [hcount, SeqState.hart, hpc] at hs
  exact hs

end Programs

/-- A call of `__divdi3` for `-7 / 2`. -/
theorem division_on_pipeline_minus_seven : ∃ k ≤ 3627, ∃ h,
    Stands (romDpi (callOn div (.jal ra 34#20))) (run (romDpi (callOn div (.jal ra 34#20))) k
      (afterReset Regfile.initial Csrfile.initial ())) h ∧ h.regs.get a0 = -3#64 := by
  have hall : (nopInstr :: callOn div (.jal ra 34#20)).all (fun w => decide (Plain w)) = true := by
    decide +kernel
  obtain ⟨k, -, hk, h, hh, hdone⟩ := division_on_pipeline _ _ _ ()
    (fun _ => plain_callOn hall _) (fun _ _ => instrMemRead_romDpi _ _ _ _) .divdi3 (by decide)
    (fun _ => loaded_callOn (by decide +kernel) _)
    (fun hw => by rcases hw with hw | hw <;> cases hw)
    (stands_callOn hall (n := 7) (c := 3) (k := 16) (by decide +kernel) (by decide +kernel))
  refine ⟨k, hk, h, hh, hdone.result.trans ?_⟩
  decide +kernel

/-- A call of `__muldi3` for `-7 * 2`. -/
theorem multiplication_on_pipeline_minus_seven : ∃ k ≤ 2257, ∃ h,
    Stands (romDpi (callOn muldi3 (.jal ra 2#20))) (run (romDpi (callOn muldi3 (.jal ra 2#20))) k
      (afterReset Regfile.initial Csrfile.initial ())) h ∧ h.regs.get a0 = -14#64 := by
  have hall : (nopInstr :: callOn muldi3 (.jal ra 2#20)).all (fun w => decide (Plain w)) =
      true := by
    decide +kernel
  obtain ⟨k, -, hk, h, hh, hdone⟩ := multiplication_on_pipeline _ _ _ ()
    (fun _ => plain_callOn hall _) (fun _ _ => instrMemRead_romDpi _ _ _ _)
    (fun _ => loaded_callOn (by decide +kernel) _)
    (stands_callOn hall (n := 7) (c := 3) (k := 0) (by decide +kernel) (by decide +kernel))
  refine ⟨k, hk, h, hh, hdone.result.trans ?_⟩
  decide +kernel

end Riscv64Cpu.Libgcc
