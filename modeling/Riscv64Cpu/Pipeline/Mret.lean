import Riscv64Cpu.Isa.Alu
import Riscv64Cpu.Memory.Pmem
import Riscv64Cpu.Pipeline.Drain

set_option relaxedAutoImplicit false
set_option autoImplicit false

/-!
# The return from a trap

`mret` reads `mstatus` in decode, and the `inst_mret` branch of `csrfile.v` is to update it from
`csr_wdata` when the instruction is in write back.  Neither end is connected: execute has no arm
for `mret` in its result multiplexer, so `csr_wdata` is `0`, and write back does not drive the
system info, so the branch is never taken.  What is left is an ordinary CSR write of `0` to
`mstatus`.

## Main definitions

* `Pipeline.MretUpdate` — the update of `mstatus` and the mode.
* `Pipeline.TopCpu.RetiresMret` — a valid `mret` is in write back.
* `Pipeline.TopCpu.MretZero` — the result of an `mret` on its way is `0`.

## Main results

* `Pipeline.Csrfile.mretUpdate_next` — the branch of `csrfile.v`, given the old `mstatus`.
* `Pipeline.TopCpu.csrfile_mret` — what the processor does instead.
* `Pipeline.TopCpu.not_mretUpdate` — that is never the update.
-/

namespace Riscv64Cpu.Pipeline

open Clocked
open Verilog (bit)

/-! ## The update -/

/-- The CSR file `g` is `f` after the return from a trap, by the comments in `csrfile.v`:
`mstatus.MIE <= mstatus.MPIE`, `mstatus.MPIE <= 1`, `mstatus.MPP <= 0` and
`cpu_mode <= mstatus.MPP`, with the rest as it was. -/
structure MretUpdate (f g : Csrfile) : Prop where
  mie : bit (g.csr Csr.mstatus) 3 = bit (f.csr Csr.mstatus) 7
  mpie : bit (g.csr Csr.mstatus) 7 = true
  mpp : (g.csr Csr.mstatus).extractLsb' 11 2 = 0#2
  cpuMode : g.cpuMode = (f.csr Csr.mstatus).extractLsb' 11 2
  bits : ∀ i < 64, i ≠ 3 → i ≠ 7 → i ≠ 11 → i ≠ 12 →
    bit (g.csr Csr.mstatus) i = bit (f.csr Csr.mstatus) i
  csrs : ∀ id, id ≠ Csr.mstatus → id ≠ Csr.timer → g.csr id = f.csr id

/-- The bits of `mstatus` after the `inst_mret` branch. -/
lemma Csrfile.bit_mret (f : Csrfile) (wdata : BitVec 64) {i : ℕ} (hi : i < 64) :
    bit ((f.mret wdata).csr Csr.mstatus) i =
      if i = 3 then bit wdata 7
      else if i = 7 then true
      else if i = 11 ∨ i = 12 then false
      else bit (f.csr Csr.mstatus) i := by
  simp only [Csrfile.mret, Function.update_self, bit, BitVec.getLsbD_append,
    BitVec.getLsbD_extractLsb']
  generalize f.csr Csr.mstatus = m
  have hfield : i < 3 ∨ i = 3 ∨ (4 ≤ i ∧ i < 7) ∨ i = 7 ∨ (8 ≤ i ∧ i < 11) ∨ i = 11 ∨ i = 12 ∨
      13 ≤ i := by omega
  rcases hfield with h | rfl | h | rfl | h | rfl | rfl | h <;>
    simp (disch := omega) only [if_pos, if_neg, decide_eq_true, Bool.true_and, Nat.zero_add]
  · rfl
  · exact congrArg _ (by omega)
  · rfl
  · exact congrArg _ (by omega)
  · rfl
  · rfl
  · exact congrArg _ (by omega)

/-- The `inst_mret` branch of `csrfile.v` is the update, if `csr_wdata` is the old `mstatus`. -/
theorem Csrfile.mretUpdate_next (f : Csrfile) (wbCsrWen : Bool) (wbCsrWid : BitVec 12) :
    MretUpdate f (f.next false 0b0000100#7 wbCsrWen wbCsrWid (f.csr Csr.mstatus)) := by
  have hw : f.write false 0b0000100#7 wbCsrWen wbCsrWid (f.csr Csr.mstatus) =
      f.mret (f.csr Csr.mstatus) := rfl
  have hcsr : ∀ id, id ≠ Csr.timer →
      (f.next false 0b0000100#7 wbCsrWen wbCsrWid (f.csr Csr.mstatus)).csr id =
        (f.mret (f.csr Csr.mstatus)).csr id := by
    intro id hid
    rw [Csrfile.next, hw]
    exact Function.update_of_ne hid _ _
  have hms := hcsr Csr.mstatus (by decide)
  refine ⟨?_, ?_, ?_, rfl, ?_, ?_⟩
  · rw [hms, Csrfile.bit_mret _ _ (by decide), if_pos rfl]
  · rw [hms, Csrfile.bit_mret _ _ (by decide)]
    rfl
  · apply BitVec.eq_of_getLsbD_eq
    intro i hi
    have h11 : 11 + i = 11 ∨ 11 + i = 12 := by omega
    have hbit : bit ((f.mret (f.csr Csr.mstatus)).csr Csr.mstatus) (11 + i) = false := by
      rw [Csrfile.bit_mret _ _ (by omega), if_neg (by omega), if_neg (by omega), if_pos h11]
    rw [hms, BitVec.getLsbD_extractLsb', BitVec.getLsbD_zero]
    simpa [bit, hi] using hbit
  · intro i hi h3 h7 h11 h12
    rw [hms, Csrfile.bit_mret _ _ hi, if_neg h3, if_neg h7, if_neg (by omega)]
  · intro id hid htimer
    rw [hcsr id htimer]
    exact Function.update_of_ne hid _ _

/-! ## `mret` on its way -/

/-- The bit of `mret` in the system info. -/
lemma bit_decodeSystemInfo (w : BitVec 32) : bit (decodeSystemInfo w) 2 = instMret w := by
  simp [decodeSystemInfo]

/-- The result of execute for `mret` is the default of the multiplexer. -/
lemma RegE.Holds.executeAluResult_mret {e : RegE} {w : BitVec 32} (h : e.Holds w)
    (hm : instMret w = true) : executeAluResult e = 0#64 := by
  have hs := instSystem_of_instMret hm
  have hi : e.csrrwInfo = 0#6 := by
    rw [h.csrrwInfo, eq_of_beq hm]
    decide
  rw [h.operands.system hs, aluResultOf_system _ _ (h.aluInfo.trans (decodeAluInfo_system hs))]
  simp [RegE.csrrw, RegE.csrrs, RegE.csrrc, RegE.csrrwi, RegE.csrrsi, RegE.csrrci, hi]

namespace TopCpu

variable {M : Type} {dpi : Dpi M} {s : TopCpu M}

/-- The result of an `mret` behind execute is `0`. -/
structure MretZero (s : TopCpu M) : Prop where
  regM : bit s.regM.systemInfo 2 = true → s.regM.aluResult = 0#64
  regW : bit s.regW.systemInfo 2 = true → s.regW.aluResult = 0#64

/-- A cleared pipeline. -/
lemma mretZero_step_true (s : TopCpu M) : MretZero (step dpi true s) := by
  rw [step_true]
  exact ⟨fun _ => rfl, fun _ => rfl⟩

/-- An edge takes the result of execute to memory and the one in memory to write back. -/
lemma MretZero.edge (h : MretZero s) (hi : Inv dpi s) : MretZero (step dpi false s) := by
  constructor
  · rw [step_regM]
    split_ifs
    · exact fun _ => rfl
    · intro hm
      obtain ⟨w, hw, -⟩ := hi.holdsE
      have hsys : s.regE.systemInfo = decodeSystemInfo w := hw.systemInfo
      have hmret : instMret w = true := by
        rw [← bit_decodeSystemInfo, ← hsys]
        exact hm
      exact hw.executeAluResult_mret hmret
  · rw [step_regW]
    exact h.regM

/-- The result of an `mret` behind execute is `0` in every reachable state. -/
lemma Reachable.mretZero (h : Reachable dpi s) : MretZero s := by
  refine Clocked.Reachable.invariant ?_ ?_ h
  · rintro - ⟨s₀, rfl⟩
    exact mretZero_step_true s₀
  · intro rst s hs hz
    cases rst with
    | false => exact hz.edge (Reachable.inv hs)
    | true => exact mretZero_step_true s

/-- A valid `mret` is in write back. -/
structure RetiresMret (s : TopCpu M) : Prop where
  valid : s.regW.valid = true
  mret : instMret (commitInstr s.regW.commitInfo) = true

/-- An `mret` in write back writes `0` to `mstatus`. -/
private lemma csrWrite_mret (h : Reachable dpi s) (hm : RetiresMret s) :
    s.regW.csrWrite = some (Csr.mstatus, 0#64) := by
  obtain ⟨w, hw, hf⟩ := h.inv.holdsW
  have hmret : instMret w = true := by
    rw [hf.eq hm.valid]
    exact hm.mret
  have hsys : bit s.regW.systemInfo 2 = true := by
    rw [hw.systemInfo, bit_decodeSystemInfo, hmret]
  have hwen : decodeCsrWen w = true ∧ decodeCsrWid w = Csr.mstatus := by
    simp [decodeCsrWen, decodeCsrWid, hmret]
  have hcheck : checkCsrId Csr.mstatus = true := by decide
  simp [RegW.csrWrite, hw.csrWen, hw.csrWid, hwen, hcheck, h.mretZero.regW hsys]

/-- **`mret` in the CSR file**: at the edge at which a valid `mret` retires, `mstatus` becomes `0`,
and the mode and the other CSRs but the timer stay as they are. -/
theorem csrfile_mret (h : Reachable dpi s) (hm : RetiresMret s) :
    (step dpi false s).csrfile.csr Csr.mstatus = 0#64 ∧
      (step dpi false s).csrfile.cpuMode = s.csrfile.cpuMode ∧
      ∀ id, id ≠ Csr.mstatus → id ≠ Csr.timer →
        (step dpi false s).csrfile.csr id = s.csrfile.csr id := by
  have hnext : ∀ id, id ≠ Csr.timer → (step dpi false s).csrfile.csr id =
      applyWrite s.csrfile.csr (some (Csr.mstatus, 0#64)) id := by
    intro id hid
    rw [← csrWrite_mret h hm]
    exact s.csrfile.next_csr s.regW hid
  refine ⟨?_, ?_, fun id hid ht => ?_⟩
  · rw [hnext _ (by decide), applyWrite_hit]
  · exact s.csrfile.next_cpuMode s.regW
  · rw [hnext id ht]
    exact applyWrite_miss _ (by simpa using Ne.symm hid)

/-- **`mret` never updates `mstatus`**: in every reachable state in which a valid `mret` retires,
the edge is not the return from a trap: it leaves `mstatus.MPIE` down. -/
theorem not_mretUpdate (h : Reachable dpi s) (hm : RetiresMret s) :
    ¬ MretUpdate s.csrfile (step dpi false s).csrfile := by
  intro hu
  have hmpie := hu.mpie
  rw [(csrfile_mret h hm).1, Verilog.bit_zero] at hmpie
  cases hmpie

/-- A program that is one `mret`: it retires at the fifth edge. -/
theorem not_mretUpdate_boot :
    ¬ MretUpdate (run Memory.dpi 4 (Memory.boot [0x30200073#32])).csrfile
      (step Memory.dpi false (run Memory.dpi 4 (Memory.boot [0x30200073#32]))).csrfile :=
  not_mretUpdate ((reachable_afterReset Memory.dpi _ _ _).run 4)
    ⟨by decide +kernel, by decide +kernel⟩

/-- `mret` directly after reset leaves `MPIE` down. -/
theorem mret_clears_mstatus : ¬ ∀ (M : Type) (dpi : Dpi M) (s : TopCpu M), Reachable dpi s →
    RetiresMret s → MretUpdate s.csrfile (step dpi false s).csrfile := by
  intro h
  have hmpie := (h _ Memory.dpi _
    ((reachable_afterReset Memory.dpi Regfile.initial Csrfile.initial
      (Memory.image [0x30200073#32])).run 4) ⟨by decide +kernel, by decide +kernel⟩).mpie
  revert hmpie
  decide +kernel

end TopCpu

end Riscv64Cpu.Pipeline
