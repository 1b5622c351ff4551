import Riscv64Cpu.Clocked.PendingWrites
import Riscv64Cpu.Pipeline.Invariant

set_option relaxedAutoImplicit false
set_option autoImplicit false

/-!
# Draining the pipeline

The instructions in `regE`, `regM` and `regW` are older than the one in decode and still have
their writes before them.  Each clock edge performs those of the instruction in write back.

## Main definitions

* `Pipeline.RegW.regWrite`, `RegW.csrWrite` — the writes of an instruction in write back.
* `Pipeline.TopCpu.regWOfM`, `regWOfE` — what the instructions in memory and execute bring to
  write back.
* `Pipeline.TopCpu.olderWrites`, `csrWrites` — the pending register and CSR writes.
* `Pipeline.TopCpu.drainedReg` — the general registers after the pending writes.

## Main results

* `Pipeline.TopCpu.step_regfile_reg` — an edge performs the register write in write back.
* `Pipeline.TopCpu.regWrite_two_edges`, `csrWrite_two_edges` — the writes of the instruction in
  execute are those of write back two edges later.
-/

namespace Riscv64Cpu.Pipeline

open Clocked
open Verilog (bit)

/-! ## The register write of an instruction -/

/-- The register write that `regfile.v` performs for an instruction in write back. -/
def RegW.regWrite (w : RegW) : Option (BitVec 5 × BitVec 64) :=
  if w.regWen = true ∧ w.regRd ≠ 0#5 then some (w.regRd, wbRegWdata w) else none

/-- The register file after an edge is the one before with the write it is offered. -/
lemma Regfile.next_reg (f : Regfile) (wbRegRd : BitVec 5) (wbRegWdata : BitVec 64)
    (wbRegWen : Bool) : (f.next false wbRegRd wbRegWdata wbRegWen).reg =
      applyWrite f.reg
        (if wbRegWen = true ∧ wbRegRd ≠ 0#5 then some (wbRegRd, wbRegWdata) else none) := by
  rw [Regfile.next, if_neg Bool.false_ne_true]
  split_ifs <;> rfl

/-- A write never hits `x0`. -/
lemma RegW.not_hits_zero (w : RegW) : ¬ Hits w.regWrite 0#5 := by
  unfold RegW.regWrite
  split_ifs with h
  · simpa using h.2
  · simp

/-- What brings destination `x0` to write back writes nothing. -/
lemma RegW.regWrite_eq_none {w : RegW} (h : w.regRd = 0#5) : w.regWrite = none := by
  simp [RegW.regWrite, h]

/-- The instruction of an inert word writes no register. -/
lemma RegW.Holds.regWrite_of_inert {r : RegW} {w : BitVec 32} (h : r.Holds w) (hi : Inert w) :
    r.regWrite = none :=
  RegW.regWrite_eq_none (h.regRd.trans hi.regRd)

/-- The instruction of an inert word does not store. -/
lemma RegM.Holds.memWriteCall_of_inert {m : RegM} {w : BitVec 32} (h : m.Holds w)
    (hi : Inert w) : memWriteCall m = none := by
  simp [memWriteCall, RegM.sb, RegM.sh, RegM.sw, RegM.sd, RegM.amoswapw, h.loadStoreInfo,
    hi.loadStoreInfo, h.amoInfo, hi.amoInfo]

/-! ## The CSR write of an instruction -/

/-- The CSR write that `csrfile.v` performs for an instruction in write back. -/
def RegW.csrWrite (w : RegW) : Option (BitVec 12 × BitVec 64) :=
  if w.csrWen = true ∧ checkCsrId w.csrWid = true then some (w.csrWid, w.aluResult) else none

/-- The write block of `csrfile.v` performs the CSR write. -/
lemma Csrfile.write_csr (f : Csrfile) (w : RegW) :
    (f.write false (writeBack w).systemInfo (writeBack w).csrWen (writeBack w).csrWid
      (writeBack w).csrWdata).csr = applyWrite f.csr w.csrWrite := by
  have hs : bit (0#7) 2 = false := by decide
  simp only [Csrfile.write, RegW.csrWrite, writeBack, hs, Bool.false_eq_true, if_false,
    Bool.and_eq_true]
  split_ifs <;> rfl

/-- A CSR other than the timer after an edge. -/
lemma Csrfile.next_csr (f : Csrfile) (w : RegW) {id : BitVec 12} (h : id ≠ Csr.timer) :
    (f.next false (writeBack w).systemInfo (writeBack w).csrWen (writeBack w).csrWid
      (writeBack w).csrWdata).csr id = applyWrite f.csr w.csrWrite id := by
  rw [← f.write_csr w, Csrfile.next]
  exact Function.update_of_ne h _ _

/-- Write back never reaches the branch that changes the mode. -/
lemma Csrfile.next_cpuMode (f : Csrfile) (w : RegW) :
    (f.next false (writeBack w).systemInfo (writeBack w).csrWen (writeBack w).csrWid
      (writeBack w).csrWdata).cpuMode = f.cpuMode := by
  have hs : bit (0#7) 2 = false := by decide
  simp only [Csrfile.next, Csrfile.write, writeBack, hs, Bool.false_eq_true, if_false]
  exact (apply_ite Csrfile.cpuMode _ _ _).trans (ite_self _)

/-- The instruction of an inert word writes no CSR. -/
lemma RegW.Holds.csrWrite_of_inert {r : RegW} {w : BitVec 32} (h : r.Holds w) (hi : Inert w) :
    r.csrWrite = none := by
  simp [RegW.csrWrite, h.csrWen, hi.csrWen]

namespace TopCpu

variable {M : Type} (dpi : Dpi M) (s : TopCpu M)

/-! ## The pending writes -/

/-- What the instruction in memory brings to write back. -/
def regWOfM : RegW := s.regWIn dpi

/-- What the instruction in execute brings to write back: it accesses memory one edge after the
instruction before it. -/
def regWOfE : RegW :=
  RegW.latch s.regMIn (memory dpi (memNext dpi s.mem (memWriteCall s.regM)) s.regMIn)

/-- The pending register writes of the instructions older than decode, oldest first. -/
def olderWrites : List (Option (BitVec 5 × BitVec 64)) :=
  [s.regW.regWrite, (s.regWOfM dpi).regWrite, (s.regWOfE dpi).regWrite]

/-- The pending CSR writes of the instructions older than decode, oldest first. -/
def csrWrites : List (Option (BitVec 12 × BitVec 64)) :=
  [s.regW.csrWrite, (s.regWOfM dpi).csrWrite, (s.regWOfE dpi).csrWrite]

/-- The general registers after the instructions in write back, memory and execute. -/
def drainedReg : BitVec 5 → BitVec 64 := drain s.regfile.reg (s.olderWrites dpi)

/-- `x0` stays `0`. -/
lemma drainedReg_zero : s.drainedReg dpi 0#5 = 0#64 := by
  rw [drainedReg, drain_of_not_hit, s.regfile.x0]
  simp [olderWrites, RegW.not_hits_zero]

variable {dpi} {s}

/-! ## Bubbles write nothing -/

/-- A bubble in execute will write no CSR. -/
lemma csrWrite_of_regE_bubble (h : Inv dpi s) (hv : s.regE.valid = false) :
    (s.regWOfE dpi).csrWrite = none := by
  obtain ⟨w, hw, hf⟩ := h.holdsE
  exact (RegW.holds_latch (RegM.holds_latch hw _) _).csrWrite_of_inert (hf.bubble hv).inert

/-- A bubble in write back writes no register. -/
lemma regWrite_of_regW_bubble (h : Inv dpi s) (hv : s.regW.valid = false) :
    s.regW.regWrite = none := by
  obtain ⟨w, hw, hf⟩ := h.holdsW
  exact hw.regWrite_of_inert (hf.bubble hv).inert

/-- A bubble in memory does not store and will write no register. -/
lemma writes_of_regM_bubble (h : Inv dpi s) (hv : s.regM.valid = false) :
    memWriteCall s.regM = none ∧ (s.regWOfM dpi).regWrite = none := by
  obtain ⟨w, hw, hf⟩ := h.holdsM
  have hi := (hf.bubble hv).inert
  exact ⟨hw.memWriteCall_of_inert hi, (RegW.holds_latch hw _).regWrite_of_inert hi⟩

/-- A bubble in execute will not store and will write no register. -/
lemma writes_of_regE_bubble (h : Inv dpi s) (hv : s.regE.valid = false) :
    memWriteCall s.regMIn = none ∧ (s.regWOfE dpi).regWrite = none := by
  obtain ⟨w, hw, hf⟩ := h.holdsE
  have hi := (hf.bubble hv).inert
  exact ⟨(RegM.holds_latch hw _).memWriteCall_of_inert hi,
    (RegW.holds_latch (RegM.holds_latch hw _) _).regWrite_of_inert hi⟩

/-! ## Clock edges -/

/-- The registers after an edge. -/
theorem step_regfile_reg :
    (step dpi false s).regfile.reg = applyWrite s.regfile.reg s.regW.regWrite :=
  s.regfile.next_reg ..

/-- The instruction in memory reaches write back at the next edge. -/
lemma step_regW_eq : (step dpi false s).regW = s.regWOfM dpi := step_regW dpi s

/-- The instruction in execute is the one in memory an edge later. -/
lemma regWOfM_edge (hm : s.amoM = false) :
    (step dpi false s).regWOfM dpi = s.regWOfE dpi := by
  have hr : (step dpi false s).regM = s.regMIn := by simp [step_regM, hm]
  rw [regWOfM, regWIn, memoryMemRdata, hr, step_mem, regWOfE]

/-- What execute brings to write back is valid with it. -/
lemma regWOfE_valid : (s.regWOfE dpi).valid = s.regE.valid :=
  commitBit_executeCommitInfo s.regE

/-- When `regM` is bubbled instead, execute holds nothing. -/
lemma nop_of_amoM (h : Inv dpi s) (hm : s.amoM = true) :
    s.regE = RegE.nop ∧ (step dpi false s).regM = RegM.nop :=
  ⟨(h.behindAmoM hm).2, by simp [step_regM, hm]⟩

/-- The register write of the instruction in execute is performed two edges later. -/
theorem regWrite_two_edges (h : Inv dpi s) :
    ((step dpi false s).regWOfM dpi).regWrite = (s.regWOfE dpi).regWrite := by
  cases hm : s.amoM with
  | false => rw [regWOfM_edge hm]
  | true =>
    obtain ⟨he, hm'⟩ := nop_of_amoM h hm
    rw [RegW.regWrite_eq_none, RegW.regWrite_eq_none]
    · simp [regWOfE, regMIn, he, RegW.latch, RegM.latch, RegE.nop]
    · simp [regWOfM, regWIn, hm', RegW.latch, RegM.nop]

/-- So is its CSR write. -/
theorem csrWrite_two_edges (h : Inv dpi s) :
    ((step dpi false s).regWOfM dpi).csrWrite = (s.regWOfE dpi).csrWrite := by
  cases hm : s.amoM with
  | false => rw [regWOfM_edge hm]
  | true =>
    obtain ⟨he, hm'⟩ := nop_of_amoM h hm
    have h1 : (s.regWOfE dpi).csrWen = false := by
      simp [regWOfE, regMIn, he, RegW.latch, RegM.latch, RegE.nop]
    have h2 : ((step dpi false s).regWOfM dpi).csrWen = false := by
      simp [regWOfM, regWIn, hm', RegW.latch, RegM.nop]
    simp [RegW.csrWrite, h1, h2]

end TopCpu

end Riscv64Cpu.Pipeline
