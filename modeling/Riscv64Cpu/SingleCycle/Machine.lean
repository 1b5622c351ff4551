import Mathlib.Logic.Function.Iterate
import Riscv64Cpu.SingleCycle.Correctness

set_option relaxedAutoImplicit false
set_option autoImplicit false

/-!
# The machine that the single-cycle processor implements

RV32I with traps: the instructions of RV32I without the fences and `ebreak`, the two CSR
instructions of the design, `ecall` and `mret` as operations on a pc, the registers, the CSRs by
their addresses and the memory.  From the reset on the processor follows every run of this machine.

`ecall` does not trap as the manual of the instruction set says: the design saves the address of
the next instruction and not its own, so that a handler returns behind it without an addition, and
the cause is 1.

## Main definitions

* `SingleCycle.Op`, `Op.encode` — the operations and their encodings.
* `SingleCycle.Hart`, `Op.exec` — the state and what an operation does to it.
* `SingleCycle.Hart.Runs` — the operations fetched one after another and their end.
* `SingleCycle.Cpu.run` — the processor without reset.

## Main results

* `SingleCycle.hart_step` — one edge is one operation.
* `SingleCycle.follows_runs` — from the reset on the processor follows every run.
-/

namespace Riscv64Cpu.SingleCycle

open Clocked Rv32i

/-! ## The machine -/

/-- The operations. -/
inductive Op
  | instr (i : Instr)
  | ecall
  | mret
deriving DecidableEq

/-- The encoding of an operation. -/
def Op.encode : Op → BitVec 32
  | instr i => i.encode
  | ecall => 0x00000073#32
  | mret => 0x30200073#32

/-- The state of the machine. -/
structure Hart (M : Type) where
  pc : BitVec 32
  x : BitVec 5 → BitVec 32
  csr : BitVec 12 → BitVec 32
  mem : M

/-- The number of `mstatus`. -/
def mstatus : BitVec 12 := 0x300#12
/-- The number of `mtvec`. -/
def mtvec : BitVec 12 := 0x305#12
/-- The number of `mepc`. -/
def mepc : BitVec 12 := 0x341#12
/-- The number of `mcause`. -/
def mcause : BitVec 12 := 0x342#12

/-- The CSRs after an optional write; a write to an address without a CSR is dropped. -/
def csrAfter (c : BitVec 12 → BitVec 32) : Option (BitVec 12 × BitVec 32) → BitVec 12 → BitVec 32
  | none => c
  | some (id, v) => fun k => if Csr.implemented id = true ∧ k = id then v else c k

/-- What an operation does. -/
def Op.exec {M : Type} (dpi : Dpi M) (h : Hart M) : Op → Hart M
  | instr i =>
    let e := i.effect h.pc h.x h.csr (window dpi h.mem)
    ⟨e.nextPc, applyWrite h.x e.regWrite, csrAfter h.csr e.csrWrite, memAfter dpi h.mem e.access⟩
  | ecall =>
    { h with
      pc := h.csr mtvec
      csr := csrAfter (csrAfter h.csr (some (mepc, h.pc + 4#32))) (some (mcause, 1#32)) }
  | mret => { h with pc := h.csr mepc }

/-- The machine in state `h` fetches the operations `ops` one after another and ends in `h'`. -/
def Hart.Runs {M : Type} (dpi : Dpi M) : List Op → Hart M → Hart M → Prop
  | [], h, h' => h' = h
  | o :: ops, h, h' => window dpi h.mem h.pc = o.encode ∧ Hart.Runs dpi ops (o.exec dpi h) h'

/-- Runs one after another. -/
lemma Hart.Runs.append {M : Type} {dpi : Dpi M} {ops ops' : List Op} {h h' h'' : Hart M}
    (hr : Runs dpi ops h h') (hr' : Runs dpi ops' h' h'') : Runs dpi (ops ++ ops') h h'' := by
  induction ops generalizing h with
  | nil =>
    obtain rfl : h' = h := hr
    exact hr'
  | cons o ops ih => exact ⟨hr.1, ih hr.2⟩

/-! ## The processor -/

namespace Cpu

variable {M : Type} (dpi : Dpi M)

/-- The architectural state of the processor. -/
def hart (s : Cpu M) : Hart M := ⟨s.pc, s.regfile, s.csr.value, s.mem⟩

/-- The processor after `n` edges without reset. -/
def run (n : ℕ) (s : Cpu M) : Cpu M := (fun t => t.step dpi false)^[n] s

end Cpu

section Step

variable {M : Type} {dpi : Dpi M} {s : Cpu M}

/-- An optional write of a CSR. -/
lemma value_after (c : Csr) (e : Option (BitVec 12 × BitVec 32)) :
    (c.after e).value = csrAfter c.value e := by
  obtain _ | ⟨id, v⟩ := e
  · rfl
  · funext k
    exact c.value_written id v k

/-- Both trap instructions write neither a register nor the memory. -/
lemma step_trap (hw : s.instr dpi = 0x00000073#32 ∨ s.instr dpi = 0x30200073#32) :
    (s.step dpi false).regfile = s.regfile ∧ (s.step dpi false).mem = s.mem := by
  rcases hw with hw | hw <;> constructor <;> simp only [Cpu.step, hw] <;> rfl

/-- An edge whose word is `ecall`. -/
private lemma hart_step_ecall (hw : s.instr dpi = 0x00000073#32) :
    (s.step dpi false).hart = Op.ecall.exec dpi s.hart := by
  obtain ⟨hx, hm⟩ := step_trap (.inl hw)
  have hpc : (s.step dpi false).pc = s.csr.mtvec := by
    simp only [Cpu.step, Cpu.pcSel, hw]
    rfl
  have hc : (s.step dpi false).csr = { s.csr with mepc := s.pc + 4#32, mcause := 1#32 } := by
    simp only [Cpu.step, hw]
    rfl
  have hv : (s.step dpi false).csr.value =
      csrAfter (csrAfter s.csr.value (some (mepc, s.pc + 4#32))) (some (mcause, 1#32)) := by
    rw [hc, ← value_after, ← value_after]
    rfl
  rw [Cpu.hart, hx, hm, hpc, hv]
  rfl

/-- An edge whose word is `mret`. -/
private lemma hart_step_mret (hw : s.instr dpi = 0x30200073#32) :
    (s.step dpi false).hart = Op.mret.exec dpi s.hart := by
  obtain ⟨hx, hm⟩ := step_trap (.inr hw)
  have hpc : (s.step dpi false).pc = s.csr.mepc := by
    simp only [Cpu.step, Cpu.pcSel, hw]
    rfl
  have hc : (s.step dpi false).csr = s.csr := by
    simp only [Cpu.step, hw]
    rfl
  rw [Cpu.hart, hx, hm, hpc, hc]
  rfl

/-- **One edge is one operation.** -/
theorem hart_step (o : Op) (h0 : s.regfile 0#5 = 0#32) (hw : s.instr dpi = o.encode) :
    (s.step dpi false).hart = o.exec dpi s.hart := by
  cases o with
  | instr i =>
    obtain ⟨hpc, hx, hc, hm⟩ := executes_encode i h0 hw
    rw [Cpu.hart, hpc, hx, hc, hm, value_after]
    rfl
  | ecall => exact hart_step_ecall hw
  | mret => exact hart_step_mret hw

/-- An edge with the reset on clears `x0`. -/
lemma x0_reset : (s.step dpi true).regfile 0#5 = 0#32 := by simp [Cpu.step]

/-- An edge leaves `x0` alone. -/
lemma x0_step (h0 : s.regfile 0#5 = 0#32) (rst : Bool) :
    (s.step dpi rst).regfile 0#5 = 0#32 := by
  simp only [Cpu.step]
  split_ifs with hr hw
  · simp
  · have hrd : 0#5 ≠ rd (s.instr dpi) := by
      rintro he
      simp [← he] at hw
    rw [Function.update_of_ne hrd, h0]
  · exact h0

/-- So does a run. -/
lemma x0_run (h0 : s.regfile 0#5 = 0#32) (n : ℕ) : (s.run dpi n).regfile 0#5 = 0#32 := by
  induction n generalizing s with
  | zero => exact h0
  | succ n ih => exact ih (x0_step h0 false)

/-- The processor follows a run of the machine, when `x0` is zero. -/
lemma hart_run {ops : List Op} {h' : Hart M} (h0 : s.regfile 0#5 = 0#32)
    (hr : Hart.Runs dpi ops s.hart h') : (s.run dpi ops.length).hart = h' := by
  induction ops generalizing s with
  | nil => exact hr.symm
  | cons o ops ih =>
    obtain ⟨hw, hr⟩ := hr
    rw [← hart_step o h0 hw] at hr
    exact ih (x0_step h0 false) hr

end Step

/-- **From the reset on the processor follows every run of the machine.**  After a clock edge with
the reset on, the machine starts from the architectural state there: the pc at the start of the
memory, `x0` zero and the CSRs at their reset values; and whatever operations it fetches one after
another, the processor is in their end after as many edges. -/
theorem follows_runs {M : Type} (dpi : Dpi M) (s : Cpu M) {ops : List Op} {h' : Hart M}
    (hr : Hart.Runs dpi ops (s.step dpi true).hart h') :
    (s.step dpi true).pc = 0x80000000#32 ∧ (s.step dpi true).csr = Csr.reset ∧
      ((s.step dpi true).run dpi ops.length).hart = h' := by
  exact ⟨rfl, rfl, hart_run x0_reset hr⟩

/-- A program that traps to the instruction behind its `ecall`. -/
def trapProgram : List Op :=
  [.instr (.lui 1#5 0x80000#20), .instr (.opImm .addi 1#5 1#5 16#12),
    .instr (.csrrw 0#5 1#5 mtvec), .ecall, .instr (.csrrs 2#5 0#5 mepc), .mret]

/-- A read-only memory with the program. -/
def trapDpi : Dpi Unit where
  memRead _ addr _ :=
    ((trapProgram.map Op.encode)[(addr - 0x80000000#32).toNat / 4]?).getD 0#32
  memWrite _ _ _ _ := ()

/-- The processor after the reset of a register file full of ones. -/
def trapStart : Cpu Unit := ⟨0#32, fun _ => 1#32, Csr.reset, ()⟩

/-- The program above ends with the address behind its `ecall` in `x2` and goes there. -/
theorem follows_runs_trap : ∃ h',
    Hart.Runs trapDpi trapProgram (trapStart.step trapDpi true).hart h' ∧
    h'.pc = 0x80000010#32 ∧ h'.x 2#5 = 0x80000010#32 ∧ h'.csr mcause = 1#32 ∧
    ((trapStart.step trapDpi true).run trapDpi 6).hart = h' := by
  have hr : Hart.Runs trapDpi trapProgram (trapStart.step trapDpi true).hart
      (trapProgram.foldl (fun h o => o.exec trapDpi h) (trapStart.step trapDpi true).hart) :=
    ⟨by decide +kernel, by decide +kernel, by decide +kernel, by decide +kernel, by decide +kernel,
      by decide +kernel, rfl⟩
  exact ⟨_, hr, by decide +kernel, by decide +kernel, by decide +kernel,
    (follows_runs trapDpi trapStart hr).2.2⟩

end Riscv64Cpu.SingleCycle
