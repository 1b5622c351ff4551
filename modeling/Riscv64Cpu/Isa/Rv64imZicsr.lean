import Mathlib.Logic.Function.Basic
import Riscv64Cpu.Isa.Rv64im
import Riscv64Cpu.Isa.Zicsr

set_option relaxedAutoImplicit false
set_option autoImplicit false

/-!
# The machine of RV64IM with Zicsr

The hart of RV64IM with control and status registers, each of them a plain register of 64 bits.

## Main definitions

* `Rv64imZicsr.Instr` — the instructions and their encodings.
* `Rv64imZicsr.Machine` — the machine of RV64IM and its CSRs.
* `Rv64imZicsr.Instr.exec` — one instruction.
* `Rv64imZicsr.Machine.after`, `Rv64imZicsr.Machine.Fetches` — a run.
-/

namespace Rv64imZicsr

open Clocked Rv64i

/-- The instructions of RV64IM and of Zicsr; `src` is a register or an immediate. -/
inductive Instr
  | im (i : Rv64im.Instr)
  | csr (op : Zicsr.Op) (rd src : BitVec 5) (id : BitVec 12)
deriving DecidableEq

/-- The encoding of an instruction. -/
def Instr.encode : Instr → BitVec 32
  | im i => i.encode
  | csr op rd src id => op.encode rd src id

/-- A hart with its memory and its CSRs. -/
structure Machine extends Rv64im.Machine where
  csrs : BitVec 12 → BitVec 64

/-- The machine after an instruction: a CSR instruction exchanges the CSR with `rd`. -/
def Instr.exec : Instr → Machine → Machine
  | im i, s => ⟨i.exec s.toMachine, s.csrs⟩
  | csr op rd src id, s =>
    ⟨⟨s.pc + 4#64, s.regs.set rd (s.csrs id), s.mem⟩,
      Function.update s.csrs id
        (op.newValue (s.csrs id) (op.operand (s.regs.get src) src))⟩

/-- The machine after some instructions. -/
def Machine.after (s : Machine) (is : List Instr) : Machine := execAll Instr.exec is s

/-- The machine fetches the instructions one after another, each of them where `ok` holds. -/
def Machine.Fetches (ok : Machine → Instr → Prop) (is : List Instr) (s : Machine) : Prop :=
  Executes Instr.exec (fun s i => s.word s.pc = i.encode ∧ ok s i) is s

instance (ok : Machine → Instr → Prop) [∀ s i, Decidable (ok s i)] (is : List Instr) (s : Machine) :
    Decidable (s.Fetches ok is) :=
  inferInstanceAs (Decidable (Executes _ _ is s))

end Rv64imZicsr
