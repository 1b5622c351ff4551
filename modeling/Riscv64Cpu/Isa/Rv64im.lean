import Riscv64Cpu.Clocked.Executes
import Riscv64Cpu.Isa.Asm
import Riscv64Cpu.Isa.Rv64m

set_option relaxedAutoImplicit false
set_option autoImplicit false

/-!
# The machine of RV64IM

A hart with its memory of bytes, which fetches its instructions from that memory: the base
instruction set and the extension M.

## Main definitions

* `Rv64im.Instr` — the instructions, with their encodings and effects.
* `Rv64im.Bytes` — memory, with its little-endian numbers and stores.
* `Rv64im.Machine` — pc, registers and memory.
* `Rv64im.Instr.exec` — one instruction.
* `Rv64im.Machine.after`, `Rv64im.Machine.Fetches` — a run: where it ends, and that the machine
  fetches its instructions, with a condition on each.

## Main results

* `Rv64im.Bytes.store_apply` — the bytes after a store that does not wrap around.
* `Rv64im.Bytes.number_congr` — a number depends on its bytes.
* `Rv64im.Instr.get_apply_effect` — the registers that an instruction leaves.
-/

namespace Rv64im

open Clocked Rv64i

/-! ## Instructions -/

/-- The instructions of RV64IM. -/
inductive Instr
  | base (i : Rv64i.Instr)
  | mulDiv (op : Rv64m.Op) (rd rs1 rs2 : BitVec 5)
deriving DecidableEq

namespace Instr

/-- The encoding of an instruction. -/
def encode : Instr → BitVec 32
  | base i => i.encode
  | mulDiv op rd rs1 rs2 => op.encode rd rs1 rs2

/-- The effect of an instruction at `pc`, with the register values `x`. -/
def effect (pc : BitVec 64) (x : BitVec 5 → BitVec 64) (window : BitVec 64 → BitVec 64) :
    Instr → Effect
  | base i => i.effect pc x window
  | mulDiv op rd rs1 rs2 => ⟨write rd (op.eval (x rs1) (x rs2)), pc + 4#64, none⟩

end Instr

/-! ## Memory -/

/-- Memory, byte by byte. -/
abbrev Bytes := BitVec 64 → BitVec 8

namespace Bytes

variable (m : Bytes)

/-- The little-endian number in the `n` bytes from address `a` on. -/
def number (a : BitVec 64) : ℕ → BitVec 64
  | 0 => 0#64
  | n + 1 => number (a + 1#64) n <<< 8 ||| (m a).setWidth 64

/-- The `len` low bytes of `data` stored from address `a` on. -/
def store (a : BitVec 64) (len : ℕ) (data : BitVec 64) : Bytes := fun b =>
  if (b - a).toNat < len then data.extractLsb' (8 * (b - a).toNat) 8 else m b

/-- Memory after the access of an instruction. -/
def after : Option Access → Bytes
  | some (.store a len data) => m.store a len data
  | _ => m

variable {m} {m' : Bytes} {a : BitVec 64} {n : ℕ}

/-- The next address. -/
lemma toNat_next (h : a.toNat + 1 < 2 ^ 64) : (a + 1#64).toNat = a.toNat + 1 := by
  rw [BitVec.toNat_add]
  exact Nat.mod_eq_of_lt h

/-- The bytes after a store that does not wrap around. -/
theorem store_apply (h : a.toNat + n ≤ 2 ^ 64) (data b : BitVec 64) :
    m.store a n data b = if a.toNat ≤ b.toNat ∧ b.toNat < a.toNat + n then
      data.extractLsb' (8 * (b.toNat - a.toNat)) 8 else m b := by
  have hb := b.isLt
  have hsub : (b - a).toNat = (2 ^ 64 - a.toNat + b.toNat) % 2 ^ 64 := BitVec.toNat_sub b a
  unfold store
  by_cases hab : a.toNat ≤ b.toNat
  · have hd : (b - a).toNat = b.toNat - a.toNat := by omega
    rw [hd]
    by_cases hlt : b.toNat < a.toNat + n
    · rw [if_pos (by omega), if_pos ⟨hab, hlt⟩]
    · rw [if_neg (by omega), if_neg fun hc => hlt hc.2]
  · rw [if_neg (by omega), if_neg fun hc => hab hc.1]

/-- A number depends on its bytes. -/
theorem number_congr (hn : a.toNat + n ≤ 2 ^ 64)
    (h : ∀ b : BitVec 64, a.toNat ≤ b.toNat → b.toNat < a.toNat + n → m b = m' b) :
    m.number a n = m'.number a n := by
  induction n generalizing a with
  | zero => rfl
  | succ n ih =>
    have hrest : m.number (a + 1#64) n = m'.number (a + 1#64) n := by
      cases n with
      | zero => rfl
      | succ n =>
        have ha := @toNat_next a (by omega)
        exact ih (by omega) fun b hb hb' => h b (by omega) (by omega)
    rw [number, number, hrest, h a (Nat.le_refl _) (by omega)]

end Bytes

/-! ## Execution -/

/-- A hart and its memory. -/
structure Machine where
  pc : BitVec 64
  regs : Regs
  mem : Bytes

/-- The word at an address. -/
def Machine.word (s : Machine) (a : BitVec 64) : BitVec 32 := (s.mem.number a 4).setWidth 32

/-- The effect of an instruction on a machine. -/
def Instr.effectOn (i : Instr) (s : Machine) : Effect :=
  i.effect s.pc s.regs.get fun a => s.mem.number a 8

/-- The machine after an instruction. -/
def Instr.exec (i : Instr) (s : Machine) : Machine where
  pc := (i.effectOn s).nextPc
  regs := s.regs.apply (i.effectOn s).regWrite
  mem := s.mem.after (i.effectOn s).access

/-- The machine after some instructions. -/
def Machine.after (s : Machine) (is : List Instr) : Machine := execAll Instr.exec is s

/-- The machine fetches the instructions one after another, each of them where `ok` holds. -/
def Machine.Fetches (ok : Machine → Instr → Prop) (is : List Instr) (s : Machine) : Prop :=
  Executes Instr.exec (fun s i => s.word s.pc = i.encode ∧ ok s i) is s

instance (ok : Machine → Instr → Prop) [∀ s i, Decidable (ok s i)] (is : List Instr) (s : Machine) :
    Decidable (s.Fetches ok is) :=
  inferInstanceAs (Decidable (Executes _ _ is s))

/-- The registers that an instruction leaves. -/
theorem Instr.get_apply_effect (i : Instr) (x : Regs) (pc : BitVec 64)
    (w : BitVec 64 → BitVec 64) : (x.apply (i.effect pc x.get w).regWrite).get =
      applyWrite x.get (i.effect pc x.get w).regWrite := by
  cases i with
  | base i => exact i.get_apply_effect x pc w
  | mulDiv op rd rs1 rs2 => exact congrArg Regs.get (x.apply_write rd _)

end Rv64im
