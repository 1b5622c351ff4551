import Mathlib.Tactic.SplitIfs
import Riscv64Cpu.Clocked.PendingWrites
import Riscv64Cpu.Clocked.Run
import Riscv64Cpu.Isa.Rv64i

set_option relaxedAutoImplicit false
set_option autoImplicit false

/-!
# Assembly texts

Programs in the assembly language of RV64I, with labels, and the rules that run them line by line.
A text lies somewhere in the address space; the hart that executes it is a pc and the registers.
The texts of this file do not access memory.

## Main definitions

* `Rv64i.Regs` — the registers, with `x0` zero.
* `Rv64i.Hart`, `Rv64i.Instr.exec`, `Rv64i.Hart.step` — the hart and the execution of a program.
* `Rv64i.Line`, `Rv64i.Text` — a line with its label unresolved, and a text with all its labels.
* `Rv64i.Line.next` — what a line does, in terms of labels.
* `Rv64i.Text.code` — the text assembled at a base address.

## Main results

* `Rv64i.Text.step_line` — the assembled text does what the lines say.
* `Rv64i.Text.within_line`, `within_loop` — the rules for one line and for a loop.

## Design

A label is the number of the line it stands before.  A text has at most 1024 lines, so that every
branch reaches every label.
-/

namespace Rv64i

open Clocked

/-! ## Registers -/

/-- The registers; `x0` is zero. -/
structure Regs where
  get : BitVec 5 → BitVec 64
  x0 : get 0#5 = 0#64

namespace Regs

variable (x : Regs) (rd : BitVec 5) (v : BitVec 64)

/-- Registers with the same values are the same. -/
@[ext] lemma ext {x y : Regs} (h : ∀ r, x.get r = y.get r) : x = y := by
  obtain ⟨f, hf⟩ := x
  obtain ⟨g, hg⟩ := y
  obtain rfl : f = g := funext h
  rfl

/-- The registers after a write of `v` to `rd`; writes to `x0` are discarded. -/
def set : Regs where
  get := applyWrite x.get (write rd v)
  x0 := by
    unfold write
    split_ifs with h
    · exact x.x0
    · rw [applyWrite_miss _ (by simpa using h), x.x0]

/-- The values after a write. -/
@[simp] lemma get_set (r : BitVec 5) :
    (x.set rd v).get r = if r = rd ∧ rd ≠ 0#5 then v else x.get r := by
  by_cases h0 : rd = 0#5
  · simp [set, write, h0, applyWrite]
  · by_cases hr : r = rd
    · subst hr
      simp [set, write, h0, applyWrite]
    · simp [set, write, h0, hr, applyWrite]

/-- The registers after an optional write. -/
def apply : Option (BitVec 5 × BitVec 64) → Regs
  | none => x
  | some (rd, v) => x.set rd v

/-- The optional write of an instruction. -/
@[simp] lemma apply_write : x.apply (write rd v) = x.set rd v := by
  by_cases h0 : rd = 0#5
  · ext r
    simp [write, h0, apply, get_set]
  · simp [write, h0, apply]

/-- The registers `y` are `x` but for those in `rs`. -/
def SameBut (rs : List (BitVec 5)) (x y : Regs) : Prop := ∀ r, r ∉ rs → y.get r = x.get r

/-- Nothing has changed. -/
lemma SameBut.refl (rs : List (BitVec 5)) : SameBut rs x x := fun _ _ => rfl

variable {x} {rs : List (BitVec 5)}

/-- A further write to a listed register. -/
lemma SameBut.set {y : Regs} (h : SameBut rs x y) (rd : BitVec 5) (hrd : rd ∈ rs)
    (v : BitVec 64) : SameBut rs x (y.set rd v) := by
  intro r hr
  have hne : ¬(r = rd ∧ rd ≠ 0#5) := fun hc => hr (hc.1 ▸ hrd)
  rw [get_set, if_neg hne, h r hr]

/-- Changes one after another. -/
lemma SameBut.trans {y z : Regs} {rs' : List (BitVec 5)} (h : SameBut rs x y)
    (h' : SameBut rs' y z) (hrs : ∀ r ∈ rs', r ∈ rs) : SameBut rs x z := fun r hr =>
  (h' r fun hc => hr (hrs r hc)).trans (h r hr)

end Regs

/-! ## Execution -/

/-- A hart: its pc and its registers. -/
structure Hart where
  pc : BitVec 64
  regs : Regs

/-- The instruction does not access memory. -/
def Instr.registerOnly : Instr → Bool
  | load .. | store .. => false
  | _ => true

/-- The hart after an instruction that does not access memory. -/
def Instr.exec (i : Instr) (h : Hart) : Hart where
  pc := (i.effect h.pc h.regs.get fun _ => 0#64).nextPc
  regs := h.regs.apply (i.effect h.pc h.regs.get fun _ => 0#64).regWrite

/-- An instruction that does not access memory does not depend on it. -/
lemma Instr.effect_window {i : Instr} (hi : i.registerOnly = true) (pc : BitVec 64)
    (x : BitVec 5 → BitVec 64) (w w' : BitVec 64 → BitVec 64) :
    i.effect pc x w = i.effect pc x w' ∧ (i.effect pc x w).access = none := by
  cases i <;> first | exact ⟨rfl, rfl⟩ | cases hi

/-- The registers that an instruction leaves. -/
lemma Instr.get_apply_effect (i : Instr) (x : Regs) (pc : BitVec 64)
    (w : BitVec 64 → BitVec 64) : (x.apply (i.effect pc x.get w).regWrite).get =
      applyWrite x.get (i.effect pc x.get w).regWrite := by
  have hw : ∀ rd v, (x.apply (write rd v)).get = applyWrite x.get (write rd v) := fun rd v => by
    rw [Regs.apply_write]
    rfl
  cases i <;> first | exact hw _ _ | rfl

/-- One step of a program, given by its instructions and where they lie; a hart outside the
program stays where it is. -/
def Hart.step (code : BitVec 64 → Option Instr) (h : Hart) : Hart :=
  match code h.pc with
  | some i => i.exec h
  | none => h

/-! ## Lines -/

/-- A line of a text: an instruction, or a control transfer to a label. -/
inductive Line
  | plain (i : Instr)
  | branch (op : BranchOp) (rs1 rs2 : BitVec 5) (label : ℕ)
  | jal (rd : BitVec 5) (label : ℕ)

namespace Line

/-- The label of a line. -/
def label : Line → Option ℕ
  | plain _ => none
  | branch _ _ _ t => some t
  | jal _ t => some t

/-- The instruction of line `k`, with the distance to the label filled in. -/
def instr (k : ℕ) : Line → Instr
  | plain i => i
  | branch op rs1 rs2 t => .branch op rs1 rs2 (BitVec.ofInt 12 (2 * (t - k)))
  | jal rd t => .jal rd (BitVec.ofInt 20 (2 * (t - k)))

/-- The address of line `k` of a text at `base`. -/
def addr (base : BitVec 64) (k : ℕ) : BitVec 64 := base + BitVec.ofNat 64 (4 * k)

/-- The line behind line `k`. -/
@[simp] lemma addr_add_four (base : BitVec 64) (k : ℕ) :
    addr base k + 4#64 = addr base (k + 1) := by
  rw [addr, addr, Nat.mul_add, BitVec.ofNat_add, BitVec.add_assoc]

/-- What line `k` does, in terms of labels. -/
def next (base : BitVec 64) (k : ℕ) (x : Regs) : Line → Hart
  | plain i => i.exec ⟨addr base k, x⟩
  | branch op rs1 rs2 t =>
    if op.taken (x.get rs1) (x.get rs2) then ⟨addr base t, x⟩ else ⟨addr base (k + 1), x⟩
  | jal rd t => ⟨addr base t, x.set rd (addr base (k + 1))⟩

end Line

/-! ## Distances -/

/-- Appending a zero doubles a number. -/
private lemma toInt_append_zero {n : ℕ} (b : BitVec n) : (b ++ 0#1).toInt = 2 * b.toInt := by
  have hnat : (b ++ 0#1).toNat = 2 * b.toNat := by
    rw [BitVec.toNat_append]
    simp [Nat.shiftLeft_eq, Nat.mul_comm]
  have hpow : 2 ^ (n + 1) = 2 * 2 ^ n := by rw [Nat.pow_succ, Nat.mul_comm]
  rw [BitVec.toInt_eq_toNat_cond, BitVec.toInt_eq_toNat_cond, hnat, hpow]
  split_ifs <;> omega

/-- The distance between two lines, read back from the offset in units of two bytes. -/
lemma addr_add_offset {n : ℕ} {base : BitVec 64} {k t : ℕ}
    (h : (BitVec.ofInt n (2 * ((t : ℤ) - k))).toInt = 2 * ((t : ℤ) - k)) :
    Line.addr base k + (BitVec.ofInt n (2 * ((t : ℤ) - k)) ++ 0#1).signExtend 64 =
      Line.addr base t := by
  have hdist : BitVec.ofNat 64 (4 * k) + BitVec.ofInt 64 (2 * (2 * ((t : ℤ) - k))) =
      BitVec.ofNat 64 (4 * t) := by
    rw [← BitVec.ofInt_natCast, ← BitVec.ofInt_natCast, ← BitVec.ofInt_add]
    congr 1
    omega
  rw [BitVec.signExtend, toInt_append_zero, h, Line.addr, BitVec.add_assoc, hdist, Line.addr]

/-- The hart is at line `k`, with registers that satisfy `P`. -/
def At (base : BitVec 64) (k : ℕ) (P : Regs → Prop) (h : Hart) : Prop :=
  ∃ y, h = ⟨Line.addr base k, y⟩ ∧ P y

/-! ## Texts -/

/-- A text: its lines, all of whose labels are among them. -/
structure Text where
  lines : List Line
  length_le : lines.length ≤ 1024
  label_lt : ∀ l ∈ lines, ∀ t ∈ l.label, t < lines.length

namespace Text

variable (T : Text) (base : BitVec 64)

/-- The assembled text at `base`: the instruction at an address. -/
def code (a : BitVec 64) : Option Instr :=
  if (a - base).toNat % 4 = 0 then
    (T.lines[(a - base).toNat / 4]?).map (Line.instr ((a - base).toNat / 4))
  else none

/-- The instructions of the assembled text, in order. -/
def instrs : List Instr := T.lines.mapIdx Line.instr

/-- What is at an address is a line of the text, at its distance from the base. -/
lemma code_eq_some {a : BitVec 64} {i : Instr} (h : T.code base a = some i) :
    ∃ k < T.lines.length, a = Line.addr base k ∧ T.instrs[k]? = some i := by
  unfold code at h
  split_ifs at h with hmod
  obtain ⟨l, hl, rfl⟩ := Option.map_eq_some_iff.mp h
  obtain ⟨hlt, -⟩ := List.getElem?_eq_some_iff.mp hl
  refine ⟨_, hlt, ?_, by rw [instrs, List.getElem?_mapIdx, hl]; rfl⟩
  have ha : a = base + (a - base) := by rw [BitVec.add_comm, BitVec.sub_add_cancel]
  have hdist : BitVec.ofNat 64 (4 * ((a - base).toNat / 4)) = a - base := by
    rw [Nat.mul_div_cancel' (Nat.dvd_of_mod_eq_zero hmod), BitVec.ofNat_toNat,
      BitVec.setWidth_eq]
  rw [Line.addr, hdist]
  exact ha

variable {T} {k : ℕ} {l : Line} (hk : T.lines[k]? = some l)
include hk

/-- A line of the text is at its address. -/
private lemma code_addr : T.code base (Line.addr base k) = some (l.instr k) := by
  obtain ⟨hlt, -⟩ := List.getElem?_eq_some_iff.mp hk
  have hdist : (Line.addr base k - base).toNat = 4 * k := by
    have hle := T.length_le
    rw [Line.addr, BitVec.add_comm, BitVec.add_sub_cancel, BitVec.toNat_ofNat]
    omega
  rw [code, hdist, if_pos (Nat.mul_mod_right 4 k), Nat.mul_div_cancel_left k (by decide), hk]
  rfl

/-- **The assembled line does what the line says.** -/
theorem exec_instr (x : Regs) : (l.instr k).exec ⟨Line.addr base k, x⟩ = l.next base k x := by
  obtain ⟨hlt, -⟩ := List.getElem?_eq_some_iff.mp hk
  have hle := T.length_le
  have hlabel := T.label_lt l (List.mem_of_getElem? hk)
  cases l with
  | plain i => rfl
  | branch op rs1 rs2 t =>
    have ht : t < T.lines.length := hlabel t rfl
    have hoff : (BitVec.ofInt 12 (2 * ((t : ℤ) - k))).toInt = 2 * ((t : ℤ) - k) := by
      rw [BitVec.toInt_ofInt]
      exact Int.bmod_eq_of_le (by omega) (by omega)
    simp only [Line.instr, Instr.exec, Instr.effect, Line.next, addr_add_offset hoff,
      Line.addr_add_four, Regs.apply]
    split_ifs <;> rfl
  | jal rd t =>
    have ht : t < T.lines.length := hlabel t rfl
    have hoff : (BitVec.ofInt 20 (2 * ((t : ℤ) - k))).toInt = 2 * ((t : ℤ) - k) := by
      rw [BitVec.toInt_ofInt]
      exact Int.bmod_eq_of_le (by omega) (by omega)
    simp only [Line.instr, Instr.exec, Instr.effect, Line.next, addr_add_offset hoff,
      Line.addr_add_four, Regs.apply_write]

/-- One step of the assembled text is one line. -/
theorem step_line (x : Regs) :
    Hart.step (T.code base) ⟨Line.addr base k, x⟩ = l.next base k x := by
  rw [Hart.step, code_addr base hk]
  exact exec_instr base hk x

/-- **The rule for one line.** -/
theorem within_line {x : Regs} {P : Hart → Prop} {n : ℕ}
    (h : Within (Hart.step (T.code base)) P n (l.next base k x)) :
    Within (Hart.step (T.code base)) P (n + 1) ⟨Line.addr base k, x⟩ :=
  Within.next (by rwa [step_line base hk x])

omit hk in
/-- **The rule for a loop** at line `k`: every round of at most `c` lines reaches `Q` or comes back
to `k` with a smaller variant. -/
theorem within_loop (k : ℕ) {Inv : ℕ → Regs → Prop} {Q : Hart → Prop} {c : ℕ}
    (hround : ∀ n y, Inv n y → Within (Hart.step (T.code base))
      (fun h => Q h ∨ ∃ m < n, At base k (Inv m) h) c ⟨Line.addr base k, y⟩)
    (n : ℕ) (y : Regs) (h : Inv n y) :
    Within (Hart.step (T.code base)) Q ((n + 1) * c) ⟨Line.addr base k, y⟩ := by
  refine @Within.loop _ _ Q (fun n => At base k (Inv n)) c ?_ n _ ⟨y, rfl, h⟩
  rintro n _ ⟨y, rfl, h⟩
  exact hround n y h

end Text

/-! ## Mnemonics

The registers and instructions under the names that assembly gives them, and what they do.
-/

/-- The return address. -/
@[simp] abbrev ra : BitVec 5 := 1#5

/-- The return address of the inner calls. -/
@[simp] abbrev t0 : BitVec 5 := 5#5

/-- The first argument, and the result. -/
@[simp] abbrev a0 : BitVec 5 := 10#5

/-- The second argument. -/
@[simp] abbrev a1 : BitVec 5 := 11#5

/-- A register of the routines. -/
@[simp] abbrev a2 : BitVec 5 := 12#5

/-- A register of the routines. -/
@[simp] abbrev a3 : BitVec 5 := 13#5

namespace Line

section Mnemonics

variable (rd rs rs1 rs2 : BitVec 5) (imm : BitVec 12) (shamt : BitVec 6) (t : ℕ)

def mv : Line := plain (.opImm .addi rd rs 0#12)

def li : Line := plain (.opImm .addi rd 0#5 imm)

def andi : Line := plain (.opImm .andi rd rs imm)

def slli : Line := plain (.shiftImm .sll rd rs shamt)

def srli : Line := plain (.shiftImm .srl rd rs shamt)

/-- `sext.w` -/
def sextw : Line := plain (.addiw rd rs 0#12)

def add : Line := plain (.reg .add rd rs1 rs2)

def sub : Line := plain (.reg .sub rd rs1 rs2)

def or : Line := plain (.reg .or rd rs1 rs2)

def neg : Line := plain (.reg .sub rd 0#5 rs)

def jr : Line := plain (.jalr 0#5 rs 0#12)

def ret : Line := jr ra

def j : Line := jal 0#5 t

def beq : Line := branch .beq rs1 rs2 t

def bne : Line := branch .bne rs1 rs2 t

def bltu : Line := branch .bltu rs1 rs2 t

def bgeu : Line := branch .bgeu rs1 rs2 t

def bgtu : Line := branch .bltu rs2 rs1 t

def beqz : Line := branch .beq rs 0#5 t

def bnez : Line := branch .bne rs 0#5 t

def bltz : Line := branch .blt rs 0#5 t

def bgez : Line := branch .bge rs 0#5 t

def blez : Line := branch .bge 0#5 rs t

def bgtz : Line := branch .blt 0#5 rs t

variable (base : BitVec 64) (k : ℕ) (x : Regs)

/-- A computation from a register and an immediate. -/
lemma next_opImm (op : ImmOp) : (plain (.opImm op rd rs imm)).next base k x =
    ⟨addr base (k + 1), x.set rd (op.toRegOp.eval (x.get rs) (imm.signExtend 64))⟩ := by
  simp [next, Instr.exec, Instr.effect]

/-- A computation from two registers. -/
lemma next_reg (op : RegOp) : (plain (.reg op rd rs1 rs2)).next base k x =
    ⟨addr base (k + 1), x.set rd (op.eval (x.get rs1) (x.get rs2))⟩ := by
  simp [next, Instr.exec, Instr.effect]

/-- `mv` copies a register. -/
@[simp] lemma next_mv : (mv rd rs).next base k x =
    ⟨addr base (k + 1), x.set rd (x.get rs)⟩ := by
  simp [mv, next_opImm, ImmOp.toRegOp, RegOp.eval]

/-- `li` loads an immediate. -/
@[simp] lemma next_li : (li rd imm).next base k x =
    ⟨addr base (k + 1), x.set rd (imm.signExtend 64)⟩ := by
  simp [li, next_opImm, ImmOp.toRegOp, RegOp.eval, x.x0]

/-- `andi` masks a register. -/
@[simp] lemma next_andi : (andi rd rs imm).next base k x =
    ⟨addr base (k + 1), x.set rd (x.get rs &&& imm.signExtend 64)⟩ :=
  next_opImm ..

/-- `slli` shifts to the left. -/
@[simp] lemma next_slli : (slli rd rs shamt).next base k x =
    ⟨addr base (k + 1), x.set rd (x.get rs <<< shamt.toNat)⟩ := by
  simp [slli, next, Instr.exec, Instr.effect, ShiftOp.eval]

/-- `srli` shifts to the right and fills with zeros. -/
@[simp] lemma next_srli : (srli rd rs shamt).next base k x =
    ⟨addr base (k + 1), x.set rd (x.get rs >>> shamt.toNat)⟩ := by
  simp [srli, next, Instr.exec, Instr.effect, ShiftOp.eval]

/-- `sext.w` extends the low word. -/
@[simp] lemma next_sextw : (sextw rd rs).next base k x =
    ⟨addr base (k + 1), x.set rd (((x.get rs).setWidth 32).signExtend 64)⟩ := by
  simp [sextw, next, Instr.exec, Instr.effect]

/-- `add` adds two registers. -/
@[simp] lemma next_add : (add rd rs1 rs2).next base k x =
    ⟨addr base (k + 1), x.set rd (x.get rs1 + x.get rs2)⟩ :=
  next_reg ..

/-- `sub` subtracts two registers. -/
@[simp] lemma next_sub : (sub rd rs1 rs2).next base k x =
    ⟨addr base (k + 1), x.set rd (x.get rs1 - x.get rs2)⟩ :=
  next_reg ..

/-- `or` joins two registers. -/
@[simp] lemma next_or : (or rd rs1 rs2).next base k x =
    ⟨addr base (k + 1), x.set rd (x.get rs1 ||| x.get rs2)⟩ :=
  next_reg ..

/-- `neg` negates a register. -/
@[simp] lemma next_neg : (neg rd rs).next base k x =
    ⟨addr base (k + 1), x.set rd (-x.get rs)⟩ := by
  simp [neg, next_reg, RegOp.eval, x.x0]

/-- Nothing is written to `x0`. -/
@[simp] lemma set_x0 (v : BitVec 64) : x.set 0#5 v = x := by
  ext r
  simp [Regs.get_set]

/-- `jr` goes to the address in a register. -/
@[simp] lemma next_jr : (jr rs).next base k x = ⟨x.get rs &&& ~~~1#64, x⟩ := by
  simp [jr, next, Instr.exec, Instr.effect]

/-- `jal` goes to line `t` and links the next line. -/
@[simp] lemma next_jal : (jal rd t).next base k x =
    ⟨addr base t, x.set rd (addr base (k + 1))⟩ := rfl

/-- `j` goes to line `t`. -/
@[simp] lemma next_j : (j t).next base k x = ⟨addr base t, x⟩ := by
  simp [j, next]

/-- `beq` goes to line `t` when the registers are equal. -/
@[simp] lemma next_beq : (beq rs1 rs2 t).next base k x =
    if x.get rs1 = x.get rs2 then ⟨addr base t, x⟩ else ⟨addr base (k + 1), x⟩ := by
  simp [beq, next, BranchOp.taken]

/-- `bne` goes to line `t` when the registers differ. -/
@[simp] lemma next_bne : (bne rs1 rs2 t).next base k x =
    if x.get rs1 ≠ x.get rs2 then ⟨addr base t, x⟩ else ⟨addr base (k + 1), x⟩ := by
  simp [bne, next, BranchOp.taken]

/-- `bltu` goes to line `t` when the first register is the smaller one. -/
@[simp] lemma next_bltu : (bltu rs1 rs2 t).next base k x =
    if x.get rs1 < x.get rs2 then ⟨addr base t, x⟩ else ⟨addr base (k + 1), x⟩ := by
  simp [bltu, next, BranchOp.taken, BitVec.lt_def]

/-- `bgeu` goes to line `t` when the first register is not the smaller one. -/
@[simp] lemma next_bgeu : (bgeu rs1 rs2 t).next base k x =
    if x.get rs2 ≤ x.get rs1 then ⟨addr base t, x⟩ else ⟨addr base (k + 1), x⟩ := by
  simp [bgeu, next, BranchOp.taken, BitVec.le_def]

/-- `bgtu` goes to line `t` when the first register is the greater one. -/
@[simp] lemma next_bgtu : (bgtu rs1 rs2 t).next base k x =
    if x.get rs2 < x.get rs1 then ⟨addr base t, x⟩ else ⟨addr base (k + 1), x⟩ :=
  next_bltu ..

/-- `beqz` goes to line `t` when the register is zero. -/
@[simp] lemma next_beqz : (beqz rs t).next base k x =
    if x.get rs = 0#64 then ⟨addr base t, x⟩ else ⟨addr base (k + 1), x⟩ := by
  simp [beqz, next, BranchOp.taken, x.x0]

/-- `bnez` goes to line `t` when the register is not zero. -/
@[simp] lemma next_bnez : (bnez rs t).next base k x =
    if x.get rs ≠ 0#64 then ⟨addr base t, x⟩ else ⟨addr base (k + 1), x⟩ := by
  simp [bnez, next, BranchOp.taken, x.x0]

/-- `bltz` goes to line `t` when the register is negative. -/
@[simp] lemma next_bltz : (bltz rs t).next base k x =
    if (x.get rs).toInt < 0 then ⟨addr base t, x⟩ else ⟨addr base (k + 1), x⟩ := by
  simp [bltz, next, BranchOp.taken, x.x0]

/-- `bgez` goes to line `t` when the register is not negative. -/
@[simp] lemma next_bgez : (bgez rs t).next base k x =
    if 0 ≤ (x.get rs).toInt then ⟨addr base t, x⟩ else ⟨addr base (k + 1), x⟩ := by
  simp [bgez, next, BranchOp.taken, x.x0]

/-- `blez` goes to line `t` when the register is not positive. -/
@[simp] lemma next_blez : (blez rs t).next base k x =
    if (x.get rs).toInt ≤ 0 then ⟨addr base t, x⟩ else ⟨addr base (k + 1), x⟩ := by
  simp [blez, next, BranchOp.taken, x.x0]

/-- `bgtz` goes to line `t` when the register is positive. -/
@[simp] lemma next_bgtz : (bgtz rs t).next base k x =
    if 0 < (x.get rs).toInt then ⟨addr base t, x⟩ else ⟨addr base (k + 1), x⟩ := by
  simp [bgtz, next, BranchOp.taken, x.x0]

end Mnemonics

end Line

/-! ## Calls -/

/-- A routine entered with the registers `x` has returned: the pc is the return address, no
register but those in `rs` has changed, and the registers satisfy `P`. -/
structure Returned (x : Regs) (rs : List (BitVec 5)) (P : Regs → Prop) (h : Hart) : Prop where
  pc : h.pc = x.get ra &&& ~~~1#64
  same : Regs.SameBut rs x h.regs
  result : P h.regs

/-- **Return through `r`**, in which the return address was saved. -/
theorem Text.within_jr {T : Text} {base : BitVec 64} {k : ℕ} {x y : Regs} {r : BitVec 5}
    {rs : List (BitVec 5)} {P : Regs → Prop} (hk : T.lines[k]? = some (Line.jr r))
    (hsame : Regs.SameBut rs x y) (hr : y.get r = x.get ra) (h : P y) :
    Within (Hart.step (T.code base)) (Returned x rs P) 1 ⟨Line.addr base k, y⟩ := by
  refine Text.within_line base hk (Within.now ?_)
  rw [Line.next_jr, hr]
  exact ⟨rfl, hsame, h⟩

/-- **Return**, with the return address still in `ra`. -/
theorem Text.within_ret {T : Text} {base : BitVec 64} {k : ℕ} {x y : Regs}
    {rs : List (BitVec 5)} {P : Regs → Prop} (hk : T.lines[k]? = some Line.ret)
    (hsame : Regs.SameBut rs x y) (hra : ra ∉ rs) (h : P y) :
    Within (Hart.step (T.code base)) (Returned x rs P) 1 ⟨Line.addr base k, y⟩ := by
  exact Text.within_jr hk hsame (hsame ra hra) h

/-- Clearing the lowest bit of an even address does nothing. -/
private lemma and_not_one {v : BitVec 64} (h : v.toNat % 2 = 0) : v &&& ~~~1#64 = v := by
  have h0 : v.getLsbD 0 = false := by
    rw [BitVec.getLsbD, Nat.testBit_zero, h]
    rfl
  apply BitVec.eq_of_getLsbD_eq
  intro i hi
  rw [BitVec.getLsbD_and, BitVec.getLsbD_not, BitVec.getLsbD_one]
  cases i with
  | zero => rw [h0, Bool.false_and]
  | succ i => simp [hi]

/-- The lines of a text at an even address have even addresses. -/
private lemma addr_and_not_one {base : BitVec 64} (hbase : base.toNat % 2 = 0) (k : ℕ) :
    Line.addr base k &&& ~~~1#64 = Line.addr base k := by
  refine and_not_one ?_
  rw [Line.addr, BitVec.toNat_add, BitVec.toNat_ofNat]
  omega

/-- **Call**: a routine that returns from a call in line `k` comes back to the next line, with `ra`
changed as well. -/
theorem Text.within_call {T : Text} {base : BitVec 64} {k t n : ℕ} {x : Regs}
    {rs : List (BitVec 5)} {P : Regs → Prop} (hbase : base.toNat % 2 = 0)
    (hk : T.lines[k]? = some (Line.jal ra t))
    (h : Within (Hart.step (T.code base)) (Returned (x.set ra (Line.addr base (k + 1))) rs P) n
      ⟨Line.addr base t, x.set ra (Line.addr base (k + 1))⟩) :
    Within (Hart.step (T.code base))
      (At base (k + 1) fun z => Regs.SameBut (ra :: rs) x z ∧ P z) (n + 1)
      ⟨Line.addr base k, x⟩ := by
  refine Text.within_line base hk ?_
  rw [Line.next_jal]
  refine h.imp ?_
  rintro ⟨pc, z⟩ hz
  have hpc : pc = Line.addr base (k + 1) := by
    have hpc := hz.pc
    rwa [Regs.get_set, if_pos ⟨rfl, by decide⟩, addr_and_not_one hbase] at hpc
  refine ⟨z, by rw [hpc], ?_, hz.result⟩
  exact ((Regs.SameBut.refl x (ra :: rs)).set ra List.mem_cons_self _).trans hz.same fun r hr =>
    List.mem_cons_of_mem ra hr

end Rv64i
