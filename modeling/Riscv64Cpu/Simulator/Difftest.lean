import Mathlib.Data.List.FinRange

set_option relaxedAutoImplicit false
set_option autoImplicit false

/-!
# Differential testing

`difftest.c`: after every commit the simulator lets a reference run one instruction and
compares its state with that of the processor.  The first difference found is displayed and
ends the simulation.

## Main definitions

* `Simulator.CpuState`, `Commit`, `RefSim` — the two sides and the commit between them.
* `Simulator.csrMap` — the CSRs that `cpu.c` lists.
* `Simulator.checkregs`, `checkcsrs`, `difftestStep` — the comparison.
* `Simulator.Disagree`, `ReportsExactly` — what it should report.

## Main results

* `Simulator.checkcsrs_eq_none` — no CSR is ever compared.
* `Simulator.reportsExactly_iff` — when a step reports exactly the disagreements.

## Design

`display_diff_error` exits, so a check returns the first difference it meets.
-/

namespace Riscv64Cpu.Simulator

/-! ## The two states -/

/-- `CPU_state`. -/
structure CpuState where
  gpr : Fin 32 → BitVec 64
  pc : BitVec 64
  csr : BitVec 12 → BitVec 64

/-- `commit_t`. -/
structure Commit where
  pc : BitVec 64
  nextPc : BitVec 64
  instr : BitVec 32
  memAddr : BitVec 64
  memRdata : BitVec 64
  memWdata : BitVec 64

/-- The functions of the reference simulator, over its state `R`. -/
structure RefSim (R : Type) where
  /-- `ref_difftest_exec(n)`. -/
  exec : R → ℕ → R
  /-- `ref_difftest_regcpy(dut, DIFFTEST_TO_REF)`. -/
  regcpyToRef : R → CpuState → R
  /-- `ref_difftest_regcpy(dut, DIFFTEST_TO_DUT)`. -/
  regcpyToDut : R → CpuState

/-! ## Tables -/

/-- The user level counters of `enum csr_id`. -/
def cycle : BitVec 12 := 0xc00#12
@[inherit_doc cycle] def timer : BitVec 12 := 0xc01#12
@[inherit_doc cycle] def instret : BitVec 12 := 0xc02#12

/-- `csr_map`. -/
def csrMap : List (BitVec 12 × String) :=
  [(0xc00#12, "cycle"), (0xc01#12, "timer"), (0xc02#12, "instret"),
    (0x100#12, "sstatus"), (0x104#12, "sie"), (0x105#12, "stvec"), (0x106#12, "scounteren"),
    (0x140#12, "sscratch"), (0x141#12, "sepc"), (0x142#12, "scause"), (0x143#12, "stval"),
    (0x144#12, "sip"), (0x180#12, "satp"),
    (0xf11#12, "mvendorid"), (0xf12#12, "marchid"), (0xf13#12, "mimpid"), (0xf14#12, "mhartid"),
    (0xf15#12, "mconfigptr"),
    (0x300#12, "mstatus"), (0x301#12, "misa"), (0x302#12, "medeleg"), (0x303#12, "mideleg"),
    (0x304#12, "mie"), (0x305#12, "mtvec"), (0x306#12, "mcounteren"),
    (0x340#12, "mscratch"), (0x341#12, "mepc"), (0x342#12, "mcause"), (0x343#12, "mtval"),
    (0x344#12, "mip"), (0xb00#12, "mcycle"), (0xb02#12, "minstret"),
    (0x7a0#12, "tselect"), (0x7a1#12, "tdata1"),
    (0x3a0#12, "pmpcfg0"), (0x3a1#12, "pmpcfg1"), (0x3a2#12, "pmpcfg2"), (0x3a3#12, "pmpcfg3"),
    (0x3b0#12, "pmpaddr0"), (0x3b1#12, "pmpaddr1"), (0x3b2#12, "pmpaddr2"),
    (0x3b3#12, "pmpaddr3"), (0x3b4#12, "pmpaddr4"), (0x3b5#12, "pmpaddr5"),
    (0x3b6#12, "pmpaddr6"), (0x3b7#12, "pmpaddr7"), (0x3b8#12, "pmpaddr8"),
    (0x3b9#12, "pmpaddr9"), (0x3ba#12, "pmpaddr10"), (0x3bb#12, "pmpaddr11"),
    (0x3bc#12, "pmpaddr12"), (0x3bd#12, "pmpaddr13"), (0x3be#12, "pmpaddr14"),
    (0x3bf#12, "pmpaddr15")]

/-- `regs`. -/
def regs : List String :=
  ["$0", "ra", "sp", "gp", "tp", "t0", "t1", "t2", "s0", "s1", "a0", "a1", "a2", "a3", "a4", "a5",
    "a6", "a7", "s2", "s3", "s4", "s5", "s6", "s7", "s8", "s9", "s10", "s11", "t3", "t4", "t5",
    "t6"]

/-- `reg_name`. -/
def regName (idx : Fin 32) : String := regs.get (idx.cast rfl)

/-- `%0<width>lx`: at least `width` hexadecimal digits. -/
def hex (width v : ℕ) : String :=
  String.ofList (List.replicate (width - (Nat.toDigits 16 v).length) '0' ++ Nat.toDigits 16 v)

/-! ## The comparison -/

/-- What `display_diff_error` is called with. -/
structure DiffError where
  pc : BitVec 64
  nextPc : BitVec 64
  msg : String
deriving DecidableEq

/-- The test in `checkcsrs` that skips an entry: its third operand is the constant `instret`. -/
def skipsCsr (id : BitVec 12) : Bool := id == cycle || id == timer || instret != 0#12

/-- `checkcsrs`: the first difference among the CSRs that are not skipped. -/
def checkcsrs (ref cpu : CpuState) (pc nextPc : BitVec 64) : Option DiffError :=
  csrMap.findSome? fun (id, name) =>
    if skipsCsr id then none
    else if ref.csr id != cpu.csr id then
      some ⟨pc, nextPc, "CSR [" ++ name ++ "] (0x" ++ hex 3 id.toNat ++ ") 数值不一致! \t[REF]=0x" ++
        hex 16 (ref.csr id).toNat ++ ", [DUT]=0x" ++ hex 16 (cpu.csr id).toNat⟩
    else none

/-- `checkregs`: a difference of the pcs, or the first one among the general registers. -/
def checkregs (ref cpu : CpuState) (pc nextPc : BitVec 64) : Option DiffError :=
  if nextPc != ref.pc then some ⟨pc, nextPc, "PC 出现不一致"⟩
  else (List.finRange 32).findSome? fun i =>
    if ref.gpr i != cpu.gpr i then
      some ⟨pc, nextPc, "寄存器 [" ++ regName i ++ "] 数值不一致"⟩
    else none

/-- `GET_OPCODE`. -/
def getOpcode (i : BitVec 32) : BitVec 32 := i &&& 0x7f#32

/-- `GET_FUNC3`. -/
def getFunc3 (i : BitVec 32) : BitVec 32 := (i >>> 12) &&& 0x7#32

/-- `GET_CSR_ID`. -/
def getCsrId (i : BitVec 32) : BitVec 32 := (i >>> 20) &&& 0xfff#32

/-- `is_mmio_address`. -/
def isMmioAddress (addr : BitVec 64) : Bool :=
  addr.ult 0x80000000#64 && (0x10000000#64).ule addr

/-- `is_special_instr`: an access to the timer, or a load or store of a device. -/
def isSpecialInstr (commit : Commit) : Bool :=
  if getOpcode commit.instr == 0b1110011#32 && getFunc3 commit.instr != 0#32 then
    getCsrId commit.instr == timer.setWidth 32
  else if getOpcode commit.instr == 0b0000011#32 || getOpcode commit.instr == 0b0100011#32 then
    isMmioAddress commit.memAddr
  else false

section Step

variable {R : Type} (sim : RefSim R)

/-- What a step of `difftest_step` leaves. -/
structure StepOut (R : Type) where
  report : Option DiffError
  ref : R
  cpu : CpuState

/-- `difftest_step`: for a special instruction the reference takes over the processor's
state. -/
def difftestStep (ref : R) (cpu : CpuState) (commit : Commit) : StepOut R :=
  let ref := sim.exec ref 1
  let cpu := if isSpecialInstr commit then { cpu with pc := commit.nextPc } else cpu
  let ref := if isSpecialInstr commit then sim.regcpyToRef ref cpu else ref
  let refR := sim.regcpyToDut ref
  { report := (checkregs refR cpu commit.pc commit.nextPc).or
      (checkcsrs refR cpu commit.pc commit.nextPc)
    ref := ref
    cpu := cpu }

end Step

/-! ## What should be reported -/

/-- The CSRs that are meant to be exempt. -/
def exemptCsr (id : BitVec 12) : Bool := id == cycle || id == timer || id == instret

/-- Some CSR of `csr_map` that is not exempt differs. -/
def CsrsDiffer (ref cpu : CpuState) : Prop :=
  ∃ e ∈ csrMap, exemptCsr e.1 = false ∧ ref.csr e.1 ≠ cpu.csr e.1

/-- The pc after the commit or some general register differs. -/
def RegsDiffer (ref cpu : CpuState) (commit : Commit) : Prop :=
  commit.nextPc ≠ ref.pc ∨ ∃ i, ref.gpr i ≠ cpu.gpr i

/-- The reference and the processor disagree. -/
def Disagree (ref cpu : CpuState) (commit : Commit) : Prop :=
  RegsDiffer ref cpu commit ∨ CsrsDiffer ref cpu

/-- A step reports a difference exactly when the two states disagree. -/
def ReportsExactly {R : Type} (sim : RefSim R) (ref : R) (cpu : CpuState) (commit : Commit) :
    Prop :=
  (difftestStep sim ref cpu commit).report.isSome = true ↔
    Disagree (sim.regcpyToDut (sim.exec ref 1)) cpu commit

/-- **No CSR is ever compared**: `instret` is not zero, so every entry is skipped. -/
theorem checkcsrs_eq_none (ref cpu : CpuState) (pc nextPc : BitVec 64) :
    checkcsrs ref cpu pc nextPc = none := by
  have hskip : ∀ id, skipsCsr id = true := by
    intro id
    have hi : (instret != 0#12) = true := by decide
    rw [skipsCsr, hi, Bool.or_true]
  rw [checkcsrs, List.findSome?_eq_none_iff]
  rintro ⟨id, name⟩ -
  simp only [hskip, if_true]

/-- The comparison of the registers reports exactly their differences. -/
lemma checkregs_isSome_iff (ref cpu : CpuState) (commit : Commit) :
    (checkregs ref cpu commit.pc commit.nextPc).isSome = true ↔ RegsDiffer ref cpu commit := by
  unfold checkregs RegsDiffer
  by_cases hpc : commit.nextPc = ref.pc
  · simp only [hpc, bne_self_eq_false, Bool.false_eq_true, if_false, ne_eq, not_true_eq_false,
      false_or, List.findSome?_isSome_iff, List.mem_finRange, true_and]
    refine exists_congr fun i => ?_
    by_cases hi : ref.gpr i = cpu.gpr i <;> simp [hi]
  · simp [hpc]

/-- A step reports a difference exactly when a register differs. -/
lemma report_isSome_iff {R : Type} (sim : RefSim R) (ref : R) (cpu : CpuState)
    (commit : Commit) (hs : isSpecialInstr commit = false) :
    (difftestStep sim ref cpu commit).report.isSome = true ↔
      RegsDiffer (sim.regcpyToDut (sim.exec ref 1)) cpu commit := by
  simp only [difftestStep, hs, Bool.false_eq_true, if_false, checkcsrs_eq_none, Option.or_none]
  exact checkregs_isSome_iff ..

/-- **When a step reports exactly the disagreements**: for every reference, every state of the
processor and every commit that is not special, if and only if the pcs or some general
register differ or all CSRs that are not exempt agree.

**Proof sketch.** A step reports the differences of the registers only (`report_isSome_iff`),
which is all there is to report unless the CSRs alone differ. -/
theorem reportsExactly_iff {R : Type} (sim : RefSim R) (ref : R) (cpu : CpuState)
    (commit : Commit) (hs : isSpecialInstr commit = false) :
    ReportsExactly sim ref cpu commit ↔
      (RegsDiffer (sim.regcpyToDut (sim.exec ref 1)) cpu commit ∨
        ¬ CsrsDiffer (sim.regcpyToDut (sim.exec ref 1)) cpu) := by
  rw [ReportsExactly, report_isSome_iff sim ref cpu commit hs, Disagree]
  constructor
  · intro h
    by_cases hc : CsrsDiffer (sim.regcpyToDut (sim.exec ref 1)) cpu
    · exact .inl (h.mpr (.inr hc))
    · exact .inr hc
  · rintro (h | h)
    · exact ⟨fun _ => .inl h, fun _ => h⟩
    · exact ⟨.inl, fun hd => hd.resolve_right h⟩

/-- A reference that stays in the state it is given. -/
def fixedRef : RefSim CpuState where
  exec r _ := r
  regcpyToRef _ c := c
  regcpyToDut r := r

/-- The commit of `addi x5, x0, 1` at the start of memory. -/
def addiCommit : Commit :=
  ⟨0x80000000#64, 0x80000004#64, 0x00100293#32, 0#64, 0#64, 0#64⟩

/-- The state behind `addiCommit` with the value `v` in `x5`. -/
def stateWith (v : BitVec 64) : CpuState :=
  ⟨fun i => if i = 5 then v else 0#64, 0x80000004#64, fun _ => 0#64⟩

/-- A reference with `1` in `x5` against a processor with `2` there: the difference is reported.
Against a processor with `1` there, nothing is. -/
theorem reportsExactly_register :
    (difftestStep fixedRef (stateWith 1#64) (stateWith 2#64) addiCommit).report.isSome = true ∧
      ReportsExactly fixedRef (stateWith 1#64) (stateWith 2#64) addiCommit ∧
      ReportsExactly fixedRef (stateWith 1#64) (stateWith 1#64) addiCommit := by
  refine ⟨by decide +kernel, (reportsExactly_iff fixedRef _ _ addiCommit (by decide)).mpr ?_,
    (reportsExactly_iff fixedRef _ _ addiCommit (by decide)).mpr ?_⟩
  · exact .inl (.inr ⟨5, by decide⟩)
  · exact .inr fun ⟨_, _, _, h⟩ => h rfl

/-- All registers `0`. -/
def zeroState : CpuState := ⟨fun _ => 0#64, 0#64, fun _ => 0#64⟩

/-- The commit of `addi x0, x0, 0` at the end of memory, with next pc `0`. -/
def nopCommit : Commit := ⟨0xFFFFFFFFFFFFFFFC#64, 0#64, 0x00000013#32, 0#64, 0#64, 0#64⟩

/-- A processor whose `mstatus` is `1` against a reference where it is `0` is not reported. -/
theorem csr_difference_missed : ¬ ∀ (R : Type) (sim : RefSim R) (ref : R) (cpu : CpuState)
    (commit : Commit), isSpecialInstr commit = false → ReportsExactly sim ref cpu commit := by
  intro h
  let cpu : CpuState := { zeroState with csr := fun id => if id = 0x300#12 then 1#64 else 0#64 }
  have hr := (h _ fixedRef zeroState cpu nopCommit (by decide)).mpr
    (.inr ⟨(0x300#12, "mstatus"), by decide, by decide, by decide⟩)
  revert hr
  decide +kernel

end Riscv64Cpu.Simulator
