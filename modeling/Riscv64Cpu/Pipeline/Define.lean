import Riscv64Cpu.Verilog.Vector

set_option relaxedAutoImplicit false
set_option autoImplicit false

/-!
# The constants of `define.v`

The nop instruction, the CSR numbers and the packing of the commit information that every
stage register carries.

## Main definitions

* `Pipeline.nopInstr` — `addi x0, x0, 0`, the instruction a bubble puts into `regD`.
* `Pipeline.checkCsrId` — the CSR numbers the processor implements.
* `Pipeline.commitInfo` — `{commit, instr, next_pc, pc}` in 161 bits, with its four fields
  `commitBit`, `commitInstr`, `commitNextPc` and `commitPc`.
-/

namespace Riscv64Cpu.Pipeline

open Verilog (bit)

/-- `nop_instr`: `addi x0, x0, 0`. -/
def nopInstr : BitVec 32 := 0x00000013#32

/-! ## CSR numbers -/

namespace Csr

/-- User level counters. -/
def cycle : BitVec 12 := 0xC00#12
@[inherit_doc cycle] def timer : BitVec 12 := 0xC01#12
@[inherit_doc cycle] def instret : BitVec 12 := 0xC02#12

/-- Machine level CSRs. -/
def mvendorid : BitVec 12 := 0xF11#12
@[inherit_doc mvendorid] def marchid : BitVec 12 := 0xF12#12
@[inherit_doc mvendorid] def mimpid : BitVec 12 := 0xF13#12
@[inherit_doc mvendorid] def mhartid : BitVec 12 := 0xF14#12
@[inherit_doc mvendorid] def mconfigptr : BitVec 12 := 0xF15#12
@[inherit_doc mvendorid] def misa : BitVec 12 := 0x301#12
@[inherit_doc mvendorid] def mstatus : BitVec 12 := 0x300#12
@[inherit_doc mvendorid] def medeleg : BitVec 12 := 0x302#12
@[inherit_doc mvendorid] def mideleg : BitVec 12 := 0x303#12
@[inherit_doc mvendorid] def mie : BitVec 12 := 0x304#12
@[inherit_doc mvendorid] def mtvec : BitVec 12 := 0x305#12
@[inherit_doc mvendorid] def mcounteren : BitVec 12 := 0x306#12
@[inherit_doc mvendorid] def mscratch : BitVec 12 := 0x340#12
@[inherit_doc mvendorid] def mepc : BitVec 12 := 0x341#12
@[inherit_doc mvendorid] def mcause : BitVec 12 := 0x342#12
@[inherit_doc mvendorid] def mtval : BitVec 12 := 0x343#12
@[inherit_doc mvendorid] def mip : BitVec 12 := 0x344#12
@[inherit_doc mvendorid] def mcycle : BitVec 12 := 0xB00#12
@[inherit_doc mvendorid] def minstret : BitVec 12 := 0xB02#12
@[inherit_doc mvendorid] def menvcfg : BitVec 12 := 0x30A#12

/-- Supervisor level CSRs. -/
def stimecmp : BitVec 12 := 0x14d#12
@[inherit_doc stimecmp] def sstatus : BitVec 12 := 0x100#12
@[inherit_doc stimecmp] def sie : BitVec 12 := 0x104#12
@[inherit_doc stimecmp] def stvec : BitVec 12 := 0x105#12
@[inherit_doc stimecmp] def scounteren : BitVec 12 := 0x106#12
@[inherit_doc stimecmp] def sscratch : BitVec 12 := 0x140#12
@[inherit_doc stimecmp] def sepc : BitVec 12 := 0x141#12
@[inherit_doc stimecmp] def scause : BitVec 12 := 0x142#12
@[inherit_doc stimecmp] def stval : BitVec 12 := 0x143#12
@[inherit_doc stimecmp] def sip : BitVec 12 := 0x144#12
@[inherit_doc stimecmp] def satp : BitVec 12 := 0x180#12

end Csr

/-- `csr_user`: the user level CSRs the processor implements. -/
def csrUser : List (BitVec 12) := [Csr.cycle, Csr.timer, Csr.instret]

/-- `csr_machine`: the machine level CSRs the processor implements. -/
def csrMachine : List (BitVec 12) :=
  [Csr.mvendorid, Csr.marchid, Csr.mimpid, Csr.mhartid, Csr.mconfigptr, Csr.misa, Csr.mstatus,
    Csr.medeleg, Csr.mideleg, Csr.mie, Csr.mtvec, Csr.mcounteren, Csr.mscratch, Csr.mepc,
    Csr.mcause, Csr.mtval, Csr.mip, Csr.mcycle, Csr.minstret, Csr.menvcfg]

/-- `csr_super`: the supervisor level CSRs the processor implements. -/
def csrSuper : List (BitVec 12) :=
  [Csr.sstatus, Csr.sie, Csr.stvec, Csr.scounteren, Csr.sscratch, Csr.sepc, Csr.scause,
    Csr.stval, Csr.sip, Csr.satp, Csr.stimecmp]

/-- `csr_pmp`: `pmpcfg0` to `pmpcfg3` and `pmpaddr0` to `pmpaddr15`. -/
def csrPmp : List (BitVec 12) :=
  [0x3A0#12, 0x3A1#12, 0x3A2#12, 0x3A3#12,
    0x3B0#12, 0x3B1#12, 0x3B2#12, 0x3B3#12, 0x3B4#12, 0x3B5#12, 0x3B6#12, 0x3B7#12,
    0x3B8#12, 0x3B9#12, 0x3BA#12, 0x3BB#12, 0x3BC#12, 0x3BD#12, 0x3BE#12, 0x3BF#12]

/-- `right_csr_rid1`, `right_csr_rid2` and `right_csr_wid`: `check_csr_rid.v` and
`check_csr_wid.v` compare the number with the same four lists. -/
def checkCsrId (csrId : BitVec 12) : Bool :=
  csrUser.elem csrId || csrMachine.elem csrId || csrSuper.elem csrId || csrPmp.elem csrId

/-! ## Commit information -/

/-- `{commit, instr, next_pc, pc}`, as `fetch.v` and `execute.v` concatenate it. -/
def commitInfo (commit : Bool) (instr : BitVec 32) (nextPc pc : BitVec 64) : BitVec 161 :=
  BitVec.ofBool commit ++ instr ++ nextPc ++ pc

/-- `commit_info[160]`. -/
def commitBit (ci : BitVec 161) : Bool := bit ci 160

/-- `commit_info[159:128]`. -/
def commitInstr (ci : BitVec 161) : BitVec 32 := ci.extractLsb' 128 32

/-- `commit_info[127:64]`. -/
def commitNextPc (ci : BitVec 161) : BitVec 64 := ci.extractLsb' 64 64

/-- `commit_info[63:0]`. -/
def commitPc (ci : BitVec 161) : BitVec 64 := ci.extractLsb' 0 64

section CommitInfo

variable (c : Bool) (i : BitVec 32) (n p : BitVec 64)

/-- The commit bit of packed commit information. -/
@[simp] lemma commitBit_commitInfo : commitBit (commitInfo c i n p) = c := by
  show (BitVec.ofBool c ++ i ++ n ++ p).getLsbD 160 = c
  rw [BitVec.getLsbD_append, if_neg (by decide), BitVec.getLsbD_append, if_neg (by decide),
    BitVec.getLsbD_append, if_neg (by decide)]
  simp

/-- The instruction of packed commit information. -/
@[simp] lemma commitInstr_commitInfo : commitInstr (commitInfo c i n p) = i := by
  unfold commitInstr commitInfo
  rw [BitVec.extractLsb'_append_eq_of_le (by decide),
    BitVec.extractLsb'_append_eq_of_le (by decide)]
  exact BitVec.extractLsb'_append_eq_right

/-- The next pc of packed commit information. -/
@[simp] lemma commitNextPc_commitInfo : commitNextPc (commitInfo c i n p) = n := by
  unfold commitNextPc commitInfo
  rw [BitVec.extractLsb'_append_eq_of_le (by decide)]
  exact BitVec.extractLsb'_append_eq_right

/-- The pc of packed commit information. -/
@[simp] lemma commitPc_commitInfo : commitPc (commitInfo c i n p) = p :=
  BitVec.extractLsb'_append_eq_right

/-- The nop commit information is not a commit. -/
@[simp] lemma commitBit_zero : commitBit 0#161 = false := by simp [commitBit]

end CommitInfo

end Riscv64Cpu.Pipeline
