import Mathlib.Logic.Function.Basic
import Riscv64Cpu.Pipeline.Define

set_option relaxedAutoImplicit false
set_option autoImplicit false

/-!
# The register file and the CSR file

`regfile.v` and `csrfile.v`: contents, read ports and the update at a clock edge.

## Main definitions

* `Pipeline.Regfile` — 32 registers of which register `0` holds `0`: the `initial` block
  writes it so and no write port can change it.
* `Pipeline.Regfile.initial`, `read`, `next` — power-on, a read port and the clock edge.
* `Pipeline.Csrfile` — the 4096 CSRs and the privilege mode.
* `Pipeline.Csrfile.initial`, `read`, `next` — power-on, a read port and the clock edge.
-/

namespace Riscv64Cpu.Pipeline

open Verilog (bit)

/-! ## General registers -/

/-- The general registers. -/
structure Regfile where
  reg : BitVec 5 → BitVec 64
  x0 : reg 0#5 = 0#64

/-- Register files with the same registers are the same. -/
@[ext] lemma Regfile.ext {f g : Regfile} (h : ∀ r, f.reg r = g.reg r) : f = g := by
  obtain ⟨freg, fx0⟩ := f
  obtain ⟨greg, gx0⟩ := g
  obtain rfl : freg = greg := funext h
  rfl

/-- The registers at power-on. -/
def Regfile.initial : Regfile where
  reg := fun i => if i = 1#5 then 0x80000020#64 else i.setWidth 64
  x0 := rfl

/-- `regfile_o_regdata1` and `regfile_o_regdata2`. -/
def Regfile.read (f : Regfile) (rs : BitVec 5) : BitVec 64 :=
  if rs == 0#5 then 0#64 else f.reg rs

/-- A read port shows the register. -/
@[simp] lemma Regfile.read_eq (f : Regfile) (rs : BitVec 5) : f.read rs = f.reg rs := by
  unfold Regfile.read
  split_ifs with h
  · rw [eq_of_beq h, f.x0]
  · rfl

/-- The write of `wdata` into register `rd ≠ x0`. -/
def Regfile.write (f : Regfile) (rd : BitVec 5) (wdata : BitVec 64) (h : rd ≠ 0#5) : Regfile where
  reg := Function.update f.reg rd wdata
  x0 := by rw [Function.update_of_ne h.symm, f.x0]

/-- The register file after a clock edge. -/
def Regfile.next (rst : Bool) (wbRegRd : BitVec 5) (wbRegWdata : BitVec 64) (wbRegWen : Bool)
    (f : Regfile) : Regfile :=
  if rst then { reg := Function.update f.reg 0#5 0#64, x0 := Function.update_self .. }
  else if h : wbRegWen = true ∧ wbRegRd ≠ 0#5 then f.write wbRegRd wbRegWdata h.2
  else f

/-! ## Control and status registers -/

/-- The CSRs and the privilege mode. -/
structure Csrfile where
  csr : BitVec 12 → BitVec 64
  cpuMode : BitVec 2

/-- The CSRs at power-on; the mode has no initial value and nothing reads it. -/
def Csrfile.initial : Csrfile where
  csr := fun _ => 0#64
  cpuMode := 0#2

/-- `csr_o_csr_rdata1` and `csr_o_csr_rdata2`: an unimplemented CSR reads as all ones. -/
def Csrfile.read (f : Csrfile) (csrRid : BitVec 12) : BitVec 64 :=
  if checkCsrId csrRid then f.csr csrRid else 0xFFFFFFFFFFFFFFFF#64

/-- The CSRs that `rst` initialises. -/
def Csrfile.reset (f : Csrfile) : Csrfile :=
  { f with
    csr := fun id =>
      if id = Csr.mhartid then 0#64
      else if id = Csr.mtvec then 0#64
      else if id = Csr.mstatus then 0x0000000a00000000#64
      else if id = Csr.mie then 0x220#64
      else if id = Csr.mip then 0#64
      else if id = Csr.satp then 0#64
      else if id = Csr.medeleg then 0#64
      else if id = Csr.mideleg then 0#64
      else if id = Csr.sstatus then 0x0000000200000100#64
      else f.csr id }

/-- The `inst_mret` branch of the write block: `mode ← MPP`, `MIE ← MPIE`, `MPIE ← 1` and
`MPP ← 0`, the fields on the right taken from `csr_wdata`. -/
def Csrfile.mret (f : Csrfile) (wdata : BitVec 64) : Csrfile where
  csr := Function.update f.csr Csr.mstatus
    ((f.csr Csr.mstatus).extractLsb' 13 51 ++ 0#2 ++ (f.csr Csr.mstatus).extractLsb' 8 3 ++ 1#1 ++
      (f.csr Csr.mstatus).extractLsb' 4 3 ++ wdata.extractLsb' 7 1 ++
      (f.csr Csr.mstatus).extractLsb' 0 3)
  cpuMode := wdata.extractLsb' 11 2

/-- The write block of `csrfile.v`. -/
def Csrfile.write (rst : Bool) (wbSystemInfo : BitVec 7) (wbCsrWen : Bool) (wbCsrWid : BitVec 12)
    (wbCsrWdata : BitVec 64) (f : Csrfile) : Csrfile :=
  if rst then f.reset
  else if bit wbSystemInfo 2 then f.mret wbCsrWdata
  else if wbCsrWen && checkCsrId wbCsrWid then
    { f with csr := Function.update f.csr wbCsrWid wbCsrWdata }
  else f

/-- The CSR file after a clock edge: the write block, and then the timer block, whose
assignment to `timer` comes last. -/
def Csrfile.next (rst : Bool) (wbSystemInfo : BitVec 7) (wbCsrWen : Bool) (wbCsrWid : BitVec 12)
    (wbCsrWdata : BitVec 64) (f : Csrfile) : Csrfile :=
  let g := f.write rst wbSystemInfo wbCsrWen wbCsrWid wbCsrWdata
  { g with csr := Function.update g.csr Csr.timer (if rst then 0#64 else f.csr Csr.timer + 1#64) }

end Riscv64Cpu.Pipeline
