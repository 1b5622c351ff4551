import Mathlib.Logic.Function.Basic
import Riscv64Cpu.SingleCycle.Ctrl

set_option relaxedAutoImplicit false
set_option autoImplicit false

/-!
# The single-cycle processor

`CPU.v` of `single-cycle-cpu-2024` with its units: a processor for RV32I that executes one
instruction a clock cycle, with the four CSRs that its trap handling needs.

## Main definitions

* `SingleCycle.Dpi` — the memory functions of the simulator.
* `SingleCycle.Cpu` — the registers of the design and the memory behind it.
* `SingleCycle.Cpu.step` — one rising edge of the clock.
-/

namespace Riscv64Cpu.SingleCycle

/-- The memory functions of the simulator that the design imports: `dpi_mem_read(addr, len)` and
`dpi_mem_write(addr, data, len)`. -/
structure Dpi (M : Type) where
  memRead : M → BitVec 32 → BitVec 32 → BitVec 32
  memWrite : M → BitVec 32 → BitVec 32 → BitVec 32 → M

/-- The registers of `CSR.v`. -/
structure Csr where
  mstatus : BitVec 32
  mtvec : BitVec 32
  mcause : BitVec 32
  mepc : BitVec 32
deriving DecidableEq

/-- The registers of the design: the pc of `PCU.v`, the register file of `REGU.v` and the CSRs; and
the memory. -/
structure Cpu (M : Type) where
  pc : BitVec 32
  regfile : BitVec 5 → BitVec 32
  csr : Csr
  mem : M

/-! ## `IDU.v` -/

section Idu

variable (instr : BitVec 32)

/-- `instr[19:15]`. -/
def rs1 : BitVec 5 := instr.extractLsb' 15 5

/-- `instr[24:20]`. -/
def rs2 : BitVec 5 := instr.extractLsb' 20 5

/-- `instr[11:7]`. -/
def rd : BitVec 5 := instr.extractLsb' 7 5

/-- `n` copies of `instr[31]`. -/
def signs (n : ℕ) : BitVec n := (instr.extractLsb' 31 1).signExtend n

/-- `IDU_o_valC`, the immediate. -/
def iduValC : BitVec 32 :=
  if Ctrl.valCSel instr == valCUType then instr.extractLsb' 12 20 ++ 0#12
  else if Ctrl.valCSel instr == valCIType then signs instr 20 ++ instr.extractLsb' 20 12
  else if Ctrl.valCSel instr == valCIShamt then 0#27 ++ instr.extractLsb' 20 5
  else if Ctrl.valCSel instr == valCSType then
    signs instr 20 ++ instr.extractLsb' 25 7 ++ instr.extractLsb' 7 5
  else if Ctrl.valCSel instr == valCRType then 0#32
  else if Ctrl.valCSel instr == valCBType then
    (signs instr 20 ++ instr.extractLsb' 31 1 ++ instr.extractLsb' 7 1 ++
      instr.extractLsb' 25 6 ++ instr.extractLsb' 8 4) <<< 1
  else if Ctrl.valCSel instr == valCJType then
    (signs instr 12 ++ instr.extractLsb' 31 1 ++ instr.extractLsb' 12 8 ++
      instr.extractLsb' 20 1 ++ instr.extractLsb' 21 10) <<< 1
  else 0#32

end Idu

/-! ## `EXU.v` and `BR_JMP.v` -/

/-- `EXU_o_valE`, for the operands `valA` and `valB` behind their selects. -/
def exuResult (aluSel : BitVec 4) (valA valB : BitVec 32) : BitVec 32 :=
  if aluSel == funcAdd then valA + valB
  else if aluSel == funcSub then valA - valB
  else if aluSel == funcSll then valA <<< (valB.extractLsb' 0 5).toNat
  else if aluSel == funcSlt then if valA.slt valB then 1#32 else 0#32
  else if aluSel == funcSltu then if valA.ult valB then 1#32 else 0#32
  else if aluSel == funcXor then valA ^^^ valB
  else if aluSel == funcSrl then valA >>> (valB.extractLsb' 0 5).toNat
  else if aluSel == funcSra then valA.sshiftRight (valB.extractLsb' 0 5).toNat
  else if aluSel == funcOr then valA ||| valB
  else if aluSel == funcAnd then valA &&& valB
  else if aluSel == funcJalr then (valA + valB) &&& ~~~1#32
  else if aluSel == funcSelValC then valB
  else 0#32

/-- `BR_JMP_o_br_eq`. -/
def brJmpBrEq (valA valB : BitVec 32) : Bool := valA == valB

/-- `BR_JMP_o_br_lt`. -/
def brJmpBrLt (brUn : Bool) (valA valB : BitVec 32) : Bool :=
  if brUn then valA.ult valB else valA.slt valB

/-! ## `MEM.v` -/

/-- The control unit asks for a load. -/
def rv32Load (memRw : BitVec 4) : Bool :=
  memRw == memLb || memRw == memLh || memRw == memLw || memRw == memLbu || memRw == memLhu

/-- `MEM_o_valM`; a load reads four bytes whatever its length. -/
def memValM {M : Type} (dpi : Dpi M) (mem : M) (memRw : BitVec 4) (addr : BitVec 32) : BitVec 32 :=
  let tmp :=
    if memRw == memNoRw then 0#32
    else if rv32Load memRw then dpi.memRead mem addr 4#32
    else 0#32
  if memRw == memLb then (tmp.setWidth 8).signExtend 32
  else if memRw == memLh then (tmp.setWidth 16).signExtend 32
  else if memRw == memLw then tmp
  else if memRw == memLbu then (tmp.setWidth 8).setWidth 32
  else if memRw == memLhu then (tmp.setWidth 16).setWidth 32
  else tmp

/-- The memory after the call of `dpi_mem_write` at the edge. -/
def memNext {M : Type} (dpi : Dpi M) (mem : M) (memRw : BitVec 4) (addr data : BitVec 32) : M :=
  if memRw == memSb then dpi.memWrite mem addr data 1#32
  else if memRw == memSh then dpi.memWrite mem addr data 2#32
  else if memRw == memSw then dpi.memWrite mem addr data 4#32
  else mem

/-! ## `CSR.v` -/

namespace Csr

/-- The registers after reset. -/
def reset : Csr := ⟨0x1800#32, 0#32, 0#32, 0#32⟩

variable (c : Csr)

/-- `CSR_o_valR`. -/
def valR (flag : BitVec 3) (csrIdx : BitVec 32) : BitVec 32 :=
  if csrIdx == 0x300#32 && (flag == csrCsrrs || flag == csrCsrrw) then c.mstatus
  else if csrIdx == 0x305#32 && (flag == csrCsrrs || flag == csrCsrrw) then c.mtvec
  else if csrIdx == 0x341#32 && (flag == csrCsrrs || flag == csrCsrrw) then c.mepc
  else if csrIdx == 0x342#32 && (flag == csrCsrrs || flag == csrCsrrw) then c.mcause
  else 0#32

/-- `CSR_o_CSR_valP`. -/
def valP (flag : BitVec 3) : BitVec 32 :=
  if flag == csrEcall then c.mtvec else if flag == csrMret then c.mepc else 0#32

/-- The registers after an edge without reset. -/
def next (flag : BitVec 3) (pc valA csrIdx : BitVec 32) : Csr :=
  if flag == csrCsrrw then
    if csrIdx == 0x300#32 then { c with mstatus := valA }
    else if csrIdx == 0x305#32 then { c with mtvec := valA }
    else if csrIdx == 0x341#32 then { c with mepc := valA }
    else if csrIdx == 0x342#32 then { c with mcause := valA }
    else c
  else if flag == csrCsrrs then
    if csrIdx == 0x300#32 then { c with mstatus := valA ||| c.mstatus }
    else if csrIdx == 0x305#32 then { c with mtvec := valA ||| c.mtvec }
    else if csrIdx == 0x341#32 then { c with mepc := valA ||| c.mepc }
    else if csrIdx == 0x342#32 then { c with mcause := valA ||| c.mcause }
    else c
  else if flag == csrEcall then { c with mepc := pc + 4#32, mcause := 1#32 }
  else c

end Csr

/-! ## `WBU.v` and `PCU.v` -/

/-- `WBU_o_valW`. -/
def wbuValW (wbSel : BitVec 2) (valP valM valE valR : BitVec 32) : BitVec 32 :=
  if wbSel == wbSelValM then valM
  else if wbSel == wbSelValE then valE
  else if wbSel == wbSelValP then valP
  else if wbSel == wbSelValR then valR
  else 0#32

/-- The pc after an edge without reset. -/
def pcuNext (pcSel : BitVec 2) (pc valE csrValP : BitVec 32) : BitVec 32 :=
  if pcSel == pcSelValE then valE
  else if pcSel == pcSelCsrValP then csrValP
  else if pcSel == pcSelValP then pc + 4#32
  else pc

/-! ## `CPU.v` -/

namespace Cpu

variable {M : Type} (dpi : Dpi M) (s : Cpu M)

/-- `IFU_o_instr`. -/
def instr : BitVec 32 := dpi.memRead s.mem s.pc 4#32

/-- `IDU_o_valA`. -/
def valA : BitVec 32 := s.regfile (rs1 (s.instr dpi))

/-- `IDU_o_valB`. -/
def valB : BitVec 32 := s.regfile (rs2 (s.instr dpi))

/-- `IDU_o_valC`. -/
def valC : BitVec 32 := iduValC (s.instr dpi)

/-- `EXU_o_valE`. -/
def valE : BitVec 32 :=
  exuResult (Ctrl.aluSel (s.instr dpi))
    (if Ctrl.valASel (s.instr dpi) == valASelValA then s.valA dpi else s.pc)
    (if Ctrl.valBSel (s.instr dpi) == valBSelValB then s.valB dpi else s.valC dpi)

/-- `CTRL_o_pc_sel`. -/
def pcSel : BitVec 2 :=
  Ctrl.pcSel (s.instr dpi) (brJmpBrLt (Ctrl.brUn (s.instr dpi)) (s.valA dpi) (s.valB dpi))
    (brJmpBrEq (s.valA dpi) (s.valB dpi))

/-- `WBU_o_valW`. -/
def valW : BitVec 32 :=
  wbuValW (Ctrl.wbSel (s.instr dpi)) (s.pc + 4#32)
    (memValM dpi s.mem (Ctrl.memRw (s.instr dpi)) (s.valE dpi)) (s.valE dpi)
    (s.csr.valR (Ctrl.csrFlag (s.instr dpi)) (s.valC dpi))

/-- One rising edge of the clock. -/
def step (rst : Bool) : Cpu M where
  pc :=
    if rst then 0x80000000#32
    else pcuNext (s.pcSel dpi) s.pc (s.valE dpi) (s.csr.valP (Ctrl.csrFlag (s.instr dpi)))
  regfile :=
    if rst then Function.update s.regfile 0#5 0#32
    else if Ctrl.regWen (s.instr dpi) == regWenW && rd (s.instr dpi) != 0#5 then
      Function.update s.regfile (rd (s.instr dpi)) (s.valW dpi)
    else s.regfile
  csr :=
    if rst then Csr.reset
    else s.csr.next (Ctrl.csrFlag (s.instr dpi)) s.pc (s.valA dpi) (s.valC dpi)
  mem := memNext dpi s.mem (Ctrl.memRw (s.instr dpi)) (s.valE dpi) (s.valB dpi)

end Cpu

end Riscv64Cpu.SingleCycle
