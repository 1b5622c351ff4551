import Riscv64Cpu.Pipeline.Execute
import Riscv64Cpu.Pipeline.Files

set_option relaxedAutoImplicit false
set_option autoImplicit false

/-!
# The stages around the stage registers

Fetch, the operand part of decode with its bypass multiplexer, memory, write back, commit and
the hazard controller, each as a function of the registers it reads.  Memory is reached
through the imported functions `dpi_instr_mem_read`, `dpi_mem_read` and `dpi_mem_write`.

## Main definitions

* `Pipeline.Dpi` — the imported memory functions over a memory type `M`.
* `Pipeline.fetch`, `decode`, `memory`, `memWriteCall`, `writeBack`, `commit` — the stages.
* `Pipeline.Bypass`, `forward` — the bypass network of decode.
* `Pipeline.ctrl` — the stall and bubble requests.

## Design

A read through the interface sees the memory of the current cycle; a write takes effect at the
clock edge.  `write_back.v` declares `wb_o_system_info` and never drives it, so the CSR file sees
it as `0`.
-/

namespace Riscv64Cpu.Pipeline

open Verilog (bit)

/-! ## The memory interface -/

/-- The functions `fetch.v` and `memory.v` import, over the memory contents `M`. -/
structure Dpi (M : Type) where
  /-- `dpi_instr_mem_read(addr)`. -/
  instrMemRead : M → BitVec 64 → BitVec 32
  /-- `dpi_mem_read(addr, len, pc)`. -/
  memRead : M → BitVec 64 → BitVec 32 → BitVec 64 → BitVec 64
  /-- `dpi_mem_write(addr, data, len, pc)`. -/
  memWrite : M → BitVec 64 → BitVec 64 → BitVec 32 → BitVec 64 → M

/-- The arguments of a call of `dpi_mem_write`. -/
structure MemWrite where
  addr : BitVec 64
  data : BitVec 64
  len : BitVec 32
  pc : BitVec 64
deriving DecidableEq

variable {M : Type} (dpi : Dpi M)

/-! ## Fetch -/

/-- The outputs of `fetch.v`. -/
structure FetchOut where
  pc : BitVec 64
  instr : BitVec 32
  nextPc : BitVec 64
  commitInfo : BitVec 161

/-- The fetch stage. -/
def fetch (mem : M) (pc : BitVec 64) : FetchOut where
  pc := pc
  instr := dpi.instrMemRead mem pc
  nextPc := pc + 4#64
  commitInfo := commitInfo true (dpi.instrMemRead mem pc) (pc + 4#64) pc

/-! ## Decode -/

/-- The inputs of decode from the later stages. -/
structure Bypass where
  executeAluResult : BitVec 64
  regERegRd : BitVec 5
  regERegWen : Bool
  regMOpcodeInfo : BitVec 14
  regMAluResult : BitVec 64
  memoryMemRdata : BitVec 64
  regMRegRd : BitVec 5
  regMRegWen : Bool
  regWOpcodeInfo : BitVec 14
  regWPc : BitVec 64
  regWAluResult : BitVec 64
  regWMemRdata : BitVec 64
  regWCsrRdata1 : BitVec 64
  regWRegRd : BitVec 5
  regWRegWen : Bool

/-- The bypass inputs of a decode stage with nothing behind it. -/
def Bypass.idle : Bypass where
  executeAluResult := 0#64
  regERegRd := 0#5
  regERegWen := false
  regMOpcodeInfo := 0#14
  regMAluResult := 0#64
  memoryMemRdata := 0#64
  regMRegRd := 0#5
  regMRegWen := false
  regWOpcodeInfo := 0#14
  regWPc := 0#64
  regWAluResult := 0#64
  regWMemRdata := 0#64
  regWCsrRdata1 := 0#64
  regWRegRd := 0#5
  regWRegWen := false

/-- `regM_sel_mem_rdata` and `regW_sel_mem_rdata`. -/
def selMemRdata (opcodeInfo : BitVec 14) : Bool := bit opcodeInfo 3

/-- `regM_sel_alu_result` and `regW_sel_alu_result`. -/
def selAluResult (opcodeInfo : BitVec 14) : Bool :=
  bit opcodeInfo 1 || bit opcodeInfo 4 || bit opcodeInfo 5 || bit opcodeInfo 6 ||
    bit opcodeInfo 7 || bit opcodeInfo 10 || bit opcodeInfo 11

/-- `regW_sel_pc`. -/
def selPc (opcodeInfo : BitVec 14) : Bool := bit opcodeInfo 8 || bit opcodeInfo 9

/-- `regW_sel_csr_rdata`. -/
def selCsrRdata (opcodeInfo : BitVec 14) : Bool := bit opcodeInfo 12

/-- A stage with destination `regRd` and write enable `regWen` produces the source `rs`. -/
def matchRs (regRd : BitVec 5) (regWen : Bool) (rs : BitVec 5) : Bool :=
  regRd != 0#5 && regWen && regRd == rs

/-- Nothing produces `x0`. -/
@[simp] lemma matchRs_zero (regRd : BitVec 5) (regWen : Bool) :
    matchRs regRd regWen 0#5 = false := by
  revert regRd regWen
  decide

/-- `decode_o_regdata1` and `decode_o_regdata2`, for the source `rs` with register file
value `regfileRegdata`. -/
def forward (b : Bypass) (rs : BitVec 5) (regfileRegdata : BitVec 64) : BitVec 64 :=
  if matchRs b.regERegRd b.regERegWen rs then b.executeAluResult
  else if matchRs b.regMRegRd b.regMRegWen rs && selAluResult b.regMOpcodeInfo then b.regMAluResult
  else if matchRs b.regMRegRd b.regMRegWen rs && selMemRdata b.regMOpcodeInfo then b.memoryMemRdata
  else if matchRs b.regWRegRd b.regWRegWen rs && selAluResult b.regWOpcodeInfo then b.regWAluResult
  else if matchRs b.regWRegRd b.regWRegWen rs && selMemRdata b.regWOpcodeInfo then b.regWMemRdata
  else if matchRs b.regWRegRd b.regWRegWen rs && selPc b.regWOpcodeInfo then b.regWPc + 4#64
  else if matchRs b.regWRegRd b.regWRegWen rs && selCsrRdata b.regWOpcodeInfo then b.regWCsrRdata1
  else regfileRegdata

/-- The outputs of `decode.v`. -/
structure DecodeOut where
  aluInfo : BitVec 28
  opcodeInfo : BitVec 14
  branchInfo : BitVec 6
  loadStoreInfo : BitVec 11
  csrrwInfo : BitVec 6
  systemInfo : BitVec 7
  amoInfo : BitVec 20
  regdata1 : BitVec 64
  regdata2 : BitVec 64
  csrRdata1 : BitVec 64
  csrRdata2 : BitVec 64
  imm : BitVec 64
  csrWid : BitVec 12
  csrWen : Bool
  regRd : BitVec 5
  regWen : Bool
  regRs1 : BitVec 5
  regRs2 : BitVec 5

/-- The decode stage. -/
def decode (b : Bypass) (regfile : Regfile) (csrfile : Csrfile) (instr : BitVec 32) :
    DecodeOut where
  aluInfo := decodeAluInfo instr
  opcodeInfo := decodeOpcodeInfo instr
  branchInfo := decodeBranchInfo instr
  loadStoreInfo := decodeLoadStoreInfo instr
  csrrwInfo := decodeCsrrwInfo instr
  systemInfo := decodeSystemInfo instr
  amoInfo := decodeAmoInfo instr
  regdata1 := forward b (rs1 instr) (regfile.read (rs1 instr))
  regdata2 := forward b (rs2 instr) (regfile.read (rs2 instr))
  csrRdata1 := csrfile.read (csrRid1 instr)
  csrRdata2 := csrfile.read (csrRid2 instr)
  imm := decodeImm instr
  csrWid := decodeCsrWid instr
  csrWen := decodeCsrWen instr
  regRd := rd instr
  regWen := decodeRegWen instr
  regRs1 := rs1 instr
  regRs2 := rs2 instr

/-! ## Memory -/

namespace RegM

variable (m : RegM)

/-! The info bits, as `memory.v` numbers them. -/

def amoswapw : Bool := bit m.amoInfo 17

def lb : Bool := bit m.loadStoreInfo 10
def lh : Bool := bit m.loadStoreInfo 9
def lw : Bool := bit m.loadStoreInfo 8
def ld : Bool := bit m.loadStoreInfo 7
def lbu : Bool := bit m.loadStoreInfo 6
def lhu : Bool := bit m.loadStoreInfo 5
def lwu : Bool := bit m.loadStoreInfo 4
def sb : Bool := bit m.loadStoreInfo 3
def sh : Bool := bit m.loadStoreInfo 2
def sw : Bool := bit m.loadStoreInfo 1
def sd : Bool := bit m.loadStoreInfo 0

/-- `inst_load`. -/
def load : Bool := m.lb || m.lh || m.lw || m.ld || m.lbu || m.lhu || m.lwu

/-- `mem_addr`. -/
def memAddr : BitVec 64 := if m.amoswapw then m.regdata1 else m.aluResult

end RegM

/-- `mem_rdata`: a load reads the eight bytes from its address on, whatever its width. -/
def memRdata (mem : M) (m : RegM) : BitVec 64 :=
  if m.load then dpi.memRead mem m.memAddr 8#32 m.pc else 0#64

/-- The part of the read data that the instruction asks for, extended to 64 bits. -/
def loadExtend (m : RegM) (rdata : BitVec 64) : BitVec 64 :=
  if m.lb then (rdata.setWidth 8).signExtend 64
  else if m.lh then (rdata.setWidth 16).signExtend 64
  else if m.lw then (rdata.setWidth 32).signExtend 64
  else if m.ld then rdata
  else if m.lbu then (rdata.setWidth 8).setWidth 64
  else if m.lhu then (rdata.setWidth 16).setWidth 64
  else if m.lwu then (rdata.setWidth 32).setWidth 64
  else if m.amoswapw then (rdata.setWidth 32).signExtend 64
  else 0#64

/-- `memory_o_mem_rdata`. -/
def memory (mem : M) (m : RegM) : BitVec 64 := loadExtend m (memRdata dpi mem m)

/-- The call of `dpi_mem_write` the stage makes at a clock edge. -/
def memWriteCall (m : RegM) : Option MemWrite :=
  if m.sb then some ⟨m.memAddr, m.regdata2, 1#32, m.pc⟩
  else if m.sh then some ⟨m.memAddr, m.regdata2, 2#32, m.pc⟩
  else if m.sw then some ⟨m.memAddr, m.regdata2, 4#32, m.pc⟩
  else if m.sd then some ⟨m.memAddr, m.regdata2, 8#32, m.pc⟩
  else if m.amoswapw then some ⟨m.memAddr, m.regdata2, 4#32, m.pc⟩
  else none

/-- The memory after an optional call of `dpi_mem_write`. -/
def memNext (mem : M) : Option MemWrite → M
  | none => mem
  | some w => dpi.memWrite mem w.addr w.data w.len w.pc

/-! ## Write back and commit -/

/-- The outputs of `write_back.v`. -/
structure WriteBackOut where
  csrWen : Bool
  csrWdata : BitVec 64
  csrWid : BitVec 12
  systemInfo : BitVec 7
  regRd : BitVec 5
  regWdata : BitVec 64
  regWen : Bool

/-- `wb_o_reg_wdata`. -/
def wbRegWdata (w : RegW) : BitVec 64 :=
  if bit w.opcodeInfo 9 || bit w.opcodeInfo 8 then w.pc + 4#64
  else if bit w.opcodeInfo 3 then w.memRdata
  else if bit w.opcodeInfo 12 then w.csrRdata1
  else if bit w.amoInfo 17 then w.memRdata
  else w.aluResult

/-- The write back stage; `wb_o_system_info` has no driver. -/
def writeBack (w : RegW) : WriteBackOut where
  csrWen := w.csrWen
  csrWdata := w.aluResult
  csrWid := w.csrWid
  systemInfo := 0#7
  regRd := w.regRd
  regWdata := wbRegWdata w
  regWen := w.regWen

/-- The outputs of `commit.v`. -/
structure CommitOut where
  commit : Bool
  instr : BitVec 32
  pc : BitVec 64
  nextPc : BitVec 64
  memRdata : BitVec 64
  memWdata : BitVec 64
  memAddr : BitVec 64
deriving DecidableEq

/-- The commit port. -/
def commit (w : RegW) : CommitOut where
  commit := commitBit w.commitInfo
  instr := commitInstr w.commitInfo
  pc := commitPc w.commitInfo
  nextPc := commitNextPc w.commitInfo
  memRdata := w.memRdata
  memWdata := w.regdata2
  memAddr := w.aluResult

/-! ## The hazard controller -/

/-- The stall and bubble requests of `ctrl.v`. -/
structure CtrlOut where
  regFStall : Bool
  regDStall : Bool
  regEStall : Bool
  regMStall : Bool
  regWStall : Bool
  regFBubble : Bool
  regDBubble : Bool
  regEBubble : Bool
  regMBubble : Bool
  regWBubble : Bool

/-- `load_use`: `regE` holds a load of a register that the instruction in decode names. -/
def loadUse (regEOpcodeInfo : BitVec 14) (regERegRd rs1 rs2 : BitVec 5) : Bool :=
  (regERegRd == rs1 || regERegRd == rs2) && bit regEOpcodeInfo 3

/-- The hazard controller. -/
def ctrl (branchNeedJump mretNeedJump : Bool)
    (decodeOpcodeInfo regEOpcodeInfo regMOpcodeInfo : BitVec 14)
    (regERegRd rs1 rs2 : BitVec 5) : CtrlOut where
  regFBubble := false
  regDBubble := branchNeedJump || mretNeedJump || bit decodeOpcodeInfo 13 ||
    bit regEOpcodeInfo 13 || bit regMOpcodeInfo 13
  regEBubble := branchNeedJump || loadUse regEOpcodeInfo regERegRd rs1 rs2 || mretNeedJump ||
    bit regEOpcodeInfo 13 || bit regMOpcodeInfo 13
  regMBubble := bit regMOpcodeInfo 13
  regWBubble := false
  regFStall := loadUse regEOpcodeInfo regERegRd rs1 rs2 || bit decodeOpcodeInfo 13 ||
    bit regEOpcodeInfo 13 || bit regMOpcodeInfo 13
  regDStall := loadUse regEOpcodeInfo regERegRd rs1 rs2
  regEStall := false
  regMStall := false
  regWStall := false

end Riscv64Cpu.Pipeline
