import Riscv64Cpu.Isa.Alu
import Riscv64Cpu.Memory.Pmem
import Riscv64Cpu.Pipeline.Sequential

set_option relaxedAutoImplicit false
set_option autoImplicit false

/-!
# RV64I on the processor

Decode, execute, memory and write back of one instruction, with the operands that decode
delivers, against the effect that the instruction set gives it.  The two agree in everything but
the length of a load: the processor always reads eight bytes and takes the low ones.

## Main definitions

* `Pipeline.memReadCall` — the call of `dpi_mem_read`.
* `Pipeline.effect` — the effect of the stages on the instruction in `regE`.
* `Rv64i.Effect.readEight` — an effect whose load reads eight bytes.

## Main results

* `Pipeline.effect_of_alu`, `effect_of_jump`, `effect_of_branch`, `effect_of_load`,
  `effect_of_store` — the effect, class by class.
* `Pipeline.effect_encode` — the effect of the encodings.
* `Pipeline.value_dpiMemRead` — a loaded value does not depend on the length of the read.
* `Pipeline.SeqState.step_encode` — the sequential machine executes RV64I.
-/

namespace Rv64i

/-- The access with a read of eight bytes for every load. -/
def Access.readEight : Access → Access
  | load addr _ => load addr 8
  | store addr len data => store addr len data

/-- The effect with a read of eight bytes for every load. -/
def Effect.readEight (x : Effect) : Effect :=
  { x with access := x.access.map Access.readEight }

end Rv64i

namespace Riscv64Cpu.Pipeline

open Clocked Rv64i

/-! ## The effect of the stages -/

/-- The call of `dpi_mem_read` that `memory.v` makes, address and length. -/
def memReadCall (m : RegM) : Option (BitVec 64 × BitVec 32) :=
  if m.load then some (m.memAddr, 8#32) else none

/-- The read data is what the call returns. -/
private lemma memRdata_eq {M : Type} (dpi : Dpi M) (mem : M) (m : RegM) :
    memRdata dpi mem m = (memReadCall m).elim 0#64 fun c => dpi.memRead mem c.1 c.2 m.pc := by
  unfold memRdata memReadCall
  split_ifs <;> rfl

/-- The memory access of the instruction in memory. -/
def access (m : RegM) : Option Access :=
  match memReadCall m with
  | some (addr, len) => some (.load addr len.toNat)
  | none => (memWriteCall m).map fun c => .store c.addr c.len.toNat c.data

section Stages

variable {M : Type} (dpi : Dpi M) (mem : M) (e : RegE)

/-- The instruction in `regE` after execute. -/
def afterExecute : RegM := RegM.latch e (execute e)

/-- The instruction in `regE` after memory. -/
def afterMemory : RegW := RegW.latch (afterExecute e) (memory dpi mem (afterExecute e))

/-- The effect of execute, memory and write back on the instruction in `regE`: the register
write, the next pc, which is that of fetch without a redirect, and the memory access. -/
def effect : Effect where
  regWrite := (afterMemory dpi mem e).regWrite
  nextPc := pcNext false false false (execute e).branchNeedJump (execute e).branchNextPc
    (execute e).mretNeedJump (execute e).mretNextPc (e.pc + 4#64) e.pc
  access := access (afterExecute e)

end Stages

/-! ## Classes -/

/-- The classes whose result is that of the arithmetic unit. -/
def aluClass (w : BitVec 32) : Bool :=
  instLui w || instAuipc w || instAluReg w || instAluRegw w || instAluImm w || instAluImmw w

/-- The bit of a load in `load_store_info`. -/
def loadOpBit : LoadOp → ℕ
  | .lb => 10
  | .lh => 9
  | .lw => 8
  | .ld => 7
  | .lbu => 6
  | .lhu => 5
  | .lwu => 4

/-- The bit of a store in `load_store_info`. -/
def storeOpBit : StoreOp → ℕ
  | .sb => 3
  | .sh => 2
  | .sw => 1
  | .sd => 0

/-- The word of a load raises the bit of its operation. -/
lemma decodeLoadStoreInfo_load {w : BitVec 32} (op : LoadOp) (hl : instLoad w = true)
    (h3 : func3 w = op.funct3) : decodeLoadStoreInfo w = BitVec.twoPow 11 (loadOpBit op) := by
  have hs : instStore w = false := by
    rw [instStore, eq_of_beq hl]
    decide
  simp only [decodeLoadStoreInfo, instLb, instLh, instLw, instLd, instLbu, instLhu, instLwu,
    instSb, instSh, instSw, instSd, hl, hs, h3]
  cases op <;> decide

/-- The word of a store raises the bit of its operation. -/
lemma decodeLoadStoreInfo_store {w : BitVec 32} (op : StoreOp) (hs : instStore w = true)
    (h3 : func3 w = op.funct3) : decodeLoadStoreInfo w = BitVec.twoPow 11 (storeOpBit op) := by
  have hl : instLoad w = false := by
    rw [instLoad, eq_of_beq hs]
    decide
  simp only [decodeLoadStoreInfo, instLb, instLh, instLw, instLd, instLbu, instLhu, instLwu,
    instSb, instSh, instSw, instSd, hl, hs, h3]
  cases op <;> decide

/-! ## Class by class -/

section Classes

variable {M : Type} (dpi : Dpi M) (mem : M)

/-- The next pc, by the requests of execute. -/
lemma effect_nextPc (e : RegE) : (effect dpi mem e).nextPc =
    if e.mret then e.csrRdata2
    else if executeBranchNeedJump e then executeBranchNextPc e
    else e.pc + 4#64 := by
  simp only [effect, pcNext, execute, Bool.or_self, Bool.false_eq_true, if_false]
  rfl

variable {e : RegE} {w : BitVec 32} (h : e.Holds w)
include h

/-- An instruction of no redirecting class goes on to the next word. -/
lemma nextPc_of_redirectClass (hr : redirectClass w = false) :
    (effect dpi mem e).nextPc = e.pc + 4#64 := by
  have hreq : (executeBranchNeedJump e || e.mret) = false := by
    by_contra hn
    rw [Bool.not_eq_false] at hn
    rw [h.of_redirect hn] at hr
    cases hr
  rw [Bool.or_eq_false_iff] at hreq
  rw [effect_nextPc, hreq.1, hreq.2, if_neg Bool.false_ne_true, if_neg Bool.false_ne_true]

/-- Only a load reads memory. -/
lemma memReadCall_eq_none (hl : instLoad w = false) : memReadCall (afterExecute e) = none := by
  have hls : e.loadStoreInfo = decodeLoadStoreInfo w := h.loadStoreInfo
  simp [memReadCall, afterExecute, RegM.latch, RegM.load, RegM.lb, RegM.lh, RegM.lw, RegM.ld,
    RegM.lbu, RegM.lhu, RegM.lwu, hls, decodeLoadStoreInfo, instLb, instLh, instLw, instLd,
    instLbu, instLhu, instLwu, hl]

/-- Only stores and atomic instructions write memory. -/
lemma memWriteCall_eq_none (hs : instStore w = false) (ha : instAmo w = false) :
    memWriteCall (afterExecute e) = none := by
  have hls : e.loadStoreInfo = decodeLoadStoreInfo w := h.loadStoreInfo
  have hamo : e.amoInfo = 0#20 := h.amoInfo.trans (amoInfo_of_not_amo ha)
  simp [memWriteCall, afterExecute, RegM.latch, RegM.sb, RegM.sh, RegM.sw, RegM.sd, RegM.amoswapw,
    hls, hamo, decodeLoadStoreInfo, instSb, instSh, instSw, instSd, hs]

/-- An instruction that is neither a load, a store nor atomic accesses no memory. -/
lemma access_eq_none (hl : instLoad w = false) (hs : instStore w = false)
    (ha : instAmo w = false) : (effect dpi mem e).access = none := by
  show access (afterExecute e) = none
  rw [access, memReadCall_eq_none h hl, memWriteCall_eq_none h hs ha]
  rfl

/-- The register write of an instruction with the write enable up. -/
lemma regWrite_of_wen (hwen : decodeRegWen w = true) : (effect dpi mem e).regWrite =
    write (rd w) (wbRegWdata (afterMemory dpi mem e)) := by
  have he : (afterMemory dpi mem e).regWen = true := h.regWen.trans hwen
  have hd : (afterMemory dpi mem e).regRd = rd w := h.regRd
  rw [effect, RegW.regWrite, he, hd, write]
  by_cases hrd : rd w = 0#5 <;> simp [hrd]

/-- The register write of an instruction with the write enable down. -/
lemma regWrite_of_not_wen (hwen : decodeRegWen w = false) :
    (effect dpi mem e).regWrite = none := by
  have he : (afterMemory dpi mem e).regWen = false := h.regWen.trans hwen
  simp [effect, RegW.regWrite, he]

/-- Write back picks the result of the arithmetic unit for an instruction of no other class. -/
private lemma wbRegWdata_alu (hj : instJal w = false) (hjr : instJalr w = false)
    (hl : instLoad w = false) (hc : instCsrInstr w = false) (ha : instAmo w = false) :
    wbRegWdata (afterMemory dpi mem e) = executeAluResult e := by
  have ho : (afterMemory dpi mem e).opcodeInfo = decodeOpcodeInfo w := h.opcodeInfo
  have hamo : (afterMemory dpi mem e).amoInfo = 0#20 := h.amoInfo.trans (amoInfo_of_not_amo ha)
  simp [wbRegWdata, ho, hj, hjr, hl, hc, hamo]
  rfl

/-- **Arithmetic instructions**: the result of the arithmetic unit, the next word, no access. -/
theorem effect_of_alu (halu : aluClass w = true) :
    effect dpi mem e = ⟨write (rd w) (executeAluResult e), e.pc + 4#64, none⟩ := by
  have hop : opcode w = 0b0110111#7 ∨ opcode w = 0b0010111#7 ∨ opcode w = 0b0110011#7 ∨
      opcode w = 0b0111011#7 ∨ opcode w = 0b0010011#7 ∨ opcode w = 0b0011011#7 := by
    simpa only [aluClass, instLui, instAuipc, instAluReg, instAluRegw, instAluImm, instAluImmw,
      Bool.or_eq_true, beq_iff_eq, or_assoc] using halu
  have hs : instSystem w = false := by
    unfold instSystem
    rcases hop with hop | hop | hop | hop | hop | hop <;> rw [hop] <;> decide
  obtain ⟨hm, hc⟩ := not_mret_csr_of_not_system hs
  have hclass : redirectClass w = false ∧ instLoad w = false ∧ instStore w = false ∧
      instAmo w = false ∧ decodeRegWen w = true ∧ instJal w = false ∧ instJalr w = false := by
    unfold redirectClass decodeRegWen instIType instUType instRType instBranch instJal instJalr
      instLoad instStore instAmo instLui instAuipc instAluReg instAluRegw instAluImm instAluImmw
    rcases hop with hop | hop | hop | hop | hop | hop <;> simp [hop, hm]
  obtain ⟨hr, hl, hst, ha, hwen, hj, hjr⟩ := hclass
  rw [← nextPc_of_redirectClass dpi mem h hr, ← access_eq_none dpi mem h hl hst ha,
    ← wbRegWdata_alu dpi mem h hj hjr hl hc ha, ← regWrite_of_wen dpi mem h hwen]

/-! ### Control transfers -/

/-- Only system instructions request an `mret` redirect. -/
lemma mret_eq_false (hs : instSystem w = false) : e.mret = false := by
  rw [RegE.mret, h.systemInfo]
  simp [decodeSystemInfo, (not_mret_csr_of_not_system hs).1]

/-- The branch decision. -/
private lemma executeBranchNeedJump_branch (op : BranchOp) (ho : opcode w = 0b1100011#7)
    (h3 : func3 w = op.funct3) :
    executeBranchNeedJump e = op.taken e.regdata1 e.regdata2 := by
  cases op <;>
    simp [executeBranchNeedJump, RegE.beq, RegE.bne, RegE.blt, RegE.bge, RegE.bltu, RegE.bgeu,
      RegE.opJal, RegE.opJalr, h.branchInfo, h.opcodeInfo, decodeBranchInfo, instBeq, instBne,
      instBlt, instBge, instBltu, instBgeu, instBranch, instJal, instJalr, ho, h3,
      BranchOp.funct3, BranchOp.taken, BitVec.slt, BitVec.sle, BitVec.ult, BitVec.ule] <;>
    rfl

/-- **Jumps**: the link value, the target, no access. -/
theorem effect_of_jump (hj : instJal w = true ∨ instJalr w = true) :
    effect dpi mem e = ⟨write (rd w) (e.pc + 4#64), executeBranchNextPc e, none⟩ := by
  have hop : opcode w = 0b1101111#7 ∨ opcode w = 0b1100111#7 :=
    hj.imp eq_of_beq eq_of_beq
  have hclass : instSystem w = false ∧ instLoad w = false ∧ instStore w = false ∧
      instAmo w = false ∧ decodeRegWen w = true := by
    unfold decodeRegWen instIType instJType instSystem instLoad instStore instAmo instJal instJalr
    rcases hop with hop | hop <;> simp [hop]
  obtain ⟨hs, hl, hst, ha, hwen⟩ := hclass
  have hnext : (effect dpi mem e).nextPc = executeBranchNextPc e := by
    have hneed : executeBranchNeedJump e = true := by
      rcases hj with hj | hj <;>
        simp [executeBranchNeedJump, RegE.opJal, RegE.opJalr, h.opcodeInfo, hj]
    rw [effect_nextPc, mret_eq_false h hs, hneed, if_neg Bool.false_ne_true, if_pos rfl]
  have hlink : wbRegWdata (afterMemory dpi mem e) = e.pc + 4#64 := by
    have ho : (afterMemory dpi mem e).opcodeInfo = decodeOpcodeInfo w := h.opcodeInfo
    rcases hj with hj | hj <;> simp [wbRegWdata, ho, hj] <;> rfl
  rw [← hnext, ← hlink, ← access_eq_none dpi mem h hl hst ha, ← regWrite_of_wen dpi mem h hwen]

/-- **Branches**: no register write, the target if the branch is taken, no access. -/
theorem effect_of_branch (op : BranchOp) (hb : instBranch w = true) (h3 : func3 w = op.funct3) :
    effect dpi mem e = ⟨none, if op.taken e.regdata1 e.regdata2 then executeAluResult e
      else e.pc + 4#64, none⟩ := by
  have hop : opcode w = 0b1100011#7 := eq_of_beq hb
  have hclass : instSystem w = false ∧ instLoad w = false ∧ instStore w = false ∧
      instAmo w = false ∧ instJal w = false ∧ instJalr w = false := by
    unfold instSystem instLoad instStore instAmo instJal instJalr
    simp [hop]
  obtain ⟨hs, hl, hst, ha, hj, hjr⟩ := hclass
  have hwen : decodeRegWen w = false := by
    have hc := (not_mret_csr_of_not_system hs).2
    simp [decodeRegWen, instIType, instUType, instRType, instJType, instLui, instAuipc,
      instAluReg, instAluRegw, instAluImm, instAluImmw, hop, hl, hj, hjr, ha, hc]
  have hnext : (effect dpi mem e).nextPc =
      if op.taken e.regdata1 e.regdata2 then executeAluResult e else e.pc + 4#64 := by
    have hto : executeBranchNeedJump e = true → executeBranchNextPc e = executeAluResult e := by
      intro hneed
      simp [executeBranchNextPc, RegE.opJalr, h.opcodeInfo, hjr, hneed]
    rw [effect_nextPc, mret_eq_false h hs, if_neg Bool.false_ne_true,
      ← executeBranchNeedJump_branch h op hop h3]
    split_ifs with hneed
    · exact hto hneed
    · rfl
  rw [← hnext, ← access_eq_none dpi mem h hl hst ha, ← regWrite_of_not_wen dpi mem h hwen]

/-! ### Memory accesses -/

/-- **Loads**: the extended low bytes of the eight read, the next word, the read of eight
bytes. -/
theorem effect_of_load (op : LoadOp) (hl : instLoad w = true) (h3 : func3 w = op.funct3) :
    effect dpi mem e = ⟨write (rd w) (op.value (dpi.memRead mem (executeAluResult e) 8#32 e.pc)),
      e.pc + 4#64, some (.load (executeAluResult e) 8)⟩ := by
  have hop : opcode w = 0b0000011#7 := eq_of_beq hl
  have hclass : redirectClass w = false ∧ instAmo w = false ∧ decodeRegWen w = true ∧
      instJal w = false ∧ instJalr w = false := by
    have hm : instMret w = false :=
      (not_mret_csr_of_not_system (by simp [instSystem, hop])).1
    unfold redirectClass decodeRegWen instIType instBranch instAmo instJal instJalr instLoad
    simp [hop, hm]
  obtain ⟨hr, ha, hwen, hj, hjr⟩ := hclass
  have hls : e.loadStoreInfo = BitVec.twoPow 11 (loadOpBit op) :=
    h.loadStoreInfo.trans (decodeLoadStoreInfo_load op hl h3)
  have hamo : e.amoInfo = 0#20 := h.amoInfo.trans (amoInfo_of_not_amo ha)
  have hread : memReadCall (afterExecute e) = some (executeAluResult e, 8#32) := by
    cases op <;>
      simp [memReadCall, afterExecute, RegM.latch, execute, RegM.load, RegM.lb, RegM.lh, RegM.lw,
        RegM.ld, RegM.lbu, RegM.lhu, RegM.lwu, RegM.memAddr, RegM.amoswapw, hls, hamo, loadOpBit]
  have hvalue : wbRegWdata (afterMemory dpi mem e) =
      op.value (dpi.memRead mem (executeAluResult e) 8#32 e.pc) := by
    have ho : (afterMemory dpi mem e).opcodeInfo = decodeOpcodeInfo w := h.opcodeInfo
    have hw : wbRegWdata (afterMemory dpi mem e) = memory dpi mem (afterExecute e) := by
      simp [wbRegWdata, ho, hj, hjr, hl]
      rfl
    rw [hw, memory, memRdata_eq, hread]
    cases op <;>
      simp [loadExtend, afterExecute, RegM.latch, RegM.lb, RegM.lh, RegM.lw, RegM.ld, RegM.lbu,
        RegM.lhu, RegM.lwu, hls, loadOpBit, LoadOp.value]
  have haccess : (effect dpi mem e).access = some (.load (executeAluResult e) 8) := by
    show access (afterExecute e) = _
    rw [access, hread]
    rfl
  rw [← hvalue, ← nextPc_of_redirectClass dpi mem h hr, ← haccess,
    ← regWrite_of_wen dpi mem h hwen]

/-- **Stores**: no register write, the next word, the write of the low bytes of the second
operand. -/
theorem effect_of_store (op : StoreOp) (hs : instStore w = true) (h3 : func3 w = op.funct3) :
    effect dpi mem e =
      ⟨none, e.pc + 4#64, some (.store (executeAluResult e) op.len e.regdata2)⟩ := by
  have hop : opcode w = 0b0100011#7 := eq_of_beq hs
  have hclass : redirectClass w = false ∧ instAmo w = false ∧ decodeRegWen w = false := by
    obtain ⟨hm, hc⟩ := not_mret_csr_of_not_system (show instSystem w = false by
      simp [instSystem, hop])
    unfold redirectClass decodeRegWen instIType instUType instRType instJType instBranch instAmo
      instJal instJalr instLoad instLui instAuipc instAluReg instAluRegw instAluImm instAluImmw
    simp [hop, hm, hc]
  obtain ⟨hr, ha, hwen⟩ := hclass
  have hls : e.loadStoreInfo = BitVec.twoPow 11 (storeOpBit op) :=
    h.loadStoreInfo.trans (decodeLoadStoreInfo_store op hs h3)
  have hamo : e.amoInfo = 0#20 := h.amoInfo.trans (amoInfo_of_not_amo ha)
  have haccess : (effect dpi mem e).access =
      some (.store (executeAluResult e) op.len e.regdata2) := by
    show access (afterExecute e) = _
    cases op <;>
      simp [access, memReadCall, memWriteCall, afterExecute, RegM.latch, execute, RegM.load,
        RegM.lb, RegM.lh, RegM.lw, RegM.ld, RegM.lbu, RegM.lhu, RegM.lwu, RegM.sb, RegM.sh,
        RegM.sw, RegM.sd, RegM.memAddr, RegM.amoswapw, hls, hamo, storeOpBit, StoreOp.len]
  rw [← nextPc_of_redirectClass dpi mem h hr, ← haccess, ← regWrite_of_not_wen dpi mem h hwen]

end Classes

/-! ## The immediates of the encodings -/

section Immediates

variable {o : BitVec 7} (f3 : BitVec 3) (rd rs1 rs2 : BitVec 5)

/-- Decode finds the immediate of an I-type word. -/
lemma decodeImm_encodeI (imm : BitVec 12) (ho : o = 0b0000011#7 ∨ o = 0b1100111#7 ∨
    o = 0b0010011#7 ∨ o = 0b0011011#7) :
    decodeImm (encodeI o f3 rd rs1 imm) = imm.signExtend 64 := by
  obtain ⟨hop, -, -, -, himm, -, -⟩ := extract_encodeI o f3 rd rs1 imm
  have hw : instIType (encodeI o f3 rd rs1 imm) = true := by
    unfold instIType instLoad instJalr instAluImm instAluImmw opcode
    rcases ho with rfl | rfl | rfl | rfl <;> simp [hop]
  rw [decodeImm, if_pos hw, instIImm, himm]

/-- Decode finds the immediate of an S-type word. -/
private lemma decodeImm_encodeS (imm : BitVec 12) :
    decodeImm (encodeS 0b0100011#7 f3 rs1 rs2 imm) = imm.signExtend 64 := by
  obtain ⟨hop, -, -, -, himm⟩ := extract_encodeS 0b0100011#7 f3 rs1 rs2 imm
  have hw : instSImm (encodeS 0b0100011#7 f3 rs1 rs2 imm) = imm.signExtend 64 :=
    congrArg (BitVec.signExtend 64) himm
  rw [← hw]
  simp [decodeImm, instIType, instSType, instLoad, instJalr, instAluImm, instAluImmw, instStore,
    opcode, hop]

/-- Decode finds the offset of a B-type word. -/
private lemma decodeImm_encodeB (offset : BitVec 12) :
    decodeImm (encodeB 0b1100011#7 f3 rs1 rs2 offset) = (offset ++ 0#1).signExtend 64 := by
  obtain ⟨hop, -, -, -, himm⟩ := extract_encodeB 0b1100011#7 f3 rs1 rs2 offset
  have hw : instBImm (encodeB 0b1100011#7 f3 rs1 rs2 offset) = (offset ++ 0#1).signExtend 64 :=
    congrArg (fun x : BitVec 12 => (x ++ 0#1).signExtend 64) himm
  rw [← hw]
  simp [decodeImm, instIType, instSType, instBType, instLoad, instJalr, instAluImm, instAluImmw,
    instStore, instBranch, opcode, hop]

/-- Decode finds the offset of a J-type word. -/
private lemma decodeImm_encodeJ (offset : BitVec 20) :
    decodeImm (encodeJ 0b1101111#7 rd offset) = (offset ++ 0#1).signExtend 64 := by
  obtain ⟨hop, -, himm⟩ := extract_encodeJ 0b1101111#7 rd offset
  have hw : instJImm (encodeJ 0b1101111#7 rd offset) = (offset ++ 0#1).signExtend 64 :=
    congrArg (fun x : BitVec 20 => (x ++ 0#1).signExtend 64) himm
  rw [← hw]
  simp [decodeImm, instIType, instSType, instBType, instJType, instLoad, instJalr, instAluImm,
    instAluImmw, instStore, instBranch, instJal, opcode, hop]

/-- Decode finds the immediate of a U-type word. -/
lemma decodeImm_encodeU (imm : BitVec 20) (ho : o = 0b0110111#7 ∨ o = 0b0010111#7) :
    decodeImm (encodeU o rd imm) = (imm ++ 0#12).signExtend 64 := by
  obtain ⟨hop, -, himm⟩ := extract_encodeU o rd imm
  have hw : instUImm (encodeU o rd imm) = (imm ++ 0#12).signExtend 64 := by rw [instUImm, himm]
  rw [← hw]
  rcases ho with rfl | rfl <;>
    simp [decodeImm, instIType, instSType, instBType, instJType, instUType, instLoad, instJalr,
      instAluImm, instAluImmw, instStore, instBranch, instJal, instLui, instAuipc, opcode, hop]

end Immediates

/-! ## Instruction by instruction -/

/-- `regE` holds the word `w` with the operands `x`. -/
structure RegE.HoldsWith (e : RegE) (w : BitVec 32) (x : BitVec 5 → BitVec 64) : Prop
    extends e.Holds w where
  regdata1 : e.regdata1 = x (rs1 w)
  regdata2 : e.regdata2 = x (rs2 w)

section Instructions

variable {M : Type} (dpi : Dpi M) (mem : M) {e : RegE} {x : BitVec 5 → BitVec 64}

/-- The memory as the read of eight bytes shows it to the instruction in `regE`. -/
def window (e : RegE) (a : BitVec 64) : BitVec 64 := dpi.memRead mem a 8#32 e.pc

/-- The stages execute `lui`. -/
private lemma effect_lui (rd : BitVec 5) (imm : BitVec 20)
    (h : e.HoldsWith (Instr.lui rd imm).encode x) :
    effect dpi mem e = (Instr.lui rd imm).effect e.pc x (window dpi mem e) := by
  obtain ⟨hop, hrd, -⟩ := extract_encodeU 0b0110111#7 rd imm
  have hc : instLui (Instr.lui rd imm).encode = true := beq_iff_eq.mpr hop
  have hrd : Pipeline.rd (Instr.lui rd imm).encode = rd := hrd
  rw [effect_of_alu dpi mem h.toHolds (by simp [aluClass, hc]), h.operands.lui hc, h.imm, hrd,
    Instr.encode, decodeImm_encodeU rd imm (.inl rfl)]
  rfl

/-- The stages execute `auipc`. -/
private lemma effect_auipc (rd : BitVec 5) (imm : BitVec 20)
    (h : e.HoldsWith (Instr.auipc rd imm).encode x) :
    effect dpi mem e = (Instr.auipc rd imm).effect e.pc x (window dpi mem e) := by
  obtain ⟨hop, hrd, -⟩ := extract_encodeU 0b0010111#7 rd imm
  have hc : instAuipc (Instr.auipc rd imm).encode = true := beq_iff_eq.mpr hop
  have hrd : Pipeline.rd (Instr.auipc rd imm).encode = rd := hrd
  rw [effect_of_alu dpi mem h.toHolds (by simp [aluClass, hc]), h.operands.pcRelative (.inl hc),
    h.imm, hrd, Instr.encode, decodeImm_encodeU rd imm (.inr rfl)]
  rfl

/-- The stages execute `jal`. -/
private lemma effect_jal (rd : BitVec 5) (offset : BitVec 20)
    (h : e.HoldsWith (Instr.jal rd offset).encode x) :
    effect dpi mem e = (Instr.jal rd offset).effect e.pc x (window dpi mem e) := by
  obtain ⟨hop, hrd, -⟩ := extract_encodeJ 0b1101111#7 rd offset
  have hc : instJal (Instr.jal rd offset).encode = true := beq_iff_eq.mpr hop
  have hjr : instJalr (Instr.jal rd offset).encode = false := by
    have hop : opcode (Instr.jal rd offset).encode = 0b1101111#7 := hop
    rw [instJalr, hop]
    decide
  have hrd : Pipeline.rd (Instr.jal rd offset).encode = rd := hrd
  have hto : executeBranchNextPc e = executeAluResult e := by
    simp [executeBranchNextPc, RegE.opJalr, RegE.opJal, h.opcodeInfo, hc, hjr]
  rw [effect_of_jump dpi mem h.toHolds (.inl hc), hto, h.operands.pcRelative (.inr (.inl hc)),
    h.imm, hrd, Instr.encode, decodeImm_encodeJ rd offset]
  rfl

/-- The stages execute `jalr`. -/
private lemma effect_jalr (rd rs1 : BitVec 5) (imm : BitVec 12)
    (h : e.HoldsWith (Instr.jalr rd rs1 imm).encode x) :
    effect dpi mem e = (Instr.jalr rd rs1 imm).effect e.pc x (window dpi mem e) := by
  obtain ⟨hop, hrd, -, hrs1, -⟩ := extract_encodeI 0b1100111#7 0b000#3 rd rs1 imm
  have hc : instJalr (Instr.jalr rd rs1 imm).encode = true := beq_iff_eq.mpr hop
  have hrd : Pipeline.rd (Instr.jalr rd rs1 imm).encode = rd := hrd
  have hrs1 : Pipeline.rs1 (Instr.jalr rd rs1 imm).encode = rs1 := hrs1
  have hto : executeBranchNextPc e = executeAluResult e &&& ~~~1#64 := by
    simp only [executeBranchNextPc, RegE.opJalr, h.opcodeInfo, opcodeInfo_jalr, hc, if_true]
  rw [effect_of_jump dpi mem h.toHolds (.inr hc), hto, h.operands.baseOffset (.inl hc), h.regdata1,
    h.imm, hrd, hrs1, Instr.encode, decodeImm_encodeI 0b000#3 rd rs1 imm (.inr (.inl rfl))]
  rfl

/-- The stages execute the branches. -/
private lemma effect_branch (op : BranchOp) (rs1 rs2 : BitVec 5) (offset : BitVec 12)
    (h : e.HoldsWith (Instr.branch op rs1 rs2 offset).encode x) :
    effect dpi mem e = (Instr.branch op rs1 rs2 offset).effect e.pc x (window dpi mem e) := by
  obtain ⟨hop, h3, hrs1, hrs2, -⟩ := extract_encodeB 0b1100011#7 op.funct3 rs1 rs2 offset
  have hc : instBranch (Instr.branch op rs1 rs2 offset).encode = true := beq_iff_eq.mpr hop
  have hrs1 : Pipeline.rs1 (Instr.branch op rs1 rs2 offset).encode = rs1 := hrs1
  have hrs2 : Pipeline.rs2 (Instr.branch op rs1 rs2 offset).encode = rs2 := hrs2
  rw [effect_of_branch dpi mem h.toHolds op hc h3, h.operands.pcRelative (.inr (.inr hc)),
    h.regdata1, h.regdata2, h.imm, hrs1, hrs2, Instr.encode,
    decodeImm_encodeB op.funct3 rs1 rs2 offset]
  rfl

/-- The stages execute the loads, with a read of eight bytes. -/
private lemma effect_load (op : LoadOp) (rd rs1 : BitVec 5) (imm : BitVec 12)
    (h : e.HoldsWith (Instr.load op rd rs1 imm).encode x) :
    effect dpi mem e =
      ((Instr.load op rd rs1 imm).effect e.pc x (window dpi mem e)).readEight := by
  obtain ⟨hop, hrd, h3, hrs1, -⟩ := extract_encodeI 0b0000011#7 op.funct3 rd rs1 imm
  have hc : instLoad (Instr.load op rd rs1 imm).encode = true := beq_iff_eq.mpr hop
  have hrd : Pipeline.rd (Instr.load op rd rs1 imm).encode = rd := hrd
  have hrs1 : Pipeline.rs1 (Instr.load op rd rs1 imm).encode = rs1 := hrs1
  rw [effect_of_load dpi mem h.toHolds op hc h3, h.operands.baseOffset (.inr (.inl hc)),
    h.regdata1, h.imm, hrd, hrs1, Instr.encode,
    decodeImm_encodeI op.funct3 rd rs1 imm (.inl rfl)]
  rfl

/-- The stages execute the stores. -/
private lemma effect_store (op : StoreOp) (rs1 rs2 : BitVec 5) (imm : BitVec 12)
    (h : e.HoldsWith (Instr.store op rs1 rs2 imm).encode x) :
    effect dpi mem e = (Instr.store op rs1 rs2 imm).effect e.pc x (window dpi mem e) := by
  obtain ⟨hop, h3, hrs1, hrs2, -⟩ := extract_encodeS 0b0100011#7 op.funct3 rs1 rs2 imm
  have hc : instStore (Instr.store op rs1 rs2 imm).encode = true := beq_iff_eq.mpr hop
  have hrs1 : Pipeline.rs1 (Instr.store op rs1 rs2 imm).encode = rs1 := hrs1
  have hrs2 : Pipeline.rs2 (Instr.store op rs1 rs2 imm).encode = rs2 := hrs2
  rw [effect_of_store dpi mem h.toHolds op hc h3, h.operands.baseOffset (.inr (.inr hc)),
    h.regdata1, h.regdata2, h.imm, hrs1, hrs2, Instr.encode,
    decodeImm_encodeS op.funct3 rs1 rs2 imm]
  rfl

/-- Instructions of format I with the immediate for the second operand. -/
lemma effect_regImm {o : BitVec 7} {f3 : BitVec 3} {rd rs1 : BitVec 5} {imm : BitVec 12}
    (ho : o = 0b0010011#7 ∨ o = 0b0011011#7) (h : e.HoldsWith (encodeI o f3 rd rs1 imm) x) :
    effect dpi mem e = ⟨write rd (aluResultOf e (x rs1) (imm.signExtend 64)), e.pc + 4#64,
      none⟩ := by
  obtain ⟨hop, hrd, -, hrs1, -⟩ := extract_encodeI o f3 rd rs1 imm
  have hc : instAluImm (encodeI o f3 rd rs1 imm) = true ∨
      instAluImmw (encodeI o f3 rd rs1 imm) = true :=
    ho.imp (fun ho => beq_iff_eq.mpr (hop.trans ho)) fun ho => beq_iff_eq.mpr (hop.trans ho)
  have halu : aluClass (encodeI o f3 rd rs1 imm) = true := by
    rcases hc with hc | hc <;> simp [aluClass, hc]
  have hrd : Pipeline.rd (encodeI o f3 rd rs1 imm) = rd := hrd
  have hrs1 : Pipeline.rs1 (encodeI o f3 rd rs1 imm) = rs1 := hrs1
  rw [effect_of_alu dpi mem h.toHolds halu, h.operands.regImm hc, h.regdata1, h.imm, hrd, hrs1,
    decodeImm_encodeI f3 rd rs1 imm (.inr (.inr ho))]

/-- Instructions of format R. -/
lemma effect_regReg {o : BitVec 7} {f3 : BitVec 3} {f7 : BitVec 7} {rd rs1 rs2 : BitVec 5}
    (ho : o = 0b0110011#7 ∨ o = 0b0111011#7) (h : e.HoldsWith (encodeR o f3 f7 rd rs1 rs2) x) :
    effect dpi mem e = ⟨write rd (aluResultOf e (x rs1) (x rs2)), e.pc + 4#64, none⟩ := by
  obtain ⟨hop, hrd, -, hrs1, hrs2, -⟩ := extract_encodeR o f3 f7 rd rs1 rs2
  have hc : instAluReg (encodeR o f3 f7 rd rs1 rs2) = true ∨
      instAluRegw (encodeR o f3 f7 rd rs1 rs2) = true :=
    ho.imp (fun ho => beq_iff_eq.mpr (hop.trans ho)) fun ho => beq_iff_eq.mpr (hop.trans ho)
  have halu : aluClass (encodeR o f3 f7 rd rs1 rs2) = true := by
    rcases hc with hc | hc <;> simp [aluClass, hc]
  have hrd : Pipeline.rd (encodeR o f3 f7 rd rs1 rs2) = rd := hrd
  have hrs1 : Pipeline.rs1 (encodeR o f3 f7 rd rs1 rs2) = rs1 := hrs1
  have hrs2 : Pipeline.rs2 (encodeR o f3 f7 rd rs1 rs2) = rs2 := hrs2
  rw [effect_of_alu dpi mem h.toHolds halu, h.operands.reg hc, h.regdata1, h.regdata2, hrd, hrs1,
    hrs2]

/-- The stages execute the operations with an immediate. -/
private lemma effect_opImm (op : ImmOp) (rd rs1 : BitVec 5) (imm : BitVec 12)
    (h : e.HoldsWith (Instr.opImm op rd rs1 imm).encode x) :
    effect dpi mem e = (Instr.opImm op rd rs1 imm).effect e.pc x (window dpi mem e) := by
  rw [effect_regImm dpi mem (.inl rfl) h, aluResultOf_regOp _ _ op.toRegOp
    (h.aluInfo.trans (decodeAluInfo_opImm rd rs1 op imm))]
  rfl

/-- The stages execute the shifts by an immediate. -/
private lemma effect_shiftImm (op : ShiftOp) (rd rs1 : BitVec 5) (shamt : BitVec 6)
    (h : e.HoldsWith (Instr.shiftImm op rd rs1 shamt).encode x) :
    effect dpi mem e = (Instr.shiftImm op rd rs1 shamt).effect e.pc x (window dpi mem e) := by
  have hamt : ((op.funct6 ++ shamt).signExtend 64).toNat % 64 = shamt.toNat :=
    toNat_shamt op.funct6 shamt (by decide) rfl
  rw [effect_regImm dpi mem (.inl rfl) h, aluResultOf_regOp _ _ (shiftRegOp op)
    (h.aluInfo.trans (decodeAluInfo_shiftImm rd rs1 op shamt))]
  cases op <;> simp only [shiftRegOp, RegOp.eval, hamt] <;> rfl

/-- The stages execute `addiw`. -/
private lemma effect_addiw (rd rs1 : BitVec 5) (imm : BitVec 12)
    (h : e.HoldsWith (Instr.addiw rd rs1 imm).encode x) :
    effect dpi mem e = (Instr.addiw rd rs1 imm).effect e.pc x (window dpi mem e) := by
  rw [effect_regImm dpi mem (.inr rfl) h, aluResultOf_regwOp _ _ .addw
    (h.aluInfo.trans (decodeAluInfo_addiw rd rs1 imm)), RegwOp.eval, setWidth_signExtend]
  rfl

/-- The stages execute the shifts of words by an immediate. -/
private lemma effect_shiftImmw (op : ShiftOp) (rd rs1 : BitVec 5) (shamt : BitVec 5)
    (h : e.HoldsWith (Instr.shiftImmw op rd rs1 shamt).encode x) :
    effect dpi mem e = (Instr.shiftImmw op rd rs1 shamt).effect e.pc x (window dpi mem e) := by
  have hamt : (((op.funct6 ++ 0#1 ++ shamt).signExtend 64).setWidth 32).toNat % 32 =
      shamt.toNat := by
    rw [BitVec.toNat_setWidth, Nat.mod_mod_of_dvd _ (by decide)]
    exact toNat_shamt (op.funct6 ++ 0#1) shamt (by decide) rfl
  rw [effect_regImm dpi mem (.inr rfl) h, aluResultOf_regwOp _ _ (shiftRegwOp op)
    (h.aluInfo.trans (decodeAluInfo_shiftImmw rd rs1 op shamt))]
  cases op <;> simp only [shiftRegwOp, RegwOp.eval, hamt] <;> rfl

/-- The stages execute the operations on registers. -/
private lemma effect_reg (op : RegOp) (rd rs1 rs2 : BitVec 5)
    (h : e.HoldsWith (Instr.reg op rd rs1 rs2).encode x) :
    effect dpi mem e = (Instr.reg op rd rs1 rs2).effect e.pc x (window dpi mem e) := by
  rw [effect_regReg dpi mem (.inl rfl) h, aluResultOf_regOp _ _ op
    (h.aluInfo.trans (decodeAluInfo_reg rd rs1 rs2 op))]
  rfl

/-- The stages execute the operations on words. -/
private lemma effect_regw (op : RegwOp) (rd rs1 rs2 : BitVec 5)
    (h : e.HoldsWith (Instr.regw op rd rs1 rs2).encode x) :
    effect dpi mem e = (Instr.regw op rd rs1 rs2).effect e.pc x (window dpi mem e) := by
  rw [effect_regReg dpi mem (.inr rfl) h, aluResultOf_regwOp _ _ op
    (h.aluInfo.trans (decodeAluInfo_regw rd rs1 rs2 op))]
  rfl

/-- The effect of an instruction, with any operands. -/
lemma effect_of_holdsWith (i : Instr) (h : e.HoldsWith i.encode x) :
    effect dpi mem e = (i.effect e.pc x (window dpi mem e)).readEight := by
  cases i with
  | lui rd imm => exact effect_lui dpi mem rd imm h
  | auipc rd imm => exact effect_auipc dpi mem rd imm h
  | jal rd offset => exact effect_jal dpi mem rd offset h
  | jalr rd rs1 imm => exact effect_jalr dpi mem rd rs1 imm h
  | branch op rs1 rs2 offset => exact effect_branch dpi mem op rs1 rs2 offset h
  | load op rd rs1 imm => exact effect_load dpi mem op rd rs1 imm h
  | store op rs1 rs2 imm => exact effect_store dpi mem op rs1 rs2 imm h
  | opImm op rd rs1 imm => exact effect_opImm dpi mem op rd rs1 imm h
  | shiftImm op rd rs1 shamt => exact effect_shiftImm dpi mem op rd rs1 shamt h
  | addiw rd rs1 imm => exact effect_addiw dpi mem rd rs1 imm h
  | shiftImmw op rd rs1 shamt => exact effect_shiftImmw dpi mem op rd rs1 shamt h
  | reg op rd rs1 rs2 => exact effect_reg dpi mem op rd rs1 rs2 h
  | regw op rd rs1 rs2 => exact effect_regw dpi mem op rd rs1 rs2 h

end Instructions

/-! ## The instruction set on the processor -/

section Main

variable {M : Type} (dpi : Dpi M) (mem : M)

/-- **RV64I on the processor**: for every instruction, whatever decode delivers for the two
source registers, execute, memory and write back have the effect of the instruction, but that a
load reads eight bytes. -/
theorem effect_encode (i : Instr) (b : Bypass) (rf : Regfile) (cf : Csrfile) (pc : BitVec 64)
    (ci : BitVec 161) :
    effect dpi mem (RegE.latch (decode b rf cf i.encode) pc ci) =
      (i.effect pc (fun rs => forward b rs (rf.read rs))
        fun a => dpi.memRead mem a 8#32 pc).readEight :=
  effect_of_holdsWith dpi mem i ⟨RegE.holds_latch b rf cf i.encode pc ci, rfl, rfl⟩

/-- `lb x1, 0(x0)` reads eight bytes, not one. -/
theorem effect_encode_lb : ¬ ∀ (mem : Memory.Pmem) (i : Instr) (b : Bypass) (rf : Regfile)
    (cf : Csrfile) (pc : BitVec 64) (ci : BitVec 161),
    effect Memory.dpi mem (RegE.latch (decode b rf cf i.encode) pc ci) =
      i.effect pc (fun rs => forward b rs (rf.read rs))
        fun a => Memory.dpi.memRead mem a 8#32 pc := by
  intro h
  have hlb := congrArg Effect.access (h (Memory.image []) (.load .lb 1#5 0#5 0#12) Bypass.idle
    Regfile.initial Csrfile.initial 0x80000000#64 0#161)
  revert hlb
  decide +kernel

/-- A loaded value, with a read of the length that the load asks for. -/
theorem value_dpiMemRead (op : LoadOp) (mem : Memory.Pmem) (a pc : BitVec 64) :
    op.value (Memory.dpi.memRead mem a 8#32 pc) =
      op.value (Memory.dpi.memRead mem a (BitVec.ofNat 32 op.len) pc) := by
  refine op.value_congr (Memory.setWidth_dpiMemRead mem a pc op.len ?_)
  cases op <;> decide

end Main

/-! ## The sequential machine -/

namespace SeqState

variable {M : Type} (dpi : Dpi M) (σ : SeqState M)

/-- The memory after the access of the instruction at `pc`. -/
def memAfter (mem : M) (pc : BitVec 64) : Option Access → M
  | some (.store addr len data) => dpi.memWrite mem addr data (BitVec.ofNat 32 len) pc
  | _ => mem

/-- A read leaves the memory alone, whatever its length. -/
private lemma memAfter_readEight (mem : M) (pc : BitVec 64) (o : Option Access) :
    memAfter dpi mem pc (o.map Access.readEight) = memAfter dpi mem pc o := by
  rcases o with _ | ⟨addr, len⟩ | ⟨addr, len, data⟩ <;> rfl

/-- The call of `dpi_mem_write` is the access of an instruction that does not read. -/
lemma memNext_memWriteCall (mem : M) {e : RegE} {w : BitVec 32} (h : e.Holds w) :
    memNext dpi mem (memWriteCall (afterExecute e)) =
      memAfter dpi mem e.pc (access (afterExecute e)) := by
  cases hl : instLoad w with
  | true =>
    have hop : opcode w = 0b0000011#7 := eq_of_beq hl
    have hw := memWriteCall_eq_none h (by simp [instStore, hop]) (by simp [instAmo, hop])
    rw [access, hw]
    split <;> rfl
  | false =>
    have hpc : ∀ c, memWriteCall (afterExecute e) = some c → c.pc = e.pc := by
      intro c hc
      unfold memWriteCall at hc
      split_ifs at hc <;> cases hc <;> rfl
    rw [access, memReadCall_eq_none h hl]
    cases hc : memWriteCall (afterExecute e) with
    | none => rfl
    | some c => simp [memNext, memAfter, hpc c hc]

/-- A step makes the register write, the control transfer and the store of an effect that the stages
have, whatever the length of a read, which is not seen in the state. -/
lemma step_of_effect {x : Effect} (heff : effect dpi σ.mem (σ.regE dpi) = x.readEight) :
    (step dpi σ).pc = x.nextPc ∧
    (step dpi σ).regfile.reg = applyWrite σ.regfile.reg x.regWrite ∧
    (step dpi σ).mem = memAfter dpi σ.mem σ.pc x.access := by
  refine ⟨?_, ?_, ?_⟩
  · exact congrArg Effect.nextPc heff
  · rw [step_regfile_reg]
    exact congrArg (applyWrite σ.regfile.reg) (congrArg Effect.regWrite heff)
  · rw [step_mem]
    exact (memNext_memWriteCall dpi σ.mem (σ.holds_regE dpi)).trans
      ((congrArg (memAfter dpi σ.mem σ.pc) (congrArg Effect.access heff)).trans
        (memAfter_readEight dpi σ.mem σ.pc _))

/-- `regE` holds the fetched word with the operands from the register file. -/
lemma holdsWith_regE : (σ.regE dpi).HoldsWith (σ.fetchOut dpi).instr σ.regfile.reg :=
  ⟨σ.holds_regE dpi, (σ.regE_regdata dpi).1, (σ.regE_regdata dpi).2⟩

/-- **A step of the sequential machine is an instruction of RV64I**: for a fetched RV64I
instruction it makes the register write, the control transfer and the store that the instruction
set asks for.

**Proof sketch.** The step runs the same stages, with the operands read straight from the
register file, so its effect is that of `effect_of_holdsWith`. -/
theorem step_encode (i : Instr) (hi : (σ.fetchOut dpi).instr = i.encode) :
    (step dpi σ).pc = (i.effect σ.pc σ.regfile.reg (window dpi σ.mem (σ.regE dpi))).nextPc ∧
    (step dpi σ).regfile.reg = applyWrite σ.regfile.reg
      (i.effect σ.pc σ.regfile.reg (window dpi σ.mem (σ.regE dpi))).regWrite ∧
    (step dpi σ).mem = memAfter dpi σ.mem σ.pc
      (i.effect σ.pc σ.regfile.reg (window dpi σ.mem (σ.regE dpi))).access :=
  step_of_effect dpi σ (effect_of_holdsWith dpi σ.mem i (hi ▸ σ.holdsWith_regE dpi))

end SeqState

end Riscv64Cpu.Pipeline
