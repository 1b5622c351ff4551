import Riscv64Cpu.Pipeline.Drain
import Riscv64Cpu.Pipeline.Hazards

set_option relaxedAutoImplicit false
set_option autoImplicit false

/-!
# Operand forwarding

Decode takes an operand from execute, memory, write back or the register file.  It should be
the value the register has once the older instructions are written back.  The multiplexer has
no case for a CSR instruction in memory, and takes the new CSR value of one in execute; for
all other producers it is exact.

## Main definitions

* `Pipeline.producerOf` — which value of an instruction write back picks.
* `Pipeline.TopCpu.OperandsExact` — decode's operands are the drained registers.
* `Pipeline.TopCpu.CsrSourceExact` — the CSR instructions in flight do no harm to a source.

## Main results

* `Pipeline.wbRegWdata_of_producer` — what write back picks, producer by producer.
* `Pipeline.TopCpu.forward_eq_iff` — the multiplexer against the drained register.
* `Pipeline.TopCpu.operandsExact_iff` — when the operands are exact.
-/

namespace Riscv64Cpu.Pipeline

open Clocked
open Verilog (bit)

/-! ## Producers -/

/-- `inst_csr_instr` is the system class with a nonzero `func3[1:0]`. -/
lemma instCsrInstr_eq (w : BitVec 32) :
    instCsrInstr w = (instSystem w && (bit (func3 w) 0 || bit (func3 w) 1)) := by
  unfold instCsrInstr instCsrrw instCsrrs instCsrrc instCsrrwi instCsrrsi instCsrrci
  generalize instSystem w = a
  generalize func3 w = f
  revert a f
  decide

/-- The kind of value an instruction produces: arithmetic result, loaded value, link address,
CSR or atomic. -/
def producerOf (opcodeInfo : BitVec 14) : List Bool :=
  [selAluResult opcodeInfo, selMemRdata opcodeInfo, selPc opcodeInfo, selCsrRdata opcodeInfo,
    bit opcodeInfo 13]

/-- An instruction that writes a register is of exactly one kind. -/
lemma producerOf_oneHot {w : BitVec 32} (h : decodeRegWen w = true) :
    producerOf (decodeOpcodeInfo w) ∈ [[true, false, false, false, false],
      [false, true, false, false, false], [false, false, true, false, false],
      [false, false, false, true, false], [false, false, false, false, true]] := by
  revert h
  simp [producerOf, selAluResult, selMemRdata, selPc, selCsrRdata, decodeOpcodeInfo, decodeRegWen,
    instIType, instUType, instRType, instJType, instCsrInstr_eq, instLoad, instJalr, instAluImm,
    instAluImmw, instLui, instAuipc, instAluReg, instAluRegw, instJal, instSystem, instAmo,
    instBranch, -List.mem_cons]
  generalize opcode w = o
  generalize bit (func3 w) 0 = a
  generalize bit (func3 w) 1 = b
  revert o a b
  decide

/-- Only an atomic instruction is `amoswap.w`. -/
lemma amoInfo_of_not_amo {w : BitVec 32} (h : instAmo w = false) :
    decodeAmoInfo w = 0#20 := by
  have hw : ∀ f5, amoW w f5 = false := by simp [amoW, h]
  have hd : ∀ f5, amoD w f5 = false := by simp [amoD, h]
  simp only [decodeAmoInfo, instLrw, instScw, instAmoswapw, instAmoaddw, instAmoxorw, instAmoorw,
    instAmominw, instAmomaxw, instAmominuw, instAmomaxuw, instLrd, instScd, instAmoswapd,
    instAmoaddd, instAmoxord, instAmoord, instAmomind, instAmomaxd, instAmominud, instAmomaxud,
    hw, hd]
  decide

/-- The write back multiplexer in terms of the selects of decode. -/
lemma wbRegWdata_eq (r : RegW) : wbRegWdata r =
    if selPc r.opcodeInfo then r.pc + 4#64
    else if selMemRdata r.opcodeInfo then r.memRdata
    else if selCsrRdata r.opcodeInfo then r.csrRdata1
    else if bit r.amoInfo 17 then r.memRdata
    else r.aluResult := by
  rw [wbRegWdata, Bool.or_comm]
  rfl

/-- **What write back picks**: the value of the producer's kind.

**Proof sketch.** The kinds exclude each other, so the order of the tests in `write_back.v`
does not matter, and the fields of `amo_info` are up for atomic instructions only. -/
theorem wbRegWdata_of_producer {r : RegW} {w : BitVec 32} (h : r.Holds w)
    (hwen : r.regWen = true) (hamo : bit r.opcodeInfo 13 = false) :
    wbRegWdata r =
      if selAluResult r.opcodeInfo then r.aluResult
      else if selMemRdata r.opcodeInfo then r.memRdata
      else if selPc r.opcodeInfo then r.pc + 4#64
      else r.csrRdata1 := by
  have hone := producerOf_oneHot (h.regWen ▸ hwen)
  rw [← h.opcodeInfo] at hone
  have hswap : bit r.amoInfo 17 = false := by
    rw [h.opcodeInfo, opcodeInfo_amo] at hamo
    rw [h.amoInfo, amoInfo_of_not_amo hamo]
    decide
  simp only [producerOf, List.mem_cons, List.cons.injEq, and_true, List.not_mem_nil,
    or_false] at hone
  obtain ⟨ha, hm, hp, hc, -⟩ | ⟨ha, hm, hp, -⟩ | ⟨ha, hm, hp, -⟩ | ⟨ha, hm, hp, hc, -⟩ |
    ⟨-, -, -, -, hx⟩ := hone
  · simp [wbRegWdata_eq, ha, hm, hp, hc, hswap]
  · simp [wbRegWdata_eq, ha, hm, hp]
  · simp [wbRegWdata_eq, ha, hm, hp]
  · simp [wbRegWdata_eq, ha, hm, hp, hc]
  · simp [hamo] at hx

/-- An instruction that writes a register and is neither a jump nor atomic has an arithmetic,
a loaded or a CSR value. -/
lemma selCsrRdata_of_producer {oi : BitVec 14} {w : BitVec 32} (ho : oi = decodeOpcodeInfo w)
    (hwen : decodeRegWen w = true) (hpc : selPc oi = false) (hamo : bit oi 13 = false) :
    selCsrRdata oi = (!selAluResult oi && !selMemRdata oi) := by
  have hone := producerOf_oneHot hwen
  rw [← ho] at hone
  simp only [producerOf, List.mem_cons, List.cons.injEq, and_true, List.not_mem_nil,
    or_false] at hone
  obtain ⟨ha, hm, -, hc, -⟩ | ⟨ha, hm, -, hc, -⟩ | ⟨-, -, hx, -⟩ | ⟨ha, hm, -, hc, -⟩ |
    ⟨-, -, -, -, hx⟩ := hone
  · simp [ha, hc]
  · simp [hm, hc]
  · simp [hpc] at hx
  · simp [ha, hm, hc]
  · simp [hamo] at hx

/-- A stage hits a register exactly when decode matches it as a source. -/
lemma applyWrite_regWrite (f : BitVec 5 → BitVec 64) (r : RegW) (rs : BitVec 5) :
    applyWrite f r.regWrite rs = if matchRs r.regRd r.regWen rs then wbRegWdata r else f rs := by
  unfold RegW.regWrite matchRs
  by_cases hw : r.regWen = true ∧ r.regRd ≠ 0#5
  · rw [if_pos hw, applyWrite, Function.update_apply]
    by_cases hrs : rs = r.regRd
    · simp [hw.1, hw.2, hrs]
    · simp [hrs, Ne.symm hrs]
  · rw [if_neg hw, applyWrite]
    have hm : (r.regRd != 0#5 && r.regWen && r.regRd == rs) = false := by
      by_contra hm
      simp only [Bool.not_eq_false, Bool.and_eq_true, bne_iff_ne] at hm
      exact hw ⟨hm.1.2, hm.1.1⟩
    simp [hm]

namespace TopCpu

variable {M : Type} {dpi : Dpi M} {s : TopCpu M}

/-! ## The three stages behind decode -/

/-- `regE_match_rs`: the instruction in execute writes `rs`. -/
def writesE (s : TopCpu M) (rs : BitVec 5) : Bool := matchRs s.regE.regRd s.regE.regWen rs

/-- `regM_match_rs`: the instruction in memory writes `rs`. -/
def writesM (s : TopCpu M) (rs : BitVec 5) : Bool := matchRs s.regM.regRd s.regM.regWen rs

/-- `regW_match_rs`: the instruction in write back writes `rs`. -/
def writesW (s : TopCpu M) (rs : BitVec 5) : Bool := matchRs s.regW.regRd s.regW.regWen rs

/-- The drained register is the write of the youngest instruction that writes it. -/
private lemma drainedReg_eq (rs : BitVec 5) : s.drainedReg dpi rs =
    if s.writesE rs then wbRegWdata (s.regWOfE dpi)
    else if s.writesM rs then wbRegWdata (s.regWOfM dpi)
    else applyWrite s.regfile.reg s.regW.regWrite rs := by
  show applyWrite (applyWrite (applyWrite s.regfile.reg s.regW.regWrite)
    (s.regWOfM dpi).regWrite) (s.regWOfE dpi).regWrite rs = _
  rw [applyWrite_regWrite, applyWrite_regWrite]
  rfl

/-- An instruction enters execute when no redirect discards it and no load holds it back. -/
lemma not_held_of_entersE (hv : s.regD.valid = true) (he : EntersE dpi s) :
    s.redirect = false ∧ s.loadUse = false := by
  rw [EntersE, step_regE] at he
  split_ifs at he with hb
  · exact absurd he (nop_ne_regEIn hv)
  · simp only [Bool.or_eq_true, not_or, Bool.not_eq_true] at hb
    exact ⟨hb.1.1.1, hb.1.1.2⟩

/-- In execute: no jump, no load of the source and no atomic instruction, so write back
picks the arithmetic result or the old CSR value. -/
private lemma wbRegWdata_regWOfE (h : Inv dpi s) (hv : s.regD.valid = true) (he : EntersE dpi s)
    {rs : BitVec 5} (hrs : rs = rs1 s.regD.instr ∨ rs = rs2 s.regD.instr)
    (hw : s.writesE rs = true) :
    wbRegWdata (s.regWOfE dpi) =
      if selCsrRdata s.regE.opcodeInfo then s.regE.csrRdata1 else executeAluResult s.regE := by
  obtain ⟨w, hh, -⟩ := h.holdsE
  obtain ⟨hr, hl⟩ := not_held_of_entersE hv he
  simp only [writesE, matchRs, Bool.and_eq_true, beq_iff_eq, bne_iff_ne] at hw
  have hwen : decodeRegWen w = true := hh.regWen ▸ hw.1.2
  have hamo : bit s.regE.opcodeInfo 13 = false := (not_amo_of_regD_valid h hv).1
  have hmem : selMemRdata s.regE.opcodeInfo = false := by
    simp only [loadUse, Pipeline.loadUse, hw.2, Bool.and_eq_false_iff, Bool.or_eq_false_iff,
      beq_eq_false_iff_ne] at hl
    obtain ⟨h1, h2⟩ | hl := hl
    · exact absurd hrs (not_or.mpr ⟨h1, h2⟩)
    · exact hl
  have hpc : selPc s.regE.opcodeInfo = false := by
    simp only [redirect, executeBranchNeedJump, Bool.or_eq_false_iff] at hr
    simpa [selPc, RegE.opJal, RegE.opJalr, and_comm] using hr.1.2
  have hcsr := selCsrRdata_of_producer hh.opcodeInfo hwen hpc hamo
  rw [wbRegWdata_of_producer (r := s.regWOfE dpi) (RegW.holds_latch (RegM.holds_latch hh _) _)
    hw.1.2 hamo]
  show (if selAluResult s.regE.opcodeInfo then executeAluResult s.regE
    else if selMemRdata s.regE.opcodeInfo then _ else if selPc s.regE.opcodeInfo then _
    else s.regE.csrRdata1) = _
  rw [hcsr, hmem, hpc]
  cases selAluResult s.regE.opcodeInfo <;> simp

/-- In memory: no jump and no atomic instruction. -/
lemma wbRegWdata_regWOfM (h : Inv dpi s) (hv : s.regD.valid = true) {rs : BitVec 5}
    (hw : s.writesM rs = true) :
    wbRegWdata (s.regWOfM dpi) =
        (if selAluResult s.regM.opcodeInfo then s.regM.aluResult
        else if selMemRdata s.regM.opcodeInfo then s.memoryMemRdata dpi
        else s.regM.csrRdata1) ∧
      selCsrRdata s.regM.opcodeInfo =
        (!selAluResult s.regM.opcodeInfo && !selMemRdata s.regM.opcodeInfo) := by
  obtain ⟨w, hh, -⟩ := h.holdsM
  simp only [writesM, matchRs, Bool.and_eq_true, beq_iff_eq, bne_iff_ne] at hw
  have hamo : bit s.regM.opcodeInfo 13 = false := (not_amo_of_regD_valid h hv).2
  have hpc : selPc s.regM.opcodeInfo = false := by
    by_contra hj
    rw [Bool.not_eq_false, selPc, Bool.or_comm] at hj
    exact regD_ne_nop hv (h.behindJumpM hj)
  refine ⟨?_, selCsrRdata_of_producer hh.opcodeInfo (hh.regWen ▸ hw.1.2) hpc hamo⟩
  rw [wbRegWdata_of_producer (r := s.regWOfM dpi) (RegW.holds_latch hh _) hw.1.2 hamo]
  show (if selAluResult s.regM.opcodeInfo then s.regM.aluResult
    else if selMemRdata s.regM.opcodeInfo then s.memoryMemRdata dpi
    else if selPc s.regM.opcodeInfo then _ else s.regM.csrRdata1) = _
  rw [hpc]
  rfl

/-- In write back: no atomic instruction. -/
private lemma wbRegWdata_regW (h : Inv dpi s) (hv : s.regD.valid = true) {rs : BitVec 5}
    (hw : s.writesW rs = true) :
    wbRegWdata s.regW =
      if selAluResult s.regW.opcodeInfo then s.regW.aluResult
      else if selMemRdata s.regW.opcodeInfo then s.regW.memRdata
      else if selPc s.regW.opcodeInfo then s.regW.pc + 4#64
      else s.regW.csrRdata1 := by
  obtain ⟨w, hh, -⟩ := h.holdsW
  simp only [writesW, matchRs, Bool.and_eq_true, beq_iff_eq, bne_iff_ne] at hw
  have hamo : bit s.regW.opcodeInfo 13 = false := by
    by_contra ha
    rw [Bool.not_eq_false] at ha
    exact regD_ne_nop hv (h.behindAmoW ha).1
  exact wbRegWdata_of_producer hh hw.1.2 hamo

/-! ## The multiplexer of decode -/

/-- The part of the multiplexer behind execute and memory is exact. -/
private lemma forward_behindM (h : Inv dpi s) (hv : s.regD.valid = true) (rs : BitVec 5) :
    (if s.writesW rs && selAluResult s.regW.opcodeInfo then s.regW.aluResult
      else if s.writesW rs && selMemRdata s.regW.opcodeInfo then s.regW.memRdata
      else if s.writesW rs && selPc s.regW.opcodeInfo then s.regW.pc + 4#64
      else if s.writesW rs && selCsrRdata s.regW.opcodeInfo then s.regW.csrRdata1
      else s.regfile.reg rs) = applyWrite s.regfile.reg s.regW.regWrite rs := by
  rw [applyWrite_regWrite]
  cases hw : s.writesW rs with
  | false => simp [show matchRs s.regW.regRd s.regW.regWen rs = false from hw]
  | true =>
    rw [wbRegWdata_regW h hv hw, if_pos (show matchRs s.regW.regRd s.regW.regWen rs = true from hw)]
    have hsel : selAluResult s.regW.opcodeInfo = false → selMemRdata s.regW.opcodeInfo = false →
        selPc s.regW.opcodeInfo = false → selCsrRdata s.regW.opcodeInfo = true := by
      intro ha hm hp
      obtain ⟨w, hh, -⟩ := h.holdsW
      have hwen : s.regW.regWen = true := by
        simp only [writesW, matchRs, Bool.and_eq_true] at hw
        exact hw.1.2
      have hamo : bit s.regW.opcodeInfo 13 = false := by
        by_contra ha
        rw [Bool.not_eq_false] at ha
        exact regD_ne_nop hv (h.behindAmoW ha).1
      rw [selCsrRdata_of_producer hh.opcodeInfo (hh.regWen ▸ hwen) hp hamo, ha, hm]
      rfl
    simp only [Bool.true_and]
    split_ifs with ha hm hp hc
    · rfl
    · rfl
    · rfl
    · rfl
    · simp [hsel (by simpa using ha) (by simpa using hm) (by simpa using hp)] at hc

/-- **The multiplexer**: the arithmetic result of execute, the result of a non-CSR instruction
in memory, or the value the register has after the next edge. -/
theorem forward_eq (h : Inv dpi s) (hv : s.regD.valid = true) (rs : BitVec 5) :
    forward (s.bypass dpi) rs (s.regfile.read rs) =
      if s.writesE rs then executeAluResult s.regE
      else if s.writesM rs && !selCsrRdata s.regM.opcodeInfo then wbRegWdata (s.regWOfM dpi)
      else applyWrite s.regfile.reg s.regW.regWrite rs := by
  rw [← forward_behindM h hv rs, ← Regfile.read_eq]
  show (if s.writesE rs then _ else if s.writesM rs && selAluResult s.regM.opcodeInfo then _
    else if s.writesM rs && selMemRdata s.regM.opcodeInfo then _ else _) = _
  cases hw : s.writesM rs with
  | false => rfl
  | true =>
    obtain ⟨hwb, hcsr⟩ := wbRegWdata_regWOfM h hv hw
    rw [hwb, hcsr]
    cases ha : selAluResult s.regM.opcodeInfo <;> cases hm : selMemRdata s.regM.opcodeInfo <;> rfl

/-- The CSR instructions in execute and memory do not spoil the source `rs`: one in execute
leaves the CSR as it was, and one in memory with nothing younger behind it read the value the
register is about to have anyway. -/
structure CsrSourceExact (s : TopCpu M) (rs : BitVec 5) : Prop where
  execute : s.writesE rs = true → selCsrRdata s.regE.opcodeInfo = true →
    executeAluResult s.regE = s.regE.csrRdata1
  memory : s.writesE rs = false → s.writesM rs = true → selCsrRdata s.regM.opcodeInfo = true →
    applyWrite s.regfile.reg s.regW.regWrite rs = s.regM.csrRdata1

instance (s : TopCpu M) (rs : BitVec 5) : Decidable (CsrSourceExact s rs) :=
  decidable_of_iff
    ((s.writesE rs = true → selCsrRdata s.regE.opcodeInfo = true →
        executeAluResult s.regE = s.regE.csrRdata1) ∧
      (s.writesE rs = false → s.writesM rs = true → selCsrRdata s.regM.opcodeInfo = true →
        applyWrite s.regfile.reg s.regW.regWrite rs = s.regM.csrRdata1))
    ⟨fun h => ⟨h.1, h.2⟩, fun h => ⟨h.execute, h.memory⟩⟩

/-- The multiplexer gives the drained register exactly when no CSR instruction spoils it. -/
theorem forward_eq_iff (h : Inv dpi s) (hv : s.regD.valid = true) (he : EntersE dpi s)
    {rs : BitVec 5} (hrs : rs = rs1 s.regD.instr ∨ rs = rs2 s.regD.instr) :
    forward (s.bypass dpi) rs (s.regfile.read rs) = s.drainedReg dpi rs ↔
      CsrSourceExact s rs := by
  rw [forward_eq h hv, drainedReg_eq]
  cases hwe : s.writesE rs with
  | true =>
    rw [wbRegWdata_regWOfE h hv he hrs hwe]
    cases hc : selCsrRdata s.regE.opcodeInfo with
    | true => simpa using ⟨fun hx => ⟨fun _ _ => hx, by simp [hwe]⟩, fun hx => hx.execute hwe hc⟩
    | false => simpa using ⟨by simp [hc], by simp [hwe]⟩
  | false =>
    cases hwm : s.writesM rs with
    | false => simpa using ⟨by simp [hwe], by simp [hwm]⟩
    | true =>
      obtain ⟨hwb, hcsr⟩ := wbRegWdata_regWOfM h hv hwm
      cases hc : selCsrRdata s.regM.opcodeInfo with
      | false => simpa using ⟨by simp [hwe], by simp [hc]⟩
      | true =>
        rw [hc, eq_comm, Bool.and_eq_true, Bool.not_eq_true', Bool.not_eq_true'] at hcsr
        rw [hcsr.1, hcsr.2] at hwb
        simp only [Bool.false_eq_true, if_false] at hwb
        simpa [hwb] using
          ⟨fun hx => ⟨by simp [hwe], fun _ _ _ => hx⟩, fun hx => hx.memory hwe hwm hc⟩

/-- The operands that decode hands on are the registers after all older instructions. -/
structure OperandsExact (dpi : Dpi M) (s : TopCpu M) : Prop where
  regdata1 : (s.decodeOut dpi).regdata1 = s.drainedReg dpi (rs1 s.regD.instr)
  regdata2 : (s.decodeOut dpi).regdata2 = s.drainedReg dpi (rs2 s.regD.instr)

/-- They are when no CSR instruction spoils the sources of a valid instruction. -/
lemma operandsExact_of_sources (h : Inv dpi s) (hv : s.regD.valid = true) (he : EntersE dpi s)
    (hs : CsrSourceExact s (rs1 s.regD.instr) ∧ CsrSourceExact s (rs2 s.regD.instr)) :
    OperandsExact dpi s :=
  ⟨(forward_eq_iff h hv he (.inl rfl)).mpr hs.1, (forward_eq_iff h hv he (.inr rfl)).mpr hs.2⟩

/-- Nothing spoils or forwards `x0`. -/
lemma csrSourceExact_zero (s : TopCpu M) : CsrSourceExact s 0#5 := by
  constructor <;> simp [writesE, writesM]

/-- The operands of a bubble are `x0`. -/
private lemma operandsExact_of_nop (hd : s.regD = RegD.nop) : OperandsExact dpi s := by
  have hz : forward (s.bypass dpi) 0#5 (s.regfile.read 0#5) = 0#64 := by
    simp [forward, s.regfile.x0]
  have h1 : rs1 s.regD.instr = 0#5 := by rw [hd]; decide
  have h2 : rs2 s.regD.instr = 0#5 := by rw [hd]; decide
  constructor
  · show forward _ (rs1 s.regD.instr) _ = _
    rw [h1, hz, drainedReg_zero]
  · show forward _ (rs2 s.regD.instr) _ = _
    rw [h2, hz, drainedReg_zero]

/-- **When forwarding is exact**: in every reachable state in which decode hands its
instruction on, its two operands are the registers after the older instructions have been
written back, if and only if no CSR instruction in execute or memory spoils one of the two
sources.

**Proof sketch.** The sources of a bubble are `x0`.  For a valid instruction the invariant
leaves no atomic instruction in execute, memory and write back and no jump in memory, and the
instruction is handed on only when execute has neither a jump nor a load of a source; the
other producers are compared stage by stage (`forward_eq_iff`). -/
theorem operandsExact_iff (h : Reachable dpi s) (he : EntersE dpi s) :
    OperandsExact dpi s ↔
      CsrSourceExact s (rs1 s.regD.instr) ∧ CsrSourceExact s (rs2 s.regD.instr) := by
  obtain hd | ⟨mem, hd, -⟩ := h.inv.fetched
  · have h1 : rs1 s.regD.instr = 0#5 := by rw [hd]; decide
    have h2 : rs2 s.regD.instr = 0#5 := by rw [hd]; decide
    rw [h1, h2]
    exact ⟨fun _ => ⟨csrSourceExact_zero s, csrSourceExact_zero s⟩,
      fun _ => operandsExact_of_nop hd⟩
  · have hv : s.regD.valid = true := by
      rw [hd]
      simp [RegD.latch, RegD.valid, fetch]
    rw [← forward_eq_iff h.inv hv he (.inl rfl), ← forward_eq_iff h.inv hv he (.inr rfl)]
    exact ⟨fun hx => ⟨hx.regdata1, hx.regdata2⟩, fun hx => ⟨hx.1, hx.2⟩⟩

/-- Two edges after reset `addi x5, x0, 7` feeds `add x7, x5, x0` from execute. -/
theorem operandsExact_addi :
    OperandsExact Memory.dpi (run Memory.dpi 2 (Memory.boot [0x00700293#32, 0x000283B3#32])) :=
  (operandsExact_iff ((reachable_afterReset ..).run 2) (by decide +kernel)).mpr
    ⟨⟨by decide +kernel, by decide +kernel⟩, ⟨by decide +kernel, by decide +kernel⟩⟩

/-- `addi x6, x0, 3`, `csrrw x5, mscratch, x6` and `add x7, x5, x0`. -/
def addAfterCsrrw : List (BitVec 32) := [0x00300313#32, 0x340312F3#32, 0x000283B3#32]

/-- Three edges after reset the CSR instruction is in execute and the addition in decode takes
the new value of `mscratch` for `x5`. -/
theorem csr_misforwarded : ¬ ∀ (M : Type) (dpi : Dpi M) (s : TopCpu M), Reachable dpi s →
    EntersE dpi s → OperandsExact dpi s := by
  intro h
  have hs := h _ Memory.dpi (run Memory.dpi 3 (Memory.boot addAfterCsrrw))
    ((reachable_afterReset ..).run 3) (by decide +kernel)
  have hd := hs.regdata1
  revert hd
  decide +kernel

end TopCpu

end Riscv64Cpu.Pipeline
