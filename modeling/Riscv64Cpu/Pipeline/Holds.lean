import Riscv64Cpu.Pipeline.TopCpu

set_option relaxedAutoImplicit false
set_option autoImplicit false

/-!
# The instruction a stage register holds

The control outputs of `regE`, `regM` and `regW` always are the decoder's outputs for one
instruction word.  For a valid instruction that word is the one in its commit information; a
cleared register has the outputs of the word `0`, and a bubble that came through decode those
of the nop instruction.

## Main definitions

* `Pipeline.RegE.Holds`, `RegM.Holds`, `RegW.Holds` — the control outputs are those of a word.
* `Pipeline.RegE.Classes` — the class bits of execute are the classes of a word.
* `Pipeline.InFlight` — the word that belongs to the commit information of a stage.

## Main results

* `Pipeline.RegE.Holds.of_redirect` — which instructions redirect.
* `Pipeline.RegE.Holds.operands` — the operands of the arithmetic unit, class by class.
* `Pipeline.Bubble.inert` — the words of bubbles request and write nothing.
-/

namespace Riscv64Cpu.Pipeline

/-! ## Control outputs -/

/-- `regE` holds the control outputs of the instruction word `w`. -/
structure RegE.Holds (e : RegE) (w : BitVec 32) : Prop where
  opcodeInfo : e.opcodeInfo = decodeOpcodeInfo w
  branchInfo : e.branchInfo = decodeBranchInfo w
  loadStoreInfo : e.loadStoreInfo = decodeLoadStoreInfo w
  aluInfo : e.aluInfo = decodeAluInfo w
  csrrwInfo : e.csrrwInfo = decodeCsrrwInfo w
  systemInfo : e.systemInfo = decodeSystemInfo w
  amoInfo : e.amoInfo = decodeAmoInfo w
  imm : e.imm = decodeImm w
  csrWid : e.csrWid = decodeCsrWid w
  csrWen : e.csrWen = decodeCsrWen w
  regRd : e.regRd = rd w
  regWen : e.regWen = decodeRegWen w

/-- `regM` holds the control outputs of the instruction word `w`. -/
structure RegM.Holds (m : RegM) (w : BitVec 32) : Prop where
  loadStoreInfo : m.loadStoreInfo = decodeLoadStoreInfo w
  opcodeInfo : m.opcodeInfo = decodeOpcodeInfo w
  csrrwInfo : m.csrrwInfo = decodeCsrrwInfo w
  systemInfo : m.systemInfo = decodeSystemInfo w
  amoInfo : m.amoInfo = decodeAmoInfo w
  csrWid : m.csrWid = decodeCsrWid w
  csrWen : m.csrWen = decodeCsrWen w
  regRd : m.regRd = rd w
  regWen : m.regWen = decodeRegWen w

/-- `regW` holds the control outputs of the instruction word `w`. -/
structure RegW.Holds (r : RegW) (w : BitVec 32) : Prop where
  opcodeInfo : r.opcodeInfo = decodeOpcodeInfo w
  csrrwInfo : r.csrrwInfo = decodeCsrrwInfo w
  systemInfo : r.systemInfo = decodeSystemInfo w
  amoInfo : r.amoInfo = decodeAmoInfo w
  csrWid : r.csrWid = decodeCsrWid w
  csrWen : r.csrWen = decodeCsrWen w
  regRd : r.regRd = rd w
  regWen : r.regWen = decodeRegWen w

/-- A cleared `regE` holds the word `0`. -/
lemma RegE.holds_nop : RegE.nop.Holds 0#32 := by constructor <;> decide

/-- A cleared `regM` holds the word `0`. -/
lemma RegM.holds_nop : RegM.nop.Holds 0#32 := by constructor <;> decide

/-- A cleared `regW` holds the word `0`. -/
lemma RegW.holds_nop : RegW.nop.Holds 0#32 := by constructor <;> decide

/-- `regE` samples the control outputs of the decoded word. -/
lemma RegE.holds_latch (b : Bypass) (rf : Regfile) (cf : Csrfile) (w : BitVec 32)
    (pc : BitVec 64) (ci : BitVec 161) : (RegE.latch (decode b rf cf w) pc ci).Holds w := by
  constructor <;> rfl

/-- `regM` samples the control outputs of `regE`. -/
lemma RegM.holds_latch {e : RegE} {w : BitVec 32} (h : e.Holds w) (x : ExecuteOut) :
    (RegM.latch e x).Holds w where
  loadStoreInfo := h.loadStoreInfo
  opcodeInfo := h.opcodeInfo
  csrrwInfo := h.csrrwInfo
  systemInfo := h.systemInfo
  amoInfo := h.amoInfo
  csrWid := h.csrWid
  csrWen := h.csrWen
  regRd := h.regRd
  regWen := h.regWen

/-- `regW` samples the control outputs of `regM`. -/
lemma RegW.holds_latch {m : RegM} {w : BitVec 32} (h : m.Holds w) (rdata : BitVec 64) :
    (RegW.latch m rdata).Holds w where
  opcodeInfo := h.opcodeInfo
  csrrwInfo := h.csrrwInfo
  systemInfo := h.systemInfo
  amoInfo := h.amoInfo
  csrWid := h.csrWid
  csrWen := h.csrWen
  regRd := h.regRd
  regWen := h.regWen

/-! ## Classes -/

/-- The classes of the instructions that can redirect the program counter. -/
def redirectClass (w : BitVec 32) : Bool := instBranch w || instJal w || instJalr w || instMret w

/-- A CSR instruction is a system instruction. -/
lemma instSystem_of_instCsrInstr {w : BitVec 32} (h : instCsrInstr w) : instSystem w := by
  simp only [instCsrInstr, instCsrrw, instCsrrs, instCsrrc, instCsrrwi, instCsrrsi, instCsrrci,
    Bool.or_eq_true, Bool.and_eq_true] at h
  tauto

/-- `mret` is a system instruction. -/
lemma instSystem_of_instMret {w : BitVec 32} (h : instMret w) : instSystem w := by
  rw [instMret, beq_iff_eq] at h
  subst h
  decide

/-- Only system instructions are `mret` or a CSR instruction. -/
lemma not_mret_csr_of_not_system {w : BitVec 32} (h : instSystem w = false) :
    instMret w = false ∧ instCsrInstr w = false := by
  constructor
  · by_contra hm
    rw [Bool.not_eq_false] at hm
    simp [instSystem_of_instMret hm] at h
  · by_contra hc
    rw [Bool.not_eq_false] at hc
    simp [instSystem_of_instCsrInstr hc] at h

/-- `mret` is not a CSR instruction. -/
lemma not_instCsrInstr_of_instMret {w : BitVec 32} (h : instMret w) : instCsrInstr w = false := by
  rw [instMret, beq_iff_eq] at h
  subst h
  decide

/-- A CSR instruction is not `mret`. -/
lemma not_instMret_of_instCsrInstr {w : BitVec 32} (h : instCsrInstr w) : instMret w = false := by
  by_contra hm
  rw [Bool.not_eq_false] at hm
  simp [not_instCsrInstr_of_instMret hm] at h

/-- A CSR instruction reads the CSR in its own field. -/
lemma csrRid1_of_csrInstr {w : BitVec 32} (h : instCsrInstr w = true) : csrRid1 w = csrId w := by
  simp [csrRid1, not_instMret_of_instCsrInstr h]

/-- A CSR instruction writes the CSR in its own field. -/
lemma csrWrite_of_csrInstr {w : BitVec 32} (h : instCsrInstr w = true) :
    decodeCsrWid w = csrId w ∧ decodeCsrWen w = true := by
  simp [decodeCsrWid, decodeCsrWen, not_instMret_of_instCsrInstr h, h]

/-- An instruction that redirects is neither a load nor an atomic instruction. -/
lemma not_load_amo_of_redirectClass {w : BitVec 32} (h : redirectClass w) :
    instLoad w = false ∧ instAmo w = false := by
  have hop : opcode w = 0b1100011#7 ∨ opcode w = 0b1101111#7 ∨ opcode w = 0b1100111#7 ∨
      opcode w = 0b1110011#7 := by
    simp only [redirectClass, Bool.or_eq_true] at h
    obtain ((h | h) | h) | h := h
    · exact .inl (eq_of_beq h)
    · exact .inr (.inl (eq_of_beq h))
    · exact .inr (.inr (.inl (eq_of_beq h)))
    · exact .inr (.inr (.inr (eq_of_beq (instSystem_of_instMret h))))
  unfold instLoad instAmo
  obtain hop | hop | hop | hop := hop <;> rw [hop] <;> decide

/-- Execute requests a redirect only for a branch, `jal`, `jalr` or `mret`.

**Proof sketch.** Each disjunct of the branch decision carries the info bit of one branch
instruction or jump, and the `mret` request is an info bit. -/
theorem RegE.Holds.of_redirect {e : RegE} {w : BitVec 32} (h : e.Holds w)
    (hr : (executeBranchNeedJump e || e.mret) = true) : redirectClass w = true := by
  have hb : e.beq = true ∨ e.bne = true ∨ e.blt = true ∨ e.bge = true ∨ e.bltu = true ∨
      e.bgeu = true ∨ e.opJal = true ∨ e.opJalr = true ∨ e.mret = true := by
    simp only [executeBranchNeedJump, Bool.or_eq_true, Bool.and_eq_true] at hr
    tauto
  simp only [RegE.beq, RegE.bne, RegE.blt, RegE.bge, RegE.bltu, RegE.bgeu, RegE.opJal,
    RegE.opJalr, RegE.mret, h.branchInfo, h.opcodeInfo, h.systemInfo] at hb
  simp [decodeBranchInfo, decodeSystemInfo, instBeq, instBne, instBlt, instBge, instBltu,
    instBgeu] at hb
  simp only [redirectClass, Bool.or_eq_true]
  tauto

/-- `mret` is no branch: the two requests do not meet. -/
lemma RegE.Holds.not_branchNeedJump_of_mret {e : RegE} {w : BitVec 32} (h : e.Holds w)
    (hm : e.mret = true) : executeBranchNeedJump e = false := by
  have hw : instMret w = true := by
    rw [RegE.mret, h.systemInfo] at hm
    simpa [decodeSystemInfo] using hm
  rw [instMret, beq_iff_eq] at hw
  have hb : e.branchInfo = 0#6 := by rw [h.branchInfo, hw]; decide
  have hj : instJal w = false ∧ instJalr w = false := by rw [hw]; decide
  simp [executeBranchNeedJump, RegE.beq, RegE.bne, RegE.blt, RegE.bge, RegE.bltu, RegE.bgeu, hb,
    RegE.opJal, RegE.opJalr, h.opcodeInfo, hj]

/-! ## Operands -/

/-- The result of the arithmetic unit, class by class: the operands that execute selects. -/
structure RegE.Operands (e : RegE) (w : BitVec 32) : Prop where
  lui : instLui w → executeAluResult e = e.imm
  pcRelative : instAuipc w ∨ instJal w ∨ instBranch w → executeAluResult e = e.pc + e.imm
  baseOffset : instJalr w ∨ instLoad w ∨ instStore w →
    executeAluResult e = e.regdata1 + e.imm
  reg : instAluReg w ∨ instAluRegw w →
    executeAluResult e = aluResultOf e e.regdata1 e.regdata2
  regImm : instAluImm w ∨ instAluImmw w →
    executeAluResult e = aluResultOf e e.regdata1 e.imm
  system : instSystem w → executeAluResult e =
    aluResultOf e (if instCsrInstr w then e.regdata1 else 0#64)
      (if instCsrInstr w then e.csrRdata1 else 0#64)

/-- The class bits of execute are the classes of the word `w`. -/
structure RegE.Classes (e : RegE) (w : BitVec 32) : Prop where
  opCsrrw : e.opCsrrw = instCsrInstr w
  opLui : e.opLui = instLui w
  opAuipc : e.opAuipc = instAuipc w
  opJal : e.opJal = instJal w
  opJalr : e.opJalr = instJalr w
  opAluReg : e.opAluReg = instAluReg w
  opAluRegw : e.opAluRegw = instAluRegw w
  opAluImm : e.opAluImm = instAluImm w
  opAluImmw : e.opAluImmw = instAluImmw w
  opLoad : e.opLoad = instLoad w
  opStore : e.opStore = instStore w
  opBranch : e.opBranch = instBranch w

/-- Execute finds the class of the instruction that `regE` holds. -/
lemma RegE.Holds.classes {e : RegE} {w : BitVec 32} (h : e.Holds w) : e.Classes w := by
  constructor <;>
    simp [RegE.opCsrrw, RegE.opLui, RegE.opAuipc, RegE.opJal, RegE.opJalr, RegE.opAluReg,
      RegE.opAluRegw, RegE.opAluImm, RegE.opAluImmw, RegE.opLoad, RegE.opStore, RegE.opBranch,
      h.opcodeInfo, decodeOpcodeInfo]

/-- **Operand selection**: the priority multiplexers of execute follow the class of the word.

**Proof sketch.** The opcode decides every class bit but that of the CSR instructions, so for
a given opcode one arm of each multiplexer is left. -/
theorem RegE.Holds.operands {e : RegE} {w : BitVec 32} (h : e.Holds w) : e.Operands w := by
  obtain ⟨hc, hlui, hauipc, hjal, hjalr, hreg, hregw, himm, himmw, hload, hstore, hbranch⟩ :=
    h.classes
  constructor <;>
    simp only [executeAluResult, aluSrc1, aluSrc2, hc, hlui, hauipc, hjal, hjalr, hreg, hregw, himm,
      himmw, hload, hstore, hbranch, instLui, instAuipc, instBranch, instStore, instJal, instJalr,
      instLoad, instAluReg, instAluRegw, instAluImm, instAluImmw, instSystem, beq_iff_eq]
  case lui =>
    intro ho
    simp [ho]
  case pcRelative =>
    rintro (ho | ho | ho) <;> simp [ho]
  case baseOffset =>
    rintro (ho | ho | ho) <;> simp [ho]
  case reg =>
    rintro (ho | ho) <;> simp [ho]
  case regImm =>
    rintro (ho | ho) <;> simp [ho]
  case system =>
    intro ho
    simp [ho]

/-! ## The words of bubbles -/

/-- The words whose control outputs a bubble carries: `0` in a cleared register, the nop
instruction in a bubble that came through decode. -/
def Bubble (w : BitVec 32) : Prop := w = 0#32 ∨ w = nopInstr

/-- The word `w` belongs to a stage with commit information `ci`. -/
def InFlight (ci : BitVec 161) (w : BitVec 32) : Prop :=
  if commitBit ci then w = commitInstr ci else Bubble w

/-- A cleared stage carries the word `0`. -/
lemma inFlight_zero : InFlight 0#161 0#32 := by
  simp [InFlight, Bubble]

/-- The word of a stage that is not valid is that of a bubble. -/
lemma InFlight.bubble {ci : BitVec 161} {w : BitVec 32} (h : InFlight ci w)
    (hc : commitBit ci = false) : Bubble w := by
  simpa [InFlight, hc] using h

/-- The word of a valid stage is the one in its commit information. -/
lemma InFlight.eq {ci : BitVec 161} {w : BitVec 32} (h : InFlight ci w)
    (hc : commitBit ci = true) : w = commitInstr ci := by
  simpa [InFlight, hc] using h

/-- The word `w` asks for no redirect, no memory access, no CSR write and no write to a nonzero
register. -/
structure Inert (w : BitVec 32) : Prop where
  redirect : redirectClass w = false
  amo : instAmo w = false
  load : instLoad w = false
  csrInstr : instCsrInstr w = false
  loadStoreInfo : decodeLoadStoreInfo w = 0#11
  amoInfo : decodeAmoInfo w = 0#20
  systemInfo : decodeSystemInfo w = 0#7
  csrWen : decodeCsrWen w = false
  regRd : rd w = 0#5

/-- **Bubbles are inert**: the control outputs of a bubble ask for no redirect, no memory
access, no CSR write and no write to a nonzero register. -/
theorem Bubble.inert {w : BitVec 32} (h : Bubble w) : Inert w := by
  obtain rfl | rfl := h <;> constructor <;> decide

end Riscv64Cpu.Pipeline
