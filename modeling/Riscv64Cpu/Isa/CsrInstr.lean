import Riscv64Cpu.Isa.Correctness
import Riscv64Cpu.Isa.Zicsr

set_option relaxedAutoImplicit false
set_option autoImplicit false

/-!
# Zicsr on the processor

The CSR instructions from decode to write back, against the instruction set.  The old value goes
to the destination register.  Execute combines it with the source register in all six
instructions, so an instruction with an immediate uses the register whose number the immediate
is.

## Main definitions

* `Pipeline.decoded` — the instruction that decode hands to execute.
* `Pipeline.sourceValue` — the value of a source register in decode.
* `Pipeline.Exchanges` — what an instruction of Zicsr owes.

## Main results

* `Pipeline.exists_encode` — every word that decode takes for a CSR instruction is an encoding.
* `Pipeline.csrInstr_writes` — what the stages make of a CSR instruction.
* `Pipeline.exchanges_iff` — when that is what the instruction owes.
-/

namespace Riscv64Cpu.Pipeline

open Zicsr

/-! ## Info bits -/

/-- The bit of an instruction in `csrrw_info`. -/
def csrOpBit : Op → ℕ
  | .csrrw => 5
  | .csrrs => 4
  | .csrrc => 3
  | .csrrwi => 2
  | .csrrsi => 1
  | .csrrci => 0

section Encoding

variable (op : Op) (rd src : BitVec 5) (csr : BitVec 12)

/-- The fields of an instruction, by the names of `decode.v`. -/
lemma fields_csrInstr : opcode (op.encode rd src csr) = 0b1110011#7 ∧
    func3 (op.encode rd src csr) = op.funct3 ∧ Pipeline.rd (op.encode rd src csr) = rd ∧
    rs1 (op.encode rd src csr) = src ∧ csrId (op.encode rd src csr) = csr := by
  obtain ⟨ho, hrd, h3, hrs1, hcsr, -⟩ :=
    Rv64i.extract_encodeI 0b1110011#7 op.funct3 rd src csr
  exact ⟨ho, h3, hrd, hrs1, hcsr⟩

/-- The decoder takes an instruction for a CSR instruction. -/
lemma instCsrInstr_encode : instCsrInstr (op.encode rd src csr) = true := by
  obtain ⟨ho, h3, -⟩ := fields_csrInstr op rd src csr
  simp only [instCsrInstr, instCsrrw, instCsrrs, instCsrrc, instCsrrwi, instCsrrsi, instCsrrci,
    instSystem, ho, h3]
  cases op <;> decide

/-- `csrrw_info` of an instruction. -/
private lemma decodeCsrrwInfo_encode :
    decodeCsrrwInfo (op.encode rd src csr) = BitVec.twoPow 6 (csrOpBit op) := by
  obtain ⟨ho, h3, -⟩ := fields_csrInstr op rd src csr
  simp only [decodeCsrrwInfo, instCsrrw, instCsrrs, instCsrrc, instCsrrwi, instCsrrsi, instCsrrci,
    instSystem, ho, h3]
  cases op <;> decide

end Encoding

/-- Every word is the concatenation of its fields in format I. -/
private lemma encodeI_fields (w : BitVec 32) :
    Rv64i.encodeI (opcode w) (func3 w) (rd w) (rs1 w) (csrId w) = w := by
  have hjoin : w.extractLsb' 20 12 ++ w.extractLsb' 15 5 ++ w.extractLsb' 12 3 ++
      w.extractLsb' 7 5 ++ w.extractLsb' 0 7 = w := by
    rw [@Rv64i.extract_join _ 15 12 5, @Rv64i.extract_join _ 12 (12 + 5) 3,
      @Rv64i.extract_join _ 7 (12 + 5 + 3) 5, @Rv64i.extract_join _ 0 (12 + 5 + 3 + 5) 7]
    exact BitVec.extractLsb'_eq_self
  exact hjoin

/-- Every CSR instruction is the encoding of an instruction of Zicsr with its fields. -/
theorem exists_encode {w : BitVec 32} (h : instCsrInstr w = true) :
    ∃ op : Op, op.encode (rd w) (rs1 w) (csrId w) = w := by
  have ho : opcode w = 0b1110011#7 := eq_of_beq (instSystem_of_instCsrInstr h)
  have h3 : ∃ op : Op, func3 w = op.funct3 := by
    simp only [instCsrInstr, instCsrrw, instCsrrs, instCsrrc, instCsrrwi, instCsrrsi, instCsrrci,
      Bool.or_eq_true, Bool.and_eq_true, beq_iff_eq] at h
    rcases h with ((((h | h) | h) | h) | h) | h
    · exact ⟨.csrrw, h.2⟩
    · exact ⟨.csrrs, h.2⟩
    · exact ⟨.csrrc, h.2⟩
    · exact ⟨.csrrwi, h.2⟩
    · exact ⟨.csrrsi, h.2⟩
    · exact ⟨.csrrci, h.2⟩
  obtain ⟨op, h3⟩ := h3
  refine ⟨op, ?_⟩
  rw [Op.encode, ← ho, ← h3]
  exact encodeI_fields w

/-- The result multiplexer for the bit of an instruction. -/
private lemma aluResultOf_csrOp {e : RegE} (a b : BitVec 64) (op : Op) (h : e.aluInfo = 0#28)
    (hi : e.csrrwInfo = BitVec.twoPow 6 (csrOpBit op)) : aluResultOf e a b = op.newValue b a := by
  rw [aluResultOf_system a b h]
  cases op <;>
    simp [RegE.csrrw, RegE.csrrs, RegE.csrrc, RegE.csrrwi, RegE.csrrsi, RegE.csrrci, hi, csrOpBit,
      Op.newValue]

/-! ## From decode to write back -/

/-- The instruction `w` in `regE`, decoded with the bypass inputs `b` and the given files. -/
def decoded (b : Bypass) (regfile : Regfile) (csrfile : Csrfile) (w : BitVec 32)
    (pc : BitVec 64) (ci : BitVec 161) : RegE :=
  RegE.latch (decode b regfile csrfile w) pc ci

/-- The value of the source register `rs` in decode: from the bypass network or the file. -/
def sourceValue (b : Bypass) (regfile : Regfile) (rs : BitVec 5) : BitVec 64 :=
  forward b rs (regfile.read rs)

/-- The instruction `op rd, csr, …` in write back exchanges: it writes the old value `c` of the
CSR to `rd`, and the new value for the source value `y` to the CSR. -/
structure Exchanges (r : RegW) (op : Op) (rd : BitVec 5) (csr : BitVec 12) (c y : BitVec 64) :
    Prop where
  regWrite : r.regWrite = Rv64i.write rd c
  csrWrite : r.csrWrite = some (csr, op.newValue c y)

section Stages

variable {M : Type} (dpi : Dpi M) (mem : M) (b : Bypass) (regfile : Regfile) (csrfile : Csrfile)
  (pc : BitVec 64) (ci : BitVec 161)

/-- **CSR instructions in the stages**: the old value goes to the destination, and the new value
comes from the source register, in the forms with an immediate too.

**Proof sketch.** The opcode selects the CSR and the source register for the operands, and the one
bit of `csrrw_info` the arm of the result multiplexer; write back takes the CSR for the register
file and the result for the CSR file. -/
theorem csrInstr_writes (op : Op) (rd src : BitVec 5) (csr : BitVec 12)
    (hcsr : checkCsrId csr = true) :
    (afterMemory dpi mem (decoded b regfile csrfile (op.encode rd src csr) pc ci)).regWrite =
        Rv64i.write rd (csrfile.csr csr) ∧
      (afterMemory dpi mem (decoded b regfile csrfile (op.encode rd src csr) pc ci)).csrWrite =
        some (csr, op.newValue (csrfile.csr csr) (sourceValue b regfile src)) := by
  obtain ⟨ho, h3, hrd, hrs1, hid⟩ := fields_csrInstr op rd src csr
  have hc := instCsrInstr_encode op rd src csr
  have hi := decodeCsrrwInfo_encode op rd src csr
  generalize op.encode rd src csr = w at *
  have h : (decoded b regfile csrfile w pc ci).Holds w := RegE.holds_latch ..
  generalize he : decoded b regfile csrfile w pc ci = e at *
  have hs := instSystem_of_instCsrInstr hc
  have hread : e.csrRdata1 = csrfile.csr csr := by
    rw [← he]
    show csrfile.read (csrRid1 w) = _
    rw [csrRid1_of_csrInstr hc, hid, Csrfile.read, hcsr, if_pos rfl]
  have hsrc : e.regdata1 = sourceValue b regfile src := by
    rw [← he, ← hrs1]
    rfl
  have halu : executeAluResult e = op.newValue (csrfile.csr csr) (sourceValue b regfile src) := by
    rw [h.operands.system hs, hc, if_pos rfl, if_pos rfl, hread, hsrc]
    exact aluResultOf_csrOp _ _ op (h.aluInfo.trans (decodeAluInfo_system hs))
      (h.csrrwInfo.trans hi)
  have hw : (afterMemory dpi mem e).Holds w := RegW.holds_latch (RegM.holds_latch h _) _
  constructor
  · have hclass : instJal w = false ∧ instJalr w = false ∧ instLoad w = false := by
      unfold instJal instJalr instLoad
      rw [ho]
      decide
    have hwen : decodeRegWen w = true := by simp [decodeRegWen, hc]
    have hdata : wbRegWdata (afterMemory dpi mem e) = e.csrRdata1 := by
      simp [wbRegWdata, hw.opcodeInfo, hclass, hc]
      rfl
    rw [← hread, ← hdata, ← hrd]
    exact regWrite_of_wen dpi mem h hwen
  · obtain ⟨hwid, hwen⟩ := csrWrite_of_csrInstr hc
    simp [RegW.csrWrite, hw.csrWen, hw.csrWid, hwid, hwen, hid, hcsr]
    exact halu

/-- **Zicsr on the processor**: for every instruction of Zicsr on an implemented CSR, all values
of the CSR and of the source register and every immediate, the instruction exchanges exactly if
its source is a register, or the register whose number is the immediate agrees with the immediate
in the bits that the new value depends on. -/
theorem exchanges_iff (op : Op) (rd src : BitVec 5) (csr : BitVec 12)
    (hcsr : checkCsrId csr = true) :
    Exchanges (afterMemory dpi mem (decoded b regfile csrfile (op.encode rd src csr) pc ci)) op rd
        csr (csrfile.csr csr) (op.operand (sourceValue b regfile src) src) ↔
      (op.immediate = true → sourceValue b regfile src &&& op.mask (csrfile.csr csr) =
        src.setWidth 64 &&& op.mask (csrfile.csr csr)) := by
  obtain ⟨hr, hw⟩ := csrInstr_writes dpi mem b regfile csrfile pc ci op rd src csr hcsr
  have hiff : Exchanges (afterMemory dpi mem (decoded b regfile csrfile (op.encode rd src csr) pc
      ci)) op rd csr (csrfile.csr csr) (op.operand (sourceValue b regfile src) src) ↔
      op.newValue (csrfile.csr csr) (sourceValue b regfile src) =
        op.newValue (csrfile.csr csr) (op.operand (sourceValue b regfile src) src) := by
    constructor
    · intro h
      simpa [hw] using h.csrWrite
    · intro h
      exact ⟨hr, by rw [hw, h]⟩
  rw [hiff, Op.newValue_eq_iff, Op.operand]
  cases op.immediate with
  | false => simp
  | true => simp

end Stages

/-- `csrrs x5, mscratch, x3` in an idle pipeline. -/
theorem exchanges_csrrs : Exchanges
    (afterMemory Memory.dpi (fun _ => 0#8)
      (decoded Bypass.idle Regfile.initial Csrfile.initial
        (Op.encode .csrrs 5#5 3#5 Csr.mscratch) 0x80000000#64 0#161))
    .csrrs 5#5 Csr.mscratch 0#64 3#64 :=
  (exchanges_iff Memory.dpi _ Bypass.idle Regfile.initial Csrfile.initial _ _ .csrrs 5#5 3#5
    Csr.mscratch (by decide)).mpr (by decide)

/-- `csrrwi x5, mscratch, 1` with another value than `1` in `x1`. -/
theorem immediate_ignored : ¬ ∀ (b : Bypass) (regfile : Regfile) (csrfile : Csrfile)
    (pc : BitVec 64) (ci : BitVec 161) (op : Op) (rd src : BitVec 5) (csr : BitVec 12),
    checkCsrId csr = true →
      Exchanges (afterMemory Memory.dpi (fun _ => 0#8)
          (decoded b regfile csrfile (op.encode rd src csr) pc ci)) op rd csr (csrfile.csr csr)
        (op.operand (sourceValue b regfile src) src) := by
  intro h
  have hw := (h Bypass.idle Regfile.initial Csrfile.initial 0x80000000#64 0#161 .csrrwi 5#5 1#5
    Csr.mscratch (by decide)).csrWrite
  revert hw
  decide

end Riscv64Cpu.Pipeline
