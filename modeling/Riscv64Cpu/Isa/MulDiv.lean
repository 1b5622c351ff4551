import Riscv64Cpu.Isa.Alu
import Riscv64Cpu.Isa.Rv64m

set_option relaxedAutoImplicit false
set_option autoImplicit false

/-!
# RV64M on the processor

The result that execute selects for a multiplication or division, against the instruction set.
`divw` and `divuw` test all 64 bits of the divisor for zero and divide by its low word, so a
divisor whose low word alone is zero is divided by.

## Main definitions

* `Pipeline.mulDivBit` — the bit of an instruction of RV64M in `alu_info`.
* `Pipeline.mulDivResult` — the arm of the result multiplexer.

## Main results

* `Pipeline.mulDivResult_eq` — the arms that agree with the instruction set.
* `Pipeline.executeAluResult_mulDiv_iff` — when execute has the result of the instruction.
-/

namespace Riscv64Cpu.Pipeline

open Rv64m

/-! ## The arms of the multiplexer -/

/-- The bit of an instruction in `alu_info`. -/
def mulDivBit : Op → ℕ
  | .mul => 12
  | .mulh => 11
  | .mulhsu => 10
  | .mulhu => 9
  | .mulw => 8
  | .div => 7
  | .divu => 6
  | .divw => 5
  | .divuw => 4
  | .rem => 3
  | .remu => 2
  | .remw => 1
  | .remuw => 0

/-- The arm of the result multiplexer for an instruction. -/
def mulDivResult (a b : BitVec 64) : Op → BitVec 64
  | .mul => a * b
  | .mulh => mulhResult a b
  | .mulhsu => mulhsuResult a b
  | .mulhu => mulhuResult a b
  | .mulw => sextWord ((a * b).setWidth 32)
  | .div => divResult a b
  | .divu => divuResult a b
  | .divw => divwResult a b
  | .divuw => divuwResult a b
  | .rem => remResult a b
  | .remu => remuResult a b
  | .remw => remwResult a b
  | .remuw => remuwResult a b

/-- The result multiplexer for the bit of an instruction. -/
lemma aluResultOf_mulDiv {e : RegE} (a b : BitVec 64) (op : Op)
    (h : e.aluInfo = BitVec.twoPow 28 (mulDivBit op)) :
    aluResultOf e a b = mulDivResult a b op := by
  cases op <;>
    simp [aluResultOf, RegE.aluAnd, RegE.aluAdd, RegE.aluAddw, RegE.aluSub, RegE.aluSubw,
      RegE.aluSll, RegE.aluSllw, RegE.aluSlt, RegE.aluSltu, RegE.aluXor, RegE.aluOr, RegE.aluSra,
      RegE.aluSraw, RegE.aluSrl, RegE.aluSrlw, RegE.aluMul, RegE.aluMulh, RegE.aluMulhsu,
      RegE.aluMulhu, RegE.aluMulw, RegE.aluDiv, RegE.aluDivu, RegE.aluDivw, RegE.aluDivuw,
      RegE.aluRem, RegE.aluRemu, RegE.aluRemw, RegE.aluRemuw, h, mulDivBit, mulDivResult]

/-- `alu_info` of an instruction. -/
lemma decodeAluInfo_mulDiv (op : Op) (rd rs1 rs2 : BitVec 5) :
    decodeAluInfo (op.encode rd rs1 rs2) = BitVec.twoPow 28 (mulDivBit op) := by
  rw [Op.encode, decodeAluInfo_eq (fields_encodeR rd rs1 rs2 _ _ _)]
  cases op <;> decide

/-- The opcode of an instruction. -/
private lemma instAlu_mulDiv (op : Op) (rd rs1 rs2 : BitVec 5) :
    instAluReg (op.encode rd rs1 rs2) = true ∨ instAluRegw (op.encode rd rs1 rs2) = true := by
  have ho := (fields_encodeR rd rs1 rs2 (if op.word then 0b0111011#7 else 0b0110011#7) op.funct3
    0b0000001#7).1
  rw [instAluReg, instAluRegw, Op.encode, ho]
  cases op <;> decide

/-! ## Products -/

section Products

variable (a b : BitVec 64)

/-- A zero extension is the number itself. -/
lemma setWidth_eq_ofInt : b.setWidth 128 = BitVec.ofInt 128 b.toNat := by
  rw [BitVec.ofInt_natCast, BitVec.ofNat_toNat]

/-- `mul` is exact. -/
private lemma mul_eq : a * b = Op.eval a b .mul := by
  rw [Op.eval, BitVec.ofInt_mul, BitVec.ofInt_toInt, BitVec.ofInt_toInt]

/-- `mulh` is exact: the product of the extended operands does not overflow. -/
private lemma mulhResult_eq : mulhResult a b = Op.eval a b .mulh := by
  rw [Op.eval, ← extract_ofInt, BitVec.ofInt_mul]
  rfl

/-- `mulhsu` is exact. -/
private lemma mulhsuResult_eq : mulhsuResult a b = Op.eval a b .mulhsu := by
  rw [Op.eval, ← extract_ofInt, BitVec.ofInt_mul, ← setWidth_eq_ofInt]
  rfl

/-- `mulhu` is exact. -/
private lemma mulhuResult_eq : mulhuResult a b = Op.eval a b .mulhu := by
  rw [Op.eval, ← extract_ofInt, BitVec.ofInt_mul, ← setWidth_eq_ofInt, ← setWidth_eq_ofInt]
  rfl

/-- `mulw` is exact: the low word of the product depends on the low words. -/
private lemma mulw_eq : sextWord ((a * b).setWidth 32) = Op.eval a b .mulw := by
  rw [Op.eval, onWords, BitVec.ofInt_mul, BitVec.ofInt_toInt, BitVec.ofInt_toInt,
    BitVec.setWidth_mul _ _ (by decide)]
  rfl

end Products

/-! ## Quotients and remainders -/

/-- An arm of its own for signed overflow changes nothing when the operator has the same value. -/
lemma ite_overflow {m n : ℕ} {f : BitVec n → BitVec n → BitVec m} {least negOne : BitVec n}
    {x : BitVec m} (h : f least negOne = x) (a b : BitVec n) :
    (if a == least && b == negOne then x else f a b) = f a b := by
  split_ifs with ho
  · simp only [Bool.and_eq_true, beq_iff_eq] at ho
    rw [ho.1, ho.2, h]
  · rfl

/-- A division with an arm of its own for the zero divisor. -/
lemma ite_zero {m n : ℕ} {b : BitVec n} {x y z : BitVec m} (h0 : b = 0#n → x = z)
    (h : b ≠ 0#n → y = z) : (if b == 0#n then x else y) = z := by
  by_cases hb : b = 0#n
  · rw [hb, beq_self_eq_true, if_pos rfl]
    exact h0 hb
  · have hz : (b == 0#n) = false := by simpa using hb
    rw [hz, if_neg Bool.false_ne_true]
    exact h hb

section Quotients

variable (a b : BitVec 64)

/-- `div` is exact, division by zero and overflow included. -/
private lemma divResult_eq : divResult a b = Op.eval a b .div := by
  rw [divResult, ite_overflow (f := BitVec.sdiv) (by decide), Op.eval]
  refine ite_zero (fun hb => ?_) fun hb => (Rv64m.div_eq_sdiv hb).symm
  rw [Rv64m.div, if_pos hb]
  rfl

/-- `divu` is exact, division by zero included. -/
private lemma divuResult_eq : divuResult a b = Op.eval a b .divu := by
  rw [divuResult, Op.eval]
  refine ite_zero (fun hb => ?_) fun hb => (Rv64m.divu_eq_udiv hb).symm
  rw [Rv64m.divu, if_pos hb]
  rfl

/-- `rem` is exact, division by zero and overflow included. -/
private lemma remResult_eq : remResult a b = Op.eval a b .rem := by
  rw [remResult, ite_overflow (f := BitVec.srem) (by decide), Op.eval]
  refine ite_zero (fun hb => ?_) fun hb => (Rv64m.rem_eq_srem hb).symm
  rw [Rv64m.rem, if_pos hb]

/-- `remu` is exact, division by zero included. -/
private lemma remuResult_eq : remuResult a b = Op.eval a b .remu := by
  rw [remuResult, Op.eval]
  refine ite_zero (fun hb => ?_) fun hb => (Rv64m.remu_eq_umod hb).symm
  rw [Rv64m.remu, if_pos hb]

/-- `remw` is exact: a zero low word leaves the dividend in both. -/
private lemma remwResult_eq : remwResult a b = Op.eval a b .remw := by
  rw [remwResult, ite_overflow (f := fun x y => sextWord (x.srem y)) (by decide), Op.eval, onWords]
  refine ite_zero (fun hb => ?_) fun hb => ?_
  · rw [Rv64m.rem, if_pos hb]
    rfl
  · rw [Rv64m.rem_eq_srem hb]
    rfl

/-- `remuw` is exact: a zero low word leaves the dividend in both. -/
private lemma remuwResult_eq : remuwResult a b = Op.eval a b .remuw := by
  rw [remuwResult, Op.eval, onWords]
  refine ite_zero (fun hb => ?_) fun hb => ?_
  · rw [Rv64m.remu, if_pos hb]
    rfl
  · rw [Rv64m.remu_eq_umod hb]
    rfl

/-! ### Quotients of words -/

/-- The quotient of words by zero is not the one of the instruction set. -/
private lemma sextWord_zero_ne : sextWord 0#32 ≠ 0xFFFFFFFFFFFFFFFF#64 := by decide

variable {b}

/-- A quotient of words behind a zero test of the whole divisor is right unless the low word of the
divisor alone is zero. -/
lemma wordQuotient_iff {q z : BitVec 64}
    (hz : b.setWidth 32 = 0#32 → z = 0xFFFFFFFFFFFFFFFF#64)
    (hq0 : b.setWidth 32 = 0#32 → q = sextWord 0#32) (hq : b.setWidth 32 ≠ 0#32 → q = z) :
    (if b == 0#64 then 0xFFFFFFFFFFFFFFFF#64 else q) = z ↔
      (b.setWidth 32 = 0#32 → b = 0#64) := by
  by_cases hb : b = 0#64
  · have hy : b.setWidth 32 = 0#32 := by rw [hb]; rfl
    rw [hz hy, hb]
    simp
  · have hne : (b == 0#64) = false := by simpa using hb
    rw [hne, if_neg Bool.false_ne_true]
    constructor
    · intro he hy
      rw [hq0 hy, hz hy] at he
      exact absurd he sextWord_zero_ne
    · intro h
      exact hq fun hy => hb (h hy)

variable (b)

/-- `divw` is right unless the low word of the divisor alone is zero. -/
private lemma divwResult_iff :
    divwResult a b = Op.eval a b .divw ↔ (b.setWidth 32 = 0#32 → b = 0#64) := by
  rw [divwResult,
    ite_overflow (f := fun x y => sextWord ((x.setWidth 32).sdiv (y.setWidth 32))) (by decide),
    Op.eval, onWords]
  refine wordQuotient_iff (fun hy => ?_) (fun hy => ?_) fun hy => ?_
  · rw [Rv64m.div, if_pos hy]
    rfl
  · rw [hy, BitVec.sdiv_zero]
  · rw [Rv64m.div_eq_sdiv hy]
    rfl

/-- So is `divuw`. -/
private lemma divuwResult_iff :
    divuwResult a b = Op.eval a b .divuw ↔ (b.setWidth 32 = 0#32 → b = 0#64) := by
  rw [divuwResult, Op.eval, onWords]
  refine wordQuotient_iff (fun hy => ?_) (fun hy => ?_) fun hy => ?_
  · rw [Rv64m.divu, if_pos hy]
    rfl
  · rw [hy, BitVec.udiv_zero]
  · rw [Rv64m.divu_eq_udiv hy]
    rfl

end Quotients

/-! ## The instructions -/

/-- The instruction divides words. -/
def dividesWords : Op → Bool
  | .divw | .divuw => true
  | _ => false

/-- **The arms of the multiplexer** that agree with the instruction set. -/
theorem mulDivResult_eq (a b : BitVec 64) (op : Op) (hd : dividesWords op = false) :
    mulDivResult a b op = op.eval a b := by
  cases op with
  | mul => exact mul_eq a b
  | mulh => exact mulhResult_eq a b
  | mulhsu => exact mulhsuResult_eq a b
  | mulhu => exact mulhuResult_eq a b
  | mulw => exact mulw_eq a b
  | div => exact divResult_eq a b
  | divu => exact divuResult_eq a b
  | rem => exact remResult_eq a b
  | remu => exact remuResult_eq a b
  | remw => exact remwResult_eq a b
  | remuw => exact remuwResult_eq a b
  | divw => cases hd
  | divuw => cases hd

/-- The quotients of words are right unless the low word of the divisor alone is zero. -/
lemma mulDivResult_iff (a b : BitVec 64) (op : Op) : mulDivResult a b op = op.eval a b ↔
    (dividesWords op = true → b.setWidth 32 = 0#32 → b = 0#64) := by
  cases hd : dividesWords op with
  | false => simp [mulDivResult_eq a b op hd]
  | true =>
    simp only [true_implies]
    cases op with
    | divw => exact divwResult_iff a b
    | divuw => exact divuwResult_iff a b
    | _ => cases hd

/-- **RV64M on the processor**: for every instruction of RV64M and all operands, execute has the
result of the instruction exactly if the instruction is not `divw` or `divuw` with a divisor whose
low word alone is zero.

**Proof sketch.** The opcode selects the operands, and the one bit of `alu_info` the arm of the
result multiplexer; the arms agree with the instruction set but for the quotients of words. -/
theorem executeAluResult_mulDiv_iff (op : Op) (rd rs1 rs2 : BitVec 5) (e : RegE)
    (h : e.Holds (op.encode rd rs1 rs2)) :
    executeAluResult e = op.eval e.regdata1 e.regdata2 ↔
      (dividesWords op = true → e.regdata2.setWidth 32 = 0#32 → e.regdata2 = 0#64) := by
  have halu : e.aluInfo = BitVec.twoPow 28 (mulDivBit op) := by
    rw [h.aluInfo, decodeAluInfo_mulDiv]
  rw [h.operands.reg (instAlu_mulDiv op rd rs1 rs2), aluResultOf_mulDiv _ _ op halu]
  exact mulDivResult_iff e.regdata1 e.regdata2 op

/-- An instruction of RV64M in `regE` with the given operands. -/
def mulDivE (op : Op) (a b : BitVec 64) : RegE :=
  { RegE.latch (decode Bypass.idle Regfile.initial Csrfile.initial (op.encode 3#5 1#5 2#5))
      0x80000000#64 0#161 with
    regdata1 := a
    regdata2 := b }

/-- A state of execute with an encoded instruction. -/
lemma holds_mulDivE (op : Op) (a b : BitVec 64) :
    (mulDivE op a b).Holds (op.encode 3#5 1#5 2#5) := by
  constructor <;> rfl

/-- `divw` of `-7` by `2`. -/
theorem executeAluResult_divw :
    executeAluResult (mulDivE .divw (-7#64) 2#64) = Op.eval (-7#64) 2#64 .divw :=
  (executeAluResult_mulDiv_iff .divw 3#5 1#5 2#5 _ (holds_mulDivE .divw (-7#64) 2#64)).mpr
    (by decide)

/-- `divw` of `1` by `2^32`. -/
theorem divw_by_zero_word : ¬ ∀ (op : Op) (rd rs1 rs2 : BitVec 5) (e : RegE),
    e.Holds (op.encode rd rs1 rs2) → executeAluResult e = op.eval e.regdata1 e.regdata2 := by
  intro h
  have hdivw := h .divw 3#5 1#5 2#5 _ (holds_mulDivE .divw 1#64 0x100000000#64)
  revert hdivw
  decide

end Riscv64Cpu.Pipeline
