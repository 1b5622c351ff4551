import Riscv64Cpu.Clocked.PendingWrites
import Riscv64Cpu.SingleCycle.Selects

set_option relaxedAutoImplicit false
set_option autoImplicit false

/-!
# RV32I on the single-cycle processor

One clock edge of the single-cycle processor is one instruction of RV32I, the accesses to its four
CSRs included.  The other CSRs read zero and ignore writes.

## Main definitions

* `SingleCycle.Csr.value`, `implemented` — the CSRs by their addresses.
* `SingleCycle.Executes` — an edge has an architectural effect.

## Main results

* `SingleCycle.executes_encode` — the effect of the encodings.
-/

namespace Riscv64Cpu.SingleCycle

open Clocked Rv32i
open Rv64i (encodeR encodeI encodeS encodeB encodeU encodeJ extract_encodeR extract_encodeI
  extract_encodeS extract_encodeB extract_encodeU extract_encodeJ)

/-! ## The CSRs by address -/

namespace Csr

variable (c : Csr)

/-- The value of a CSR. -/
def value (id : BitVec 12) : BitVec 32 :=
  if id = 0x300#12 then c.mstatus
  else if id = 0x305#12 then c.mtvec
  else if id = 0x341#12 then c.mepc
  else if id = 0x342#12 then c.mcause
  else 0#32

/-- The addresses of the four CSRs. -/
def implemented (id : BitVec 12) : Bool :=
  id == 0x300#12 || id == 0x305#12 || id == 0x341#12 || id == 0x342#12

/-- A sign extended address is that of a CSR in the lower half if the address is. -/
lemma signExtend_beq (id : BitVec 12) {k : BitVec 12} {v : BitVec 32}
    (hk : k.signExtend 32 = v) : (id.signExtend 32 == v) = decide (id = k) := by
  subst hk
  by_cases h : id = k
  · simp [h]
  · have hne : id.signExtend 32 ≠ k.signExtend 32 := by
      intro hext
      have hint := congrArg BitVec.toInt hext
      rw [BitVec.toInt_signExtend_of_le (by decide), BitVec.toInt_signExtend_of_le (by decide)]
        at hint
      exact h (BitVec.eq_of_toInt_eq hint)
    simp [h, hne]

/-- What a CSR instruction reads. -/
lemma valR_eq {flag : BitVec 3} (hflag : flag = csrCsrrw ∨ flag = csrCsrrs) (id : BitVec 12) :
    c.valR flag (id.signExtend 32) = c.value id := by
  have hf : (flag == csrCsrrs || flag == csrCsrrw) = true := by
    rcases hflag with rfl | rfl <;> decide
  simp [valR, value, hf, signExtend_beq id (show (0x300#12).signExtend 32 = 0x300#32 by decide),
    signExtend_beq id (show (0x305#12).signExtend 32 = 0x305#32 by decide),
    signExtend_beq id (show (0x341#12).signExtend 32 = 0x341#32 by decide),
    signExtend_beq id (show (0x342#12).signExtend 32 = 0x342#32 by decide)]

/-- The CSRs after a write of `v` to the address `id`. -/
def written (id : BitVec 12) (v : BitVec 32) : Csr :=
  if id = 0x300#12 then { c with mstatus := v }
  else if id = 0x305#12 then { c with mtvec := v }
  else if id = 0x341#12 then { c with mepc := v }
  else if id = 0x342#12 then { c with mcause := v }
  else c

/-- A write changes the CSR at its address only, if there is one. -/
lemma value_written (id : BitVec 12) (v : BitVec 32) (k : BitVec 12) :
    (c.written id v).value k = if implemented id = true ∧ k = id then v else c.value k := by
  by_cases h1 : id = 0x300#12
  · subst h1
    by_cases hk : k = 0x300#12 <;> simp [written, value, implemented, hk]
  by_cases h2 : id = 0x305#12
  · subst h2
    by_cases hk : k = 0x305#12 <;> simp [written, value, implemented, hk]
  by_cases h3 : id = 0x341#12
  · subst h3
    by_cases hk : k = 0x341#12 <;> simp [written, value, implemented, hk]
  by_cases h4 : id = 0x342#12
  · subst h4
    by_cases hk : k = 0x342#12 <;> simp [written, value, implemented, hk]
  · simp [written, implemented, h1, h2, h3, h4]

/-- A write of the value that is there changes nothing. -/
lemma written_value (id : BitVec 12) : c.written id (c.value id) = c := by
  unfold written value
  split_ifs <;> rfl

/-- The CSRs after an optional write. -/
def after : Option (BitVec 12 × BitVec 32) → Csr
  | none => c
  | some (id, v) => c.written id v

/-- What `csrrw` writes. -/
lemma next_csrrw (pc valA : BitVec 32) (id : BitVec 12) :
    c.next csrCsrrw pc valA (id.signExtend 32) = c.written id valA := by
  simp [next, written, signExtend_beq id (show (0x300#12).signExtend 32 = 0x300#32 by decide),
    signExtend_beq id (show (0x305#12).signExtend 32 = 0x305#32 by decide),
    signExtend_beq id (show (0x341#12).signExtend 32 = 0x341#32 by decide),
    signExtend_beq id (show (0x342#12).signExtend 32 = 0x342#32 by decide)]

/-- What `csrrs` writes. -/
lemma next_csrrs (pc valA : BitVec 32) (id : BitVec 12) :
    c.next csrCsrrs pc valA (id.signExtend 32) = c.written id (valA ||| c.value id) := by
  have hflag : (csrCsrrs == csrCsrrw) = false := by decide
  simp only [next, hflag, beq_self_eq_true, Bool.false_eq_true, if_false, if_true, written, value,
    signExtend_beq id (show (0x300#12).signExtend 32 = 0x300#32 by decide),
    signExtend_beq id (show (0x305#12).signExtend 32 = 0x305#32 by decide),
    signExtend_beq id (show (0x341#12).signExtend 32 = 0x341#32 by decide),
    signExtend_beq id (show (0x342#12).signExtend 32 = 0x342#32 by decide), decide_eq_true_eq]
  split_ifs <;> rfl

end Csr

/-! ## The effect of an edge -/

/-- The memory after an access. -/
def memAfter {M : Type} (dpi : Dpi M) (mem : M) : Option Access → M
  | some (.store addr len data) => dpi.memWrite mem addr data (BitVec.ofNat 32 len)
  | _ => mem

/-- The memory as the reads of four bytes show it. -/
def window {M : Type} (dpi : Dpi M) (mem : M) (a : BitVec 32) : BitVec 32 := dpi.memRead mem a 4#32

/-- The edge has the architectural effect `e`. -/
structure Executes {M : Type} (dpi : Dpi M) (s : Cpu M) (e : Effect) : Prop where
  pc : (s.step dpi false).pc = e.nextPc
  regfile : (s.step dpi false).regfile = applyWrite s.regfile e.regWrite
  csr : (s.step dpi false).csr = s.csr.after e.csrWrite
  mem : (s.step dpi false).mem = memAfter dpi s.mem e.access

section Edge

variable {M : Type} {dpi : Dpi M} {s : Cpu M} {w : BitVec 32} (hw : s.instr dpi = w)
  {aSel bSel : Bool} {wb : BitVec 2} {rw' : BitVec 4} {flag : BitVec 3}
include hw

/-- The registers after a word that writes. -/
lemma regfile_of_write (h : Selects w aSel bSel regWenW wb rw' flag) :
    (s.step dpi false).regfile = applyWrite s.regfile (write (rd w) (s.valW dpi)) := by
  have hwen : (Ctrl.regWen w == regWenW) = true := by rw [h.regWen, beq_self_eq_true]
  simp only [Cpu.step, hw, hwen, Bool.true_and, Bool.false_eq_true, if_false, write]
  by_cases hrd : rd w = 0#5
  · rw [if_pos hrd, if_neg (by simp [hrd])]
    rfl
  · rw [if_neg hrd, if_pos (by simp [hrd])]
    rfl

/-- The registers after a word that does not write. -/
lemma regfile_of_noWrite (h : Selects w aSel bSel regWenNoW wb rw' flag) :
    (s.step dpi false).regfile = s.regfile := by
  have hwen : (Ctrl.regWen w == regWenW) = false := by
    rw [h.regWen]
    rfl
  simp only [Cpu.step, hw, hwen, Bool.false_and, Bool.false_eq_true, if_false]

/-- The CSRs after a word that is no CSR instruction. -/
lemma csr_of_none {wen : Bool} (h : Selects w aSel bSel wen wb rw' csrNone) :
    (s.step dpi false).csr = s.csr := by
  simp only [Cpu.step, hw, h.csrFlag, Bool.false_eq_true, if_false]
  rfl

/-- The memory after a word that does not store. -/
lemma mem_of_noRw {wen : Bool} (h : Selects w aSel bSel wen wb memNoRw flag) :
    (s.step dpi false).mem = s.mem := by
  simp only [Cpu.step, hw, h.memRw]
  rfl

/-- The pc after a word that goes on. -/
lemma pc_of_valP (h : ∀ lt eq, Ctrl.pcSel w lt eq = pcSelValP) :
    (s.step dpi false).pc = s.pc + 4#32 := by
  simp only [Cpu.step, Cpu.pcSel, hw, h, Bool.false_eq_true, if_false]
  rfl

/-- The operands of the arithmetic unit. -/
lemma valE_of_selects {wen : Bool} (h : Selects w aSel bSel wen wb rw' flag) :
    s.valE dpi = exuResult (Ctrl.aluSel w)
      (if aSel then s.regfile (rs1 w) else s.pc)
      (if bSel then s.regfile (rs2 w) else iduValC w) := by
  rw [Cpu.valE, Cpu.valA, Cpu.valB, Cpu.valC, hw, h.valASel, h.valBSel]
  cases aSel <;> cases bSel <;> rfl

/-- A word with a result from the arithmetic unit. -/
lemma executes_valE (h : Selects w aSel bSel regWenW wbSelValE memNoRw csrNone)
    (hpc : ∀ lt eq, Ctrl.pcSel w lt eq = pcSelValP) :
    Executes dpi s ⟨write (rd w) (s.valE dpi), s.pc + 4#32, none, none⟩ := by
  have hv : s.valW dpi = s.valE dpi := by
    rw [Cpu.valW, hw, h.wbSel]
    rfl
  exact ⟨pc_of_valP hw hpc, by rw [regfile_of_write hw h, hv], csr_of_none hw h, mem_of_noRw hw h⟩

/-- A jump. -/
lemma executes_jump (h : Selects w aSel bSel regWenW wbSelValP memNoRw csrNone)
    (hpc : ∀ lt eq, Ctrl.pcSel w lt eq = pcSelValE) :
    Executes dpi s ⟨write (rd w) (s.pc + 4#32), s.valE dpi, none, none⟩ := by
  have hv : s.valW dpi = s.pc + 4#32 := by
    rw [Cpu.valW, hw, h.wbSel]
    rfl
  refine ⟨?_, by rw [regfile_of_write hw h, hv], csr_of_none hw h, mem_of_noRw hw h⟩
  simp only [Cpu.step, Cpu.pcSel, hw, hpc, Bool.false_eq_true, if_false]
  rfl

end Edge

/-! ## Instruction by instruction -/

section Instructions

variable {M : Type} {dpi : Dpi M} {s : Cpu M}

/-- The effect of an instruction in the state `s`. -/
def effectOf (dpi : Dpi M) (s : Cpu M) (i : Instr) : Effect :=
  i.effect s.pc s.regfile s.csr.value (window dpi s.mem)

/-- The processor executes `lui`. -/
private lemma executes_lui (rd : BitVec 5) (imm : BitVec 20)
    (hw : s.instr dpi = encodeU 0b0110111#7 rd imm) :
    Executes dpi s (effectOf dpi s (.lui rd imm)) := by
  obtain ⟨hop, hrd, -⟩ := extract_encodeU 0b0110111#7 rd imm
  have ho := opcode_of_extract hop
  have hsel := selects_uType (.inl ho)
  have hv : s.valE dpi = imm ++ 0#12 := by
    rw [valE_of_selects hw hsel, iduValC_encodeU rd imm (.inl rfl)]
    simp [ho, exuResult, funcSelValC, funcAdd, funcSub, funcSll, funcSlt, funcSltu, funcXor,
      funcSrl, funcSra, funcOr, funcAnd, funcJalr, valBSelValC]
  have hx := executes_valE hw hsel (pcSel_of_next (by rw [ho]; decide) (by rw [ho]; decide)
    (by rw [ho]; decide) (.inl (by rw [ho]; decide)))
  rwa [hv, SingleCycle.rd, hrd] at hx

/-- The sum of the arithmetic unit. -/
lemma exuResult_add (a b : BitVec 32) : exuResult funcAdd a b = a + b := rfl

/-- The processor executes `auipc`. -/
private lemma executes_auipc (rd : BitVec 5) (imm : BitVec 20)
    (hw : s.instr dpi = encodeU 0b0010111#7 rd imm) :
    Executes dpi s (effectOf dpi s (.auipc rd imm)) := by
  obtain ⟨hop, hrd, -⟩ := extract_encodeU 0b0010111#7 rd imm
  have ho := opcode_of_extract hop
  have hsel := selects_uType (.inr ho)
  have hv : s.valE dpi = s.pc + (imm ++ 0#12) := by
    rw [valE_of_selects hw hsel, iduValC_encodeU rd imm (.inr rfl),
      aluSel_of_add (by rw [ho]; decide) (by rw [ho]; decide) (by rw [ho]; decide)
        (by rw [ho]; decide)]
    exact exuResult_add _ _
  have hx := executes_valE hw hsel (pcSel_of_next (by rw [ho]; decide) (by rw [ho]; decide)
    (by rw [ho]; decide) (.inl (by rw [ho]; decide)))
  rwa [hv, SingleCycle.rd, hrd] at hx

/-- The processor executes `jal`. -/
private lemma executes_jal (rd : BitVec 5) (offset : BitVec 20)
    (hw : s.instr dpi = encodeJ 0b1101111#7 rd offset) :
    Executes dpi s (effectOf dpi s (.jal rd offset)) := by
  obtain ⟨hop, hrd, -⟩ := extract_encodeJ 0b1101111#7 rd offset
  have ho := opcode_of_extract hop
  have hsel := selects_jal ho
  have hv : s.valE dpi = s.pc + (offset ++ 0#1).signExtend 32 := by
    rw [valE_of_selects hw hsel, iduValC_encodeJ rd offset,
      aluSel_of_add (by rw [ho]; decide) (by rw [ho]; decide) (by rw [ho]; decide)
        (by rw [ho]; decide)]
    exact exuResult_add _ _
  have hx := executes_jump hw hsel fun lt eq => by simp [ho]
  rwa [hv, SingleCycle.rd, hrd] at hx

/-- The processor executes `jalr`. -/
private lemma executes_jalr (rd rs1 : BitVec 5) (imm : BitVec 12)
    (hw : s.instr dpi = encodeI 0b1100111#7 0b000#3 rd rs1 imm) :
    Executes dpi s (effectOf dpi s (.jalr rd rs1 imm)) := by
  obtain ⟨hop, hrd, h3, hrs1, -⟩ := extract_encodeI 0b1100111#7 0b000#3 rd rs1 imm
  have ho := opcode_of_extract hop
  have hsel := selects_jalr ho h3
  have hC : iduValC (encodeI 0b1100111#7 0b000#3 rd rs1 imm) = imm.signExtend 32 :=
    iduValC_encodeI _ _ _ _ (by simp [ho, Ctrl.func3, h3])
  have hv : s.valE dpi = (s.regfile rs1 + imm.signExtend 32) &&& ~~~1#32 := by
    rw [valE_of_selects hw hsel, hC, SingleCycle.rs1, hrs1]
    have halu : Ctrl.aluSel (encodeI 0b1100111#7 0b000#3 rd rs1 imm) = funcJalr := by
      simp [ho, Ctrl.func3, h3]
    rw [halu]
    rfl
  have hx := executes_jump hw hsel fun lt eq => by simp [ho, Ctrl.func3, h3]
  rwa [hv, SingleCycle.rd, hrd] at hx

/-- The processor executes the branches. -/
private lemma executes_branch (op : Rv64i.BranchOp) (rs1 rs2 : BitVec 5) (offset : BitVec 12)
    (hw : s.instr dpi = encodeB 0b1100011#7 op.funct3 rs1 rs2 offset) :
    Executes dpi s (effectOf dpi s (.branch op rs1 rs2 offset)) := by
  obtain ⟨hop, h3, hrs1, hrs2, -⟩ := extract_encodeB 0b1100011#7 op.funct3 rs1 rs2 offset
  have ho := opcode_of_extract hop
  have hsel := selects_branch ho
  have hA : s.valA dpi = s.regfile rs1 := by rw [Cpu.valA, hw, SingleCycle.rs1, hrs1]
  have hB : s.valB dpi = s.regfile rs2 := by rw [Cpu.valB, hw, SingleCycle.rs2, hrs2]
  have hv : s.valE dpi = s.pc + (offset ++ 0#1).signExtend 32 := by
    rw [valE_of_selects hw hsel, iduValC_encodeB,
      aluSel_of_add (by rw [ho]; decide) (by rw [ho]; decide) (by rw [ho]; decide)
        (by rw [ho]; decide)]
    exact exuResult_add _ _
  refine ⟨?_, regfile_of_noWrite hw hsel, csr_of_none hw hsel, mem_of_noRw hw hsel⟩
  have hpc := pcSel_branch op ho h3 (s.regfile rs1) (s.regfile rs2)
  simp only [Cpu.step, Cpu.pcSel, hw, hA, hB, hpc, hv, Bool.false_eq_true, if_false]
  by_cases ht : Rv32i.taken (s.regfile rs1) (s.regfile rs2) op = true
  · rw [if_pos ht]
    exact (if_pos ht).symm
  · rw [if_neg ht]
    exact (if_neg ht).symm

/-- The processor executes the loads. -/
private lemma executes_load (op : LoadOp) (rd rs1 : BitVec 5) (imm : BitVec 12)
    (hw : s.instr dpi = encodeI 0b0000011#7 op.funct3 rd rs1 imm) :
    Executes dpi s (effectOf dpi s (.load op rd rs1 imm)) := by
  obtain ⟨hop, hrd, h3, hrs1, -⟩ := extract_encodeI 0b0000011#7 op.funct3 rd rs1 imm
  have ho := opcode_of_extract hop
  have hsel := selects_load op ho h3
  have hC : iduValC (encodeI 0b0000011#7 op.funct3 rd rs1 imm) = imm.signExtend 32 :=
    iduValC_encodeI _ _ _ _ (by simp [ho])
  have hE : s.valE dpi = s.regfile rs1 + imm.signExtend 32 := by
    rw [valE_of_selects hw hsel, hC, SingleCycle.rs1, hrs1,
      aluSel_of_add (by rw [ho]; decide) (by rw [ho]; decide) (by rw [ho]; decide)
        (by rw [ho]; decide)]
    exact exuResult_add _ _
  have hv : s.valW dpi = op.value (window dpi s.mem (s.regfile rs1 + imm.signExtend 32)) := by
    rw [Cpu.valW, hw, hsel.wbSel, hsel.memRw, hE]
    cases op <;> rfl
  refine ⟨pc_of_valP hw (pcSel_of_next (by rw [ho]; decide) (by rw [ho]; decide)
    (by rw [ho]; decide) (.inl (by rw [ho]; decide))), ?_, csr_of_none hw hsel, ?_⟩
  · rw [regfile_of_write hw hsel, hv, SingleCycle.rd, hrd]
    rfl
  · simp only [Cpu.step, hw, hsel.memRw]
    cases op <;> rfl

/-- The processor executes the stores. -/
private lemma executes_store (op : StoreOp) (rs1 rs2 : BitVec 5) (imm : BitVec 12)
    (hw : s.instr dpi = encodeS 0b0100011#7 op.funct3 rs1 rs2 imm) :
    Executes dpi s (effectOf dpi s (.store op rs1 rs2 imm)) := by
  obtain ⟨hop, h3, hrs1, hrs2, -⟩ := extract_encodeS 0b0100011#7 op.funct3 rs1 rs2 imm
  have ho := opcode_of_extract hop
  have hsel := selects_store op ho h3
  have hE : s.valE dpi = s.regfile rs1 + imm.signExtend 32 := by
    rw [valE_of_selects hw hsel, iduValC_encodeS, SingleCycle.rs1, hrs1,
      aluSel_of_add (by rw [ho]; decide) (by rw [ho]; decide) (by rw [ho]; decide)
        (by rw [ho]; decide)]
    exact exuResult_add _ _
  have hB : s.valB dpi = s.regfile rs2 := by rw [Cpu.valB, hw, SingleCycle.rs2, hrs2]
  refine ⟨pc_of_valP hw (pcSel_of_next (by rw [ho]; decide) (by rw [ho]; decide)
    (by rw [ho]; decide) (.inl (by rw [ho]; decide))), regfile_of_noWrite hw hsel,
    csr_of_none hw hsel, ?_⟩
  simp only [Cpu.step, hw, hsel.memRw, hE, hB]
  cases op <;> rfl

/-- The processor executes the operations with an immediate. -/
private lemma executes_opImm (op : Rv64i.ImmOp) (rd rs1 : BitVec 5) (imm : BitVec 12)
    (hw : s.instr dpi = encodeI 0b0010011#7 op.funct3 rd rs1 imm) :
    Executes dpi s (effectOf dpi s (.opImm op rd rs1 imm)) := by
  obtain ⟨hop, hrd, h3, hrs1, -⟩ := extract_encodeI 0b0010011#7 op.funct3 rd rs1 imm
  have ho := opcode_of_extract hop
  have hsel := selects_addiFam ho
  obtain ⟨halu, hCsel⟩ := aluSel_opImm op ho h3
  have hv : s.valE dpi = eval (s.regfile rs1) (imm.signExtend 32) op.toRegOp := by
    rw [valE_of_selects hw hsel, iduValC_encodeI _ _ _ _ hCsel, SingleCycle.rs1, hrs1, halu]
    exact exuResult_aluFunc _ _ _
  have hx := executes_valE hw hsel (pcSel_of_next (by rw [ho]; decide) (by rw [ho]; decide)
    (by rw [ho]; decide) (.inl (by rw [ho]; decide)))
  rwa [hv, SingleCycle.rd, hrd] at hx

/-- A shift by less than the width. -/
private lemma eval_shiftRegOp (op : Rv64i.ShiftOp) (a : BitVec 32) (shamt : BitVec 5) :
    eval a (0#27 ++ shamt) (shiftRegOp op) = op.eval a shamt.toNat := by
  have hamt : (0#27 ++ shamt).toNat % 32 = shamt.toNat := by
    rw [BitVec.toNat_append]
    simp [Nat.mod_eq_of_lt shamt.isLt]
  cases op <;> simp only [shiftRegOp, eval, Rv64i.ShiftOp.eval, hamt]

/-- The processor executes the shifts by an immediate. -/
private lemma executes_shiftImm (op : Rv64i.ShiftOp) (rd rs1 shamt : BitVec 5)
    (hw : s.instr dpi = encodeI 0b0010011#7 op.funct3 rd rs1 (op.funct6 ++ 0#1 ++ shamt)) :
    Executes dpi s (effectOf dpi s (.shiftImm op rd rs1 shamt)) := by
  obtain ⟨hop, hrd, h3, hrs1, himm, h7, -⟩ :=
    extract_encodeI 0b0010011#7 op.funct3 rd rs1 (op.funct6 ++ 0#1 ++ shamt)
  have ho := opcode_of_extract hop
  have hsel := selects_addiFam ho
  rw [Rv64i.extract_above _ _ (by decide), BitVec.extractLsb'_eq_self] at h7
  obtain ⟨halu, hCsel⟩ := aluSel_shiftImm op ho h3 h7
  have hv : s.valE dpi = op.eval (s.regfile rs1) shamt.toNat := by
    rw [valE_of_selects hw hsel, iduValC_shamt hCsel, himm, Rv64i.extract_last, SingleCycle.rs1,
      hrs1, halu, ← eval_shiftRegOp]
    exact exuResult_aluFunc _ _ _
  have hx := executes_valE hw hsel (pcSel_of_next (by rw [ho]; decide) (by rw [ho]; decide)
    (by rw [ho]; decide) (.inl (by rw [ho]; decide)))
  rwa [hv, SingleCycle.rd, hrd] at hx

/-- The processor executes the operations on registers. -/
private lemma executes_reg (op : Rv64i.RegOp) (rd rs1 rs2 : BitVec 5)
    (hw : s.instr dpi = encodeR 0b0110011#7 op.funct3 op.funct7 rd rs1 rs2) :
    Executes dpi s (effectOf dpi s (.reg op rd rs1 rs2)) := by
  obtain ⟨hop, hrd, h3, hrs1, hrs2, h7⟩ :=
    extract_encodeR 0b0110011#7 op.funct3 op.funct7 rd rs1 rs2
  have ho := opcode_of_extract hop
  have hsel := selects_addFam ho
  have hv : s.valE dpi = eval (s.regfile rs1) (s.regfile rs2) op := by
    rw [valE_of_selects hw hsel, SingleCycle.rs1, SingleCycle.rs2, hrs1, hrs2,
      aluSel_reg op ho h3 h7]
    exact exuResult_aluFunc _ _ _
  have hx := executes_valE hw hsel (pcSel_of_next (by rw [ho]; decide) (by rw [ho]; decide)
    (by rw [ho]; decide) (.inl (by rw [ho]; decide)))
  rwa [hv, SingleCycle.rd, hrd] at hx

/-- The immediate of a CSR instruction is the address. -/
lemma iduValC_csr {f3 : BitVec 3} (rd rs1 : BitVec 5) (id : BitVec 12)
    (hf3 : f3 = 0b001#3 ∨ f3 = 0b010#3) :
    iduValC (encodeI 0b1110011#7 f3 rd rs1 id) = id.signExtend 32 := by
  obtain ⟨hop, -, h3, -⟩ := extract_encodeI 0b1110011#7 f3 rd rs1 id
  refine iduValC_encodeI _ _ _ _ ?_
  rcases hf3 with rfl | rfl <;> simp [opcode_of_extract hop, Ctrl.func3, h3]

/-- The processor executes `csrrw`. -/
private lemma executes_csrrw (rd rs1 : BitVec 5) (id : BitVec 12)
    (hw : s.instr dpi = encodeI 0b1110011#7 0b001#3 rd rs1 id) :
    Executes dpi s (effectOf dpi s (.csrrw rd rs1 id)) := by
  obtain ⟨hop, hrd, h3, hrs1, -⟩ := extract_encodeI 0b1110011#7 0b001#3 rd rs1 id
  have ho := opcode_of_extract hop
  have hsel := selects_csrrw ho h3
  have hC : s.valC dpi = id.signExtend 32 := by
    rw [Cpu.valC, hw]
    exact iduValC_csr rd rs1 id (.inl rfl)
  have hv : s.valW dpi = s.csr.value id := by
    rw [Cpu.valW, hw, hsel.wbSel, hsel.csrFlag, hC, Csr.valR_eq _ (.inl rfl)]
    rfl
  refine ⟨pc_of_valP hw (pcSel_of_next (by rw [ho]; decide) (by rw [ho]; decide)
    (by rw [ho]; decide) (.inr (by rw [Ctrl.func3, h3]; decide))), ?_, ?_, mem_of_noRw hw hsel⟩
  · rw [regfile_of_write hw hsel, hv, SingleCycle.rd, hrd]
    rfl
  · simp only [Cpu.step, hw, hsel.csrFlag, hC, Cpu.valA, SingleCycle.rs1, hrs1,
      Bool.false_eq_true, if_false, Csr.next_csrrw]
    rfl

/-- The processor executes `csrrs`; a write of `x0` changes nothing. -/
private lemma executes_csrrs (rd rs1 : BitVec 5) (id : BitVec 12) (h0 : s.regfile 0#5 = 0#32)
    (hw : s.instr dpi = encodeI 0b1110011#7 0b010#3 rd rs1 id) :
    Executes dpi s (effectOf dpi s (.csrrs rd rs1 id)) := by
  obtain ⟨hop, hrd, h3, hrs1, -⟩ := extract_encodeI 0b1110011#7 0b010#3 rd rs1 id
  have ho := opcode_of_extract hop
  have hsel := selects_csrrs ho h3
  have hC : s.valC dpi = id.signExtend 32 := by
    rw [Cpu.valC, hw]
    exact iduValC_csr rd rs1 id (.inr rfl)
  have hv : s.valW dpi = s.csr.value id := by
    rw [Cpu.valW, hw, hsel.wbSel, hsel.csrFlag, hC, Csr.valR_eq _ (.inr rfl)]
    rfl
  refine ⟨pc_of_valP hw (pcSel_of_next (by rw [ho]; decide) (by rw [ho]; decide)
    (by rw [ho]; decide) (.inr (by rw [Ctrl.func3, h3]; decide))), ?_, ?_, mem_of_noRw hw hsel⟩
  · rw [regfile_of_write hw hsel, hv, SingleCycle.rd, hrd]
    rfl
  · simp only [Cpu.step, hw, hsel.csrFlag, hC, Cpu.valA, SingleCycle.rs1, hrs1,
      Bool.false_eq_true, if_false, Csr.next_csrrs, effectOf, Instr.effect]
    -- setting no bit is no write, as `x0` is zero
    by_cases hrs : rs1 = 0#5
    · rw [if_pos hrs, hrs, h0, BitVec.zero_or]
      exact Csr.written_value _ _
    · rw [if_neg hrs]
      rfl

/-- **The encodings.**  An edge whose word encodes an instruction has the effect of the
instruction. -/
theorem executes_encode (i : Instr) (h0 : s.regfile 0#5 = 0#32) (hw : s.instr dpi = i.encode) :
    Executes dpi s (effectOf dpi s i) := by
  cases i with
  | lui rd imm => exact executes_lui rd imm hw
  | auipc rd imm => exact executes_auipc rd imm hw
  | jal rd offset => exact executes_jal rd offset hw
  | jalr rd rs1 imm => exact executes_jalr rd rs1 imm hw
  | branch op rs1 rs2 offset => exact executes_branch op rs1 rs2 offset hw
  | load op rd rs1 imm => exact executes_load op rd rs1 imm hw
  | store op rs1 rs2 imm => exact executes_store op rs1 rs2 imm hw
  | opImm op rd rs1 imm => exact executes_opImm op rd rs1 imm hw
  | shiftImm op rd rs1 shamt => exact executes_shiftImm op rd rs1 shamt hw
  | reg op rd rs1 rs2 => exact executes_reg op rd rs1 rs2 hw
  | csrrw rd rs1 id => exact executes_csrrw rd rs1 id hw
  | csrrs rd rs1 id => exact executes_csrrs rd rs1 id h0 hw

end Instructions

end Riscv64Cpu.SingleCycle
