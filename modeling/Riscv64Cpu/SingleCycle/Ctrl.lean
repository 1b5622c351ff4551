import Mathlib.Algebra.Group.Nat.Defs

set_option relaxedAutoImplicit false
set_option autoImplicit false

/-!
# The control unit of the single-cycle processor

`CTRL.v` of `single-cycle-cpu-2024`, with the constants of `define.v`: the selects that an
instruction word sends to the other units.

## Main definitions

* `SingleCycle.Ctrl.valASel`, `valBSel`, `aluSel`, `regWen`, `wbSel`, `brUn`, `pcSel`, `memRw`,
  `valCSel`, `csrFlag` — the outputs of the unit.
-/

namespace Riscv64Cpu.SingleCycle

/-! ## The constants of `define.v` -/

def funcAdd : BitVec 4 := 0b0000#4
def funcSub : BitVec 4 := 0b0001#4
def funcSll : BitVec 4 := 0b0010#4
def funcSlt : BitVec 4 := 0b0011#4
def funcSltu : BitVec 4 := 0b0100#4
def funcXor : BitVec 4 := 0b0101#4
def funcSrl : BitVec 4 := 0b0110#4
def funcSra : BitVec 4 := 0b0111#4
def funcOr : BitVec 4 := 0b1000#4
def funcAnd : BitVec 4 := 0b1001#4
def funcJalr : BitVec 4 := 0b1010#4
def funcSelValC : BitVec 4 := 0b1011#4

def valCUType : BitVec 3 := 0b000#3
def valCIType : BitVec 3 := 0b001#3
def valCIShamt : BitVec 3 := 0b010#3
def valCSType : BitVec 3 := 0b011#3
def valCRType : BitVec 3 := 0b100#3
def valCBType : BitVec 3 := 0b101#3
def valCJType : BitVec 3 := 0b110#3
def valCZero : BitVec 3 := 0b111#3

def memLb : BitVec 4 := 0b0000#4
def memLbu : BitVec 4 := 0b0001#4
def memLh : BitVec 4 := 0b0010#4
def memLhu : BitVec 4 := 0b0011#4
def memLw : BitVec 4 := 0b0100#4
def memSb : BitVec 4 := 0b0101#4
def memSh : BitVec 4 := 0b0110#4
def memSw : BitVec 4 := 0b0111#4
def memNoRw : BitVec 4 := 0b1000#4

def pcSelValP : BitVec 2 := 0b00#2
def pcSelValE : BitVec 2 := 0b01#2
def pcSelCsrValP : BitVec 2 := 0b10#2

def wbSelValE : BitVec 2 := 0b00#2
def wbSelValM : BitVec 2 := 0b01#2
def wbSelValP : BitVec 2 := 0b10#2
def wbSelValR : BitVec 2 := 0b11#2

def valBSelValB : Bool := true
def valBSelValC : Bool := false
def valASelValA : Bool := true
def valASelPc : Bool := false

def regWenW : Bool := true
def regWenNoW : Bool := false

def csrNone : BitVec 3 := 0b000#3
def csrCsrrw : BitVec 3 := 0b001#3
def csrCsrrs : BitVec 3 := 0b010#3
def csrEcall : BitVec 3 := 0b011#3
def csrMret : BitVec 3 := 0b100#3

namespace Ctrl

variable (instr : BitVec 32)

/-! ## Fields -/

/-- `instr[6:2]`. -/
def opcode : BitVec 5 := instr.extractLsb' 2 5

/-- `instr[14:12]`. -/
def func3 : BitVec 3 := instr.extractLsb' 12 3

/-- `instr[31:25]`. -/
def func7 : BitVec 7 := instr.extractLsb' 25 7

@[simp] def func700 : Bool := (func7 instr).extractLsb' 5 2 == 0b00#2
@[simp] def func701 : Bool := (func7 instr).extractLsb' 5 2 == 0b01#2

/-- A word with the given `opcode` and `func3`. -/
@[simp] def opFunc3 (op : BitVec 5) (f3 : BitVec 3) : Bool :=
  opcode instr == op && func3 instr == f3

/-! ## Instructions -/

def rv32Ecall : Bool := instr == 0x00000073#32
def rv32Mret : Bool := instr == 0x30200073#32
@[simp] def rv32Csrrw : Bool := opFunc3 instr 0b11100#5 0b001#3
@[simp] def rv32Csrrs : Bool := opFunc3 instr 0b11100#5 0b010#3

@[simp] def rv32Lui : Bool := opcode instr == 0b01101#5
@[simp] def rv32Auipc : Bool := opcode instr == 0b00101#5

@[simp] def rv32AddiFam : Bool := opcode instr == 0b00100#5
@[simp] def rv32Addi : Bool := opFunc3 instr 0b00100#5 0b000#3
@[simp] def rv32Slli : Bool := opFunc3 instr 0b00100#5 0b001#3 && func700 instr
@[simp] def rv32Slti : Bool := opFunc3 instr 0b00100#5 0b010#3
@[simp] def rv32Sltiu : Bool := opFunc3 instr 0b00100#5 0b011#3
@[simp] def rv32Xori : Bool := opFunc3 instr 0b00100#5 0b100#3
@[simp] def rv32Srli : Bool := opFunc3 instr 0b00100#5 0b101#3 && func700 instr
@[simp] def rv32Srai : Bool := opFunc3 instr 0b00100#5 0b101#3 && func701 instr
@[simp] def rv32Ori : Bool := opFunc3 instr 0b00100#5 0b110#3
@[simp] def rv32Andi : Bool := opFunc3 instr 0b00100#5 0b111#3

@[simp] def rv32AddFam : Bool := opcode instr == 0b01100#5
@[simp] def rv32Add : Bool := opFunc3 instr 0b01100#5 0b000#3 && func700 instr
@[simp] def rv32Sub : Bool := opFunc3 instr 0b01100#5 0b000#3 && func701 instr
@[simp] def rv32Sll : Bool := opFunc3 instr 0b01100#5 0b001#3 && func700 instr
@[simp] def rv32Slt : Bool := opFunc3 instr 0b01100#5 0b010#3 && func700 instr
@[simp] def rv32Sltu : Bool := opFunc3 instr 0b01100#5 0b011#3 && func700 instr
@[simp] def rv32Xor : Bool := opFunc3 instr 0b01100#5 0b100#3 && func700 instr
@[simp] def rv32Srl : Bool := opFunc3 instr 0b01100#5 0b101#3 && func700 instr
@[simp] def rv32Sra : Bool := opFunc3 instr 0b01100#5 0b101#3 && func701 instr
@[simp] def rv32Or : Bool := opFunc3 instr 0b01100#5 0b110#3 && func700 instr
@[simp] def rv32And : Bool := opFunc3 instr 0b01100#5 0b111#3 && func700 instr

@[simp] def rv32Load : Bool := opcode instr == 0b00000#5
@[simp] def rv32Lb : Bool := opFunc3 instr 0b00000#5 0b000#3
@[simp] def rv32Lh : Bool := opFunc3 instr 0b00000#5 0b001#3
@[simp] def rv32Lw : Bool := opFunc3 instr 0b00000#5 0b010#3
@[simp] def rv32Lbu : Bool := opFunc3 instr 0b00000#5 0b100#3
@[simp] def rv32Lhu : Bool := opFunc3 instr 0b00000#5 0b101#3

@[simp] def rv32Save : Bool := opcode instr == 0b01000#5
@[simp] def rv32Sb : Bool := opFunc3 instr 0b01000#5 0b000#3
@[simp] def rv32Sh : Bool := opFunc3 instr 0b01000#5 0b001#3
@[simp] def rv32Sw : Bool := opFunc3 instr 0b01000#5 0b010#3

@[simp] def rv32Jal : Bool := opcode instr == 0b11011#5
@[simp] def rv32Jalr : Bool := opFunc3 instr 0b11001#5 0b000#3

@[simp] def rv32BeqFam : Bool := opcode instr == 0b11000#5
@[simp] def rv32Beq : Bool := opFunc3 instr 0b11000#5 0b000#3
@[simp] def rv32Bne : Bool := opFunc3 instr 0b11000#5 0b001#3
@[simp] def rv32Blt : Bool := opFunc3 instr 0b11000#5 0b100#3
@[simp] def rv32Bge : Bool := opFunc3 instr 0b11000#5 0b101#3
@[simp] def rv32Bltu : Bool := opFunc3 instr 0b11000#5 0b110#3
@[simp] def rv32Bgeu : Bool := opFunc3 instr 0b11000#5 0b111#3

/-! ## Types -/

@[simp] def rv32IType : Bool :=
  rv32Load instr || rv32AddiFam instr || rv32Jalr instr || rv32Csrrs instr || rv32Csrrw instr
@[simp] def rv32RType : Bool := rv32AddFam instr
@[simp] def rv32UType : Bool := rv32Lui instr || rv32Auipc instr
@[simp] def rv32JType : Bool := rv32Jal instr
@[simp] def rv32SType : Bool := rv32Save instr
@[simp] def rv32BType : Bool := rv32BeqFam instr

/-! ## Outputs -/

/-- `CTRL_o_valA_sel`. -/
@[simp] def valASel : Bool :=
  if rv32IType instr || rv32RType instr || rv32SType instr then valASelValA
  else if rv32UType instr || rv32JType instr || rv32BType instr then valASelPc
  else valASelValA

/-- `CTRL_o_valB_sel`. -/
@[simp] def valBSel : Bool :=
  if rv32RType instr then valBSelValB
  else if rv32IType instr || rv32SType instr || rv32BType instr || rv32UType instr ||
    rv32JType instr then valBSelValC
  else valBSelValB

/-- `CTRL_o_reg_wen`. -/
@[simp] def regWen : Bool :=
  if rv32IType instr || rv32RType instr || rv32UType instr || rv32JType instr then regWenW
  else regWenNoW

/-- `CTRL_o_ALU_sel`. -/
@[simp] def aluSel : BitVec 4 :=
  if rv32Add instr || rv32Addi instr then funcAdd
  else if rv32Sub instr then funcSub
  else if rv32Sll instr || rv32Slli instr then funcSll
  else if rv32Slt instr || rv32Slti instr then funcSlt
  else if rv32Sltu instr || rv32Sltiu instr then funcSltu
  else if rv32Xor instr || rv32Xori instr then funcXor
  else if rv32Srl instr || rv32Srli instr then funcSrl
  else if rv32Sra instr || rv32Srai instr then funcSra
  else if rv32Or instr || rv32Ori instr then funcOr
  else if rv32And instr || rv32Andi instr then funcAnd
  else if rv32Jalr instr then funcJalr
  else if rv32Lui instr then funcSelValC
  else funcAdd

/-- `CTRL_o_wb_sel`. -/
@[simp] def wbSel : BitVec 2 :=
  if rv32RType instr || rv32AddiFam instr || rv32UType instr then wbSelValE
  else if rv32Load instr then wbSelValM
  else if rv32Jalr instr || rv32JType instr then wbSelValP
  else if rv32Csrrw instr || rv32Csrrs instr then wbSelValR
  else wbSelValM

/-- `CTRL_o_br_un`. -/
@[simp] def brUn : Bool := rv32Bltu instr || rv32Bgeu instr

/-- `CTRL_o_pc_sel`, from the comparisons of `BR_JMP.v`. -/
@[simp] def pcSel (brLt brEq : Bool) : BitVec 2 :=
  if rv32Beq instr && brEq then pcSelValE
  else if rv32Bne instr && !brEq then pcSelValE
  else if rv32Blt instr && brLt then pcSelValE
  else if rv32Bge instr && !brLt then pcSelValE
  else if rv32Bltu instr && brLt then pcSelValE
  else if rv32Bgeu instr && !brLt then pcSelValE
  else if rv32Jal instr || rv32Jalr instr then pcSelValE
  else if rv32Ecall instr || rv32Mret instr then pcSelCsrValP
  else pcSelValP

/-- `CTRL_o_mem_rw`. -/
@[simp] def memRw : BitVec 4 :=
  if rv32Lb instr then memLb
  else if rv32Lbu instr then memLbu
  else if rv32Lh instr then memLh
  else if rv32Lhu instr then memLhu
  else if rv32Lw instr then memLw
  else if rv32Sb instr then memSb
  else if rv32Sh instr then memSh
  else if rv32Sw instr then memSw
  else memNoRw

/-- `CTRL_o_valC_sel`. -/
@[simp] def valCSel : BitVec 3 :=
  if rv32UType instr then valCUType
  else if rv32IType instr then
    if rv32Slli instr || rv32Srli instr || rv32Srai instr then valCIShamt else valCIType
  else if rv32SType instr then valCSType
  else if rv32RType instr then valCRType
  else if rv32BType instr then valCBType
  else if rv32JType instr then valCJType
  else valCZero

/-- `CTRL_o_csr_flag`. -/
@[simp] def csrFlag : BitVec 3 :=
  if rv32Csrrw instr then csrCsrrw
  else if rv32Csrrs instr then csrCsrrs
  else if rv32Ecall instr then csrEcall
  else if rv32Mret instr then csrMret
  else csrNone

end Ctrl

end Riscv64Cpu.SingleCycle
