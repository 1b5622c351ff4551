import Riscv64Cpu.Collections.Patches
import Riscv64Cpu.Memory.Bounds
import Riscv64Cpu.Isa.Correctness

set_option relaxedAutoImplicit false
set_option autoImplicit false

/-!
# Loads and stores over the guest's memory

`memory.v` over `dpi.c` and `memory.c`: a load reads eight bytes, whatever its width, and
`memory.v` cuts and extends them; a store passes the whole register and a length.

## Main definitions

* `Memory.MemOp` — a load or a store with its address.
* `Memory.Performs`, `MemInstr` — the memory stage holds an operation.
* `Memory.memAfter` — the memory after a sequence of operations.
* `Memory.lastStored` — the byte that the latest store left at an index.

## Main results

* `Memory.performs_load`, `performs_store` — the instructions that perform an operation.
* `Memory.memory_of_load`, `memNext_memWriteCall` — one operation.
* `Memory.lastStored_of_store`, `lastStored_of_not_stored` — what the byte last stored is.
* `Memory.memAfter_eq_lastStored` — the memory after any sequence of operations.
* `Memory.served` — every operation of every sequence.
-/

namespace Riscv64Cpu.Memory

open Pipeline Rv64i

/-! ## Operations -/

/-- A load or a store. -/
inductive MemOp
  | load (op : LoadOp) (addr : BitVec 64)
  | store (op : StoreOp) (addr data : BitVec 64)
deriving DecidableEq

/-- The address of the operation. -/
def MemOp.addr : MemOp → BitVec 64
  | load _ addr => addr
  | store _ addr _ => addr

/-- The eight bytes from an address on lie in RAM. -/
def WindowInRam (addr : BitVec 64) : Prop :=
  configMbase ≤ addr.toNat ∧ addr.toNat + 8 ≤ configMbase + configMsize

instance (addr : BitVec 64) : Decidable (WindowInRam addr) :=
  inferInstanceAs (Decidable (_ ∧ _))

/-- The register in front of the memory stage holds the operation. -/
def Performs (m : RegM) : MemOp → Prop
  | .load op addr => m.loadStoreInfo = BitVec.twoPow 11 (loadOpBit op) ∧ m.amoswapw = false ∧
    m.aluResult = addr
  | .store op addr data => m.loadStoreInfo = BitVec.twoPow 11 (storeOpBit op) ∧
    m.amoswapw = false ∧ m.aluResult = addr ∧ m.regdata2 = data

/-- The memory stage with the operation it performs. -/
structure MemInstr where
  regM : RegM
  op : MemOp
  performs : Performs regM op

/-- The register in front of the memory stage with an operation and nothing else. -/
def MemOp.regM : MemOp → RegM
  | load op addr =>
    { RegM.nop with loadStoreInfo := BitVec.twoPow 11 (loadOpBit op), aluResult := addr }
  | store op addr data =>
    { RegM.nop with
      loadStoreInfo := BitVec.twoPow 11 (storeOpBit op), aluResult := addr, regdata2 := data }

/-- Every operation is that of an instruction in memory. -/
lemma MemOp.performs_regM (o : MemOp) : Performs o.regM o := by
  have hamo : Verilog.bit 0#20 17 = false := by decide
  cases o with
  | load op addr => exact ⟨rfl, hamo, rfl⟩
  | store op addr data => exact ⟨rfl, hamo, rfl, rfl⟩

/-- An operation in the memory stage. -/
def MemOp.instr (o : MemOp) : MemInstr := ⟨o.regM, o, o.performs_regM⟩

/-! ## One operation -/

section Operation

variable {m : RegM}

/-- An instruction that is not atomic is no `amoswap.w`. -/
lemma amoswapw_of_not_amo {w : BitVec 32} (h : m.Holds w) (ha : instAmo w = false) :
    m.amoswapw = false := by
  rw [RegM.amoswapw, h.amoInfo, amoInfo_of_not_amo ha]
  decide

/-- A load instruction in the memory stage. -/
theorem performs_load {w : BitVec 32} (h : m.Holds w) (op : LoadOp) (hl : instLoad w = true)
    (h3 : func3 w = op.funct3) : Performs m (.load op m.aluResult) := by
  have hamo : instAmo w = false := by
    rw [instAmo, eq_of_beq hl]
    decide
  exact ⟨h.loadStoreInfo.trans (decodeLoadStoreInfo_load op hl h3), amoswapw_of_not_amo h hamo, rfl⟩

/-- A store instruction in the memory stage. -/
theorem performs_store {w : BitVec 32} (h : m.Holds w) (op : StoreOp) (hs : instStore w = true)
    (h3 : func3 w = op.funct3) : Performs m (.store op m.aluResult m.regdata2) := by
  have hamo : instAmo w = false := by
    rw [instAmo, eq_of_beq hs]
    decide
  exact ⟨h.loadStoreInfo.trans (decodeLoadStoreInfo_store op hs h3), amoswapw_of_not_amo h hamo,
    rfl, rfl⟩

variable {M : Type} (dpi : Dpi M) (mem : M)

/-- The data that a load returns: its part of the eight bytes at its address, extended. -/
theorem memory_of_load {op : LoadOp} {addr : BitVec 64} (h : Performs m (.load op addr)) :
    memory dpi mem m = op.value (dpi.memRead mem addr 8#32 m.pc) := by
  obtain ⟨hinfo, hamo, rfl⟩ := h
  cases op <;>
    simp [memory, memRdata, loadExtend, RegM.load, RegM.lb, RegM.lh, RegM.lw, RegM.ld, RegM.lbu,
      RegM.lhu, RegM.lwu, RegM.memAddr, hinfo, hamo, loadOpBit, LoadOp.value]

/-- A load does not write. -/
private lemma memWriteCall_of_load {op : LoadOp} {addr : BitVec 64}
    (h : Performs m (.load op addr)) :
    memWriteCall m = none := by
  obtain ⟨hinfo, hamo, -⟩ := h
  cases op <;> simp [memWriteCall, RegM.sb, RegM.sh, RegM.sw, RegM.sd, hinfo, hamo, loadOpBit]

/-- The write of a store. -/
private lemma memWriteCall_of_store {op : StoreOp} {addr data : BitVec 64}
    (h : Performs m (.store op addr data)) :
    memWriteCall m = some ⟨addr, data, BitVec.ofNat 32 op.len, m.pc⟩ := by
  obtain ⟨hinfo, hamo, rfl, rfl⟩ := h
  cases op <;>
    simp [memWriteCall, RegM.sb, RegM.sh, RegM.sw, RegM.sd, RegM.memAddr, hinfo, hamo, storeOpBit,
      StoreOp.len]

end Operation

/-! ## Accesses to RAM -/

section Ram

variable {mem : Pmem} {addr : BitVec 64}

/-- A window in RAM passes the range check. -/
lemma inDram_of_window (h : WindowInRam addr) : inDram addr = true := by
  rw [inDram_iff]
  unfold WindowInRam at h
  omega

/-- An address in RAM is not one of the serial port. -/
lemma ne_serial_of_window (h : WindowInRam addr) :
    addr ≠ 0x0000000010000005#64 ∧ addr ≠ 0x10000000#64 := by
  have hin := inDram_of_window h
  constructor
  · rintro rfl
    rw [serial_not_inDram.1] at hin
    exact Bool.false_ne_true hin
  · rintro rfl
    rw [serial_not_inDram.2] at hin
    exact Bool.false_ne_true hin

/-- The read of a load. -/
lemma dpiMemRead_window (mem : Pmem) (pc : BitVec 64) (h : WindowInRam addr) :
    dpiMemRead mem addr 8#32 pc = littleEndian mem (guestToHost addr) 8 := by
  have hne : (addr == 0x0000000010000005#64) = false :=
    beq_eq_false_iff_ne.mpr (ne_serial_of_window h).1
  rw [dpiMemRead, hne, if_neg Bool.false_ne_true, inDram_of_window h, if_pos rfl]
  rfl

/-- A loaded value depends on the bytes of the load. -/
private lemma value_littleEndian (op : LoadOp) (mem : Pmem) (i : ℕ) :
    op.value (littleEndian mem i 8) = op.value (littleEndian mem i op.len) := by
  refine op.value_congr ?_
  cases op with
  | lb | lbu => exact setWidth_littleEndian mem 7 1 i
  | lh | lhu => exact setWidth_littleEndian mem 6 2 i
  | lw | lwu => exact setWidth_littleEndian mem 4 4 i
  | ld => rfl

/-- The write of a store. -/
private lemma dpiMemWrite_window (mem : Pmem) (op : StoreOp) (data pc : BitVec 64)
    (h : WindowInRam addr) : dpiMemWrite mem addr data (BitVec.ofNat 32 op.len) pc =
      storeBytes mem (guestToHost addr) op.len data := by
  have hne : (addr == 0x10000000#64) = false := beq_eq_false_iff_ne.mpr (ne_serial_of_window h).2
  rw [dpiMemWrite, hne, if_neg Bool.false_ne_true, inDram_of_window h, if_pos rfl]
  cases op <;> rfl

end Ram

/-! ## Sequences of operations -/

/-- The memory after the operations that pass through the memory stage, oldest first. -/
def memAfter (init : Pmem) (ms : List RegM) : Pmem :=
  ms.foldl (fun mem m => memNext dpi mem (memWriteCall m)) init

/-- The bytes that an operation stores. -/
def MemOp.patch : MemOp → Patches.Patch ℕ (BitVec 8)
  | load _ _ => fun _ => none
  | store op addr data => fun j =>
    if guestToHost addr ≤ j ∧ j < guestToHost addr + op.len then
      some (data.extractLsb' (8 * (j - guestToHost addr)) 8)
    else none

/-- The byte that the latest of the operations `ops` that stores at index `j` left there, or the
initial one. -/
def lastStored (init : Pmem) (ops : List MemOp) : Pmem := fun j =>
  (Patches.latest (ops.map MemOp.patch) j).getD (init j)

/-- What `lastStored` says, for a byte that some operation stored: the value of the latest one. -/
theorem lastStored_of_store (init : Pmem) {before later : List MemOp} {o : MemOp} {j : ℕ}
    {v : BitVec 8} (ho : o.patch j = some v) (hlater : ∀ q ∈ later, q.patch j = none) :
    lastStored init (before ++ o :: later) j = v := by
  have hlatest : Patches.latest ((before ++ o :: later).map MemOp.patch) j = some v := by
    rw [Patches.latest_eq_some_iff]
    refine ⟨before.map MemOp.patch, o.patch, later.map MemOp.patch, by simp, ho, ?_⟩
    intro p hp
    obtain ⟨q, hq, rfl⟩ := List.mem_map.mp hp
    exact hlater q hq
  rw [lastStored, hlatest, Option.getD_some]

/-- What `lastStored` says, for a byte that no operation stored: the initial one. -/
theorem lastStored_of_not_stored (init : Pmem) {ops : List MemOp} {j : ℕ}
    (h : ∀ q ∈ ops, q.patch j = none) : lastStored init ops j = init j := by
  have hlatest : Patches.latest (ops.map MemOp.patch) j = none := by
    rw [Patches.latest_eq_none_iff]
    intro p hp
    obtain ⟨q, hq, rfl⟩ := List.mem_map.mp hp
    exact h q hq
  rw [lastStored, hlatest, Option.getD_none]

/-- What the memory stage owes to an operation, when the bytes last stored are `past`: a load
returns the extended little-endian value of its own bytes, a store changes its own bytes and no
others. -/
def Served (past mem mem' : Pmem) (rdata : BitVec 64) : MemOp → Prop
  | .load op addr => rdata = op.value (littleEndian past (guestToHost addr) op.len) ∧ mem' = mem
  | .store op addr data => ∀ j, mem' j =
    if guestToHost addr ≤ j ∧ j < guestToHost addr + op.len then
      data.extractLsb' (8 * (j - guestToHost addr)) 8
    else mem j

section Sequences

variable (init : Pmem)

/-- The memory after one operation more. -/
lemma memAfter_append_singleton (ms : List RegM) (m : RegM) :
    memAfter init (ms ++ [m]) = memNext dpi (memAfter init ms) (memWriteCall m) := by
  simp [memAfter]

/-- The memory after the patch of a store. -/
lemma getD_patch (mem : Pmem) (op : StoreOp) (addr data : BitVec 64) (j : ℕ) :
    Patches.apply mem (MemOp.store op addr data).patch j =
      if guestToHost addr ≤ j ∧ j < guestToHost addr + op.len then
        data.extractLsb' (8 * (j - guestToHost addr)) 8
      else mem j := by
  simp only [Patches.apply, MemOp.patch]
  split_ifs
  · rw [Option.getD_some]
  · rw [Option.getD_none]

/-- One operation writes its patch. -/
theorem memNext_memWriteCall (mem : Pmem) (x : MemInstr) (h : WindowInRam x.op.addr) :
    memNext dpi mem (memWriteCall x.regM) = Patches.apply mem x.op.patch := by
  obtain ⟨m, op, hm⟩ := x
  cases op with
  | load op addr => rw [memWriteCall_of_load hm]; rfl
  | store op addr data =>
    rw [memWriteCall_of_store hm]
    refine (dpiMemWrite_window mem op data m.pc h).trans (funext fun j => ?_)
    exact (getD_patch mem op addr data j).symm

/-- **The memory after any sequence of operations** holds at every index the byte last stored
there.

**Proof sketch.** Each operation writes its patch; the rest is `Patches.applyAll_eq_latest`. -/
theorem memAfter_eq_lastStored (xs : List MemInstr) (h : ∀ x ∈ xs, WindowInRam x.op.addr) :
    memAfter init (xs.map MemInstr.regM) = lastStored init (xs.map MemInstr.op) := by
  have happly : memAfter init (xs.map MemInstr.regM) =
      Patches.applyAll init ((xs.map MemInstr.op).map MemOp.patch) := by
    induction xs using List.reverseRecOn with
    | nil => rfl
    | append_singleton xs x ih =>
      have hx := h x (by simp)
      have hxs := ih fun y hy => h y (by simp [hy])
      rw [List.map_append, List.map_singleton, memAfter_append_singleton, hxs,
        memNext_memWriteCall _ x hx]
      simp [Patches.applyAll]
  rw [happly]
  exact funext fun j => Patches.applyAll_eq_latest _ _ _

/-- **Loads return the bytes last stored**, for every sequence of operations whose windows lie in
RAM, at every width and alignment.

**Proof sketch.** A load reads eight bytes of the memory, of which the extension keeps its own;
`memAfter_eq_lastStored` says what they are. -/
theorem served (past : List MemInstr) (x : MemInstr)
    (h : ∀ y ∈ past ++ [x], WindowInRam y.op.addr) :
    Served (lastStored init (past.map MemInstr.op)) (memAfter init (past.map MemInstr.regM))
      (memAfter init ((past ++ [x]).map MemInstr.regM))
      (memory dpi (memAfter init (past.map MemInstr.regM)) x.regM) x.op := by
  have hx : WindowInRam x.op.addr := h x (by simp)
  have hmem := memAfter_eq_lastStored init past fun y hy => h y (by simp [hy])
  have hnext : memAfter init ((past ++ [x]).map MemInstr.regM) =
      Patches.apply (memAfter init (past.map MemInstr.regM)) x.op.patch := by
    rw [List.map_append, List.map_singleton, memAfter_append_singleton,
      memNext_memWriteCall _ x hx]
  rw [hnext, hmem]
  obtain ⟨m, op, hm⟩ := x
  cases op with
  | load op addr =>
    refine ⟨?_, rfl⟩
    rw [memory_of_load dpi _ hm]
    exact (congrArg op.value (dpiMemRead_window _ m.pc hx)).trans (value_littleEndian op _ _)
  | store op addr data =>
    intro j
    exact getD_patch _ op addr data j

/-- A signed load of a half whose bytes come from two overlapping, misaligned stores. -/
theorem served_overlap :
    let past := [(MemOp.store .sw 0x80000001#64 0x11223344#64).instr,
      (MemOp.store .sb 0x80000003#64 0x8F#64).instr]
    Served (lastStored (image []) (past.map MemInstr.op))
      (memAfter (image []) (past.map MemInstr.regM))
      (memAfter (image []) ((past ++ [(MemOp.load .lh 0x80000002#64).instr]).map MemInstr.regM))
      0xFFFFFFFFFFFF8F33#64 (.load .lh 0x80000002#64) := by
  intro past
  have hwindow : ∀ y ∈ past ++ [(MemOp.load .lh 0x80000002#64).instr], WindowInRam y.op.addr := by
    decide +kernel
  have h := served (image []) past (MemOp.load .lh 0x80000002#64).instr hwindow
  have hvalue : memory dpi (memAfter (image []) (past.map MemInstr.regM))
      (MemOp.load .lh 0x80000002#64).instr.regM = 0xFFFFFFFFFFFF8F33#64 := by
    decide +kernel
  rw [hvalue] at h
  exact h

end Sequences

end Riscv64Cpu.Memory
