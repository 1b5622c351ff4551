import Riscv64Cpu.Memory.Pmem
import Riscv64Cpu.Pipeline.Drain

set_option relaxedAutoImplicit false
set_option autoImplicit false

/-!
# The atomic swap

`amoswap.w` in memory and write back, with the guest's memory.  The address, the write, its
length and the extension of the read data all have their case for it; the read itself is made for
loads only, so the destination receives `0`.

## Main definitions

* `Memory.word` — the word at a guest address.
* `Memory.Swaps` — what `amoswap.w` owes.

## Main results

* `Memory.mem_amoswapw`, `regfile_amoswapw` — what the processor does.
* `Memory.swaps_iff` — when that is a swap.
-/

namespace Riscv64Cpu.Memory

open Clocked Pipeline TopCpu

/-! ## Memory -/

/-- The word at a guest address. -/
def word (mem : Pmem) (addr : BitVec 64) : BitVec 32 := (pmemRead mem addr 4).setWidth 32

/-- A write of four bytes to RAM. -/
private lemma dpiMemWrite_four (mem : Pmem) {addr : BitVec 64} (data pc : BitVec 64)
    (h : inDram addr = true) :
    dpiMemWrite mem addr data 4#32 pc = storeBytes mem (guestToHost addr) 4 data := by
  have hserial : (addr == 0x10000000#64) = false := by
    rw [beq_eq_false_iff_ne]
    rintro rfl
    revert h
    decide
  rw [dpiMemWrite, hserial, h, if_neg Bool.false_ne_true, if_pos rfl]
  rfl

/-- The bytes that a write stores. -/
private lemma storeBytes_at (mem : Pmem) (i : ℕ) {len k : ℕ} (data : BitVec 64) (hk : k < len) :
    storeBytes mem i len data (i + k) = data.extractLsb' (8 * k) 8 := by
  rw [storeBytes, if_pos ⟨by omega, by omega⟩, Nat.add_sub_cancel_left]

/-- The bytes around a write. -/
private lemma storeBytes_around (mem : Pmem) {i len j : ℕ} (data : BitVec 64)
    (hj : j < i ∨ i + len ≤ j) : storeBytes mem i len data j = mem j := by
  rw [storeBytes, if_neg (by omega)]

/-! ## The info bits of `amoswap.w` -/

section InfoBits

variable {w : BitVec 32}

/-- `amoswap.w` is an atomic instruction. -/
lemma instAmo_of_instAmoswapw (h : instAmoswapw w = true) : instAmo w = true := by
  simp only [instAmoswapw, amoW, Bool.and_eq_true] at h
  exact h.1.1

/-- An atomic instruction is in no class that write back asks for first. -/
lemma classes_of_instAmo (h : instAmo w = true) : instJal w = false ∧ instJalr w = false ∧
    instLoad w = false ∧ instStore w = false ∧ instCsrInstr w = false := by
  have hs : instSystem w = false := by
    rw [instSystem, eq_of_beq h]
    decide
  have hc := (not_mret_csr_of_not_system hs).2
  unfold instJal instJalr instLoad instStore
  rw [eq_of_beq h]
  exact ⟨by decide, by decide, by decide, by decide, hc⟩

/-- An atomic instruction is neither a load nor a store. -/
private lemma decodeLoadStoreInfo_of_instAmo (h : instAmo w = true) :
    decodeLoadStoreInfo w = 0#11 := by
  obtain ⟨-, -, hl, hs, -⟩ := classes_of_instAmo h
  simp only [decodeLoadStoreInfo, instLb, instLh, instLw, instLd, instLbu, instLhu, instLwu,
    instSb, instSh, instSw, instSd, hl, hs, Bool.false_and]
  decide

/-- The bit of `amoswap.w` in the info of the atomic instructions. -/
lemma bit_decodeAmoInfo (h : instAmoswapw w = true) :
    Verilog.bit (decodeAmoInfo w) 17 = true := by
  simp [decodeAmoInfo, h]

end InfoBits

/-! ## Memory and write back -/

section Stages

variable {m : RegM} {w : BitVec 32} (h : m.Holds w) (hw : instAmoswapw w = true)
include h hw

/-- The memory stage sees `amoswap.w` and neither a load nor a store. -/
lemma info_amoswapw : m.amoswapw = true ∧ m.loadStoreInfo = 0#11 := by
  constructor
  · rw [RegM.amoswapw, h.amoInfo, bit_decodeAmoInfo hw]
  · rw [h.loadStoreInfo, decodeLoadStoreInfo_of_instAmo (instAmo_of_instAmoswapw hw)]

/-- The write that the memory stage makes. -/
private lemma memWriteCall_amoswapw :
    memWriteCall m = some ⟨m.regdata1, m.regdata2, 4#32, m.pc⟩ := by
  obtain ⟨hswap, hls⟩ := info_amoswapw h hw
  simp [memWriteCall, RegM.sb, RegM.sh, RegM.sw, RegM.sd, RegM.memAddr, hls, hswap]

/-- The memory stage does not read. -/
private lemma memory_amoswapw (mem : Pmem) : memory dpi mem m = 0#64 := by
  obtain ⟨hswap, hls⟩ := info_amoswapw h hw
  simp [memory, memRdata, loadExtend, RegM.load, RegM.lb, RegM.lh, RegM.lw, RegM.ld, RegM.lbu,
    RegM.lhu, RegM.lwu, hls, hswap]

/-- The register write that write back makes. -/
private lemma regWrite_amoswapw (mem : Pmem) (hrd : rd w ≠ 0#5) :
    (RegW.latch m (memory dpi mem m)).regWrite = some (rd w, 0#64) := by
  obtain ⟨hj, hjr, hl, -, hc⟩ := classes_of_instAmo (instAmo_of_instAmoswapw hw)
  have hW : (RegW.latch m (memory dpi mem m)).Holds w := RegW.holds_latch h _
  have hwen : decodeRegWen w = true := by
    simp [decodeRegWen, instAmo_of_instAmoswapw hw]
  have hdata : wbRegWdata (RegW.latch m (memory dpi mem m)) = memory dpi mem m := by
    simp [wbRegWdata, hW.opcodeInfo, hW.amoInfo, hj, hjr, hl, hc, bit_decodeAmoInfo hw]
    rfl
  rw [RegW.regWrite, hW.regWen, hW.regRd, hdata, hwen, if_pos ⟨rfl, hrd⟩,
    memory_amoswapw h hw]

end Stages

/-! ## The swap -/

/-- The swap of the word at `addr` with the low word of `data` from the state `s` on: two edges
later `rd` holds the sign-extended old word, and after the next edge the low word of `data` is in
memory and all other bytes are as they were. -/
structure Swaps (s : TopCpu Pmem) (rd : BitVec 5) (addr data : BitVec 64) : Prop where
  rd : rd ≠ 0#5 → (run dpi 2 s).regfile.reg rd = (word s.mem addr).signExtend 64
  bytes : ∀ k < 4, (step dpi false s).mem (guestToHost addr + k) = data.extractLsb' (8 * k) 8
  others : ∀ j, j < guestToHost addr ∨ guestToHost addr + 4 ≤ j →
    (step dpi false s).mem j = s.mem j

section Swap

variable {s : TopCpu Pmem} {w : BitVec 32} (h : s.regM.Holds w) (hw : instAmoswapw w = true)
include h hw

/-- The store of `amoswap.w`. -/
theorem mem_amoswapw (ha : inDram s.regM.regdata1 = true) : (step dpi false s).mem =
    storeBytes s.mem (guestToHost s.regM.regdata1) 4 s.regM.regdata2 := by
  rw [step_mem, memWriteCall_amoswapw h hw]
  exact dpiMemWrite_four s.mem s.regM.regdata2 s.regM.pc ha

/-- The destination of `amoswap.w` receives `0`. -/
theorem regfile_amoswapw (hrd : rd w ≠ 0#5) : (run dpi 2 s).regfile.reg (rd w) = 0#64 := by
  have hW : (step dpi false s).regW = RegW.latch s.regM (memory dpi s.mem s.regM) := step_regW ..
  have hreg : (run dpi 2 s).regfile.reg =
      applyWrite (step dpi false s).regfile.reg (step dpi false s).regW.regWrite :=
    step_regfile_reg ..
  rw [hreg, hW, regWrite_amoswapw h hw s.mem hrd, applyWrite_hit]

/-- **The atomic swap**: for every memory, every address in RAM, all data and every destination,
an `amoswap.w` in memory swaps exactly if its destination is `x0` or the old word is `0`. -/
theorem swaps_iff (ha : inDram s.regM.regdata1 = true) :
    Swaps s (rd w) s.regM.regdata1 s.regM.regdata2 ↔
      (rd w = 0#5 ∨ word s.mem s.regM.regdata1 = 0#32) := by
  have hzero : (word s.mem s.regM.regdata1).signExtend 64 = 0#64 ↔
      word s.mem s.regM.regdata1 = 0#32 := by
    constructor
    · intro hx
      apply BitVec.eq_of_toInt_eq
      rw [← BitVec.toInt_signExtend_of_le (by decide : 32 ≤ 64), hx]
      rfl
    · intro hx
      rw [hx]
      decide
  have hmem := mem_amoswapw h hw ha
  constructor
  · intro hs
    by_cases hrd : rd w = 0#5
    · exact .inl hrd
    · right
      rw [← hzero, ← hs.rd hrd, regfile_amoswapw h hw hrd]
  · intro hc
    refine ⟨fun hrd => ?_, fun k hk => ?_, fun j hj => ?_⟩
    · rw [regfile_amoswapw h hw hrd, hzero.mpr (hc.resolve_left hrd)]
    · rw [hmem, storeBytes_at _ _ _ hk]
    · rw [hmem, storeBytes_around _ _ hj]

end Swap

/-- `auipc x9, 1` and `amoswap.w x7, x6, (x9)`: the word behind the program is `0`. -/
theorem swaps_free_lock :
    Swaps (run dpi 4 (boot [0x00001497#32, 0x0864A3AF#32])) 7#5 0x80001000#64 6#64 := by
  have h : (run dpi 4 (boot [0x00001497#32, 0x0864A3AF#32])).regM.Holds 0x0864A3AF#32 := by
    constructor <;> decide +kernel
  exact (swaps_iff h (by decide) (by decide +kernel)).mpr (.inr (by decide +kernel))

/-- `auipc x9, 0` and `amoswap.w x7, x6, (x9)`: the word at the address is the `auipc`. -/
theorem old_word_lost : ¬ ∀ (s : TopCpu Pmem) (w : BitVec 32), Reachable dpi s →
    s.regM.Holds w → instAmoswapw w = true → inDram s.regM.regdata1 = true →
      s.regM.regdata1.toNat % 4 = 0 → Swaps s (rd w) s.regM.regdata1 s.regM.regdata2 := by
  intro hall
  have h : (run dpi 4 (boot [0x00000497#32, 0x0864A3AF#32])).regM.Holds 0x0864A3AF#32 := by
    constructor <;> decide +kernel
  have hr := (reachable_afterReset dpi Regfile.initial Csrfile.initial
    (image [0x00000497#32, 0x0864A3AF#32])).run 4
  have hrd := (hall _ _ hr h (by decide) (by decide +kernel) (by decide +kernel)).rd (by decide)
  revert hrd
  decide +kernel

end Riscv64Cpu.Memory
