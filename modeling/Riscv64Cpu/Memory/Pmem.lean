import Riscv64Cpu.Pipeline.TopCpu

set_option relaxedAutoImplicit false
set_option autoImplicit false

/-!
# The guest's physical memory

`memory.c` and the three memory functions of `dpi.c` that the processor imports.

## Main definitions

* `Memory.Pmem` — the host bytes from `pmem` on.
* `Memory.hostRead`, `hostWrite` — the little-endian accesses of 1, 2, 4 and 8 bytes.
* `Memory.pmemRead`, `pmemWrite` — the accesses at a guest address.
* `Memory.dpiInstrMemRead`, `dpiMemRead`, `dpiMemWrite` — the imported functions.
* `Memory.dpi` — the imported functions as the interface of the processor.
* `Memory.boot` — the processor with a program in memory after `npc_init`.

## Design

`pmem` has `CONFIG_MSIZE` bytes; the bytes of a `Pmem` from there on are what the host has
behind the array.  The character that a write to the serial port prints is not kept.
-/

namespace Riscv64Cpu.Memory

/-- `CONFIG_MBASE`. -/
def configMbase : ℕ := 0x80000000

/-- `CONFIG_MSIZE`. -/
def configMsize : ℕ := 0x8000000

/-- The host bytes from `pmem` on, by their distance from `pmem`. -/
abbrev Pmem := ℕ → BitVec 8

/-- The index of the byte `guest_to_host` points to. -/
def guestToHost (paddr : BitVec 64) : ℕ := paddr.toNat - configMbase

/-- The little-endian value of the `len` bytes from index `i` on. -/
def littleEndian (mem : Pmem) (i : ℕ) : ℕ → BitVec 64
  | 0 => 0#64
  | len + 1 => littleEndian mem (i + 1) len <<< 8 ||| (mem i).setWidth 64

/-- `host_read`.  No caller passes a length without a case, which stops the simulator. -/
def hostRead (mem : Pmem) (i : ℕ) : ℕ → BitVec 64
  | 1 => littleEndian mem i 1
  | 2 => littleEndian mem i 2
  | 4 => littleEndian mem i 4
  | 8 => littleEndian mem i 8
  | _ => 0#64

/-- The `len` low bytes of `data` stored from index `i` on. -/
def storeBytes (mem : Pmem) (i len : ℕ) (data : BitVec 64) : Pmem := fun j =>
  if i ≤ j ∧ j < i + len then data.extractLsb' (8 * (j - i)) 8 else mem j

/-- `host_write`. -/
def hostWrite (mem : Pmem) (i : ℕ) (len : ℕ) (data : BitVec 64) : Pmem :=
  match len with
  | 1 => storeBytes mem i 1 data
  | 2 => storeBytes mem i 2 data
  | 4 => storeBytes mem i 4 data
  | 8 => storeBytes mem i 8 data
  | _ => mem

/-- `pmem_read`. -/
def pmemRead (mem : Pmem) (addr : BitVec 64) (len : ℕ) : BitVec 64 :=
  hostRead mem (guestToHost addr) len

/-- `pmem_write`. -/
def pmemWrite (mem : Pmem) (addr : BitVec 64) (len : ℕ) (data : BitVec 64) : Pmem :=
  hostWrite mem (guestToHost addr) len data

/-- `addr >= CONFIG_MBASE && addr < CONFIG_MBASE + CONFIG_MSIZE`. -/
def inDram (addr : BitVec 64) : Bool :=
  decide (configMbase ≤ addr.toNat) && decide (addr.toNat < configMbase + configMsize)

/-- `dpi_instr_mem_read`. -/
def dpiInstrMemRead (mem : Pmem) (addr : BitVec 64) : BitVec 32 :=
  if inDram addr then (pmemRead mem (addr &&& 0xFFFFFFFC#64) 4).setWidth 32 else 0#32

/-- `dpi_mem_read`. -/
def dpiMemRead (mem : Pmem) (addr : BitVec 64) (len : BitVec 32) (_pc : BitVec 64) : BitVec 64 :=
  if addr == 0x0000000010000005#64 then 0x20#64
  else if inDram addr then pmemRead mem addr len.toNat
  else 0#64

/-- `dpi_mem_write`. -/
def dpiMemWrite (mem : Pmem) (addr data : BitVec 64) (len : BitVec 32) (_pc : BitVec 64) : Pmem :=
  if addr == 0x10000000#64 then mem
  else if inDram addr then pmemWrite mem addr len.toNat data
  else mem

/-- The memory functions the processor imports. -/
def dpi : Pipeline.Dpi Pmem where
  instrMemRead := dpiInstrMemRead
  memRead := dpiMemRead
  memWrite := dpiMemWrite

/-- The low bytes of a longer read. -/
lemma setWidth_littleEndian (mem : Pmem) (k n i : ℕ) :
    (littleEndian mem i (n + k)).setWidth (8 * n) = (littleEndian mem i n).setWidth (8 * n) := by
  induction n generalizing i with
  | zero => exact BitVec.of_length_zero
  | succ n ih =>
    ext j hj
    have hrest : (littleEndian mem (i + 1) (n + k)).getLsbD (j - 8) =
        (littleEndian mem (i + 1) n).getLsbD (j - 8) ∨ j < 8 := by
      by_cases h8 : j < 8
      · exact .inr h8
      · have := congrArg (fun x : BitVec (8 * n) => x.getLsbD (j - 8)) (ih (i + 1))
        simp only [BitVec.getLsbD_setWidth, show j - 8 < 8 * n by omega, decide_true,
          Bool.true_and] at this
        exact .inl this
    rw [show n + 1 + k = n + k + 1 by omega]
    simp only [littleEndian, BitVec.getElem_setWidth, BitVec.getLsbD_or, BitVec.getLsbD_shiftLeft]
    rcases hrest with hrest | h8
    · rw [hrest]
    · simp [h8]

/-- The low bytes of the eight that a load reads are those of a read of the length it needs. -/
lemma setWidth_dpiMemRead (mem : Pmem) (addr pc : BitVec 64) (n : ℕ)
    (hn : n = 1 ∨ n = 2 ∨ n = 4 ∨ n = 8) : (dpiMemRead mem addr 8#32 pc).setWidth (8 * n) =
      (dpiMemRead mem addr (BitVec.ofNat 32 n) pc).setWidth (8 * n) := by
  unfold dpiMemRead
  split_ifs
  · rfl
  · rcases hn with rfl | rfl | rfl | rfl
    · exact setWidth_littleEndian mem 7 1 (guestToHost addr)
    · exact setWidth_littleEndian mem 6 2 (guestToHost addr)
    · exact setWidth_littleEndian mem 4 4 (guestToHost addr)
    · rfl
  · rfl

/-- A memory with a program of 32-bit words at its base and zeros behind it. -/
def image (program : List (BitVec 32)) : Pmem := fun i =>
  (program.getD (i / 4) 0#32).extractLsb' (8 * (i % 4)) 8

/-- The processor after `npc_init` with a program in memory. -/
def boot (program : List (BitVec 32)) : Pipeline.TopCpu Pmem :=
  Pipeline.TopCpu.afterReset Pipeline.Regfile.initial Pipeline.Csrfile.initial (image program)

end Riscv64Cpu.Memory
