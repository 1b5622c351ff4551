import Riscv64Cpu.Memory.Pmem
import Mathlib.Algebra.Group.Nat.Defs
import Mathlib.Tactic.SplitIfs

set_option relaxedAutoImplicit false
set_option autoImplicit false

/-!
# The range checks in front of `pmem`

The three imported functions of `dpi.c` and the two functions of `memory.c` that check an address
before they follow it into `pmem`.

## Main definitions

* `Memory.paddrRead`, `paddrWrite` — the accesses that `in_pmem` guards.
* `Memory.GuestAccess` — a call of one of the five functions.
* `GuestAccess.touches` — the bytes of the host memory that the call reads or writes.
* `GuestAccess.Confined` — what the range checks are for.

## Main results

* `GuestAccess.value_congr`, `after_of_notMem` — nothing but the touched bytes matters.
* `GuestAccess.confined_iff` — the accesses that stay in `pmem`.
* `GuestAccess.sandboxed` — a sequence of accesses that end in RAM depends on `pmem` alone and
  changes nothing else.

## Design

The checks look at the first byte of an access, so an access that starts in the range and ends
behind it is carried out.  `CONFIG_DEVICE` is not set, and nothing defines it.
-/

namespace Riscv64Cpu.Memory

/-! ## The checked accesses of `memory.c` -/

/-- `in_pmem`. -/
def inPmem (addr : BitVec 64) : Bool :=
  decide (configMbase ≤ addr.toNat) && decide (addr.toNat ≤ configMbase + configMsize)

/-- `paddr_read`. -/
def paddrRead (mem : Pmem) (addr : BitVec 64) (len : ℕ) : BitVec 64 :=
  if inPmem addr then pmemRead mem addr len else 0#64

/-- `paddr_write`. -/
def paddrWrite (mem : Pmem) (addr : BitVec 64) (len : ℕ) (data : BitVec 64) : Pmem :=
  if inPmem addr then pmemWrite mem addr len data else mem

/-- The range of `dpi.c`. -/
lemma inDram_iff (addr : BitVec 64) : inDram addr = true ↔
    configMbase ≤ addr.toNat ∧ addr.toNat < configMbase + configMsize := by
  simp [inDram]

/-- The range of `in_pmem`, which is one byte longer. -/
lemma inPmem_iff (addr : BitVec 64) : inPmem addr = true ↔
    configMbase ≤ addr.toNat ∧ addr.toNat < configMbase + configMsize + 1 := by
  rw [inPmem, Bool.and_eq_true, decide_eq_true_eq, decide_eq_true_eq, Nat.lt_succ_iff]

/-- The registers of the serial port are not in RAM. -/
lemma serial_not_inDram :
    inDram 0x0000000010000005#64 = false ∧ inDram 0x10000000#64 = false := by
  decide

/-- The mask of an instruction fetch, for an address of 32 bits. -/
lemma toNat_aligned {addr : BitVec 64} (h : addr.toNat < 2 ^ 32) :
    (addr &&& 0xFFFFFFFC#64).toNat = addr.toNat / 4 * 4 := by
  have hmask : (0xFFFFFFFC#64).toNat = (2 ^ 30 - 1) <<< 2 := by decide
  have hshift : addr.toNat / 4 * 4 = (addr.toNat >>> 2) <<< 2 := by
    rw [Nat.shiftRight_eq_div_pow, Nat.shiftLeft_eq]
  rw [BitVec.toNat_and, hmask, hshift]
  refine Nat.eq_of_testBit_eq fun i => ?_
  rw [Nat.testBit_and, Nat.testBit_shiftLeft, Nat.testBit_shiftLeft, Nat.testBit_two_pow_sub_one,
    Nat.testBit_shiftRight]
  by_cases hi : i < 2
  · simp [show ¬ 2 ≤ i by omega]
  · rw [show 2 + (i - 2) = i by omega]
    by_cases hi' : i < 32
    · simp [show i - 2 < 30 by omega, show 2 ≤ i by omega]
    · have hpow : (2 : ℕ) ^ 32 ≤ 2 ^ i := Nat.pow_le_pow_right (by decide) (by omega)
      rw [Nat.testBit_lt_two_pow (Nat.lt_of_lt_of_le h hpow)]
      simp

/-! ## Touched bytes -/

/-- The indices of the bytes that `host_read` and `host_write` touch from index `i` on. -/
def hostTouches (i len : ℕ) : List ℕ :=
  match len with
  | 1 => List.range' i 1
  | 2 => List.range' i 2
  | 4 => List.range' i 4
  | 8 => List.range' i 8
  | _ => []

/-- The indices that `pmem_read` and `pmem_write` touch. -/
def pmemTouches (addr : BitVec 64) (len : ℕ) : List ℕ := hostTouches (guestToHost addr) len

/-- The lengths that `host_read` and `host_write` have a case for. -/
def LegalLen (len : ℕ) : Prop := len = 1 ∨ len = 2 ∨ len = 4 ∨ len = 8

instance (len : ℕ) : Decidable (LegalLen len) :=
  inferInstanceAs (Decidable (len = 1 ∨ len = 2 ∨ len = 4 ∨ len = 8))

/-- An access of a legal length touches its bytes in order. -/
lemma hostTouches_eq {len : ℕ} (h : LegalLen len) (i : ℕ) :
    hostTouches i len = List.range' i len := by
  rcases h with rfl | rfl | rfl | rfl <;> rfl

/-- A read of a legal length is little-endian. -/
lemma hostRead_eq (mem : Pmem) {len : ℕ} (h : LegalLen len) (i : ℕ) :
    hostRead mem i len = littleEndian mem i len := by
  rcases h with rfl | rfl | rfl | rfl <;> rfl

/-- A read of another length gives `0`. -/
lemma hostRead_of_not (mem : Pmem) {len : ℕ} (h : ¬ LegalLen len) (i : ℕ) :
    hostRead mem i len = 0#64 := by
  unfold hostRead
  split <;> first | rfl | exact absurd (by decide) h

/-- A write of a legal length stores its bytes. -/
lemma hostWrite_eq (mem : Pmem) {len : ℕ} (h : LegalLen len) (i : ℕ) (data : BitVec 64) :
    hostWrite mem i len data = storeBytes mem i len data := by
  rcases h with rfl | rfl | rfl | rfl <;> rfl

/-- A write of another length does nothing. -/
lemma hostWrite_of_not (mem : Pmem) {len : ℕ} (h : ¬ LegalLen len) (i : ℕ)
    (data : BitVec 64) : hostWrite mem i len data = mem := by
  unfold hostWrite
  split <;> first | rfl | exact absurd (by decide) h

/-- A little-endian value depends on its bytes. -/
private lemma littleEndian_congr {mem mem' : Pmem} (len : ℕ) : ∀ i : ℕ,
    (∀ j, i ≤ j → j < i + len → mem j = mem' j) →
    littleEndian mem i len = littleEndian mem' i len := by
  induction len with
  | zero => intro i _; rfl
  | succ len ih =>
    intro i h
    have hrest := ih (i + 1) fun j hj hj' => h j (by omega) (by omega)
    have hfirst := h i (Nat.le_refl i) (by omega)
    rw [littleEndian, littleEndian, hrest, hfirst]

/-- A host read depends on the bytes it touches. -/
lemma hostRead_congr {mem mem' : Pmem} {i len : ℕ}
    (h : ∀ j ∈ hostTouches i len, mem j = mem' j) : hostRead mem i len = hostRead mem' i len := by
  by_cases hlen : LegalLen len
  · rw [hostTouches_eq hlen] at h
    rw [hostRead_eq mem hlen, hostRead_eq mem' hlen]
    refine littleEndian_congr len i fun j hj hj' => h j ?_
    rw [List.mem_range'_1]
    exact ⟨hj, hj'⟩
  · rw [hostRead_of_not mem hlen, hostRead_of_not mem' hlen]

/-- A host write leaves the bytes it does not touch. -/
lemma hostWrite_of_notMem (mem : Pmem) {i len j : ℕ} (data : BitVec 64)
    (h : j ∉ hostTouches i len) : hostWrite mem i len data j = mem j := by
  by_cases hlen : LegalLen len
  · rw [hostTouches_eq hlen, List.mem_range'_1] at h
    rw [hostWrite_eq mem hlen, storeBytes, if_neg h]
  · rw [hostWrite_of_not mem hlen]

/-- A byte after a host write depends on what was there before. -/
lemma hostWrite_congr {mem mem' : Pmem} {i len j : ℕ} (data : BitVec 64) (h : mem j = mem' j) :
    hostWrite mem i len data j = hostWrite mem' i len data j := by
  by_cases hlen : LegalLen len
  · rw [hostWrite_eq mem hlen, hostWrite_eq mem' hlen, storeBytes, storeBytes, h]
  · rw [hostWrite_of_not mem hlen, hostWrite_of_not mem' hlen, h]

/-! ## Guest accesses -/

/-- A call of one of the functions that check an address of the guest. -/
inductive GuestAccess
  | instrMemRead (addr : BitVec 64)
  | memRead (addr : BitVec 64) (len : ℕ) (pc : BitVec 64)
  | memWrite (addr data : BitVec 64) (len : ℕ) (pc : BitVec 64)
  | paddrRead (addr : BitVec 64) (len : ℕ)
  | paddrWrite (addr : BitVec 64) (len : ℕ) (data : BitVec 64)

namespace GuestAccess

/-- The number of bytes of the access. -/
def len : GuestAccess → ℕ
  | instrMemRead _ => 4
  | memRead _ len _ => len
  | memWrite _ _ len _ => len
  | .paddrRead _ len => len
  | .paddrWrite _ len _ => len

/-- The address of the first byte of the access; an instruction fetch reads the aligned word. -/
def start : GuestAccess → ℕ
  | instrMemRead addr => addr.toNat / 4 * 4
  | memRead addr _ _ => addr.toNat
  | memWrite addr _ _ _ => addr.toNat
  | .paddrRead addr _ => addr.toNat
  | .paddrWrite addr _ _ => addr.toNat

/-- What the call returns, in 64 bits; `0` for a write. -/
def value (mem : Pmem) : GuestAccess → BitVec 64
  | instrMemRead addr => (dpiInstrMemRead mem addr).setWidth 64
  | memRead addr len pc => dpiMemRead mem addr (BitVec.ofNat 32 len) pc
  | memWrite _ _ _ _ => 0#64
  | .paddrRead addr len => Memory.paddrRead mem addr len
  | .paddrWrite _ _ _ => 0#64

/-- The memory after the call. -/
def after (mem : Pmem) : GuestAccess → Pmem
  | instrMemRead _ => mem
  | memRead _ _ _ => mem
  | memWrite addr data len pc => dpiMemWrite mem addr data (BitVec.ofNat 32 len) pc
  | .paddrRead _ _ => mem
  | .paddrWrite addr len data => Memory.paddrWrite mem addr len data

/-- The indices from `pmem` on of the bytes that the call reads or writes, with the branches of
the functions. -/
def touches : GuestAccess → List ℕ
  | instrMemRead addr => if inDram addr then pmemTouches (addr &&& 0xFFFFFFFC#64) 4 else []
  | memRead addr len _ =>
    if addr == 0x0000000010000005#64 then []
    else if inDram addr then pmemTouches addr (BitVec.ofNat 32 len).toNat
    else []
  | memWrite addr _ len _ =>
    if addr == 0x10000000#64 then []
    else if inDram addr then pmemTouches addr (BitVec.ofNat 32 len).toNat
    else []
  | .paddrRead addr len => if inPmem addr then pmemTouches addr len else []
  | .paddrWrite addr len _ => if inPmem addr then pmemTouches addr len else []

variable {mem mem' : Pmem}

/-- The returned value depends on the touched bytes. -/
theorem value_congr (a : GuestAccess) (h : ∀ i ∈ a.touches, mem i = mem' i) :
    a.value mem = a.value mem' := by
  cases a with
  | instrMemRead addr =>
    simp only [value, touches, dpiInstrMemRead] at h ⊢
    split_ifs at h ⊢
    · rw [pmemRead, pmemRead, hostRead_congr h]
    · rfl
  | memRead addr len pc =>
    simp only [value, touches, dpiMemRead] at h ⊢
    split_ifs at h ⊢
    · rfl
    · exact hostRead_congr h
    · rfl
  | memWrite addr data len pc => rfl
  | paddrRead addr len =>
    simp only [value, touches, Memory.paddrRead] at h ⊢
    split_ifs at h ⊢
    · exact hostRead_congr h
    · rfl
  | paddrWrite addr len data => rfl

/-- The call leaves the bytes it does not touch. -/
theorem after_of_notMem (a : GuestAccess) {i : ℕ} (h : i ∉ a.touches) : a.after mem i = mem i := by
  cases a with
  | instrMemRead addr => rfl
  | memRead addr len pc => rfl
  | memWrite addr data len pc =>
    simp only [after, touches, dpiMemWrite] at h ⊢
    split_ifs at h ⊢
    · rfl
    · exact hostWrite_of_notMem mem data h
    · rfl
  | paddrRead addr len => rfl
  | paddrWrite addr len data =>
    simp only [after, touches, Memory.paddrWrite] at h ⊢
    split_ifs at h ⊢
    · exact hostWrite_of_notMem mem data h
    · rfl

/-- A byte after the call depends on what was there before. -/
lemma after_congr (a : GuestAccess) {i : ℕ} (h : mem i = mem' i) :
    a.after mem i = a.after mem' i := by
  cases a with
  | instrMemRead addr => exact h
  | memRead addr len pc => exact h
  | memWrite addr data len pc =>
    simp only [after, dpiMemWrite]
    split_ifs
    · exact h
    · exact hostWrite_congr data h
    · exact h
  | paddrRead addr len => exact h
  | paddrWrite addr len data =>
    simp only [after, Memory.paddrWrite]
    split_ifs
    · exact hostWrite_congr data h
    · exact h

/-! ## Accesses that stay in `pmem` -/

/-- The call touches `pmem` only, and when a byte of the access is not in RAM it takes the
out-of-range path: it touches nothing, a read returns `0` and a write is dropped. -/
structure Confined (mem : Pmem) (a : GuestAccess) : Prop where
  inside : ∀ i ∈ a.touches, i < configMsize
  outside : (∃ j, a.start ≤ j ∧ j < a.start + a.len ∧
      ¬ (configMbase ≤ j ∧ j < configMbase + configMsize)) →
    a.touches = [] ∧ a.value mem = 0#64 ∧ a.after mem = mem

/-- The accesses that the range checks treat right: not those that start in the last bytes of RAM
and end behind it, and for the two functions with `in_pmem` not those that start right behind it.
A read of the serial port's status register is answered by the port. -/
def Kept : GuestAccess → Prop
  | instrMemRead _ => True
  | memRead addr len _ => addr ≠ 0x0000000010000005#64 ∧
    (addr.toNat < configMbase + configMsize → addr.toNat + len ≤ configMbase + configMsize)
  | memWrite addr _ len _ =>
    addr.toNat < configMbase + configMsize → addr.toNat + len ≤ configMbase + configMsize
  | .paddrRead addr len | .paddrWrite addr len _ =>
    addr.toNat ≤ configMbase + configMsize → addr.toNat + len ≤ configMbase + configMsize

/-- A call on the out-of-range path is confined. -/
lemma confined_of_dropped {a : GuestAccess} (ht : a.touches = []) (hv : a.value mem = 0#64)
    (hm : a.after mem = mem) : a.Confined mem where
  inside := by
    rw [ht]
    intro i hi
    exact absurd hi List.not_mem_nil
  outside _ := ⟨ht, hv, hm⟩

/-- A call that follows an address of RAM into `pmem` is confined when it ends in RAM. -/
lemma confined_iff_of_pmemTouches {a : GuestAccess} {addr : BitVec 64} (hlen : LegalLen a.len)
    (hstart : a.start = addr.toNat) (hbase : configMbase ≤ addr.toNat)
    (ht : a.touches = pmemTouches addr a.len) :
    a.Confined mem ↔ addr.toNat + a.len ≤ configMbase + configMsize := by
  have hpos : 0 < a.len := by
    unfold LegalLen at hlen
    omega
  have hmem : ∀ i, i ∈ a.touches ↔ guestToHost addr ≤ i ∧ i < guestToHost addr + a.len := by
    intro i
    rw [ht, pmemTouches, hostTouches_eq hlen, List.mem_range'_1]
  unfold guestToHost at hmem
  constructor
  · intro h
    have hlast := h.inside (addr.toNat - configMbase + (a.len - 1)) ((hmem _).mpr (by omega))
    omega
  · intro hend
    constructor
    · intro i hi
      have := (hmem i).mp hi
      omega
    · rintro ⟨j, hj, hj', hout⟩
      omega

/-- An instruction fetch stays in `pmem`: the aligned word of an address in RAM lies in RAM. -/
lemma confined_instrMemRead (mem : Pmem) (addr : BitVec 64) :
    (instrMemRead addr).Confined mem := by
  cases hin : inDram addr with
  | false =>
    refine confined_of_dropped ?_ ?_ rfl
    · simp [touches, hin]
    · simp [value, dpiInstrMemRead, hin]
  | true =>
    have hrange : configMbase ≤ addr.toNat ∧ addr.toNat < configMbase + configMsize := by
      simpa [inDram] using hin
    unfold configMbase configMsize at hrange
    have haligned : (addr &&& 0xFFFFFFFC#64).toNat = addr.toNat / 4 * 4 :=
      toNat_aligned (by omega)
    have hword : configMbase ≤ (addr &&& 0xFFFFFFFC#64).toNat ∧
        (addr &&& 0xFFFFFFFC#64).toNat + 4 ≤ configMbase + configMsize := by
      rw [haligned]
      unfold configMbase configMsize
      omega
    refine (confined_iff_of_pmemTouches (a := instrMemRead addr) ?_ ?_ hword.1 ?_).mpr hword.2
    · exact .inr (.inr (.inl rfl))
    · exact haligned.symm
    · simp [touches, hin, len]

/-- A call whose address passes a check with the bound `bound` is confined when it ends in RAM. -/
lemma confined_iff_of_check {a : GuestAccess} {addr : BitVec 64} {check : Bool} {bound : ℕ}
    (hlen : LegalLen a.len) (hstart : a.start = addr.toNat)
    (hcheck : check = true ↔ configMbase ≤ addr.toNat ∧ addr.toNat < bound)
    (ht : a.touches = if check then pmemTouches addr a.len else [])
    (hdrop : check = false → a.value mem = 0#64 ∧ a.after mem = mem) :
    a.Confined mem ↔ (addr.toNat < bound → addr.toNat + a.len ≤ configMbase + configMsize) := by
  cases hc : check with
  | false =>
    rw [hc, if_neg Bool.false_ne_true] at ht
    refine iff_of_true (confined_of_dropped ht (hdrop hc).1 (hdrop hc).2) fun haddr => ?_
    have hlow : ¬ (configMbase ≤ addr.toNat ∧ addr.toNat < bound) := by
      rw [← hcheck, hc]
      exact Bool.false_ne_true
    unfold LegalLen at hlen
    unfold configMbase configMsize at *
    omega
  | true =>
    rw [hc, if_pos rfl] at ht
    have hrange := hcheck.mp hc
    rw [confined_iff_of_pmemTouches hlen hstart hrange.1 ht]
    exact ⟨fun h _ => h, fun h => h hrange.2⟩

/-- **The accesses that stay in `pmem`.**

**Proof sketch.** A call whose first byte the check rejects is dropped.  Where the check lets it
through, the address is followed into `pmem`, and the access stays there if and only if its last
byte does.  A fetch is aligned first, and RAM ends at a multiple of four. -/
theorem confined_iff (mem : Pmem) (a : GuestAccess) (hlen : LegalLen a.len) :
    a.Confined mem ↔ a.Kept := by
  have hint : a.len % 4294967296 = a.len := by
    rcases hlen with h | h | h | h <;> rw [h]
  cases a with
  | instrMemRead addr => exact iff_of_true (confined_instrMemRead mem addr) trivial
  | memRead addr len pc =>
    by_cases hserial : addr = 0x0000000010000005#64
    · -- the status register reads `0x20`, which is not what the out-of-range path returns
      refine iff_of_false (fun h => ?_) fun h => h.1 hserial
      have hpos : 0 < len := by
        change LegalLen len at hlen
        unfold LegalLen at hlen
        omega
      have hzero := (h.outside ⟨addr.toNat, Nat.le_refl _, Nat.lt_add_of_pos_right hpos, by
        rw [hserial]
        decide⟩).2.1
      simp [value, dpiMemRead, hserial] at hzero
    · rw [confined_iff_of_check hlen rfl (inDram_iff addr)]
      · exact ⟨fun h => ⟨hserial, h⟩, fun h => h.2⟩
      · have hlen' : len % 4294967296 = len := hint
        simp [touches, hserial, GuestAccess.len, hlen']
      · intro hc
        simp [value, after, dpiMemRead, hserial, hc]
  | memWrite addr data len pc =>
    refine confined_iff_of_check hlen rfl (inDram_iff addr) ?_ fun hc => ?_
    · by_cases hserial : addr = 0x10000000#64
      · simp [touches, hserial, serial_not_inDram.2]
      · have hlen' : len % 4294967296 = len := hint
        simp [touches, hserial, GuestAccess.len, hlen']
    · simp [value, after, dpiMemWrite, hc]
  | paddrRead addr len =>
    rw [confined_iff_of_check hlen rfl (inPmem_iff addr) rfl]
    · simp only [Kept, Nat.lt_succ_iff]
      rfl
    · intro hc
      simp [value, after, Memory.paddrRead, hc]
  | paddrWrite addr len data =>
    rw [confined_iff_of_check hlen rfl (inPmem_iff addr) rfl]
    · simp only [Kept, Nat.lt_succ_iff]
      rfl
    · intro hc
      simp [value, after, Memory.paddrWrite, hc]

/-- The last load that stays in `pmem`. -/
theorem confined_last_load : LegalLen 8 ∧
    (memRead 0x87FFFFF8#64 8 0#64).Confined (image []) := by
  refine ⟨by decide, ?_⟩
  exact (confined_iff (image []) (memRead 0x87FFFFF8#64 8 0#64) (by decide)).mpr
    ⟨by decide, fun _ => by decide⟩

/-- A load of the last byte of RAM reads the seven bytes behind `pmem` as well. -/
theorem not_confined : ¬ ∀ (mem : Pmem) (a : GuestAccess), LegalLen a.len → a.Confined mem := by
  intro h
  have hload := (h (image []) (memRead 0x87FFFFFF#64 8 0#64) (by decide)).inside configMsize
  revert hload
  decide +kernel

/-! ## Sequences of accesses -/

/-- The access does not start in RAM and end behind it; for the two functions with `in_pmem`, it
does not start right behind RAM either. -/
def EndsInRam : GuestAccess → Prop
  | instrMemRead _ => True
  | memRead addr len _ | memWrite addr _ len _ =>
    addr.toNat < configMbase + configMsize → addr.toNat + len ≤ configMbase + configMsize
  | .paddrRead addr len | .paddrWrite addr len _ =>
    addr.toNat ≤ configMbase + configMsize → addr.toNat + len ≤ configMbase + configMsize

/-- A call whose address passes a check with the bound `bound` touches bytes of `pmem` when its
access ends in RAM. -/
lemma lt_of_mem_checked {addr : BitVec 64} {check : Bool} {len bound : ℕ} (hlen : LegalLen len)
    (hcheck : check = true ↔ configMbase ≤ addr.toNat ∧ addr.toNat < bound)
    (hend : addr.toNat < bound → addr.toNat + len ≤ configMbase + configMsize) :
    ∀ i ∈ (if check then pmemTouches addr len else []), i < configMsize := by
  intro i hi
  split_ifs at hi with hc
  · obtain ⟨hbase, hbound⟩ := hcheck.mp hc
    have hlast := hend hbound
    rw [pmemTouches, hostTouches_eq hlen, List.mem_range'_1, guestToHost] at hi
    omega
  · exact absurd hi List.not_mem_nil

/-- A call whose access ends in RAM touches bytes of `pmem` only. -/
private lemma lt_of_mem_touches {a : GuestAccess} (hlen : LegalLen a.len) (hend : a.EndsInRam) :
    ∀ i ∈ a.touches, i < configMsize := by
  have hint : a.len % 4294967296 = a.len := by
    rcases hlen with h | h | h | h <;> rw [h]
  cases a with
  | instrMemRead addr => exact (confined_instrMemRead (fun _ => 0#8) addr).inside
  | memRead addr len pc =>
    have hlen' : (BitVec.ofNat 32 len).toNat = len := hint
    by_cases hserial : (addr == 0x0000000010000005#64) = true
    · rw [touches, if_pos hserial]
      exact fun i hi => absurd hi List.not_mem_nil
    · rw [touches, if_neg hserial, hlen']
      exact lt_of_mem_checked hlen (inDram_iff addr) hend
  | memWrite addr data len pc =>
    have hlen' : (BitVec.ofNat 32 len).toNat = len := hint
    by_cases hserial : (addr == 0x10000000#64) = true
    · rw [touches, if_pos hserial]
      exact fun i hi => absurd hi List.not_mem_nil
    · rw [touches, if_neg hserial, hlen']
      exact lt_of_mem_checked hlen (inDram_iff addr) hend
  | paddrRead addr len =>
    exact lt_of_mem_checked hlen (inPmem_iff addr) fun h => hend (Nat.lt_succ_iff.mp h)
  | paddrWrite addr len data =>
    exact lt_of_mem_checked hlen (inPmem_iff addr) fun h => hend (Nat.lt_succ_iff.mp h)

/-- What the calls of a sequence return. -/
def answers : Pmem → List GuestAccess → List (BitVec 64)
  | _, [] => []
  | mem, a :: as => a.value mem :: answers (a.after mem) as

/-- The memory after a sequence of calls. -/
def afterAll (mem : Pmem) (as : List GuestAccess) : Pmem := as.foldl after mem

/-- **The range checks are a sandbox.**  A sequence of calls whose accesses end in RAM changes no
byte outside of `pmem`, and what it returns and leaves in `pmem` depends on the bytes of `pmem`
alone.

**Proof sketch.** Such a call touches bytes of `pmem` only (`lt_of_mem_touches`).  So it returns the
same in memories that agree there (`value_congr`), leaves the other bytes (`after_of_notMem`), and
the memories agree afterwards (`after_congr`). -/
theorem sandboxed {as : List GuestAccess} (h : ∀ a ∈ as, LegalLen a.len ∧ a.EndsInRam)
    (hmem : ∀ i < configMsize, mem i = mem' i) :
    answers mem as = answers mem' as ∧
      (∀ i < configMsize, afterAll mem as i = afterAll mem' as i) ∧
      ∀ i, configMsize ≤ i → afterAll mem as i = mem i := by
  induction as generalizing mem mem' with
  | nil => exact ⟨rfl, hmem, fun _ _ => rfl⟩
  | cons a as ih =>
    obtain ⟨hlen, hend⟩ := h a List.mem_cons_self
    have htouches := lt_of_mem_touches hlen hend
    obtain ⟨hanswers, hinside, houtside⟩ := ih (fun b hb => h b (List.mem_cons_of_mem a hb))
      fun i hi => a.after_congr (hmem i hi)
    refine ⟨?_, hinside, fun i hi => ?_⟩
    · rw [answers, answers, hanswers, a.value_congr fun i hi => hmem i (htouches i hi)]
    · have hnot : i ∉ a.touches := fun hin => absurd (htouches i hin) (Nat.not_lt.mpr hi)
      exact (houtside i hi).trans (a.after_of_notMem hnot)

/-- A store to the last word of RAM and its load, in two memories that differ behind `pmem`. -/
theorem sandboxed_lastWord :
    let as := [memWrite 0x87FFFFFC#64 7#64 4 0#64, memRead 0x87FFFFFC#64 4 0#64]
    let mem' := Function.update (image []) configMsize 1#8
    answers (image []) as = answers mem' as ∧
      (∀ i < configMsize, afterAll (image []) as i = afterAll mem' as i) ∧
      ∀ i, configMsize ≤ i → afterAll (image []) as i = image [] i := by
  intro as mem'
  refine sandboxed ?_ fun i hi => (Function.update_of_ne (Nat.ne_of_lt hi) _ _).symm
  simp only [as, List.forall_mem_cons]
  exact ⟨⟨by decide, fun _ => by decide⟩, ⟨by decide, fun _ => by decide⟩, by simp⟩

end GuestAccess

end Riscv64Cpu.Memory
