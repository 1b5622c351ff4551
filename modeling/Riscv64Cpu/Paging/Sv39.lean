import Riscv64Cpu.Paging.Walk

set_option relaxedAutoImplicit false
set_option autoImplicit false

/-!
# Sv39 address translation

Page-based 39-bit virtual memory as the privileged architecture states it: three levels of
tables with 512 entries of eight bytes.  Permissions and the accessed and dirty bits are left out.

## Main definitions

* `Sv39.Pte` — a page table entry and its fields.
* `Sv39.walk` — the walk from the root table.
* `Sv39.physAddr` — the physical address that a leaf gives.
* `Sv39.Canonical`, `Sv39.Aligned` — the two checks besides those of the walk.
* `Sv39.translate` — the translation; `none` is a page fault.

## Main results

* `Sv39.translate_eq_some_iff`, `translate_eq_none_iff` — when an address translates.
* `Sv39.toNat_physAddr_lt` — physical addresses have 56 bits.
-/

namespace Sv39

open Paging

/-! ## Addresses and entries -/

/-- `va.vpn[level]`. -/
def vpn (va : BitVec 64) (level : ℕ) : BitVec 9 := va.extractLsb' (12 + 9 * level) 9

/-- `a + va.vpn[i] * PTESIZE` for the table in the page `ppn`. -/
def pteAddr (ppn : BitVec 44) (vpn : BitVec 9) : BitVec 64 :=
  BitVec.ofNat 64 (ppn.toNat * 4096 + vpn.toNat * 8)

/-- A page table entry. -/
abbrev Pte := BitVec 64

namespace Pte

variable (pte : Pte)

/-- The entry is valid. -/
def v : Bool := pte.getLsbD 0
/-- The page may be read. -/
def r : Bool := pte.getLsbD 1
/-- The page may be written. -/
def w : Bool := pte.getLsbD 2
/-- The page may be executed. -/
def x : Bool := pte.getLsbD 3
/-- The physical page number. -/
def ppn : BitVec 44 := pte.extractLsb' 10 44

end Pte

/-- What a page table entry says. -/
def entryOf (pte : Pte) : Entry (BitVec 44) Pte :=
  if !pte.v || (!pte.r && pte.w) then .invalid
  else if pte.r || pte.x then .leaf pte
  else .pointer pte.ppn

/-! ## The walk -/

section Walk

variable (read : BitVec 64 → BitVec 64) (root : BitVec 44) (va : BitVec 64)

/-- The entry for `va` in the table in page `ppn`. -/
def entry (level : ℕ) (ppn : BitVec 44) : Entry (BitVec 44) Pte :=
  entryOf (read (pteAddr ppn (vpn va level)))

/-- The walk for `va` from the root table. -/
def walk : Outcome Pte := Paging.walk (entry read va) 2 root

/-- The physical address for `va` under a leaf of a level: its page number is that of the leaf
above the page numbers that the leaf's level leaves to `va`. -/
def physAddr (level : ℕ) (pte : Pte) : BitVec 64 :=
  BitVec.ofNat 64 (pte.ppn.toNat / 2 ^ (9 * level) * 2 ^ (12 + 9 * level) +
    va.toNat % 2 ^ (12 + 9 * level))

/-- Bits 63 to 39 of the address are all equal to bit 38. -/
def Canonical : Prop := ∀ i < 64, 39 ≤ i → va.getLsbD i = va.getLsbD 38

instance : Decidable (Canonical va) := inferInstanceAs (Decidable (∀ i < 64, _))

/-- The page numbers of a leaf below its level are zero. -/
def Aligned (level : ℕ) (pte : Pte) : Prop := pte.ppn.toNat % 2 ^ (9 * level) = 0

instance (level : ℕ) (pte : Pte) : Decidable (Aligned level pte) :=
  inferInstanceAs (Decidable (_ = _))

/-- The translation of `va`. -/
def translate : Option (BitVec 64) :=
  if Canonical va then
    match (walk read root va).leaf with
    | some pte =>
      if Aligned (walk read root va).level pte then some (physAddr va (walk read root va).level pte)
      else none
    | none => none
  else none

variable {read} {root} {va}

/-- An address translates exactly when it is canonical and its walk reaches an aligned leaf. -/
theorem translate_eq_some_iff {pa : BitVec 64} : translate read root va = some pa ↔
    Canonical va ∧ ∃ pte, (walk read root va).leaf = some pte ∧
      Aligned (walk read root va).level pte ∧
      pa = physAddr va (walk read root va).level pte := by
  unfold translate
  by_cases hc : Canonical va
  · rw [if_pos hc]
    cases hl : (walk read root va).leaf with
    | none => simp
    | some pte =>
      by_cases ha : Aligned (walk read root va).level pte
      · simp [hc, ha, eq_comm]
      · simp [ha]
  · simp [hc]

/-- The page faults: a walk without a leaf, a misaligned leaf, or an address that is not
canonical. -/
theorem translate_eq_none_iff : translate read root va = none ↔
    ∀ pte, (walk read root va).leaf = some pte →
      ¬ (Canonical va ∧ Aligned (walk read root va).level pte) := by
  unfold translate
  by_cases hc : Canonical va
  · rw [if_pos hc]
    cases hl : (walk read root va).leaf with
    | none => simp
    | some pte =>
      by_cases ha : Aligned (walk read root va).level pte <;> simp [hc, ha]
  · simp [hc]

/-- A walk ends at one of the three levels. -/
lemma walk_level_le_two : (walk read root va).level ≤ 2 := walk_level_le 2 root

variable (va) in
/-- A physical address has 56 bits. -/
theorem toNat_physAddr_lt (level : ℕ) (pte : Pte) (h : level ≤ 2) :
    (physAddr va level pte).toNat < 2 ^ 56 := by
  have hppn : pte.ppn.toNat < 2 ^ 44 := pte.ppn.isLt
  have hl : level = 0 ∨ level = 1 ∨ level = 2 := by omega
  rw [physAddr, BitVec.toNat_ofNat]
  refine Nat.lt_of_le_of_lt (Nat.mod_le _ _) ?_
  rcases hl with rfl | rfl | rfl <;> omega

end Walk

end Sv39
