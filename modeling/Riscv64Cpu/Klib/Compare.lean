import Riscv64Cpu.Collections.Lexicographic
import Riscv64Cpu.Klib.Memmove
import Riscv64Cpu.Klib.Stdio

set_option relaxedAutoImplicit false
set_option autoImplicit false

/-!
# Comparison of strings and of memory

`strcmp`, `strncmp` and `memcmp` of `klib/src/string.c`.  They subtract plain characters, whose
signedness depends on the target.

## Main definitions

* `Klib.PlainChar` — what a plain `char` is on a target.
* `Klib.strcmp`, `strncmp`, `memcmp` — the three functions.
* `Klib.Compares` — what a comparison owes: the order of the bytes as unsigned values.
* `Klib.KeepsOrder` — the target orders the deciding bytes as unsigned ones.

## Main results

* `Klib.strcmp_scans`, `strncmp_scans`, `memcmp_scans` — the three loops find the first difference.
* `Klib.comparisons_iff` — when the order is that of unsigned bytes, and that it is always an order.

## Design

The target's plain `char` is a parameter.  The two pointers may point into one memory or into two.
A comparison records the indices at which it reads, which are the same for both arrays.  The `int`
index of `strcmp` wraps around when it overflows: it is negative then, and outside of every string.
-/

namespace Riscv64Cpu.Klib

open Lexicographic

/-! ## Plain characters -/

/-- The plain `char` of a target: unsigned on riscv, signed on x86 and native. -/
inductive PlainChar where
  | unsigned
  | signed
deriving DecidableEq

namespace PlainChar

/-- The promotion of a `char` to an `int`. -/
def promote : PlainChar → BitVec 8 → BitVec 32
  | unsigned, c => c.setWidth 32
  | signed, c => c.signExtend 32

/-- The value of a `char`. -/
def value (t : PlainChar) (c : BitVec 8) : ℤ := (t.promote c).toInt

/-- The value of an unsigned character. -/
lemma value_unsigned (c : BitVec 8) : unsigned.value c = c.toNat := by
  have h : (c.setWidth 32).toNat = c.toNat := BitVec.toNat_setWidth_of_le (by decide)
  show (c.setWidth 32).toInt = _
  rw [BitVec.toInt_eq_toNat_of_lt (by omega), h]

/-- The value of a signed character. -/
lemma value_signed (c : BitVec 8) :
    signed.value c = if c < 0x80#8 then (c.toNat : ℤ) else c.toNat - 256 := by
  have hlt : c < 0x80#8 ↔ 2 * c.toNat < 2 ^ 8 := by
    rw [BitVec.lt_def, BitVec.toNat_ofNat]
    omega
  show (c.signExtend 32).toInt = _
  rw [BitVec.toInt_signExtend_of_le (by decide), BitVec.toInt_eq_toNat_cond]
  simp only [hlt]
  rfl

/-- Characters below `0x80` have the same value on every target. -/
lemma value_of_lt (t : PlainChar) {c : BitVec 8} (h : c < 0x80#8) : t.value c = c.toNat := by
  cases t with
  | unsigned => exact value_unsigned c
  | signed => rw [value_signed, if_pos h]

/-- The range of a character on either target. -/
lemma value_bounds (t : PlainChar) (c : BitVec 8) : -128 ≤ t.value c ∧ t.value c < 256 := by
  cases t with
  | unsigned =>
    rw [value_unsigned]
    omega
  | signed =>
    simp only [value_signed, BitVec.lt_def, BitVec.toNat_ofNat]
    split_ifs <;> omega

/-- Characters with the same value are the same. -/
lemma value_injective (t : PlainChar) : Function.Injective t.value := by
  intro a b h
  apply BitVec.eq_of_toNat_eq
  cases t with
  | unsigned =>
    rw [value_unsigned, value_unsigned] at h
    omega
  | signed =>
    simp only [value_signed, BitVec.lt_def, BitVec.toNat_ofNat] at h
    split_ifs at h <;> omega

/-- A difference of characters does not overflow. -/
lemma toInt_promote_sub (t : PlainChar) (a b : BitVec 8) :
    (t.promote a - t.promote b).toInt = t.value a - t.value b := by
  have ha := t.value_bounds a
  have hb := t.value_bounds b
  rw [BitVec.toInt_sub]
  exact Int.bmod_eq_of_le (by unfold value at *; omega) (by unfold value at *; omega)

end PlainChar

/-! ## The functions -/

/-- What a comparison returns, and the indices at which it read the two arrays. -/
structure Comparison where
  ret : BitVec 32
  reads : List ℤ

section Functions

variable (t : PlainChar)

/-- `s1[i] - s2[i]`. -/
def charDiff (a b : BitVec 8) : BitVec 32 := t.promote a - t.promote b

/-- `for( ; s1[i] == s2[i]; ++i)` of `strcmp`, from `i` on. -/
def strcmpLoop (m₁ : Mem) (s1 : ℕ) (m₂ : Mem) (s2 : ℕ) :
    ℕ → BitVec 32 → List ℤ → Option Comparison
  | 0, _, _ => none
  | fuel + 1, i, reads =>
    let reads := i.toInt :: reads
    if m₁ (elem s1 i) = m₂ (elem s2 i) then
      if m₁ (elem s1 i) = 0#8 then some { ret := 0#32, reads := reads }
      else strcmpLoop m₁ s1 m₂ s2 fuel (i + 1#32) reads
    else some { ret := charDiff t (m₁ (elem s1 i)) (m₂ (elem s2 i)), reads := reads }

/-- `strcmp`.  `assert(s1 != NULL && s2 != NULL)` stops a comparison with `NULL`. -/
def strcmp (s1 s2 : CharPtr) (fuel : ℕ) : Option Comparison :=
  match s1, s2 with
  | some (m₁, s1), some (m₂, s2) => strcmpLoop t m₁ s1 m₂ s2 fuel 0#32 []
  | _, _ => none

/-- `if(i == n) return 0; return s1[i] - s2[i]`. -/
def strncmpEnd (m₁ : Mem) (s1 : ℕ) (m₂ : Mem) (s2 : ℕ) (n : BitVec 64) (i : BitVec 32)
    (reads : List ℤ) : Comparison :=
  if i.signExtend 64 = n then { ret := 0#32, reads := reads }
  else { ret := charDiff t (m₁ (elem s1 i)) (m₂ (elem s2 i)), reads := i.toInt :: reads }

/-- `for( ; i < n && s1[i] == s2[i]; ++i)` of `strncmp`, from `i` on. -/
def strncmpLoop (m₁ : Mem) (s1 : ℕ) (m₂ : Mem) (s2 : ℕ) (n : BitVec 64) :
    ℕ → BitVec 32 → List ℤ → Option Comparison
  | 0, _, _ => none
  | fuel + 1, i, reads =>
    if (i.signExtend 64).toNat < n.toNat then
      let reads := i.toInt :: reads
      if m₁ (elem s1 i) = m₂ (elem s2 i) then
        if m₁ (elem s1 i) = 0#8 then some { ret := 0#32, reads := reads }
        else strncmpLoop m₁ s1 m₂ s2 n fuel (i + 1#32) reads
      else some (strncmpEnd t m₁ s1 m₂ s2 n i reads)
    else some (strncmpEnd t m₁ s1 m₂ s2 n i reads)

/-- `strncmp`. -/
def strncmp (s1 s2 : CharPtr) (n : BitVec 64) (fuel : ℕ) : Option Comparison :=
  match s1, s2 with
  | some (m₁, s1), some (m₂, s2) => strncmpLoop t m₁ s1 m₂ s2 n fuel 0#32 []
  | _, _ => some { ret := 0#32, reads := [] }

/-- `for(size_t i = 0; i < n; ++i)` of `memcmp`, from `i` on. -/
def memcmpLoop (m₁ : Mem) (a : ℕ) (m₂ : Mem) (b : ℕ) (n i : ℕ) (reads : List ℤ) : Comparison :=
  if i < n then
    if m₁ (a + i) ≠ m₂ (b + i) then
      { ret := charDiff t (m₁ (a + i)) (m₂ (b + i)), reads := i :: reads }
    else memcmpLoop m₁ a m₂ b n (i + 1) (i :: reads)
  else { ret := 0#32, reads := reads }
termination_by n - i

/-- `memcmp`. -/
def memcmp (m₁ : Mem) (s1 : ℕ) (m₂ : Mem) (s2 : ℕ) (n : BitVec 64) : Comparison :=
  memcmpLoop t m₁ s1 m₂ s2 n.toNat 0 []

end Functions

/-! ## The specification -/

/-- The sign of a result. -/
def signOf (r : BitVec 32) : Ordering := compare r.toInt 0

/-- What a comparison of the bytes `as` and `bs` owes: a result with the sign of their lexicographic
order as unsigned values, and no read outside of them. -/
structure Compares (as bs : List (BitVec 8)) (c : Comparison) : Prop where
  sign : signOf c.ret = compare as bs
  inside : ∀ i ∈ c.reads, 0 ≤ i ∧ i < as.length ∧ i < bs.length

/-- The target orders the first two bytes that differ as unsigned ones: its characters are
unsigned, or the bytes lie on the same side of `0x80`. -/
def KeepsOrder (t : PlainChar) (as bs : List (BitVec 8)) : Prop :=
  t = .unsigned ∨
    ∀ a b, firstDifference as bs = some (a, b) → (a < 0x80#8 ↔ b < 0x80#8)

/-! ## Scans for the first difference -/

section Scans

variable {t : PlainChar}

/-- The difference of the first two characters that differ. -/
def difference (t : PlainChar) (as bs : List (BitVec 8)) : BitVec 32 :=
  match firstDifference as bs with
  | some (a, b) => charDiff t a b
  | none => 0#32

/-- What a loop at index `k` does with the bytes `as` and `bs` that are left, after it read the
arrays at `reads`. -/
structure ScansFrom (t : PlainChar) (k : ℕ) (reads : List ℤ) (as bs : List (BitVec 8))
    (c : Comparison) : Prop where
  ret : c.ret = difference t as bs
  inside : ∀ i ∈ c.reads, i ∈ reads ∨ (k ≤ i ∧ i < k + as.length ∧ i < k + bs.length)

/-- Nothing is left. -/
lemma scansFrom_nil (t : PlainChar) (k : ℕ) (reads : List ℤ) :
    ScansFrom t k reads [] [] { ret := 0#32, reads := reads } where
  ret := rfl
  inside _ hi := Or.inl hi

/-- One round over equal bytes. -/
lemma ScansFrom.cons {k : ℕ} {reads : List ℤ} {as bs : List (BitVec 8)} {c : Comparison}
    (h : ScansFrom t (k + 1) ((k : ℤ) :: reads) as bs c) (a : BitVec 8) :
    ScansFrom t k reads (a :: as) (a :: bs) c where
  ret := by
    rw [h.ret, difference, difference, firstDifference_cons_self]
  inside i hi := by
    rw [List.length_cons, List.length_cons]
    rcases h.inside i hi with hmem | hrange
    · rcases List.mem_cons.mp hmem with rfl | hmem
      · exact Or.inr (by omega)
      · exact Or.inl hmem
    · exact Or.inr (by omega)

/-- A round over bytes that differ. -/
lemma scansFrom_of_ne {k : ℕ} {reads : List ℤ} {a b : BitVec 8} (hab : a ≠ b)
    (as bs : List (BitVec 8)) {c : Comparison} (hret : c.ret = charDiff t a b)
    (hreads : ∀ i ∈ c.reads, i = k ∨ i ∈ reads) : ScansFrom t k reads (a :: as) (b :: bs) c where
  ret := by
    rw [hret, difference, firstDifference_cons_of_ne hab]
  inside i hi := by
    rw [List.length_cons, List.length_cons]
    rcases hreads i hi with rfl | hmem
    · exact Or.inr (by omega)
    · exact Or.inl hmem

/-- The bytes at an address, up to and with the `NUL`. -/
lemma StringAt.exists_terminated {m : Mem} {s : ℕ} {cs : List (BitVec 8)}
    (h : StringAt (some (m, s)) cs) : ∃ rest, cs ++ [0#8] = m s :: rest := by
  by_cases h0 : m s = 0#8
  · rw [h.eq_nil h0, h0]
    exact ⟨[], rfl⟩
  · obtain ⟨rest, hrest, -⟩ := h.eq_cons h0
    rw [hrest]
    exact ⟨rest ++ [0#8], rfl⟩

variable {m₁ m₂ : Mem} {s1 s2 : ℕ}

/-- A round of `strcmp` over bytes that differ. -/
lemma strcmpLoop_of_ne {cs ds : List (BitVec 8)} {k : ℕ} (reads : List ℤ)
    (hcs : StringAt (some (m₁, s1 + k)) cs) (hds : StringAt (some (m₂, s2 + k)) ds)
    (hk : k < 2 ^ 31) (hne : m₁ (s1 + k) ≠ m₂ (s2 + k)) (n : ℕ) :
    ∃ c, (∀ fuel, n < fuel →
        strcmpLoop t m₁ s1 m₂ s2 fuel (BitVec.ofNat 32 k) reads = some c) ∧
      ScansFrom t k reads (cs ++ [0#8]) (ds ++ [0#8]) c := by
  obtain ⟨as, has⟩ := hcs.exists_terminated
  obtain ⟨bs, hbs⟩ := hds.exists_terminated
  rw [has, hbs]
  refine ⟨{ ret := charDiff t (m₁ (s1 + k)) (m₂ (s2 + k)), reads := (k : ℤ) :: reads },
    fun fuel hfuel => ?_, scansFrom_of_ne hne as bs rfl fun i hi => List.mem_cons.mp hi⟩
  obtain ⟨fuel, rfl⟩ := Nat.exists_eq_add_one.mpr (Nat.zero_lt_of_lt hfuel)
  rw [strcmpLoop, elem_ofNat _ hk, elem_ofNat _ hk, if_neg hne, toInt_ofNat hk]

/-- A round of `strcmp` over the same byte. -/
lemma strcmpLoop_of_eq {k : ℕ} (hk : k < 2 ^ 31) (heq : m₁ (s1 + k) = m₂ (s2 + k)) (fuel : ℕ)
    (reads : List ℤ) :
    strcmpLoop t m₁ s1 m₂ s2 (fuel + 1) (BitVec.ofNat 32 k) reads =
      if m₁ (s1 + k) = 0#8 then some { ret := 0#32, reads := (k : ℤ) :: reads }
      else strcmpLoop t m₁ s1 m₂ s2 fuel (BitVec.ofNat 32 (k + 1)) ((k : ℤ) :: reads) := by
  rw [strcmpLoop, elem_ofNat _ hk, elem_ofNat _ hk, if_pos heq, toInt_ofNat hk,
    show BitVec.ofNat 32 k + 1#32 = BitVec.ofNat 32 (k + 1) from (BitVec.ofNat_add k 1).symm]

/-- **`strcmp` scans for the first difference**, as long as its index does not overflow.

**Proof sketch.** Induction on the first string.  A round meets bytes that differ, two `NUL`s, or
the same character in both strings, which it steps over. -/
theorem strcmpLoop_scans (cs : List (BitVec 8)) :
    ∀ (ds : List (BitVec 8)) (k : ℕ) (reads : List ℤ),
      StringAt (some (m₁, s1 + k)) cs → StringAt (some (m₂, s2 + k)) ds →
      k + commonLength cs ds < 2 ^ 31 →
        ∃ c, (∀ fuel, commonLength cs ds < fuel →
            strcmpLoop t m₁ s1 m₂ s2 fuel (BitVec.ofNat 32 k) reads = some c) ∧
          ScansFrom t k reads (cs ++ [0#8]) (ds ++ [0#8]) c := by
  induction cs with
  | nil =>
    intro ds k reads hcs hds hk
    have h0 : m₁ (s1 + k) = 0#8 := (stringAt_nil _ _).mp hcs
    by_cases heq : m₁ (s1 + k) = m₂ (s2 + k)
    · rw [hds.eq_nil (heq.symm.trans h0)]
      refine ⟨_, fun fuel hfuel => ?_, (scansFrom_nil t (k + 1) ((k : ℤ) :: reads)).cons 0#8⟩
      obtain ⟨fuel, rfl⟩ := Nat.exists_eq_add_one.mpr (Nat.zero_lt_of_lt hfuel)
      rw [strcmpLoop_of_eq (by omega) heq, if_pos h0]
    · exact strcmpLoop_of_ne reads hcs hds (by omega) heq _
  | cons a cs ih =>
    intro ds k reads hcs hds hk
    obtain ⟨ha, hne0, hrest⟩ := (stringAt_cons _ _ _ _).mp hcs
    by_cases heq : m₁ (s1 + k) = m₂ (s2 + k)
    · have hb : m₂ (s2 + k) = a := heq.symm.trans ha
      obtain ⟨ds, rfl, hrest'⟩ := hds.eq_cons (by rw [hb]; exact hne0)
      rw [hb, commonLength_cons_self] at hk
      obtain ⟨c, hc, hscan⟩ := ih ds (k + 1) ((k : ℤ) :: reads) hrest hrest' (by omega)
      rw [hb, commonLength_cons_self]
      refine ⟨c, fun fuel hfuel => ?_, hscan.cons a⟩
      obtain ⟨fuel, rfl⟩ := Nat.exists_eq_add_one.mpr (Nat.zero_lt_of_lt hfuel)
      rw [strcmpLoop_of_eq (by omega) heq, if_neg (by rw [ha]; exact hne0)]
      exact hc fuel (by omega)
    · exact strcmpLoop_of_ne reads hcs hds (by omega) heq _

/-- A loop that ends forgets no read. -/
private lemma mem_reads_of_strcmpLoop :
    ∀ (fuel : ℕ) (i : BitVec 32) (reads : List ℤ) (c : Comparison),
      strcmpLoop t m₁ s1 m₂ s2 fuel i reads = some c → ∀ j ∈ i.toInt :: reads, j ∈ c.reads := by
  intro fuel
  induction fuel with
  | zero => intro i reads c h; exact nomatch h
  | succ fuel ih =>
    intro i reads c h j hj
    rw [strcmpLoop] at h
    split_ifs at h with heq h0
    · rw [← Option.some.inj h]
      exact hj
    · exact ih _ _ c h j (List.mem_cons_of_mem _ hj)
    · rw [← Option.some.inj h]
      exact hj

/-- Behind a common prefix of `2 ^ 31` characters the index is negative. -/
private lemma strcmpLoop_overflows :
    ∀ (fuel k : ℕ) (cs ds : List (BitVec 8)) (reads : List ℤ) (c : Comparison),
      StringAt (some (m₁, s1 + k)) cs → StringAt (some (m₂, s2 + k)) ds → k ≤ 2 ^ 31 →
      2 ^ 31 ≤ k + commonLength cs ds →
      strcmpLoop t m₁ s1 m₂ s2 fuel (BitVec.ofNat 32 k) reads = some c → ∃ i ∈ c.reads, i < 0 := by
  intro fuel
  induction fuel with
  | zero => intro k cs ds reads c _ _ _ _ h; exact nomatch h
  | succ fuel ih =>
    intro k cs ds reads c hcs hds hk hcommon h
    rcases Nat.lt_or_eq_of_le hk with hlt | rfl
    · obtain ⟨a, cs, ds, rfl, rfl⟩ :=
        exists_cons_of_commonLength_pos (show 0 < commonLength cs ds by omega)
      obtain ⟨ha, hne0, hrest⟩ := (stringAt_cons _ _ _ _).mp hcs
      obtain ⟨hb, -, hrest'⟩ := (stringAt_cons _ _ _ _).mp hds
      rw [commonLength_cons_self] at hcommon
      rw [strcmpLoop_of_eq hlt (ha.trans hb.symm), if_neg (by rw [ha]; exact hne0)] at h
      exact ih (k + 1) cs ds _ c hrest hrest' hlt (by omega) h
    · exact ⟨_, mem_reads_of_strcmpLoop _ _ _ c h _ List.mem_cons_self, by decide⟩

/-- A round of `strncmp` in front of the `n`-th byte. -/
lemma strncmpLoop_of_lt {n : BitVec 64} (hn : n.toNat < 2 ^ 31) {k : ℕ} (hk : k < n.toNat)
    (fuel : ℕ) (reads : List ℤ) :
    strncmpLoop t m₁ s1 m₂ s2 n (fuel + 1) (BitVec.ofNat 32 k) reads =
      if m₁ (s1 + k) = m₂ (s2 + k) then
        if m₁ (s1 + k) = 0#8 then some { ret := 0#32, reads := (k : ℤ) :: reads }
        else strncmpLoop t m₁ s1 m₂ s2 n fuel (BitVec.ofNat 32 (k + 1)) ((k : ℤ) :: reads)
      else some { ret := charDiff t (m₁ (s1 + k)) (m₂ (s2 + k)),
                  reads := (k : ℤ) :: (k : ℤ) :: reads } := by
  have hk' : k < 2 ^ 31 := Nat.lt_trans hk hn
  have hne : (BitVec.ofNat 32 k).signExtend 64 ≠ n := by
    intro h
    rw [← h, toNat_signExtend_ofNat hk'] at hk
    exact absurd hk (Nat.lt_irrefl k)
  have hend : ∀ reads, strncmpEnd t m₁ s1 m₂ s2 n (BitVec.ofNat 32 k) reads =
      { ret := charDiff t (m₁ (s1 + k)) (m₂ (s2 + k)), reads := (k : ℤ) :: reads } := by
    intro reads
    rw [strncmpEnd, if_neg hne, elem_ofNat _ hk', elem_ofNat _ hk', toInt_ofNat hk']
  simp only [strncmpLoop, toNat_signExtend_ofNat hk', if_pos hk, elem_ofNat _ hk',
    toInt_ofNat hk', hend]
  rw [show BitVec.ofNat 32 k + 1#32 = BitVec.ofNat 32 (k + 1) from (BitVec.ofNat_add k 1).symm]

/-- **`strncmp` scans for the first difference** among the first `n` bytes.

**Proof sketch.** Induction on the number `r` of bytes that are left.  A round ends the loop at
bytes that differ or at two `NUL`s, or steps over a character. -/
theorem strncmpLoop_scans {n : BitVec 64} (hn : n.toNat < 2 ^ 31) (r : ℕ) :
    ∀ (k : ℕ) (cs ds : List (BitVec 8)) (reads : List ℤ), n.toNat = k + r →
      StringAt (some (m₁, s1 + k)) cs → StringAt (some (m₂, s2 + k)) ds →
        ∃ c, (∀ fuel, r < fuel →
            strncmpLoop t m₁ s1 m₂ s2 n fuel (BitVec.ofNat 32 k) reads = some c) ∧
          ScansFrom t k reads ((cs ++ [0#8]).take r) ((ds ++ [0#8]).take r) c := by
  induction r with
  | zero =>
    intro k cs ds reads hk _ _
    have hi : (BitVec.ofNat 32 k).signExtend 64 = n := by
      apply BitVec.eq_of_toNat_eq
      rw [toNat_signExtend_ofNat (by omega)]
      omega
    refine ⟨_, fun fuel hfuel => ?_, scansFrom_nil t k reads⟩
    obtain ⟨fuel, rfl⟩ := Nat.exists_eq_add_one.mpr hfuel
    rw [strncmpLoop, hi, if_neg (Nat.lt_irrefl _), strncmpEnd, if_pos hi]
  | succ r ih =>
    intro k cs ds reads hk hcs hds
    by_cases heq : m₁ (s1 + k) = m₂ (s2 + k)
    · by_cases h0 : m₁ (s1 + k) = 0#8
      · have hcons := (scansFrom_nil t (k + 1) ((k : ℤ) :: reads)).cons 0#8
        rw [hcs.eq_nil h0, hds.eq_nil (heq.symm.trans h0), List.nil_append, List.take_succ_cons,
          List.take_nil]
        refine ⟨_, fun fuel hfuel => ?_, hcons⟩
        obtain ⟨fuel, rfl⟩ := Nat.exists_eq_add_one.mpr (Nat.zero_lt_of_lt hfuel)
        rw [strncmpLoop_of_lt hn (by omega), if_pos heq, if_pos h0]
      · obtain ⟨cs, rfl, hrest⟩ := hcs.eq_cons h0
        obtain ⟨ds, rfl, hrest'⟩ := hds.eq_cons (heq ▸ h0)
        obtain ⟨c, hc, hscan⟩ := ih (k + 1) cs ds ((k : ℤ) :: reads) (by omega) hrest hrest'
        rw [← heq, List.cons_append, List.cons_append, List.take_succ_cons, List.take_succ_cons]
        refine ⟨c, fun fuel hfuel => ?_, hscan.cons _⟩
        obtain ⟨fuel, rfl⟩ := Nat.exists_eq_add_one.mpr (Nat.zero_lt_of_lt hfuel)
        rw [strncmpLoop_of_lt hn (by omega), if_pos heq, if_neg h0]
        exact hc fuel (by omega)
    · obtain ⟨as, has⟩ := hcs.exists_terminated
      obtain ⟨bs, hbs⟩ := hds.exists_terminated
      rw [has, hbs, List.take_succ_cons, List.take_succ_cons]
      refine ⟨{ ret := charDiff t (m₁ (s1 + k)) (m₂ (s2 + k)),
                reads := (k : ℤ) :: (k : ℤ) :: reads }, fun fuel hfuel => ?_,
        scansFrom_of_ne heq _ _ rfl fun i hi => ?_⟩
      · obtain ⟨fuel, rfl⟩ := Nat.exists_eq_add_one.mpr (Nat.zero_lt_of_lt hfuel)
        rw [strncmpLoop_of_lt hn (by omega), if_neg heq]
      · rcases List.mem_cons.mp hi with h | h
        · exact Or.inl h
        · exact List.mem_cons.mp h

/-- **`memcmp` scans for the first difference** among `n` bytes. -/
theorem memcmpLoop_scans (as : List (BitVec 8)) :
    ∀ (bs : List (BitVec 8)) (k : ℕ) (reads : List ℤ), as.length = bs.length →
      Segment.At m₁ (s1 + k) as → Segment.At m₂ (s2 + k) bs →
        ScansFrom t k reads as bs (memcmpLoop t m₁ s1 m₂ s2 (k + as.length) k reads) := by
  induction as with
  | nil =>
    intro bs k reads hlen _ _
    rw [List.eq_nil_of_length_eq_zero hlen.symm, memcmpLoop, List.length_nil, Nat.add_zero,
      if_neg (Nat.lt_irrefl k)]
    exact scansFrom_nil t k reads
  | cons a as ih =>
    intro bs k reads hlen has hbs
    cases bs with
    | nil => exact nomatch hlen
    | cons b bs =>
      obtain ⟨ha, has⟩ := has
      obtain ⟨hb, hbs⟩ := hbs
      rw [memcmpLoop, List.length_cons, if_pos (by omega), ha, hb]
      by_cases hab : a = b
      · subst hab
        have hscan := ih bs (k + 1) ((k : ℤ) :: reads) (Nat.succ.inj hlen) has hbs
        rw [if_neg (not_not.mpr rfl), show k + (as.length + 1) = k + 1 + as.length by omega]
        exact hscan.cons a
      · rw [if_pos hab]
        exact scansFrom_of_ne hab as bs rfl fun i hi => List.mem_cons.mp hi

end Scans

/-! ## The sign of a result -/

section Sign

variable {t : PlainChar}

/-- The order of bytes by their values. -/
private lemma compare_toNat (a b : BitVec 8) :
    compare a b = compare (a.toNat : ℤ) (b.toNat : ℤ) := by
  show compareOfLessAndEq a b = compareOfLessAndEq (a.toNat : ℤ) (b.toNat : ℤ)
  simp only [compareOfLessAndEq, BitVec.lt_def, Int.ofNat_lt, Int.ofNat_inj, BitVec.toNat_inj]

/-- The difference of two characters has the sign of their order. -/
private lemma signOf_charDiff (a b : BitVec 8) :
    signOf (charDiff t a b) = compare (t.value a) (t.value b) := by
  rw [signOf, charDiff, t.toInt_promote_sub]
  rcases Int.lt_trichotomy (t.value a) (t.value b) with h | h | h
  · rw [Int.compare_eq_lt.mpr h, Int.compare_eq_lt.mpr (by omega)]
  · rw [Int.compare_eq_eq.mpr h, Int.compare_eq_eq.mpr (by omega)]
  · rw [Int.compare_eq_gt.mpr h, Int.compare_eq_gt.mpr (by omega)]

/-- Two orders of numbers that are not equal. -/
private lemma compare_eq_compare_iff {x y u v : ℤ} (hxy : x ≠ y) (huv : u ≠ v) :
    compare x y = compare u v ↔ (x < y ↔ u < v) := by
  constructor
  · intro h
    rw [← Int.compare_eq_lt, ← Int.compare_eq_lt, h]
  · intro h
    by_cases hlt : x < y
    · rw [Int.compare_eq_lt.mpr hlt, Int.compare_eq_lt.mpr (h.mp hlt)]
    · have hlt' : ¬u < v := fun huv => hlt (h.mpr huv)
      rw [Int.compare_eq_gt.mpr (by omega), Int.compare_eq_gt.mpr (by omega)]

/-- When a target orders two bytes as unsigned ones. -/
private lemma compare_value_iff {a b : BitVec 8} (hab : a ≠ b) :
    compare (t.value a) (t.value b) = compare a b ↔
      t = .unsigned ∨ (a < 0x80#8 ↔ b < 0x80#8) := by
  have hne : (a.toNat : ℤ) ≠ b.toNat := by
    intro h
    exact hab (BitVec.eq_of_toNat_eq (Int.ofNat_inj.mp h))
  rw [compare_toNat, compare_eq_compare_iff (fun h => hab (t.value_injective h)) hne]
  cases t with
  | unsigned =>
    rw [PlainChar.value_unsigned, PlainChar.value_unsigned]
    exact iff_of_true Iff.rfl (Or.inl rfl)
  | signed =>
    rw [or_iff_right (by decide)]
    simp only [PlainChar.value_signed, BitVec.lt_def, BitVec.toNat_ofNat]
    split_ifs <;> omega

/-- The result of a scan has the sign of the lexicographic order of the characters' values. -/
lemma signOf_difference {as bs : List (BitVec 8)} (h : Comparable as bs) :
    signOf (difference t as bs) = compare (as.map t.value) (bs.map t.value) := by
  unfold difference
  cases hfirst : firstDifference as bs with
  | none =>
    rw [h hfirst]
    exact Std.ReflCmp.compare_self.symm
  | some p =>
    obtain ⟨a, b⟩ := p
    have hab : t.value a ≠ t.value b := fun h => ne_of_firstDifference hfirst (t.value_injective h)
    rw [compare_map hfirst hab]
    exact signOf_charDiff a b

/-- **When a scan keeps the order of unsigned bytes.** -/
theorem compares_iff {as bs : List (BitVec 8)} {c : Comparison} (h : Comparable as bs)
    (hscan : ScansFrom t 0 [] as bs c) : Compares as bs c ↔ KeepsOrder t as bs := by
  have hinside : ∀ i ∈ c.reads, 0 ≤ i ∧ i < as.length ∧ i < bs.length := by
    intro i hi
    rcases hscan.inside i hi with hmem | hrange
    · exact nomatch hmem
    · omega
  have hsign : signOf c.ret = compare as bs ↔ KeepsOrder t as bs := by
    rw [hscan.ret, signOf_difference h, KeepsOrder]
    cases hfirst : firstDifference as bs with
    | none =>
      rw [h hfirst]
      exact iff_of_true (Std.ReflCmp.compare_self.trans Std.ReflCmp.compare_self.symm)
        (Or.inr fun a b hab => nomatch hab)
    | some p =>
      obtain ⟨a, b⟩ := p
      have hne := ne_of_firstDifference hfirst
      rw [compare_map hfirst fun h => hne (t.value_injective h), compare_of_firstDifference hfirst,
        compare_value_iff hne]
      refine or_congr_right ⟨fun hside a' b' hab => ?_, fun hside => hside a b rfl⟩
      obtain ⟨rfl, rfl⟩ := Prod.mk.inj (Option.some.inj hab)
      exact hside
  exact ⟨fun hc => hsign.mp hc.sign, fun hkeep => ⟨hsign.mpr hkeep, hinside⟩⟩

end Sign

/-! ## Calls -/

/-- A string in a memory. -/
structure Str where
  mem : Mem
  addr : ℕ
  chars : List (BitVec 8)
  spec : StringAt (some (mem, addr)) chars

namespace Str

/-- The pointer to the string. -/
def ptr (x : Str) : CharPtr := some (x.mem, x.addr)

/-- The characters and the `NUL`. -/
def terminated (x : Str) : List (BitVec 8) := x.chars ++ [0#8]

/-- Two strings with their `NUL`s are comparable. -/
lemma comparable (x y : Str) : Comparable x.terminated y.terminated :=
  comparable_terminated (fun h => x.spec.2 _ h rfl) (fun h => y.spec.2 _ h rfl)

end Str

/-- An array of `n` bytes in a memory. -/
structure Bytes (n : BitVec 64) where
  mem : Mem
  addr : ℕ
  bytes : List (BitVec 8)
  length : bytes.length = n.toNat
  spec : Segment.At mem addr bytes

section Calls

variable (t : PlainChar)

/-- `strcmp` finds the first difference when its index does not overflow. -/
theorem strcmp_scans (x y : Str) (h : commonLength x.chars y.chars < 2 ^ 31) :
    ∃ c, Returns (strcmp t x.ptr y.ptr) c ∧ ScansFrom t 0 [] x.terminated y.terminated c := by
  obtain ⟨c, hc, hscan⟩ := strcmpLoop_scans x.chars y.chars 0 [] x.spec y.spec
    (by rwa [Nat.zero_add])
  exact ⟨c, ⟨commonLength x.chars y.chars + 1, hc⟩, hscan⟩

/-- `strncmp` finds the first difference below `n`. -/
theorem strncmp_scans {n : BitVec 64} (hn : n.toNat < 2 ^ 31) (x y : Str) :
    ∃ c, Returns (strncmp t x.ptr y.ptr n) c ∧
      ScansFrom t 0 [] (x.terminated.take n.toNat) (y.terminated.take n.toNat) c := by
  obtain ⟨c, hc, hscan⟩ := strncmpLoop_scans hn n.toNat 0 x.chars y.chars []
    (Nat.zero_add _).symm x.spec y.spec
  exact ⟨c, ⟨n.toNat + 1, hc⟩, hscan⟩

/-- `memcmp` finds the first difference. -/
theorem memcmp_scans {n : BitVec 64} (x y : Bytes n) :
    ScansFrom t 0 [] x.bytes y.bytes (memcmp t x.mem x.addr y.mem y.addr n) := by
  have h := @memcmpLoop_scans t x.mem y.mem x.addr y.addr x.bytes y.bytes 0 []
    (x.length.trans y.length.symm) x.spec y.spec
  rwa [Nat.zero_add, x.length] at h

/-- A comparison that returns behind a longer common prefix has read outside of the strings. -/
private lemma strcmp_overflows (x y : Str) (h : 2 ^ 31 ≤ commonLength x.chars y.chars)
    {c : Comparison} (hc : Returns (strcmp t x.ptr y.ptr) c) : ∃ i ∈ c.reads, i < 0 := by
  obtain ⟨N, hN⟩ := hc
  exact strcmpLoop_overflows N 0 x.chars y.chars [] c x.spec y.spec (Nat.zero_le _)
    (by rwa [Nat.zero_add]) (hN N (Nat.le_refl N))

/-- **When `strcmp` compares unsigned bytes.** -/
theorem strcmp_compares_iff (x y : Str) :
    (∃ c, Returns (strcmp t x.ptr y.ptr) c ∧ Compares x.terminated y.terminated c) ↔
      commonLength x.chars y.chars < 2 ^ 31 ∧ KeepsOrder t x.terminated y.terminated := by
  constructor
  · rintro ⟨c, hc, hcompares⟩
    have hshort : commonLength x.chars y.chars < 2 ^ 31 := by
      by_contra hlong
      obtain ⟨i, hi, hneg⟩ := strcmp_overflows t x y (Nat.not_lt.mp hlong) hc
      exact absurd (hcompares.inside i hi).1 (Int.not_le.mpr hneg)
    obtain ⟨c', hc', hscan⟩ := strcmp_scans t x y hshort
    rw [hc.unique hc'] at hcompares
    exact ⟨hshort, (compares_iff (x.comparable y) hscan).mp hcompares⟩
  · rintro ⟨hshort, hkeep⟩
    obtain ⟨c, hc, hscan⟩ := strcmp_scans t x y hshort
    exact ⟨c, hc, (compares_iff (x.comparable y) hscan).mpr hkeep⟩

/-- **When `strncmp` compares unsigned bytes.** -/
theorem strncmp_compares_iff {n : BitVec 64} (hn : n.toNat < 2 ^ 31) (x y : Str) :
    (∃ c, Returns (strncmp t x.ptr y.ptr n) c ∧
        Compares (x.terminated.take n.toNat) (y.terminated.take n.toNat) c) ↔
      KeepsOrder t (x.terminated.take n.toNat) (y.terminated.take n.toNat) := by
  obtain ⟨c, hc, hscan⟩ := strncmp_scans t hn x y
  rw [← compares_iff ((x.comparable y).take n.toNat) hscan]
  constructor
  · rintro ⟨c', hc', hcompares⟩
    rwa [hc.unique hc']
  · intro hcompares
    exact ⟨c, hc, hcompares⟩

/-- **When `memcmp` compares unsigned bytes.** -/
theorem memcmp_compares_iff {n : BitVec 64} (x y : Bytes n) :
    Compares x.bytes y.bytes (memcmp t x.mem x.addr y.mem y.addr n) ↔
      KeepsOrder t x.bytes y.bytes :=
  compares_iff (comparable_of_length (x.length.trans y.length.symm)) (memcmp_scans t x y)

/-! ## The order of the results -/

/-- The results of a comparison make an order: they turn around with the arguments, and are
transitive. -/
structure Orders {σ : Type} (result : σ → σ → BitVec 32 → Prop) : Prop where
  antisymm : ∀ x y r r', result x y r → result y x r' → signOf r' = (signOf r).swap
  trans : ∀ x y z r r' r'', result x y r → result y z r' → result x z r'' →
    (signOf r).isLE → (signOf r').isLE → (signOf r'').isLE

/-- `strcmp` returns `r`, and its index does not overflow. -/
def StrcmpIs (x y : Str) (r : BitVec 32) : Prop :=
  commonLength x.chars y.chars < 2 ^ 31 ∧ ∃ c, Returns (strcmp t x.ptr y.ptr) c ∧ c.ret = r

/-- `strncmp` returns `r`. -/
def StrncmpIs (n : BitVec 64) (x y : Str) (r : BitVec 32) : Prop :=
  ∃ c, Returns (strncmp t x.ptr y.ptr n) c ∧ c.ret = r

/-- `memcmp` returns `r`. -/
def MemcmpIs (n : BitVec 64) (x y : Bytes n) (r : BitVec 32) : Prop :=
  (memcmp t x.mem x.addr y.mem y.addr n).ret = r

/-- Results with the sign of the order of some keys. -/
lemma orders_of_key {σ : Type} {result : σ → σ → BitVec 32 → Prop} (key : σ → List ℤ)
    (h : ∀ x y r, result x y r → signOf r = compare (key x) (key y)) : Orders result where
  antisymm x y r r' hr hr' := by
    rw [h x y r hr, h y x r' hr']
    exact Std.OrientedCmp.eq_swap
  trans x y z r r' r'' hr hr' hr'' hle hle' := by
    rw [h x y r hr] at hle
    rw [h y z r' hr'] at hle'
    rw [h x z r'' hr'']
    exact Std.TransCmp.isLE_trans hle hle'

/-- **The results are an order on every target**: that of the lists of the characters' values. -/
theorem strcmp_orders : Orders (StrcmpIs t) :=
  orders_of_key (fun x => x.terminated.map t.value) fun x y r ⟨hshort, c, hc, hr⟩ => by
    obtain ⟨c', hc', hscan⟩ := strcmp_scans t x y hshort
    rw [← hr, hc.unique hc', hscan.ret, signOf_difference (x.comparable y)]

/-- The results of `strncmp` are an order on every target. -/
private lemma strncmp_orders {n : BitVec 64} (hn : n.toNat < 2 ^ 31) : Orders (StrncmpIs t n) :=
  orders_of_key (fun x => (x.terminated.take n.toNat).map t.value) fun x y r ⟨c, hc, hr⟩ => by
    obtain ⟨c', hc', hscan⟩ := strncmp_scans t hn x y
    rw [← hr, hc.unique hc', hscan.ret, signOf_difference ((x.comparable y).take _)]

/-- The results of `memcmp` are an order on every target. -/
private lemma memcmp_orders (n : BitVec 64) : Orders (MemcmpIs t n) :=
  orders_of_key (fun x => x.bytes.map t.value) fun x y r hr => by
    have hlen : x.bytes.length = y.bytes.length := x.length.trans y.length.symm
    rw [← hr, (memcmp_scans t x y).ret, signOf_difference (comparable_of_length hlen)]

/-- **The comparisons order bytes as unsigned values exactly when the target does so** for the first
two bytes that differ; `strcmp` also needs them, or the end, below index `2 ^ 31`.  On every target
the results are an order.

**Proof sketch.** Each loop scans for the first difference.  The sign of what it returns is that of
the order of the two characters, whose values are those of the unsigned bytes on one side of `0x80`,
and those less `256` on the other. -/
theorem comparisons_iff :
    (∀ x y : Str,
      (∃ c, Returns (strcmp t x.ptr y.ptr) c ∧ Compares x.terminated y.terminated c) ↔
        commonLength x.chars y.chars < 2 ^ 31 ∧ KeepsOrder t x.terminated y.terminated) ∧
    (∀ n : BitVec 64, n.toNat < 2 ^ 31 → ∀ x y : Str,
      (∃ c, Returns (strncmp t x.ptr y.ptr n) c ∧
          Compares (x.terminated.take n.toNat) (y.terminated.take n.toNat) c) ↔
        KeepsOrder t (x.terminated.take n.toNat) (y.terminated.take n.toNat)) ∧
    (∀ (n : BitVec 64) (x y : Bytes n),
      Compares x.bytes y.bytes (memcmp t x.mem x.addr y.mem y.addr n) ↔
        KeepsOrder t x.bytes y.bytes) ∧
    Orders (StrcmpIs t) ∧ (∀ n : BitVec 64, n.toNat < 2 ^ 31 → Orders (StrncmpIs t n)) ∧
    ∀ n : BitVec 64, Orders (MemcmpIs t n) :=
  ⟨strcmp_compares_iff t, fun _ hn => strncmp_compares_iff t hn, fun _ => memcmp_compares_iff t,
    strcmp_orders t, fun _ hn => strncmp_orders t hn, memcmp_orders t⟩

/-- `strncmp` on the strings `"\x80"` and `"a"`: right with unsigned characters, wrong with signed
ones, and an order with both. -/
theorem comparisons_iff_highByte :
    let high : Mem := fun a => [0x80#8, 0#8].getD (a - 16) 0#8
    let low : Mem := fun a => [ch 'a', 0#8].getD (a - 16) 0#8
    (∃ c, Returns (strncmp .unsigned (some (high, 16)) (some (low, 16)) 1#64) c ∧
        Compares [0x80#8] [ch 'a'] c) ∧
      (¬∃ c, Returns (strncmp .signed (some (high, 16)) (some (low, 16)) 1#64) c ∧
        Compares [0x80#8] [ch 'a'] c) ∧
      Orders (StrncmpIs .unsigned 1#64) ∧ Orders (StrncmpIs .signed 1#64) := by
  intro high low
  have hhigh : StringAt (some (high, 16)) [0x80#8] := ⟨⟨rfl, rfl, trivial⟩, by decide⟩
  have hlow : StringAt (some (low, 16)) [ch 'a'] := ⟨⟨rfl, rfl, trivial⟩, by decide⟩
  have hn : (1#64).toNat < 2 ^ 31 := by decide
  obtain ⟨-, hunsigned, -, -, horder, -⟩ := comparisons_iff .unsigned
  obtain ⟨-, hsigned, -, -, horder', -⟩ := comparisons_iff .signed
  refine ⟨(hunsigned 1#64 hn ⟨_, _, _, hhigh⟩ ⟨_, _, _, hlow⟩).mpr (.inl rfl), fun h => ?_,
    horder 1#64 hn, horder' 1#64 hn⟩
  rcases (hsigned 1#64 hn ⟨_, _, _, hhigh⟩ ⟨_, _, _, hlow⟩).mp h with hsign | hside
  · exact nomatch hsign
  · exact absurd (hside 0x80#8 (ch 'a') rfl) (by decide)

/-- With signed characters the string `"\x80"` comes before `"a"`. -/
theorem high_byte_before_letter :
    let high : Mem := fun a => [0x80#8, 0#8].getD (a - 16) 0#8
    let low : Mem := fun a => [ch 'a', 0#8].getD (a - 16) 0#8
    StringAt (some (high, 16)) [0x80#8] ∧ StringAt (some (low, 16)) [ch 'a'] ∧
      ¬∃ c, Returns (strcmp .signed (some (high, 16)) (some (low, 16))) c ∧
        Compares [0x80#8, 0#8] [ch 'a', 0#8] c := by
  intro high low
  have hhigh : StringAt (some (high, 16)) [0x80#8] := ⟨⟨rfl, rfl, trivial⟩, by decide⟩
  have hlow : StringAt (some (low, 16)) [ch 'a'] := ⟨⟨rfl, rfl, trivial⟩, by decide⟩
  refine ⟨hhigh, hlow, fun h => ?_⟩
  obtain ⟨-, hkeep⟩ := (strcmp_compares_iff .signed ⟨_, _, _, hhigh⟩ ⟨_, _, _, hlow⟩).mp h
  rcases hkeep with hsign | hside
  · exact nomatch hsign
  · exact absurd (hside 0x80#8 (ch 'a') rfl) (by decide)

end Calls

end Riscv64Cpu.Klib
