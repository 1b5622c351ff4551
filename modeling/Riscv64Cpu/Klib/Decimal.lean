import Riscv64Cpu.Klib.CString

set_option relaxedAutoImplicit false
set_option autoImplicit false

/-!
# Numbers in decimal

`int_to_str`, `uint_to_str` and `swap_str` of `klib/src/stdio.c`.  The digits are stored from the
last to the first, and then turned around in place.

## Main definitions

* `Klib.decimal`, `Klib.signedDecimal` — the decimal representations.
* `Klib.swapStr` — turns a part of a buffer around.
* `Klib.uintToStr`, `intToStr` — the two conversions.

## Main results

* `Klib.stringAt_uintToStr`, `stringAt_intToStr` — the buffer holds the decimal representation.

## Design

Of a conversion only the numbers that are not `INT32_MIN` reach the loop, so that the digits of a
signed number are those of an unsigned one.
-/

namespace Riscv64Cpu.Klib

/-! ## Decimal representations -/

/-- The decimal representation of a natural number, as Lean prints it. -/
def decimal (n : ℕ) : List (BitVec 8) := (Nat.toDigits 10 n).map ch

/-- The decimal representation of an integer. -/
def signedDecimal (z : ℤ) : List (BitVec 8) :=
  if z < 0 then ch '-' :: decimal z.natAbs else decimal z.natAbs

/-- The byte of a digit. -/
lemma ch_digitChar {d : ℕ} (hd : d < 10) : ch d.digitChar = BitVec.ofNat 8 (48 + d) := by
  rw [ch, Nat.toNat_digitChar_of_lt_ten hd]

/-- A number of one digit. -/
lemma decimal_of_lt {n : ℕ} (h : n < 10) : decimal n = [BitVec.ofNat 8 (48 + n)] := by
  rw [decimal, Nat.toDigits_of_lt_base h, List.map_singleton, ch_digitChar h]

/-- A number of several digits ends with its remainder modulo ten. -/
lemma decimal_of_le {n : ℕ} (h : 10 ≤ n) :
    decimal n = decimal (n / 10) ++ [BitVec.ofNat 8 (48 + n % 10)] := by
  rw [decimal, Nat.toDigits_of_base_le (by decide) h, List.map_append, List.map_singleton,
    ch_digitChar (Nat.mod_lt n (by decide))]
  rfl

/-- A bound on the number of digits. -/
private lemma length_decimal_le (n : ℕ) : (decimal n).length ≤ n / 10 + 1 := by
  induction n using Nat.strongRecOn with
  | ind n ih =>
    by_cases h : n < 10
    · rw [decimal_of_lt h, List.length_singleton]
      exact Nat.le_add_left 1 _
    · have hrest := ih (n / 10) (by omega)
      rw [decimal_of_le (Nat.not_lt.mp h), List.length_append, List.length_singleton]
      omega

/-- No byte of the representation ends a string. -/
lemma decimal_nonzero (n : ℕ) : ∀ c ∈ decimal n, c ≠ 0#8 := by
  have hdigit : ∀ d < 10, BitVec.ofNat 8 (48 + d) ≠ 0#8 := by decide
  induction n using Nat.strongRecOn with
  | ind n ih =>
    intro c hc
    by_cases h : n < 10
    · rw [decimal_of_lt h, List.mem_singleton] at hc
      rw [hc]
      exact hdigit n h
    · rw [decimal_of_le (Nat.not_lt.mp h), List.mem_append, List.mem_singleton] at hc
      rcases hc with hc | hc
      · exact ih (n / 10) (by omega) c hc
      · rw [hc]
        exact hdigit _ (Nat.mod_lt n (by decide))

/-- A bound on the number of characters, the sign included. -/
lemma length_signedDecimal_le (z : ℤ) : (signedDecimal z).length ≤ z.natAbs / 10 + 2 := by
  have h := length_decimal_le z.natAbs
  unfold signedDecimal
  split_ifs
  · exact Nat.succ_le_succ h
  · exact Nat.le_succ_of_le h

/-- No byte of the representation ends a string. -/
lemma signedDecimal_nonzero (z : ℤ) : ∀ c ∈ signedDecimal z, c ≠ 0#8 := by
  intro c hc
  unfold signedDecimal at hc
  by_cases h : z < 0
  · rw [if_pos h, List.mem_cons] at hc
    rcases hc with rfl | hc
    · decide
    · exact decimal_nonzero _ c hc
  · rw [if_neg h] at hc
    exact decimal_nonzero _ c hc

/-! ## The functions -/

/-- `swap_str`. -/
def swapStr (str : Buffer) (l r : ℤ) : Buffer :=
  if l ≤ r then
    swapStr ((str.put l.toNat (str.bytes r.toNat)).put r.toNat (str.bytes l.toNat)) (l + 1) (r - 1)
  else str
termination_by (r + 1 - l).toNat

/-- `while(num > 0){ str[i++] = num % 10 + '0'; num = num / 10; }` of `uint_to_str`. -/
def uintDigits (str : Buffer) (i : ℕ) (num : BitVec 32) : Buffer × ℕ :=
  if 0 < num.toNat then
    uintDigits (str.put i ((num.umod 10#32 + 48#32).setWidth 8)) (i + 1) (num.udiv 10#32)
  else (str, i)
termination_by num.toNat
decreasing_by
  rw [BitVec.udiv_eq, BitVec.toNat_udiv]
  exact Nat.div_lt_self ‹_› (by decide)

/-- `uint_to_str`. -/
def uintToStr (str : Buffer) (num : BitVec 32) : Buffer :=
  if num = 0#32 then (str.put 0 (ch '0')).put 1 0#8
  else
    let (str, i) := uintDigits str 0 num
    swapStr (str.put i 0#8) 0 (i - 1)

/-- `while(num != 0){ str[i++] = num % 10 + '0'; num /= 10; }` of `int_to_str`. -/
def intDigits (str : Buffer) (i : ℕ) (num : BitVec 32) : Buffer × ℕ :=
  if num ≠ 0#32 then
    intDigits (str.put i ((num.srem 10#32 + 48#32).setWidth 8)) (i + 1) (num.sdiv 10#32)
  else (str, i)
termination_by num.toInt.natAbs
decreasing_by
  rw [BitVec.toInt_sdiv_of_ne_or_ne _ _ (Or.inr (by decide)), Int.natAbs_tdiv]
  refine Nat.div_lt_self (Int.natAbs_pos.mpr fun h => ?_) (by decide)
  exact absurd (BitVec.eq_of_toInt_eq h) ‹_›

/-- `int_to_str`. -/
def intToStr (str : Buffer) (num : BitVec 32) : Buffer :=
  if num = BitVec.intMin 32 then
    str.puts 0 [ch '-', ch '2', ch '1', ch '4', ch '7', ch '4', ch '8', ch '3', ch '6', ch '4',
      ch '8', 0#8]
  else if num = 0#32 then
    let (str, i) := intDigits (str.put 0 (ch '0')) 1 num
    swapStr (str.put i 0#8) 0 (i - 1)
  else if num.toInt < 0 then
    let (str, i) := intDigits (str.put 0 (ch '-')) 1 (-num)
    swapStr (str.put i 0#8) 1 (i - 1)
  else
    let (str, i) := intDigits str 0 num
    swapStr (str.put i 0#8) 0 (i - 1)

/-! ## The loops -/

/-- `swap_str` turns the part of the buffer around. -/
private lemma swapStr_bytes (str : Buffer) (l r : ℤ) (h : 0 ≤ l) :
    (swapStr str l r).bytes = Segment.reversed str.bytes l r := by
  fun_induction swapStr str l r with
  | case1 str l r hle ih =>
    rw [ih (by omega), Buffer.put_bytes, Buffer.put_bytes, Segment.reversed_swap _ h hle]
  | case2 str l r hlt =>
    rw [Segment.reversed_of_lt _ (by omega)]

/-- The digit that one round stores. -/
private lemma umod_digit (num : BitVec 32) :
    (num.umod 10#32 + 48#32).setWidth 8 = BitVec.ofNat 8 (48 + num.toNat % 10) := by
  have hmod : (num.umod 10#32).toNat = num.toNat % 10 := by
    rw [BitVec.umod_eq, BitVec.toNat_umod]
    rfl
  apply BitVec.eq_of_toNat_eq
  simp only [BitVec.toNat_setWidth, BitVec.toNat_add, hmod, BitVec.toNat_ofNat]
  omega

/-- The number that it leaves to the next one. -/
lemma toNat_udiv_ten (num : BitVec 32) : (num.udiv 10#32).toNat = num.toNat / 10 := by
  rw [BitVec.udiv_eq, BitVec.toNat_udiv]
  rfl

/-- **The loop stores the digits**, the last one first. -/
theorem uintDigits_eq (num : BitVec 32) :
    ∀ (str : Buffer) (i : ℕ), 0 < num.toNat → uintDigits str i num =
      (str.puts i (decimal num.toNat).reverse, i + (decimal num.toNat).length) := by
  induction h : num.toNat using Nat.strongRecOn generalizing num with
  | ind n ih =>
    intro str i hpos
    have hdiv : (num.udiv 10#32).toNat = n / 10 := by
      rw [toNat_udiv_ten, h]
    rw [uintDigits, if_pos (h ▸ hpos), umod_digit, h]
    by_cases hlt : n < 10
    · rw [uintDigits, if_neg (by omega), decimal_of_lt hlt, Nat.mod_eq_of_lt hlt]
      rfl
    · rw [ih (n / 10) (by omega) _ hdiv _ _ (by omega), decimal_of_le (Nat.not_lt.mp hlt),
        List.reverse_append, List.length_append, List.length_singleton]
      refine Prod.ext rfl ?_
      show i + 1 + _ = i + _
      omega

/-- On numbers that are not negative the two loops do the same. -/
private lemma intDigits_eq_uintDigits (num : BitVec 32) (hnum : num.msb = false) :
    ∀ (str : Buffer) (i : ℕ), intDigits str i num = uintDigits str i num := by
  induction h : num.toNat using Nat.strongRecOn generalizing num with
  | ind n ih =>
    intro str i
    have hmsb : (10#32 : BitVec 32).msb = false := by decide
    rw [intDigits, uintDigits, BitVec.srem_eq, BitVec.sdiv_eq, hnum, hmsb]
    by_cases h0 : num = 0#32
    · rw [if_neg (not_not.mpr h0), if_neg (by rw [h0]; decide)]
    · have hpos : 0 < num.toNat := BitVec.toNat_pos_of_ne_zero h0
      have hdiv : (num.udiv 10#32).toNat = n / 10 := by
        rw [toNat_udiv_ten, h]
      have hsmall : (num.udiv 10#32).msb = false := by
        rw [BitVec.msb_eq_false_iff_two_mul_lt] at hnum ⊢
        omega
      rw [if_pos h0, if_pos hpos]
      exact ih (n / 10) (by omega) _ hsmall hdiv _ _

/-! ## The conversions -/

/-- Turning the stored digits around, behind what stands before them. -/
lemma at_swapStr (str : Buffer) {pre cs : List (BitVec 8)} (hpre : Segment.At str.bytes 0 pre) :
    Segment.At (swapStr ((str.puts pre.length cs.reverse).put (pre.length + cs.length) 0#8)
      pre.length ((pre.length + cs.length : ℕ) - 1)).bytes 0 (pre ++ cs ++ [0#8]) := by
  have hstored : Segment.At ((str.puts pre.length cs.reverse).put (pre.length + cs.length)
      0#8).bytes pre.length cs.reverse := by
    refine (Buffer.puts_at cs.reverse str pre.length).copy fun k hk => ?_
    rw [List.length_reverse] at hk
    rw [Buffer.put_bytes, Function.update_of_ne (by omega)]
  rw [swapStr_bytes _ _ _ (Int.natCast_nonneg _), Segment.at_append, Segment.at_append,
    Segment.at_singleton, Nat.zero_add, Nat.zero_add]
  refine ⟨⟨?_, ?_⟩, ?_⟩
  · refine hpre.copy fun k hk => ?_
    rw [Segment.reversed, if_neg (by omega), Buffer.put_bytes, Function.update_of_ne (by omega),
      Buffer.puts_bytes_of_notMem _ _ _ _ (by omega)]
  · have hrev := hstored.reverse (g := Segment.reversed _ (pre.length : ℤ)
      ((pre.length + cs.length : ℕ) - 1)) (q := pre.length) fun k hk => by
        rw [List.length_reverse] at hk ⊢
        rw [Segment.reversed, if_pos (by omega)]
        congr 1
        omega
    rwa [List.reverse_reverse] at hrev
  · rw [List.length_append, Segment.reversed, if_neg (by omega), Buffer.put_bytes,
      Function.update_self]

/-- **`uint_to_str` writes the decimal representation** of every number. -/
theorem stringAt_uintToStr (str : Buffer) (num : BitVec 32) :
    StringAt (some ((uintToStr str num).bytes, 0)) (decimal num.toNat) := by
  refine ⟨?_, decimal_nonzero _⟩
  unfold uintToStr
  by_cases h0 : num = 0#32
  · rw [if_pos h0, h0]
    exact Buffer.puts_at [ch '0', 0#8] str 0
  · have hpos : 0 < num.toNat := BitVec.toNat_pos_of_ne_zero h0
    rw [if_neg h0, uintDigits_eq num str 0 hpos]
    exact at_swapStr str (Segment.at_nil _ _)

/-- The magnitude of a negative number that is not the least one. -/
private lemma neg_of_toInt_neg {num : BitVec 32} (hneg : num.toInt < 0)
    (hmin : num ≠ BitVec.intMin 32) :
    (-num).msb = false ∧ (-num).toNat = num.toInt.natAbs := by
  have hle : (-num).toInt = -num.toInt := BitVec.toInt_neg_of_ne_intMin hmin
  have hmsb : (-num).msb = false := by
    rw [BitVec.msb_eq_false_iff_two_mul_lt, ← BitVec.toInt_pos_iff]
    omega
  refine ⟨hmsb, ?_⟩
  rw [BitVec.toInt_eq_toNat_of_msb hmsb] at hle
  omega

/-- The part of `int_to_str` that follows the sign: the digits of a positive number. -/
lemma at_intDigits (str : Buffer) {pre : List (BitVec 8)} (hpre : Segment.At str.bytes 0 pre)
    {num : BitVec 32} (hmsb : num.msb = false) (h0 : num ≠ 0#32) :
    Segment.At (swapStr ((intDigits str pre.length num).1.put (intDigits str pre.length num).2 0#8)
      pre.length ((intDigits str pre.length num).2 - 1)).bytes 0
      (pre ++ decimal num.toNat ++ [0#8]) := by
  have hpos : 0 < num.toNat := BitVec.toNat_pos_of_ne_zero h0
  rw [intDigits_eq_uintDigits num hmsb, uintDigits_eq num str _ hpos]
  exact at_swapStr str hpre

/-- **`int_to_str` writes the decimal representation** of every number.

**Proof sketch.** `INT32_MIN` is written out.  Zero stores its digit before the loop, and a
negative number its sign; what remains is a positive number, whose digits are stored and turned
around behind the sign. -/
theorem stringAt_intToStr (str : Buffer) (num : BitVec 32) :
    StringAt (some ((intToStr str num).bytes, 0)) (signedDecimal num.toInt) := by
  refine ⟨?_, signedDecimal_nonzero _⟩
  unfold intToStr
  by_cases hmin : num = BitVec.intMin 32
  · rw [if_pos hmin, hmin]
    exact Buffer.puts_at _ str 0
  rw [if_neg hmin]
  by_cases h0 : num = 0#32
  · subst h0
    rw [if_pos rfl, intDigits, if_neg (not_not.mpr rfl)]
    exact @at_swapStr str [] [ch '0'] (Segment.at_nil _ _)
  rw [if_neg h0]
  by_cases hneg : num.toInt < 0
  · obtain ⟨hmsb, habs⟩ := neg_of_toInt_neg hneg hmin
    have hsign : Segment.At (str.put 0 (ch '-')).bytes 0 [ch '-'] := Buffer.puts_at [ch '-'] str 0
    have h0' : -num ≠ 0#32 := fun h => h0 (BitVec.neg_eq_zero_iff.mp h)
    rw [if_pos hneg, signedDecimal, if_pos hneg, ← habs]
    exact at_intDigits (str.put 0 (ch '-')) hsign hmsb h0'
  · have hmsb : num.msb = false := by
      rw [BitVec.msb_eq_toInt]
      exact decide_eq_false hneg
    rw [if_neg hneg, signedDecimal, if_neg hneg, BitVec.toInt_eq_toNat_of_msb hmsb,
      Int.natAbs_natCast]
    exact at_intDigits str (Segment.at_nil _ _) hmsb h0

end Riscv64Cpu.Klib
