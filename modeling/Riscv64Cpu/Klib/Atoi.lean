import Riscv64Cpu.Klib.Compare

set_option relaxedAutoImplicit false
set_option autoImplicit false

/-!
# Numbers read back from their decimal representation

`atoi` of `klib/src/stdlib.c`, applied to what `sprintf` writes.

## Main definitions

* `Klib.CInt` — an `int` with a record of the overflows behind it.
* `Klib.atoi` — the function.
* `Klib.Parses` — what `atoi` owes for a number.

## Main results

* `Klib.foldl_atoiStep` — the digits of a number are read as the number.
* `Klib.atoi_returns` — what `atoi` returns for a printed number.
* `Klib.atoi_sprintf_iff` — the numbers that come back.

## Design

`x * 10 + *nptr - '0'` is evaluated from left to right, and each of its three operations may
overflow.  An overflow wraps around, and is recorded.
-/

namespace Riscv64Cpu.Klib

/-! ## Computations with `int` -/

/-- A value of type `int`, and whether one of the operations that led to it overflowed. -/
structure CInt where
  value : BitVec 32
  overflow : Bool

namespace CInt

/-- A value that is at hand. -/
def of (v : BitVec 32) : CInt where
  value := v
  overflow := false

/-- An operation on two values. -/
def apply (f : BitVec 32 → BitVec 32 → BitVec 32) (overflows : BitVec 32 → BitVec 32 → Bool)
    (x y : CInt) : CInt where
  value := f x.value y.value
  overflow := x.overflow || y.overflow || overflows x.value y.value

/-- `x + y`. -/
def add : CInt → CInt → CInt := apply BitVec.add BitVec.saddOverflow

/-- `x - y`. -/
def sub : CInt → CInt → CInt := apply BitVec.sub BitVec.ssubOverflow

/-- `x * y`. -/
def mul : CInt → CInt → CInt := apply BitVec.mul BitVec.smulOverflow

/-- No operation overflowed, and the value is `z`. -/
structure Exact (x : CInt) (z : ℤ) : Prop where
  value : x.value.toInt = z
  overflow : x.overflow = false

section Exact

variable {x y : CInt} {a b : ℤ}

/-- A value is exactly the number that it represents. -/
lemma exact_of {v : BitVec 32} {z : ℤ} (h : v.toInt = z) : (of v).Exact z := ⟨h, rfl⟩

/-- An operation that does not overflow is exact. -/
lemma Exact.apply {f : BitVec 32 → BitVec 32 → BitVec 32}
    {overflows : BitVec 32 → BitVec 32 → Bool} (hx : x.Exact a) (hy : y.Exact b) {z : ℤ}
    (hno : overflows x.value y.value = false) (hz : (f x.value y.value).toInt = z) :
    (x.apply f overflows y).Exact z where
  value := hz
  overflow := by
    show (x.overflow || y.overflow || overflows x.value y.value) = false
    rw [hx.overflow, hy.overflow, hno]
    rfl

/-- A sum in the range of an `int` is exact. -/
lemma Exact.add (hx : x.Exact a) (hy : y.Exact b) (h : -2 ^ 31 ≤ a + b ∧ a + b < 2 ^ 31) :
    (x.add y).Exact (a + b) := by
  have hno : x.value.saddOverflow y.value = false := by
    rw [BitVec.saddOverflow, hx.value, hy.value, Bool.or_eq_false_iff]
    exact ⟨decide_eq_false (by omega), decide_eq_false (by omega)⟩
  refine hx.apply hy hno ?_
  rw [← hx.value, ← hy.value]
  exact BitVec.toInt_add_of_not_saddOverflow (Bool.eq_false_iff.mp hno)

/-- A difference in the range of an `int` is exact. -/
lemma Exact.sub (hx : x.Exact a) (hy : y.Exact b) (h : -2 ^ 31 ≤ a - b ∧ a - b < 2 ^ 31) :
    (x.sub y).Exact (a - b) := by
  have hno : x.value.ssubOverflow y.value = false := by
    rw [BitVec.ssubOverflow, hx.value, hy.value, Bool.or_eq_false_iff]
    exact ⟨decide_eq_false (by omega), decide_eq_false (by omega)⟩
  refine hx.apply hy hno ?_
  rw [← hx.value, ← hy.value]
  exact BitVec.toInt_sub_of_not_ssubOverflow (Bool.eq_false_iff.mp hno)

/-- A product in the range of an `int` is exact. -/
lemma Exact.mul (hx : x.Exact a) (hy : y.Exact b) (h : -2 ^ 31 ≤ a * b ∧ a * b < 2 ^ 31) :
    (x.mul y).Exact (a * b) := by
  have hno : x.value.smulOverflow y.value = false := by
    rw [BitVec.smulOverflow, hx.value, hy.value, Bool.or_eq_false_iff]
    exact ⟨decide_eq_false (by omega), decide_eq_false (by omega)⟩
  refine hx.apply hy hno ?_
  rw [← hx.value, ← hy.value]
  exact BitVec.toInt_mul_of_not_smulOverflow (Bool.eq_false_iff.mp hno)

/-- A sum that is too large. -/
lemma Exact.add_overflow (hx : x.Exact a) (hy : y.Exact b) (h : 2 ^ 31 ≤ a + b) :
    (x.add y).overflow = true := by
  have hover : x.value.saddOverflow y.value = true := by
    rw [BitVec.saddOverflow, hx.value, hy.value, Bool.or_eq_true]
    exact Or.inl (decide_eq_true h)
  show (x.overflow || y.overflow || x.value.saddOverflow y.value) = true
  rw [hover, Bool.or_true]

end Exact

end CInt

/-! ## The function -/

section Functions

variable (t : PlainChar) (m : Mem)

/-- `*nptr >= '0' && *nptr <= '9'`. -/
def isDigit (c : BitVec 8) : Bool :=
  t.value (ch '0') ≤ t.value c && t.value c ≤ t.value (ch '9')

/-- `x = x * 10 + *nptr - '0'`. -/
def atoiStep (x : CInt) (c : BitVec 8) : CInt :=
  ((x.mul (.of 10#32)).add (.of (t.promote c))).sub (.of (t.promote (ch '0')))

/-- `while (*nptr == ' ') { nptr ++; }`. -/
def atoiSpaces : ℕ → ℕ → Option ℕ
  | 0, _ => none
  | fuel + 1, nptr => if m nptr = ch ' ' then atoiSpaces fuel (nptr + 1) else some nptr

/-- The loop over the digits. -/
def atoiDigits : ℕ → ℕ → CInt → Option CInt
  | 0, _, _ => none
  | fuel + 1, nptr, x =>
    if isDigit t (m nptr) then atoiDigits fuel (nptr + 1) (atoiStep t x (m nptr)) else some x

end Functions

/-- `atoi`. -/
def atoi (t : PlainChar) (nptr : CharPtr) (fuel : ℕ) : Option CInt :=
  match nptr with
  | none => none
  | some (m, nptr) =>
    (atoiSpaces m fuel nptr).bind fun nptr => atoiDigits t m fuel nptr (.of 0#32)

/-! ## Digits -/

section Digits

variable {t : PlainChar}

/-- The byte of a digit, on every target. -/
lemma value_digit {d : ℕ} (hd : d < 10) : t.value (BitVec.ofNat 8 (48 + d)) = 48 + d := by
  have htoNat : (BitVec.ofNat 8 (48 + d)).toNat = 48 + d := by
    rw [BitVec.toNat_ofNat]
    omega
  rw [t.value_of_lt (by rw [BitVec.lt_def, htoNat, BitVec.toNat_ofNat]; omega), htoNat]
  rfl

/-- The value of the character `'0'`. -/
lemma value_zero : t.value (ch '0') = 48 := @value_digit t 0 (by decide)

/-- The byte of a digit is a digit. -/
lemma isDigit_digit {d : ℕ} (hd : d < 10) : isDigit t (BitVec.ofNat 8 (48 + d)) = true := by
  have hnine : t.value (ch '9') = 57 := @value_digit t 9 (by decide)
  rw [isDigit, value_digit hd, value_zero, hnine, Bool.and_eq_true, decide_eq_true_eq,
    decide_eq_true_eq]
  omega

/-- A decimal representation consists of digits. -/
private lemma isDigit_decimal (n : ℕ) : ∀ c ∈ decimal n, isDigit t c = true := by
  induction n using Nat.strongRecOn with
  | ind n ih =>
    intro c hc
    by_cases h : n < 10
    · rw [decimal_of_lt h, List.mem_singleton] at hc
      rw [hc]
      exact isDigit_digit h
    · rw [decimal_of_le (Nat.not_lt.mp h), List.mem_append, List.mem_singleton] at hc
      rcases hc with hc | rfl
      · exact ih (n / 10) (by omega) c hc
      · exact isDigit_digit (Nat.mod_lt n (by decide))

/-- One digit more, when the sum with its character fits. -/
lemma atoiStep_exact {x : CInt} {a : ℕ} (hx : x.Exact a) {d : ℕ} (hd : d < 10)
    (h : a * 10 + d + 48 < 2 ^ 31) :
    (atoiStep t x (BitVec.ofNat 8 (48 + d))).Exact (a * 10 + d : ℕ) := by
  have hten : (CInt.of 10#32).Exact 10 := CInt.exact_of (by decide)
  have hmul := hx.mul hten (by omega)
  have hadd := hmul.add (CInt.exact_of (value_digit (t := t) hd)) (by omega)
  have hsub := hadd.sub (CInt.exact_of (value_zero (t := t))) (by omega)
  rw [show ((a * 10 + d : ℕ) : ℤ) = (a : ℤ) * 10 + (48 + d) - 48 by omega]
  exact hsub

/-- One digit more, when it does not. -/
private lemma atoiStep_overflow {x : CInt} {a : ℕ} (hx : x.Exact a) {d : ℕ} (hd : d < 10)
    (hlt : a * 10 < 2 ^ 31) (h : 2 ^ 31 ≤ a * 10 + d + 48) :
    (atoiStep t x (BitVec.ofNat 8 (48 + d))).overflow = true := by
  have hten : (CInt.of 10#32).Exact 10 := CInt.exact_of (by decide)
  have hmul := hx.mul hten (by omega)
  have hadd := hmul.add_overflow (CInt.exact_of (value_digit (t := t) hd)) (by omega)
  show (_ || _ || _) = true
  rw [hadd]
  rfl

/-- **The digits of a number are read as the number**, when it leaves room for a character. -/
theorem foldl_atoiStep {n : ℕ} (h : n + 48 < 2 ^ 31) :
    ((decimal n).foldl (atoiStep t) (.of 0#32)).Exact n := by
  induction n using Nat.strongRecOn with
  | ind n ih =>
    have hzero : (CInt.of 0#32).Exact (0 : ℕ) := CInt.exact_of (by decide)
    by_cases hlt : n < 10
    · have hstep := atoiStep_exact (t := t) hzero hlt (by omega)
      rw [Nat.zero_mul, Nat.zero_add] at hstep
      rw [decimal_of_lt hlt]
      exact hstep
    · have hmod : n % 10 < 10 := Nat.mod_lt n (by decide)
      have hstep := atoiStep_exact (t := t) (ih (n / 10) (by omega) (by omega)) hmod (by omega)
      rw [show n / 10 * 10 + n % 10 = n by omega] at hstep
      rw [decimal_of_le (Nat.not_lt.mp hlt), List.foldl_append]
      exact hstep

/-- The last digit of a number that does not. -/
private lemma foldl_atoiStep_overflow {n : ℕ} (hn : n < 2 ^ 31) (h : 2 ^ 31 ≤ n + 48) :
    ((decimal n).foldl (atoiStep t) (.of 0#32)).overflow = true := by
  have hmod : n % 10 < 10 := Nat.mod_lt n (by decide)
  have hfirst := foldl_atoiStep (t := t) (show n / 10 + 48 < 2 ^ 31 by omega)
  rw [decimal_of_le (by omega), List.foldl_append]
  exact atoiStep_overflow hfirst hmod (by omega) (by omega)

end Digits

/-! ## The loops -/

section Loops

variable {t : PlainChar} {m : Mem}

/-- The spaces are skipped. -/
private lemma atoiSpaces_replicate {c : BitVec 8} (hc : c ≠ ch ' ') (k : ℕ) :
    ∀ nptr, Segment.At m nptr (List.replicate k (ch ' ') ++ [c]) →
      ∀ fuel, k < fuel → atoiSpaces m fuel nptr = some (nptr + k) := by
  induction k with
  | zero =>
    intro nptr hat fuel hfuel
    obtain ⟨fuel, rfl⟩ := Nat.exists_eq_add_one.mpr hfuel
    rw [atoiSpaces, hat.1, if_neg hc, Nat.add_zero]
  | succ k ih =>
    intro nptr hat fuel hfuel
    obtain ⟨hspace, hrest⟩ := hat
    obtain ⟨fuel, rfl⟩ := Nat.exists_eq_add_one.mpr (Nat.zero_lt_of_lt hfuel)
    rw [atoiSpaces, hspace, if_pos rfl, ih (nptr + 1) hrest fuel (by omega), Nat.add_assoc,
      Nat.add_comm 1 k]

/-- The digits are read one after the other. -/
private lemma atoiDigits_eq_foldl {c : BitVec 8} (hc : isDigit t c = false) (ds : List (BitVec 8)) :
    ∀ (nptr : ℕ) (x : CInt), Segment.At m nptr (ds ++ [c]) → (∀ d ∈ ds, isDigit t d = true) →
      ∀ fuel, ds.length < fuel → atoiDigits t m fuel nptr x = some (ds.foldl (atoiStep t) x) := by
  induction ds with
  | nil =>
    intro nptr x hat _ fuel hfuel
    obtain ⟨fuel, rfl⟩ := Nat.exists_eq_add_one.mpr hfuel
    rw [atoiDigits, hat.1, hc]
    rfl
  | cons d ds ih =>
    intro nptr x hat hds fuel hfuel
    obtain ⟨hd, hrest⟩ := hat
    obtain ⟨fuel, rfl⟩ := Nat.exists_eq_add_one.mpr (Nat.zero_lt_of_lt hfuel)
    rw [atoiDigits, hd, hds d List.mem_cons_self, if_pos rfl, List.foldl_cons]
    exact ih (nptr + 1) _ hrest (fun d' hd' => hds d' (List.mem_cons_of_mem _ hd')) fuel
      (Nat.lt_of_succ_lt_succ hfuel)

/-- **What `atoi` returns** for spaces, digits and a byte that is neither. -/
theorem atoi_returns {s k : ℕ} {c : BitVec 8} {ds rest : List (BitVec 8)}
    (hat : Segment.At m s (List.replicate k (ch ' ') ++ (ds ++ c :: rest)))
    (hds : ∀ d ∈ ds, isDigit t d = true) (hc : isDigit t c = false) (hspace : c ≠ ch ' ') :
    Returns (atoi t (some (m, s))) (ds.foldl (atoiStep t) (.of 0#32)) := by
  rw [Segment.at_append, List.length_replicate] at hat
  obtain ⟨hspaces, hrest⟩ := hat
  have hnotDigit : isDigit t (ch ' ') = false := by cases t <;> decide
  -- the byte behind the spaces
  have hfirst : m (s + k) ≠ ch ' ' := by
    cases ds with
    | nil =>
      rw [hrest.1]
      exact hspace
    | cons d ds =>
      rw [hrest.1]
      rintro rfl
      exact absurd (hds _ List.mem_cons_self) (by rw [hnotDigit]; decide)
  have hskip : Segment.At m s (List.replicate k (ch ' ') ++ [m (s + k)]) := by
    rw [Segment.at_append, Segment.at_singleton, List.length_replicate]
    exact ⟨hspaces, rfl⟩
  have hdigits : Segment.At m (s + k) (ds ++ [c]) := by
    rw [Segment.at_append] at hrest
    rw [Segment.at_append, Segment.at_singleton]
    exact ⟨hrest.1, hrest.2.1⟩
  refine ⟨k + ds.length + 1, fun fuel hfuel => ?_⟩
  rw [atoi, atoiSpaces_replicate hfirst k s hskip fuel (by omega), Option.bind_some]
  exact atoiDigits_eq_foldl hc ds (s + k) _ hdigits hds fuel (by omega)

end Loops

/-! ## Printing and reading -/

/-- What `atoi` owes for the representation of `n`: that number, and no overflow. -/
structure Parses (n : BitVec 32) (x : CInt) : Prop where
  value : x.value = n
  overflow : x.overflow = false

section RoundTrip

variable (t : PlainChar)

/-- What `sprintf` writes for `"%d"`. -/
lemma sprintf_decimal {mem : Mem} {args : ℕ → BitVec 64} {fmt : ℕ} {n : BitVec 32}
    (hfmt : StringAt (some (mem, fmt)) [ch '%', ch 'd']) (hn : (args 0).setWidth 32 = n)
    (out : Mem) : ∃ r, Returns (sprintf mem args out fmt) r ∧
      StringAt (some (r.out.bytes, 0)) (signedDecimal n.toInt) := by
  have hpieces : FormatAt mem fmt [.int n] := hfmt.1
  have hargs : Matches mem args 0 [.int n] := ⟨hn, trivial⟩
  have htext : rendered [.int n] = signedDecimal n.toInt := List.flatMap_singleton _ _
  have hlen : (signedDecimal n.toInt).length < 2 ^ 31 := by
    have hbound := length_signedDecimal_le n.toInt
    have hlo := n.le_toInt
    have hhi := n.toInt_lt
    omega
  have hprints := @prints_finish fmt [.int n] out (by rw [htext]; exact hlen)
  rw [htext] at hprints
  exact ⟨_, vsprintf_returns out hpieces hargs, hprints.chars, signedDecimal_nonzero _⟩

/-- **When `atoi` reads the representation of a number back.**

**Proof sketch.** A minus sign is no digit, so that a negative number is read as zero.  The digits
of any other number are read as long as the last sum, with the character of the last digit,
fits. -/
theorem atoi_signedDecimal_iff (n : BitVec 32) (k : ℕ) {p : CharPtr}
    (hp : StringAt p (List.replicate k (ch ' ') ++ signedDecimal n.toInt)) :
    (∃ x, Returns (atoi t p) x ∧ Parses n x) ↔ 0 ≤ n.toInt ∧ n.toInt + 48 < 2 ^ 31 := by
  obtain _ | ⟨m, s⟩ := p
  · exact hp.elim
  obtain ⟨hat, -⟩ := hp
  rw [List.append_assoc] at hat
  by_cases hneg : n.toInt < 0
  · rw [signedDecimal, if_pos hneg, List.cons_append] at hat
    have hminus : isDigit t (ch '-') = false := by cases t <;> decide
    have hret : Returns (atoi t (some (m, s))) (.of 0#32) :=
      @atoi_returns t m s k (ch '-') [] _ hat (fun d hd => absurd hd List.not_mem_nil) hminus
        (by decide)
    refine iff_of_false ?_ (fun h => absurd h.1 (Int.not_le.mpr hneg))
    rintro ⟨x, hx, hparses⟩
    rw [hx.unique hret] at hparses
    rw [← hparses.value] at hneg
    exact absurd hneg (by decide)
  · rw [signedDecimal, if_neg hneg] at hat
    have hnul : isDigit t 0#8 = false := by cases t <;> decide
    have hret := atoi_returns hat (isDigit_decimal (t := t) _) hnul (by decide)
    have hhi := n.toInt_lt
    have habs : (n.toInt.natAbs : ℤ) = n.toInt := Int.natAbs_of_nonneg (Int.not_lt.mp hneg)
    by_cases hroom : n.toInt + 48 < 2 ^ 31
    · have hexact := foldl_atoiStep (t := t) (show n.toInt.natAbs + 48 < 2 ^ 31 by omega)
      refine iff_of_true ⟨_, hret, ?_, hexact.overflow⟩ ⟨Int.not_lt.mp hneg, hroom⟩
      exact BitVec.eq_of_toInt_eq (hexact.value.trans habs)
    · have hover := foldl_atoiStep_overflow (t := t) (show n.toInt.natAbs < 2 ^ 31 by omega)
        (by omega)
      refine iff_of_false ?_ (fun h => hroom h.2)
      rintro ⟨x, hx, hparses⟩
      rw [hx.unique hret] at hparses
      rw [hparses.overflow] at hover
      exact absurd hover Bool.false_ne_true

/-- **Parsing undoes printing exactly for the numbers from `0` to `2 ^ 31 - 49`**, behind any number
of spaces. -/
theorem atoi_sprintf_iff {mem : Mem} {args : ℕ → BitVec 64} {fmt : ℕ} {n : BitVec 32}
    (hfmt : StringAt (some (mem, fmt)) [ch '%', ch 'd']) (hn : (args 0).setWidth 32 = n)
    (out : Mem) :
    ∃ text, (∃ r, Returns (sprintf mem args out fmt) r ∧
        StringAt (some (r.out.bytes, 0)) text) ∧
      ∀ (k : ℕ) (p : CharPtr), StringAt p (List.replicate k (ch ' ') ++ text) →
        ((∃ x, Returns (atoi t p) x ∧ Parses n x) ↔ 0 ≤ n.toInt ∧ n.toInt + 48 < 2 ^ 31) :=
  ⟨_, sprintf_decimal hfmt hn out, fun k _ hp => atoi_signedDecimal_iff t n k hp⟩

/-- The format `"%d"` with 42. -/
theorem atoi_sprintf_answer :
    let mem : Mem := fun a => [ch '%', ch 'd', 0#8].getD (a - 16) 0#8
    ∃ text, (∃ r, Returns (sprintf mem (fun _ => 42#64) Buffer.zero.bytes 16) r ∧
        StringAt (some (r.out.bytes, 0)) text) ∧
      ∀ (k : ℕ) (p : CharPtr), StringAt p (List.replicate k (ch ' ') ++ text) →
        ((∃ x, Returns (atoi .unsigned p) x ∧ Parses 42#32 x) ↔
          0 ≤ (42#32).toInt ∧ (42#32).toInt + 48 < 2 ^ 31) := by
  intro mem
  have hfmt : StringAt (some (mem, 16)) [ch '%', ch 'd'] := ⟨⟨rfl, rfl, rfl, trivial⟩, by decide⟩
  exact atoi_sprintf_iff .unsigned hfmt rfl _

/-- The text `"-1"`, which `sprintf` writes for `-1`, is not read back. -/
theorem minus_one_lost :
    let mem : Mem := fun a => [ch '%', ch 'd', 0#8].getD (a - 16) 0#8
    let text : Mem := fun a => [ch '-', ch '1', 0#8].getD (a - 16) 0#8
    (∃ r, Returns (sprintf mem (fun _ => 0xFFFFFFFF#64) Buffer.zero.bytes 16) r ∧
        StringAt (some (r.out.bytes, 0)) [ch '-', ch '1']) ∧
      StringAt (some (text, 16)) [ch '-', ch '1'] ∧
      ¬∃ x, Returns (atoi .unsigned (some (text, 16))) x ∧ Parses (-1#32) x := by
  intro mem text
  have hfmt : StringAt (some (mem, 16)) [ch '%', ch 'd'] := ⟨⟨rfl, rfl, rfl, trivial⟩, by decide⟩
  have htext : StringAt (some (text, 16)) [ch '-', ch '1'] :=
    ⟨⟨rfl, rfl, rfl, trivial⟩, by decide⟩
  have hdecimal : signedDecimal (-1#32 : BitVec 32).toInt = [ch '-', ch '1'] := by decide
  refine ⟨?_, htext, fun h => ?_⟩
  · rw [← hdecimal]
    exact sprintf_decimal hfmt rfl _
  · rw [← hdecimal] at htext
    have hneg := ((atoi_signedDecimal_iff .unsigned (-1#32) 0 htext).mp h).1
    exact absurd hneg (by decide)

end RoundTrip

end Riscv64Cpu.Klib
