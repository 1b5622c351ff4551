import Riscv64Cpu.Collections.Segment
import Mathlib.Data.List.Induction

set_option relaxedAutoImplicit false
set_option autoImplicit false

/-!
# Strings of the guest's C library

`strlen` and `strcpy` of `klib/src/string.c`.

## Main definitions

* `Klib.Mem`, `Klib.elem` — a memory, and an element of an array of characters in it.
* `Klib.CharPtr`, `Klib.StringAt` — a pointer to characters, and the string it points to.
* `Klib.Buffer` — a buffer that a function fills, with the indices it stored to.
* `Klib.strlen`, `strcpy` — the two functions.

## Main results

* `Klib.strlen_eq_some_iff` — the length, of strings and of nothing else.
* `Klib.strcpy_eq_some_iff` — a copy stores the string and its `NUL`.

## Design

Objects do not overlap: a buffer that is filled is apart from the memory with the strings.  Loops
that follow a string take fuel; `none` is a call that has not returned, because it is still
running or because an assertion stopped it.
-/

namespace Riscv64Cpu.Klib

/-- The bytes of a memory, by their addresses. -/
abbrev Mem := ℕ → BitVec 8

/-- A character of the source as a byte. -/
def ch (c : Char) : BitVec 8 := BitVec.ofNat 8 c.toNat

/-! ## Elements -/

/-- The address of `p[i]`, for an `int` index. -/
def elem (p : ℕ) (i : BitVec 32) : ℕ := ((p : ℤ) + i.toInt).toNat

/-- An index of 31 bits is not negative. -/
lemma toInt_ofNat {k : ℕ} (hk : k < 2 ^ 31) : (BitVec.ofNat 32 k).toInt = k := by
  rw [BitVec.toInt_eq_toNat_of_lt (by rw [BitVec.toNat_ofNat]; omega), BitVec.toNat_ofNat]
  omega

/-- An index that is not negative counts upwards. -/
lemma elem_ofNat (p : ℕ) {k : ℕ} (hk : k < 2 ^ 31) : elem p (BitVec.ofNat 32 k) = p + k := by
  rw [elem, toInt_ofNat hk]
  omega

/-! ## Strings -/

/-- A pointer to characters: `NULL`, or an address in a memory. -/
abbrev CharPtr := Option (Mem × ℕ)

/-- The pointer with the value `a`. -/
def charPtr (m : Mem) (a : ℕ) : CharPtr := if a = 0 then none else some (m, a)

/-- The pointer points to the characters `cs` and a `NUL`. -/
def StringAt : CharPtr → List (BitVec 8) → Prop
  | none, _ => False
  | some (m, s), cs => Segment.At m s (cs ++ [0#8]) ∧ ∀ c ∈ cs, c ≠ 0#8

/-- A string at a pointer that is not `NULL`. -/
lemma stringAt_some (m : Mem) (s : ℕ) (cs : List (BitVec 8)) :
    StringAt (some (m, s)) cs ↔ Segment.At m s (cs ++ [0#8]) ∧ ∀ c ∈ cs, c ≠ 0#8 := Iff.rfl

/-- The empty string is its `NUL`. -/
lemma stringAt_nil (m : Mem) (s : ℕ) : StringAt (some (m, s)) [] ↔ m s = 0#8 := by
  rw [stringAt_some, List.nil_append, Segment.at_singleton]
  exact and_iff_left (fun c hc => nomatch hc)

/-- A string is its first character and the string behind it. -/
lemma stringAt_cons (m : Mem) (s : ℕ) (c : BitVec 8) (cs : List (BitVec 8)) :
    StringAt (some (m, s)) (c :: cs) ↔ m s = c ∧ c ≠ 0#8 ∧ StringAt (some (m, s + 1)) cs := by
  rw [stringAt_some, stringAt_some, List.cons_append, Segment.at_cons, List.forall_mem_cons]
  constructor
  · rintro ⟨⟨h, hat⟩, hc, hcs⟩
    exact ⟨h, hc, hat, hcs⟩
  · rintro ⟨h, hc, hat, hcs⟩
    exact ⟨⟨h, hat⟩, hc, hcs⟩

/-- A pointer points to one string only. -/
lemma StringAt.unique {p : CharPtr} {cs ds : List (BitVec 8)} (hc : StringAt p cs)
    (hd : StringAt p ds) : cs = ds := by
  cases p with
  | none => exact hc.elim
  | some p =>
    obtain ⟨m, s⟩ := p
    induction cs generalizing s ds with
    | nil =>
      rw [stringAt_nil] at hc
      cases ds with
      | nil => rfl
      | cons d ds =>
        rw [stringAt_cons] at hd
        exact absurd (hd.1.symm.trans hc) hd.2.1
    | cons c cs ih =>
      rw [stringAt_cons] at hc
      cases ds with
      | nil =>
        rw [stringAt_nil] at hd
        exact absurd (hc.1.symm.trans hd) hc.2.1
      | cons d ds =>
        rw [stringAt_cons] at hd
        rw [← hc.1, ← hd.1, ih _ hc.2.2 hd.2.2]

/-- A string whose first byte is `NUL`. -/
lemma StringAt.eq_nil {m : Mem} {s : ℕ} {cs : List (BitVec 8)} (h : StringAt (some (m, s)) cs)
    (h0 : m s = 0#8) : cs = [] :=
  h.unique ((stringAt_nil m s).mpr h0)

/-- A string whose first byte is not. -/
lemma StringAt.eq_cons {m : Mem} {s : ℕ} {cs : List (BitVec 8)} (h : StringAt (some (m, s)) cs)
    (h0 : m s ≠ 0#8) : ∃ rest, cs = m s :: rest ∧ StringAt (some (m, s + 1)) rest := by
  cases cs with
  | nil => exact absurd ((stringAt_nil m s).mp h) h0
  | cons c cs =>
    obtain ⟨hc, -, hrest⟩ := (stringAt_cons m s c cs).mp h
    exact ⟨cs, by rw [hc], hrest⟩

/-! ## The length -/

/-- `while(s[i] != '\0') i++`, from `i` on. -/
def strlenLoop (m : Mem) (s : ℕ) : ℕ → ℕ → Option ℕ
  | 0, _ => none
  | fuel + 1, i => if m (s + i) = 0#8 then some i else strlenLoop m s fuel (i + 1)

/-- `strlen`. -/
def strlen (fuel : ℕ) : CharPtr → Option ℕ
  | none => none
  | some (m, s) => strlenLoop m s fuel 0

/-- The loop of `strlen` counts the characters up to the `NUL`, with enough fuel. -/
private lemma strlenLoop_eq_some_iff (m : Mem) (s : ℕ) :
    ∀ fuel i n, strlenLoop m s fuel i = some n ↔
      ∃ cs, StringAt (some (m, s + i)) cs ∧ n = i + cs.length ∧ cs.length < fuel := by
  intro fuel
  induction fuel with
  | zero =>
    intro i n
    constructor
    · intro h
      exact nomatch h
    · rintro ⟨cs, -, -, h⟩
      omega
  | succ fuel ih =>
    intro i n
    rw [strlenLoop]
    by_cases h0 : m (s + i) = 0#8
    · rw [if_pos h0]
      constructor
      · intro h
        refine ⟨[], (stringAt_nil m _).mpr h0, ?_, Nat.succ_pos _⟩
        rw [← Option.some.inj h]
        rfl
      · rintro ⟨cs, hcs, hn, -⟩
        rw [hcs.unique ((stringAt_nil m _).mpr h0)] at hn
        rw [hn]
        rfl
    · rw [if_neg h0, ih]
      constructor
      · rintro ⟨cs, hcs, hn, hfuel⟩
        refine ⟨m (s + i) :: cs, (stringAt_cons m _ _ _).mpr ⟨rfl, h0, hcs⟩, ?_, ?_⟩
        · rw [List.length_cons]
          omega
        · rw [List.length_cons]
          omega
      · rintro ⟨cs, hcs, hn, hfuel⟩
        cases cs with
        | nil => exact absurd ((stringAt_nil m _).mp hcs) h0
        | cons c cs =>
          rw [List.length_cons] at hn hfuel
          exact ⟨cs, ((stringAt_cons m _ _ _).mp hcs).2.2, by omega, by omega⟩

/-- **`strlen` returns on strings only**, with their length. -/
theorem strlen_eq_some_iff (fuel : ℕ) (p : CharPtr) (n : ℕ) :
    strlen fuel p = some n ↔ ∃ cs, StringAt p cs ∧ n = cs.length ∧ cs.length < fuel := by
  cases p with
  | none =>
    constructor
    · intro h
      exact nomatch h
    · rintro ⟨cs, hcs, -⟩
      exact hcs.elim
  | some p =>
    obtain ⟨m, s⟩ := p
    have h := strlenLoop_eq_some_iff m s fuel 0 n
    simp only [Nat.add_zero, Nat.zero_add] at h
    exact h

/-! ## Buffers and copies -/

/-- A buffer: its bytes and the indices that were stored to. -/
structure Buffer where
  bytes : Mem
  written : List ℕ

namespace Buffer

/-- `b[i] = c`. -/
def put (b : Buffer) (i : ℕ) (c : BitVec 8) : Buffer where
  bytes := Function.update b.bytes i c
  written := i :: b.written

/-- A store changes one byte. -/
@[simp] lemma put_bytes (b : Buffer) (i : ℕ) (c : BitVec 8) :
    (b.put i c).bytes = Function.update b.bytes i c := rfl

/-- A store adds its index to the written ones. -/
@[simp] lemma put_written (b : Buffer) (i : ℕ) (c : BitVec 8) :
    (b.put i c).written = i :: b.written := rfl

/-- The buffer after the bytes `cs` were stored one after the other, from `i` on. -/
def puts : Buffer → ℕ → List (BitVec 8) → Buffer
  | b, _, [] => b
  | b, i, c :: cs => (b.put i c).puts (i + 1) cs

/-- Two sequences of stores, one behind the other. -/
lemma puts_append (cs ds : List (BitVec 8)) :
    ∀ (b : Buffer) (i : ℕ), b.puts i (cs ++ ds) = (b.puts i cs).puts (i + cs.length) ds := by
  induction cs with
  | nil => intro b i; rfl
  | cons c cs ih =>
    intro b i
    rw [List.cons_append, puts, ih, puts, List.length_cons, Nat.add_right_comm, Nat.add_assoc]

/-- Bytes outside of the stored ones. -/
lemma puts_bytes_of_notMem (cs : List (BitVec 8)) :
    ∀ (b : Buffer) (i j : ℕ), j < i ∨ i + cs.length ≤ j → (b.puts i cs).bytes j = b.bytes j := by
  induction cs with
  | nil => intro b i j _; rfl
  | cons c cs ih =>
    intro b i j hj
    rw [List.length_cons] at hj
    rw [puts, ih _ _ _ (by omega), put_bytes, Function.update_of_ne (by omega)]

/-- The stored bytes. -/
lemma puts_at (cs : List (BitVec 8)) :
    ∀ (b : Buffer) (i : ℕ), Segment.At (b.puts i cs).bytes i cs := by
  induction cs with
  | nil => intro b i; exact Segment.at_nil _ _
  | cons c cs ih =>
    intro b i
    refine ⟨?_, ih _ _⟩
    rw [puts, puts_bytes_of_notMem _ _ _ _ (Or.inl (Nat.lt_succ_self i)), put_bytes,
      Function.update_self]

/-- The indices that were stored to. -/
lemma mem_puts_written (cs : List (BitVec 8)) :
    ∀ (b : Buffer) (i j : ℕ), j ∈ (b.puts i cs).written ↔
      j ∈ b.written ∨ (i ≤ j ∧ j < i + cs.length) := by
  induction cs with
  | nil =>
    intro b i j
    rw [puts, List.length_nil, or_iff_left (by omega)]
  | cons c cs ih =>
    intro b i j
    rw [puts, ih, put_written, List.mem_cons, List.length_cons]
    constructor
    · rintro ((rfl | h) | h)
      · exact Or.inr (by omega)
      · exact Or.inl h
      · exact Or.inr (by omega)
    · rintro (h | h)
      · exact Or.inl (Or.inr h)
      · by_cases hj : j = i
        · exact Or.inl (Or.inl hj)
        · exact Or.inr (by omega)

end Buffer

/-- `for(; i < len; ++i) dst[i] = src[i]`, after the first `i` rounds. -/
def strcpyLoop (dst : Buffer) (d : ℕ) (m : Mem) (s : ℕ) : ℕ → Buffer
  | 0 => dst
  | i + 1 => (strcpyLoop dst d m s i).put (d + i) (m (s + i))

/-- `strcpy` to `d` in a buffer.  `assert(dst != NULL && src != NULL)` stops a copy from `NULL`. -/
def strcpy (fuel : ℕ) (dst : Buffer) (d : ℕ) (src : CharPtr) : Option Buffer :=
  match src with
  | none => none
  | some (m, s) =>
    (strlen fuel (some (m, s))).map fun len => (strcpyLoop dst d m s len).put (d + len) 0#8

/-- The loop stores the characters. -/
private lemma strcpyLoop_eq_puts (dst : Buffer) (d : ℕ) (m : Mem) (s : ℕ) (cs : List (BitVec 8))
    (h : Segment.At m s cs) : strcpyLoop dst d m s cs.length = dst.puts d cs := by
  induction cs using List.reverseRecOn with
  | nil => rfl
  | append_singleton cs c ih =>
    rw [Segment.at_append, Segment.at_singleton] at h
    rw [List.length_append, List.length_singleton, strcpyLoop, ih h.1, h.2, Buffer.puts_append]
    rfl

/-- **`strcpy` returns on strings only**, and stores the string with its `NUL`. -/
theorem strcpy_eq_some_iff (fuel : ℕ) (dst : Buffer) (d : ℕ) (src : CharPtr) (b : Buffer) :
    strcpy fuel dst d src = some b ↔
      ∃ cs, StringAt src cs ∧ b = dst.puts d (cs ++ [0#8]) ∧ cs.length < fuel := by
  cases src with
  | none =>
    constructor
    · intro h
      exact nomatch h
    · rintro ⟨cs, hcs, -⟩
      exact hcs.elim
  | some p =>
    obtain ⟨m, s⟩ := p
    -- the copy of a string, in the words of `puts`
    have hcopy : ∀ cs, StringAt (some (m, s)) cs →
        (strcpyLoop dst d m s cs.length).put (d + cs.length) 0#8 = dst.puts d (cs ++ [0#8]) := by
      intro cs hcs
      rw [strcpyLoop_eq_puts dst d m s cs ((Segment.at_append _ _ _ _).mp hcs.1).1,
        Buffer.puts_append]
      rfl
    rw [strcpy, Option.map_eq_some_iff]
    constructor
    · rintro ⟨n, hn, hb⟩
      obtain ⟨cs, hcs, rfl, hfuel⟩ := (strlen_eq_some_iff fuel _ n).mp hn
      exact ⟨cs, hcs, hb.symm.trans (hcopy cs hcs), hfuel⟩
    · rintro ⟨cs, hcs, hb, hfuel⟩
      exact ⟨cs.length, (strlen_eq_some_iff fuel _ _).mpr ⟨cs, hcs, rfl, hfuel⟩,
        (hcopy cs hcs).trans hb.symm⟩

end Riscv64Cpu.Klib
