import Mathlib.Data.List.GetD
import Riscv64Cpu.Klib.Memmove

set_option relaxedAutoImplicit false
set_option autoImplicit false

/-!
# Copies that run upwards

`memcpy`, `strncpy` and `strcat` of `klib/src/string.c`, in one memory.  They copy upwards wherever
the destination lies: a destination inside the source receives the bytes in front of it again and
again, and a `NUL` that has been overwritten does not stop a copy.

## Main definitions

* `Klib.memcpy`, `strncpy`, `strcat` — the functions.
* `Klib.repeated` — the memory after an upward copy.
* `Klib.Padded`, `Concatenated` — what `strncpy` and `strcat` owe.

## Main results

* `Klib.copyLoop_eq` — the memory after an upward copy, for every overlap.
* `Klib.memcpy_moved_iff` — when `memcpy` does what `memmove` does.
* `Klib.strncpy_padded_iff` — when `strncpy` is right.
* `Klib.strcat_concatenates` — when `strcat` ends, and what it leaves.

## Design

Addresses and the `size_t` indices, which do not overflow within an object, are natural numbers.
The loops with a bound are total; that of `strcat`, which has none, takes fuel: when no fuel is
enough, it runs on through memory.
-/

namespace Riscv64Cpu.Klib

/-! ## The functions -/

/-- `for(size_t i = 0; i < n; ++i) d[i] = s[i]`, after `n` rounds. -/
def copyLoop (m : Mem) (d s : ℕ) : ℕ → Mem
  | 0 => m
  | i + 1 => Function.update (copyLoop m d s i) (d + i) (copyLoop m d s i (s + i))

/-- What `memcpy` prints when a pointer is `NULL`. -/
def memcpyError : String := "Error: Calling Memcpy with Null Pointer\n"

/-- `memcpy`: the text that it prints, the returned pointer and the memory. -/
def memcpy (out src : ℕ) (n : BitVec 64) (m : Mem) : String × ℕ × Mem :=
  if out = 0 ∨ src = 0 then (memcpyError, 0, m) else ("", out, copyLoop m out src n.toNat)

/-- `for (i = 0; i < n && src[i] != '\0'; i++) dst[i] = src[i]`, from `i` on with `n - i` rounds to
go: the index and the memory at the end. -/
def strncpyLoop (d s : ℕ) : ℕ → ℕ → Mem → ℕ × Mem
  | 0, i, m => (i, m)
  | rounds + 1, i, m =>
    if m (s + i) = 0#8 then (i, m)
    else strncpyLoop d s rounds (i + 1) (Function.update m (d + i) (m (s + i)))

/-- `for ( ; i < n; i++) dst[i] = '\0'`, with `n - i` rounds to go. -/
def fillLoop (d : ℕ) : ℕ → ℕ → Mem → Mem
  | 0, _, m => m
  | rounds + 1, i, m => fillLoop d rounds (i + 1) (Function.update m (d + i) 0#8)

/-- `strncpy`: the returned pointer and the memory. -/
def strncpy (dst src : ℕ) (n : BitVec 64) (m : Mem) : ℕ × Mem :=
  let r := strncpyLoop dst src n.toNat 0 m
  (dst, fillLoop dst (n.toNat - r.1) r.1 r.2)

/-- `for( ; src[i] != '\0'; ++i) d[i] = src[i]` from `i` on, and the `NUL` behind, where `d` is
`dst + dst_len`. -/
def strcatLoop (d s : ℕ) : ℕ → ℕ → Mem → Option Mem
  | 0, _, _ => none
  | fuel + 1, i, m =>
    if m (s + i) = 0#8 then some (Function.update m (d + i) 0#8)
    else strcatLoop d s fuel (i + 1) (Function.update m (d + i) (m (s + i)))

/-- `strcat`: the returned pointer and the memory. -/
def strcat (fuel : ℕ) (dst src : ℕ) (m : Mem) : Option (ℕ × Mem) :=
  (strlen fuel (charPtr m dst)).bind fun dstLen =>
    (strcatLoop (dst + dstLen) src fuel 0 m).map (Prod.mk dst)

/-! ## Upward copies -/

/-- The memory `m` with `n` bytes copied upwards from `s` to `d`.  A destination above the source
repeats the bytes between the two; when it lies below, `d - s` is zero and the remainder the number
itself. -/
def repeated (m : Mem) (d s n : ℕ) : Mem := fun a =>
  if d ≤ a ∧ a < d + n then m (s + (a - d) % (d - s)) else m a

section Repeated

variable (m : Mem) {d s n : ℕ}

/-- No byte is copied. -/
lemma repeated_zero : repeated m d s 0 = m := by
  funext a
  rw [repeated, if_neg (by omega)]

/-- A copied byte. -/
lemma repeated_of_lt {k : ℕ} (hk : k < n) :
    repeated m d s n (d + k) = m (s + k % (d - s)) := by
  rw [repeated, if_pos (by omega), Nat.add_sub_cancel_left]

/-- The other bytes. -/
lemma repeated_of_not {a : ℕ} (ha : a < d ∨ d + n ≤ a) : repeated m d s n a = m a := by
  rw [repeated, if_neg (by omega)]

/-- The source byte that is read next. -/
lemma repeated_source : repeated m d s n (s + n) = m (s + n % (d - s)) := by
  by_cases hd : s < d ∧ d - s ≤ n
  · obtain ⟨k, rfl⟩ : ∃ k, n = d - s + k := ⟨n - (d - s), by omega⟩
    have hsrc : s + (d - s + k) = d + k := by omega
    rw [hsrc, repeated_of_lt m (by omega), Nat.add_mod_left]
  · have hmod : n % (d - s) = n := by
      rcases Nat.eq_zero_or_pos (d - s) with h0 | hpos
      · rw [h0, Nat.mod_zero]
      · exact Nat.mod_eq_of_lt (by omega)
    rw [hmod, repeated_of_not m (by omega)]

/-- One byte more. -/
lemma update_repeated : Function.update (repeated m d s n) (d + n) (repeated m d s n (s + n)) =
    repeated m d s (n + 1) := by
  funext a
  by_cases ha : a = d + n
  · rw [ha, Function.update_self, repeated_source, repeated_of_lt m (Nat.lt_succ_self n)]
  · rw [Function.update_of_ne ha]
    unfold repeated
    exact if_congr (by omega) rfl rfl

/-- **The memory after an upward copy**, for every overlap. -/
theorem copyLoop_eq (n : ℕ) : copyLoop m d s n = repeated m d s n := by
  induction n with
  | zero => rw [copyLoop, repeated_zero]
  | succ n ih => rw [copyLoop, ih, update_repeated]

end Repeated

/-- **When `memcpy` does what `memmove` does**: the source repeats the bytes between the two
pointers as far as it is copied.  So it is when the destination lies below the source, or the
regions are disjoint.

**Proof sketch.** The byte that is read next has been overwritten by the one that lies the distance
of the pointers before it (`repeated_source`), so the bytes of the destination are those of the
source at the remainders (`copyLoop_eq`). -/
theorem memcpy_moved_iff (m : Mem) {dst src : ℕ} (hdst : dst ≠ 0) (hsrc : src ≠ 0) (n : BitVec 64) :
    Moved m dst src n.toNat (memcpy dst src n m).2 ↔
      ∀ k < n.toNat, m (src + k % (dst - src)) = m (src + k) := by
  have hresult : (memcpy dst src n m).2 = (dst, repeated m dst src n.toNat) := by
    rw [memcpy, if_neg (by simp [hdst, hsrc]), copyLoop_eq]
  rw [hresult]
  constructor
  · intro h k hk
    rw [← h.moved k hk]
    exact (repeated_of_lt m hk).symm
  · intro h
    refine ⟨rfl, fun k hk => ?_, fun a ha => repeated_of_not m ha⟩
    exact (repeated_of_lt m hk).trans (h k hk)

/-- Three bytes copied one place up: the first is repeated. -/
theorem memcpy_moved_overlaps :
    ¬ Moved (BitVec.ofNat 8) 101 100 3 (memcpy 101 100 3#64 (BitVec.ofNat 8)).2 ∧
      Moved (BitVec.ofNat 8) 100 101 3 (memcpy 100 101 3#64 (BitVec.ofNat 8)).2 :=
  ⟨fun h => absurd ((@memcpy_moved_iff _ 101 100 (by decide) (by decide) 3#64).mp h) (by decide),
    (@memcpy_moved_iff _ 100 101 (by decide) (by decide) 3#64).mpr (by decide)⟩

/-! ## Strings -/

section Bytes

variable {m : Mem} {s : ℕ} {cs : List (BitVec 8)} (h : StringAt (charPtr m s) cs)
include h

/-- A pointer to a string is not `NULL`. -/
lemma charPtr_of_stringAt : charPtr m s = some (m, s) := by
  unfold charPtr at h ⊢
  split_ifs at h ⊢ with h0
  · exact h.elim
  · rfl

/-- The bytes of a string and its `NUL`. -/
lemma byte_of_stringAt {k : ℕ} (hk : k ≤ cs.length) : m (s + k) = cs.getD k 0#8 := by
  rw [charPtr_of_stringAt h, stringAt_some, Segment.at_iff_get] at h
  have hbyte := h.1 k (by rw [List.length_append, List.length_singleton]; omega)
  rw [hbyte]
  rcases Nat.lt_or_eq_of_le hk with hlt | rfl
  · rw [List.getElem_append_left hlt, List.getD_eq_getElem _ _ hlt]
  · simp

/-- The `NUL`. -/
lemma nul_of_stringAt : m (s + cs.length) = 0#8 := by
  rw [byte_of_stringAt h (Nat.le_refl _)]
  simp

/-- The bytes before the `NUL` are no `NUL`. -/
lemma ne_nul_of_stringAt {k : ℕ} (hk : k < cs.length) : m (s + k) ≠ 0#8 := by
  rw [byte_of_stringAt h (Nat.le_of_lt hk), List.getD_eq_getElem _ _ hk]
  rw [charPtr_of_stringAt h] at h
  exact h.2 _ (List.getElem_mem hk)

end Bytes

/-! ### `strncpy` -/

/-- The memory `m` with `NUL`s from place `lo` up to place `hi` behind `d`. -/
def filled (m : Mem) (d lo hi : ℕ) : Mem := fun a =>
  if d + lo ≤ a ∧ a < d + hi then 0#8 else m a

/-- A filled byte. -/
private lemma filled_of_le (m : Mem) {d lo hi k : ℕ} (hlo : lo ≤ k) (hhi : k < hi) :
    filled m d lo hi (d + k) = 0#8 :=
  if_pos (by omega)

/-- The other bytes. -/
lemma filled_of_not (m : Mem) {d lo hi a : ℕ} (ha : a < d + lo ∨ d + hi ≤ a) :
    filled m d lo hi a = m a :=
  if_neg (by omega)

section Strncpy

variable (m : Mem) {d s : ℕ}

/-- The first loop goes on to the index `t`, before which it meets no `NUL`. -/
private lemma strncpyLoop_eq {t n : ℕ} (ht : t ≤ n) (hbefore : ∀ k < t, m (s + k % (d - s)) ≠ 0#8)
    (hend : t = n ∨ m (s + t % (d - s)) = 0#8) :
    ∀ rounds i, i + rounds = n → i ≤ t →
      strncpyLoop d s rounds i (repeated m d s i) = (t, repeated m d s t) := by
  intro rounds
  induction rounds with
  | zero =>
    intro i hi hit
    obtain rfl : i = t := by omega
    rfl
  | succ rounds ih =>
    intro i hi hit
    rw [strncpyLoop, update_repeated, repeated_source]
    rcases Nat.lt_or_eq_of_le hit with hlt | rfl
    · rw [if_neg (hbefore i hlt)]
      exact ih (i + 1) (by omega) hlt
    · rw [if_pos (hend.resolve_left (by omega))]

/-- The second loop. -/
private lemma fillLoop_eq (rounds : ℕ) :
    ∀ (i : ℕ) (m : Mem), fillLoop d rounds i m = filled m d i (i + rounds) := by
  induction rounds with
  | zero =>
    intro i m
    funext a
    rw [fillLoop, filled_of_not m (by omega)]
  | succ rounds ih =>
    intro i m
    rw [fillLoop, ih]
    funext a
    unfold filled
    by_cases ha : a = d + i
    · rw [ha, if_neg (by omega), if_pos (by omega), Function.update_self]
    · rw [Function.update_of_ne ha]
      exact if_congr (by omega) rfl rfl

/-- The result, with the index `t` at which the first loop ends. -/
lemma strncpy_eq {n : BitVec 64} {t : ℕ} (ht : t ≤ n.toNat)
    (hbefore : ∀ k < t, m (s + k % (d - s)) ≠ 0#8)
    (hend : t = n.toNat ∨ m (s + t % (d - s)) = 0#8) :
    strncpy d s n m = (d, filled (repeated m d s t) d t n.toNat) := by
  have hloop := strncpyLoop_eq m ht hbefore hend n.toNat 0 (Nat.zero_add _) (Nat.zero_le _)
  rw [repeated_zero] at hloop
  rw [strncpy, hloop, fillLoop_eq, Nat.add_sub_cancel' ht]

end Strncpy

/-- What `strncpy` owes: the first `n` bytes of the string, with `NUL`s behind it, at the
destination. -/
structure Padded (m : Mem) (dst : ℕ) (cs : List (BitVec 8)) (n : ℕ) (r : ℕ × Mem) : Prop where
  ret : r.1 = dst
  bytes : ∀ k < n, r.2 (dst + k) = cs.getD k 0#8
  others : ∀ a, a < dst ∨ dst + n ≤ a → r.2 a = m a

section Padding

variable {m : Mem} {dst src : ℕ} {cs : List (BitVec 8)} (n : BitVec 64)
  (hs : StringAt (charPtr m src) cs)
include hs

/-- A destination that does not lie inside the string, or at its `NUL`. -/
private lemma padded_of_outside (hout : ¬(src < dst ∧ dst - src ≤ cs.length)) :
    Padded m dst cs n.toNat (strncpy dst src n m) ∧
      ∀ k ≤ cs.length, m (src + k % (dst - src)) = m (src + k) := by
  have hmod : ∀ k ≤ cs.length, k % (dst - src) = k := fun k hk => by
    rcases Nat.eq_zero_or_pos (dst - src) with h0 | hpos
    · rw [h0, Nat.mod_zero]
    · exact Nat.mod_eq_of_lt (by omega)
  refine ⟨?_, fun k hk => by rw [hmod k hk]⟩
  have hend : min n.toNat cs.length = n.toNat ∨
      m (src + min n.toNat cs.length % (dst - src)) = 0#8 := by
    rcases Nat.le_total n.toNat cs.length with hle | hle
    · exact Or.inl (Nat.min_eq_left hle)
    · rw [Nat.min_eq_right hle, hmod _ (Nat.le_refl _)]
      exact Or.inr (nul_of_stringAt hs)
  rw [strncpy_eq m (Nat.min_le_left _ _) (fun k hk => by
    rw [hmod k (by omega)]
    exact ne_nul_of_stringAt hs (by omega)) hend]
  refine ⟨rfl, fun k hk => ?_, fun a ha => ?_⟩
  · by_cases hkcs : k < cs.length
    · refine (filled_of_not _ (by omega)).trans ?_
      rw [repeated_of_lt m (by omega), hmod k (Nat.le_of_lt hkcs),
        byte_of_stringAt hs (Nat.le_of_lt hkcs)]
    · rw [List.getD_eq_default _ _ (by omega)]
      exact filled_of_le _ (by omega) hk
  · exact (filled_of_not _ (by omega)).trans (repeated_of_not m (by omega))

/-- A destination inside the string, or at its `NUL`: the copy goes on to the end. -/
private lemma strncpy_of_inside (hin : src < dst ∧ dst - src ≤ cs.length) :
    (∀ k, m (src + k % (dst - src)) ≠ 0#8) ∧
      strncpy dst src n m = (dst, repeated m dst src n.toNat) := by
  have hne : ∀ k, m (src + k % (dst - src)) ≠ 0#8 := fun k => by
    have hmod := Nat.mod_lt k (show 0 < dst - src by omega)
    exact ne_nul_of_stringAt hs (by omega)
  refine ⟨hne, ?_⟩
  rw [strncpy_eq m (Nat.le_refl n.toNat) (fun k _ => hne k) (Or.inl rfl)]
  congr 1
  funext a
  exact filled_of_not _ (by omega)

/-- **When `strncpy` is right**: the source, with its `NUL`, repeats the bytes between the two
pointers as far as it is copied.  So it is when the destination lies below the string or behind its
`NUL`.  A destination inside the string, or at its `NUL`, receives `n` bytes that are no `NUL`.

**Proof sketch.** If the destination lies inside the string, then the copy overwrites the `NUL`
before it comes there, so it goes on to the end (`strncpy_of_inside`), and a `NUL` that should have
been copied has not been.  Otherwise it stops at the `NUL` (`padded_of_outside`). -/
theorem strncpy_padded_iff :
    (Padded m dst cs n.toNat (strncpy dst src n m) ↔
      ∀ k < n.toNat, k ≤ cs.length → m (src + k % (dst - src)) = m (src + k)) ∧
    (src < dst ∧ dst - src ≤ cs.length → ∀ k < n.toNat,
      (strncpy dst src n m).2 (dst + k) = m (src + k % (dst - src)) ∧
      (strncpy dst src n m).2 (dst + k) ≠ 0#8) := by
  by_cases hin : src < dst ∧ dst - src ≤ cs.length
  · obtain ⟨hne, hresult⟩ := strncpy_of_inside n hs hin
    rw [hresult]
    have hbyte : ∀ k < n.toNat, repeated m dst src n.toNat (dst + k) = m (src + k % (dst - src)) :=
      fun k hk => repeated_of_lt m hk
    refine ⟨⟨fun h k hk hkcs => ?_, fun h => ?_⟩, fun _ k hk => ⟨hbyte k hk, ?_⟩⟩
    · rw [byte_of_stringAt hs hkcs, ← h.bytes k hk]
      exact (hbyte k hk).symm
    · refine ⟨rfl, fun k hk => (hbyte k hk).trans ?_, fun a ha => repeated_of_not m ha⟩
      by_cases hkcs : k ≤ cs.length
      · rw [h k hk hkcs, byte_of_stringAt hs hkcs]
      · -- the place of the `NUL` has been copied to
        have hnul := h cs.length (by omega) (Nat.le_refl _)
        rw [nul_of_stringAt hs] at hnul
        exact absurd hnul (hne _)
    · show repeated m dst src n.toNat (dst + k) ≠ 0#8
      rw [hbyte k hk]
      exact hne k
  · obtain ⟨hpadded, hsame⟩ := padded_of_outside n hs hin
    exact ⟨iff_of_true hpadded fun k _ hk => hsame k hk, fun h => absurd h hin⟩

end Padding

/-- A string copied into itself, and one place down: the first copy has no `NUL`. -/
theorem strncpy_padded_overlaps :
    let m : Mem := fun a => [1#8, 2#8, 3#8, 0#8].getD (a - 100) 0#8
    (¬ Padded m 102 [1#8, 2#8, 3#8] 5 (strncpy 102 100 5#64 m) ∧
      (strncpy 102 100 5#64 m).2 106 = 1#8 ∧ (strncpy 102 100 5#64 m).2 106 ≠ 0#8) ∧
      Padded m 99 [1#8, 2#8, 3#8] 5 (strncpy 99 100 5#64 m) := by
  intro m
  have hs : StringAt (charPtr m 100) [1#8, 2#8, 3#8] := ⟨⟨rfl, rfl, rfl, rfl, trivial⟩, by decide⟩
  have hinside := (@strncpy_padded_iff m 102 100 _ 5#64 hs).2 (by decide) 4 (by decide)
  exact ⟨⟨fun h => absurd ((strncpy_padded_iff 5#64 hs).1.mp h) (by decide), hinside⟩,
    (strncpy_padded_iff 5#64 hs).1.mpr (by decide)⟩

/-! ### `strcat` -/

/-- What `strcat` owes: the two strings one behind the other at the destination. -/
structure Concatenated (m : Mem) (dst : ℕ) (cs ds : List (BitVec 8)) (r : ℕ × Mem) : Prop where
  ret : r.1 = dst
  string : StringAt (charPtr r.2 dst) (cs ++ ds)
  others : ∀ a, a < dst + cs.length ∨ dst + cs.length + ds.length < a → r.2 a = m a

section Strcat

variable {m : Mem} {dst src : ℕ} {cs ds : List (BitVec 8)}

/-- The loop copies a string that it does not overwrite. -/
private lemma strcatLoop_eq {b : ℕ} (hs : StringAt (charPtr m src) ds)
    (hb : b ≤ src ∨ src + ds.length < b) :
    ∀ fuel i, i ≤ ds.length → ds.length < i + fuel →
      strcatLoop b src fuel i (copied m b src 0 i) = some (copied m b src 0 (ds.length + 1)) := by
  intro fuel
  induction fuel with
  | zero => intro i hi hfuel; omega
  | succ fuel ih =>
    intro i hi hfuel
    have hread : copied m b src 0 i (src + i) = m (src + i) := by
      rw [copied, if_neg (by omega)]
    have hnext : Function.update (copied m b src 0 i) (b + i) (m (src + i)) =
        copied m b src 0 (i + 1) := update_copied m fun a => by omega
    rw [strcatLoop, hread, hnext]
    rcases Nat.lt_or_eq_of_le hi with hlt | rfl
    · rw [if_neg (ne_nul_of_stringAt hs hlt)]
      exact ih (i + 1) hlt (by omega)
    · have hnul := nul_of_stringAt hs
      rw [hnul] at hnext
      rw [if_pos hnul, hnext]

/-- The loop does not end when it has overwritten the `NUL`: it meets the bytes that it has
written. -/
private lemma strcatLoop_eq_none {b : ℕ} (hb : src < b) :
    ∀ fuel i m, (∀ a, src ≤ a → a < b + i → m a ≠ 0#8) → strcatLoop b src fuel i m = none := by
  intro fuel
  induction fuel with
  | zero => intros; rfl
  | succ fuel ih =>
    intro i m hm
    have hread := hm (src + i) (by omega) (by omega)
    rw [strcatLoop, if_neg hread]
    refine ih (i + 1) _ fun a ha ha' => ?_
    by_cases hai : a = b + i
    · rw [hai, Function.update_self]
      exact hread
    · rw [Function.update_of_ne hai]
      exact hm a ha (by omega)

/-- The memory with the second string copied behind the first. -/
private lemma concatenated_copied (hd : StringAt (charPtr m dst) cs)
    (hs : StringAt (charPtr m src) ds) :
    Concatenated m dst cs ds (dst, copied m (dst + cs.length) src 0 (ds.length + 1)) := by
  have hptr : charPtr (copied m (dst + cs.length) src 0 (ds.length + 1)) dst =
      some (copied m (dst + cs.length) src 0 (ds.length + 1), dst) := by
    refine if_neg fun h0 => ?_
    rw [charPtr, if_pos h0] at hd
    exact hd
  rw [charPtr_of_stringAt hd, stringAt_some, Segment.at_append] at hd
  rw [charPtr_of_stringAt hs, stringAt_some] at hs
  refine ⟨rfl, ?_, fun a ha => ?_⟩
  · rw [hptr, stringAt_some, List.append_assoc, Segment.at_append]
    refine ⟨⟨hd.1.1.copy fun k hk => ?_, hs.1.copy fun k hk => ?_⟩, ?_⟩
    · rw [copied, if_neg (by omega)]
    · rw [List.length_append, List.length_singleton] at hk
      rw [copied, if_pos (by omega), Nat.add_sub_cancel_left]
    · rw [List.forall_mem_append]
      exact ⟨hd.2, hs.2⟩
  · show copied m (dst + cs.length) src 0 (ds.length + 1) a = m a
    rw [copied, if_neg (by omega)]

/-- Where the `NUL` of the destination lies, if it is not the one behind characters of the
source. -/
private lemma apart_of_ne (hnul : m (dst + cs.length) = 0#8) (hs : StringAt (charPtr m src) ds)
    (h : ds = [] ∨ dst + cs.length ≠ src + ds.length) :
    dst + cs.length ≤ src ∨ src + ds.length < dst + cs.length := by
  by_contra hb
  rcases h with rfl | hne
  · rw [List.length_nil] at hb
    omega
  · have hinside := @ne_nul_of_stringAt _ _ _ hs (dst + cs.length - src) (by omega)
    rw [Nat.add_sub_cancel' (by omega)] at hinside
    exact hinside hnul

/-- It does not end when the two share their `NUL`, behind characters of the source. -/
private lemma strcat_eq_none (hd : StringAt (charPtr m dst) cs) (hs : StringAt (charPtr m src) ds)
    (hne : ds ≠ []) (hshare : dst + cs.length = src + ds.length) (fuel : ℕ) :
    strcat fuel dst src m = none := by
  have hpos := List.length_pos_iff.mpr hne
  have hnone := strcatLoop_eq_none (show src < dst + cs.length by omega) fuel 0 m
    fun a ha ha' => by
      have hbyte := @ne_nul_of_stringAt _ _ _ hs (a - src) (by omega)
      rwa [Nat.add_sub_cancel' ha] at hbyte
  cases hl : strlen fuel (charPtr m dst) with
  | none => rw [strcat, hl, Option.bind_none]
  | some l =>
    obtain ⟨cs', hcs', rfl, -⟩ := (strlen_eq_some_iff _ _ _).mp hl
    obtain rfl := hcs'.unique hd
    rw [strcat, hl, Option.bind_some, hnone]
    rfl

/-- **When `strcat` ends**: unless the second string is not empty and ends with the `NUL` of the
first, it ends and leaves the two strings one behind the other; but if it is so, as when a string is
appended to itself, then it does not end.

**Proof sketch.** The first character that is copied overwrites the `NUL` of the destination.  If
this was the `NUL` of the source, then every byte from the source on that the loop comes to has been
written by itself (`strcat_eq_none`).  A `NUL` at another place does not lie inside the source, so
the copy lies below or behind it (`apart_of_ne`, `strcatLoop_eq`). -/
theorem strcat_concatenates (hd : StringAt (charPtr m dst) cs) (hs : StringAt (charPtr m src) ds) :
    (ds = [] ∨ dst + cs.length ≠ src + ds.length →
      ∃ r, (∀ fuel, cs.length + ds.length < fuel → strcat fuel dst src m = some r) ∧
        Concatenated m dst cs ds r) ∧
    (¬(ds = [] ∨ dst + cs.length ≠ src + ds.length) → ∀ fuel, strcat fuel dst src m = none) := by
  constructor
  · intro h
    have hb := apart_of_ne (nul_of_stringAt hd) hs h
    refine ⟨_, fun fuel hfuel => ?_, concatenated_copied hd hs⟩
    have hlen : strlen fuel (charPtr m dst) = some cs.length :=
      (strlen_eq_some_iff _ _ _).mpr ⟨cs, hd, rfl, by omega⟩
    have hloop := strcatLoop_eq hs hb fuel 0 (Nat.zero_le _) (by omega)
    rw [copied_self] at hloop
    rw [strcat, hlen, Option.bind_some, hloop]
    rfl
  · intro h
    rw [not_or, not_not] at h
    exact strcat_eq_none hd hs h.1 h.2

end Strcat

/-- A string appended to another one, and to itself. -/
theorem strcat_concatenates_itself :
    let m : Mem := fun a =>
      if a < 200 then [1#8, 2#8, 0#8].getD (a - 100) 0#8 else [3#8, 0#8].getD (a - 200) 0#8
    (∃ r, (∀ fuel, 3 < fuel → strcat fuel 100 200 m = some r) ∧
        Concatenated m 100 [1#8, 2#8] [3#8] r) ∧
      ∀ fuel, strcat fuel 100 100 m = none := by
  intro m
  have hd : StringAt (charPtr m 100) [1#8, 2#8] := ⟨⟨rfl, rfl, rfl, trivial⟩, by decide⟩
  have hs : StringAt (charPtr m 200) [3#8] := ⟨⟨rfl, rfl, trivial⟩, by decide⟩
  exact ⟨(strcat_concatenates hd hs).1 (by decide), (strcat_concatenates hd hd).2 (by decide)⟩

end Riscv64Cpu.Klib
