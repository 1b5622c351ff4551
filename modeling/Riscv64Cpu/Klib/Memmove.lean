import Riscv64Cpu.Klib.CString

set_option relaxedAutoImplicit false
set_option autoImplicit false

/-!
# Moves between overlapping regions

`memmove` of `klib/src/string.c`: upwards when the destination lies below the source, downwards
otherwise.

## Main definitions

* `Klib.moveUp`, `moveDown`, `memmove` — the two loops and the function.
* `Klib.copied` — the memory with a part of the region copied.
* `Klib.Moved` — what a move owes.

## Main results

* `Klib.moveUp_copied`, `moveDown_copied` — the two loops.
* `Klib.memmove_moved` — the move, for every overlap.

## Design

A pointer is the address it holds; the bytes of an object have consecutive addresses.  The loops
have an `int` index next to a `size_t` length, so they take fuel: `none` stands for a loop that is
still running.
-/

namespace Riscv64Cpu.Klib

/-! ## The function -/

/-- `for(int i = 0; i < n; ++i) d[i] = s[i]`, from `i` on. -/
def moveUp (d s : ℕ) (n : BitVec 64) : ℕ → BitVec 32 → Mem → Option Mem
  | 0, _, _ => none
  | fuel + 1, i, m =>
    if (i.signExtend 64).toNat < n.toNat then
      moveUp d s n fuel (i + 1#32) (Function.update m (elem d i) (m (elem s i)))
    else some m

/-- `for(int i = n - 1; i >= 0; --i) d[i] = s[i]`, from `i` on. -/
def moveDown (d s : ℕ) : ℕ → BitVec 32 → Mem → Option Mem
  | 0, _, _ => none
  | fuel + 1, i, m =>
    if 0 ≤ i.toInt then
      moveDown d s fuel (i - 1#32) (Function.update m (elem d i) (m (elem s i)))
    else some m

/-- `memmove`: the returned pointer and the memory. -/
def memmove (fuel : ℕ) (dst src : ℕ) (n : BitVec 64) (m : Mem) : Option (ℕ × Mem) :=
  if dst = 0 ∨ src = 0 then some (0, m)
  else if n = 0#64 then some (dst, m)
  else if dst < src then (moveUp dst src n fuel 0#32 m).map (Prod.mk dst)
  else (moveDown dst src fuel ((n - 1#64).setWidth 32) m).map (Prod.mk dst)

/-- The comparison of the index with the length. -/
lemma toNat_signExtend_ofNat {k : ℕ} (hk : k < 2 ^ 31) :
    ((BitVec.ofNat 32 k).signExtend 64).toNat = k := by
  have hmsb : (BitVec.ofNat 32 k).msb = false := by
    rw [BitVec.msb_eq_false_iff_two_mul_lt, BitVec.toNat_ofNat]
    omega
  rw [BitVec.signExtend_eq_setWidth_of_msb_false hmsb, BitVec.toNat_setWidth, BitVec.toNat_ofNat]
  omega

/-! ## The loops -/

/-- The memory `m` with the bytes from `lo` up to `hi` of the region at `src` copied to that at
`dst`. -/
def copied (m : Mem) (dst src lo hi : ℕ) : Mem := fun a =>
  if dst + lo ≤ a ∧ a < dst + hi then m (src + (a - dst)) else m a

section Loops

variable (m : Mem) {dst src : ℕ}

/-- No byte is copied. -/
lemma copied_self (lo : ℕ) : copied m dst src lo lo = m := by
  funext a
  rw [copied, if_neg (by omega)]

/-- One byte more, at whichever end of the part. -/
lemma update_copied {lo hi lo' hi' k : ℕ}
    (h : ∀ a, dst + lo' ≤ a ∧ a < dst + hi' ↔ a = dst + k ∨ (dst + lo ≤ a ∧ a < dst + hi)) :
    Function.update (copied m dst src lo hi) (dst + k) (m (src + k)) =
      copied m dst src lo' hi' := by
  funext a
  unfold copied
  by_cases ha : a = dst + k
  · rw [ha, Function.update_self, if_pos ((h _).mpr (Or.inl rfl)), Nat.add_sub_cancel_left]
  · rw [Function.update_of_ne ha]
    simp only [h, ha, false_or]

/-- One byte more at the upper end, when the source byte is not yet overwritten. -/
private lemma update_copied_up (h : dst < src) (k : ℕ) :
    Function.update (copied m dst src 0 k) (dst + k) (copied m dst src 0 k (src + k)) =
      copied m dst src 0 (k + 1) := by
  have hsrc : copied m dst src 0 k (src + k) = m (src + k) := by
    rw [copied, if_neg (by omega)]
  rw [hsrc]
  exact update_copied m fun a => by omega

/-- One byte more at the lower end, when the source byte is not yet overwritten. -/
private lemma update_copied_down (h : src ≤ dst) {k n : ℕ} (hk : k < n) :
    Function.update (copied m dst src (k + 1) n) (dst + k)
      (copied m dst src (k + 1) n (src + k)) = copied m dst src k n := by
  have hsrc : copied m dst src (k + 1) n (src + k) = m (src + k) := by
    rw [copied, if_neg (by omega)]
  rw [hsrc]
  exact update_copied m fun a => by omega

/-- **The upward loop**, for a destination below the source. -/
theorem moveUp_copied (h : dst < src) {n : BitVec 64} (hn : n.toNat < 2 ^ 31) :
    ∀ (fuel k : ℕ), k ≤ n.toNat → n.toNat < k + fuel →
      moveUp dst src n fuel (BitVec.ofNat 32 k) (copied m dst src 0 k) =
        some (copied m dst src 0 n.toNat) := by
  intro fuel
  induction fuel with
  | zero => intro k hk hfuel; omega
  | succ fuel ih =>
    intro k hk hfuel
    rw [moveUp, toNat_signExtend_ofNat (by omega)]
    by_cases hlt : k < n.toNat
    · rw [if_pos hlt, elem_ofNat _ (by omega), elem_ofNat _ (by omega), update_copied_up m h,
        show BitVec.ofNat 32 k + 1#32 = BitVec.ofNat 32 (k + 1) from
          (BitVec.ofNat_add k 1).symm]
      exact ih (k + 1) (by omega) (by omega)
    · rw [if_neg hlt, show k = n.toNat by omega]

/-- **The downward loop**, for a destination not below the source. -/
theorem moveDown_copied (h : src ≤ dst) {n : ℕ} (hn : n < 2 ^ 31) :
    ∀ (fuel k : ℕ), k ≤ n → k < fuel →
      moveDown dst src fuel (BitVec.ofNat 32 k - 1#32) (copied m dst src k n) =
        some (copied m dst src 0 n) := by
  intro fuel
  induction fuel with
  | zero => intro k hk hfuel; omega
  | succ fuel ih =>
    intro k hk hfuel
    cases k with
    | zero =>
      rw [moveDown, if_neg]
      decide
    | succ k =>
      have hi : BitVec.ofNat 32 (k + 1) - 1#32 = BitVec.ofNat 32 k := by
        rw [BitVec.ofNat_add]
        exact BitVec.add_sub_cancel _ _
      rw [hi, moveDown, toInt_ofNat (by omega), if_pos (by omega), elem_ofNat _ (by omega),
        elem_ofNat _ (by omega), update_copied_down m h (by omega)]
      exact ih k (by omega) (by omega)

end Loops

/-! ## The move -/

/-- What a move owes: the bytes at the destination are those that were at the source, all others
are as they were, and the destination is returned. -/
structure Moved (m : Mem) (dst src n : ℕ) (r : ℕ × Mem) : Prop where
  ret : r.1 = dst
  moved : ∀ k < n, r.2 (dst + k) = m (src + k)
  others : ∀ a, a < dst ∨ dst + n ≤ a → r.2 a = m a

/-- The memory with all bytes copied is what `memmove` owes. -/
private lemma moved_copied (m : Mem) (dst src n : ℕ) :
    Moved m dst src n (dst, copied m dst src 0 n) where
  ret := rfl
  moved k hk := by
    show copied m dst src 0 n (dst + k) = _
    rw [copied, if_pos (by omega), Nat.add_sub_cancel_left]
  others a ha := by
    show copied m dst src 0 n a = _
    rw [copied, if_neg (by omega)]

/-- **The move is right for every overlap**, and ends.

**Proof sketch.** Whichever way the loop runs, the source byte that it reads next has not been
overwritten: going up the destination is below the source, going down it is not.  The bound on `n`
keeps the `int` index from overflowing. -/
theorem memmove_moved (m : Mem) {dst src : ℕ} (hdst : dst ≠ 0) (hsrc : src ≠ 0) {n : BitVec 64}
    (hn : n.toNat < 2 ^ 31) :
    ∃ r, (∀ fuel, n.toNat < fuel → memmove fuel dst src n m = some r) ∧
      Moved m dst src n.toNat r := by
  refine ⟨_, fun fuel hfuel => ?_, moved_copied m dst src n.toNat⟩
  rw [memmove, if_neg (by simp [hdst, hsrc])]
  by_cases h0 : n = 0#64
  · rw [if_pos h0, h0]
    exact congrArg (fun x => some (dst, x)) (copied_self m 0).symm
  · rw [if_neg h0]
    by_cases hlt : dst < src
    · have hup := moveUp_copied m hlt hn fuel 0 (Nat.zero_le _) (by omega)
      rw [copied_self] at hup
      rw [if_pos hlt]
      exact congrArg (Option.map (Prod.mk dst)) hup
    · have hi : (n - 1#64).setWidth 32 = BitVec.ofNat 32 n.toNat - 1#32 := by
        have hpos : 0 < n.toNat := BitVec.toNat_pos_of_ne_zero h0
        apply BitVec.eq_of_toNat_eq
        simp only [BitVec.toNat_setWidth, BitVec.toNat_sub, BitVec.toNat_ofNat]
        omega
      have hdown := moveDown_copied m (Nat.not_lt.mp hlt) hn fuel n.toNat (Nat.le_refl _) hfuel
      rw [copied_self] at hdown
      rw [if_neg hlt, hi]
      exact congrArg (Option.map (Prod.mk dst)) hdown

/-- A destination inside the source, and a source inside the destination. -/
theorem memmove_overlaps :
    (∃ r, (∀ fuel, 3 < fuel → memmove fuel 101 100 3#64 (BitVec.ofNat 8) = some r) ∧
      Moved (BitVec.ofNat 8) 101 100 3 r) ∧
    ∃ r, (∀ fuel, 3 < fuel → memmove fuel 100 101 3#64 (BitVec.ofNat 8) = some r) ∧
      Moved (BitVec.ofNat 8) 100 101 3 r :=
  ⟨memmove_moved (n := 3#64) _ (by decide) (by decide) (by decide),
    memmove_moved (n := 3#64) _ (by decide) (by decide) (by decide)⟩

end Riscv64Cpu.Klib
