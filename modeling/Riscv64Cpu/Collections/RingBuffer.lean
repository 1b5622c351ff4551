import Mathlib.Logic.Function.Basic
import Mathlib.Data.List.Induction
import Mathlib.Tactic.SplitIfs

set_option relaxedAutoImplicit false
set_option autoImplicit false

/-!
# Ring buffers

A ring buffer of `n` slots that keeps the place of the next write and a flag for the first wrap.
It remembers the last `n` values that were pushed.

## Main definitions

* `RingBuffer` — a ring buffer.
* `RingBuffer.push`, `size`, `oldest`, `newest` — one push, and where the remembered values lie.
* `RingBuffer.Records` — the buffer after the pushes of a list of values.

## Main results

* `RingBuffer.Records.push` — one push more.
* `RingBuffer.Records.slot_eq` — the remembered values, from the oldest on.
* `RingBuffer.Records.index_eq_newest_iff` — which of them is the newest.
-/

/-- A ring buffer of `n` slots. -/
structure RingBuffer (α : Type*) (n : ℕ) where
  slots : ℕ → α
  ptr : ℕ
  full : Bool
  ptr_lt : ptr < n

namespace RingBuffer

variable {α : Type*} {n : ℕ}

/-- The buffer after a push. -/
def push (r : RingBuffer α n) (x : α) : RingBuffer α n where
  slots := Function.update r.slots r.ptr x
  ptr := (r.ptr + 1) % n
  full := r.full || (r.ptr + 1) % n == 0
  ptr_lt := Nat.mod_lt _ (Nat.zero_lt_of_lt r.ptr_lt)

/-- A push overwrites the slot of the pointer. -/
@[simp] lemma push_slots (r : RingBuffer α n) (x : α) :
    (r.push x).slots = Function.update r.slots r.ptr x := rfl

/-- A push advances the pointer. -/
@[simp] lemma push_ptr (r : RingBuffer α n) (x : α) : (r.push x).ptr = (r.ptr + 1) % n := rfl

/-- A push that wraps around fills the buffer. -/
@[simp] lemma push_full (r : RingBuffer α n) (x : α) :
    (r.push x).full = (r.full || (r.ptr + 1) % n == 0) := rfl

/-- The number of values that the buffer remembers. -/
def size (r : RingBuffer α n) : ℕ := if r.full then n else r.ptr

/-- The slot of the oldest of them. -/
def oldest (r : RingBuffer α n) : ℕ := if r.full then r.ptr else 0

/-- The slot of the newest of them. -/
def newest (r : RingBuffer α n) : ℕ := (r.ptr + n - 1) % n

/-- The buffer after the pushes of `xs`, oldest first. -/
structure Records (r : RingBuffer α n) (xs : List α) : Prop where
  ptr : r.ptr = xs.length % n
  full : r.full = true ↔ n ≤ xs.length
  slots : ∀ (k : ℕ) (h : k < xs.length), xs.length ≤ k + n → r.slots (k % n) = xs[k]

variable {r : RingBuffer α n} {xs : List α}

/-- Nothing has been pushed. -/
lemma records_nil (hptr : r.ptr = 0) (hfull : r.full = false) : r.Records [] where
  ptr := by rw [hptr]; rfl
  full := by
    rw [hfull]
    refine iff_of_false Bool.false_ne_true fun h => ?_
    exact absurd r.ptr_lt (by simp at h; omega)
  slots k h := absurd h (Nat.not_lt_zero k)

/-- **One push more.** -/
theorem Records.push (h : r.Records xs) (x : α) : (r.push x).Records (xs ++ [x]) := by
  have hn : 0 < n := Nat.zero_lt_of_lt r.ptr_lt
  constructor
  · rw [push_ptr, h.ptr, Nat.mod_add_mod, List.length_append, List.length_singleton]
  · rw [push_full, List.length_append, List.length_singleton, Bool.or_eq_true, h.full, h.ptr,
      beq_iff_eq, Nat.mod_add_mod]
    constructor
    · rintro (hle | hz)
      · omega
      · exact Nat.le_of_dvd (Nat.succ_pos _) (Nat.dvd_of_mod_eq_zero hz)
    · intro hle
      rcases Nat.lt_or_ge xs.length n with hlt | hge
      · refine .inr ?_
        rw [show xs.length + 1 = n by omega, Nat.mod_self]
      · exact .inl hge
  · intro k hk hkn
    rw [List.length_append, List.length_singleton] at hk hkn
    rcases Nat.lt_or_ge k xs.length with hlt | hge
    · have hne : k % n ≠ r.ptr := by
        rw [h.ptr]
        intro heq
        have hdvd := Nat.dvd_of_mod_eq_zero (Nat.sub_mod_eq_zero_of_mod_eq heq.symm)
        have := Nat.le_of_dvd (by omega) hdvd
        omega
      rw [push_slots, Function.update_of_ne hne, h.slots k hlt (by omega),
        List.getElem_append_left hlt]
    · obtain rfl : k = xs.length := by omega
      rw [push_slots, ← h.ptr, Function.update_self]
      simp

/-- The number of remembered values. -/
lemma Records.size_eq (h : r.Records xs) : r.size = min xs.length n := by
  unfold size
  split_ifs with hf
  · have := h.full.mp hf
    omega
  · have hlt : ¬ n ≤ xs.length := fun hle => hf (h.full.mpr hle)
    rw [h.ptr, Nat.mod_eq_of_lt (by omega)]
    omega

/-- The slot of the `c`-th remembered value. -/
lemma Records.index_eq (h : r.Records xs) (c : ℕ) :
    (r.oldest + c) % n = (xs.length - n + c) % n := by
  unfold oldest
  split_ifs with hf
  · have hle := h.full.mp hf
    rw [h.ptr, Nat.mod_add_mod, ← Nat.add_mod_right (xs.length - n + c) n]
    congr 1
    omega
  · have hlt : ¬ n ≤ xs.length := fun hle => hf (h.full.mpr hle)
    rw [show xs.length - n = 0 by omega]

/-- **The remembered values** are the last ones, in order. -/
theorem Records.slot_eq (h : r.Records xs) {c : ℕ} (hc : c < (xs.drop (xs.length - n)).length) :
    r.slots ((r.oldest + c) % n) = (xs.drop (xs.length - n))[c] := by
  have hlen := hc
  rw [List.length_drop] at hlen
  rw [List.getElem_drop, h.index_eq]
  exact h.slots _ (by omega) (by omega)

/-- **The newest value** comes last. -/
theorem Records.index_eq_newest_iff (h : r.Records xs) {c : ℕ} (hc : c < r.size) :
    (r.oldest + c) % n = r.newest ↔ c + 1 = r.size := by
  have hn : 0 < n := Nat.zero_lt_of_lt r.ptr_lt
  have hsize := h.size_eq
  have hpos : 0 < xs.length := by omega
  have hnewest : r.newest = (xs.length - 1) % n := by
    rw [newest, h.ptr, show xs.length % n + n - 1 = xs.length % n + (n - 1) by omega,
      Nat.mod_add_mod, show xs.length + (n - 1) = xs.length - 1 + n by omega, Nat.add_mod_right]
  rw [hnewest, h.index_eq]
  constructor
  · intro heq
    have hdvd := Nat.dvd_of_mod_eq_zero (Nat.sub_mod_eq_zero_of_mod_eq heq.symm)
    by_contra hne
    have := Nat.le_of_dvd (by omega) hdvd
    omega
  · intro hlast
    rw [show xs.length - n + c = xs.length - 1 by omega]

end RingBuffer
