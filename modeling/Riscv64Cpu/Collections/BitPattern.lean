import Mathlib.Data.Nat.Basic
import Mathlib.Data.List.Induction

set_option relaxedAutoImplicit false
set_option autoImplicit false

/-!
# Bit patterns

A pattern of fixed bits and don't-care places, most significant first, and its test by a mask and
a key: a word matches when its masked bits are the key.

## Main definitions

* `BitPattern.Pattern` — a pattern.
* `BitPattern.keyMask` — its key and its mask, built symbol by symbol.
* `BitPattern.MatchesAt` — the pattern, bit by bit, from a place of the word on.
* `BitPattern.field`, `any` — the pattern of a fixed field and of a free one.

## Main results

* `BitPattern.and_mask_eq_key_iff` — the test is the comparison bit by bit.
* `BitPattern.matchesAt_append`, `matchesAt_field`, `matchesAt_any` — patterns made of fields.
-/

namespace BitPattern

/-- A pattern, most significant symbol first: a fixed bit, or `none` for any bit. -/
abbrev Pattern := List (Option Bool)

variable {n m : ℕ}

/-- Key and mask of a pattern with one more symbol at its low end. -/
def push (km : BitVec n × BitVec n) (c : Option Bool) : BitVec n × BitVec n :=
  (km.1 <<< 1 ||| BitVec.setWidth n (BitVec.ofBool (c == some true)),
    km.2 <<< 1 ||| BitVec.setWidth n (BitVec.ofBool c.isSome))

/-- Key and mask of a pattern. -/
def keyMask (n : ℕ) (p : Pattern) : BitVec n × BitVec n := p.foldl push (0#n, 0#n)

/-- The bits of `w` from place `s` on are those of the pattern. -/
def MatchesAt (p : Pattern) (s : ℕ) (w : BitVec n) : Prop :=
  ∀ i b, p.reverse[i]? = some (some b) → w.getLsbD (s + i) = b

/-- The pattern of a field with the value `v`. -/
def field (v : BitVec m) : Pattern := ((List.range m).map fun i => some (v.getLsbD i)).reverse

/-- The pattern of a free field. -/
def any (k : ℕ) : Pattern := List.replicate k none

/-! ## Key and mask -/

/-- One symbol more at the low end. -/
lemma keyMask_append_singleton (p : Pattern) (c : Option Bool) :
    keyMask n (p ++ [c]) = push (keyMask n p) c := by
  simp [keyMask]

/-- The bits of the key or of the mask: symbol `c` gives the bit `f c`. -/
private lemma getLsbD_part {f : Option Bool → Bool} {part : BitVec n × BitVec n → BitVec n}
    (hnil : part (0#n, 0#n) = 0#n)
    (hpush : ∀ km c,
      part (push km c) = part km <<< 1 ||| BitVec.setWidth n (BitVec.ofBool (f c)))
    (p : Pattern) (i : ℕ) :
    (part (keyMask n p)).getLsbD i = (decide (i < n) && p.reverse[i]?.elim false f) := by
  induction p using List.reverseRecOn generalizing i with
  | nil => simp [keyMask, hnil]
  | append_singleton p c ih =>
    rw [keyMask_append_singleton, List.reverse_append, List.reverse_singleton,
      List.singleton_append, hpush]
    cases i with
    | zero => simp
    | succ i =>
      rw [BitVec.getLsbD_or, BitVec.getLsbD_shiftLeft, Nat.add_sub_cancel, ih,
        List.getElem?_cons_succ]
      by_cases hi : i + 1 < n
      · simp [hi, show i < n by omega]
      · simp [hi]

/-- The bits of the key. -/
lemma getLsbD_key (p : Pattern) (i : ℕ) :
    (keyMask n p).1.getLsbD i = (decide (i < n) && p.reverse[i]? == some (some true)) := by
  have hkey := @getLsbD_part n (· == some true) Prod.fst rfl (fun _ _ => rfl) p i
  rw [hkey]
  cases p.reverse[i]? <;> rfl

/-- The bits of the mask. -/
lemma getLsbD_mask (p : Pattern) (i : ℕ) :
    (keyMask n p).2.getLsbD i = (decide (i < n) && (p.reverse[i]?.getD none).isSome) := by
  have hmask := @getLsbD_part n Option.isSome Prod.snd rfl (fun _ _ => rfl) p i
  rw [hmask]
  cases p.reverse[i]? <;> rfl

/-- **The test by mask and key**, for a pattern no longer than the word. -/
theorem and_mask_eq_key_iff {p : Pattern} (hp : p.length ≤ n) (w : BitVec n) :
    w &&& (keyMask n p).2 = (keyMask n p).1 ↔ MatchesAt p 0 w := by
  rw [BitVec.eq_of_getLsbD_eq_iff]
  simp only [BitVec.getLsbD_and, getLsbD_key, getLsbD_mask, MatchesAt, Nat.zero_add]
  constructor
  · intro h i b hb
    have hi : i < p.length := by
      have := (List.getElem?_eq_some_iff.mp hb).1
      rwa [List.length_reverse] at this
    have := h i (by omega)
    rw [hb] at this
    cases b <;> simpa [show i < n by omega] using this
  · intro h i hi
    rcases hs : p.reverse[i]? with _ | _ | b
    · simp
    · simp
    · rw [h i b hs]
      cases b <;> simp [hi]

/-- The key has no bit outside of the mask. -/
lemma key_and_mask (p : Pattern) : (keyMask n p).1 &&& (keyMask n p).2 = (keyMask n p).1 := by
  apply BitVec.eq_of_getLsbD_eq
  intro i hi
  rw [BitVec.getLsbD_and, getLsbD_key, getLsbD_mask]
  rcases p.reverse[i]? with _ | _ | b
  · simp
  · simp
  · cases b <;> simp

/-! ## Fields -/

/-- A pattern in two parts. -/
theorem matchesAt_append (p q : Pattern) (s : ℕ) (w : BitVec n) :
    MatchesAt (p ++ q) s w ↔ MatchesAt p (s + q.length) w ∧ MatchesAt q s w := by
  unfold MatchesAt
  rw [List.reverse_append]
  constructor
  · intro h
    constructor
    · intro i b hb
      have := h (q.length + i) b (by
        rw [List.getElem?_append_right (by simp), List.length_reverse, Nat.add_sub_cancel_left]
        exact hb)
      rwa [← Nat.add_assoc] at this
    · intro i b hb
      have hi := (List.getElem?_eq_some_iff.mp hb).1
      exact h i b (by rwa [List.getElem?_append_left hi])
  · rintro ⟨hp, hq⟩ i b hb
    by_cases hi : i < q.reverse.length
    · rw [List.getElem?_append_left hi] at hb
      exact hq i b hb
    · rw [List.getElem?_append_right (by omega)] at hb
      rw [List.length_reverse] at hi hb
      have := hp (i - q.length) b hb
      rwa [show s + q.length + (i - q.length) = s + i by omega] at this

/-- A fixed field. -/
theorem matchesAt_field (v : BitVec m) (s : ℕ) (w : BitVec n) :
    MatchesAt (field v) s w ↔ w.extractLsb' s m = v := by
  rw [BitVec.eq_of_getLsbD_eq_iff]
  unfold MatchesAt field
  simp only [List.reverse_reverse, List.getElem?_map, BitVec.getLsbD_extractLsb']
  constructor
  · intro h i hi
    rw [decide_eq_true hi, Bool.true_and]
    exact h i _ (by simp [hi])
  · intro h i b hb
    have hi : i < m := by
      by_contra hi
      simp [List.getElem?_eq_none (show (List.range m).length ≤ i by simpa using hi)] at hb
    rw [List.getElem?_range hi, Option.map_some, Option.some.injEq, Option.some.injEq] at hb
    rw [← hb, ← h i hi, decide_eq_true hi, Bool.true_and]

/-- A free field. -/
theorem matchesAt_any (k s : ℕ) (w : BitVec n) : MatchesAt (any k) s w ↔ True := by
  refine iff_true_intro fun i b hb => ?_
  unfold any at hb
  rw [List.reverse_replicate, List.getElem?_replicate] at hb
  split at hb <;> cases hb

/-- A fixed field is as long as its value. -/
@[simp] lemma length_field (v : BitVec m) : (field v).length = m := by simp [field]

/-- A free field of `k` places. -/
@[simp] lemma length_any (k : ℕ) : (any k).length = k := List.length_replicate

end BitPattern
