import Mathlib.Logic.Function.Basic
import Mathlib.Order.TypeTags
import Mathlib.Algebra.Group.Nat.Defs

set_option relaxedAutoImplicit false
set_option autoImplicit false

/-!
# Lexicographic comparison by the first difference

A comparison of two lists that walks along both decides at the first place at which they differ.

## Main definitions

* `Lexicographic.commonLength` — the length of the part that two lists have in common.
* `Lexicographic.firstDifference` — the two elements behind it.
* `Lexicographic.Comparable` — neither list ends before they differ.

## Main results

* `Lexicographic.compare_map` — the order of two lists by their first difference, for any key.
* `Lexicographic.comparable_terminated`, `Comparable.take`, `comparable_of_length` — lists of
  which neither ends first.
-/

namespace Lexicographic

variable {α β : Type*} [DecidableEq α]

/-- The length of the longest common prefix. -/
def commonLength : List α → List α → ℕ
  | a :: as, b :: bs => if a = b then commonLength as bs + 1 else 0
  | _, _ => 0

/-- The first two elements at the same place that differ. -/
def firstDifference : List α → List α → Option (α × α)
  | a :: as, b :: bs => if a = b then firstDifference as bs else some (a, b)
  | _, _ => none

/-! ## The common prefix -/

/-- A common first element lengthens the common part by one. -/
@[simp] lemma commonLength_cons_self (a : α) (as bs : List α) :
    commonLength (a :: as) (a :: bs) = commonLength as bs + 1 := by
  rw [commonLength, if_pos rfl]

/-- Lists with different first elements have no common part. -/
lemma commonLength_cons_of_ne {a b : α} (h : a ≠ b) (as bs : List α) :
    commonLength (a :: as) (b :: bs) = 0 := by
  rw [commonLength, if_neg h]

/-- Lists with a common part have the same first element. -/
lemma exists_cons_of_commonLength_pos {as bs : List α} (h : 0 < commonLength as bs) :
    ∃ c as' bs', as = c :: as' ∧ bs = c :: bs' := by
  fun_cases commonLength as bs with
  | case1 as b bs => exact ⟨b, as, bs, rfl, rfl⟩
  | case2 a as b bs hab =>
    rw [commonLength_cons_of_ne hab] at h
    exact absurd h (Nat.lt_irrefl 0)
  | case3 as bs hcons =>
    rw [commonLength] at h
    · exact absurd h (Nat.lt_irrefl 0)
    · exact hcons

/-! ## The first difference -/

/-- The first difference lies behind a common first element. -/
@[simp] lemma firstDifference_cons_self (a : α) (as bs : List α) :
    firstDifference (a :: as) (a :: bs) = firstDifference as bs := by
  rw [firstDifference, if_pos rfl]

/-- Different first elements are the first difference. -/
lemma firstDifference_cons_of_ne {a b : α} (h : a ≠ b) (as bs : List α) :
    firstDifference (a :: as) (b :: bs) = some (a, b) := by
  rw [firstDifference, if_neg h]

/-- The elements of the first difference are different. -/
lemma ne_of_firstDifference {as bs : List α} {a b : α}
    (h : firstDifference as bs = some (a, b)) : a ≠ b := by
  fun_induction firstDifference as bs with
  | case1 as b bs ih => exact ih h
  | case2 a as b bs hne =>
    obtain ⟨rfl, rfl⟩ := Prod.mk.inj (Option.some.inj h)
    exact hne
  | case3 as bs => exact nomatch h

/-- **The first difference decides** the order of two lists, for every key that tells the elements
apart. -/
theorem compare_map [Ord β] [Std.LawfulEqOrd β] {f : α → β} {as bs : List α} {a b : α}
    (h : firstDifference as bs = some (a, b)) (hab : f a ≠ f b) :
    compare (as.map f) (bs.map f) = compare (f a) (f b) := by
  fun_induction firstDifference as bs with
  | case1 as c bs ih =>
    have hself : compare (f c) (f c) = .eq := Std.ReflCmp.compare_self
    rw [List.map_cons, List.map_cons, List.compare_cons_cons, hself, Ordering.eq_then]
    exact ih h
  | case2 c as d bs hne =>
    obtain ⟨rfl, rfl⟩ := Prod.mk.inj (Option.some.inj h)
    rw [List.map_cons, List.map_cons, List.compare_cons_cons]
    cases hcmp : compare (f c) (f d) with
    | lt => rfl
    | eq => exact absurd (Std.LawfulEqCmp.eq_of_compare hcmp) hab
    | gt => rfl
  | case3 as bs => exact nomatch h

/-- The first difference decides the order. -/
lemma compare_of_firstDifference [Ord α] [Std.LawfulEqOrd α] {as bs : List α} {a b : α}
    (h : firstDifference as bs = some (a, b)) : compare as bs = compare a b := by
  have hid := compare_map (f := id) h (ne_of_firstDifference h)
  rwa [List.map_id, List.map_id] at hid

/-! ## Lists of which neither ends first -/

/-- Two lists that do not differ at any place are the same. -/
def Comparable (as bs : List α) : Prop := firstDifference as bs = none → as = bs

/-- Lists of one length are comparable. -/
theorem comparable_of_length : ∀ {as bs : List α}, as.length = bs.length → Comparable as bs
  | [], [], _ => fun _ => rfl
  | a :: as, b :: bs, h => by
    intro hnone
    by_cases hab : a = b
    · subst hab
      rw [firstDifference_cons_self] at hnone
      rw [comparable_of_length (Nat.succ.inj h) hnone]
    · rw [firstDifference_cons_of_ne hab] at hnone
      exact nomatch hnone

/-- Lists that end with the first occurrence of the same element. -/
theorem comparable_terminated {z : α} :
    ∀ {as bs : List α}, z ∉ as → z ∉ bs → Comparable (as ++ [z]) (bs ++ [z])
  | [], [], _, _ => fun _ => rfl
  | [], b :: bs, _, hb => by
    intro hnone
    have hzb : z ≠ b := fun h => hb (h ▸ List.mem_cons_self)
    rw [List.nil_append, List.cons_append, firstDifference_cons_of_ne hzb] at hnone
    exact nomatch hnone
  | a :: as, [], ha, _ => by
    intro hnone
    have haz : a ≠ z := fun h => ha (h ▸ List.mem_cons_self)
    rw [List.nil_append, List.cons_append, firstDifference_cons_of_ne haz] at hnone
    exact nomatch hnone
  | a :: as, b :: bs, ha, hb => by
    intro hnone
    rw [List.cons_append, List.cons_append] at hnone ⊢
    by_cases hab : a = b
    · subst hab
      rw [firstDifference_cons_self] at hnone
      rw [comparable_terminated (fun h => ha (List.mem_cons_of_mem _ h))
        (fun h => hb (List.mem_cons_of_mem _ h)) hnone]
    · rw [firstDifference_cons_of_ne hab] at hnone
      exact nomatch hnone

/-- Behind a common first element lists stay comparable. -/
lemma Comparable.tail {a : α} {as bs : List α} (h : Comparable (a :: as) (a :: bs)) :
    Comparable as bs := by
  intro hnone
  rw [Comparable, firstDifference_cons_self] at h
  exact (List.cons.inj (h hnone)).2

/-- The first elements of two such lists. -/
theorem Comparable.take :
    ∀ {as bs : List α} (n : ℕ), Comparable as bs → Comparable (as.take n) (bs.take n)
  | as, bs, 0, _ => fun _ => rfl
  | [], [], n + 1, _ => fun _ => rfl
  | [], b :: bs, n + 1, h => nomatch h rfl
  | a :: as, [], n + 1, h => nomatch h rfl
  | a :: as, b :: bs, n + 1, h => by
    intro hnone
    rw [List.take_succ_cons, List.take_succ_cons] at hnone ⊢
    by_cases hab : a = b
    · subst hab
      rw [firstDifference_cons_self] at hnone
      rw [h.tail.take n hnone]
    · rw [firstDifference_cons_of_ne hab] at hnone
      exact nomatch hnone

end Lexicographic
