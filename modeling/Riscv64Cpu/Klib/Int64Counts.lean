import Riscv64Cpu.Klib.Int64
import Riscv64Cpu.Numbers.BitCount

set_option relaxedAutoImplicit false
set_option autoImplicit false

/-!
# The zero counts of `int64.c`

`__clzsi2`, `__ctzsi2`, `__clzdi2` and `__ctzdi2` halve their operand, without a branch.  They count
the leading and the trailing zeros of every operand but zero.

## Main definitions

* `Klib.CountsLead`, `CountsTrail` — what the halves so far say about the operand.

## Main results

* `Klib.clzsi2_eq`, `ctzsi2_eq` — the counts of a word.
* `Klib.zero_counts` — all four counts.
-/

namespace Riscv64Cpu.Klib

open BitCount

/-! ## Masks -/

/-- A mask for the upper half of `2 * v` bits. -/
def UpperMask (v : ℕ) (mask : BitVec 32) : Prop :=
  ∀ i, mask.getLsbD i = decide (v ≤ i ∧ i < v + v)

/-- A mask is one if it is one in all its bits. -/
lemma upperMask_of_lt {v : ℕ} {mask : BitVec 32} (hv : v + v ≤ 32)
    (h : ∀ i < 32, mask.getLsbD i = decide (v ≤ i ∧ i < v + v)) : UpperMask v mask := by
  intro i
  by_cases hi : i < 32
  · exact h i hi
  · rw [BitVec.getLsbD_of_ge _ _ (by omega)]
    exact (decide_eq_false (by omega)).symm

/-- The upper half is zero. -/
private lemma and_upperMask_eq_zero_iff {v : ℕ} {mask x : BitVec 32} (hmask : UpperMask v mask)
    (hx : x.toNat < 2 ^ (v + v)) : x &&& mask = 0#32 ↔ x.toNat < 2 ^ v := by
  constructor
  · intro h
    apply Nat.lt_pow_two_of_testBit
    intro i hi
    by_cases hiv : i < v + v
    · have hbit := congrArg (fun y : BitVec 32 => y.getLsbD i) h
      simp only [BitVec.getLsbD_and, hmask i, hi, hiv, and_self, decide_true, Bool.and_true,
        BitVec.getLsbD_zero] at hbit
      exact hbit
    · exact Nat.testBit_lt_two_pow
        (Nat.lt_of_lt_of_le hx (Nat.pow_le_pow_right (by decide) (by omega)))
  · intro h
    apply BitVec.eq_of_getLsbD_eq
    intro i _
    rw [BitVec.getLsbD_and, hmask i, BitVec.getLsbD_zero]
    by_cases hi : v ≤ i
    · have hbit : x.getLsbD i = false := Nat.testBit_lt_two_pow
        (Nat.lt_of_lt_of_le h (Nat.pow_le_pow_right (by decide) hi))
      rw [hbit, Bool.false_and]
    · rw [decide_eq_false fun hc => hi hc.1, Bool.and_false]

/-! ## Leading zeros -/

/-- `s` is an operand of `w` bits and a count; the zeros of the one and the count are the zeros of
`a`. -/
structure CountsLead (a : BitVec 32) (w : ℕ) (s : BitVec 32 × BitVec 32) : Prop where
  pos : 0 < s.1.toNat
  lt : s.1.toNat < 2 ^ w
  le : s.2.toNat + w ≤ 32
  leads : ∀ c, Leads w s.1.toNat c → Leads 32 a.toNat (s.2.toNat + c)

/-- The value of a comparison, shifted. -/
lemma ofCond_shiftLeft (b : Bool) {k : ℕ} (hk : k < 5) :
    ofCond b <<< k = if b = true then BitVec.ofNat 32 (2 ^ k) else 0#32 := by
  have h : ∀ k < 5, ∀ b : Bool, ofCond b <<< k =
      if b = true then BitVec.ofNat 32 (2 ^ k) else 0#32 := by decide
  exact h k hk b

/-- **One halving.** -/
theorem CountsLead.step {a mask : BitVec 32} {k : ℕ} {s : BitVec 32 × BitVec 32} (hk : k < 5)
    (hmask : UpperMask (2 ^ k) mask) (h : CountsLead a (2 ^ k + 2 ^ k) s) :
    CountsLead a (2 ^ k) (clzStep mask k (2 ^ k) s) := by
  have hpos := h.pos
  have hlt := h.lt
  have hle := h.le
  have hcond := and_upperMask_eq_zero_iff hmask hlt
  have hv : 2 ^ k ≤ 16 := Nat.pow_le_pow_right (n := 2) (by decide) (show k ≤ 4 by omega)
  have hnat : (BitVec.ofNat 32 (2 ^ k)).toNat = 2 ^ k := by
    rw [BitVec.toNat_ofNat]
    exact Nat.mod_eq_of_lt (by omega)
  by_cases hx : s.1.toNat < 2 ^ 2 ^ k
  · -- the upper half is zero
    have hstep : clzStep mask k (2 ^ k) s = (s.1, s.2 + BitVec.ofNat 32 (2 ^ k)) := by
      have hb : (s.1 &&& mask == 0#32) = true := by rw [hcond.2 hx, beq_self_eq_true]
      simp only [clzStep, hb, ofCond_shiftLeft _ hk, if_true, BitVec.sub_self]
      rfl
    have hcount : (s.2 + BitVec.ofNat 32 (2 ^ k)).toNat = s.2.toNat + 2 ^ k := by
      rw [BitVec.toNat_add, hnat]
      exact Nat.mod_eq_of_lt (by omega)
    rw [hstep]
    refine ⟨hpos, hx, by rw [hcount]; omega, fun c hc => ?_⟩
    rw [hcount, Nat.add_assoc]
    exact h.leads _ hc.lower
  · -- it is not
    have hstep : clzStep mask k (2 ^ k) s = (s.1 >>> 2 ^ k, s.2) := by
      have hb : (s.1 &&& mask == 0#32) = false := by
        rw [beq_eq_false_iff_ne]
        exact fun h0 => hx (hcond.1 h0)
      simp only [clzStep, hb, ofCond_shiftLeft _ hk, Bool.false_eq_true, if_false,
        BitVec.sub_zero, BitVec.add_zero, hnat]
    have hshift : (s.1 >>> 2 ^ k).toNat = s.1.toNat / 2 ^ 2 ^ k := by
      rw [BitVec.toNat_ushiftRight, Nat.shiftRight_eq_div_pow]
    rw [hstep]
    have hle' : s.2.toNat + 2 ^ k ≤ 32 := by omega
    refine ⟨?_, ?_, hle', fun c hc => ?_⟩
    · rw [hshift]
      exact Nat.div_pos (by omega) (Nat.two_pow_pos _)
    · rw [hshift, Nat.div_lt_iff_lt_mul (Nat.two_pow_pos _), ← Nat.pow_add]
      exact hlt
    · rw [hshift] at hc
      exact h.leads _ hc.upper

/-- A word of two bits that is not zero. -/
lemma cases_of_lt_four {x : BitVec 32} (hpos : 0 < x.toNat) (hlt : x.toNat < 4) :
    x = 1#32 ∨ x = 2#32 ∨ x = 3#32 := by
  have h : x.toNat = 1 ∨ x.toNat = 2 ∨ x.toNat = 3 := by omega
  rcases h with h | h | h
  · exact .inl (BitVec.eq_of_toNat_eq h)
  · exact .inr (.inl (BitVec.eq_of_toNat_eq h))
  · exact .inr (.inr (BitVec.eq_of_toNat_eq h))

/-- The last halving. -/
lemma CountsLead.last {a : BitVec 32} {s : BitVec 32 × BitVec 32} (h : CountsLead a 2 s) :
    Leads 32 a.toNat
      (s.2 + ((2#32 - s.1) &&& -ofCond (s.1 &&& 2#32 == 0#32))).toNat := by
  have hle := h.le
  have hadd : ∀ t : BitVec 32, t.toNat ≤ 1 → (s.2 + t).toNat = s.2.toNat + t.toNat := by
    intro t ht
    rw [BitVec.toNat_add]
    exact Nat.mod_eq_of_lt (by omega)
  rcases cases_of_lt_four h.pos h.lt with hx | hx | hx
  · rw [hx, hadd _ (by decide)]
    exact h.leads 1 (by rw [hx]; exact ⟨by decide, by decide, by decide⟩)
  · rw [hx, hadd _ (by decide)]
    exact h.leads 0 (by rw [hx]; exact ⟨by decide, by decide, by decide⟩)
  · rw [hx, hadd _ (by decide)]
    exact h.leads 0 (by rw [hx]; exact ⟨by decide, by decide, by decide⟩)

/-- An operand that is not zero. -/
lemma toNat_pos {w : ℕ} {a : BitVec w} (ha : a ≠ 0#w) : 0 < a.toNat := by
  have hne : a.toNat ≠ (0#w).toNat := fun h => ha (BitVec.eq_of_toNat_eq h)
  rw [BitVec.toNat_zero] at hne
  omega

/-- **The leading zeros of a word.** -/
theorem leads_clzsi2 {a : BitVec 32} (ha : a ≠ 0#32) : Leads 32 a.toNat (clzsi2 a).toNat := by
  have h0 : CountsLead a (2 ^ 4 + 2 ^ 4) (a, 0#32) :=
    ⟨toNat_pos ha, a.isLt, by simp, fun c hc => by simpa using hc⟩
  have h1 : CountsLead a (2 ^ 4) (clzStep 0xFFFF0000#32 4 16 (a, 0#32)) :=
    h0.step (by decide) (upperMask_of_lt (by decide) (by decide))
  have h2 : CountsLead a (2 ^ 3) (clzStep 0xFF00#32 3 8 _) :=
    h1.step (by decide) (upperMask_of_lt (by decide) (by decide))
  have h3 : CountsLead a (2 ^ 2) (clzStep 0xF0#32 2 4 _) :=
    h2.step (by decide) (upperMask_of_lt (by decide) (by decide))
  have h4 : CountsLead a (2 ^ 1) (clzStep 0xC#32 1 2 _) :=
    h3.step (by decide) (upperMask_of_lt (by decide) (by decide))
  exact h4.last

/-- `__clzsi2` counts the leading zeros. -/
theorem clzsi2_eq {a : BitVec 32} (ha : a ≠ 0#32) : clzsi2 a = a.clz :=
  BitVec.eq_of_toNat_eq ((leads_clzsi2 ha).unique (leads_clz ha))

/-! ## Trailing zeros -/

/-- `s` is an operand with a one among its last `w` bits and a count; the zeros of the one and the
count are the zeros of `a`. -/
structure CountsTrail (a : BitVec 32) (w : ℕ) (s : BitVec 32 × BitVec 32) : Prop where
  ne : s.1.toNat % 2 ^ w ≠ 0
  le : s.2.toNat + w ≤ 32
  trails : ∀ c, Trails s.1.toNat c → Trails a.toNat (s.2.toNat + c)

/-- The lower half is zero. -/
lemma and_lowerMask {v : ℕ} {mask : BitVec 32} (hmask : mask.toNat = 2 ^ v - 1) (x : BitVec 32) :
    (x &&& mask).toNat = x.toNat % 2 ^ v := by
  rw [BitVec.toNat_and, hmask, Nat.and_two_pow_sub_one_eq_mod]

/-- **One halving.** -/
theorem CountsTrail.step {a mask : BitVec 32} {k : ℕ} {s : BitVec 32 × BitVec 32} (hk : k < 5)
    (hmask : mask.toNat = 2 ^ 2 ^ k - 1) (h : CountsTrail a (2 ^ k + 2 ^ k) s) :
    CountsTrail a (2 ^ k) (ctzStep mask k s) := by
  have hne := h.ne
  have hle := h.le
  have hv : 2 ^ k ≤ 16 := Nat.pow_le_pow_right (n := 2) (by decide) (show k ≤ 4 by omega)
  have hnat : (BitVec.ofNat 32 (2 ^ k)).toNat = 2 ^ k := by
    rw [BitVec.toNat_ofNat]
    exact Nat.mod_eq_of_lt (by omega)
  have hand := and_lowerMask hmask s.1
  by_cases hx : s.1.toNat % 2 ^ 2 ^ k = 0
  · -- the lower half is zero
    have hstep : ctzStep mask k s = (s.1 >>> 2 ^ k, s.2 + BitVec.ofNat 32 (2 ^ k)) := by
      have hb : (s.1 &&& mask == 0#32) = true := by
        rw [beq_iff_eq]
        exact BitVec.eq_of_toNat_eq (hand.trans hx)
      simp only [ctzStep, hb, ofCond_shiftLeft _ hk, if_true, hnat]
    have hcount : (s.2 + BitVec.ofNat 32 (2 ^ k)).toNat = s.2.toNat + 2 ^ k := by
      rw [BitVec.toNat_add, hnat]
      exact Nat.mod_eq_of_lt (by omega)
    have hshift : (s.1 >>> 2 ^ k).toNat = s.1.toNat / 2 ^ 2 ^ k := by
      rw [BitVec.toNat_ushiftRight, Nat.shiftRight_eq_div_pow]
    rw [hstep]
    refine ⟨?_, ?_, fun c hc => ?_⟩
    · rw [hshift]
      intro h0
      rw [Nat.pow_add, Nat.mod_mul, hx, h0] at hne
      exact hne rfl
    · rw [hcount]
      omega
    · rw [hshift] at hc
      rw [hcount, Nat.add_assoc, Nat.add_comm (2 ^ k)]
      exact h.trails _ (hc.upper (Nat.dvd_of_mod_eq_zero hx))
  · -- it is not
    have hstep : ctzStep mask k s = s := by
      have hb : (s.1 &&& mask == 0#32) = false := by
        rw [beq_eq_false_iff_ne]
        intro h0
        rw [h0, BitVec.toNat_zero] at hand
        exact hx hand.symm
      simp only [ctzStep, hb, ofCond_shiftLeft _ hk, Bool.false_eq_true, if_false, BitVec.add_zero]
      rfl
    rw [hstep]
    exact ⟨hx, by omega, h.trails⟩

/-- The last halving. -/
lemma CountsTrail.last {a : BitVec 32} {s : BitVec 32 × BitVec 32} (h : CountsTrail a 2 s) :
    Trails a.toNat (s.2 +
      ((2#32 - (s.1 &&& 3#32) >>> 1) &&& -ofCond (s.1 &&& 3#32 &&& 1#32 == 0#32))).toNat := by
  have hle := h.le
  have hne := h.ne
  have hand : (s.1 &&& 3#32).toNat = s.1.toNat % 2 ^ 2 := and_lowerMask rfl s.1
  have hadd : ∀ t : BitVec 32, t.toNat ≤ 1 → (s.2 + t).toNat = s.2.toNat + t.toNat := by
    intro t ht
    rw [BitVec.toNat_add]
    exact Nat.mod_eq_of_lt (by omega)
  have hlower : ∀ c < 2, Trails (s.1 &&& 3#32).toNat c → Trails a.toNat (s.2.toNat + c) := by
    intro c hc ht
    rw [hand] at ht
    exact h.trails c (ht.lower hc)
  rcases cases_of_lt_four (x := s.1 &&& 3#32) (by omega) (by omega) with hx | hx | hx
  · rw [hx, hadd _ (by decide)]
    exact hlower 0 (by decide) (by rw [hx]; exact ⟨by decide, by decide⟩)
  · rw [hx, hadd _ (by decide)]
    exact hlower 1 (by decide) (by rw [hx]; exact ⟨by decide, by decide⟩)
  · rw [hx, hadd _ (by decide)]
    exact hlower 0 (by decide) (by rw [hx]; exact ⟨by decide, by decide⟩)

/-- **The trailing zeros of a word.** -/
theorem trails_ctzsi2 {a : BitVec 32} (ha : a ≠ 0#32) : Trails a.toNat (ctzsi2 a).toNat := by
  have h0 : CountsTrail a (2 ^ 4 + 2 ^ 4) (a, 0#32) := by
    refine ⟨?_, by simp, fun c hc => by simpa using hc⟩
    show a.toNat % 2 ^ 32 ≠ 0
    rw [Nat.mod_eq_of_lt a.isLt]
    exact Nat.pos_iff_ne_zero.1 (toNat_pos ha)
  have h1 : CountsTrail a (2 ^ 4) (ctzStep 0xFFFF#32 4 (a, 0#32)) := h0.step (by decide) rfl
  have h2 : CountsTrail a (2 ^ 3) (ctzStep 0xFF#32 3 _) := h1.step (by decide) rfl
  have h3 : CountsTrail a (2 ^ 2) (ctzStep 0xF#32 2 _) := h2.step (by decide) rfl
  have h4 : CountsTrail a (2 ^ 1) (ctzStep 0x3#32 1 _) := h3.step (by decide) rfl
  exact h4.last

/-- `__ctzsi2` counts the trailing zeros. -/
theorem ctzsi2_eq {a : BitVec 32} (ha : a ≠ 0#32) : ctzsi2 a = a.ctz :=
  BitVec.eq_of_toNat_eq ((trails_ctzsi2 ha).unique (trails_ctz ha))

/-! ## Double words -/

/-- A count and another 32. -/
lemma toNat_add_32 {c : BitVec 32} (h : c.toNat < 32) : (c + 32#32).toNat = c.toNat + 32 := by
  rw [BitVec.toNat_add]
  exact Nat.mod_eq_of_lt (by have h32 : (32#32).toNat = 32 := rfl; omega)

/-- A half that is zero. -/
lemma toNat_eq_zero_iff {x : BitVec 32} : x.toNat = 0 ↔ x = 0#32 :=
  ⟨fun h => BitVec.eq_of_toNat_eq h, fun h => by rw [h, BitVec.toNat_zero]⟩

/-- The choice of a half by a mask. -/
lemma select (b : Bool) (x y : BitVec 32) :
    (x &&& ~~~(-ofCond b)) ||| (y &&& -ofCond b) = if b = true then y else x := by
  have hones : -ofCond true = BitVec.allOnes 32 := by decide
  have hzero : -ofCond false = 0#32 := by decide
  cases b
  · rw [hzero, show ~~~0#32 = BitVec.allOnes 32 by decide, BitVec.and_allOnes, BitVec.and_zero,
      BitVec.or_zero]
    rfl
  · rw [hones, BitVec.not_allOnes, BitVec.and_zero, BitVec.and_allOnes, BitVec.zero_or]
    rfl

/-- **The leading zeros of a double word.** -/
theorem leads_clzdi2 {a : BitVec 64} (ha : a ≠ 0#64) : Leads 64 a.toNat (clzdi2 a).toNat := by
  have hpos := toNat_pos ha
  have hhigh := Udwords.toNat_high_ofAll a
  have hlow := Udwords.toNat_low_ofAll a
  by_cases hz : (Udwords.ofAll a).high = 0#32
  · have hne : (Udwords.ofAll a).low ≠ 0#32 := by
      rw [← toNat_eq_zero_iff] at hz
      rw [Ne, ← toNat_eq_zero_iff]
      omega
    have hlead := leads_clzsi2 hne
    have hc : clzdi2 a = clzsi2 (Udwords.ofAll a).low + 32#32 := by
      rw [clzdi2, select, if_pos (beq_iff_eq.2 hz), hz]
      rfl
    have hval : a.toNat = (Udwords.ofAll a).low.toNat := by
      rw [← toNat_eq_zero_iff] at hz
      omega
    rw [hc, toNat_add_32 hlead.lt, hval, Nat.add_comm]
    exact hlead.lower
  · have hc : clzdi2 a = clzsi2 (Udwords.ofAll a).high := by
      rw [clzdi2, select, if_neg (mt beq_iff_eq.1 hz), beq_eq_false_iff_ne.2 hz]
      exact BitVec.add_zero _
    have hlead := leads_clzsi2 hz
    rw [hhigh] at hlead
    rw [hc]
    exact hlead.upper

/-- **The trailing zeros of a double word.** -/
theorem trails_ctzdi2 {a : BitVec 64} (ha : a ≠ 0#64) : Trails a.toNat (ctzdi2 a).toNat := by
  have hpos := toNat_pos ha
  have hhigh := Udwords.toNat_high_ofAll a
  have hlow := Udwords.toNat_low_ofAll a
  have hlt : ∀ x : BitVec 32, x ≠ 0#32 → (ctzsi2 x).toNat < 32 := by
    intro x hx
    have htrail := trails_ctzsi2 hx
    refine Nat.lt_of_not_le fun hle => ?_
    have hdvd := Nat.dvd_trans (Nat.pow_dvd_pow 2 hle) htrail.dvd
    have hle := Nat.le_of_dvd (toNat_pos hx) hdvd
    have hxlt := x.isLt
    omega
  by_cases hz : (Udwords.ofAll a).low = 0#32
  · have hne : (Udwords.ofAll a).high ≠ 0#32 := by
      rw [← toNat_eq_zero_iff] at hz
      rw [Ne, ← toNat_eq_zero_iff]
      omega
    have htrail := trails_ctzsi2 hne
    have hc : ctzdi2 a = ctzsi2 (Udwords.ofAll a).high + 32#32 := by
      rw [ctzdi2, BitVec.or_comm, select, if_pos (beq_iff_eq.2 hz), hz]
      rfl
    rw [hc, toNat_add_32 (hlt _ hne)]
    rw [hhigh] at htrail
    rw [← toNat_eq_zero_iff, hlow] at hz
    exact htrail.upper (Nat.dvd_of_mod_eq_zero hz)
  · have hc : ctzdi2 a = ctzsi2 (Udwords.ofAll a).low := by
      rw [ctzdi2, BitVec.or_comm, select, if_neg (mt beq_iff_eq.1 hz),
        beq_eq_false_iff_ne.2 hz]
      exact BitVec.add_zero _
    have htrail := trails_ctzsi2 hz
    rw [hlow] at htrail
    rw [hc]
    exact htrail.lower (hlt _ hz)

/-- **The zero counts.**  The four functions count the leading and the trailing zeros of every word
and every double word that is not zero. -/
theorem zero_counts {a : BitVec 32} {b : BitVec 64} (ha : a ≠ 0#32) (hb : b ≠ 0#64) :
    clzsi2 a = a.clz ∧ ctzsi2 a = a.ctz ∧ (clzdi2 b).toNat = b.clz.toNat ∧
      (ctzdi2 b).toNat = b.ctz.toNat :=
  ⟨clzsi2_eq ha, ctzsi2_eq ha, (leads_clzdi2 hb).unique (leads_clz hb),
    (trails_ctzdi2 hb).unique (trails_ctz hb)⟩

/-- The counts of four, and of a double word whose low half is zero. -/
theorem zero_counts_four : clzsi2 4#32 = 29#32 ∧ ctzsi2 4#32 = 2#32 ∧
    (clzdi2 0x300000000#64).toNat = 30 ∧ (ctzdi2 0x300000000#64).toNat = 32 := by
  obtain ⟨h1, h2, h3, h4⟩ := zero_counts (a := 4#32) (b := 0x300000000#64) (by decide) (by decide)
  exact ⟨h1.trans (by decide +kernel), h2.trans (by decide +kernel), h3.trans (by decide +kernel),
    h4.trans (by decide +kernel)⟩

end Riscv64Cpu.Klib
