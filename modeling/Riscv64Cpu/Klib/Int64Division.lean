import Riscv64Cpu.Klib.Int64Counts
import Riscv64Cpu.Numbers.LongDivision

set_option relaxedAutoImplicit false
set_option autoImplicit false

/-!
# The divisions of `int64.c`

`__udivmoddi4` treats the operands whose halves make the quotient easy one by one, aligns the
remaining ones by their leading zeros and divides them bit by bit.  For every divisor but zero it
gives the quotient and the remainder, and the functions that call it give those of C.

## Main definitions

* `Klib.Dividing` — the loop after some rounds.
* `Klib.Starts` — the operands of the loop are aligned.

## Main results

* `Klib.divRound_eq` — what a round computes.
* `Klib.divLoop_eq` — the loop divides.
* `Klib.udivmoddi4_eq` — the quotient and the remainder.
* `Klib.divisions_eq` — all divisions.
-/

namespace Riscv64Cpu.Klib

open BitCount LongDivision

/-! ## The loop -/

section Loop

/-- A bit shifted into a word. -/
lemma toNat_shift_or {w : ℕ} (x c : BitVec w) (hw : 0 < w) (hc : c.toNat ≤ 1) :
    ((x <<< 1) ||| c).toNat = 2 * x.toNat % 2 ^ w + c.toNat := by
  have hpow : 2 ^ w = 2 * 2 ^ (w - 1) := by
    rw [← Nat.pow_succ', show (w - 1).succ = w by omega]
  rw [BitVec.toNat_or, BitVec.toNat_shiftLeft, Nat.shiftLeft_eq, Nat.pow_one, Nat.mul_comm, hpow,
    Nat.mul_mod_mul_left]
  have h := Nat.two_pow_add_eq_or_of_lt (i := 1) (b := c.toNat) (by omega)
    (x.toNat % 2 ^ (w - 1))
  rw [Nat.pow_one] at h
  exact h.symm

/-- The upper bit of a word. -/
lemma toNat_upperBit (x : BitVec 32) : (x >>> 31).toNat = x.toNat / 2 ^ 31 := by
  rw [BitVec.toNat_ushiftRight, Nat.shiftRight_eq_div_pow]

/-- A bit shifted into the halves. -/
lemma toNat_shifted (u : Udwords) (c : BitVec 32) (hc : c.toNat ≤ 1) :
    (Udwords.all ⟨(u.high <<< 1) ||| (u.low >>> 31), (u.low <<< 1) ||| c⟩).toNat =
      2 * u.all.toNat % 2 ^ 64 + c.toNat := by
  have hlow := u.low.isLt
  have hhigh := u.high.isLt
  have hbit := toNat_upperBit u.low
  rw [Udwords.toNat_all, Udwords.toNat_all, toNat_shift_or _ _ (by decide) (by omega),
    toNat_shift_or _ _ (by decide) hc, hbit]
  omega

/-- The mask of a sign. -/
lemma sshiftRight_63 (x : BitVec 64) :
    x.sshiftRight 63 = if x.msb = true then BitVec.allOnes 64 else 0#64 := by
  apply BitVec.eq_of_getLsbD_eq
  intro i hi
  rw [BitVec.getLsbD_sshiftRight]
  have hbit : (if 63 + i < 64 then x.getLsbD (63 + i) else x.msb) = x.msb := by
    split_ifs with h
    · rw [BitVec.msb_eq_getLsbD_last, show 63 + i = 64 - 1 by omega]
    · rfl
  rw [hbit, decide_eq_false (by omega), Bool.not_false, Bool.true_and]
  cases x.msb
  · rw [if_neg (by decide), BitVec.getLsbD_zero]
  · rw [if_pos rfl, BitVec.getLsbD_allOnes, decide_eq_true hi]

/-- The remainder of a round, before the divisor is subtracted. -/
private lemma toNat_round (s : DivState)
    (hlt : 2 * s.r.all.toNat + s.q.all.toNat / 2 ^ 63 < 2 ^ 64) :
    (Udwords.all ⟨(s.r.high <<< 1) ||| (s.r.low >>> 31),
      (s.r.low <<< 1) ||| (s.q.high >>> 31)⟩).toNat =
      2 * s.r.all.toNat + s.q.all.toNat / 2 ^ 63 := by
  have hbit := toNat_upperBit s.q.high
  have hhigh := s.q.high.isLt
  have hlow := s.q.low.isLt
  have hq := s.q.toNat_all
  rw [toNat_shifted _ _ (by omega), hbit]
  omega

/-- The divisor fits if the difference has a sign. -/
private lemma msb_difference {d r : BitVec 64} (hlt : r.toNat < 2 * d.toNat)
    (hsign : d.toNat ≤ 2 ^ 63 ∨ 2 ^ 63 ≤ r.toNat) :
    (d - r - 1#64).msb = decide (d.toNat ≤ r.toNat) := by
  have hd := d.isLt
  have hr := r.isLt
  rw [BitVec.msb_eq_decide, BitVec.toNat_sub, BitVec.toNat_sub]
  apply decide_eq_decide.2
  have h1 : (1#64).toNat = 1 := rfl
  omega

/-- **What a round computes**: the remainder gets the upper bit of the quotient, and the divisor is
subtracted if it fits. -/
theorem divRound_eq {d : Udwords} {s : DivState} (hc : s.carry.toNat ≤ 1)
    (hlt : 2 * s.r.all.toNat + s.q.all.toNat / 2 ^ 63 < 2 ^ 64)
    (hfit : 2 * s.r.all.toNat + s.q.all.toNat / 2 ^ 63 < 2 * d.all.toNat)
    (hsign : d.all.toNat ≤ 2 ^ 63 ∨ 2 ^ 63 ≤ 2 * s.r.all.toNat + s.q.all.toNat / 2 ^ 63) :
    (divRound d s).q.all.toNat = 2 * s.q.all.toNat % 2 ^ 64 + s.carry.toNat ∧
    (divRound d s).carry.toNat =
      (if d.all.toNat ≤ 2 * s.r.all.toNat + s.q.all.toNat / 2 ^ 63 then 1 else 0) ∧
    (divRound d s).r.all.toNat =
      (if d.all.toNat ≤ 2 * s.r.all.toNat + s.q.all.toNat / 2 ^ 63 then
        2 * s.r.all.toNat + s.q.all.toNat / 2 ^ 63 - d.all.toNat
      else 2 * s.r.all.toNat + s.q.all.toNat / 2 ^ 63) := by
  have hr := toNat_round s hlt
  have hmask := sshiftRight_63 (d.all - Udwords.all ⟨(s.r.high <<< 1) ||| (s.r.low >>> 31),
    (s.r.low <<< 1) ||| (s.q.high >>> 31)⟩ - 1#64)
  rw [msb_difference (by rwa [hr]) (by rwa [hr]), hr] at hmask
  refine ⟨toNat_shifted _ _ hc, ?_⟩
  by_cases hd : d.all.toNat ≤ 2 * s.r.all.toNat + s.q.all.toNat / 2 ^ 63
  · rw [decide_eq_true hd, if_pos rfl] at hmask
    rw [if_pos hd, if_pos hd]
    simp only [divRound, hmask, Udwords.all_ofAll, BitVec.and_allOnes]
    refine ⟨by decide, ?_⟩
    rw [BitVec.toNat_sub, hr]
    have hdlt := d.all.isLt
    omega
  · rw [decide_eq_false hd, if_neg (by decide)] at hmask
    rw [if_neg hd, if_neg hd]
    simp only [divRound, hmask, Udwords.all_ofAll, BitVec.and_zero, BitVec.sub_zero]
    exact ⟨by decide, hr⟩

/-- The loop of the division of `n` by `d`, before the last `j` rounds: `k` and `r` are the quotient
and the remainder so far; the last bit of `k` is the carry and the other ones are below the bits of
`n` that are left. -/
structure Dividing (n : BitVec 64) (d : Udwords) (j : ℕ) (s : DivState) : Prop where
  le : j ≤ 63
  state : ∃ k r, Partial n.toNat d.all.toNat j k r ∧ s.r.all.toNat = r ∧ s.carry.toNat = k % 2 ∧
    s.q.all.toNat = n.toNat % 2 ^ j * 2 ^ (64 - j) + k / 2

/-- The bits of the register for the quotient: the next bit of the dividend, the ones behind it and
the quotient. -/
private lemma quotient_register {n j k : ℕ} (hn : n < 2 ^ 64) (hj : j ≤ 62)
    (hk : k ≤ n / 2 ^ (j + 1)) :
    ∃ low, n % 2 ^ (j + 1) * 2 ^ (64 - (j + 1)) + k / 2 = n / 2 ^ j % 2 * 2 ^ 63 + low ∧
      low < 2 ^ 63 ∧ 2 * low + k % 2 = n % 2 ^ j * 2 ^ (64 - j) + k := by
  have hpow : 2 ^ j * 2 ^ (63 - j) = 2 ^ 63 := by
    rw [← Nat.pow_add, show j + (63 - j) = 63 by omega]
  have hsucc : 2 ^ (64 - j) = 2 * 2 ^ (63 - j) := by
    rw [show 64 - j = (63 - j).succ by omega, Nat.pow_succ']
  have hmod : n % 2 ^ (j + 1) = n % 2 ^ j + 2 ^ j * (n / 2 ^ j % 2) := by
    rw [Nat.pow_succ, Nat.mod_mul]
  have hk' : k < 2 ^ (63 - j) := by
    refine Nat.lt_of_le_of_lt hk ((Nat.div_lt_iff_lt_mul (Nat.two_pow_pos _)).2 ?_)
    rwa [← Nat.pow_add, show 63 - j + (j + 1) = 64 by omega]
  have hlow : n % 2 ^ j * 2 ^ (63 - j) + 2 ^ (63 - j) ≤ 2 ^ 63 := by
    rw [← hpow, ← Nat.succ_mul]
    exact Nat.mul_le_mul_right _ (Nat.mod_lt _ (Nat.two_pow_pos j))
  refine ⟨n % 2 ^ j * 2 ^ (63 - j) + k / 2, ?_, by omega, ?_⟩
  · rw [hmod, show 64 - (j + 1) = 63 - j by omega, Nat.add_mul, Nat.mul_right_comm, hpow,
      Nat.mul_comm (2 ^ 63)]
    omega
  · rw [hsucc, Nat.mul_left_comm]
    omega

/-- **One round.** -/
theorem Dividing.next {n : BitVec 64} {d : Udwords} {j : ℕ} {s : DivState}
    (h : Dividing n d (j + 1) s) (hsign : d.all.toNat ≤ 2 ^ 63 ∨ j = 0 ∧ 2 ^ 63 ≤ n.toNat) :
    Dividing n d j (divRound d s) := by
  obtain ⟨hj, k, r, hp, hr, hc, hq⟩ := h
  obtain ⟨low, hlow, hlt, htwice⟩ := quotient_register n.isLt (by omega) hp.quotient_le
  have hbit : s.q.all.toNat / 2 ^ 63 = n.toNat / 2 ^ j % 2 := by
    rw [hq, hlow]
    omega
  have hfit := hp.shifted_lt (n.toNat / 2 ^ j)
  have heq := hp.shifted_eq
  have hle : n.toNat / 2 ^ j ≤ n.toNat := Nat.div_le_self _ _
  have hn := n.isLt
  have hsign' : d.all.toNat ≤ 2 ^ 63 ∨ 2 ^ 63 ≤ 2 * r + n.toNat / 2 ^ j % 2 := by
    rcases hsign with hd | ⟨rfl, hge⟩
    · exact .inl hd
    · by_cases hd : d.all.toNat ≤ 2 ^ 63
      · exact .inl hd
      · -- a divisor above half of the range does not fit twice
        have hk : k = 0 := by
          refine Nat.eq_zero_of_not_pos fun hpos => ?_
          have hmul : 2 * 1 * d.all.toNat ≤ 2 * k * d.all.toNat :=
            Nat.mul_le_mul_right _ (Nat.mul_le_mul_left 2 hpos)
          omega
        rw [hk, Nat.pow_zero, Nat.div_one] at heq
        rw [Nat.pow_zero, Nat.div_one]
        omega
  obtain ⟨hq', hc', hr'⟩ := divRound_eq (d := d) (s := s) (by omega)
    (by rw [hr, hbit]; omega) (by rwa [hr, hbit]) (by rwa [hr, hbit])
  rw [hr, hbit] at hc' hr'
  refine ⟨by omega, _, _, hp.next, hr', ?_, ?_⟩
  · rw [hc']
    split_ifs <;> omega
  · rw [hq', hq, hlow, hc]
    split_ifs <;> omega

/-- **The loop.** -/
theorem Dividing.rounds {n : BitVec 64} {d : Udwords} : ∀ {j : ℕ} {s : DivState},
    Dividing n d j s → (d.all.toNat ≤ 2 ^ 63 ∨ j ≤ 1 ∧ 2 ^ 63 ≤ n.toNat) →
    Dividing n d 0 (divRounds d j s)
  | 0, _, h, _ => h
  | j + 1, _, h, hsign => by
    have hnext : d.all.toNat ≤ 2 ^ 63 ∨ j = 0 ∧ 2 ^ 63 ≤ n.toNat := by omega
    exact Dividing.rounds (j := j) (h.next hnext) (by omega)

/-- The operands of the loop: the dividend `n` shifted to the left and to the right. -/
structure Starts (n : BitVec 64) (d q r : Udwords) (sr : ℕ) : Prop where
  pos : 1 ≤ sr
  le : sr ≤ 63
  lt : n.toNat / 2 ^ sr < d.all.toNat
  sign : d.all.toNat ≤ 2 ^ 63 ∨ sr ≤ 1 ∧ 2 ^ 63 ≤ n.toNat
  q : q.all.toNat = n.toNat % 2 ^ sr * 2 ^ (64 - sr)
  r : r.all.toNat = n.toNat / 2 ^ sr

/-- A quotient and a remainder. -/
def Divides (n d : ℕ) (p : BitVec 64 × BitVec 64) : Prop :=
  p.1.toNat = n / d ∧ p.2.toNat = n % d

/-- **The loop divides.** -/
theorem divLoop_eq {n : BitVec 64} {d q r : Udwords} {sr : BitVec 32}
    (h : Starts n d q r sr.toNat) : Divides n.toNat d.all.toNat (divLoop d q r sr) := by
  have h0 : Dividing n d sr.toNat ⟨q, r, 0#32⟩ :=
    ⟨h.le, 0, _, .start h.lt, h.r, rfl, by rw [h.q]; rfl⟩
  obtain ⟨-, k, r', hp, hr, hc, hq⟩ := h0.rounds h.sign
  obtain ⟨hk, hrem⟩ := hp.finish
  rw [Nat.pow_zero, Nat.mod_one, Nat.zero_mul, Nat.zero_add] at hq
  have hklt : k < 2 ^ 64 := by
    rw [hk]
    exact Nat.lt_of_le_of_lt (Nat.div_le_self _ _) n.isLt
  have hcarry : ((divRounds d sr.toNat ⟨q, r, 0#32⟩).carry.setWidth 64).toNat = k % 2 := by
    rw [BitVec.toNat_setWidth, hc]
    omega
  refine ⟨?_, hr.trans hrem⟩
  rw [← hk, divLoop, toNat_shift_or _ _ (by decide) (by omega), hcarry, hq]
  omega

end Loop

/-! ## Shifts of the dividend by halves -/

section Shifts

/-- Two words shifted together. -/
lemma toNat_funnel (h l : BitVec 32) {m : ℕ} (h1 : 1 ≤ m) (h31 : m ≤ 31) :
    ((h <<< (32 - m)) ||| (l >>> m)).toNat =
      h.toNat % 2 ^ m * 2 ^ (32 - m) + l.toNat / 2 ^ m := by
  have hpow : 2 ^ 32 = 2 ^ m * 2 ^ (32 - m) := by
    rw [← Nat.pow_add, show m + (32 - m) = 32 by omega]
  have hlow : l.toNat / 2 ^ m < 2 ^ (32 - m) := by
    rw [Nat.div_lt_iff_lt_mul (Nat.two_pow_pos m), Nat.mul_comm, ← hpow]
    exact l.isLt
  rw [BitVec.toNat_or, BitVec.toNat_shiftLeft, Nat.shiftLeft_eq, BitVec.toNat_ushiftRight,
    Nat.shiftRight_eq_div_pow, hpow, Nat.mul_mod_mul_right, Nat.mul_comm (h.toNat % 2 ^ m),
    ← Nat.two_pow_add_eq_or_of_lt hlow]

/-- A word shifted to the left. -/
lemma toNat_shiftLeft_word (l : BitVec 32) {m : ℕ} (h31 : m ≤ 31) :
    (l <<< (32 - m)).toNat = l.toNat % 2 ^ m * 2 ^ (32 - m) := by
  have hpow : 2 ^ 32 = 2 ^ m * 2 ^ (32 - m) := by
    rw [← Nat.pow_add, show m + (32 - m) = 32 by omega]
  rw [BitVec.toNat_shiftLeft, Nat.shiftLeft_eq, hpow, Nat.mul_mod_mul_right]

variable (n : Udwords) {k : ℕ}

/-- A double word shifted to the right by less than a word. -/
lemma toNat_shiftRight_halves (h1 : 1 ≤ k) (h31 : k ≤ 31) :
    (Udwords.all ⟨n.high >>> k, (n.high <<< (32 - k)) ||| (n.low >>> k)⟩).toNat =
      n.all.toNat / 2 ^ k := by
  have hpow : 2 ^ k * 2 ^ (32 - k) = 2 ^ 32 := by
    rw [← Nat.pow_add, show k + (32 - k) = 32 by omega]
  have hdiv : n.all.toNat / 2 ^ k = n.high.toNat * 2 ^ (32 - k) + n.low.toNat / 2 ^ k := by
    rw [Udwords.toNat_all, ← hpow, Nat.mul_left_comm, Nat.mul_add_div (Nat.two_pow_pos k)]
  have hhigh := Nat.div_add_mod n.high.toNat (2 ^ k)
  rw [Udwords.toNat_all, toNat_funnel _ _ h1 h31, BitVec.toNat_ushiftRight,
    Nat.shiftRight_eq_div_pow, hdiv, ← hhigh, Nat.add_mul, hhigh, Nat.mul_right_comm, hpow,
    Nat.mul_comm (2 ^ 32), Nat.add_assoc]

/-- A double word shifted to the left by more than a word. -/
private lemma toNat_shiftLeft_halves (h31 : k ≤ 31) :
    (Udwords.all ⟨n.low <<< (32 - k), 0#32⟩).toNat = n.all.toNat % 2 ^ k * 2 ^ (64 - k) := by
  have hpow : 2 ^ k * 2 ^ (32 - k) = 2 ^ 32 := by
    rw [← Nat.pow_add, show k + (32 - k) = 32 by omega]
  have hmod : n.all.toNat % 2 ^ k = n.low.toNat % 2 ^ k := by
    rw [Udwords.toNat_all, ← hpow, Nat.mul_left_comm, Nat.mul_add_mod]
  rw [Udwords.toNat_all, toNat_shiftLeft_word _ h31, hmod, BitVec.toNat_zero, Nat.add_zero,
    show 64 - k = 32 - k + 32 by omega, Nat.pow_add, Nat.mul_assoc]

/-- A double word shifted to the left by less than a word. -/
private lemma toNat_shiftLeft_halves' (h1 : 1 ≤ k) (h31 : k ≤ 31) :
    (Udwords.all ⟨(n.high <<< (32 - k)) ||| (n.low >>> k), n.low <<< (32 - k)⟩).toNat =
      n.all.toNat % 2 ^ (32 + k) * 2 ^ (32 - k) := by
  have hpow : 2 ^ k * 2 ^ (32 - k) = 2 ^ 32 := by
    rw [← Nat.pow_add, show k + (32 - k) = 32 by omega]
  have hhigh : n.all.toNat / 2 ^ 32 = n.high.toNat := by
    have hlow := n.low.isLt
    rw [Udwords.toNat_all]
    omega
  have hlow : n.all.toNat % 2 ^ 32 = n.low.toNat := by
    have hlow := n.low.isLt
    rw [Udwords.toNat_all]
    omega
  have hsplit := Nat.div_add_mod n.low.toNat (2 ^ k)
  have hmul : n.low.toNat * 2 ^ (32 - k) =
      n.low.toNat / 2 ^ k * 2 ^ 32 + n.low.toNat % 2 ^ k * 2 ^ (32 - k) := by
    rw [← hpow, ← Nat.mul_assoc, ← Nat.add_mul, Nat.mul_comm (n.low.toNat / 2 ^ k), hsplit]
  rw [Udwords.toNat_all, toNat_funnel _ _ h1 h31, toNat_shiftLeft_word _ h31, Nat.pow_add,
    Nat.mod_mul, hhigh, hlow, Nat.add_mul (n.low.toNat), hmul, Nat.add_mul, Nat.mul_assoc (2 ^ 32),
    Nat.mul_comm (2 ^ 32)]
  omega

/-- A double word shifted to the right by more than a word. -/
private lemma toNat_shiftRight_halves' :
    (Udwords.all ⟨0#32, n.high >>> k⟩).toNat = n.all.toNat / 2 ^ (32 + k) := by
  have hhigh : n.all.toNat / 2 ^ 32 = n.high.toNat := by
    have hlow := n.low.isLt
    rw [Udwords.toNat_all]
    omega
  rw [Udwords.toNat_all, BitVec.toNat_zero, Nat.zero_mul, Nat.zero_add, BitVec.toNat_ushiftRight,
    Nat.shiftRight_eq_div_pow, Nat.pow_add, ← Nat.div_div_eq_div_mul, hhigh]

end Shifts

/-! ## The alignment -/

section Alignment

variable {n d cn cd : ℕ}

/-- The dividend without so many bits that it is shorter than the divisor. -/
lemma div_lt_of_leads (hn : Leads 64 n cn) (hd : Leads 64 d cd) (hle : cn ≤ cd) :
    n / 2 ^ (cd - cn + 1) < d := by
  have hlt := hd.lt
  rw [Nat.div_lt_iff_lt_mul (Nat.two_pow_pos _)]
  calc n < 2 ^ (64 - cn) := hn.above
    _ = 2 ^ (64 - 1 - cd) * 2 ^ (cd - cn + 1) := by
      rw [← Nat.pow_add, show 64 - 1 - cd + (cd - cn + 1) = 64 - cn by omega]
    _ ≤ d * 2 ^ (cd - cn + 1) := Nat.mul_le_mul_right _ hd.le

/-- A dividend with more leading zeros is below the divisor. -/
private lemma lt_of_leads (hn : Leads 64 n cn) (hd : Leads 64 d cd) (hlt : cd < cn) : n < d := by
  have hn' := hn.lt
  calc n < 2 ^ (64 - cn) := hn.above
    _ ≤ 2 ^ (64 - 1 - cd) := Nat.pow_le_pow_right (by decide) (by omega)
    _ ≤ d := hd.le

/-- Only one bit is divided by a divisor without leading zeros. -/
lemma sign_of_leads (hn : Leads 64 n cn) (hd : Leads 64 d cd) (hle : cn ≤ cd) :
    d ≤ 2 ^ 63 ∨ cd - cn + 1 ≤ 1 ∧ 2 ^ 63 ≤ n := by
  have hlt := hd.above
  by_cases h0 : cd = 0
  · have hcn : cn = 0 := by omega
    have hge := hn.le
    rw [hcn] at hge
    exact .inr ⟨by omega, hge⟩
  · have hpow : 2 ^ (64 - cd) ≤ 2 ^ 63 := Nat.pow_le_pow_right (by decide) (by omega)
    exact .inl (by omega)

/-- The leading zeros of a double word with a one in its upper half. -/
lemma leads_all {u : Udwords} (h : u.high ≠ 0#32) :
    Leads 64 u.all.toNat (clzsi2 u.high).toNat := by
  have hlead := leads_clzsi2 h
  have hdiv : u.all.toNat / 2 ^ 32 = u.high.toNat := by
    have hlow := u.low.isLt
    rw [Udwords.toNat_all]
    omega
  rw [← hdiv] at hlead
  exact hlead.upper

/-- The leading zeros of a double word without one. -/
private lemma leads_all' {u : Udwords} (h : u.high = 0#32) (hl : u.low ≠ 0#32) :
    Leads 64 u.all.toNat (32 + (clzsi2 u.low).toNat) := by
  have hlead := leads_clzsi2 hl
  have hval : u.all.toNat = u.low.toNat := by
    rw [Udwords.toNat_all, h, BitVec.toNat_zero]
    omega
  rw [← hval] at hlead
  exact hlead.lower

/-- **The alignment by the upper halves.**  Either the divisor has fewer leading zeros, and the
shift wraps around; or the shift aligns the operands. -/
theorem align_upper {n d : Udwords} (hn : n.high ≠ 0#32) (hd : d.high ≠ 0#32) :
    31 < (clzsi2 d.high - clzsi2 n.high).toNat ∧ n.all.toNat < d.all.toNat ∨
      (clzsi2 d.high - clzsi2 n.high).toNat ≤ (clzsi2 d.high).toNat ∧
      (clzsi2 d.high).toNat ≤ 31 ∧
      (clzsi2 d.high - clzsi2 n.high + 1#32).toNat =
        (clzsi2 d.high - clzsi2 n.high).toNat + 1 ∧
      n.all.toNat / 2 ^ (clzsi2 d.high - clzsi2 n.high + 1#32).toNat < d.all.toNat ∧
      (d.all.toNat ≤ 2 ^ 63 ∨ (clzsi2 d.high - clzsi2 n.high + 1#32).toNat ≤ 1 ∧
        2 ^ 63 ≤ n.all.toNat) := by
  have hn' := leads_all hn
  have hd' := leads_all hd
  have hnlt := (leads_clzsi2 hn).lt
  have hdlt := (leads_clzsi2 hd).lt
  have hone : (1#32).toNat = 1 := rfl
  by_cases hle : (clzsi2 n.high).toNat ≤ (clzsi2 d.high).toNat
  · have hsub : (clzsi2 d.high - clzsi2 n.high).toNat =
        (clzsi2 d.high).toNat - (clzsi2 n.high).toNat := by
      rw [BitVec.toNat_sub]
      omega
    have hsucc : (clzsi2 d.high - clzsi2 n.high + 1#32).toNat =
        (clzsi2 d.high).toNat - (clzsi2 n.high).toNat + 1 := by
      rw [BitVec.toNat_add, hsub, hone]
      omega
    refine .inr ⟨by omega, by omega, by omega, ?_, ?_⟩
    · rw [hsucc]
      exact div_lt_of_leads hn' hd' hle
    · rw [hsucc]
      exact sign_of_leads hn' hd' hle
  · refine .inl ⟨?_, lt_of_leads hn' hd' (by omega)⟩
    rw [BitVec.toNat_sub]
    omega

/-- A word that is no power of two is not one. -/
lemma clzsi2_lt_31 {x : BitVec 32} (hx : x ≠ 0#32) (hpower : x &&& (x - 1#32) ≠ 0#32) :
    (clzsi2 x).toNat < 31 := by
  have hlead := leads_clzsi2 hx
  have hlt := hlead.lt
  refine Nat.lt_of_le_of_ne (by omega) fun h31 => ?_
  have habove := hlead.above
  have hpos := toNat_pos hx
  rw [h31] at habove
  have hone : x = 1#32 := BitVec.eq_of_toNat_eq (show x.toNat = 1 by omega)
  exact hpower (by rw [hone]; decide)

/-- **The alignment of a divisor of one word.** -/
theorem align_lower {n d : Udwords} (hn : n.high ≠ 0#32) (hh : d.high = 0#32)
    (hl : d.low ≠ 0#32) (hpower : d.low &&& (d.low - 1#32) ≠ 0#32) :
    2 ≤ (1#32 + 32#32 + clzsi2 d.low - clzsi2 n.high).toNat ∧
      (1#32 + 32#32 + clzsi2 d.low - clzsi2 n.high).toNat ≤ 63 ∧
      n.all.toNat / 2 ^ (1#32 + 32#32 + clzsi2 d.low - clzsi2 n.high).toNat < d.all.toNat ∧
      (d.all.toNat ≤ 2 ^ 63 ∨ (1#32 + 32#32 + clzsi2 d.low - clzsi2 n.high).toNat ≤ 1 ∧
        2 ^ 63 ≤ n.all.toNat) := by
  have hn' := leads_all hn
  have hd' := leads_all' hh hl
  have hnlt := (leads_clzsi2 hn).lt
  have hdlt := clzsi2_lt_31 hl hpower
  have h33 : (1#32 + 32#32).toNat = 33 := rfl
  have hsr : (1#32 + 32#32 + clzsi2 d.low - clzsi2 n.high).toNat =
      32 + (clzsi2 d.low).toNat - (clzsi2 n.high).toNat + 1 := by
    rw [BitVec.toNat_sub, BitVec.toNat_add, h33]
    omega
  refine ⟨by omega, by omega, ?_, ?_⟩
  · rw [hsr]
    exact div_lt_of_leads hn' hd' (by omega)
  · rw [hsr]
    exact sign_of_leads hn' hd' (by omega)

end Alignment

/-! ## Powers of two -/

section PowerOfTwo

variable {x : BitVec 32}

/-- The test of `__udivmoddi4` for a power of two. -/
lemma toNat_of_and_sub_one (hx : x ≠ 0#32) (h : x &&& (x - 1#32) = 0#32) :
    (ctzsi2 x).toNat < 32 ∧ x.toNat = 2 ^ (ctzsi2 x).toNat := by
  have hpos := toNat_pos hx
  have hlt := x.isLt
  have hsub : (x - 1#32).toNat = x.toNat - 1 := by
    have hone : (1#32).toNat = 1 := rfl
    rw [BitVec.toNat_sub, hone]
    omega
  have hand : x.toNat &&& (x.toNat - 1) = 0 := by
    rw [← hsub, ← BitVec.toNat_and, h, BitVec.toNat_zero]
  obtain ⟨k, hk⟩ := (Nat.and_sub_one_eq_zero_iff_isPowerOfTwo (Nat.ne_of_gt hpos)).1 hand
  have htrail : Trails x.toNat k := by
    rw [hk]
    exact ⟨Nat.dvd_refl _, by rw [Nat.div_self (Nat.two_pow_pos k)]⟩
  have hctz := (trails_ctzsi2 hx).unique htrail
  rw [hctz]
  refine ⟨?_, hk⟩
  rw [hk] at hlt
  exact (Nat.pow_lt_pow_iff_right (by decide)).1 hlt

/-- The remainder by a power of two. -/
lemma toNat_and_sub_one (y : BitVec 32) {k : ℕ} (hx : x.toNat = 2 ^ k) :
    (y &&& (x - 1#32)).toNat = y.toNat % 2 ^ k := by
  have hlt := x.isLt
  have hpos := Nat.two_pow_pos k
  have hsub : (x - 1#32).toNat = 2 ^ k - 1 := by
    have hone : (1#32).toNat = 1 := rfl
    rw [BitVec.toNat_sub, hone]
    omega
  rw [BitVec.toNat_and, hsub, Nat.and_two_pow_sub_one_eq_mod]

end PowerOfTwo

/-! ## The cases of `__udivmoddi4` -/

section Cases

variable {n d : Udwords} {sr : BitVec 32}

/-- The loop is reached with a shift by less than a word. -/
lemma divides_loop_lt (h1 : 1 ≤ sr.toNat) (h31 : sr.toNat ≤ 31)
    (hlt : n.all.toNat / 2 ^ sr.toNat < d.all.toNat)
    (hsign : d.all.toNat ≤ 2 ^ 63 ∨ sr.toNat ≤ 1 ∧ 2 ^ 63 ≤ n.all.toNat) :
    Divides n.all.toNat d.all.toNat
      (divLoop d ⟨n.low <<< (32#32 - sr).toNat, 0#32⟩
        ⟨n.high >>> sr.toNat, (n.high <<< (32#32 - sr).toNat) ||| (n.low >>> sr.toNat)⟩ sr) := by
  have hsub : (32#32 - sr).toNat = 32 - sr.toNat := by
    have h32 : (32#32).toNat = 32 := rfl
    rw [BitVec.toNat_sub, h32]
    omega
  rw [hsub]
  exact divLoop_eq ⟨h1, by omega, hlt, hsign, toNat_shiftLeft_halves n h31,
    toNat_shiftRight_halves n h1 h31⟩

/-- The loop is reached with a shift by a word. -/
lemma divides_loop_eq (h32 : sr = 32#32) (hlt : n.all.toNat / 2 ^ sr.toNat < d.all.toNat)
    (hsign : d.all.toNat ≤ 2 ^ 63 ∨ sr.toNat ≤ 1 ∧ 2 ^ 63 ≤ n.all.toNat) :
    Divides n.all.toNat d.all.toNat (divLoop d ⟨n.low, 0#32⟩ ⟨0#32, n.high⟩ sr) := by
  have hlow := n.low.isLt
  have hall := n.toNat_all
  subst h32
  refine divLoop_eq ⟨by decide, by decide, hlt, hsign, ?_, ?_⟩
  · rw [Udwords.toNat_all, BitVec.toNat_zero, hall]
    show n.low.toNat * 2 ^ 32 + 0 = (n.high.toNat * 2 ^ 32 + n.low.toNat) % 2 ^ 32 * 2 ^ 32
    omega
  · rw [Udwords.toNat_all, BitVec.toNat_zero, hall]
    show 0 * 2 ^ 32 + n.high.toNat = (n.high.toNat * 2 ^ 32 + n.low.toNat) / 2 ^ 32
    omega

/-- The loop is reached with a shift by more than a word. -/
private lemma divides_loop_gt (h33 : 33 ≤ sr.toNat) (h63 : sr.toNat ≤ 63)
    (hlt : n.all.toNat / 2 ^ sr.toNat < d.all.toNat)
    (hsign : d.all.toNat ≤ 2 ^ 63 ∨ sr.toNat ≤ 1 ∧ 2 ^ 63 ≤ n.all.toNat) :
    Divides n.all.toNat d.all.toNat
      (divLoop d
        ⟨(n.high <<< (64#32 - sr).toNat) ||| (n.low >>> (sr - 32#32).toNat),
          n.low <<< (64#32 - sr).toNat⟩
        ⟨0#32, n.high >>> (sr - 32#32).toNat⟩ sr) := by
  have hsub : (sr - 32#32).toNat = sr.toNat - 32 := by
    have h32 : (32#32).toNat = 32 := rfl
    rw [BitVec.toNat_sub, h32]
    omega
  have hsub' : (64#32 - sr).toNat = 32 - (sr.toNat - 32) := by
    have h64 : (64#32).toNat = 64 := rfl
    rw [BitVec.toNat_sub, h64]
    omega
  have hsr : sr.toNat = 32 + (sr.toNat - 32) := by omega
  rw [hsub, hsub']
  refine divLoop_eq ⟨by omega, h63, hlt, hsign, ?_, ?_⟩
  · rw [toNat_shiftLeft_halves' n (by omega) (by omega), ← hsr,
      show 32 - (sr.toNat - 32) = 64 - sr.toNat by omega]
  · rw [toNat_shiftRight_halves', ← hsr]

/-- A dividend below the divisor. -/
lemma divides_of_lt {a : BitVec 64} {m : ℕ} (h : a.toNat < m) : Divides a.toNat m (0#64, a) :=
  ⟨(Nat.div_eq_of_lt h).symm, (Nat.mod_eq_of_lt h).symm⟩

/-- Words divided by words. -/
private lemma divides_words (hn : n.high = 0#32) (hd : d.high = 0#32) :
    Divides n.all.toNat d.all.toNat
      ((n.low / d.low).setWidth 64, (n.low % d.low).setWidth 64) := by
  have hall : ∀ {u : Udwords}, u.high = 0#32 → u.all.toNat = u.low.toNat := by
    intro u hu
    rw [Udwords.toNat_all, hu, BitVec.toNat_zero, Nat.zero_mul, Nat.zero_add]
  have hwide : ∀ v : BitVec 32, (v.setWidth 64).toNat = v.toNat := by
    intro v
    rw [BitVec.toNat_setWidth]
    omega
  rw [Divides, hall hn, hall hd, hwide, hwide, BitVec.toNat_udiv, BitVec.toNat_umod]
  exact ⟨rfl, rfl⟩

/-- Upper halves divided by upper halves. -/
private lemma divides_upper (hn : n.low = 0#32) (hd : d.low = 0#32) :
    Divides n.all.toNat d.all.toNat
      ((n.high / d.high).setWidth 64, Udwords.all ⟨n.high % d.high, 0#32⟩) := by
  have hall : ∀ {u : Udwords}, u.low = 0#32 → u.all.toNat = u.high.toNat * 2 ^ 32 := by
    intro u hu
    rw [Udwords.toNat_all, hu, BitVec.toNat_zero, Nat.add_zero]
  rw [Divides, hall hn, hall hd, hall rfl, BitVec.toNat_setWidth, BitVec.toNat_udiv,
    BitVec.toNat_umod, Nat.mul_div_mul_right _ _ (by decide), Nat.mul_mod_mul_right]
  refine ⟨Nat.mod_eq_of_lt ?_, rfl⟩
  have hle := Nat.div_le_self n.high.toNat d.high.toNat
  have hlt := n.high.isLt
  omega

/-- A power of two in the upper half of the divisor. -/
private lemma divides_upper_power {k : ℕ} (hl : d.low = 0#32) (hd : d.high.toNat = 2 ^ k) :
    Divides n.all.toNat d.all.toNat
      ((n.high >>> k).setWidth 64, Udwords.all ⟨n.high &&& (d.high - 1#32), n.low⟩) := by
  have hhigh := n.high.isLt
  have hlow := n.low.isLt
  have hdall : d.all.toNat = 2 ^ 32 * 2 ^ k := by
    rw [Udwords.toNat_all, hl, hd, BitVec.toNat_zero, Nat.add_zero, Nat.mul_comm]
  have hdiv : n.all.toNat / 2 ^ 32 = n.high.toNat := by
    rw [Udwords.toNat_all]
    omega
  have hmod : n.all.toNat % 2 ^ 32 = n.low.toNat := by
    rw [Udwords.toNat_all]
    omega
  rw [Divides, hdall, ← Nat.div_div_eq_div_mul, Nat.mod_mul, hdiv, hmod, BitVec.toNat_setWidth,
    BitVec.toNat_ushiftRight, Nat.shiftRight_eq_div_pow, Udwords.toNat_all,
    toNat_and_sub_one _ hd]
  constructor
  · have hle := Nat.div_le_self n.high.toNat (2 ^ k)
    exact Nat.mod_eq_of_lt (by omega)
  · show n.high.toNat % 2 ^ k * 2 ^ 32 + n.low.toNat = n.low.toNat + 2 ^ 32 * (n.high.toNat % 2 ^ k)
    omega

/-- A power of two in the lower half of the divisor. -/
private lemma divides_lower_power {k : ℕ} (hh : d.high = 0#32) (hd : d.low.toNat = 2 ^ k)
    (h1 : 1 ≤ k) (h31 : k ≤ 31) :
    Divides n.all.toNat d.all.toNat
      (Udwords.all ⟨n.high >>> k, (n.high <<< (32 - k)) ||| (n.low >>> k)⟩,
        (n.low &&& (d.low - 1#32)).setWidth 64) := by
  have hdall : d.all.toNat = 2 ^ k := by
    rw [Udwords.toNat_all, hh, hd, BitVec.toNat_zero, Nat.zero_mul, Nat.zero_add]
  have hmod : n.low.toNat % 2 ^ k = n.all.toNat % 2 ^ k := by
    rw [Udwords.toNat_all, show 2 ^ 32 = 2 ^ k * 2 ^ (32 - k) by
      rw [← Nat.pow_add, show k + (32 - k) = 32 by omega], Nat.mul_left_comm, Nat.mul_add_mod]
  have hlow := n.low.isLt
  have hle := Nat.mod_le n.low.toNat (2 ^ k)
  rw [Divides, hdall, toNat_shiftRight_halves n h1 h31, BitVec.toNat_setWidth,
    toNat_and_sub_one _ hd, ← hmod]
  exact ⟨rfl, Nat.mod_eq_of_lt (by omega)⟩

end Cases

/-- **The quotient and the remainder** of `__udivmoddi4`, for every divisor but zero. -/
theorem divides_udivmoddi4 (a b : BitVec 64) (hb : b ≠ 0#64) :
    Divides a.toNat b.toNat (udivmoddi4 a b) := by
  have hn := Udwords.all_ofAll a
  have hd := Udwords.all_ofAll b
  unfold udivmoddi4
  generalize Udwords.ofAll a = n at hn ⊢
  generalize Udwords.ofAll b = d at hd ⊢
  subst hn hd
  have hd0 : d.low = 0#32 → d.high ≠ 0#32 := by
    intro hl hh
    refine hb (BitVec.eq_of_toNat_eq ?_)
    rw [Udwords.toNat_all, hl, hh]
    rfl
  have hlt : ∀ k x : BitVec 32, k < x ↔ k.toNat < x.toNat := fun k x => Iff.rfl
  dsimp only
  split_ifs with h1 h2 h3 h4 h5 h6 h7 h8 h9 h10 h11 h12 h13 h14
  · exact divides_words h1 h2
  · rw [Udwords.setWidth_low h1]
    refine divides_of_lt ?_
    have hhigh := toNat_pos h2
    have hlow := n.low.isLt
    rw [Udwords.toNat_all, Udwords.toNat_all, h1, BitVec.toNat_zero]
    omega
  · exact absurd h4 (hd0 h3)
  · exact divides_upper h5 h3
  · exact divides_upper_power h3 (toNat_of_and_sub_one h4 h6).2
  · rw [hlt] at h7
    have hclz := clzsi2_lt_31 h4 h6
    have h30 : (30#32).toNat = 30 := rfl
    rcases align_upper h1 h4 with ⟨-, hbelow⟩ | ⟨hle, -⟩
    · exact divides_of_lt hbelow
    · omega
  · rw [hlt] at h7
    have h30 : (30#32).toNat = 30 := rfl
    rcases align_upper h1 h4 with ⟨hwrap, -⟩ | ⟨hle, -, hsr, hdiv, hsign⟩
    · omega
    · exact divides_loop_lt (by omega) (by omega) hdiv hsign
  · have hone : d.all.toNat = 1 := by
      rw [Udwords.toNat_all, h8, h10]
      rfl
    rw [hone, h10, BitVec.sub_self, BitVec.and_zero]
    exact ⟨(Nat.div_one _).symm, (Nat.mod_one _).symm⟩
  · obtain ⟨hctz, hpow⟩ := toNat_of_and_sub_one h3 h9
    have hpos : 1 ≤ (ctzsi2 d.low).toNat := by
      refine Nat.pos_of_ne_zero fun h0 => h10 (BitVec.eq_of_toNat_eq ?_)
      rw [hpow, h0]
      rfl
    have h32 : (32#32 - ctzsi2 d.low).toNat = 32 - (ctzsi2 d.low).toNat := by
      rw [BitVec.toNat_sub, show (32#32).toNat = 32 from rfl]
      omega
    rw [h32]
    exact divides_lower_power h8 hpow hpos (by omega)
  · obtain ⟨-, -, hdiv, hsign⟩ := align_lower h1 h8 h3 h9
    exact divides_loop_eq h11 hdiv hsign
  · obtain ⟨h2, -, hdiv, hsign⟩ := align_lower h1 h8 h3 h9
    rw [hlt] at h12
    exact divides_loop_lt (by omega) (Nat.le_of_lt_succ h12) hdiv hsign
  · obtain ⟨-, h63, hdiv, hsign⟩ := align_lower h1 h8 h3 h9
    have hne : (1#32 + 32#32 + clzsi2 d.low - clzsi2 n.high).toNat ≠ (32#32).toNat :=
      fun he => h11 (BitVec.eq_of_toNat_eq he)
    have h32 : (32#32).toNat = 32 := rfl
    rw [hlt] at h12
    exact divides_loop_gt (by omega) h63 hdiv hsign
  · rw [hlt] at h13
    have h31 : (31#32).toNat = 31 := rfl
    rcases align_upper h1 h8 with ⟨-, hbelow⟩ | ⟨hle, hle', -⟩
    · exact divides_of_lt hbelow
    · omega
  · rw [hlt] at h13
    rcases align_upper h1 h8 with ⟨hwrap, -⟩ | ⟨-, -, -, hdiv, hsign⟩
    · exact absurd hwrap h13
    · exact divides_loop_eq h14 hdiv hsign
  · rw [hlt] at h13
    have h31 : (31#32).toNat = 31 := rfl
    have hne : (clzsi2 d.high - clzsi2 n.high + 1#32).toNat ≠ (32#32).toNat :=
      fun he => h14 (BitVec.eq_of_toNat_eq he)
    have h32 : (32#32).toNat = 32 := rfl
    rcases align_upper h1 h8 with ⟨hwrap, -⟩ | ⟨hle, hle', hsr, hdiv, hsign⟩
    · omega
    · exact divides_loop_lt (by omega) (by omega) hdiv hsign

/-- `__udivmoddi4` gives the quotient and the remainder. -/
theorem udivmoddi4_eq {a b : BitVec 64} (hb : b ≠ 0#64) : udivmoddi4 a b = (a / b, a % b) := by
  obtain ⟨hq, hr⟩ := divides_udivmoddi4 a b hb
  exact Prod.ext (BitVec.eq_of_toNat_eq (by rw [hq, BitVec.toNat_udiv]))
    (BitVec.eq_of_toNat_eq (by rw [hr, BitVec.toNat_umod]))

/-! ## Signed division -/

section Signed

/-- The mask of a condition. -/
def maskOf (c : Bool) : BitVec 64 := if c = true then BitVec.allOnes 64 else 0#64

/-- `(x ^ s) - s` negates `x` if `s` is a mask of ones. -/
lemma xor_sub_mask (x : BitVec 64) (c : Bool) :
    (x ^^^ maskOf c) - maskOf c = if c = true then -x else x := by
  cases c
  · rw [maskOf, if_neg (by decide), if_neg (by decide), BitVec.xor_zero, BitVec.sub_zero]
  · rw [maskOf, if_pos rfl, if_pos rfl, BitVec.xor_allOnes, BitVec.neg_eq_not_add,
      show BitVec.allOnes 64 = -1#64 by decide, BitVec.sub_neg]

/-- The exclusive or of two sign masks is that of the signs. -/
private lemma maskOf_xor (c c' : Bool) : maskOf c ^^^ maskOf c' = maskOf (c ^^ c') := by
  cases c <;> cases c' <;> decide

/-- A magnitude is zero only for zero. -/
lemma magnitude_ne_zero {b : BitVec 64} (hb : b ≠ 0#64) (c : Bool) :
    (if c = true then -b else b) ≠ 0#64 := by
  split_ifs
  · exact fun h => hb (BitVec.neg_eq_zero_iff.1 h)
  · exact hb

variable {a b : BitVec 64}

/-- `__divdi3` divides towards zero. -/
lemma divdi3_eq (hb : b ≠ 0#64) : divdi3 a b = a.sdiv b := by
  have hb' := magnitude_ne_zero hb b.msb
  have hmask : ∀ x : BitVec 64, x.sshiftRight 63 = maskOf x.msb := sshiftRight_63
  simp only [divdi3, hmask, maskOf_xor, xor_sub_mask]
  rw [udivmoddi4_eq hb', BitVec.sdiv_eq]
  cases a.msb <;> cases b.msb <;> rfl

/-- `__moddi3` gives the remainder with the dividend's sign. -/
private lemma moddi3_eq (hb : b ≠ 0#64) : moddi3 a b = a.srem b := by
  have hb' := magnitude_ne_zero hb b.msb
  have hmask : ∀ x : BitVec 64, x.sshiftRight 63 = maskOf x.msb := sshiftRight_63
  simp only [moddi3, hmask, xor_sub_mask]
  rw [udivmoddi4_eq hb', BitVec.srem_eq]
  cases a.msb <;> cases b.msb <;> rfl

/-- The remainder by a multiplication. -/
lemma sub_udiv_mul (x y : BitVec 64) : x - x / y * y = x % y := by
  have hle : x.toNat / y.toNat * y.toNat ≤ x.toNat := Nat.div_mul_le_self _ _
  have hx := x.isLt
  have hmod := Nat.div_add_mod x.toNat y.toNat
  rw [Nat.mul_comm] at hmod
  apply BitVec.eq_of_toNat_eq
  rw [BitVec.toNat_sub, BitVec.toNat_mul, BitVec.toNat_udiv, BitVec.toNat_umod]
  omega

/-- The signed remainder by a multiplication. -/
private lemma sub_sdiv_mul : a - a.sdiv b * b = a.srem b := by
  have hneg : ∀ q : BitVec 64, a + q = -(-a - q) := by
    intro q
    rw [BitVec.neg_sub, BitVec.neg_neg]
  rw [BitVec.sdiv_eq, BitVec.srem_eq]
  cases a.msb <;> cases b.msb
  · exact sub_udiv_mul a b
  · show a - -(a / -b) * b = a % -b
    rw [← sub_udiv_mul, BitVec.neg_mul, BitVec.mul_neg]
  · show a - -(-a / b) * b = -(-a % b)
    rw [← sub_udiv_mul, BitVec.neg_mul, BitVec.sub_neg, hneg]
  · show a - -a / -b * b = -(-a % -b)
    rw [← sub_udiv_mul, ← hneg, BitVec.mul_neg, BitVec.add_neg_eq_sub]

end Signed

/-- **All divisions.**  For every dividend and every divisor but zero the functions give the
quotient and the remainder, unsigned or rounded towards zero; the quotient that is out of range
wraps around. -/
theorem divisions_eq {a b : BitVec 64} (hb : b ≠ 0#64) :
    udivmoddi4 a b = (a / b, a % b) ∧ udivdi3 a b = a / b ∧ umoddi3 a b = a % b ∧
      divdi3 a b = a.sdiv b ∧ moddi3 a b = a.srem b ∧ divmoddi4 a b = (a.sdiv b, a.srem b) := by
  refine ⟨udivmoddi4_eq hb, ?_, ?_, divdi3_eq hb, moddi3_eq hb, ?_⟩
  · rw [udivdi3, udivmoddi4_eq hb]
  · rw [umoddi3, udivmoddi4_eq hb]
  · rw [divmoddi4, divdi3_eq hb, sub_sdiv_mul]

/-- A negative dividend, and a divisor of more than a word. -/
theorem divisions_eq_minus_seven : divdi3 (-7#64) 2#64 = -3#64 ∧ moddi3 (-7#64) 2#64 = -1#64 ∧
    udivdi3 (-7#64) 0x200000003#64 = 0x7fffffff#64 := by
  obtain ⟨-, -, -, h4, h5, -⟩ := divisions_eq (a := -7#64) (b := 2#64) (by decide)
  obtain ⟨-, h2, -⟩ := divisions_eq (a := -7#64) (b := 0x200000003#64) (by decide)
  exact ⟨h4.trans (by decide), h5.trans (by decide), h2.trans (by decide)⟩

end Riscv64Cpu.Klib
