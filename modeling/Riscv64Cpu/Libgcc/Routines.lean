import Riscv64Cpu.Isa.Magnitude
import Riscv64Cpu.Libgcc.Div

set_option relaxedAutoImplicit false
set_option autoImplicit false

/-!
# The routines of `div.S`

The entries of `div.S` other than `__udivdi3`: they bring their arguments into the form that
`__udivdi3` wants and its results into the form that they return.
-/

namespace Riscv64Cpu.Libgcc

open Clocked Rv64i Rv64i.Line

/-- The registers that the routines use. -/
def used : List (BitVec 5) := [ra, t0, a0, a1, a2, a3]

/-! ## Signed words -/

/-- The register holds a word in the form in which a call passes it. -/
def SignedWord (v : BitVec 64) : Prop := (v.setWidth 32).signExtend 64 = v

/-- The remainder of two words: `__modsi3` is `__moddi3`. -/
private lemma rem_words {v w : BitVec 64} (hv : SignedWord v) (hw : SignedWord w) :
    Rv64m.rem v w = Rv64m.onWords Rv64m.rem v w := by
  rw [Rv64m.onWords, ← Rv64m.rem_signExtend, hv, hw]

/-- The quotient of two words that is a word. -/
lemma div_words {v w : BitVec 64} (hv : SignedWord v) (hw : SignedWord w)
    (h : ¬(v.setWidth 32 = BitVec.intMin 32 ∧ w.setWidth 32 = -1#32)) :
    Rv64m.div v w = Rv64m.onWords Rv64m.div v w := by
  rw [Rv64m.onWords, ← Rv64m.div_signExtend _ _ h, hv, hw]

/-! ## Unsigned division -/

section Routines

variable {base : BitVec 64} (hbase : base.toNat % 2 = 0) {x y : Regs}
include hbase

/-- The call of `__udivdi3` in line `k`, a line that puts the result into `a0`, and the return
through `t0`. -/
lemma within_tail {k : ℕ} {l : Line} {f : Regs → BitVec 64} {r : BitVec 64}
    (hcall : div.lines[k]? = some (jal ra 18)) (hl : div.lines[k + 1]? = some l)
    (hjr : div.lines[k + 2]? = some (jr t0))
    (hf : ∀ z, l.next base (k + 1) z = ⟨addr base (k + 2), z.set a0 (f z)⟩)
    (hsame : Regs.SameBut used x y) (ht0 : y.get t0 = x.get ra)
    (hr : ∀ z, Divided y z → f z = r) :
    Within (Hart.step (div.code base)) (Returned x used fun z => z.get a0 = r) 714
      ⟨addr base k, y⟩ := by
  refine (Text.within_call hbase hcall (within_udivdi3 base _)).bind (n := 2) ?_
  rintro t ⟨z, rfl, hsame', hz⟩
  have hdiv : Divided y z := ⟨hz.quotient, hz.remainder⟩
  refine Text.within_line base hl ?_
  rw [hf, hr z hdiv]
  refine Text.within_jr hjr ((hsame.trans hsame' (by decide)).set _ (by decide) _) ?_ ?_
  · have hkeep : z.get t0 = y.get t0 := hsame' t0 (by decide)
    simpa [hkeep] using ht0
  · simp

/-- **`__umoddi3`.** -/
theorem within_umoddi3 :
    Within (Hart.step (div.code base)) (Returned x used fun z =>
      z.get a0 = Rv64m.remu (x.get a0) (x.get a1)) 715 ⟨addr base 36, x⟩ := by
  refine Text.within_line (l := mv t0 ra) base rfl ?_
  rw [next_mv]
  refine within_tail hbase (l := mv a0 a1) rfl rfl rfl (fun z => next_mv ..)
    ((Regs.SameBut.refl x used).set _ (by decide) _) (by simp) fun z hz => ?_
  simpa using hz.remainder

/-- **`__udivsi3`**: the words in the upper halves have the quotient of the words. -/
theorem within_udivsi3 :
    Within (Hart.step (div.code base)) (Returned x used fun z =>
      z.get a0 = Rv64m.onWords Rv64m.divu (x.get a0) (x.get a1)) 717 ⟨addr base 0, x⟩ := by
  refine Text.within_line (l := slli a0 a0 32#6) base rfl ?_
  rw [next_slli]
  refine Text.within_line (l := slli a1 a1 32#6) base rfl ?_
  rw [next_slli]
  refine Text.within_line (l := mv t0 ra) base rfl ?_
  rw [next_mv]
  refine within_tail hbase (l := sextw a0 a0) rfl rfl rfl (fun z => next_sextw ..)
    ((((Regs.SameBut.refl x used).set _ (by decide) _).set _ (by decide) _).set _ (by decide) _)
    (by simp) fun z hz => ?_
  have hq : z.get a0 = Rv64m.divu (x.get a0 <<< 32) (x.get a1 <<< 32) := by
    simpa using hz.quotient
  rw [hq, Rv64m.divu_shiftLeft, Rv64m.onWords]

/-- **`__umodsi3`**: the words with zeros above them have the remainder of the words. -/
theorem within_umodsi3 :
    Within (Hart.step (div.code base)) (Returned x used fun z =>
      z.get a0 = Rv64m.onWords Rv64m.remu (x.get a0) (x.get a1)) 719 ⟨addr base 6, x⟩ := by
  have hclear : ∀ v : BitVec 64, v <<< 32 >>> 32 = (v.setWidth 32).setWidth 64 := by
    intro v
    apply BitVec.eq_of_toNat_eq
    rw [BitVec.toNat_ushiftRight, BitVec.toNat_shiftLeft, BitVec.toNat_setWidth,
      BitVec.toNat_setWidth, Nat.shiftLeft_eq, Nat.shiftRight_eq_div_pow]
    omega
  refine Text.within_line (l := slli a0 a0 32#6) base rfl ?_
  rw [next_slli]
  refine Text.within_line (l := slli a1 a1 32#6) base rfl ?_
  rw [next_slli]
  refine Text.within_line (l := srli a0 a0 32#6) base rfl ?_
  rw [next_srli]
  refine Text.within_line (l := srli a1 a1 32#6) base rfl ?_
  rw [next_srli]
  refine Text.within_line (l := mv t0 ra) base rfl ?_
  rw [next_mv]
  refine within_tail hbase (l := sextw a0 a1) rfl rfl rfl (fun z => next_sextw ..)
    ((((((Regs.SameBut.refl x used).set _ (by decide) _).set _ (by decide) _).set _ (by decide)
      _).set _ (by decide) _).set _ (by decide) _) (by simp) fun z hz => ?_
  have hr : z.get a1 = Rv64m.remu (x.get a0 <<< 32 >>> 32) (x.get a1 <<< 32 >>> 32) := by
    simpa using hz.remainder
  rw [hr, hclear, hclear, Rv64m.remu_setWidth, Rv64m.onWords]

/-! ## Signed division -/

/-- The quotient with its sign turned, from `.L12`. -/
lemma within_l12 {q : BitVec 64} (hsame : Regs.SameBut used x y) (hra : y.get ra = x.get ra)
    (hq : -Rv64m.divu (y.get a0) (y.get a1) = q) :
    Within (Hart.step (div.code base)) (Returned x used fun z => z.get a0 = q) 715
      ⟨addr base 45, y⟩ := by
  refine Text.within_line (l := mv t0 ra) base rfl ?_
  rw [next_mv]
  refine within_tail hbase (l := neg a0 a0) rfl rfl rfl (fun z => next_neg ..)
    (hsame.set _ (by decide) _) (by simpa using hra) fun z hz => ?_
  rw [hz.quotient, ← hq]
  simp

omit hbase in
/-- The quotient as it is, from `__udivdi3`. -/
lemma within_quotient {q : BitVec 64} (hsame : Regs.SameBut used x y)
    (hra : y.get ra = x.get ra) (hq : Rv64m.divu (y.get a0) (y.get a1) = q) :
    Within (Hart.step (div.code base)) (Returned x used fun z => z.get a0 = q) 711
      ⟨addr base 18, y⟩ := by
  refine (within_udivdi3 base y).imp fun t ht => ?_
  exact ⟨by rw [ht.pc, hra], hsame.trans ht.same (by decide), by rw [ht.result.quotient, hq]⟩

/-- **`__divdi3`**, by the signs of the arguments. -/
theorem within_divdi3 :
    Within (Hart.step (div.code base)) (Returned x used fun z =>
      z.get a0 = Rv64m.div (x.get a0) (x.get a1)) 720 ⟨addr base 16, x⟩ := by
  have hsame := Regs.SameBut.refl x used
  refine Text.within_line (l := bltz a0 40) base rfl ?_
  rw [next_bltz]
  split_ifs with ha
  · refine Text.within_line (l := neg a0 a0) base rfl ?_
    rw [next_neg]
    refine Text.within_line (l := bgtz a1 45) base rfl ?_
    rw [next_bgtz]
    split_ifs with hb
    · have hb : 0 < (x.get a1).toInt := by simpa using hb
      refine (within_l12 hbase (hsame.set _ (by decide) _) (by simp) ?_).mono (by decide)
      simp [Rv64m.div_of_neg_pos ha hb]
    · have hb : (x.get a1).toInt ≤ 0 := by simpa using hb
      refine Text.within_line (l := neg a1 a1) base rfl ?_
      rw [next_neg]
      refine Text.within_line (l := j 18) base rfl ?_
      rw [next_j]
      refine (within_quotient ((hsame.set _ (by decide) _).set _ (by decide) _) (by simp) ?_).mono
        (by decide)
      simp [Rv64m.div_of_neg_nonpos ha hb]
  · have ha := Int.not_lt.mp ha
    refine Text.within_line (l := bltz a1 44) base rfl ?_
    rw [next_bltz]
    split_ifs with hb
    · refine Text.within_line (l := neg a1 a1) base rfl ?_
      rw [next_neg]
      refine (within_l12 hbase (hsame.set _ (by decide) _) (by simp) ?_).mono (by decide)
      simp [Rv64m.div_of_nonneg_neg ha hb]
    · refine (within_quotient hsame rfl ?_).mono (by decide)
      rw [Rv64m.div_of_nonneg_nonneg ha (Int.not_lt.mp hb)]

omit hbase in
/-- A routine entered with other registers than `x` where it does not look. -/
lemma returned_from {P : BitVec 64 → BitVec 64 → BitVec 64 → Prop} {t : Hart}
    (hsame : Regs.SameBut used x y) (hra : y.get ra = x.get ra) (h0 : y.get a0 = x.get a0)
    (h1 : y.get a1 = x.get a1)
    (h : Returned y used (fun z => P (y.get a0) (y.get a1) (z.get a0)) t) :
    Returned x used (fun z => P (x.get a0) (x.get a1) (z.get a0)) t :=
  ⟨by rw [h.pc, hra], hsame.trans h.same fun _ => id, by rw [← h0, ← h1]; exact h.result⟩

/-- The remainder as it is, from `.L30`. -/
lemma within_l30 {r : BitVec 64} (hsame : Regs.SameBut used x y) (ht0 : y.get t0 = x.get ra)
    (hr : Rv64m.remu (y.get a0) (y.get a1) = r) :
    Within (Hart.step (div.code base)) (Returned x used fun z => z.get a0 = r) 714
      ⟨addr base 52, y⟩ :=
  within_tail hbase (l := mv a0 a1) rfl rfl rfl (fun z => next_mv ..) hsame ht0 fun z hz => by
    rw [hz.remainder, hr]

/-- The remainder of the negated dividend with its sign turned, from `.L32`. -/
lemma within_l32 {r : BitVec 64} (hsame : Regs.SameBut used x y) (ht0 : y.get t0 = x.get ra)
    (hr : -Rv64m.remu (-y.get a0) (y.get a1) = r) :
    Within (Hart.step (div.code base)) (Returned x used fun z => z.get a0 = r) 715
      ⟨addr base 57, y⟩ := by
  refine Text.within_line (l := neg a0 a0) base rfl ?_
  rw [next_neg]
  refine within_tail hbase (l := neg a0 a1) rfl rfl rfl (fun z => next_neg ..)
    (hsame.set _ (by decide) _) (by simpa using ht0) fun z hz => ?_
  rw [hz.remainder, ← hr]
  simp

/-- **`__moddi3`**, by the signs of the arguments. -/
theorem within_moddi3 :
    Within (Hart.step (div.code base)) (Returned x used fun z =>
      z.get a0 = Rv64m.rem (x.get a0) (x.get a1)) 719 ⟨addr base 49, x⟩ := by
  have hsame := (Regs.SameBut.refl x used).set t0 (by decide) (x.get ra)
  refine Text.within_line (l := mv t0 ra) base rfl ?_
  rw [next_mv]
  refine Text.within_line (l := bltz a1 55) base rfl ?_
  rw [next_bltz]
  split_ifs with hb
  · have hb : (x.get a1).toInt < 0 := by simpa using hb
    refine Text.within_line (l := neg a1 a1) base rfl ?_
    rw [next_neg]
    refine Text.within_line (l := bgez a0 52) base rfl ?_
    rw [next_bgez]
    split_ifs with ha
    · have ha : 0 ≤ (x.get a0).toInt := by simpa using ha
      refine (within_l30 hbase (hsame.set _ (by decide) _) (by simp) ?_).mono (by decide)
      simp [Rv64m.rem_of_nonneg ha, hb]
    · have ha : (x.get a0).toInt < 0 := by simpa using ha
      refine within_l32 hbase (hsame.set _ (by decide) _) (by simp) ?_
      simp [Rv64m.rem_of_neg ha, hb]
  · have hb : ¬(x.get a1).toInt < 0 := by simpa using hb
    refine Text.within_line (l := bltz a0 57) base rfl ?_
    rw [next_bltz]
    split_ifs with ha
    · have ha : (x.get a0).toInt < 0 := by simpa using ha
      refine (within_l32 hbase hsame (by simp) ?_).mono (by decide)
      simp [Rv64m.rem_of_neg ha, hb]
    · have ha : 0 ≤ (x.get a0).toInt := by simpa using ha
      refine (within_l30 hbase hsame (by simp) ?_).mono (by decide)
      simp [Rv64m.rem_of_nonneg ha, hb]

/-! ### Words -/

/-- **`__divsi3`**: the quotient that is no word is caught, the others are those of
`__divdi3`. -/
theorem within_divsi3 (hv : SignedWord (x.get a0)) (hw : SignedWord (x.get a1)) :
    Within (Hart.step (div.code base)) (Returned x used fun z =>
      z.get a0 = Rv64m.onWords Rv64m.div (x.get a0) (x.get a1)) 724 ⟨addr base 14, x⟩ := by
  have hsame := (Regs.SameBut.refl x used).set t0 (by decide) ((-1#12).signExtend 64)
  refine Text.within_line (l := li t0 (-1#12)) base rfl ?_
  rw [next_li]
  refine Text.within_line (l := beq a1 t0 61) base rfl ?_
  rw [next_beq]
  split_ifs with hone
  · have hone : x.get a1 = -1#64 := by simpa using hone
    refine Text.within_line (l := slli t0 t0 31#6) base rfl ?_
    rw [next_slli]
    refine Text.within_line (l := bne a0 t0 16) base rfl ?_
    rw [next_bne]
    split_ifs with hmin
    · have hmin : ¬x.get a0 = 0xffffffff80000000#64 := by simpa using hmin
      rw [← div_words hv hw fun hc => hmin (hv.symm.trans (by rw [hc.1]; decide))]
      exact ((within_divdi3 hbase).imp fun t => returned_from (P := fun v w q => q = Rv64m.div v w)
        (hsame.set _ (by decide) _) (by simp) (by simp) (by simp)).mono (by decide)
    · have hmin : x.get a0 = 0xffffffff80000000#64 := by simpa using hmin
      refine (Text.within_jr (r := ra) rfl (hsame.set _ (by decide) _) (by simp) ?_).mono
        (by decide)
      have hquot : Rv64m.onWords Rv64m.div (x.get a0) (x.get a1) = x.get a0 := by
        rw [hmin, hone]
        decide
      simpa using hquot.symm
  · have hone : ¬x.get a1 = -1#64 := by simpa using hone
    rw [← div_words hv hw fun hc => hone (hw.symm.trans (by rw [hc.2]; decide))]
    exact ((within_divdi3 hbase).imp fun t => returned_from (P := fun v w q => q = Rv64m.div v w)
      hsame (by simp) (by simp) (by simp)).mono (by decide)

end Routines

/-! ## All routines -/

/-- The routines of `div.S`. -/
inductive Routine
  | udivsi3 | umodsi3 | divsi3 | modsi3 | divdi3 | udivdi3 | umoddi3 | moddi3
deriving DecidableEq

namespace Routine

/-- The line at which a routine is entered; `__modsi3` is an alias. -/
def entry : Routine → ℕ
  | udivsi3 => 0
  | umodsi3 => 6
  | divsi3 => 14
  | divdi3 => 16
  | udivdi3 => 18
  | umoddi3 => 36
  | moddi3 | modsi3 => 49

/-- The instruction that a routine stands for. -/
def op : Routine → Rv64m.Op
  | udivsi3 => .divuw
  | umodsi3 => .remuw
  | divsi3 => .divw
  | modsi3 => .remw
  | divdi3 => .div
  | udivdi3 => .divu
  | umoddi3 => .remu
  | moddi3 => .rem

/-- What a routine asks of its arguments: signed words are passed sign extended. -/
def Accepts (r : Routine) (v w : BitVec 64) : Prop :=
  r = divsi3 ∨ r = modsi3 → SignedWord v ∧ SignedWord w

/-- The routine, entered with the registers `x`, has returned with the result of its
instruction. -/
def Done (r : Routine) (x : Regs) : Hart → Prop :=
  Returned x used fun z => z.get a0 = r.op.eval (x.get a0) (x.get a1)

/-- **Software division is division**: every routine of `div.S` returns within 724 instructions,
with the result of its instruction. -/
theorem within_done (r : Routine) {base : BitVec 64} (hbase : base.toNat % 2 = 0) {x : Regs}
    (hx : r.Accepts (x.get a0) (x.get a1)) :
    Within (Hart.step (div.code base)) (r.Done x) 724 ⟨addr base r.entry, x⟩ := by
  cases r with
  | udivsi3 => exact (within_udivsi3 hbase).mono (by decide)
  | umodsi3 => exact (within_umodsi3 hbase).mono (by decide)
  | divsi3 => exact within_divsi3 hbase (hx (.inl rfl)).1 (hx (.inl rfl)).2
  | modsi3 =>
    obtain ⟨hv, hw⟩ := hx (.inr rfl)
    have hrem := rem_words hv hw
    refine (within_moddi3 hbase).mono (by decide) |>.imp fun t ht => ⟨ht.pc, ht.same, ?_⟩
    exact ht.result.trans hrem
  | divdi3 => exact (within_divdi3 hbase).mono (by decide)
  | udivdi3 => exact (within_quotient (Regs.SameBut.refl x used) rfl rfl).mono (by decide)
  | umoddi3 => exact (within_umoddi3 hbase).mono (by decide)
  | moddi3 => exact (within_moddi3 hbase).mono (by decide)

end Routine

end Riscv64Cpu.Libgcc
