import Mathlib.Algebra.Group.Nat.Defs

set_option relaxedAutoImplicit false
set_option autoImplicit false

/-!
# Division of 64-bit integers on a 32-bit machine

`int64.c`: the functions that a compiler calls on a machine without instructions for them.  They
take their operands apart into halves of 32 bits.

## Main definitions

* `Klib.Udwords` — a 64-bit integer and its halves.
* `Klib.clzsi2`, `ctzsi2`, `clzdi2`, `ctzdi2` — leading and trailing zeros.
* `Klib.udivmoddi4` — the unsigned division with remainder.
* `Klib.divdi3`, `divmoddi4`, `moddi3`, `udivdi3`, `umoddi3` — the functions that call it.

## Design

`__builtin_clz` and `__builtin_ctz` are `clzsi2` and `ctzsi2`, which a compiler calls for them on
such a machine; C does not define them for zero, nor a division by zero.  Where `rem` is the null
pointer the remainder is dropped.
-/

namespace Riscv64Cpu.Klib

/-! ## Halves -/

/-- `udwords` and `dwords`. -/
structure Udwords where
  high : BitVec 32
  low : BitVec 32
deriving DecidableEq

/-- The member `all`. -/
def Udwords.all (u : Udwords) : BitVec 64 := u.high ++ u.low

/-- The union with the member `all` set. -/
def Udwords.ofAll (v : BitVec 64) : Udwords := ⟨v.extractLsb' 32 32, v.extractLsb' 0 32⟩

namespace Udwords

/-- The value of the whole. -/
lemma toNat_all (u : Udwords) : u.all.toNat = u.high.toNat * 2 ^ 32 + u.low.toNat := by
  rw [all, BitVec.toNat_append, Nat.shiftLeft_eq, Nat.mul_comm,
    ← Nat.two_pow_add_eq_or_of_lt u.low.isLt]

/-- The halves of a value. -/
lemma toNat_high_ofAll (v : BitVec 64) : (ofAll v).high.toNat = v.toNat / 2 ^ 32 := by
  rw [ofAll, BitVec.extractLsb'_toNat, Nat.shiftRight_eq_div_pow]
  exact Nat.mod_eq_of_lt (by have h := v.isLt; omega)

/-- The low half of a double word, as a number. -/
lemma toNat_low_ofAll (v : BitVec 64) : (ofAll v).low.toNat = v.toNat % 2 ^ 32 := by
  rw [ofAll, BitVec.extractLsb'_toNat, Nat.shiftRight_zero]

/-- The halves of a double word make it up again. -/
@[simp] lemma all_ofAll (v : BitVec 64) : (ofAll v).all = v := by
  apply BitVec.eq_of_toNat_eq
  rw [toNat_all, toNat_high_ofAll, toNat_low_ofAll]
  omega

/-- A value whose upper half is zero. -/
lemma setWidth_low {u : Udwords} (h : u.high = 0#32) : u.low.setWidth 64 = u.all := by
  apply BitVec.eq_of_toNat_eq
  have hlow := u.low.isLt
  rw [toNat_all, h, BitVec.toNat_setWidth, BitVec.toNat_zero]
  omega

end Udwords

/-! ## Leading and trailing zeros -/

/-- The value of a comparison. -/
def ofCond (b : Bool) : BitVec 32 := if b then 1#32 else 0#32

/-- `t = ((x & mask) == 0) << k; x >>= v - t; r += t`. -/
def clzStep (mask : BitVec 32) (k v : ℕ) (s : BitVec 32 × BitVec 32) : BitVec 32 × BitVec 32 :=
  let t := ofCond (s.1 &&& mask == 0#32) <<< k
  (s.1 >>> (BitVec.ofNat 32 v - t).toNat, s.2 + t)

/-- `__clzsi2`. -/
def clzsi2 (a : BitVec 32) : BitVec 32 :=
  let s := clzStep 0xFFFF0000#32 4 16 (a, 0#32)
  let s := clzStep 0xFF00#32 3 8 s
  let s := clzStep 0xF0#32 2 4 s
  let (x, r) := clzStep 0xC#32 1 2 s
  r + ((2#32 - x) &&& -ofCond (x &&& 2#32 == 0#32))

/-- `t = ((x & mask) == 0) << k; x >>= t; r += t`. -/
def ctzStep (mask : BitVec 32) (k : ℕ) (s : BitVec 32 × BitVec 32) : BitVec 32 × BitVec 32 :=
  let t := ofCond (s.1 &&& mask == 0#32) <<< k
  (s.1 >>> t.toNat, s.2 + t)

/-- `__ctzsi2`. -/
def ctzsi2 (a : BitVec 32) : BitVec 32 :=
  let s := ctzStep 0x0000FFFF#32 4 (a, 0#32)
  let s := ctzStep 0x00FF#32 3 s
  let s := ctzStep 0x0F#32 2 s
  let (x, r) := ctzStep 0x3#32 1 s
  let x := x &&& 3#32
  r + ((2#32 - x >>> 1) &&& -ofCond (x &&& 1#32 == 0#32))

/-- `__clzdi2`. -/
def clzdi2 (a : BitVec 64) : BitVec 32 :=
  let x := Udwords.ofAll a
  let f := -ofCond (x.high == 0#32)
  clzsi2 ((x.high &&& ~~~f) ||| (x.low &&& f)) + (f &&& 32#32)

/-- `__ctzdi2`. -/
def ctzdi2 (a : BitVec 64) : BitVec 32 :=
  let x := Udwords.ofAll a
  let f := -ofCond (x.low == 0#32)
  ctzsi2 ((x.high &&& f) ||| (x.low &&& ~~~f)) + (f &&& 32#32)

/-! ## Unsigned division -/

/-- The local variables of the loop of `__udivmoddi4`. -/
structure DivState where
  q : Udwords
  r : Udwords
  carry : BitVec 32
deriving DecidableEq

/-- One round of the loop. -/
def divRound (d : Udwords) (s : DivState) : DivState :=
  let r : Udwords := ⟨(s.r.high <<< 1) ||| (s.r.low >>> 31), (s.r.low <<< 1) ||| (s.q.high >>> 31)⟩
  let q : Udwords := ⟨(s.q.high <<< 1) ||| (s.q.low >>> 31), (s.q.low <<< 1) ||| s.carry⟩
  let m := (d.all - r.all - 1#64).sshiftRight 63
  ⟨q, Udwords.ofAll (r.all - (d.all &&& m)), (m &&& 1#64).setWidth 32⟩

/-- `for (; sr > 0; --sr)`. -/
def divRounds (d : Udwords) : ℕ → DivState → DivState
  | 0, s => s
  | sr + 1, s => divRounds d sr (divRound d s)

/-- The loop and what is behind it: the quotient and the remainder. -/
def divLoop (d q r : Udwords) (sr : BitVec 32) : BitVec 64 × BitVec 64 :=
  let s := divRounds d sr.toNat ⟨q, r, 0#32⟩
  ((s.q.all <<< 1) ||| s.carry.setWidth 64, s.r.all)

/-- `__udivmoddi4`: the quotient, and the remainder that goes to `*rem`. -/
def udivmoddi4 (a b : BitVec 64) : BitVec 64 × BitVec 64 :=
  let n := Udwords.ofAll a
  let d := Udwords.ofAll b
  if n.high = 0#32 then
    if d.high = 0#32 then ((n.low / d.low).setWidth 64, (n.low % d.low).setWidth 64)
    else (0#64, n.low.setWidth 64)
  else if d.low = 0#32 then
    if d.high = 0#32 then ((n.high / d.low).setWidth 64, (n.high % d.low).setWidth 64)
    else if n.low = 0#32 then
      ((n.high / d.high).setWidth 64, Udwords.all ⟨n.high % d.high, 0#32⟩)
    else if d.high &&& (d.high - 1#32) = 0#32 then
      ((n.high >>> (ctzsi2 d.high).toNat).setWidth 64,
        Udwords.all ⟨n.high &&& (d.high - 1#32), n.low⟩)
    else
      let sr := clzsi2 d.high - clzsi2 n.high
      if 30#32 < sr then (0#64, n.all)
      else
        let sr := sr + 1#32
        divLoop d ⟨n.low <<< (32#32 - sr).toNat, 0#32⟩
          ⟨n.high >>> sr.toNat, (n.high <<< (32#32 - sr).toNat) ||| (n.low >>> sr.toNat)⟩ sr
  else if d.high = 0#32 then
    if d.low &&& (d.low - 1#32) = 0#32 then
      if d.low = 1#32 then (n.all, (n.low &&& (d.low - 1#32)).setWidth 64)
      else
        let sr := ctzsi2 d.low
        (Udwords.all ⟨n.high >>> sr.toNat,
          (n.high <<< (32#32 - sr).toNat) ||| (n.low >>> sr.toNat)⟩,
          (n.low &&& (d.low - 1#32)).setWidth 64)
    else
      let sr := 1#32 + 32#32 + clzsi2 d.low - clzsi2 n.high
      if sr = 32#32 then divLoop d ⟨n.low, 0#32⟩ ⟨0#32, n.high⟩ sr
      else if sr < 32#32 then
        divLoop d ⟨n.low <<< (32#32 - sr).toNat, 0#32⟩
          ⟨n.high >>> sr.toNat, (n.high <<< (32#32 - sr).toNat) ||| (n.low >>> sr.toNat)⟩ sr
      else
        divLoop d
          ⟨(n.high <<< (64#32 - sr).toNat) ||| (n.low >>> (sr - 32#32).toNat),
            n.low <<< (64#32 - sr).toNat⟩
          ⟨0#32, n.high >>> (sr - 32#32).toNat⟩ sr
  else
    let sr := clzsi2 d.high - clzsi2 n.high
    if 31#32 < sr then (0#64, n.all)
    else
      let sr := sr + 1#32
      if sr = 32#32 then divLoop d ⟨n.low, 0#32⟩ ⟨0#32, n.high⟩ sr
      else
        divLoop d ⟨n.low <<< (32#32 - sr).toNat, 0#32⟩
          ⟨n.high >>> sr.toNat, (n.high <<< (32#32 - sr).toNat) ||| (n.low >>> sr.toNat)⟩ sr

/-! ## The other divisions -/

/-- `__udivdi3`. -/
def udivdi3 (a b : BitVec 64) : BitVec 64 := (udivmoddi4 a b).1

/-- `__umoddi3`. -/
def umoddi3 (a b : BitVec 64) : BitVec 64 := (udivmoddi4 a b).2

/-- `__divdi3`. -/
def divdi3 (a b : BitVec 64) : BitVec 64 :=
  let sa := a.sshiftRight 63
  let sb := b.sshiftRight 63
  let a := (a ^^^ sa) - sa
  let b := (b ^^^ sb) - sb
  let sa := sa ^^^ sb
  ((udivmoddi4 a b).1 ^^^ sa) - sa

/-- `__divmoddi4`: the quotient, and the remainder that goes to `*rem`. -/
def divmoddi4 (a b : BitVec 64) : BitVec 64 × BitVec 64 :=
  let d := divdi3 a b
  (d, a - d * b)

/-- `__moddi3`. -/
def moddi3 (a b : BitVec 64) : BitVec 64 :=
  let s := b.sshiftRight 63
  let b := (b ^^^ s) - s
  let s := a.sshiftRight 63
  let a := (a ^^^ s) - s
  ((udivmoddi4 a b).2 ^^^ s) - s

end Riscv64Cpu.Klib
