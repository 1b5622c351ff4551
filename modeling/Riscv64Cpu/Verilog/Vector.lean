import Mathlib.Data.Nat.Basic

set_option relaxedAutoImplicit false
set_option autoImplicit false

/-!
# Packed vectors

A Verilog concatenation `{b₁, …, bₙ}` of single wires packs them into a vector whose most
significant bit is `b₁`; an index `v[i]` counts from the other end.

## Main definitions

* `Verilog.pack` — the concatenation of single bits.
* `Verilog.bit` — the bit-select.

## Main results

* `Verilog.bit_pack` — what an index reads back.
-/

namespace Verilog

/-- The concatenation `{b₁, …, bₙ}` of single wires, most significant bit first. -/
def pack (n : ℕ) (bs : List Bool) : BitVec n := (BitVec.ofBoolListBE bs).setWidth n

/-- The bit-select `v[i]`. -/
def bit {n : ℕ} (v : BitVec n) (i : ℕ) : Bool := v.getLsbD i

/-- Index `i` of a concatenation reads the `i`-th wire from the right. -/
@[simp] theorem bit_pack (n : ℕ) (bs : List Bool) (i : ℕ) : bit (pack n bs) i =
    (decide (i < n) && (decide (i < bs.length) && bs.getD (bs.length - 1 - i) false)) := by
  simp only [bit, pack, BitVec.getLsbD_setWidth, BitVec.getLsbD_ofBoolListBE]

/-- Every bit of the zero vector is down. -/
@[simp] lemma bit_zero (n i : ℕ) : bit 0#n i = false := BitVec.getLsbD_zero

/-- One bit of a one-hot vector is up. -/
@[simp] lemma bit_twoPow (n k i : ℕ) :
    bit (BitVec.twoPow n k) i = (decide (k < n) && decide (k = i)) :=
  BitVec.getLsbD_twoPow ..

end Verilog
