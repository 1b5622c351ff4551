import Mathlib.Tactic.SplitIfs

set_option relaxedAutoImplicit false
set_option autoImplicit false

/-!
# Valid-ready pipeline registers

A pipeline register with a valid flag: it lets the stage before it in when it is empty or hands
its own payload on, and it can be cleared.  The flag and the payload are assigned under
conditions of their own: the payload is loaded unless a bubble is asked for, the flag is taken
over unless the register is cleared.  This file says when the two stay together.

## Main definitions

* `Clocked.Stage` — a payload with its valid flag.
* `Clocked.Stage.allowin`, `oValid` — the handshake.
* `Clocked.Stage.next` — the register at a clock edge.
* `Clocked.Stage.Sound` — the flag agrees with the payload, and an empty register holds the nop.

## Main results

* `Clocked.Stage.next_eq` — a register whose bubble never meets a valid input it is to keep
  takes flag and payload together.
* `Clocked.Stage.Sound.next` — such a register stays sound.
-/

namespace Clocked

variable {R : Type*}

/-- A register with a valid flag. -/
structure Stage (R : Type*) where
  valid : Bool
  payload : R
deriving DecidableEq

namespace Stage

/-- A register without a valid payload. -/
def empty (nop : R) : Stage R where
  valid := false
  payload := nop

/-- An empty register is not valid. -/
@[simp] lemma empty_valid (nop : R) : (empty nop).valid = false := rfl

/-- An empty register holds the nop. -/
@[simp] lemma empty_payload (nop : R) : (empty nop).payload = nop := rfl

/-! ## The handshake -/

section Handshake

variable (r : Stage R)

/-- `allowin = !valid || (ready_go && next_allowin)`. -/
def allowin (readyGo nextAllowin : Bool) : Bool := !r.valid || (readyGo && nextAllowin)

/-- `o_valid = valid && ready_go`. -/
def oValid (readyGo : Bool) : Bool := r.valid && readyGo

/-- A register that is always ready, before one that lets it in, lets the stage before it in. -/
@[simp] lemma allowin_true : r.allowin true true = true := by simp [allowin]

/-- A register that is always ready hands on what is valid. -/
@[simp] lemma oValid_true : r.oValid true = r.valid := by simp [oValid]

end Handshake

/-! ## The clock edge -/

/-- The register after a clock edge.  `clear` empties it; otherwise the flag follows the input,
and an input that is not valid empties it too.  The payload is loaded by a statement of its own
that looks at `bubble` and not at `clear`. -/
def next (clear bubble allowin inValid : Bool) (nop input : R) (r : Stage R) : Stage R :=
  let t : Stage R :=
    if clear then empty nop
    else if allowin then
      if inValid then { r with valid := true } else empty nop
    else r
  if inValid && allowin && !bubble then { t with payload := input } else t

section Next

variable {clear bubble allowin inValid : Bool} {nop input : R} {r : Stage R}

/-- **Flag and payload together**: when a valid input that is let in meets a bubble exactly if
the register is cleared, the register is emptied, loaded or kept as a whole. -/
theorem next_eq (h : inValid = true → allowin = true → bubble = clear) :
    next clear bubble allowin inValid nop input r =
      if clear then empty nop
      else if allowin then if inValid then ⟨true, input⟩ else empty nop
      else r := by
  unfold next
  cases inValid with
  | false => simp
  | true =>
    cases allowin with
    | false => simp
    | true =>
      rw [h rfl rfl]
      cases clear <;> simp

/-- A cleared register is not valid, whatever its payload. -/
lemma next_clear_valid : (next true bubble allowin inValid nop input r).valid = false := by
  unfold next
  simp only [if_true]
  split_ifs <;> rfl

end Next

/-! ## Soundness -/

/-- The flag is the bit that the payload carries itself, and an empty register holds the nop. -/
structure Sound (bit : R → Bool) (nop : R) (r : Stage R) : Prop where
  valid : r.valid = bit r.payload
  payload : r.valid = false → r.payload = nop

section Sound

variable {bit : R → Bool} {nop : R}

/-- An emptied register is sound. -/
lemma sound_empty (hn : bit nop = false) : Sound bit nop (empty nop) := ⟨hn.symm, fun _ => rfl⟩

/-- A clock edge keeps a register sound when a valid input carries its bit. -/
theorem Sound.next {clear bubble allowin inValid : Bool} {input : R} {r : Stage R}
    (hs : Sound bit nop r) (hn : bit nop = false)
    (h : inValid = true → allowin = true → bubble = clear)
    (hin : inValid = true → bit input = true) :
    Sound bit nop (Stage.next clear bubble allowin inValid nop input r) := by
  rw [next_eq h]
  split_ifs with _ _ hv
  · exact sound_empty hn
  · exact ⟨(hin hv).symm, fun hf => by cases hf⟩
  · exact sound_empty hn
  · exact hs

end Sound

end Stage

end Clocked
