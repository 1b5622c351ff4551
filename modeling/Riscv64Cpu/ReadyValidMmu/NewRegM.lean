import Riscv64Cpu.Clocked.Driven
import Riscv64Cpu.Clocked.Stage
import Riscv64Cpu.Pipeline.Registers

set_option relaxedAutoImplicit false
set_option autoImplicit false

/-!
# The memory stage register of the mmu variant

`mmu_regM.v` lets the next instruction in only when the memory stage is ready and write back takes
the one it holds, but offers that one to write back without waiting for the memory stage: while
memory is not ready, write back takes it again in every cycle.

## Main definitions

* `ReadyValidMmu.NewRegMIn` — the inputs of `new_regM`.
* `ReadyValidMmu.NewRegM.step` — one clock edge.
* `ReadyValidMmu.regMAt` — the register in a run from reset.
* `ReadyValidMmu.acceptedAt`, `transferredAt` — what enters and what leaves at an edge.
* `ReadyValidMmu.HandsOnOnce` — every instruction is handed on once, in order, from a ready memory
  stage.

## Main results

* `ReadyValidMmu.handsOnOnce_iff` — when that holds.
-/

namespace Riscv64Cpu.ReadyValidMmu

open Clocked
open Pipeline (RegM)

/-! ## The module -/

/-- The inputs of `new_regM`; `payload` are the fifteen data inputs, by the register they go to. -/
structure NewRegMIn where
  regEOValid : Bool
  payload : RegM
  memoryIReadyGo : Bool
  regWIAllowin : Bool

/-- The registers of `new_regM`. -/
abbrev NewRegM := Stage RegM

namespace NewRegM

/-- The registers after a reset edge. -/
def reset : NewRegM := Stage.empty RegM.nop

/-- `regM_o_allowin`. -/
def regMOAllowin (i : NewRegMIn) (s : NewRegM) : Bool :=
  Stage.allowin s i.memoryIReadyGo i.regWIAllowin

/-- `regM_o_valid`: the flag, without `regM_ready_go`. -/
def regMOValid (s : NewRegM) : Bool := s.valid

/-- One clock edge with reset input `rst`. -/
def step (rst : Bool) (i : NewRegMIn) (s : NewRegM) : NewRegM :=
  if rst then reset
  else if regMOAllowin i s then
    if i.regEOValid then { valid := true, payload := i.payload } else Stage.empty RegM.nop
  else s

/-- The instruction that enters at the next edge. -/
def accepted (i : NewRegMIn) (s : NewRegM) : Option RegM :=
  if i.regEOValid && regMOAllowin i s then some i.payload else none

/-- The instruction that write back samples at the next edge. -/
def transferred (i : NewRegMIn) (s : NewRegM) : Option RegM :=
  if regMOValid s && i.regWIAllowin then some s.payload else none

/-- The instruction in the register. -/
def held (s : NewRegM) : List RegM := if s.valid then [s.payload] else []

/-- When write back takes an instruction only from a ready memory stage, an edge neither loses nor
repeats one. -/
lemma conserves {i : NewRegMIn} {s : NewRegM}
    (h : s.valid = true → i.regWIAllowin = true → i.memoryIReadyGo = true) :
    held s ++ (accepted i s).toList = (transferred i s).toList ++ held (step false i s) := by
  obtain ⟨valid, payload⟩ := s
  obtain ⟨regEOValid, input, readyGo, nextAllowin⟩ := i
  cases valid with
  | false =>
    cases regEOValid <;>
      simp [held, accepted, transferred, step, regMOAllowin, regMOValid, Stage.allowin]
  | true =>
    cases nextAllowin with
    | false => simp [held, accepted, transferred, step, regMOAllowin, regMOValid, Stage.allowin]
    | true =>
      obtain rfl : readyGo = true := h rfl rfl
      cases regEOValid <;>
        simp [held, accepted, transferred, step, regMOAllowin, regMOValid, Stage.allowin]

/-- Write back takes what a valid register holds. -/
lemma transferred_toList {i : NewRegMIn} (h : i.regWIAllowin = true) (s : NewRegM) :
    (transferred i s).toList = held s := by
  cases hv : s.valid <;> simp [transferred, held, regMOValid, h, hv]

end NewRegM

/-! ## Runs -/

section Run

variable (input : ℕ → NewRegMIn)

/-- The register in cycle `n` of a run from reset. -/
def regMAt (n : ℕ) : NewRegM := driven (fun i s => NewRegM.step false i s) input NewRegM.reset n

/-- The instruction that enters at edge `n`. -/
def acceptedAt (n : ℕ) : Option RegM := NewRegM.accepted (input n) (regMAt input n)

/-- The instruction that write back samples at edge `n`. -/
def transferredAt (n : ℕ) : Option RegM := NewRegM.transferred (input n) (regMAt input n)

/-- Every instruction that enters is handed on exactly once, in order, and from a ready memory
stage. -/
structure HandsOnOnce : Prop where
  /-- What has entered is what has been handed on, followed by what is still held. -/
  order : ∀ n, trace (acceptedAt input) n =
    trace (transferredAt input) n ++ NewRegM.held (regMAt input n)
  /-- An instruction is handed on in a cycle in which the memory stage is ready. -/
  ready : ∀ n, transferredAt input n ≠ none → (input n).memoryIReadyGo = true
  /-- When the memory stage is ready and write back takes an instruction, everything that has
  entered before has been handed on. -/
  delivered : ∀ n m, n ≤ m → (input m).memoryIReadyGo = true → (input m).regWIAllowin = true →
    trace (acceptedAt input) n <+: trace (transferredAt input) (m + 1)

/-- **When every instruction is handed on once**: exactly if write back never takes what a valid
register holds while the memory stage is not ready.

**Proof sketch.** Under the condition every edge keeps what has entered in balance with what has
been handed on and what is held (`NewRegM.conserves`), and so does every run
(`trace_conservation`).  Conversely what write back takes from a memory stage that is not ready
breaks the second clause. -/
theorem handsOnOnce_iff : HandsOnOnce input ↔
    ∀ n, (regMAt input n).valid = true → (input n).regWIAllowin = true →
      (input n).memoryIReadyGo = true := by
  constructor
  · intro h n hv ha
    refine h.ready n ?_
    simp [transferredAt, NewRegM.transferred, NewRegM.regMOValid, hv, ha]
  · intro h
    have horder : ∀ n, trace (acceptedAt input) n =
        trace (transferredAt input) n ++ NewRegM.held (regMAt input n) := fun n =>
      trace_conservation (fun k _ => NewRegM.conserves (h k)) n le_rfl
    refine ⟨horder, fun n hn => ?_, fun n m hnm _ ha => ?_⟩
    · cases hv : (regMAt input n).valid with
      | false => simp [transferredAt, NewRegM.transferred, NewRegM.regMOValid, hv] at hn
      | true =>
        cases ha : (input n).regWIAllowin with
        | false => simp [transferredAt, NewRegM.transferred, ha] at hn
        | true => exact h n hv ha
    · have hall : trace (transferredAt input) (m + 1) = trace (acceptedAt input) m := by
        rw [horder m, trace, transferredAt, NewRegM.transferred_toList ha]
      rw [hall]
      exact trace_prefix _ hnm

end Run

/-- An instruction enters at the first edge, and memory is ready from cycle 3 on. -/
def slowLoad (n : ℕ) : NewRegMIn where
  regEOValid := n == 0
  payload := { RegM.nop with pc := 0x80000000#64 }
  memoryIReadyGo := decide (3 ≤ n)
  regWIAllowin := true

/-- The instruction is handed on in each of the cycles 1 to 3. -/
theorem handed_on_again : ¬ ∀ input : ℕ → NewRegMIn, HandsOnOnce input := by
  intro h
  have horder := congrArg List.length ((h slowLoad).order 4)
  revert horder
  decide

end Riscv64Cpu.ReadyValidMmu
