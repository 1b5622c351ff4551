import Riscv64Cpu.Clocked.Run

set_option relaxedAutoImplicit false
set_option autoImplicit false

/-!
# Machines driven by a stream of inputs

A clocked machine whose environment is not part of the state: cycle `n` shows the machine the
input `input n`.  A stage of a pipeline takes payloads in at some edges and hands payloads on at
some; it loses and repeats nothing exactly if what it has taken in is what it has handed on
followed by what it holds.

## Main definitions

* `Clocked.driven` — the state after `n` edges under a stream of inputs.

## Main results

* `Clocked.driven_add` — a run goes on as a run of the later inputs.
* `Clocked.driven_induction` — the invariant rule for one stream of inputs.
* `Clocked.trace_conservation` — the conservation rule.
-/

namespace Clocked

variable {I S O : Type*}

/-! ## Runs under a stream of inputs -/

section Driven

variable (step : I → S → S) (input : ℕ → I) (s : S)

/-- The state after `n` edges from `s`, when edge `i` samples `input i`. -/
def driven : ℕ → S
  | 0 => s
  | n + 1 => step (input n) (driven n)

/-- No edge leaves the state as it is. -/
@[simp] lemma driven_zero : driven step input s 0 = s := rfl

/-- The last edge takes the last input. -/
lemma driven_succ (n : ℕ) :
    driven step input s (n + 1) = step (input n) (driven step input s n) := rfl

/-- After `m` edges the run goes on from there, under the inputs from cycle `m` on. -/
theorem driven_add (m n : ℕ) : driven step input s (m + n) =
    driven step (fun i => input (m + i)) (driven step input s m) n := by
  induction n with
  | zero => rfl
  | succ n ih => rw [driven_succ, ← ih, ← Nat.add_assoc, driven_succ]

variable {step} {input} {s}

/-- **The invariant rule for one stream**: what holds at the start and is kept by every edge
holds in every cycle. -/
theorem driven_induction {P : ℕ → S → Prop} (h0 : P 0 s)
    (hstep : ∀ n t, P n t → P (n + 1) (step (input n) t)) (n : ℕ) :
    P n (driven step input s n) := by
  induction n with
  | zero => exact h0
  | succ n ih => exact hstep n _ ih

end Driven

/-! ## Conservation -/

/-- **The conservation rule**: a stage holds `held n` at cycle `n`, and edge `n` takes `taken n`
in and hands `given n` on.  If every edge keeps the order and the number of payloads, then so
does every run.

**Proof sketch.** Induction on the number of edges; the last edge moves at most one payload from
what is held to what has been handed on. -/
theorem trace_conservation {held : ℕ → List O} {taken given : ℕ → Option O} {N : ℕ}
    (h : ∀ n < N, held n ++ (taken n).toList = (given n).toList ++ held (n + 1)) :
    ∀ n ≤ N, held 0 ++ trace taken n = trace given n ++ held n := by
  intro n hn
  induction n with
  | zero => simp [trace]
  | succ n ih =>
    calc held 0 ++ (trace taken n ++ (taken n).toList)
        = trace given n ++ (held n ++ (taken n).toList) := by
          rw [← List.append_assoc, ih (by omega), List.append_assoc]
      _ = trace given n ++ (given n).toList ++ held (n + 1) := by
          rw [h n hn, List.append_assoc]

/-- The trace of a shorter run is a prefix of that of a longer one. -/
lemma trace_prefix (obs : ℕ → Option O) {m n : ℕ} (h : m ≤ n) :
    trace obs m <+: trace obs n := by
  induction n with
  | zero =>
    obtain rfl : m = 0 := by omega
    exact List.prefix_rfl
  | succ n ih =>
    rcases Nat.lt_or_eq_of_le h with hlt | rfl
    · exact (ih (by omega)).trans (List.prefix_append _ _)
    · exact List.prefix_rfl

end Clocked
