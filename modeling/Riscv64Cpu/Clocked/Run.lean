import Mathlib.Logic.Function.Iterate
import Mathlib.Data.List.Basic
import Mathlib.Data.Nat.Find

set_option relaxedAutoImplicit false
set_option autoImplicit false

/-!
# Runs of clocked machines

A clocked machine is a function `step : I → S → S`: one clock edge takes the register
contents and the sampled inputs to the next register contents.  This file has the rules that
turn a fact about one edge into a fact about every run: the invariant rule for reachable
states, the lockstep rule for two machines driven by the same clock, the retirement rule for
a machine that emits the steps of another one late, and the rank rule for bounded response.

## Main definitions

* `Clocked.Reachable` — the states of the runs from a set of initial states under arbitrary
  inputs.
* `Clocked.trace` — the events emitted during the first `n` edges, in order.
* `Clocked.Within` — a property holds now or after at most `n` further edges.
* `Clocked.loopUntil` — a loop that runs the machine until a signal is up.

## Main results

* `Clocked.Reachable.invariant` — the invariant rule.
* `Clocked.lockstep` — two machines related now and over every edge are related always.
* `Clocked.trace_eq_map_of_retire` — the retirement rule.
* `Clocked.within_of_rank` — the rank rule.
* `Clocked.Within.next`, `bind`, `loop` — stretches of a run one after another, and in rounds.
* `Clocked.loopUntil_of_within` — a loop on a signal that comes in time ends.
-/

namespace Clocked

variable {I S A B O : Type*}

/-! ## Reachable states -/

/-- The states reachable from `init` under arbitrary inputs. -/
inductive Reachable (step : I → S → S) (init : S → Prop) : S → Prop
  | init {s : S} : init s → Reachable step init s
  | step {s : S} (i : I) : Reachable step init s → Reachable step init (step i s)

/-- **The invariant rule**: what holds initially and over every edge from a reachable state
holds in every reachable state. -/
theorem Reachable.invariant {step : I → S → S} {init P : S → Prop}
    (hinit : ∀ s, init s → P s)
    (hstep : ∀ i s, Reachable step init s → P s → P (step i s)) {s : S}
    (h : Reachable step init s) : P s := by
  induction h with
  | init h => exact hinit _ h
  | step i hs ih => exact hstep i _ hs ih

/-- A reachable state stays reachable while the input is held at `i`. -/
lemma Reachable.iterate {step : I → S → S} {init : S → Prop} (i : I) {s : S}
    (h : Reachable step init s) : ∀ n, Reachable step init ((step i)^[n] s)
  | 0 => h
  | n + 1 => by
    rw [Function.iterate_succ_apply']
    exact (Reachable.iterate i h n).step i

/-! ## Two machines on one clock -/

/-- **The lockstep rule**: a relation that holds at the start and is carried over each of the
first `N` edges holds until then.  The edge hypothesis may use the time, so that an assumption
about the run can be applied to it. -/
theorem lockstep {R : A → B → Prop} {f : A → A} {g : B → B} {a : A} {b : B} {N : ℕ} (h0 : R a b)
    (hstep : ∀ n < N, R (f^[n] a) (g^[n] b) → R (f (f^[n] a)) (g (g^[n] b))) :
    ∀ n ≤ N, R (f^[n] a) (g^[n] b) := by
  intro n hn
  induction n with
  | zero => exact h0
  | succ n ih =>
    rw [Function.iterate_succ_apply', Function.iterate_succ_apply']
    exact hstep n hn (ih (Nat.le_of_lt hn))

/-! ## Emitted events -/

/-- The events emitted during the first `n` edges, oldest first, when edge `i` emits
`obs i`. -/
def trace (obs : ℕ → Option O) : ℕ → List O
  | 0 => []
  | n + 1 => trace obs n ++ (obs n).toList

/-- An edge that emits nothing leaves the trace as it is. -/
lemma trace_succ_none {obs : ℕ → Option O} {n : ℕ} (h : obs n = none) :
    trace obs (n + 1) = trace obs n := by simp [trace, h]

/-- An edge that emits `o` appends it. -/
lemma trace_succ_some {obs : ℕ → Option O} {n : ℕ} {o : O} (h : obs n = some o) :
    trace obs (n + 1) = trace obs n ++ [o] := by simp [trace, h]

/-- The trace depends on the events of its edges. -/
lemma trace_congr {obs obs' : ℕ → Option O} {n : ℕ} (h : ∀ i < n, obs i = obs' i) :
    trace obs n = trace obs' n := by
  induction n with
  | zero => rfl
  | succ n ih =>
    show trace obs n ++ (obs n).toList = trace obs' n ++ (obs' n).toList
    rw [ih fun i hi => h i (by omega), h n (by omega)]

/-- A machine that emits nothing at first and then what the other one emits, an edge later, has
the same trace an edge later. -/
lemma trace_delay {obs obs' : ℕ → Option O} (h0 : obs 0 = none) :
    ∀ {n : ℕ}, (∀ i < n, obs (i + 1) = obs' i) → trace obs (n + 1) = trace obs' n
  | 0, _ => trace_succ_none h0
  | n + 1, h => by
    have ih : trace obs (n + 1) = trace obs' n := trace_delay h0 fun i hi => h i (by omega)
    show trace obs (n + 1) ++ (obs (n + 1)).toList = trace obs' n ++ (obs' n).toList
    rw [ih, h n (by omega)]

/-- The trace of the images of events is the image of the trace. -/
lemma trace_map {O' : Type*} (g : O → O') (obs : ℕ → Option O) (n : ℕ) :
    trace (fun i => (obs i).map g) n = (trace obs n).map g := by
  induction n with
  | zero => rfl
  | succ n ih =>
    show trace (fun i => (obs i).map g) n ++ ((obs n).map g).toList =
      (trace obs n ++ (obs n).toList).map g
    rw [ih, List.map_append]
    cases obs n <;> rfl

/-- **The retirement rule**: let `Sim n k` say that after `n` edges the machine has retired
the first `k` steps of a reference run whose step `k` emits `ref k`.  If an edge without an
event keeps `k` and an edge with an event emits `ref k` and moves to `k + 1`, then after `n`
edges the trace is the first `k` reference events, `k` being its length.

**Proof sketch.** Induction on `n`, by cases on whether edge `n` emits. -/
theorem trace_eq_map_of_retire {obs : ℕ → Option O} {ref : ℕ → O} {Sim : ℕ → ℕ → Prop}
    (h0 : Sim 0 0) (hnone : ∀ n k, Sim n k → obs n = none → Sim (n + 1) k)
    (hsome : ∀ n k o, Sim n k → obs n = some o → o = ref k ∧ Sim (n + 1) (k + 1)) :
    ∀ n, Sim n (trace obs n).length ∧
      trace obs n = (List.range (trace obs n).length).map ref := by
  intro n
  induction n with
  | zero => exact ⟨h0, rfl⟩
  | succ n ih =>
    obtain ⟨hsim, htr⟩ := ih
    cases ho : obs n with
    | none =>
      rw [trace_succ_none ho]
      exact ⟨hnone n _ hsim ho, htr⟩
    | some o =>
      obtain ⟨rfl, hsim'⟩ := hsome n _ o hsim ho
      rw [trace_succ_some ho, List.length_append, List.length_singleton]
      refine ⟨hsim', ?_⟩
      rw [List.range_succ, List.map_append, ← htr, List.map_singleton]

/-! ## Bounded response -/

/-- `P` holds at `s` or after at most `n` further edges. -/
def Within (f : S → S) (P : S → Prop) (n : ℕ) (s : S) : Prop := ∃ i ≤ n, P (f^[i] s)

/-- **The rank rule**: if every edge from an invariant state outside `P` lowers a rank, `P`
is reached within rank-many edges.

**Proof sketch.** Strong induction on the rank: either `P` holds now, or the next state has a
smaller rank and reaches `P` within one edge less. -/
theorem within_of_rank {f : S → S} {P Inv : S → Prop} (rank : S → ℕ)
    (hinv : ∀ s, Inv s → Inv (f s)) (hlt : ∀ s, Inv s → ¬ P s → rank (f s) < rank s) :
    ∀ s, Inv s → Within f P (rank s) s := by
  intro s
  induction hr : rank s using Nat.strongRecOn generalizing s with
  | _ r ih =>
    intro hs
    by_cases hP : P s
    · exact ⟨0, Nat.zero_le _, hP⟩
    · have hl := hlt s hs hP
      obtain ⟨i, hi, hPi⟩ := ih (rank (f s)) (by omega) (f s) rfl (hinv s hs)
      exact ⟨i + 1, by omega, by rwa [Function.iterate_succ_apply]⟩

/-- A longer deadline is met too. -/
lemma Within.mono {f : S → S} {P : S → Prop} {m n : ℕ} {s : S} (h : Within f P m s)
    (hmn : m ≤ n) : Within f P n s := by
  obtain ⟨i, hi, hP⟩ := h
  exact ⟨i, Nat.le_trans hi hmn, hP⟩

/-- What holds now holds within any number of edges. -/
lemma Within.now {f : S → S} {P : S → Prop} {n : ℕ} {s : S} (h : P s) : Within f P n s :=
  ⟨0, Nat.zero_le n, h⟩

/-- **One edge.** -/
theorem Within.next {f : S → S} {P : S → Prop} {n : ℕ} {s : S} (h : Within f P n (f s)) :
    Within f P (n + 1) s := by
  obtain ⟨i, hi, hP⟩ := h
  exact ⟨i + 1, by omega, by rwa [Function.iterate_succ_apply]⟩

/-- **One stretch after another.** -/
theorem Within.bind {f : S → S} {P Q : S → Prop} {m n : ℕ} {s : S} (h : Within f P m s)
    (hPQ : ∀ t, P t → Within f Q n t) : Within f Q (m + n) s := by
  obtain ⟨i, hi, hP⟩ := h
  obtain ⟨j, hj, hQ⟩ := hPQ _ hP
  refine ⟨j + i, by omega, ?_⟩
  rwa [Function.iterate_add_apply]

/-- What is reached may be weakened. -/
lemma Within.imp {f : S → S} {P Q : S → Prop} {n : ℕ} {s : S} (h : Within f P n s)
    (hPQ : ∀ t, P t → Q t) : Within f Q n s := by
  obtain ⟨i, hi, hP⟩ := h
  exact ⟨i, hi, hPQ _ hP⟩

/-- **The loop rule**: if every round of at most `c` edges from an invariant state reaches `Q` or
an invariant state with a smaller variant, `Q` is reached within `c` edges a round.

**Proof sketch.** Strong induction on the variant. -/
theorem Within.loop {f : S → S} {Q : S → Prop} {Inv : ℕ → S → Prop} {c : ℕ}
    (hround : ∀ n s, Inv n s → Within f (fun t => Q t ∨ ∃ m < n, Inv m t) c s) :
    ∀ n s, Inv n s → Within f Q ((n + 1) * c) s := by
  intro n
  induction n using Nat.strongRecOn with
  | ind n ih =>
    intro s hs
    obtain ⟨i, hi, hQ | ⟨m, hm, hInv⟩⟩ := hround n s hs
    · refine ⟨i, ?_, hQ⟩
      calc i ≤ 1 * c := by omega
        _ ≤ (n + 1) * c := Nat.mul_le_mul_right c (by omega)
    · obtain ⟨j, hj, hQ⟩ := ih m hm _ hInv
      refine ⟨j + i, ?_, by rwa [Function.iterate_add_apply]⟩
      calc j + i ≤ (m + 1) * c + c := Nat.add_le_add hj hi
        _ = (m + 2) * c := by rw [← Nat.succ_mul]
        _ ≤ (n + 1) * c := Nat.mul_le_mul_right c (by omega)

/-- What holds within `n` edges holds for a first time within `n` edges. -/
lemma Within.first {f : S → S} {P : S → Prop} {n : ℕ} {s : S} (h : Within f P n s) :
    ∃ i ≤ n, P (f^[i] s) ∧ ∀ k < i, ¬ P (f^[k] s) := by
  classical
  obtain ⟨i, hi, hP⟩ := h
  have hex : ∃ i, P (f^[i] s) := ⟨i, hP⟩
  exact ⟨Nat.find hex, Nat.le_trans (Nat.find_min' hex hP) hi, Nat.find_spec hex,
    fun k hk => Nat.find_min hex hk⟩

/-- The loop `while (!stop) next`, stopped after `n` rounds: `none` when `stop` does not hold
by then. -/
def loopUntil (stop : S → Bool) (next : S → S) : ℕ → S → Option S
  | 0, s => if stop s then some s else none
  | n + 1, s => if stop s then some s else loopUntil stop next n (next s)

/-- The loop gives the first state in which `stop` holds. -/
lemma loopUntil_eq_some {stop : S → Bool} {next : S → S} {i m : ℕ} {s : S} (him : i ≤ m)
    (hbefore : ∀ k < i, stop (next^[k] s) = false) (hs : stop (next^[i] s) = true) :
    loopUntil stop next m s = some (next^[i] s) := by
  induction i generalizing m s with
  | zero =>
    have hstop : stop s = true := hs
    cases m <;> simp [loopUntil, hstop]
  | succ i ih =>
    obtain ⟨m, rfl⟩ : ∃ k, m = k + 1 := ⟨m - 1, by omega⟩
    have hstop : stop s = false := hbefore 0 (Nat.succ_pos i)
    rw [loopUntil, if_neg (by simp [hstop]), Function.iterate_succ_apply]
    refine ih (by omega) (fun k hk => ?_) (by rwa [Function.iterate_succ_apply] at hs)
    have hb := hbefore (k + 1) (by omega)
    rwa [Function.iterate_succ_apply] at hb

/-- The loop visits states of the run only. -/
lemma exists_iterate_of_loopUntil {stop : S → Bool} {next : S → S} {m : ℕ} {s t : S}
    (h : loopUntil stop next m s = some t) : ∃ i, t = next^[i] s := by
  induction m generalizing s with
  | zero =>
    rw [loopUntil] at h
    split_ifs at h
    exact ⟨0, (Option.some.inj h).symm⟩
  | succ m ih =>
    rw [loopUntil] at h
    split_ifs at h
    · exact ⟨0, (Option.some.inj h).symm⟩
    · obtain ⟨i, hi⟩ := ih h
      exact ⟨i + 1, hi⟩

/-- A loop whose condition and body look at a part of the state, seen on that part. -/
lemma loopUntil_map {T : Type*} {stop : S → Bool} {next : S → S} {stop' : T → Bool}
    {next' : T → T} {p : S → T} (hstop : ∀ s, stop s = stop' (p s))
    (hnext : ∀ s, p (next s) = next' (p s)) (m : ℕ) (s : S) :
    (loopUntil stop next m s).map p = loopUntil stop' next' m (p s) := by
  induction m generalizing s with
  | zero =>
    rw [loopUntil, loopUntil, ← hstop]
    split_ifs <;> rfl
  | succ m ih =>
    rw [loopUntil, loopUntil, ← hstop, ← hnext, ← ih]
    split_ifs <;> rfl

/-- **The loop ends**: when `stop` holds within `n` rounds, every allowance from `n` on gives
the same final state.

**Proof sketch.** Induction on the round at which `stop` holds, along the allowance. -/
theorem loopUntil_of_within {stop : S → Bool} {next : S → S} {n : ℕ} {s : S}
    (h : Within next (fun t => stop t = true) n s) :
    ∃ t, stop t = true ∧ ∀ m, n ≤ m → loopUntil stop next m s = some t := by
  obtain ⟨i, hi, hs⟩ := h
  induction i generalizing n s with
  | zero =>
    have hstop : stop s = true := hs
    refine ⟨s, hstop, fun m _ => ?_⟩
    cases m <;> simp [loopUntil, hstop]
  | succ i ih =>
    by_cases hstop : stop s = true
    · refine ⟨s, hstop, fun m _ => ?_⟩
      cases m <;> simp [loopUntil, hstop]
    · obtain ⟨t, ht, hm⟩ := ih (n := n - 1) (s := next s) (by omega)
        (by rwa [Function.iterate_succ_apply] at hs)
      refine ⟨t, ht, fun m hnm => ?_⟩
      obtain ⟨m, rfl⟩ : ∃ k, m = k + 1 := ⟨m - 1, by omega⟩
      rw [loopUntil, if_neg hstop]
      exact hm m (by omega)

end Clocked
