import Riscv64Cpu.Collections.RingBuffer

set_option relaxedAutoImplicit false
set_option autoImplicit false

/-!
# The trace of the latest instructions

`instr_itrace` of `instr_trace.c` keeps the latest instructions in a pool, and
`instr_itrace_display` prints them when the simulation ends.

## Main definitions

* `Simulator.Itrace` — the pool, the place of the next write and the flag for a full pool.
* `Simulator.instrItrace`, `instrItraceDisplay` — the two functions.
* `Simulator.marked` — a list of instructions with a mark on the last one.

## Main results

* `Simulator.ring_instrItrace` — the pool is a ring buffer.
* `Simulator.instrItraceDisplay_eq` — what is printed after any sequence of calls.

## Design

The disassembler is a library, a parameter here.  Colours and the fixed words of the lines are
left out.
-/

namespace Riscv64Cpu.Simulator

/-! ## The pool -/

/-- `ITRACE_POOL_SIZE`. -/
def itracePoolSize : ℕ := 30

/-- `TraceEntry`. -/
structure TraceEntry where
  pc : BitVec 64
  instr : BitVec 32
deriving DecidableEq

/-- The static variables of the trace. -/
structure Itrace where
  itracePool : ℕ → TraceEntry
  itracePtr : ℕ
  poolFull : Bool
  itracePtr_lt : itracePtr < itracePoolSize

/-- The variables when the simulator starts. -/
def Itrace.initial : Itrace where
  itracePool := fun _ => ⟨0#64, 0#32⟩
  itracePtr := 0
  poolFull := false
  itracePtr_lt := by decide

/-- `instr_itrace`. -/
def instrItrace (s : Itrace) (e : TraceEntry) : Itrace where
  itracePool := Function.update s.itracePool s.itracePtr e
  itracePtr := (s.itracePtr + 1) % itracePoolSize
  poolFull := if (s.itracePtr + 1) % itracePoolSize = 0 then true else s.poolFull
  itracePtr_lt := Nat.mod_lt _ (by decide)

/-! ## The display -/

/-- A printed line. -/
inductive Line
  | header (total : ℕ) (simInstrCount : BitVec 64)
  | entry (currentFlag : Char) (pc : BitVec 64) (instr : BitVec 32) (instStr : String)
  | noInstructions
  | endOfTrace
deriving DecidableEq

section Display

variable (disassemble : BitVec 64 → BitVec 32 → String)

/-- The line of the entry in slot `i`. -/
def entryLine (s : Itrace) (i : ℕ) : Line :=
  let e := s.itracePool i
  let lastIdx := (s.itracePtr + itracePoolSize - 1) % itracePoolSize
  .entry (if i = lastIdx then '>' else ' ') e.pc e.instr (disassemble e.pc e.instr)

/-- The loop of `instr_itrace_display`, with `count` rounds to go. -/
def displayLoop (s : Itrace) : ℕ → ℕ → List Line
  | 0, _ => []
  | count + 1, i =>
    entryLine disassemble s i :: displayLoop s count ((i + 1) % itracePoolSize)

/-- `instr_itrace_display`. -/
def instrItraceDisplay (s : Itrace) (simInstrCount : BitVec 64) : List Line :=
  let total := if s.poolFull then itracePoolSize else s.itracePtr
  .header total simInstrCount ::
    displayLoop disassemble s total (if s.poolFull then s.itracePtr else 0) ++
    (if total = 0 then [.noInstructions] else []) ++ [.endOfTrace]

/-- The lines of a list of instructions, with `>` on the last one and on no other. -/
def marked (es : List TraceEntry) : List Line :=
  es.mapIdx fun c e =>
    .entry (if c + 1 = es.length then '>' else ' ') e.pc e.instr (disassemble e.pc e.instr)

/-! ## The pool as a ring buffer -/

/-- The pool as a ring buffer. -/
def Itrace.ring (s : Itrace) : RingBuffer TraceEntry itracePoolSize where
  slots := s.itracePool
  ptr := s.itracePtr
  full := s.poolFull
  ptr_lt := s.itracePtr_lt

/-- **A call is a push.** -/
theorem ring_instrItrace (s : Itrace) (e : TraceEntry) :
    (instrItrace s e).ring = s.ring.push e := by
  have hfull : (if (s.itracePtr + 1) % itracePoolSize = 0 then true else s.poolFull) =
      (s.poolFull || (s.itracePtr + 1) % itracePoolSize == 0) := by
    by_cases h : (s.itracePtr + 1) % itracePoolSize = 0
    · simp [h]
    · simp [h]
  simp only [Itrace.ring, instrItrace, RingBuffer.push, hfull]

/-- The pool remembers all calls as a ring buffer does. -/
private lemma records_foldl (es : List TraceEntry) :
    (es.foldl instrItrace Itrace.initial).ring.Records es := by
  induction es using List.reverseRecOn with
  | nil => exact RingBuffer.records_nil rfl rfl
  | append_singleton es e ih =>
    rw [List.foldl_append, List.foldl_cons, List.foldl_nil, ring_instrItrace]
    exact ih.push e

/-- The loop visits consecutive slots. -/
private lemma displayLoop_eq (s : Itrace) (count : ℕ) : ∀ i < itracePoolSize,
    displayLoop disassemble s count i =
      (List.range count).map fun c => entryLine disassemble s ((i + c) % itracePoolSize) := by
  induction count with
  | zero => intro i _; rfl
  | succ count ih =>
    intro i hi
    rw [displayLoop, ih _ (Nat.mod_lt _ (by decide)), List.range_succ_eq_map, List.map_cons,
      List.map_map, Nat.add_zero i, Nat.mod_eq_of_lt hi]
    refine congrArg _ (List.map_congr_left fun c _ => ?_)
    rw [Function.comp_apply, Nat.mod_add_mod, Nat.succ_eq_add_one, Nat.add_assoc, Nat.add_comm 1 c]

/-- **The trace shows the most recent instructions in order**: after any sequence of calls the
last ones, at most `ITRACE_POOL_SIZE` of them, with the mark on the last call only.

**Proof sketch.** The pool is a ring buffer with the calls in it; the loop starts at its oldest
slot and visits as many as it remembers, and `RingBuffer.Records.index_eq_newest_iff` says at
which of them the slot is the one before the next write. -/
theorem instrItraceDisplay_eq (es : List TraceEntry) (simInstrCount : BitVec 64) :
    instrItraceDisplay disassemble (es.foldl instrItrace Itrace.initial) simInstrCount =
      .header (min es.length itracePoolSize) simInstrCount ::
        marked disassemble (es.drop (es.length - itracePoolSize)) ++
        (if es = [] then [.noInstructions] else []) ++ [.endOfTrace] ∧
      (marked disassemble (es.drop (es.length - itracePoolSize))).length =
        min es.length itracePoolSize := by
  have h := records_foldl es
  generalize es.foldl instrItrace Itrace.initial = s at h
  have hsize : (if s.poolFull then itracePoolSize else s.itracePtr) =
      min es.length itracePoolSize := h.size_eq
  have hlen : (es.drop (es.length - itracePoolSize)).length = min es.length itracePoolSize := by
    rw [List.length_drop]
    omega
  have hstart : s.ring.oldest < itracePoolSize := by
    unfold RingBuffer.oldest
    split_ifs
    · exact s.itracePtr_lt
    · decide
  have hloop : displayLoop disassemble s (min es.length itracePoolSize) s.ring.oldest =
      marked disassemble (es.drop (es.length - itracePoolSize)) := by
    rw [displayLoop_eq disassemble s _ _ hstart]
    refine List.ext_getElem (by simp [marked, hlen]) fun c hc _ => ?_
    rw [List.length_map, List.length_range] at hc
    have hslot : s.itracePool ((s.ring.oldest + c) % itracePoolSize) = _ :=
      h.slot_eq (hlen ▸ hc)
    have hmark : (s.ring.oldest + c) % itracePoolSize =
        (s.itracePtr + itracePoolSize - 1) % itracePoolSize ↔ c + 1 = s.ring.size :=
      h.index_eq_newest_iff (by rwa [h.size_eq])
    simp only [List.getElem_map, List.getElem_range, marked, List.getElem_mapIdx, entryLine, hslot,
      hmark, h.size_eq, hlen]
  refine ⟨?_, by rw [marked, List.length_mapIdx, hlen]⟩
  have hempty : (min es.length itracePoolSize = 0) ↔ es = [] := by
    rw [← List.length_eq_zero_iff]
    have : 0 < itracePoolSize := by decide
    omega
  simp only [instrItraceDisplay, hsize, hempty]
  exact congrArg (fun l => _ :: l ++ _ ++ _) hloop

end Display

end Riscv64Cpu.Simulator
