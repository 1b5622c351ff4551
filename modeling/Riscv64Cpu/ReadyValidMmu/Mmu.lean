import Riscv64Cpu.Clocked.Driven
import Riscv64Cpu.Verilog.Vector

set_option relaxedAutoImplicit false
set_option autoImplicit false

/-!
# The page table walker `mmu.v`

The registers of the walker, its wires and one clock edge.

## Main definitions

* `ReadyValidMmu.Mmu` — the registers.
* `ReadyValidMmu.In` — the inputs other than clock and reset.
* `ReadyValidMmu.Mmu.step` — one clock edge.
* `ReadyValidMmu.Mmu.Reachable` — the states after a reset edge and any further edges.

## Main results

* `ReadyValidMmu.Mmu.step_idle`, `step_accept`, `step_fetchPte`, `step_checkPte`, `step_done` — one
  clock edge, state by state.
* `ReadyValidMmu.Mmu.Reachable.inv` — the level register never leaves the three levels, and the
  walker is ready exactly when it is idle.

## Design

`read addr` is the value of `dpi_mem_read(addr, 8, 0)` in the current cycle.
-/

namespace Riscv64Cpu.ReadyValidMmu

open Verilog (bit)

/-! ## States, inputs and registers -/

/-- `STATE_IDLE`. -/
def stateIdle : BitVec 3 := 0#3

/-- `STATE_FETCH_PTE`. -/
def stateFetchPte : BitVec 3 := 1#3

/-- `STATE_CHECK_PTE`. -/
def stateCheckPte : BitVec 3 := 2#3

/-- `STATE_DONE`. -/
def stateDone : BitVec 3 := 3#3

/-- The answer to an address that has no translation. -/
def faultPa : BitVec 64 := 0xFFFFFFFFFFFFFFFF#64

/-- The inputs of the walker. -/
structure In where
  va : BitVec 64
  vaIValid : Bool
  satp : BitVec 64

/-- `satp_ppn`. -/
def satpPpn (satp : BitVec 64) : BitVec 44 := satp.extractLsb' 0 44

/-- `satp_mode`. -/
def satpMode (satp : BitVec 64) : BitVec 4 := satp.extractLsb' 60 4

/-- `translation_en`. -/
def translationEn (satp : BitVec 64) : Bool := satpMode satp == 8#4

/-- The registers of `mmu.v`. -/
structure Mmu where
  currentState : BitVec 3
  level : BitVec 2
  currentPte : BitVec 64
  vAddrReg : BitVec 64
  mmuOPaReg : BitVec 64
  mmuOValidReg : Bool
  mmuOReadyReg : Bool
deriving DecidableEq

namespace Mmu

variable (read : BitVec 64 → BitVec 64) (i : In) (s : Mmu)

/-! ## Wires -/

/-- `vpn_at_level`. -/
def vpnAtLevel : BitVec 9 :=
  if s.level == 2#2 then s.vAddrReg.extractLsb' 30 9
  else if s.level == 1#2 then s.vAddrReg.extractLsb' 21 9
  else s.vAddrReg.extractLsb' 12 9

/-- `pte_v`. -/
def pteV : Bool := bit s.currentPte 0
/-- `pte_r`. -/
def pteR : Bool := bit s.currentPte 1
/-- `pte_w`. -/
def pteW : Bool := bit s.currentPte 2
/-- `pte_x`. -/
def pteX : Bool := bit s.currentPte 3

/-- `is_leaf`. -/
def isLeaf : Bool := s.pteR || s.pteW || s.pteX

/-- `base_addr`. -/
def baseAddr : BitVec 64 :=
  if s.currentState == stateIdle then 0#8 ++ satpPpn i.satp ++ 0#12
  else 0#8 ++ s.currentPte.extractLsb' 10 44 ++ 0#12

/-- `offset`: the concatenation has 65 bits, of which the assignment keeps the low 64. -/
def offset : BitVec 64 :=
  if s.currentState == stateIdle then (0#53 ++ i.va.extractLsb' 30 9 ++ 0#3).setWidth 64
  else (0#53 ++ s.vpnAtLevel ++ 0#3).setWidth 64

/-- `next_pte_addr`. -/
def nextPteAddr : BitVec 64 := s.baseAddr i + s.offset i

/-- `mmu_o_pa`. -/
def mmuOPa : BitVec 64 := if i.vaIValid && !translationEn i.satp then i.va else s.mmuOPaReg

/-- `mmu_o_valid`. -/
def mmuOValid : Bool := if i.vaIValid && !translationEn i.satp then true else s.mmuOValidReg

/-- `mmu_o_ready`. -/
def mmuOReady : Bool := if !translationEn i.satp then true else s.mmuOReadyReg

/-! ## The clock edge -/

/-- The registers after a reset edge. -/
def reset : Mmu where
  currentState := stateIdle
  level := 2#2
  currentPte := 0#64
  vAddrReg := 0#64
  mmuOPaReg := 0#64
  mmuOValidReg := false
  mmuOReadyReg := true

/-- The physical address that a leaf at the current level gives. -/
def leafPa : BitVec 64 :=
  if s.level == 2#2 then 0#8 ++ s.currentPte.extractLsb' 28 26 ++ s.vAddrReg.extractLsb' 0 30
  else if s.level == 1#2 then 0#8 ++ s.currentPte.extractLsb' 19 35 ++ s.vAddrReg.extractLsb' 0 21
  else if s.level == 0#2 then 0#8 ++ s.currentPte.extractLsb' 10 44 ++ s.vAddrReg.extractLsb' 0 12
  else faultPa

/-- One clock edge with reset input `rst`. -/
def step (rst : Bool) : Mmu :=
  if rst then reset
  else if s.currentState == stateIdle then
    if i.vaIValid && translationEn i.satp && s.mmuOReadyReg then
      { s with
        mmuOValidReg := false
        mmuOReadyReg := false
        vAddrReg := i.va
        level := 2#2
        currentPte := read (s.nextPteAddr i)
        currentState := stateCheckPte }
    else { s with mmuOValidReg := false }
  else if s.currentState == stateFetchPte then
    { s with currentPte := read (s.nextPteAddr i), currentState := stateCheckPte }
  else if s.currentState == stateCheckPte then
    if !s.pteV || (!s.pteR && s.pteW) then
      { s with mmuOPaReg := faultPa, currentState := stateDone }
    else if s.isLeaf then { s with mmuOPaReg := s.leafPa, currentState := stateDone }
    else if s.level == 0#2 then { s with mmuOPaReg := faultPa, currentState := stateDone }
    else { s with level := s.level - 1#2, currentState := stateFetchPte }
  else if s.currentState == stateDone then
    { s with mmuOValidReg := true, mmuOReadyReg := true, currentState := stateIdle }
  else { s with currentState := stateIdle }

/-- The walker takes a virtual address in at the next edge. -/
def accepts : Bool :=
  s.currentState == stateIdle && (i.vaIValid && translationEn i.satp && s.mmuOReadyReg)

/-! ## One clock edge, state by state -/

section Step

variable {i} {s}

/-- An idle walker that takes nothing in withdraws its answer. -/
theorem step_idle (hs : s.currentState = stateIdle) (ha : s.accepts i = false) :
    s.step read i false = { s with mmuOValidReg := false } := by
  simp only [accepts, hs, beq_self_eq_true, Bool.true_and] at ha
  simp [step, hs, ha]

/-- An idle walker takes an address in together with the first entry. -/
theorem step_accept (ha : s.accepts i = true) :
    s.step read i false =
      { s with
        mmuOValidReg := false
        mmuOReadyReg := false
        vAddrReg := i.va
        level := 2#2
        currentPte := read (s.nextPteAddr i)
        currentState := stateCheckPte } := by
  simp only [accepts, Bool.and_eq_true] at ha
  simp [step, ha]

/-- The edge that reads an entry. -/
theorem step_fetchPte (hs : s.currentState = stateFetchPte) :
    s.step read i false =
      { s with currentPte := read (s.nextPteAddr i), currentState := stateCheckPte } := by
  simp [step, hs, stateFetchPte, stateIdle]

/-- The edge that looks at an entry: a fault, a leaf or the next table. -/
theorem step_checkPte (hs : s.currentState = stateCheckPte) :
    s.step read i false =
      if !s.pteV || (!s.pteR && s.pteW) then
        { s with mmuOPaReg := faultPa, currentState := stateDone }
      else if s.isLeaf then { s with mmuOPaReg := s.leafPa, currentState := stateDone }
      else if s.level == 0#2 then { s with mmuOPaReg := faultPa, currentState := stateDone }
      else { s with level := s.level - 1#2, currentState := stateFetchPte } := by
  simp [step, hs, stateCheckPte, stateFetchPte, stateIdle]

/-- The edge that answers. -/
theorem step_done (hs : s.currentState = stateDone) :
    s.step read i false =
      { s with mmuOValidReg := true, mmuOReadyReg := true, currentState := stateIdle } := by
  simp [step, hs, stateDone, stateCheckPte, stateFetchPte, stateIdle]

end Step

/-! ## Reachable states -/

/-- The states after a reset edge and any further clock edges, with all inputs and the memory free
at each of them. -/
def Reachable : Mmu → Prop :=
  Clocked.Reachable (fun (x : Bool × (BitVec 64 → BitVec 64) × In) s => s.step x.2.1 x.2.2 x.1)
    (· = reset)

/-- The invariant of the walker. -/
structure Inv (s : Mmu) : Prop where
  /-- The state register holds one of the four states. -/
  state : s.currentState = stateIdle ∨ s.currentState = stateFetchPte ∨
    s.currentState = stateCheckPte ∨ s.currentState = stateDone
  /-- The level register holds one of the three levels. -/
  level : s.level = 0#2 ∨ s.level = 1#2 ∨ s.level = 2#2
  /-- The walker is ready exactly when it is idle. -/
  ready : s.mmuOReadyReg = true ↔ s.currentState = stateIdle

/-- The invariant holds after reset. -/
lemma Inv.reset : Inv reset := ⟨.inl rfl, .inr (.inr rfl), by decide⟩

/-- A clock edge preserves the invariant. -/
lemma Inv.step {s : Mmu} (h : Inv s) (rst : Bool) : Inv (s.step read i rst) := by
  cases rst with
  | true => exact Inv.reset
  | false =>
    rcases h.state with hs | hs | hs | hs
    · cases ha : s.accepts i with
      | false =>
        rw [step_idle read hs ha]
        exact ⟨h.state, h.level, h.ready⟩
      | true =>
        rw [step_accept read ha]
        exact ⟨.inr (.inr (.inl rfl)), .inr (.inr rfl), by simp [stateCheckPte, stateIdle]⟩
    · have hr : s.mmuOReadyReg = false := by simpa [hs, stateFetchPte, stateIdle] using h.ready
      rw [step_fetchPte read hs]
      exact ⟨.inr (.inr (.inl rfl)), h.level, by simp [hr, stateCheckPte, stateIdle]⟩
    · have hr : s.mmuOReadyReg = false := by simpa [hs, stateCheckPte, stateIdle] using h.ready
      have hdone : ∀ pa, Inv { s with mmuOPaReg := pa, currentState := stateDone } := fun pa =>
        ⟨.inr (.inr (.inr rfl)), h.level, by simp [hr, stateDone, stateIdle]⟩
      rw [step_checkPte read hs]
      split_ifs with _ _ hl
      · exact hdone _
      · exact hdone _
      · exact hdone _
      · refine ⟨.inr (.inl rfl), ?_, by simp [hr, stateFetchPte, stateIdle]⟩
        rcases h.level with h0 | h1 | h2
        · simp [h0] at hl
        · exact .inl (by rw [h1]; rfl)
        · exact .inr (.inl (by rw [h2]; rfl))
    · rw [step_done read hs]
      exact ⟨.inl rfl, h.level, by simp⟩

/-- The invariant holds in every reachable state. -/
theorem Reachable.inv {s : Mmu} (h : Reachable s) : Inv s :=
  Clocked.Reachable.invariant (fun _ hs => hs ▸ Inv.reset)
    (fun x _ _ hs => hs.step x.2.1 x.2.2 x.1) h

end Mmu

end Riscv64Cpu.ReadyValidMmu
