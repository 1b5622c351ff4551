import Riscv64Cpu.ReadyValidMmu.NewFetch

set_option relaxedAutoImplicit false
set_option autoImplicit false

/-!
# The program counter of the mmu variant

`mmu_pc.v` updates the pc only in a cycle in which fetch has its instruction, nothing stalls it and
decode lets the instruction in.  A redirect is a pulse of one cycle and is not kept: one that comes
in a cycle without an update is followed only by chance.

## Main definitions

* `ReadyValidMmu.PcIn`, `NewPc` — inputs and registers of `new_pc`.
* `ReadyValidMmu.NewPc.step` — one clock edge.
* `ReadyValidMmu.pcAt` — the registers in a run from reset.
* `ReadyValidMmu.RedirectKept` — no redirect is forgotten.

## Main results

* `ReadyValidMmu.pcHeld_of_newPc` — the pc is held until its instruction is handed on.
* `ReadyValidMmu.redirectKept_iff` — when no redirect is forgotten.

## Design

`regF_bubble` is an input that the module does not look at.
-/

namespace Riscv64Cpu.ReadyValidMmu

open Pipeline (Dpi)

/-! ## The module -/

/-- The inputs of `new_pc`. -/
structure PcIn where
  regFStall : Bool
  branchNeedJump : Bool
  branchNextPc : BitVec 64
  mretNeedJump : Bool
  mretNextPc : BitVec 64
  fetchNextPc : BitVec 64
  fetchReadyGo : Bool
  regDAllowin : Bool

namespace PcIn

variable (i : PcIn)

/-- `pc_ready_go`. -/
def pcReadyGo : Bool := !i.regFStall && i.fetchReadyGo

/-- A redirect is asserted. -/
def redirect : Bool := i.mretNeedJump || i.branchNeedJump

/-- The target of the redirect. -/
def target : BitVec 64 := if i.mretNeedJump then i.mretNextPc else i.branchNextPc

/-- What the pc takes. -/
def nextPc : BitVec 64 :=
  if i.mretNeedJump then i.mretNextPc
  else if i.branchNeedJump then i.branchNextPc
  else i.fetchNextPc

/-- A redirect gives its target. -/
lemma nextPc_of_redirect (h : i.redirect = true) : i.nextPc = i.target := by
  unfold nextPc target
  split_ifs with hm hb
  · rfl
  · rfl
  · simp [redirect, hm, hb] at h

/-- Without a redirect the pc is the one behind the fetched word. -/
lemma nextPc_of_not_redirect (h : i.redirect = false) : i.nextPc = i.fetchNextPc := by
  simp only [redirect, Bool.or_eq_false_iff] at h
  simp [nextPc, h]

/-- Fetch, the stall or decode keeps a valid pc from moving on. -/
def busy : Bool := !(i.pcReadyGo && i.regDAllowin)

end PcIn

/-- The registers of `new_pc`. -/
structure NewPc where
  pcValid : Bool
  pc : BitVec 64

namespace NewPc

/-- The registers after a reset edge. -/
def reset : NewPc where
  pcValid := false
  pc := 0x80000000#64

/-- `pc_o_allowin`. -/
def pcOAllowin (i : PcIn) (s : NewPc) : Bool := !s.pcValid || (i.pcReadyGo && i.regDAllowin)

/-- `pc_o_valid`. -/
def pcOValid (s : NewPc) : Bool := s.pcValid

/-- One clock edge with reset input `rst`. -/
def step (rst : Bool) (i : PcIn) (s : NewPc) : NewPc :=
  if rst then reset
  else if s.pcOAllowin i then
    { pcValid := true
      pc := if s.pcValid then i.nextPc else s.pc }
  else s

/-- Without the fetched instruction the pc stays as it is. -/
lemma step_pc_of_not_fetchReadyGo {i : PcIn} (h : i.fetchReadyGo = false) (s : NewPc) :
    (s.step false i).pc = s.pc := by
  cases hv : s.pcValid <;> simp [step, pcOAllowin, PcIn.pcReadyGo, h, hv]

end NewPc

/-- The registers of `new_pc` in cycle `n` of a run from reset. -/
def pcAt (input : ℕ → PcIn) (n : ℕ) : NewPc :=
  Clocked.driven (fun i s => s.step false i) input NewPc.reset n

/-- **The pc is held until its instruction is handed on**, when `new_pc` and `new_fetch` are
connected. -/
theorem pcHeld_of_newPc {M : Type} (dpi : Dpi M) (mem : M) (satp : BitVec 64) (input : ℕ → PcIn)
    (hgo : ∀ n, (input n).fetchReadyGo = readyGoAt dpi mem
      (fun j => ⟨(pcAt input j).pc, (pcAt input j).pcOValid, satp⟩) n) :
    PcHeld dpi mem fun j => ⟨(pcAt input j).pc, (pcAt input j).pcOValid, satp⟩ :=
  fun n hn => NewPc.step_pc_of_not_fetchReadyGo ((hgo n).trans hn) (pcAt input n)

/-! ## Redirects -/

section Run

variable (input : ℕ → PcIn)

/-- Redirects are asserted for single cycles. -/
def Pulses : Prop := ∀ n, (input n).redirect = true → (input (n + 1)).redirect = false

/-- The next value that the pc takes after a redirect in a cycle with a valid pc is the target of
that redirect or of a later one. -/
def RedirectKept : Prop :=
  ∀ n m, n ≤ m → (pcAt input n).pcValid = true → (input n).redirect = true →
    (∀ k, n ≤ k → k < m → (pcAt input k).pcOAllowin (input k) = false) →
    (pcAt input m).pcOAllowin (input m) = true →
    ∃ k, n ≤ k ∧ k ≤ m ∧ (input k).redirect = true ∧ (pcAt input (m + 1)).pc = (input k).target

/-- The pc is valid from the first edge after reset on. -/
lemma pcAt_valid (n : ℕ) : (pcAt input n).pcValid = decide (0 < n) := by
  cases n with
  | zero => rfl
  | succ n =>
    have hstep : (pcAt input (n + 1)).pcValid = ((pcAt input n).step false (input n)).pcValid := rfl
    rw [hstep]
    cases hv : (pcAt input n).pcValid with
    | false => simp [NewPc.step, NewPc.pcOAllowin, hv]
    | true =>
      by_cases ha : (pcAt input n).pcOAllowin (input n) = true
      · simp [NewPc.step, ha]
      · simp [NewPc.step, ha, hv]

/-- A valid pc moves on unless something keeps it. -/
lemma pcOAllowin_eq {n : ℕ} (hn : 0 < n) :
    (pcAt input n).pcOAllowin (input n) = !(input n).busy := by
  simp [NewPc.pcOAllowin, PcIn.busy, pcAt_valid, hn]

/-- What a valid pc takes when it moves on. -/
lemma pcAt_succ {n : ℕ} (hn : 0 < n) (hb : (input n).busy = false) :
    (pcAt input (n + 1)).pc = (input n).nextPc := by
  have ha : (pcAt input n).pcOAllowin (input n) = true := by rw [pcOAllowin_eq input hn, hb]; rfl
  have hstep : (pcAt input (n + 1)).pc = ((pcAt input n).step false (input n)).pc := rfl
  have hv : (pcAt input n).pcValid = true := by simpa [pcAt_valid] using hn
  simp [hstep, NewPc.step, ha, hv]

/-- **Which redirects are kept.**  In a run from reset no redirect is forgotten exactly if, for
every redirect that comes while the pc is kept from moving on, the next cycle in which it moves on
brings a redirect itself, or the sequential next pc in that cycle is the target of that redirect or
of a later one.

**Proof sketch.** The pc takes the target of a redirect in the cycle in which it moves on, and the
sequential next pc when there is none, whatever came before. -/
theorem redirectKept_iff : RedirectKept input ↔
    ∀ n m, 0 < n → n < m → (input n).redirect = true →
      (∀ k, n ≤ k → k < m → (input k).busy = true) → (input m).busy = false →
      (input m).redirect = true ∨
        ∃ k, n ≤ k ∧ k < m ∧ (input k).redirect = true ∧
          (input m).fetchNextPc = (input k).target := by
  constructor
  · intro h n m hn hnm hr hbusy hmove
    obtain ⟨k, hnk, hkm, hrk, hpc⟩ := h n m (Nat.le_of_lt hnm) (by simpa [pcAt_valid] using hn) hr
      (fun k hnk hkm => by rw [pcOAllowin_eq input (by omega), hbusy k hnk hkm]; rfl)
      (by rw [pcOAllowin_eq input (by omega), hmove]; rfl)
    cases hrm : (input m).redirect with
    | true => exact .inl rfl
    | false =>
      rw [pcAt_succ input (by omega) hmove, PcIn.nextPc_of_not_redirect _ hrm] at hpc
      have hne : k ≠ m := by
        rintro rfl
        rw [hrk] at hrm
        cases hrm
      exact .inr ⟨k, hnk, by omega, hrk, hpc⟩
  · intro h n m hnm hv hr hkept hmove
    have hn : 0 < n := by simpa [pcAt_valid] using hv
    have hbm : (input m).busy = false := by
      simpa [pcOAllowin_eq input (by omega : 0 < m)] using hmove
    have hpc : (pcAt input (m + 1)).pc = (input m).nextPc := pcAt_succ input (by omega) hbm
    cases hrm : (input m).redirect with
    | true => exact ⟨m, hnm, le_rfl, hrm, hpc.trans (PcIn.nextPc_of_redirect _ hrm)⟩
    | false =>
      have hlt : n < m := by
        refine Nat.lt_of_le_of_ne hnm ?_
        rintro rfl
        rw [hr] at hrm
        cases hrm
      have hbusy : ∀ k, n ≤ k → k < m → (input k).busy = true := by
        intro k hnk hkm
        simpa [pcOAllowin_eq input (by omega : 0 < k)] using hkept k hnk hkm
      rcases h n m hn hlt hr hbusy hbm with hrm' | ⟨k, hnk, hkm, hrk, ht⟩
      · rw [hrm] at hrm'
        cases hrm'
      · refine ⟨k, hnk, Nat.le_of_lt hkm, hrk, ?_⟩
        rw [hpc, PcIn.nextPc_of_not_redirect _ hrm, ht]

end Run

/-- A branch to `0x80001000` in cycle 1, while the page walk for the pc is still going on. -/
def branchDuringWalk (n : ℕ) : PcIn where
  regFStall := false
  branchNeedJump := n == 1
  branchNextPc := 0x80001000#64
  mretNeedJump := false
  mretNextPc := 0#64
  fetchNextPc := 0x80000004#64
  fetchReadyGo := n == 2
  regDAllowin := true

/-- The branch is forgotten: the pc goes on to `0x80000004`. -/
theorem branch_forgotten : ¬ ∀ input : ℕ → PcIn, Pulses input → RedirectKept input := by
  intro h
  have hp : Pulses branchDuringWalk := by
    intro n hn
    have h1 : n = 1 := by simpa [PcIn.redirect, branchDuringWalk] using hn
    subst h1
    decide
  have hkept : ∀ k, 1 ≤ k → k < 2 →
      (pcAt branchDuringWalk k).pcOAllowin (branchDuringWalk k) = false := by
    intro k h1 h2
    obtain rfl : k = 1 := by omega
    decide
  obtain ⟨k, hk1, hk2, hr, hpc⟩ :=
    h branchDuringWalk hp 1 2 (by decide) (by decide) (by decide) hkept (by decide)
  obtain rfl | rfl : k = 1 ∨ k = 2 := by omega
  · exact absurd hpc (by decide)
  · exact absurd hr (by decide)

end Riscv64Cpu.ReadyValidMmu
