import Riscv64Cpu.Paging.Sv39
import Riscv64Cpu.ReadyValidMmu.Mmu

set_option relaxedAutoImplicit false
set_option autoImplicit false

/-!
# The walker against Sv39

The walker performs the Sv39 walk: it spends two clock edges on every level that the walk visits
and one on taking the address in, and answers with the physical address of the leaf, or with the
fault value when the walk has none.  Neither the alignment of a superpage nor the upper bits of
the virtual address are looked at.

## Main definitions

* `ReadyValidMmu.walkResult` — the answer to a virtual address.
* `ReadyValidMmu.walkEdges` — the number of clock edges of a walk that ends at a level.
* `ReadyValidMmu.Mmu.run` — the walker under a stream of inputs.

## Main results

* `ReadyValidMmu.Mmu.run_walk` — an accepted address is answered by its walk.
* `ReadyValidMmu.Mmu.exists_accepted` — every answer belongs to an accepted address.
* `ReadyValidMmu.Mmu.translates` — the walker translates as Sv39 does.
* `ReadyValidMmu.Mmu.faultLaw_iff` — when the walker answers a page fault with the fault value.

## Design

A walk reads the memory through one function `read`: the memory does not change during the walk.
Once an address is accepted the inputs are not looked at until the answer, so they are free.
-/

namespace Riscv64Cpu.ReadyValidMmu

open Paging

/-! ## Addresses -/

/-- A table address: page and index do not overlap. -/
lemma concat_eq_pteAddr (ppn : BitVec 44) (vpn : BitVec 9) :
    (0#8 ++ ppn ++ 0#12 : BitVec 64) + (0#53 ++ vpn ++ 0#3).setWidth 64 =
      Sv39.pteAddr ppn vpn := by
  have hp := ppn.isLt
  have hv := vpn.isLt
  apply BitVec.eq_of_toNat_eq
  rw [Sv39.pteAddr, BitVec.toNat_add, BitVec.toNat_ofNat, BitVec.toNat_setWidth]
  simp only [BitVec.toNat_append, BitVec.toNat_ofNat, Nat.shiftLeft_eq, Nat.zero_mod, Nat.zero_mul,
    Nat.zero_or, Nat.or_zero]
  omega

/-- The value of a page number followed by an offset. -/
lemma toNat_concat {m n : ℕ} (a : BitVec m) (b : BitVec n) :
    (0#8 ++ a ++ b).toNat = a.toNat * 2 ^ n + b.toNat := by
  rw [BitVec.toNat_append, Nat.shiftLeft_eq, Nat.mul_comm, ← Nat.two_pow_add_eq_or_of_lt b.isLt,
    BitVec.toNat_append]
  simp [Nat.mul_comm]

/-- The number in a field. -/
lemma toNat_field {n : ℕ} (x : BitVec n) (start len : ℕ) :
    (x.extractLsb' start len).toNat = x.toNat / 2 ^ start % 2 ^ len := by
  rw [BitVec.extractLsb'_toNat, Nat.shiftRight_eq_div_pow]

namespace Mmu

variable {read : BitVec 64 → BitVec 64} {i : In} {s : Mmu} {l : ℕ} {va : BitVec 64}

/-- The index at the current level. -/
private lemma vpnAtLevel_eq (hl : s.level = BitVec.ofNat 2 l) (hle : l ≤ 2) :
    s.vpnAtLevel = Sv39.vpn s.vAddrReg l := by
  obtain rfl | rfl | rfl : l = 0 ∨ l = 1 ∨ l = 2 := by omega
  all_goals simp [vpnAtLevel, hl, Sv39.vpn]

/-- **Superpages**: the physical address of a leaf, at each of the three levels. -/
theorem leafPa_eq (hl : s.level = BitVec.ofNat 2 l) (hle : l ≤ 2) :
    s.leafPa = Sv39.physAddr s.vAddrReg l s.currentPte := by
  have hp := s.currentPte.isLt
  apply BitVec.eq_of_toNat_eq
  rw [Sv39.physAddr, BitVec.toNat_ofNat, Sv39.Pte.ppn, toNat_field]
  obtain rfl | rfl | rfl : l = 0 ∨ l = 1 ∨ l = 2 := by omega
  · have h : s.leafPa =
        0#8 ++ s.currentPte.extractLsb' 10 44 ++ s.vAddrReg.extractLsb' 0 12 := by
      simp [leafPa, hl]
    rw [h, toNat_concat, toNat_field, toNat_field]
    omega
  · have h : s.leafPa =
        0#8 ++ s.currentPte.extractLsb' 19 35 ++ s.vAddrReg.extractLsb' 0 21 := by
      simp [leafPa, hl]
    rw [h, toNat_concat, toNat_field, toNat_field]
    omega
  · have h : s.leafPa =
        0#8 ++ s.currentPte.extractLsb' 28 26 ++ s.vAddrReg.extractLsb' 0 30 := by
      simp [leafPa, hl]
    rw [h, toNat_concat, toNat_field, toNat_field]
    omega

/-- The first entry is read from the root table. -/
private lemma nextPteAddr_idle (hs : s.currentState = stateIdle) :
    s.nextPteAddr i = Sv39.pteAddr (satpPpn i.satp) (Sv39.vpn i.va 2) := by
  rw [nextPteAddr, baseAddr, offset, hs]
  exact concat_eq_pteAddr _ _

/-- A further entry is read from the table that the last one points to. -/
private lemma nextPteAddr_fetchPte (hs : s.currentState = stateFetchPte)
    (hl : s.level = BitVec.ofNat 2 l) (hle : l ≤ 2) :
    s.nextPteAddr i = Sv39.pteAddr (Sv39.Pte.ppn s.currentPte) (Sv39.vpn s.vAddrReg l) := by
  rw [nextPteAddr, baseAddr, offset, hs, vpnAtLevel_eq hl hle]
  exact concat_eq_pteAddr _ _

/-! ## The entry under check -/

section Check

variable (read) (i) (hs : s.currentState = stateCheckPte)
include hs

/-- An invalid entry is a fault. -/
private lemma step_of_invalid (he : Sv39.entryOf s.currentPte = .invalid) :
    s.step read i false = { s with mmuOPaReg := faultPa, currentState := stateDone } := by
  have hc : (!s.pteV || (!s.pteR && s.pteW)) = true := by
    by_contra hc
    have hc' : ¬ (!Sv39.Pte.v s.currentPte ||
        (!Sv39.Pte.r s.currentPte && Sv39.Pte.w s.currentPte)) = true := hc
    rw [Sv39.entryOf, if_neg hc'] at he
    split_ifs at he
  rw [step_checkPte read hs, if_pos hc]

/-- A leaf gives the physical address. -/
private lemma step_of_leaf {pte : Sv39.Pte} (he : Sv39.entryOf s.currentPte = .leaf pte) :
    pte = s.currentPte ∧
      s.step read i false = { s with mmuOPaReg := s.leafPa, currentState := stateDone } := by
  unfold Sv39.entryOf at he
  split_ifs at he with hc hx
  have hc' : ¬ (!s.pteV || (!s.pteR && s.pteW)) = true := hc
  have hx' : (s.pteR || s.pteX) = true := hx
  have hl : s.isLeaf = true := by
    simp only [isLeaf, Bool.or_eq_true] at hx' ⊢
    tauto
  rw [step_checkPte read hs, if_neg hc', if_pos hl]
  exact ⟨(Entry.leaf.inj he).symm, rfl⟩

/-- An entry that is valid without being a leaf has no write permission either. -/
lemma step_of_pointer {t : BitVec 44} (he : Sv39.entryOf s.currentPte = .pointer t) :
    t = Sv39.Pte.ppn s.currentPte ∧ s.step read i false =
      if s.level == 0#2 then { s with mmuOPaReg := faultPa, currentState := stateDone }
      else { s with level := s.level - 1#2, currentState := stateFetchPte } := by
  unfold Sv39.entryOf at he
  split_ifs at he with hc hx
  have hc' : ¬ (!s.pteV || (!s.pteR && s.pteW)) = true := hc
  have hx' : ¬ (s.pteR || s.pteX) = true := hx
  have hl : ¬ s.isLeaf = true := by
    simp only [isLeaf, Bool.or_eq_true, Bool.and_eq_true, Bool.not_eq_true'] at hc' hx' ⊢
    cases hr : s.pteR <;> simp_all
  rw [step_checkPte read hs, if_neg hc', if_neg hl]
  exact ⟨(Entry.pointer.inj he).symm, rfl⟩

end Check

/-! ## The walk -/

/-- The walker has just read the entry for `va` in table `t` of level `l`. -/
structure Looking (read : BitVec 64 → BitVec 64) (va : BitVec 64) (l : ℕ) (t : BitVec 44)
    (s : Mmu) : Prop where
  state : s.currentState = stateCheckPte
  level : s.level = BitVec.ofNat 2 l
  le : l ≤ 2
  addr : s.vAddrReg = va
  pte : s.currentPte = read (Sv39.pteAddr t (Sv39.vpn va l))
  ready : s.mmuOReadyReg = false

/-- The walker is in the middle of a walk. -/
structure Busy (s : Mmu) : Prop where
  ready : s.mmuOReadyReg = false
  state : s.currentState ≠ stateIdle

end Mmu

/-- The answer to `va` when its walk ends with `o`. -/
def answer (va : BitVec 64) (o : Outcome Sv39.Pte) : BitVec 64 :=
  match o.leaf with
  | none => faultPa
  | some pte => Sv39.physAddr va o.level pte

/-- The result of the walk for `va`. -/
def walkResult (read : BitVec 64 → BitVec 64) (satp va : BitVec 64) : BitVec 64 :=
  answer va (Sv39.walk read (satpPpn satp) va)

/-- The number of clock edges until the answer, the accepting one included, for a walk that ends
at the given level. -/
def walkEdges : ℕ → ℕ
  | 2 => 3
  | 1 => 5
  | _ => 7

/-- Taking the address in costs an edge already. -/
lemma walkEdges_pos (l : ℕ) : 0 < walkEdges l := by
  unfold walkEdges
  split <;> omega

/-- One edge for taking the address in, and two for every level. -/
private lemma walkEdges_eq {l : ℕ} (h : l ≤ 2) : walkEdges l = 1 + 2 * (2 - l + 1) := by
  obtain rfl | rfl | rfl : l = 0 ∨ l = 1 ∨ l = 2 := by omega
  all_goals rfl

namespace Mmu

variable {read : BitVec 64 → BitVec 64} {s : Mmu} {l : ℕ} {va : BitVec 64}

/-- The walker is back and answers `va` with `o`. -/
structure Answered (va : BitVec 64) (o : Outcome Sv39.Pte) (s : Mmu) : Prop where
  state : s.currentState = stateIdle
  ready : s.mmuOReadyReg = true
  valid : s.mmuOValidReg = true
  pa : s.mmuOPaReg = answer va o

/-- Taking an address in starts the walk at the root. -/
lemma Looking.of_accepts {i : In} (ha : s.accepts i = true) :
    Looking read i.va 2 (satpPpn i.satp) (s.step read i false) := by
  have hs : s.currentState = stateIdle := by
    simp only [accepts, Bool.and_eq_true, beq_iff_eq] at ha
    exact ha.1
  rw [step_accept read ha]
  exact ⟨rfl, rfl, le_rfl, rfl, by rw [nextPteAddr_idle hs], rfl⟩

/-- The edge after the check of a last entry brings the answer out. -/
lemma Answered.of_done {s' : Mmu} {pa : BitVec 64} (j : In)
    (hs' : s' = { s with mmuOPaReg := pa, currentState := stateDone }) {o : Outcome Sv39.Pte}
    (ho : pa = answer va o) : Answered va o (s'.step read j false) := by
  have hd : s'.currentState = stateDone := by rw [hs']
  rw [step_done read hd]
  exact ⟨rfl, rfl, rfl, by rw [hs', ho]⟩

/-- The walker under a stream of inputs, without reset. -/
def run (read : BitVec 64 → BitVec 64) (input : ℕ → In) (s : Mmu) : ℕ → Mmu :=
  Clocked.driven (fun i s => s.step read i false) input s

variable (input : ℕ → In)

/-- The last edge of a run. -/
lemma run_succ (n : ℕ) :
    run read input s (n + 1) = (run read input s n).step read (input n) false := rfl

/-- The walker is busy while it looks at an entry and at the edge after. -/
lemma Looking.busy {n : ℕ} {t : BitVec 44} (h : Looking read va l t (run read input s n)) :
    ∀ m, n ≤ m → m < n + 2 → Busy (run read input s m) := by
  intro m hm hlt
  have hb : Busy (run read input s n) := ⟨h.ready, by rw [h.state]; decide⟩
  obtain rfl | rfl : m = n ∨ m = n + 1 := by omega
  · exact hb
  · rw [run_succ, step_checkPte read h.state]
    split_ifs
    · exact ⟨hb.ready, by simp [stateDone, stateIdle]⟩
    · exact ⟨hb.ready, by simp [stateDone, stateIdle]⟩
    · exact ⟨hb.ready, by simp [stateDone, stateIdle]⟩
    · exact ⟨hb.ready, by simp [stateFetchPte, stateIdle]⟩

/-- A pointer above level `0` leads to the entry of the level below. -/
lemma Looking.next {n : ℕ} {t t' : BitVec 44}
    (h : Looking read va (l + 1) t (run read input s n))
    (he : Sv39.entry read va (l + 1) t = .pointer t') :
    Looking read va l t' (run read input s (n + 2)) := by
  have hle := h.le
  have he' : Sv39.entryOf (run read input s n).currentPte = .pointer t' := by rw [h.pte]; exact he
  obtain ⟨rfl, hstep⟩ := step_of_pointer read (input n) h.state he'
  have hlv : ((run read input s n).level == 0#2) = false ∧
      (run read input s n).level - 1#2 = BitVec.ofNat 2 l := by
    rw [h.level]
    obtain rfl | rfl : l = 0 ∨ l = 1 := by omega
    all_goals decide
  rw [hlv.1, if_neg Bool.false_ne_true, ← run_succ] at hstep
  have hs1 : (run read input s (n + 1)).currentState = stateFetchPte := by rw [hstep]
  have hl1 : (run read input s (n + 1)).level = BitVec.ofNat 2 l := by rw [hstep]; exact hlv.2
  rw [run_succ, step_fetchPte read hs1, nextPteAddr_fetchPte hs1 hl1 (by omega)]
  refine ⟨rfl, hl1, by omega, ?_, ?_, ?_⟩
  · rw [hstep]
    exact h.addr
  · rw [hstep]
    exact congrArg (fun v => read (Sv39.pteAddr _ (Sv39.vpn v l))) h.addr
  · rw [hstep]
    exact h.ready

variable (read) in
/-- **An accepted address is answered by its walk**: the walker is busy for as many edges as the
walk takes, and then back with the answer.

**Proof sketch.** The walker rule, with two edges for each entry: a last entry is followed by the
edge that brings the answer out, a pointer by the edge that reads the next entry. -/
theorem run_walk (ha : s.accepts (input 0) = true) :
    Answered (input 0).va (Sv39.walk read (satpPpn (input 0).satp) (input 0).va)
        (run read input s
          (walkEdges (Sv39.walk read (satpPpn (input 0).satp) (input 0).va).level)) ∧
      ∀ m, 0 < m → m < walkEdges (Sv39.walk read (satpPpn (input 0).satp) (input 0).va).level →
        Busy (run read input s m) := by
  have hwalk := walker_rule (Sv39.entry read (input 0).va) 2
    (fun n l t => Looking read (input 0).va l t (run read input s n))
    (fun n o => Answered (input 0).va o (run read input s n))
    (fun n => Busy (run read input s n))
    (fun n l t h => h.busy input)
    (fun n l t h he => Answered.of_done (input (n + 1))
      (step_of_invalid read (input n) h.state (by rw [h.pte]; exact he)) rfl)
    (fun n l t pte h he => by
      obtain ⟨rfl, hstep⟩ := step_of_leaf read (input n) h.state
        (by rw [h.pte]; exact he)
      refine Answered.of_done (input (n + 1)) hstep ?_
      rw [leafPa_eq h.level h.le, h.addr]
      rfl)
    (fun n t t' h he => by
      obtain ⟨-, hstep⟩ := step_of_pointer read (input n) h.state
        (by rw [h.pte]; exact he)
      have hl : ((run read input s n).level == 0#2) = true := by rw [h.level]; rfl
      rw [if_pos hl] at hstep
      exact Answered.of_done (input (n + 1)) hstep rfl)
    (fun n l t t' h he => h.next input he)
  have hlevel : (Sv39.walk read (satpPpn (input 0).satp) (input 0).va).level ≤ 2 :=
    Sv39.walk_level_le_two
  obtain ⟨hend, hbusy⟩ := hwalk 2 (satpPpn (input 0).satp) 1 (Looking.of_accepts ha)
  rw [walkEdges_eq hlevel]
  exact ⟨hend, fun m hm hlt => hbusy m hm hlt⟩

/-! ## Requests and answers -/

variable (read) in
/-- An address accepted in any cycle of a run is answered by its walk. -/
lemma run_walk_from {a : ℕ} (ha : (run read input s a).accepts (input a) = true) :
    Answered (input a).va (Sv39.walk read (satpPpn (input a).satp) (input a).va)
        (run read input s
          (a + walkEdges (Sv39.walk read (satpPpn (input a).satp) (input a).va).level)) ∧
      ∀ m, a < m →
        m < a + walkEdges (Sv39.walk read (satpPpn (input a).satp) (input a).va).level →
        Busy (run read input s m) := by
  have hrun : ∀ m, run read input s (a + m) =
      run read (fun j => input (a + j)) (run read input s a) m := Clocked.driven_add _ _ _ a
  obtain ⟨hend, hbusy⟩ := run_walk read (fun j => input (a + j)) ha
  refine ⟨?_, fun m hm hlt => ?_⟩
  · rw [hrun]
    exact hend
  · obtain ⟨k, rfl⟩ : ∃ k, m = a + k := ⟨m - a, by omega⟩
    rw [hrun]
    exact hbusy k (by omega) (Nat.lt_of_add_lt_add_left hlt)

variable (read) in
/-- **Every answer has a request**: in every cycle of a run from reset the walker either is idle
without an answer, or an address accepted before is on its walk or just answered.

**Proof sketch.** Induction on the cycle.  The walk of the last accepted address goes on until its
answer; in the cycle of the answer the walker is idle again, and accepts the next address or
withdraws the answer. -/
theorem idle_or_accepted (n : ℕ) :
    ((run read input reset n).currentState = stateIdle ∧
        (run read input reset n).mmuOValidReg = false) ∨
      ∃ a < n, (run read input reset a).accepts (input a) = true ∧
        n ≤ a + walkEdges (Sv39.walk read (satpPpn (input a).satp) (input a).va).level := by
  -- an idle walker accepts the address at hand or is idle without an answer afterwards
  have hidle : ∀ n, (run read input reset n).currentState = stateIdle →
      ((run read input reset (n + 1)).currentState = stateIdle ∧
          (run read input reset (n + 1)).mmuOValidReg = false) ∨
        ∃ a < n + 1, (run read input reset a).accepts (input a) = true ∧
          n + 1 ≤ a + walkEdges (Sv39.walk read (satpPpn (input a).satp) (input a).va).level := by
    intro n hs
    cases ha : (run read input reset n).accepts (input n) with
    | false =>
      left
      rw [run_succ, step_idle read hs ha]
      exact ⟨hs, rfl⟩
    | true => exact .inr ⟨n, by omega, ha, Nat.add_le_add_left (walkEdges_pos _) n⟩
  induction n with
  | zero => exact .inl ⟨rfl, rfl⟩
  | succ n ih =>
    rcases ih with ⟨hs, -⟩ | ⟨a, han, ha, hle⟩
    · exact hidle n hs
    · rcases Nat.lt_or_eq_of_le hle with hlt | heq
      · exact .inr ⟨a, by omega, ha, hlt⟩
      · refine hidle n ?_
        rw [heq]
        exact (run_walk_from read input ha).1.state

variable (read) in
/-- The request of an answer: an answer belongs to the address accepted as many edges before as
its walk takes. -/
theorem exists_accepted {n : ℕ} (hr : (run read input reset n).mmuOReadyReg = true)
    (hv : (run read input reset n).mmuOValidReg = true) :
    ∃ a < n, (run read input reset a).accepts (input a) = true ∧
      n = a + walkEdges (Sv39.walk read (satpPpn (input a).satp) (input a).va).level := by
  rcases idle_or_accepted read input n with ⟨-, hno⟩ | ⟨a, han, ha, hle⟩
  · rw [hv] at hno
    cases hno
  · refine ⟨a, han, ha, ?_⟩
    by_contra hne
    have hb := ((run_walk_from read input ha).2 n han (by omega)).ready
    rw [hr] at hb
    cases hb

/-! ## Translations and faults -/

/-- The walker is idle and takes the address of the first cycle in. -/
lemma accepts_of_idle {i : In} (hs : s.currentState = stateIdle) (hr : s.mmuOReadyReg = true)
    (hv : i.vaIValid = true) (hm : satpMode i.satp = 8#4) : s.accepts i = true := by
  simp [accepts, translationEn, hs, hr, hv, hm]

/-- What a run that takes in the address of `i` at its first edge owes as an Sv39 translation: the
walker is busy for 3, 5 or 7 edges, by the level at which the walk ends, and then back with the
physical address, if there is one. -/
structure Translates (read : BitVec 64 → BitVec 64) (i : In) (run : ℕ → Mmu) : Prop where
  busy : ∀ n, 0 < n → n < walkEdges (Sv39.walk read (satpPpn i.satp) i.va).level →
    (run n).mmuOReadyReg = false ∧ (run n).currentState ≠ stateIdle
  back : (run (walkEdges (Sv39.walk read (satpPpn i.satp) i.va).level)).currentState = stateIdle ∧
    (run (walkEdges (Sv39.walk read (satpPpn i.satp) i.va).level)).mmuOValidReg = true
  pa : ∀ pa, Sv39.translate read (satpPpn i.satp) i.va = some pa →
    (run (walkEdges (Sv39.walk read (satpPpn i.satp) i.va).level)).mmuOPaReg = pa

/-- **The walker translates as Sv39 does.**  In every reachable state the level register holds one
of the three levels and the walker is ready exactly when it is idle; and a virtual address that an
idle walker takes in with `MODE = 8` is translated as Sv39 translates it, in 3, 5 or 7 edges,
whatever the inputs do afterwards.

**Proof sketch.** The invariant, and `run_walk`: a successful translation is the physical address
of the leaf that the walk reaches. -/
theorem translates :
    (∀ s : Mmu, Reachable s → (s.level = 0#2 ∨ s.level = 1#2 ∨ s.level = 2#2) ∧
      (s.mmuOReadyReg = true ↔ s.currentState = stateIdle)) ∧
    ∀ (read : BitVec 64 → BitVec 64) (s : Mmu) (input : ℕ → In), s.currentState = stateIdle →
      s.mmuOReadyReg = true → (input 0).vaIValid = true → satpMode (input 0).satp = 8#4 →
      Translates read (input 0) (run read input s) := by
  refine ⟨fun s hs => ⟨hs.inv.level, hs.inv.ready⟩, fun read s input hs hr hv hm => ?_⟩
  obtain ⟨hend, hbusy⟩ := run_walk read input (accepts_of_idle hs hr hv hm)
  refine ⟨fun n h0 hn => ⟨(hbusy n h0 hn).ready, (hbusy n h0 hn).state⟩,
    ⟨hend.state, hend.valid⟩, fun pa hpa => ?_⟩
  obtain ⟨-, pte, hleaf, -, rfl⟩ := Sv39.translate_eq_some_iff.mp hpa
  rw [hend.pa, answer, hleaf]

/-- A root table in page `0x80000` whose entry 2 is the given one. -/
def rootEntry (pte : BitVec 64) (addr : BitVec 64) : BitVec 64 :=
  if addr = 0x80000010#64 then pte else 0#64

/-- Sv39 with the root table in page `0x80000`. -/
def satpSv39 : BitVec 64 := 0x8000000000080000#64

/-- The address `0x80000004`, presented in every cycle. -/
def presentVa (_ : ℕ) : In := ⟨0x80000004#64, true, satpSv39⟩

/-- A gigapage at level 2 answers after three edges. -/
theorem translates_gigapage :
    ((reset.level = 0#2 ∨ reset.level = 1#2 ∨ reset.level = 2#2) ∧
      (reset.mmuOReadyReg = true ↔ reset.currentState = stateIdle)) ∧
    Translates (rootEntry 0x2000000F#64) (presentVa 0)
      (run (rootEntry 0x2000000F#64) presentVa reset) :=
  ⟨translates.1 reset (.init rfl), translates.2 _ reset presentVa rfl rfl rfl rfl⟩

/-- What a run that takes in the address of `i` at its first edge owes when Sv39 faults: the answer
is the fault value. -/
def FaultLaw (read : BitVec 64 → BitVec 64) (i : In) (run : ℕ → Mmu) : Prop :=
  Sv39.translate read (satpPpn i.satp) i.va = none →
    (run (walkEdges (Sv39.walk read (satpPpn i.satp) i.va).level)).mmuOValidReg = true ∧
      (run (walkEdges (Sv39.walk read (satpPpn i.satp) i.va).level)).mmuOPaReg = faultPa

/-- The fault value is not a physical address. -/
private lemma answer_eq_faultPa_iff {o : Outcome Sv39.Pte} (h : o.level ≤ 2) :
    answer va o = faultPa ↔ o.leaf = none := by
  unfold answer
  cases o.leaf with
  | none => simp
  | some pte =>
    have hlt := Sv39.toNat_physAddr_lt va o.level pte h
    constructor
    · intro hpa
      have hpa' : Sv39.physAddr va o.level pte = faultPa := hpa
      rw [hpa', faultPa] at hlt
      exact absurd hlt (by decide)
    · intro hpa
      cases hpa

/-- **Which faults are answered as faults**: the walker maps no address that Sv39 must fault,
exactly if a leaf that the walk reaches is aligned and the address canonical.

**Proof sketch.** The answer is the fault value exactly when the walk has no leaf, while Sv39 also
faults on a leaf that is misaligned or reached with an address that is not canonical. -/
theorem faultLaw_iff (read : BitVec 64 → BitVec 64) (s : Mmu) (input : ℕ → In)
    (hs : s.currentState = stateIdle) (hr : s.mmuOReadyReg = true)
    (hv : (input 0).vaIValid = true) (hm : satpMode (input 0).satp = 8#4) :
    FaultLaw read (input 0) (run read input s) ↔
      ∀ pte, (Sv39.walk read (satpPpn (input 0).satp) (input 0).va).leaf = some pte →
        Sv39.Canonical (input 0).va ∧
          Sv39.Aligned (Sv39.walk read (satpPpn (input 0).satp) (input 0).va).level pte := by
  obtain ⟨hend, -⟩ := run_walk read input (accepts_of_idle hs hr hv hm)
  have hpa : (run read input s
      (walkEdges (Sv39.walk read (satpPpn (input 0).satp) (input 0).va).level)).mmuOPaReg =
        faultPa ↔ (Sv39.walk read (satpPpn (input 0).satp) (input 0).va).leaf = none := by
    rw [hend.pa]
    exact answer_eq_faultPa_iff Sv39.walk_level_le_two
  rw [FaultLaw, hpa, Sv39.translate_eq_none_iff]
  constructor
  · intro h pte hleaf
    by_contra hno
    have hnone := (h fun pte' hleaf' => by
      rw [hleaf] at hleaf'
      cases hleaf'
      exact hno).2
    rw [hleaf] at hnone
    cases hnone
  · intro h hfault
    refine ⟨hend.valid, ?_⟩
    cases hleaf : (Sv39.walk read (satpPpn (input 0).satp) (input 0).va).leaf with
    | none => rfl
    | some pte => exact absurd (h pte hleaf) (hfault pte hleaf)

/-- A walk that reaches an aligned gigapage and a walk that reaches no leaf keep the law. -/
theorem faultLaw_gigapage :
    (Sv39.walk (rootEntry 0x2000000F#64) (satpPpn (presentVa 0).satp) (presentVa 0).va).leaf =
        some 0x2000000F#64 ∧
      FaultLaw (rootEntry 0x2000000F#64) (presentVa 0)
        (run (rootEntry 0x2000000F#64) presentVa reset) ∧
      FaultLaw (rootEntry 0#64) (presentVa 0) (run (rootEntry 0#64) presentVa reset) := by
  have hleaf : (Sv39.walk (rootEntry 0x2000000F#64) (satpPpn (presentVa 0).satp)
      (presentVa 0).va).leaf = some 0x2000000F#64 := by decide
  have hnone : (Sv39.walk (rootEntry 0#64) (satpPpn (presentVa 0).satp) (presentVa 0).va).leaf =
      none := by decide
  refine ⟨hleaf,
    (faultLaw_iff (rootEntry 0x2000000F#64) reset presentVa rfl rfl rfl rfl).mpr fun pte hpte => ?_,
    (faultLaw_iff (rootEntry 0#64) reset presentVa rfl rfl rfl rfl).mpr fun pte hpte => ?_⟩
  · rw [hleaf] at hpte
    cases hpte
    decide
  · rw [hnone] at hpte
    cases hpte

/-- A gigapage whose page number is not a multiple of `2^18` is mapped. -/
theorem misaligned_mapped : ¬ ∀ (read : BitVec 64 → BitVec 64) (s : Mmu) (input : ℕ → In),
    s.currentState = stateIdle → s.mmuOReadyReg = true → (input 0).vaIValid = true →
      satpMode (input 0).satp = 8#4 → FaultLaw read (input 0) (run read input s) := by
  intro h
  have hf := h (rootEntry 0x2000040F#64) reset presentVa rfl rfl rfl rfl (by decide)
  exact absurd hf.2 (by decide)

end Mmu

end Riscv64Cpu.ReadyValidMmu
