import Riscv64Cpu.Memory.Pmem
import Riscv64Cpu.ReadyValidMmu.Translation

set_option relaxedAutoImplicit false
set_option autoImplicit false

/-!
# The fetch stage behind the walker

`mmu_fetch.v` presents the pc to the walker and hands an instruction on in the cycle of the answer.
In that same cycle the walker is idle and already takes the pc in again, before the pc moves on:
the next answer is that of the pc before.

## Main definitions

* `ReadyValidMmu.FetchIn`, `newFetch` — inputs and outputs of `new_fetch`.
* `ReadyValidMmu.walkerAt` — its walker in a run from reset.
* `ReadyValidMmu.OwnTranslation` — every instruction is fetched from the translation of its pc.

## Main results

* `ReadyValidMmu.ownTranslation_iff` — when that holds.
-/

namespace Riscv64Cpu.ReadyValidMmu

open Pipeline (Dpi FetchOut nopInstr commitInfo)

/-! ## The stage -/

/-- The inputs of `new_fetch`. -/
structure FetchIn where
  pc : BitVec 64
  pcIValid : Bool
  decodeICsrSatp : BitVec 64

/-- What `u_mmu` is shown. -/
def FetchIn.mmuIn (i : FetchIn) : In where
  va := i.pc
  vaIValid := i.pcIValid
  satp := i.decodeICsrSatp

/-- The outputs of `new_fetch`. -/
structure NewFetchOut extends FetchOut where
  readyGo : Bool

section Fetch

variable {M : Type} (dpi : Dpi M) (mem : M)

/-- `dpi_mem_read(addr, 8, 0)`. -/
def pteRead (addr : BitVec 64) : BitVec 64 := dpi.memRead mem addr 8#32 0#64

/-- `fetch_o_ready_go`. -/
def fetchReadyGo (i : FetchIn) (s : Mmu) : Bool :=
  i.pcIValid && s.mmuOValid i.mmuIn && s.mmuOReady i.mmuIn

/-- `fetch_o_instr`. -/
def fetchInstr (i : FetchIn) (s : Mmu) : BitVec 32 :=
  if fetchReadyGo i s then dpi.instrMemRead mem (s.mmuOPa i.mmuIn) else nopInstr

/-- The stage `new_fetch` with the walker in state `s`. -/
def newFetch (i : FetchIn) (s : Mmu) : NewFetchOut where
  readyGo := fetchReadyGo i s
  pc := i.pc
  instr := fetchInstr dpi mem i s
  nextPc := i.pc + 4#64
  commitInfo := commitInfo true (fetchInstr dpi mem i s) (i.pc + 4#64) i.pc

variable (input : ℕ → FetchIn)

/-- The walker of the stage in cycle `n` of a run from reset. -/
def walkerAt (n : ℕ) : Mmu :=
  Mmu.run (pteRead dpi mem) (fun j => (input j).mmuIn) Mmu.reset n

/-- `fetch_o_ready_go` in cycle `n` of a run from reset. -/
def readyGoAt (n : ℕ) : Bool := fetchReadyGo (input n) (walkerAt dpi mem input n)

/-- The pc is held in every cycle without `fetch_o_ready_go`. -/
def PcHeld : Prop := ∀ n, readyGoAt dpi mem input n = false → (input (n + 1)).pc = (input n).pc

/-- The number of clock edges from taking in the pc of cycle `n` to its answer. -/
def pcEdges (n : ℕ) : ℕ :=
  walkEdges (Sv39.walk (pteRead dpi mem) (satpPpn (input n).decodeICsrSatp) (input n).pc).level

/-- Every instruction is fetched from the translation of its own pc. -/
def OwnTranslation (satp : BitVec 64) : Prop :=
  ∀ n, readyGoAt dpi mem input n = true →
    (walkerAt dpi mem input n).mmuOPa (input n).mmuIn =
        walkResult (pteRead dpi mem) satp (input n).pc ∧
      (newFetch dpi mem (input n) (walkerAt dpi mem input n)).instr =
        dpi.instrMemRead mem (walkResult (pteRead dpi mem) satp (input n).pc)

end Fetch

/-! ## Answers in a run -/

section Run

variable {M : Type} {dpi : Dpi M} {mem : M} {input : ℕ → FetchIn} {satp : BitVec 64}
  (hmode : satpMode satp = 8#4) (hsatp : ∀ n, (input n).decodeICsrSatp = satp)
include hmode hsatp

/-- Paging is on in every cycle. -/
lemma translationEn_mmuIn (n : ℕ) : translationEn (input n).mmuIn.satp = true := by
  simp [translationEn, FetchIn.mmuIn, hsatp, hmode]

/-- With paging on, the outputs of the walker are its registers. -/
lemma readyGoAt_iff (n : ℕ) : readyGoAt dpi mem input n = true ↔
    (input n).pcIValid = true ∧ (walkerAt dpi mem input n).mmuOValidReg = true ∧
      (walkerAt dpi mem input n).mmuOReadyReg = true := by
  simp [readyGoAt, fetchReadyGo, Mmu.mmuOValid, Mmu.mmuOReady, translationEn_mmuIn hmode hsatp,
    and_assoc]

/-- The walker puts out the address in its register. -/
lemma mmuOPa_eq (n : ℕ) : (walkerAt dpi mem input n).mmuOPa (input n).mmuIn =
    (walkerAt dpi mem input n).mmuOPaReg := by
  simp [Mmu.mmuOPa, translationEn_mmuIn hmode hsatp]

/-- In the cycle in which an instruction is handed on, the walker takes the same pc in again. -/
private lemma accepts_of_readyGoAt {n : ℕ} (h : readyGoAt dpi mem input n = true) :
    (walkerAt dpi mem input n).accepts (input n).mmuIn = true := by
  obtain ⟨hv, -, hr⟩ := (readyGoAt_iff hmode hsatp n).mp h
  have hinv : (walkerAt dpi mem input n).Inv :=
    Clocked.driven_induction (P := fun _ s => Mmu.Inv s) Mmu.Inv.reset
      (fun j s hs => hs.step (pteRead dpi mem) (input j).mmuIn false) n
  exact Mmu.accepts_of_idle (hinv.ready.mp hr) hr hv (by rw [FetchIn.mmuIn, hsatp, hmode])

/-- **The answer to an accepted pc**: as many edges later as its walk takes, the walker is ready
with the result of that walk, and until then no instruction is handed on. -/
theorem answer_of_accepts {a : ℕ}
    (ha : (walkerAt dpi mem input a).accepts (input a).mmuIn = true) :
    ((walkerAt dpi mem input (a + pcEdges dpi mem input a)).mmuOReadyReg = true ∧
      (walkerAt dpi mem input (a + pcEdges dpi mem input a)).mmuOValidReg = true ∧
      (walkerAt dpi mem input (a + pcEdges dpi mem input a)).mmuOPaReg =
        walkResult (pteRead dpi mem) satp (input a).pc) ∧
    ∀ m, a < m → m < a + pcEdges dpi mem input a → readyGoAt dpi mem input m = false := by
  obtain ⟨hend, hbusy⟩ :=
    Mmu.run_walk_from (pteRead dpi mem) (fun j => (input j).mmuIn) ha
  refine ⟨⟨hend.ready, hend.valid, ?_⟩, fun m hm hlt => ?_⟩
  · rw [walkResult, ← hsatp a]
    exact hend.pa
  · by_contra hgo
    have hr := ((readyGoAt_iff hmode hsatp m).mp (Bool.not_eq_false _ ▸ hgo)).2.2
    rw [walkerAt, (hbusy m hm hlt).ready] at hr
    cases hr

/-- The pc that is presented when an accepted pc is answered is that of the cycle after the
acceptance. -/
lemma pc_at_answer (hheld : PcHeld dpi mem input) {a : ℕ}
    (ha : (walkerAt dpi mem input a).accepts (input a).mmuIn = true) :
    (input (a + pcEdges dpi mem input a)).pc = (input (a + 1)).pc := by
  have hgo := (answer_of_accepts hmode hsatp ha).2
  have hhold : ∀ k, a + 1 + k ≤ a + pcEdges dpi mem input a →
      (input (a + 1 + k)).pc = (input (a + 1)).pc := by
    intro k
    induction k with
    | zero => exact fun _ => rfl
    | succ k ih =>
      intro hk
      rw [← Nat.add_assoc, hheld _ (hgo _ (by omega) (by omega)), ih (by omega)]
  have hpos : 0 < pcEdges dpi mem input a := walkEdges_pos _
  obtain ⟨k, hk⟩ : ∃ k, pcEdges dpi mem input a = 1 + k := ⟨_, (Nat.add_sub_cancel' hpos).symm⟩
  rw [hk, ← Nat.add_assoc]
  exact hhold k (by omega)

end Run

/-! ## Instructions from the translation of their own pc -/

/-- **Which instructions are fetched from their own translation.**  In a run from reset with paging
on in which the pc is held until its instruction is handed on, every instruction is fetched from
the translation of its own pc exactly if the pc that follows an instruction has the same
translation as the pc of the instruction, or its answer comes in a cycle without a valid pc.

**Proof sketch.** An answer belongs to the pc of the cycle in which the walker took it in.  If no
instruction was handed on in that cycle, the pc has been held since; if one was, the pc presented
with the answer is the one after it. -/
theorem ownTranslation_iff {M : Type} (dpi : Dpi M) (mem : M) (satp : BitVec 64)
    (input : ℕ → FetchIn) (hmode : satpMode satp = 8#4)
    (hsatp : ∀ n, (input n).decodeICsrSatp = satp) (hheld : PcHeld dpi mem input) :
    OwnTranslation dpi mem input satp ↔
      ∀ n, readyGoAt dpi mem input n = true →
        (input (n + pcEdges dpi mem input n)).pcIValid = true →
        walkResult (pteRead dpi mem) satp (input (n + 1)).pc =
          walkResult (pteRead dpi mem) satp (input n).pc := by
  constructor
  · intro h n hgo hv
    have ha := accepts_of_readyGoAt hmode hsatp hgo
    obtain ⟨⟨hready, hvalid, hpa⟩, -⟩ := answer_of_accepts hmode hsatp ha
    have hown := (h _ ((readyGoAt_iff hmode hsatp _).mpr ⟨hv, hvalid, hready⟩)).1
    rw [mmuOPa_eq hmode hsatp, hpa, pc_at_answer hmode hsatp hheld ha] at hown
    exact hown.symm
  · intro h n hgo
    obtain ⟨hv, hvalid, hready⟩ := (readyGoAt_iff hmode hsatp n).mp hgo
    obtain ⟨a, han, ha, hn⟩ :=
      Mmu.exists_accepted (pteRead dpi mem) (fun j => (input j).mmuIn) hready hvalid
    replace hn : n = a + pcEdges dpi mem input a := hn
    obtain ⟨⟨-, -, hpa⟩, -⟩ := answer_of_accepts hmode hsatp ha
    have hpc := pc_at_answer hmode hsatp hheld ha
    rw [← hn] at hpa hpc
    have hwalk : walkResult (pteRead dpi mem) satp (input a).pc =
        walkResult (pteRead dpi mem) satp (input n).pc := by
      rw [hpc]
      cases hga : readyGoAt dpi mem input a with
      | false => rw [hheld a hga]
      | true => exact (h a hga (by rw [← hn]; exact hv)).symm
    have hown : (walkerAt dpi mem input n).mmuOPa (input n).mmuIn =
        walkResult (pteRead dpi mem) satp (input n).pc := by
      rw [mmuOPa_eq hmode hsatp, hpa, hwalk]
    refine ⟨hown, ?_⟩
    have hgo' : fetchReadyGo (input n) (walkerAt dpi mem input n) = true := hgo
    rw [newFetch, fetchInstr, if_pos hgo', hown]

/-- A memory whose page `0x80000` is a root table that maps the gigabytes from `0x80000000` and
from `0xC0000000` on to that from `0x80000000` on. -/
def twoGigapages : Memory.Pmem :=
  Memory.image [0#32, 0#32, 0#32, 0#32, 0x2000000F#32, 0#32, 0x2000000F#32, 0#32]

/-- The pc `0x80000000`, and from cycle 4 on the pc `next`. -/
def twoPcs (next : BitVec 64) (n : ℕ) : FetchIn :=
  ⟨if n ≤ 3 then 0x80000000#64 else next, true, Mmu.satpSv39⟩

/-- The pc moves on at the edge that hands its instruction on. -/
lemma pcHeld_twoPcs (next : BitVec 64)
    (h : readyGoAt Memory.dpi twoGigapages (twoPcs next) 3 = true) :
    PcHeld Memory.dpi twoGigapages (twoPcs next) := by
  intro n hn
  by_cases h3 : n = 3
  · rw [h3, h] at hn
    cases hn
  · have hle : n + 1 ≤ 3 ↔ n ≤ 3 := by omega
    simp only [twoPcs, hle]

/-- Two pcs with one translation. -/
theorem ownTranslation_aliases :
    OwnTranslation Memory.dpi twoGigapages (twoPcs 0xC0000000#64) Mmu.satpSv39 := by
  have hheld := pcHeld_twoPcs 0xC0000000#64 (by decide +kernel)
  have hwalk : walkResult (pteRead Memory.dpi twoGigapages) Mmu.satpSv39 0xC0000000#64 =
      walkResult (pteRead Memory.dpi twoGigapages) Mmu.satpSv39 0x80000000#64 := by decide +kernel
  refine (ownTranslation_iff Memory.dpi twoGigapages Mmu.satpSv39 (twoPcs 0xC0000000#64) rfl
    (fun _ => rfl) hheld).mpr fun n _ _ => ?_
  simp only [twoPcs]
  split_ifs
  · rfl
  · omega
  · exact hwalk
  · rfl

/-- The instruction at `0x80000004` is fetched from the translation of `0x80000000`. -/
theorem fetched_from_earlier_pc : ¬ ∀ (M : Type) (dpi : Dpi M) (mem : M) (satp : BitVec 64)
    (input : ℕ → FetchIn), satpMode satp = 8#4 → (∀ n, (input n).decodeICsrSatp = satp) →
      PcHeld dpi mem input → OwnTranslation dpi mem input satp := by
  intro h
  have hheld := pcHeld_twoPcs 0x80000004#64 (by decide +kernel)
  have hown := (h _ Memory.dpi twoGigapages Mmu.satpSv39 (twoPcs 0x80000004#64) rfl
    (fun _ => rfl) hheld 6 (by decide +kernel)).1
  revert hown
  decide +kernel

end Riscv64Cpu.ReadyValidMmu
