import Riscv64Cpu.Pipeline.CsrHazard
import Riscv64Cpu.Pipeline.Prefix

set_option relaxedAutoImplicit false
set_option autoImplicit false

/-!
# CSR instructions at a distance

The processor does not wait for a CSR instruction in flight, so software has to.  At most three
instructions are in flight behind decode, the last three of the program: when a CSR instruction or
`mret` keeps more than three instructions behind the last write of the CSR that it reads, and the
two instructions behind a CSR instruction do not name its destination, the pipeline follows the
sequential machine, CSRs and all.

## Main definitions

* `Pipeline.Clear` — two instructions at a distance do not get in each other's way.
* `Pipeline.SpacedTo` — the first steps of the sequential machine do not.
* `Pipeline.Spaced` — the words of a list, executed one after another, do not.
* `Pipeline.Behind` — what a stage behind decode holds.

## Main results

* `Pipeline.TopCpu.csrSafe_of_spaced` — decode reads safely behind such steps.
* `Pipeline.TopCpu.follows_spaced` — so the pipeline follows them.
* `Pipeline.TopCpu.csrs_prefix` — the first instructions, with their CSRs.
-/

namespace Riscv64Cpu.Pipeline

open Clocked

/-! ## The distance that software keeps -/

/-- The word `w` is not disturbed by the word `v` that is executed `d` instructions before it: `v`
does not write the CSR that `w` reads, and if `v` is a CSR instruction less than three places
before, `w` does not name its destination as a source. -/
structure Clear (d : ℕ) (v w : BitVec 32) : Prop where
  csr : instCsrInstr w = true → decodeCsrWen v = true → decodeCsrWid v ≠ csrId w
  mret : instMret w = true → decodeCsrWen v = true → decodeCsrWid v ≠ Csr.mepc
  sources : d ≤ 2 → instCsrInstr v = true → rd v = 0#5 ∨ rd v ≠ rs1 w ∧ rd v ≠ rs2 w

instance (d : ℕ) (v w : BitVec 32) : Decidable (Clear d v w) :=
  decidable_of_iff
    ((instCsrInstr w = true → decodeCsrWen v = true → decodeCsrWid v ≠ csrId w) ∧
      (instMret w = true → decodeCsrWen v = true → decodeCsrWid v ≠ Csr.mepc) ∧
      (d ≤ 2 → instCsrInstr v = true → rd v = 0#5 ∨ rd v ≠ rs1 w ∧ rd v ≠ rs2 w))
    ⟨fun h => ⟨h.1, h.2.1, h.2.2⟩, fun h => ⟨h.csr, h.mret, h.sources⟩⟩

/-- The word does not read the timer, which counts cycles. -/
def NoTimer (w : BitVec 32) : Prop := instCsrInstr w = true → csrId w ≠ Csr.timer

instance : DecidablePred NoTimer := fun _ => inferInstanceAs (Decidable (_ → _))

/-- A calm word does not. -/
lemma noTimer_of_calm {w : BitVec 32} (h : Calm w) : NoTimer w := fun hc =>
  absurd (h.2.1.symm.trans hc) Bool.false_ne_true

/-- Nor does the nop instruction. -/
lemma noTimer_nopInstr : NoTimer nopInstr := noTimer_of_calm plain_nopInstr.decode

/-- The word that the sequential machine fetches in step `k`. -/
def SeqState.word {M : Type} (dpi : Dpi M) (σ : SeqState M) (k : ℕ) : BitVec 32 :=
  ((σ.run dpi k).fetchOut dpi).instr

/-- The first `N` steps of the sequential machine leave each other alone. -/
structure SpacedTo {M : Type} (dpi : Dpi M) (σ : SeqState M) (N : ℕ) : Prop where
  timer : ∀ k < N, NoTimer (σ.word dpi k)
  clear : ∀ j k, j < k → k ≤ j + 3 → k < N → Clear (k - j) (σ.word dpi j) (σ.word dpi k)

/-- The words, executed one after another, leave each other alone. -/
def Spaced (ws : List (BitVec 32)) : Prop :=
  ∀ k (_ : k < ws.length), ∀ j (_ : j < k), k ≤ j + 3 → Clear (k - j) ws[j] ws[k]

instance : DecidablePred Spaced := fun _ => by
  unfold Spaced
  infer_instance

/-- Steps that execute such words leave each other alone. -/
lemma spacedTo_of_spaced {M : Type} {dpi : Dpi M} {σ : SeqState M} {ws : List (BitVec 32)}
    (h : Spaced ws) (hws : ∀ k (_ : k < ws.length), σ.word dpi k = ws[k])
    (htimer : ∀ k (_ : k < ws.length), NoTimer ws[k]) : SpacedTo dpi σ ws.length := by
  refine ⟨fun k hk => ?_, fun j k hjk hd hk => ?_⟩
  · rw [hws k hk]
    exact htimer k hk
  · rw [hws k hk, hws j (by omega)]
    exact h k hk j hjk hd

/-! ## What is in flight -/

/-- The word belongs to one of the `d` steps before step `K`, or to a bubble. -/
def Behind {M : Type} (dpi : Dpi M) (σ : SeqState M) (K d : ℕ) (w : BitVec 32) : Prop :=
  Inert w ∨ ∃ j < K, K ≤ j + d ∧ w = σ.word dpi j

section Behind

variable {M : Type} {dpi : Dpi M} {σ : SeqState M} {K K' d : ℕ} {w : BitVec 32}

/-- One edge later it may be one step further behind. -/
lemma Behind.next (h : Behind dpi σ K d w) (hK : K ≤ K') (hK' : K' ≤ K + 1) :
    Behind dpi σ K' (d + 1) w := by
  rcases h with h | ⟨j, hj, hd, hw⟩
  · exact .inl h
  · exact .inr ⟨j, by omega, by omega, hw⟩

/-- An instruction that does not write a CSR leaves it alone. -/
lemma RegW.Holds.applyWrite_csrWrite {r : RegW} (h : r.Holds w) {id : BitVec 12}
    (hne : decodeCsrWen w = true → decodeCsrWid w ≠ id) (f : BitVec 12 → BitVec 64) :
    applyWrite f r.csrWrite id = f id := by
  refine applyWrite_miss f ?_
  rw [RegW.csrWrite, h.csrWen, h.csrWid]
  split_ifs with hc
  · rw [hits_some]
    exact hne hc.1
  · exact not_hits_none id

/-- A stage that matches a source and holds a CSR instruction holds a step that names it. -/
lemma Behind.source {rs : BitVec 5} (h : Behind dpi σ K d w)
    (hclear : ∀ j < K, K ≤ j + d → instCsrInstr (σ.word dpi j) = true →
      rd (σ.word dpi j) = 0#5 ∨ rd (σ.word dpi j) ≠ rs)
    (hm : matchRs (rd w) (decodeRegWen w) rs = true) : instCsrInstr w = false := by
  by_contra hc
  rw [Bool.not_eq_false] at hc
  simp only [matchRs, Bool.and_eq_true, bne_iff_ne, beq_iff_eq] at hm
  rcases h with h | ⟨j, hj, hd, rfl⟩
  · simp [h.csrInstr] at hc
  · rcases hclear j hj hd hc with h0 | hne
    · exact hm.1.1 h0
    · exact hne hm.2

end Behind

namespace TopCpu

/-- Without an instruction in execute the CSRs stay as they are. -/
lemma DrainedCsr.edge_of_bubble {M : Type} {dpi : Dpi M} {s : TopCpu M} {σ : SeqState M}
    (h : DrainedCsr dpi s σ) (hi : Inv dpi s) (hv : s.regE.valid = false) :
    DrainedCsr dpi (step dpi false s) σ := by
  intro id hid
  have hstep : (step dpi false s).csrfile.csr id = applyWrite s.csrfile.csr s.regW.csrWrite id :=
    s.csrfile.next_csr s.regW hid
  rw [step_regW_eq, csrWrite_two_edges hi, csrWrite_of_regE_bubble hi hv, ← h id hid]
  exact applyWrite_congr (s.regWOfM dpi).csrWrite hstep

section Flight

variable {M : Type} {dpi : Dpi M} {s : TopCpu M} {σ : SeqState M} {n : ℕ} (hs : Fresh dpi s)
  (hamo : ∀ n, NoAmo (run dpi n s))
  (hf : ∀ m ≤ n, Follows dpi (run dpi m s) (σ.run dpi (executed dpi s m)))

include hs in
/-- The count of executed instructions goes up by one at most. -/
lemma executed_succ_le (m : ℕ) : executed dpi s (m + 1) ≤ executed dpi s m + 1 := by
  rw [executed_succ (hs.inv m)]
  exact Nat.add_le_add_left (Bool.toNat_le _) _

include hs hf

/-- Execute holds the last step or a bubble. -/
lemma exists_holdsE : ∃ w, (run dpi n s).regE.Holds w ∧
    Behind dpi σ (executed dpi s (n + 1)) 1 w := by
  obtain ⟨w, hw, hfl⟩ := (hs.inv n).holdsE
  refine ⟨w, hw, ?_⟩
  cases hv : (run dpi n s).regE.valid with
  | false => exact .inl (hfl.bubble hv).inert
  | true =>
    have hex := executed_succ (hs.inv n)
    rw [hv, Bool.toNat_true] at hex
    obtain ⟨f, hfi⟩ := issued_of_valid hv
    have hfetched := (hf n (Nat.le_refl n)).fetched f hfi
    rw [issued, if_pos hv, Option.some.injEq] at hfi
    refine .inr ⟨executed dpi s n, by omega, by omega, ?_⟩
    rw [hfl.eq hv, SeqState.word, ← hfetched, ← hfi]

include hamo

/-- Memory holds one of the last two steps or a bubble. -/
lemma exists_holdsM : ∃ w, (run dpi n s).regM.Holds w ∧
    Behind dpi σ (executed dpi s (n + 1)) 2 w := by
  cases n with
  | zero =>
    obtain ⟨w, hw, hfl⟩ := (hs.inv 0).holdsM
    exact ⟨w, hw, .inl (hfl.bubble hs.regM).inert⟩
  | succ n =>
    obtain ⟨w, hw, hb⟩ := exists_holdsE (n := n) hs fun m hm => hf m (by omega)
    refine ⟨w, ?_, hb.next (executed_le (Nat.le_succ _)) (executed_succ_le hs _)⟩
    rw [run_succ, step_regM, (hamo n).memory, if_neg Bool.false_ne_true]
    exact RegM.holds_latch hw _

/-- Write back holds one of the last three steps or a bubble. -/
private lemma exists_holdsW : ∃ w, (run dpi n s).regW.Holds w ∧
    Behind dpi σ (executed dpi s (n + 1)) 3 w := by
  cases n with
  | zero =>
    obtain ⟨w, hw, hfl⟩ := (hs.inv 0).holdsW
    exact ⟨w, hw, .inl (hfl.bubble hs.regW).inert⟩
  | succ n =>
    obtain ⟨w, hw, hb⟩ := exists_holdsM (n := n) hs hamo fun m hm => hf m (by omega)
    refine ⟨w, ?_, hb.next (executed_le (Nat.le_succ _)) (executed_succ_le hs _)⟩
    rw [run_succ, step_regW]
    exact RegW.holds_latch hw _

/-- No older instruction in flight changes a CSR that the last three steps do not write. -/
lemma csrKept_of_clear {id : BitVec 12}
    (hclear : ∀ j < executed dpi s (n + 1), executed dpi s (n + 1) ≤ j + 3 →
      decodeCsrWen (σ.word dpi j) = true → decodeCsrWid (σ.word dpi j) ≠ id) :
    (run dpi n s).CsrKept dpi id := by
  have hkeep : ∀ {r : RegW} {w : BitVec 32} {d : ℕ}, d ≤ 3 → r.Holds w →
      Behind dpi σ (executed dpi s (n + 1)) d w →
      applyWrite (run dpi n s).csrfile.csr r.csrWrite id = (run dpi n s).csrfile.csr id := by
    intro r w d hd hr hb
    refine hr.applyWrite_csrWrite (fun hwen => ?_) _
    rcases hb with hi | ⟨j, hj, hjd, rfl⟩
    · simp [hi.csrWen] at hwen
    · exact hclear j hj (by omega) hwen
  obtain ⟨wE, hE, hbE⟩ := exists_holdsE hs hf
  obtain ⟨wM, hM, hbM⟩ := exists_holdsM hs hamo hf
  obtain ⟨wW, hW, hbW⟩ := exists_holdsW hs hamo hf
  simp only [CsrKept, csrWrites, List.forall_mem_cons, List.not_mem_nil, false_implies,
    implies_true, and_true]
  exact ⟨hkeep (by decide) hW hbW, hkeep (by decide) (RegW.holds_latch hM _) hbM,
    hkeep (by decide) (RegW.holds_latch (RegM.holds_latch hE _) _) hbE⟩

/-- No CSR instruction in flight spoils a source that the last two steps do not have for their
destination. -/
lemma csrSourceExact_of_clear {rs : BitVec 5}
    (hclear : ∀ j < executed dpi s (n + 1), executed dpi s (n + 1) ≤ j + 2 →
      instCsrInstr (σ.word dpi j) = true →
      rd (σ.word dpi j) = 0#5 ∨ rd (σ.word dpi j) ≠ rs) :
    CsrSourceExact (run dpi n s) rs := by
  obtain ⟨wE, hE, hbE⟩ := exists_holdsE hs hf
  obtain ⟨wM, hM, hbM⟩ := exists_holdsM hs hamo hf
  refine ⟨fun hm hc => ?_, fun _ hm hc => ?_⟩
  · rw [writesE, hE.regRd, hE.regWen] at hm
    have hcsr := hbE.source (fun j hj hd => hclear j hj (by omega)) hm
    rw [selCsrRdata, hE.opcodeInfo, opcodeInfo_csrInstr, hcsr] at hc
    cases hc
  · rw [writesM, hM.regRd, hM.regWen] at hm
    have hcsr := hbM.source hclear hm
    rw [selCsrRdata, hM.opcodeInfo, opcodeInfo_csrInstr, hcsr] at hc
    cases hc

/-- **Decode reads safely** when the step that enters execute keeps its distance. -/
theorem csrSafe_of_spaced {N : ℕ} (hsp : SpacedTo dpi σ N) (hN : executed dpi s (n + 1) < N)
    (hw : (run dpi n s).regD.instr = σ.word dpi (executed dpi s (n + 1))) :
    (run dpi n s).CsrSafe dpi := by
  have hclear : ∀ j < executed dpi s (n + 1), executed dpi s (n + 1) ≤ j + 3 →
      Clear (executed dpi s (n + 1) - j) (σ.word dpi j) (run dpi n s).regD.instr :=
    fun j hj hd => hw ▸ hsp.clear j _ hj hd hN
  refine ⟨fun _ hc => ?_, fun _ hm => ?_, fun _ => ⟨?_, ?_⟩⟩
  · exact csrKept_of_clear hs hamo hf fun j hj hd => (hclear j hj hd).csr hc
  · exact csrKept_of_clear hs hamo hf fun j hj hd => (hclear j hj hd).mret hm
  · exact csrSourceExact_of_clear hs hamo hf fun j hj hd hc =>
      ((hclear j hj (by omega)).sources (by omega) hc).imp_right And.left
  · exact csrSourceExact_of_clear hs hamo hf fun j hj hd hc =>
      ((hclear j hj (by omega)).sources (by omega) hc).imp_right And.right

end Flight

/-! ## Whole runs -/

section Runs

variable {M : Type} {dpi : Dpi M} {s : TopCpu M} {σ : SeqState M} {N : ℕ} (hs : Fresh dpi s)
  (hstart : Follows dpi s σ ∧ DrainedCsr dpi s σ) (hempty : s.regD.valid = false)
  (hamo : ∀ n, NoAmo (run dpi n s))
  (hstable : ∀ m n, dpi.instrMemRead (run dpi (m + 1) s).mem (run dpi n s).pc =
    dpi.instrMemRead (run dpi m s).mem (run dpi n s).pc)
  (hsp : SpacedTo dpi σ N)
include hs hstart hempty hamo hstable hsp

/-- **The pipeline follows spaced steps**, with their CSRs.

**Proof sketch.** Strong induction on the cycle: what execute, memory and write back hold are the
last three steps, because the pipeline has followed the sequential machine so far.  So the step that
enters execute reads what the sequential machine reads (`csrSafe_of_spaced`). -/
theorem follows_spaced (n : ℕ) (hn : executed dpi s n < N) :
    Follows dpi (run dpi n s) (σ.run dpi (executed dpi s n)) ∧
      DrainedCsr dpi (run dpi n s) (σ.run dpi (executed dpi s n)) := by
  induction n using Nat.strong_induction_on with
  | _ n ih =>
    cases n with
    | zero =>
      rw [executed_zero hs]
      exact hstart
    | succ n =>
      have hlt : ∀ m ≤ n, executed dpi s m < N :=
        fun m hm => Nat.lt_of_le_of_lt (executed_le (by omega)) hn
      have hi := hs.inv n
      obtain ⟨hfol, hcsr⟩ := ih n (Nat.lt_succ_self n) (hlt n (Nat.le_refl n))
      have hnext := hfol.issueNext_run hi
      have hword : (run dpi n s).regD.valid = true →
          dpi.instrMemRead (run dpi 2 (run dpi n s)).mem (run dpi n s).regD.pc =
            (run dpi n s).regD.instr := fun hv => by
        rw [run_run]
        exact regD_stable hempty hstable hv (2 + n)
      have hD : EntersE dpi (run dpi n s) → (run dpi n s).regD.valid = true →
          (run dpi n s).regD.instr = σ.word dpi (executed dpi s (n + 1)) := fun he hv => by
        rw [SeqState.word, ← hnext, ← hfol.fetchedD_eq hi he hv (hword hv)]
        rfl
      have hsafe := fun he hv => csrSafe_of_spaced hs hamo
        (fun m hm => (ih m (by omega) (hlt m hm)).1) hsp hn (hD he hv)
      rw [run_succ, ← hnext]
      refine ⟨hfol.edge_of_reads hi (hamo n) (fun he hv => ?_) (fun he hv => ?_) hword,
        hcsr.edge hfol.toDrained hi⟩
      · exact operandsExact_of_sources hi hv he ((hsafe he hv).sources he)
      · refine csrReads_of_safe hfol.toDrained hcsr hi (hsafe he hv) (fun _ hc => ?_) he
        have ht := hsp.timer _ hn
        rw [← hD he hv] at ht
        exact ht hc

/-- So it follows the first `N` of them. -/
private lemma followsTo_spaced : FollowsTo dpi s σ N :=
  ⟨hs, ⟨hstart.1.regfile, hstart.1.mem⟩, hamo,
    fun n hn => (follows_spaced hs hstart hempty hamo hstable hsp n hn).1⟩

/-- The CSRs are those of the sequential machine until all `N` steps have left execute. -/
private lemma drainedCsr_spaced (n : ℕ) (hn : executed dpi s n ≤ N) :
    DrainedCsr dpi (run dpi n s) (σ.run dpi (executed dpi s n)) := by
  induction n with
  | zero =>
    rw [executed_zero hs]
    exact hstart.2
  | succ n ih =>
    have hex := executed_succ (hs.inv n)
    rw [run_succ]
    cases hv : (run dpi n s).regE.valid with
    | true =>
      rw [hv, Bool.toNat_true] at hex
      obtain ⟨hf, hc⟩ := follows_spaced hs hstart hempty hamo hstable hsp n (by omega)
      rw [← hf.issueNext_run (hs.inv n)]
      exact hc.edge hf.toDrained (hs.inv n)
    | false =>
      rw [hv, Bool.toNat_false, Nat.add_zero] at hex
      rw [hex] at hn ⊢
      exact (ih hn).edge_of_bubble (hs.inv n) hv

/-- Two edges after a step has left execute its CSR write has been performed. -/
private lemma csr_spaced {n : ℕ} (hn : executed dpi s n ≤ N) {id : BitVec 12}
    (hid : id ≠ Csr.timer) :
    (run dpi (n + 2) s).csrfile.csr id = (σ.run dpi (executed dpi s n)).csrfile.csr id := by
  rw [Nat.add_comm, ← run_run, run_two_csr hid]
  exact drainedCsr_spaced hs hstart hempty hamo hstable hsp n hn id hid

end Runs

/-! ## The first instructions from reset -/

section Reset

variable {M : Type} (dpi : Dpi M) (regfile : Regfile) (csrfile : Csrfile) (mem : M)

/-- After reset the pipeline follows the sequential machine in its own state. -/
private lemma follows_start : Follows dpi (afterReset regfile csrfile mem)
      (afterReset regfile csrfile mem).seqState ∧
    DrainedCsr dpi (afterReset regfile csrfile mem) (afterReset regfile csrfile mem).seqState := by
  refine ⟨⟨drained_afterReset dpi regfile csrfile mem rfl rfl,
    onPath_afterReset dpi regfile csrfile mem rfl, fun f hf => ?_⟩,
    drainedCsr_afterReset dpi regfile csrfile mem⟩
  rw [issued_afterReset] at hf
  cases hf

/-- Without atomic instructions in fetch there is none in the pipeline. -/
private lemma noAmo_run
    (hamo : ∀ n, instAmo ((run dpi n (afterReset regfile csrfile mem)).fetchOut dpi).instr = false)
    (n : ℕ) : NoAmo (run dpi n (afterReset regfile csrfile mem)) := by
  induction n with
  | zero => exact noAmo_afterReset regfile csrfile mem
  | succ n ih =>
    rw [run_succ]
    exact ih.edge (hamo n)

/-- What holds of nops and of every word that is fetched holds of every word in decode. -/
lemma word_regD {P : BitVec 32 → Prop} (hnop : P nopInstr)
    (hf : ∀ n, P ((run dpi n (afterReset regfile csrfile mem)).fetchOut dpi).instr) (n : ℕ) :
    P (run dpi n (afterReset regfile csrfile mem)).regD.instr := by
  induction n with
  | zero => exact hnop
  | succ n ih =>
    rw [run_succ, step_regD]
    split_ifs
    · exact hnop
    · exact ih
    · exact hf n

variable {N : ℕ} (hkept : ∀ a, InShadow dpi (afterReset regfile csrfile mem).seqState N a →
  ∀ j < N, dpi.instrMemRead ((afterReset regfile csrfile mem).seqState.run dpi j).mem a =
    dpi.instrMemRead mem a)
include hkept

/-- The steps are the same from frozen memory. -/
private lemma spacedTo_frozen (hsp : SpacedTo dpi (afterReset regfile csrfile mem).seqState N) :
    SpacedTo (dpi.frozen mem (InShadow dpi (afterReset regfile csrfile mem).seqState N))
      (afterReset regfile csrfile mem).seqState N := by
  have hpcs : ∀ k < N, InShadow dpi (afterReset regfile csrfile mem).seqState N
      ((afterReset regfile csrfile mem).seqState.run dpi k).pc :=
    fun k hk => ⟨k, hk, List.mem_cons_self⟩
  have hsame : ∀ k < N, _ := fun k hk => hkept _ (hpcs k hk) k hk
  have hword : ∀ k < N, (afterReset regfile csrfile mem).seqState.word
      (dpi.frozen mem (InShadow dpi (afterReset regfile csrfile mem).seqState N)) k =
      (afterReset regfile csrfile mem).seqState.word dpi k := by
    intro k hk
    rw [SeqState.word, SeqState.run_frozen hpcs hsame k (Nat.le_of_lt hk)]
    exact (instrMemRead_frozen ((afterReset regfile csrfile mem).seqState.run dpi k).mem
      (hpcs k hk)).trans (hsame k hk).symm
  refine ⟨fun k hk => ?_, fun j k hjk hd hk => ?_⟩
  · rw [hword k hk]
    exact hsp.timer k hk
  · rw [hword j (by omega), hword k hk]
    exact hsp.clear j k hjk hd hk

variable (hamo : ∀ a, InShadow dpi (afterReset regfile csrfile mem).seqState N a →
    instAmo (dpi.instrMemRead mem a) = false)
  (hsp : SpacedTo dpi (afterReset regfile csrfile mem).seqState N)
include hamo hsp

/-- From frozen memory the pipeline follows the first `N` instructions; two edges after the last of
them has left execute the CSRs are those of the sequential machine. -/
lemma frozen_spaced :
    let fdpi := dpi.frozen mem (InShadow dpi (afterReset regfile csrfile mem).seqState N)
    FollowsTo fdpi (afterReset regfile csrfile mem) (afterReset regfile csrfile mem).seqState N ∧
      ∀ c, executed fdpi (afterReset regfile csrfile mem) c = N → ∀ id, id ≠ Csr.timer →
        (run fdpi (c + 2) (afterReset regfile csrfile mem)).csrfile.csr id =
          ((afterReset regfile csrfile mem).seqState.run dpi N).csrfile.csr id := by
  intro fdpi
  have hfsp := spacedTo_frozen dpi regfile csrfile mem hkept hsp
  have hpcs : ∀ k < N, InShadow dpi (afterReset regfile csrfile mem).seqState N
      ((afterReset regfile csrfile mem).seqState.run dpi k).pc :=
    fun k hk => ⟨k, hk, List.mem_cons_self⟩
  have hrun := SeqState.run_frozen hpcs (fun k hk => hkept _ (hpcs k hk) k hk) N (Nat.le_refl N)
  have hfamo := noAmo_run fdpi regfile csrfile mem
    (@word_run_frozen _ dpi mem _ (fun w => instAmo w = false) hamo plain_nopInstr.decode.1 _)
  have hfs := fresh_afterReset fdpi regfile csrfile mem
  have hfstart := follows_start fdpi regfile csrfile mem
  refine ⟨followsTo_spaced hfs hfstart commitBit_zero hfamo (fun _ _ => rfl) hfsp,
    fun c hc id hid => ?_⟩
  have hcsr := csr_spaced hfs hfstart commitBit_zero hfamo (fun _ _ => rfl) hfsp (Nat.le_of_eq hc)
    hid
  rw [hc, hrun] at hcsr
  exact hcsr

/-- **The first `N` instructions, with their CSRs.**  Started by reset with any registers, CSRs and
memory: when the first `N` instructions of the sequential machine leave each other alone, no word in
their shadows is atomic and none of them changes one of these words, then within `5 N` cycles the
pipeline has retired exactly these instructions, with their registers, memory and CSRs; in every
cycle until then it tracks the sequential machine.

**Proof sketch.** From frozen memory the pipeline follows the steps (`frozen_spaced`), and up to the
last of them it shows the same from the memory itself (`tracks_prefix`). -/
theorem csrs_prefix (hN : 0 < N) :
    ∃ n < 5 * N, (commits dpi (afterReset regfile csrfile mem) (n + 1)).length = N ∧
      (∀ t ≤ n + 1, Tracks dpi (afterReset regfile csrfile mem)
        (afterReset regfile csrfile mem).seqState t) ∧
      (run dpi n (afterReset regfile csrfile mem)).mem =
        ((afterReset regfile csrfile mem).seqState.run dpi N).mem ∧
      ∀ id, id ≠ Csr.timer → (run dpi (n + 1) (afterReset regfile csrfile mem)).csrfile.csr id =
        ((afterReset regfile csrfile mem).seqState.run dpi N).csrfile.csr id := by
  obtain ⟨hfollow, hfcsr⟩ := frozen_spaced dpi regfile csrfile mem hkept hamo hsp
  obtain ⟨n, hn, hlen, htracks, hmem, hcommits, hcsr⟩ := @TopCpu.tracks_prefix _ dpi
    (afterReset regfile csrfile mem) (afterReset regfile csrfile mem).seqState N hfollow hkept hN
  refine ⟨n, hn, hlen, htracks, hmem, fun id hid => ?_⟩
  obtain ⟨m, rfl⟩ : ∃ m, n = m + 1 := by
    refine ⟨n - 1, ?_⟩
    by_contra hm
    have hle := @length_commits_le _ dpi (afterReset regfile csrfile mem) 2 (n + 1) (by omega)
    rw [hlen, ← executed, executed_zero (fresh_afterReset dpi regfile csrfile mem)] at hle
    omega
  have hexec : executed (dpi.frozen mem (InShadow dpi (afterReset regfile csrfile mem).seqState N))
      (afterReset regfile csrfile mem) m = N :=
    (congrArg List.length hcommits).symm.trans hlen
  exact (congrArg (fun f => f.csr id) hcsr).trans (hfcsr m hexec id hid)

end Reset

end TopCpu

end Riscv64Cpu.Pipeline
