import Riscv64Cpu.Pipeline.Retire
import Riscv64Cpu.Simulator.Difftest
import Riscv64Cpu.Simulator.Itrace

set_option relaxedAutoImplicit false
set_option autoImplicit false

/-!
# The simulation loop

`execute` in `exec.c`: for every instruction the simulator clocks the processor until it commits,
takes the commit, clocks once more, copies the state of the processor, records the instruction and
compares with the reference.  An `ebreak` or a difference ends the simulation.

## Main definitions

* `Simulator.Simulation` — the variables of the simulator with the processor and the reference.
* `Simulator.executeOne`, `execute` — a round of the loop, and the loop.
* `Simulator.Copies`, `Simulator.Shows` — a reference that behaves as the sequential machine.
* `Simulator.InStep` — the simulator after some rounds in step with the sequential machine.

## Main results

* `Simulator.InStep.round` — a round of the loop.
* `Simulator.execute_follows` — a program without atomic and system instructions runs without a
  report, instruction by instruction as on the sequential machine.
* `Simulator.execute_certifies` — a run without a report and without special instructions has the
  registers of the reference after every instruction, whatever the processor does.

## Design

The inner loop has a bound on its rounds, since a processor need not commit; the result is `none`
when the bound is reached.  `sim_exit` clocks the processor once more and exits.
-/

namespace Riscv64Cpu.Simulator

open Pipeline Clocked

variable {M R : Type}

/-! ## The simulator -/

/-- The processor, the reference and the variables of the simulator. -/
structure Simulation (M R : Type) where
  dut : TopCpu M
  ref : R
  cpu : CpuState
  itrace : Itrace
  simClkCount : BitVec 64
  simInstrCount : BitVec 64

/-- Why the simulation ended. -/
inductive Ending
  | ebreak (pc : BitVec 64)
  | diffError (error : DiffError)
deriving DecidableEq

/-- The word of `ebreak`. -/
def instEbreakWord : BitVec 32 := 0x00100073#32

/-- `get_commit_info`. -/
def getCommitInfo (dut : TopCpu M) : Commit where
  pc := dut.commitOut.pc
  nextPc := dut.commitOut.nextPc
  instr := dut.commitOut.instr
  memAddr := dut.commitOut.memAddr
  memRdata := dut.commitOut.memRdata
  memWdata := dut.commitOut.memWdata

/-- `update_cpu_state`: the pc is the one that the processor fetches from. -/
def updateCpuState (dut : TopCpu M) : CpuState where
  gpr := fun i => dut.regfile.reg (BitVec.ofFin i)
  pc := dut.pc
  csr := dut.csrfile.csr

section Loop

variable (dpi : Dpi M) (sim : RefSim R) (fuel : ℕ)

/-- `npc_single_cycle`. -/
def npcSingleCycle (s : Simulation M R) : Simulation M R :=
  { s with dut := TopCpu.step dpi false s.dut, simClkCount := s.simClkCount + 1#64 }

/-- `while (dut.commit != 1) npc_single_cycle();` with at most `fuel` cycles. -/
def waitCommit (s : Simulation M R) : Option (Simulation M R) :=
  loopUntil (fun t => t.dut.commitOut.commit) (npcSingleCycle dpi) fuel s

/-- The rest of a round, once the processor commits. -/
def afterCommit (s : Simulation M R) : Except (Ending × Simulation M R) (Simulation M R) :=
  let commit := getCommitInfo s.dut
  if commit.instr = instEbreakWord then .error (.ebreak commit.pc, npcSingleCycle dpi s)
  else
    let s := npcSingleCycle dpi s
    let s := { s with
      cpu := updateCpuState s.dut
      simInstrCount := s.simInstrCount + 1#64
      itrace := instrItrace s.itrace ⟨commit.pc, commit.instr⟩ }
    let out := difftestStep sim s.ref s.cpu commit
    let s := { s with ref := out.ref, cpu := out.cpu }
    match out.report with
    | some error => .error (.diffError error, npcSingleCycle dpi s)
    | none => .ok s

/-- One round of `execute`. -/
def executeOne (s : Simulation M R) :
    Option (Except (Ending × Simulation M R) (Simulation M R)) :=
  (waitCommit dpi fuel s).map (afterCommit dpi sim)

/-- `execute(n)`. -/
def execute : ℕ → Simulation M R → Option (Except (Ending × Simulation M R) (Simulation M R))
  | 0, s => some (.ok s)
  | n + 1, s =>
    match executeOne dpi sim fuel s with
    | some (.ok t) => execute n t
    | r => r

variable {dpi} {sim} {fuel}

/-- One more round. -/
lemma execute_succ {n : ℕ} {s t u : Simulation M R}
    (h : execute dpi sim fuel n s = some (.ok t))
    (ht : executeOne dpi sim fuel t = some (.ok u)) :
    execute dpi sim fuel (n + 1) s = some (.ok u) := by
  induction n generalizing s with
  | zero =>
    obtain rfl : s = t := Except.ok.inj (Option.some.inj h)
    rw [execute, ht]
    rfl
  | succ n ih =>
    rw [execute] at h ⊢
    cases ho : executeOne dpi sim fuel s with
    | none => simp [ho] at h
    | some r =>
      cases r with
      | error e => simp [ho] at h
      | ok v =>
        rw [ho] at h
        exact ih h

/-- A run of `n + 1` rounds is a run of `n` rounds and a round. -/
lemma execute_succ_inv {n : ℕ} {s u : Simulation M R}
    (h : execute dpi sim fuel (n + 1) s = some (.ok u)) :
    ∃ t, execute dpi sim fuel n s = some (.ok t) ∧ executeOne dpi sim fuel t = some (.ok u) := by
  induction n generalizing s with
  | zero =>
    rw [execute] at h
    cases ho : executeOne dpi sim fuel s with
    | none => simp [ho] at h
    | some r =>
      cases r with
      | error e => simp [ho] at h
      | ok v =>
        rw [ho] at h
        exact ⟨s, rfl, by rw [ho]; exact h⟩
  | succ n ih =>
    rw [execute] at h
    cases ho : executeOne dpi sim fuel s with
    | none => simp [ho] at h
    | some r =>
      cases r with
      | error e => simp [ho] at h
      | ok v =>
        rw [ho] at h
        obtain ⟨t, ht, hu⟩ := ih h
        exact ⟨t, by rw [execute, ho]; exact ht, hu⟩

/-- Cycles of the simulator are edges of the processor. -/
lemma iterate_npcSingleCycle (s : Simulation M R) (n : ℕ) : (npcSingleCycle dpi)^[n] s =
    { s with dut := TopCpu.run dpi n s.dut, simClkCount := s.simClkCount + BitVec.ofNat 64 n } := by
  induction n with
  | zero => simp
  | succ n ih =>
    rw [Function.iterate_succ_apply', ih, TopCpu.run_succ]
    simp only [npcSingleCycle, BitVec.add_assoc, BitVec.ofNat_add]

/-- The inner loop ends at the first commit, when that comes in time. -/
private lemma waitCommit_eq_some {s : Simulation M R} {j : ℕ} (hj : j ≤ fuel)
    (hbefore : ∀ i < j, (TopCpu.run dpi i s.dut).regW.valid = false)
    (hv : (TopCpu.run dpi j s.dut).regW.valid = true) : waitCommit dpi fuel s = some
      { s with
        dut := TopCpu.run dpi j s.dut
        simClkCount := s.simClkCount + BitVec.ofNat 64 j } := by
  have hstop : ∀ i, ((npcSingleCycle dpi)^[i] s).dut.commitOut.commit =
      (TopCpu.run dpi i s.dut).regW.valid := fun i => by
    rw [iterate_npcSingleCycle]
    rfl
  rw [← iterate_npcSingleCycle]
  exact loopUntil_eq_some hj (fun i hi => (hstop i).trans (hbefore i hi)) ((hstop j).trans hv)

end Loop

/-! ## Reports -/

/-- A step without a difference of the registers reports nothing. -/
private lemma checks_eq_none {ref cpu : CpuState} {commit : Commit}
    (h : ¬ RegsDiffer ref cpu commit) :
    (checkregs ref cpu commit.pc commit.nextPc).or
      (checkcsrs ref cpu commit.pc commit.nextPc) = none := by
  rw [checkcsrs_eq_none, Option.or_none, ← Option.not_isSome_iff_eq_none, checkregs_isSome_iff]
  exact h

/-! ## A reference that behaves as the sequential machine -/

/-- `Rel` relates the states of the reference to the states of the sequential machine, which it
shows to the simulator and which the simulator can force upon it again. -/
structure Copies (sim : RefSim R) (Rel : R → SeqState M → Prop) : Prop where
  toDut : ∀ r σ, Rel r σ → (sim.regcpyToDut r).pc = σ.pc ∧
    ∀ i, (sim.regcpyToDut r).gpr i = σ.regfile.reg (BitVec.ofFin i)
  toRef : ∀ r σ c, Rel r σ → c.pc = σ.pc → (∀ i, c.gpr i = σ.regfile.reg (BitVec.ofFin i)) →
    Rel (sim.regcpyToRef r c) σ

/-- The reference behaves as the sequential machine on plain words. -/
structure Shows (dpi : Dpi M) (sim : RefSim R) (Rel : R → SeqState M → Prop) : Prop
    extends Copies sim Rel where
  exec : ∀ r σ, Rel r σ → Plain (σ.fetchOut dpi).instr → Rel (sim.exec r 1) (σ.step dpi)

/-- The entry of the instruction trace for a step of the sequential machine. -/
def traceEntry (dpi : Dpi M) (σ : SeqState M) : TraceEntry := ⟨σ.pc, (σ.fetchOut dpi).instr⟩

section Follow

variable (dpi : Dpi M) (sim : RefSim R) (Rel : R → SeqState M → Prop)
  (regfile : Regfile) (csrfile : Csrfile) (mem : M) (s₀ : Simulation M R)

/-- The simulator after `n` rounds: the processor has retired `n` instructions, the reference has
executed as many, both have the registers of the sequential machine, and the trace has the
instructions. -/
structure InStep (n : ℕ) (s : Simulation M R) : Prop where
  cycles : ∃ k ≤ 5 * n, s.dut = TopCpu.run dpi k (TopCpu.afterReset regfile csrfile mem) ∧
    (TopCpu.commits dpi (TopCpu.afterReset regfile csrfile mem) k).length = n ∧
    s.simClkCount = s₀.simClkCount + BitVec.ofNat 64 k
  ref : Rel s.ref ((SeqState.afterReset regfile csrfile mem).run dpi n)
  gpr : ∀ i, s.cpu.gpr i =
    ((SeqState.afterReset regfile csrfile mem).run dpi n).regfile.reg (BitVec.ofFin i)
  itrace : s.itrace = ((List.range n).map fun i =>
    traceEntry dpi ((SeqState.afterReset regfile csrfile mem).run dpi i)).foldl instrItrace
      s₀.itrace
  instrCount : s.simInstrCount = s₀.simInstrCount + BitVec.ofNat 64 n

variable {dpi} {sim} {Rel} {regfile} {csrfile} {mem} {s₀}

/-- A comparison with a reference that shows the same pc and the same registers: no report,
whether or not the reference takes over the state of the processor. -/
private lemma difftestStep_quiet (hsim : Copies sim Rel) {r : R} {c : CpuState} {commit : Commit}
    {σ : SeqState M} (hr : Rel (sim.exec r 1) σ) (hnext : commit.nextPc = σ.pc)
    (hc : ∀ i, c.gpr i = σ.regfile.reg (BitVec.ofFin i)) :
    (difftestStep sim r c commit).report = none ∧ Rel (difftestStep sim r c commit).ref σ ∧
      ∀ i, (difftestStep sim r c commit).cpu.gpr i = σ.regfile.reg (BitVec.ofFin i) := by
  have hcpu : ∀ i, (difftestStep sim r c commit).cpu.gpr i = σ.regfile.reg (BitVec.ofFin i) := by
    intro i
    rw [← hc i, difftestStep]
    split_ifs <;> rfl
  have href : Rel (difftestStep sim r c commit).ref σ := by
    rw [difftestStep]
    dsimp only
    split_ifs
    · exact hsim.toRef _ _ _ hr hnext hc
    · exact hr
  refine ⟨?_, href, hcpu⟩
  obtain ⟨hpc, hgpr⟩ := hsim.toDut _ _ href
  refine checks_eq_none ?_
  rintro (hd | ⟨i, hd⟩)
  · exact hd (hnext.trans hpc.symm)
  · exact hd ((hgpr i).trans (hcpu i).symm)

/-- What the simulator takes from a commit of the sequential machine's next instruction. -/
lemma getCommitInfo_of_commitEvent {dut : TopCpu M} {σ : SeqState M}
    (hev : dut.regW.commitEvent = some (σ.commitEvent dpi)) : (getCommitInfo dut).pc = σ.pc ∧
      (getCommitInfo dut).instr = (σ.fetchOut dpi).instr ∧
      (getCommitInfo dut).nextPc = (σ.step dpi).pc := by
  rw [RegW.commitEvent] at hev
  split_ifs at hev
  obtain ⟨hpc, hinstr, hnext⟩ := CommitEvent.mk.inj (Option.some.inj hev)
  exact ⟨hpc, hinstr, hnext⟩

/-- `ebreak` is a system instruction. -/
lemma ne_instEbreakWord {w : BitVec 32} (h : Plain w) : w ≠ instEbreakWord := by
  rintro rfl
  exact h.2 (by decide)

/-- The rest of a round, when the processor commits the next instruction of the sequential
machine and the reference follows. -/
private lemma afterCommit_eq_ok {s : Simulation M R} {σ : SeqState M} (hsim : Copies sim Rel)
    (hexec : Rel (sim.exec s.ref 1) (σ.step dpi))
    (hne : (σ.fetchOut dpi).instr ≠ instEbreakWord)
    (hev : s.dut.regW.commitEvent = some (σ.commitEvent dpi))
    (hreg : (TopCpu.step dpi false s.dut).regfile = (σ.step dpi).regfile) :
    ∃ t, afterCommit dpi sim s = .ok t ∧ t.dut = TopCpu.step dpi false s.dut ∧
      t.simClkCount = s.simClkCount + 1#64 ∧ t.simInstrCount = s.simInstrCount + 1#64 ∧
      t.itrace = instrItrace s.itrace (traceEntry dpi σ) ∧ Rel t.ref (σ.step dpi) ∧
      ∀ i, t.cpu.gpr i = (σ.step dpi).regfile.reg (BitVec.ofFin i) := by
  obtain ⟨hpc, hinstr, hnext⟩ := getCommitInfo_of_commitEvent hev
  have hebreak : (getCommitInfo s.dut).instr ≠ instEbreakWord := hinstr ▸ hne
  have hgpr : ∀ i, (updateCpuState (TopCpu.step dpi false s.dut)).gpr i =
      (σ.step dpi).regfile.reg (BitVec.ofFin i) := fun i => by rw [← hreg]; rfl
  let out := difftestStep sim s.ref (updateCpuState (TopCpu.step dpi false s.dut))
    (getCommitInfo s.dut)
  obtain ⟨hreport, hrel, hcpu⟩ : out.report = none ∧ Rel out.ref (σ.step dpi) ∧
      ∀ i, out.cpu.gpr i = (σ.step dpi).regfile.reg (BitVec.ofFin i) :=
    difftestStep_quiet hsim hexec hnext hgpr
  refine ⟨{ npcSingleCycle dpi s with
      ref := out.ref
      cpu := out.cpu
      itrace := instrItrace s.itrace ⟨(getCommitInfo s.dut).pc, (getCommitInfo s.dut).instr⟩
      simInstrCount := s.simInstrCount + 1#64 }, ?_, rfl, rfl, rfl, ?_, hrel, hcpu⟩
  · rw [afterCommit, if_neg hebreak]
    show (match out.report with | some error => _ | none => _) = _
    rw [hreport]
    rfl
  · simp only [traceEntry, ← hpc, ← hinstr]

/-- An `ebreak` ends the simulation; the simulator has not looked at the processor again. -/
lemma afterCommit_eq_ebreak {s : Simulation M R} {σ : SeqState M}
    (heq : (σ.fetchOut dpi).instr = instEbreakWord)
    (hev : s.dut.regW.commitEvent = some (σ.commitEvent dpi)) :
    afterCommit dpi sim s = .error (.ebreak σ.pc, npcSingleCycle dpi s) := by
  obtain ⟨hpc, hinstr, -⟩ := getCommitInfo_of_commitEvent hev
  rw [afterCommit, if_pos (hinstr.trans heq), hpc]

section Round

variable {T : ℕ} (htracks : ∀ t ≤ T, TopCpu.Tracks dpi (TopCpu.afterReset regfile csrfile mem)
  (SeqState.afterReset regfile csrfile mem) t) {n : ℕ} {s : Simulation M R}
include htracks

/-- The simulator waits for the next commit, at most four cycles, and finds the next instruction of
the sequential machine there. -/
lemma InStep.wait (h : InStep dpi Rel regfile csrfile mem s₀ n s) {fuel : ℕ} (hfuel : 4 ≤ fuel)
    (hn : n < (TopCpu.commits dpi (TopCpu.afterReset regfile csrfile mem) T).length) :
    ∃ c ≤ 5 * n + 4, c < T ∧
      waitCommit dpi fuel s = some
        { s with
          dut := TopCpu.run dpi c (TopCpu.afterReset regfile csrfile mem)
          simClkCount := s₀.simClkCount + BitVec.ofNat 64 c } ∧
      (TopCpu.run dpi c (TopCpu.afterReset regfile csrfile mem)).regW.commitEvent =
        some (((SeqState.afterReset regfile csrfile mem).run dpi n).commitEvent dpi) ∧
      (TopCpu.commits dpi (TopCpu.afterReset regfile csrfile mem) (c + 1)).length = n + 1 := by
  obtain ⟨⟨k, hk, hdut, hcount, hclk⟩, -, -, -, -⟩ := h
  obtain ⟨j, hj, hv, hbefore, hsame⟩ :=
    TopCpu.first_commit (TopCpu.fresh_afterReset dpi regfile csrfile mem) k
  rw [hcount] at hsame
  have hlt : k + j < T := by
    by_contra hle
    have hmono := @TopCpu.length_commits_le _ dpi (TopCpu.afterReset regfile csrfile mem)
      (k + j) T (by omega)
    omega
  have hev := (htracks (k + j + 1) hlt).retire hv
  rw [hsame] at hev
  have hrun : ∀ i, TopCpu.run dpi i s.dut =
      TopCpu.run dpi (k + i) (TopCpu.afterReset regfile csrfile mem) := fun i => by
    rw [hdut, TopCpu.run_run, Nat.add_comm]
  have hwait := @waitCommit_eq_some _ _ dpi fuel s j (Nat.le_trans hj hfuel)
    (fun i hi => by rw [hrun]; exact hbefore i hi) (by rw [hrun]; exact hv)
  refine ⟨k + j, by omega, hlt, ?_, hev, ?_⟩
  · rw [hwait, hrun, hclk, BitVec.ofNat_add, BitVec.add_assoc]
  · rw [TopCpu.length_commits_of_valid hv, hsame]

/-- **A round of the loop**, when the reference executes the next instruction of the sequential
machine and this is no `ebreak`: the simulator goes on in step with the sequential machine. -/
theorem InStep.round (h : InStep dpi Rel regfile csrfile mem s₀ n s) {fuel : ℕ} (hfuel : 4 ≤ fuel)
    (hn : n < (TopCpu.commits dpi (TopCpu.afterReset regfile csrfile mem) T).length)
    (hsim : Copies sim Rel)
    (hexec : ∀ r, Rel r ((SeqState.afterReset regfile csrfile mem).run dpi n) →
      Rel (sim.exec r 1) ((SeqState.afterReset regfile csrfile mem).run dpi (n + 1)))
    (hne : (((SeqState.afterReset regfile csrfile mem).run dpi n).fetchOut dpi).instr ≠
      instEbreakWord) :
    ∃ t, executeOne dpi sim fuel s = some (.ok t) ∧
      InStep dpi Rel regfile csrfile mem s₀ (n + 1) t := by
  obtain ⟨c, hc, hlt, hwait, hev, hcount'⟩ := h.wait htracks hfuel hn
  obtain ⟨-, href, -, hitrace, hcount⟩ := h
  rw [SeqState.run_succ] at hexec
  have hreg : (TopCpu.step dpi false
      (TopCpu.run dpi c (TopCpu.afterReset regfile csrfile mem))).regfile =
        (((SeqState.afterReset regfile csrfile mem).run dpi n).step dpi).regfile := by
    rw [← TopCpu.run_succ, (htracks (c + 1) hlt).registers, hcount', SeqState.run_succ]
  obtain ⟨t, ht, htdut, htclk, htcount, htitrace, htref, htgpr⟩ := afterCommit_eq_ok hsim
    (s := { s with
      dut := TopCpu.run dpi c (TopCpu.afterReset regfile csrfile mem)
      simClkCount := s₀.simClkCount + BitVec.ofNat 64 c })
    (hexec s.ref href) hne hev hreg
  refine ⟨t, by rw [executeOne, hwait, Option.map_some, ht], ?_⟩
  refine ⟨⟨c + 1, by omega, ?_, hcount', ?_⟩, ?_, ?_, ?_, ?_⟩
  · rw [htdut, TopCpu.run_succ]
  · rw [htclk, BitVec.ofNat_add, BitVec.add_assoc]
  · rw [SeqState.run_succ]
    exact htref
  · rw [SeqState.run_succ]
    exact htgpr
  · rw [htitrace, hitrace, List.range_succ, List.map_append, List.foldl_append]
    rfl
  · rw [htcount, hcount, BitVec.ofNat_add, BitVec.add_assoc]

end Round

end Follow

/-- **A correct processor runs without a report.**  A program of which no fetched word is atomic
or a system instruction and no store changes a fetched word, with a reference that behaves as the
sequential machine and starts with the same registers and the same memory: for every number `n`
of rounds the loop comes to its end without a report, after at most five cycles for each
instruction; the reference and the copy of the processor's state then have the registers of the
sequential machine after `n` steps, and the instruction trace has received these steps.  Loads and
stores of devices, for which the reference takes over the processor's state, are included.

**Proof sketch.** Induction on `n` with `InStep.round`: the next commit comes within four edges
(`first_commit`), it is the next step of the sequential machine (`tracks_run`), whose word was
fetched before (`retired_fetched`), and so the pc and the registers compared are equal
(`difftestStep_quiet`). -/
theorem execute_follows (dpi : Dpi M) (sim : RefSim R) (Rel : R → SeqState M → Prop)
    (hsim : Shows dpi sim Rel) (regfile : Regfile) (csrfile : Csrfile) (mem : M)
    (hplain : ∀ n, Plain
      ((TopCpu.run dpi n (TopCpu.afterReset regfile csrfile mem)).fetchOut dpi).instr)
    (hstable : ∀ m n,
      dpi.instrMemRead (TopCpu.run dpi (m + 1) (TopCpu.afterReset regfile csrfile mem)).mem
          (TopCpu.run dpi n (TopCpu.afterReset regfile csrfile mem)).pc =
        dpi.instrMemRead (TopCpu.run dpi m (TopCpu.afterReset regfile csrfile mem)).mem
          (TopCpu.run dpi n (TopCpu.afterReset regfile csrfile mem)).pc)
    (s₀ : Simulation M R) (hdut : s₀.dut = TopCpu.afterReset regfile csrfile mem)
    (hcpu : s₀.cpu = updateCpuState s₀.dut)
    (href : Rel s₀.ref (SeqState.afterReset regfile csrfile mem)) (fuel : ℕ) (hfuel : 4 ≤ fuel)
    (n : ℕ) : ∃ s, execute dpi sim fuel n s₀ = some (.ok s) ∧
      InStep dpi Rel regfile csrfile mem s₀ n s := by
  induction n with
  | zero =>
    refine ⟨s₀, rfl, ⟨0, Nat.le_refl 0, hdut, rfl, (BitVec.add_zero _).symm⟩, href, fun i => ?_,
      rfl, (BitVec.add_zero _).symm⟩
    rw [hcpu, hdut]
    rfl
  | succ n ih =>
    obtain ⟨s, hs, hin⟩ := ih
    have hcalm := fun i => (hplain i).decode
    -- the cycle of the next commit, and where its word was fetched
    obtain ⟨k, -, -, hk⟩ :=
      TopCpu.retires_within (TopCpu.fresh_afterReset dpi regfile csrfile mem) 0 n
    rw [show (TopCpu.commits dpi (TopCpu.afterReset regfile csrfile mem) 0).length = 0 from rfl,
      Nat.zero_add] at hk
    obtain ⟨j, -, hv, -, hsame⟩ :=
    TopCpu.first_commit (TopCpu.fresh_afterReset dpi regfile csrfile mem) k
    obtain ⟨l, hl⟩ := TopCpu.retired_fetched dpi regfile csrfile mem hcalm hstable hv
    rw [hsame, hk] at hl
    have hp : Plain (((SeqState.afterReset regfile csrfile mem).run dpi n).fetchOut dpi).instr := by
      rw [hl]
      exact hplain l
    obtain ⟨t, ht, hin'⟩ := hin.round (T := k + j + 1)
      (fun i _ => TopCpu.tracks_run dpi regfile csrfile mem hcalm hstable i) hfuel
      (by rw [TopCpu.length_commits_of_valid hv, hsame, hk]; exact Nat.lt_succ_self n)
      hsim.toCopies (fun r hr => SeqState.run_succ dpi _ n ▸ hsim.exec r _ hr hp)
      (ne_instEbreakWord hp)
    exact ⟨t, execute_succ hs ht, hin'⟩

/-- The sequential machine as the reference. -/
def seqRef (dpi : Dpi M) : RefSim (SeqState M) where
  exec σ n := σ.run dpi n
  regcpyToRef σ c :=
    { pc := c.pc
      regfile := ⟨fun r => if r = 0#5 then 0#64 else c.gpr r.toFin, rfl⟩
      csrfile := ⟨c.csr, σ.csrfile.cpuMode⟩
      mem := σ.mem }
  regcpyToDut σ := ⟨fun i => σ.regfile.reg (BitVec.ofFin i), σ.pc, σ.csrfile.csr⟩

/-- It behaves as the sequential machine, the CSRs apart, which it may have taken over from the
processor. -/
private lemma shows_seqRef (dpi : Dpi M) : Shows dpi (seqRef dpi) SameButCsr where
  exec _ _ h hp := h.step (by rwa [h.fetchOut])
  toDut _ _ h := ⟨h.pc, fun _ => by rw [← h.regfile]; rfl⟩
  toRef _ σ c h hpc hgpr := by
    refine ⟨hpc, Regfile.ext fun r => ?_, h.mem⟩
    show (if r = 0#5 then 0#64 else c.gpr r.toFin) = σ.regfile.reg r
    split_ifs with hr
    · rw [hr, σ.regfile.x0]
    · exact hgpr r.toFin

/-- The simulator after its initialisation, for a program in read-only memory. -/
def bootRom : Simulation Unit (SeqState Unit) where
  dut := TopCpu.afterReset Regfile.initial Csrfile.initial ()
  ref := SeqState.afterReset Regfile.initial Csrfile.initial ()
  cpu := updateCpuState (TopCpu.afterReset Regfile.initial Csrfile.initial ())
  itrace := Itrace.initial
  simClkCount := 1#64
  simInstrCount := 0#64

/-- Twenty instructions of a program with a load, a store and a jump. -/
theorem execute_follows_hazards :
    ∃ s, execute (TopCpu.romDpi TopCpu.hazards) (seqRef (TopCpu.romDpi TopCpu.hazards)) 4 20
        bootRom = some (.ok s) ∧
      InStep (TopCpu.romDpi TopCpu.hazards) SameButCsr Regfile.initial Csrfile.initial ()
        bootRom 20 s := by
  have hall : ∀ w ∈ nopInstr :: TopCpu.hazards, Plain w := by
    simp only [TopCpu.hazards, List.forall_mem_cons, List.not_mem_nil, false_implies,
      implies_true, and_true]
    decide +kernel
  exact execute_follows _ _ _ (shows_seqRef _) _ _ () (fun _ => TopCpu.plain_romDpi hall _)
    (fun _ _ => TopCpu.instrMemRead_romDpi _ _ _ _) _ rfl rfl SameButCsr.rfl 4 (by decide) 20

/-! ## What a run without a report certifies -/

section Certify

variable (dpi : Dpi M) (sim : RefSim R) (fuel : ℕ)

/-- The processor after `n` commits, each waited for with at most `fuel` cycles. -/
def dutAfter (dut : TopCpu M) : ℕ → Option (TopCpu M)
  | 0 => some dut
  | n + 1 => ((dutAfter dut n).bind (TopCpu.waitForCommit dpi fuel)).map (TopCpu.step dpi false)

/-- The processor `c` commits, with the pc and the registers that the reference shows after one
more instruction, and the instruction is no `ebreak`. -/
structure CommitAgrees (ref : R) (c : TopCpu M) : Prop where
  ne_ebreak : (getCommitInfo c).instr ≠ instEbreakWord
  nextPc : (getCommitInfo c).nextPc = (sim.regcpyToDut (sim.exec ref 1)).pc
  gpr : ∀ i, (TopCpu.step dpi false c).regfile.reg (BitVec.ofFin i) =
    (sim.regcpyToDut (sim.exec ref 1)).gpr i

/-- The processor commits in time after `i` commits, and the commit agrees with the reference. -/
def RoundAgrees (dut : TopCpu M) (ref : R) (i : ℕ) : Prop :=
  ∃ d c, dutAfter dpi fuel dut i = some d ∧ TopCpu.waitForCommit dpi fuel d = some c ∧
    CommitAgrees dpi sim ((fun r => sim.exec r 1)^[i] ref) c

/-- None of the first `n` commits is one for which the reference takes over the state of the
processor. -/
def NoSpecial (dut : TopCpu M) (n : ℕ) : Prop :=
  ∀ i < n, ∀ d c, dutAfter dpi fuel dut i = some d → TopCpu.waitForCommit dpi fuel d = some c →
    isSpecialInstr (getCommitInfo c) = false

variable {dpi} {sim} {fuel}

variable (dpi) (fuel) in
/-- The inner loop, seen on the processor. -/
lemma waitCommit_map_dut (s : Simulation M R) :
    (waitCommit dpi fuel s).map Simulation.dut = TopCpu.waitForCommit dpi fuel s.dut := by
  rw [waitCommit, TopCpu.waitForCommit]
  refine loopUntil_map (p := Simulation.dut) ?_ ?_ fuel s
  · exact fun _ => rfl
  · exact fun _ => rfl

/-- The inner loop clocks the processor and nothing else. -/
lemma waitForCommit_of_waitCommit {s w : Simulation M R} (h : waitCommit dpi fuel s = some w) :
    TopCpu.waitForCommit dpi fuel s.dut = some w.dut ∧ w.ref = s.ref := by
  have hdut := waitCommit_map_dut dpi fuel s
  refine ⟨by rw [← hdut, h, Option.map_some], ?_⟩
  obtain ⟨i, rfl⟩ := exists_iterate_of_loopUntil h
  rw [iterate_npcSingleCycle]

/-- It ends when the wait for the processor alone ends. -/
private lemma waitCommit_of_waitForCommit {s : Simulation M R} {c : TopCpu M}
    (h : TopCpu.waitForCommit dpi fuel s.dut = some c) :
    ∃ w, waitCommit dpi fuel s = some w ∧ w.dut = c ∧ w.ref = s.ref := by
  have hdut := waitCommit_map_dut dpi fuel s
  rw [h, Option.map_eq_some_iff] at hdut
  obtain ⟨w, hw, hwc⟩ := hdut
  exact ⟨w, hw, hwc, (waitForCommit_of_waitCommit hw).2⟩

/-- The commit agrees with the reference exactly when it is no `ebreak` and no register differs. -/
private lemma commitAgrees_iff {ref : R} {c : TopCpu M} : CommitAgrees dpi sim ref c ↔
    (getCommitInfo c).instr ≠ instEbreakWord ∧
      ¬ RegsDiffer (sim.regcpyToDut (sim.exec ref 1)) (updateCpuState (TopCpu.step dpi false c))
        (getCommitInfo c) := by
  rw [RegsDiffer, not_or, not_ne_iff, not_exists]
  constructor
  · rintro ⟨hne, hpc, hgpr⟩
    exact ⟨hne, hpc, fun i hi => hi (hgpr i).symm⟩
  · rintro ⟨hne, hpc, hgpr⟩
    exact ⟨hne, hpc, fun i => (not_ne_iff.mp (hgpr i)).symm⟩

/-- The rest of a round goes on exactly when the commit agrees with the reference. -/
lemma afterCommit_ok_iff {s : Simulation M R}
    (hs : isSpecialInstr (getCommitInfo s.dut) = false) :
    (∃ t, afterCommit dpi sim s = .ok t) ↔ CommitAgrees dpi sim s.ref s.dut := by
  have hreport := report_isSome_iff sim s.ref (updateCpuState (TopCpu.step dpi false s.dut))
    (getCommitInfo s.dut) hs
  rw [commitAgrees_iff, ← hreport, afterCommit]
  by_cases he : (getCommitInfo s.dut).instr = instEbreakWord
  · simp [he]
  · simp only [npcSingleCycle, he, if_false, ne_eq, not_false_eq_true, true_and]
    cases (difftestStep sim s.ref (updateCpuState (TopCpu.step dpi false s.dut))
      (getCommitInfo s.dut)).report <;> simp

/-- A round that goes on clocks the processor and lets the reference execute one instruction. -/
private lemma afterCommit_ok {s t : Simulation M R}
    (hs : isSpecialInstr (getCommitInfo s.dut) = false) (h : afterCommit dpi sim s = .ok t) :
    t.dut = TopCpu.step dpi false s.dut ∧ t.ref = sim.exec s.ref 1 := by
  rw [afterCommit] at h
  by_cases he : (getCommitInfo s.dut).instr = instEbreakWord
  · simp [he] at h
  · simp only [npcSingleCycle, he, if_false] at h
    split at h
    · cases h
    · cases h
      simp [difftestStep, hs]

/-- The processor and the reference after a run that goes on. -/
lemma execute_ok {s₀ s : Simulation M R} {n : ℕ} (hspecial : NoSpecial dpi fuel s₀.dut n)
    (h : execute dpi sim fuel n s₀ = some (.ok s)) :
    dutAfter dpi fuel s₀.dut n = some s.dut ∧ s.ref = (fun r => sim.exec r 1)^[n] s₀.ref := by
  induction n generalizing s with
  | zero =>
    obtain rfl : s₀ = s := Except.ok.inj (Option.some.inj h)
    exact ⟨rfl, rfl⟩
  | succ n ih =>
    obtain ⟨t, ht, hs⟩ := execute_succ_inv h
    obtain ⟨hdut, href⟩ := ih (fun i hi => hspecial i (by omega)) ht
    rw [executeOne, Option.map_eq_some_iff] at hs
    obtain ⟨w, hw, hs⟩ := hs
    obtain ⟨hc, hwref⟩ := waitForCommit_of_waitCommit hw
    obtain ⟨hsdut, hsref⟩ := afterCommit_ok (hspecial n (Nat.lt_succ_self n) _ _ hdut hc) hs
    refine ⟨?_, ?_⟩
    · rw [dutAfter, hdut, Option.bind_some, hc, Option.map_some, hsdut]
    · rw [hsref, hwref, href, Function.iterate_succ_apply']

end Certify

/-- **A run without a report is certified.**  Whatever the processor and the reference are, and
when no commit is one for which the reference takes over the processor's state: the loop comes to
the end of `n` rounds without a report if and only if at each of the `n` commits the processor
committed in time, the instruction was no `ebreak`, and the next pc of the commit and all general
registers after it are those of the reference after as many instructions.

**Proof sketch.** Induction on `n`.  A round that goes on leaves the processor behind its commit
and the reference one instruction further (`execute_ok`), and it goes on exactly when the two
agree (`afterCommit_ok_iff`). -/
theorem execute_certifies (dpi : Dpi M) (sim : RefSim R) (fuel : ℕ) (s₀ : Simulation M R)
    (n : ℕ) (hspecial : NoSpecial dpi fuel s₀.dut n) :
    (∃ s, execute dpi sim fuel n s₀ = some (.ok s)) ↔
      ∀ i < n, RoundAgrees dpi sim fuel s₀.dut s₀.ref i := by
  induction n with
  | zero => simp [execute]
  | succ n ih =>
    have hbefore : NoSpecial dpi fuel s₀.dut n := fun i hi => hspecial i (by omega)
    have hlast := hspecial n (Nat.lt_succ_self n)
    rw [Nat.forall_lt_succ_right, ← ih hbefore]
    constructor
    · rintro ⟨s, hs⟩
      obtain ⟨t, ht, hst⟩ := execute_succ_inv hs
      obtain ⟨hdut, href⟩ := execute_ok hbefore ht
      rw [executeOne, Option.map_eq_some_iff] at hst
      obtain ⟨w, hw, hst⟩ := hst
      obtain ⟨hc, hwref⟩ := waitForCommit_of_waitCommit hw
      refine ⟨⟨t, ht⟩, t.dut, w.dut, hdut, hc, ?_⟩
      rw [← href, ← hwref]
      exact (afterCommit_ok_iff (hlast _ _ hdut hc)).mp ⟨s, hst⟩
    · rintro ⟨⟨t, ht⟩, d, c, hd, hc, hagree⟩
      obtain ⟨hdut, href⟩ := execute_ok hbefore ht
      obtain rfl : d = t.dut := Option.some.inj (hd.symm.trans hdut)
      obtain ⟨w, hw, rfl, hwref⟩ := waitCommit_of_waitForCommit hc
      rw [← href, ← hwref] at hagree
      obtain ⟨s, hs⟩ := (afterCommit_ok_iff (hlast _ _ hdut hc)).mpr hagree
      exact ⟨s, execute_succ ht (by rw [executeOne, hw, Option.map_some, hs])⟩

/-- Three instructions of a memory full of nops. -/
theorem execute_certifies_nops :
    (∃ s, execute (TopCpu.romDpi []) (seqRef (TopCpu.romDpi [])) 4 3 bootRom =
        some (.ok s)) ↔
      ∀ i < 3, RoundAgrees (TopCpu.romDpi []) (seqRef (TopCpu.romDpi [])) 4 bootRom.dut
        bootRom.ref i := by
  have hall : ∀ i < 3, ((dutAfter (TopCpu.romDpi []) 4 bootRom.dut i).bind
      (TopCpu.waitForCommit (TopCpu.romDpi []) 4)).map
        (fun c => isSpecialInstr (getCommitInfo c)) = some false := by decide +kernel
  refine execute_certifies _ _ _ _ 3 fun i hi d c hd hc => ?_
  have h := hall i hi
  rw [hd, Option.bind_some, hc] at h
  exact Option.some.inj h

end Riscv64Cpu.Simulator
