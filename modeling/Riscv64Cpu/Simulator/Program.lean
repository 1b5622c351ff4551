import Riscv64Cpu.Isa.OnPipeline
import Riscv64Cpu.Simulator.Exec

set_option relaxedAutoImplicit false
set_option autoImplicit false

/-!
# A program on the simulator

What the simulator does with a program of RV64IM that comes to an `ebreak`: it runs the processor
and the reference side by side, finds no difference and stops at the `ebreak`.

## Main definitions

* `Simulator.Implements` — a reference that executes RV64IM.
* `Simulator.Ended` — the simulator at the end of a program.

## Main results

* `Simulator.follows_machine` — the rounds before the `ebreak`.
* `Simulator.program_ends` — the end of a program.
-/

namespace Riscv64Cpu.Simulator

open Pipeline Clocked

variable {R : Type}

/-- The reference executes the instructions of a program with code from `lo` up to `hi`: `Rel`
relates its states to machines of RV64IM, which it shows to the simulator and which the simulator
can force upon it again. -/
structure Implements (lo hi : ℕ) (sim : RefSim R) (Rel : R → Rv64im.Machine → Prop) : Prop where
  exec : ∀ r m i, Rel r m → m.word m.pc = Rv64im.Instr.encode i → Tame lo hi m i →
    Rel (sim.exec r 1) (i.exec m)
  toDut : ∀ r m, Rel r m → (sim.regcpyToDut r).pc = m.pc ∧
    ∀ i, (sim.regcpyToDut r).gpr i = m.regs.get (BitVec.ofFin i)
  toRef : ∀ r m c, Rel r m → c.pc = m.pc → (∀ i, c.gpr i = m.regs.get (BitVec.ofFin i)) →
    Rel (sim.regcpyToRef r c) m

/-- What the instruction trace receives for an instruction that retires. -/
def eventEntry (e : CommitEvent) : TraceEntry := ⟨e.pc, e.instr⟩

/-- The simulator `s` at the end of a program that has executed `is` from the machine `m`, when it
started as `s₀`: the reference, the copy of the registers, the instruction trace and the counts. -/
structure Ended (Rel : R → Rv64im.Machine → Prop) (m : Rv64im.Machine) (is : List Rv64im.Instr)
    (s₀ s : Simulation Memory.Pmem R) : Prop where
  ref : Rel s.ref (m.after is)
  gpr : ∀ i, s.cpu.gpr i = (m.after is).regs.get (BitVec.ofFin i)
  itrace : s.itrace = ((events is m).map eventEntry).foldl instrItrace s₀.itrace
  instrCount : s.simInstrCount = s₀.simInstrCount + BitVec.ofNat 64 is.length
  cycles : ∃ k ≤ 5 * (is.length + 1), s.simClkCount = s₀.simClkCount + BitVec.ofNat 64 k

/-- A round that ends the simulation. -/
private lemma execute_error {M : Type} {dpi : Dpi M} {sim : RefSim R} {fuel n k : ℕ}
    {s t : Simulation M R} {e : Ending × Simulation M R}
    (h : execute dpi sim fuel n s = some (.ok t))
    (ht : executeOne dpi sim fuel t = some (.error e)) (hk : n < k) :
    execute dpi sim fuel k s = some (.error e) := by
  obtain ⟨j, rfl⟩ : ∃ j, k = n + 1 + j := ⟨k - (n + 1), by omega⟩
  clear hk
  induction n generalizing s with
  | zero =>
    obtain rfl : s = t := Except.ok.inj (Option.some.inj h)
    rw [show 0 + 1 + j = j + 1 by omega, execute, ht]
  | succ n ih =>
    rw [execute] at h
    rw [show n + 1 + 1 + j = n + 1 + j + 1 by omega, execute]
    cases ho : executeOne dpi sim fuel s with
    | none => simp [ho] at h
    | some r =>
      cases r with
      | error e => simp [ho] at h
      | ok v =>
        rw [ho] at h
        exact ih h

/-- `ebreak` is calm. -/
private lemma calm_instEbreakWord : Calm instEbreakWord := by decide

section Program

variable {lo hi : ℕ} {sim : RefSim R} {Rel : R → Rv64im.Machine → Prop}

/-- It shows the sequential machine of the processor. -/
lemma Implements.copies (h : Implements lo hi sim Rel) :
    Copies sim fun r (σ : SeqState Memory.Pmem) => Rel r σ.machine :=
  ⟨fun r σ => h.toDut r σ.machine, fun r σ => h.toRef r σ.machine⟩

variable (hsim : Implements lo hi sim Rel) (regfile : Regfile) (csrfile : Csrfile)
  (mem : Memory.Pmem) {is : List Rv64im.Instr} (hlo : Memory.configMbase ≤ lo)
  (hhi : hi ≤ Memory.configMbase + Memory.configMsize)
  (h : (start regfile mem).Fetches (Tame lo hi) is) (s₀ : Simulation Memory.Pmem R)
  (hdut : s₀.dut = TopCpu.afterReset regfile csrfile mem)
  (hcpu : s₀.cpu = updateCpuState s₀.dut) (href : Rel s₀.ref (start regfile mem)) {fuel : ℕ}
  (hfuel : 4 ≤ fuel)
include hsim hlo hhi h hdut hcpu href hfuel

/-- **The rounds before the `ebreak`**, as long as the processor tracks the sequential machine.

**Proof sketch.** Induction on the number of rounds with `InStep.round`: the next instruction is one
of the program and so no `ebreak`, and the reference executes it. -/
theorem follows_machine {T : ℕ}
    (htracks : ∀ t ≤ T, TopCpu.Tracks Memory.dpi (TopCpu.afterReset regfile csrfile mem)
      (SeqState.afterReset regfile csrfile mem) t)
    (hlen : is.length <
      (TopCpu.commits Memory.dpi (TopCpu.afterReset regfile csrfile mem) T).length) :
    ∀ n ≤ is.length, ∃ s, execute Memory.dpi sim fuel n s₀ = some (.ok s) ∧
      InStep Memory.dpi (fun r σ => Rel r σ.machine) regfile csrfile mem s₀ n s := by
  intro n hn
  induction n with
  | zero =>
    refine ⟨s₀, rfl, ⟨0, Nat.le_refl 0, hdut, rfl, (BitVec.add_zero _).symm⟩, href, fun i => ?_,
      rfl, (BitVec.add_zero _).symm⟩
    rw [hcpu, hdut]
    rfl
  | succ n ih =>
    obtain ⟨s, hs, hin⟩ := ih (by omega)
    obtain ⟨hw, ht⟩ := fetches_run regfile csrfile mem hlo hhi h hn
    have hstep := SeqState.machine_step_of_tame hlo hhi _ _ ⟨hw, ht⟩
    rw [← SeqState.run_succ] at hstep
    obtain ⟨t, ht', hin'⟩ := hin.round htracks hfuel (by omega) hsim.copies
      (fun r hr => by
        rw [hstep]
        exact hsim.exec r _ _ hr hw ht)
      (by
        rw [SeqState.fetchOut_machine hlo hhi ht.toPlaced, hw]
        exact ne_instEbreakWord (plain_encode is[n]))
    exact ⟨t, execute_succ hs ht', hin'⟩

/-- **The end of a program**: with a reference that executes RV64IM, a program of RV64IM that keeps
to what it must and comes to an `ebreak` makes the simulator stop there, after comparing the
registers behind every instruction of the program and finding no difference.  The copy of the
registers then holds those of the machine, the instruction trace has received the instructions of
the program in order, the instructions are counted, and no instruction has taken more than five
cycles.

**Proof sketch.** The processor tracks the sequential machine until the `ebreak` has retired
(`TopCpu.tracks_prefix`), so the rounds go on until then (`follows_machine`), and the next commit is
the `ebreak` (`InStep.wait`). -/
theorem program_ends (hend : InCode lo hi ((start regfile mem).after is))
    (hebreak : ((start regfile mem).after is).word ((start regfile mem).after is).pc =
      instEbreakWord) {n : ℕ} (hn : is.length < n) :
    ∃ s, execute Memory.dpi sim fuel n s₀ =
        some (.error (.ebreak ((start regfile mem).after is).pc, s)) ∧
      Ended Rel (start regfile mem) is s₀ s := by
  have hlast := machine_run_length regfile csrfile mem hlo hhi h
  have hpc := congrArg Rv64im.Machine.pc hlast
  change ((SeqState.afterReset regfile csrfile mem).run Memory.dpi is.length).pc = _ at hpc
  have hcode : ∀ k < is.length + 1,
      InCode lo hi ((SeqState.afterReset regfile csrfile mem).run Memory.dpi k).machine ∧
      Calm (((SeqState.afterReset regfile csrfile mem).run Memory.dpi k).machine.word
        ((SeqState.afterReset regfile csrfile mem).run Memory.dpi k).pc) := by
    intro k hk
    obtain hk | rfl : k < is.length ∨ k = is.length := by omega
    · exact inCode_run regfile csrfile mem hlo hhi h k hk
    · rw [hlast, hpc, hebreak]
      exact ⟨hend, calm_instEbreakWord⟩
  obtain ⟨T, hT, hlen, htracks, -⟩ := @TopCpu.tracks_prefix _ Memory.dpi
    (TopCpu.afterReset regfile csrfile mem) (.afterReset regfile csrfile mem) (is.length + 1)
    (TopCpu.followsTo_frozen
      (calm_of_inShadow regfile csrfile mem hlo hhi h (Nat.le_refl _) hcode) _)
    ((codeRun_run regfile csrfile mem hlo hhi h (Nat.le_refl _) hcode).kept hlo hhi)
    (Nat.succ_pos _)
  obtain ⟨s, hs, hin⟩ := follows_machine hsim regfile csrfile mem hlo hhi h s₀ hdut hcpu href hfuel
    htracks (by omega) is.length (Nat.le_refl _)
  obtain ⟨c, hc, -, hwait, hev, -⟩ := hin.wait htracks hfuel (by omega)
  have hfetch : (((SeqState.afterReset regfile csrfile mem).run Memory.dpi
      is.length).fetchOut Memory.dpi).instr = instEbreakWord := by
    rw [SeqState.fetchOut_machine hlo hhi (hcode is.length (by omega)).1.toPlaced, hlast, hpc,
      hebreak]
  have hafter := @afterCommit_eq_ebreak _ _ Memory.dpi sim
    { s with
      dut := TopCpu.run Memory.dpi c (TopCpu.afterReset regfile csrfile mem)
      simClkCount := s₀.simClkCount + BitVec.ofNat 64 c } _ hfetch hev
  rw [hpc] at hafter
  obtain ⟨-, href, hgpr, hitrace, hcount⟩ := hin
  refine ⟨_, execute_error hs (by rw [executeOne, hwait, Option.map_some, hafter]) hn, ?_⟩
  refine ⟨hlast ▸ href, fun i => ?_, ?_, hcount, c + 1, by omega, ?_⟩
  · rw [← hlast]
    exact hgpr i
  · have hevents := @SeqState.commitEvents_run (.afterReset regfile csrfile mem) lo hi is hlo hhi h
    change _ = events is (start regfile mem) at hevents
    rw [← hevents, List.map_map]
    exact hitrace
  · show s₀.simClkCount + BitVec.ofNat 64 c + 1#64 = _
    rw [BitVec.ofNat_add, BitVec.add_assoc]

end Program

/-- The sequential machine is such a reference; the CSRs, which it may have taken over from the
processor, are not looked at. -/
private lemma implements_seqRef {lo hi : ℕ} (hlo : Memory.configMbase ≤ lo)
    (hhi : hi ≤ Memory.configMbase + Memory.configMsize) :
    Implements lo hi (seqRef Memory.dpi) fun σ m => σ.machine = m where
  exec := by
    rintro σ _ i rfl hw ht
    exact SeqState.machine_step_of_tame hlo hhi σ _ ⟨hw, ht⟩
  toDut := by
    rintro σ _ rfl
    exact ⟨rfl, fun _ => rfl⟩
  toRef := by
    rintro σ _ c rfl hpc hgpr
    have hregs : ((seqRef Memory.dpi).regcpyToRef σ c).regfile.regs = σ.regfile.regs := by
      refine Rv64i.Regs.ext fun r => ?_
      show (if r = 0#5 then 0#64 else c.gpr r.toFin) = σ.regfile.reg r
      split_ifs with hr
      · rw [hr, σ.regfile.x0]
      · exact hgpr r.toFin
    rw [SeqState.machine, hregs, SeqState.machine]
    congr 1

/-- The simulator after its initialisation, with a program in memory. -/
def boot (program : List (BitVec 32)) : Simulation Memory.Pmem (SeqState Memory.Pmem) where
  dut := Memory.boot program
  ref := SeqState.afterReset Regfile.initial Csrfile.initial (Memory.image program)
  cpu := updateCpuState (Memory.boot program)
  itrace := Itrace.initial
  simClkCount := 1#64
  simInstrCount := 0#64

/-- The small program with an `ebreak` behind it. -/
theorem program_ends_smallProgram :
    ∃ s, execute Memory.dpi (seqRef Memory.dpi) 4 100
        (boot (smallProgram.map Rv64im.Instr.encode ++ [instEbreakWord])) =
        some (.error (.ebreak 0x80000024#64, s)) ∧ s.cpu.gpr 10 = 7#64 := by
  have hlo : Memory.configMbase ≤ 0x80000000 := by decide
  have hhi : 0x80000040 ≤ Memory.configMbase + Memory.configMsize := by decide
  obtain ⟨s, hs, hend⟩ := @program_ends _ _ _ _ _ (implements_seqRef hlo hhi) Regfile.initial
    Csrfile.initial (Memory.image (smallProgram.map Rv64im.Instr.encode ++ [instEbreakWord]))
    (smallProgram.eraseIdx 7) hlo hhi (by decide +kernel)
    (boot (smallProgram.map Rv64im.Instr.encode ++ [instEbreakWord])) rfl rfl rfl 4 (by decide)
    (by decide +kernel) (by decide +kernel) 100 (by decide)
  have hpc : ((start Regfile.initial (Memory.image
      (smallProgram.map Rv64im.Instr.encode ++ [instEbreakWord]))).after
        (smallProgram.eraseIdx 7)).pc = 0x80000024#64 := by
    decide +kernel
  rw [hpc] at hs
  refine ⟨s, hs, (hend.gpr 10).trans ?_⟩
  decide +kernel

end Riscv64Cpu.Simulator
