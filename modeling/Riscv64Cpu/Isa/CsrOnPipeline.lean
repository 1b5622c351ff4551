import Riscv64Cpu.Isa.CsrInstr
import Riscv64Cpu.Isa.OnPipeline
import Riscv64Cpu.Isa.Rv64imZicsr
import Riscv64Cpu.Pipeline.Spaced

set_option relaxedAutoImplicit false
set_option autoImplicit false

/-!
# RV64IM with Zicsr on the pipeline

Programs with CSR instructions.  The pipeline has no interlock for them, so beside the conditions
on programs of RV64IM the words that are executed keep their distance (`Spaced`); then the pipeline
retires what the machine of RV64IM with Zicsr executes, and shows its registers, memory and CSRs.

## Main definitions

* `Pipeline.Csrfile.visible` — the CSRs of the machine.
* `Pipeline.SeqState.csrMachine` — the machine in a state of the sequential machine.
* `Pipeline.CsrTame` — what a program must keep to.

## Main results

* `Pipeline.SeqState.step_csrInstr` — a CSR instruction on the sequential machine.
* `Pipeline.SeqState.csrMachine_step` — an instruction on the sequential machine.
* `Pipeline.implements_zicsr` — a run on the pipeline.
-/

namespace Riscv64Cpu.Pipeline

open Clocked Rv64i

/-! ## Programs -/

/-- The CSRs as the machine has them, which does not know of the timer. -/
def Csrfile.visible (f : Csrfile) : BitVec 12 → BitVec 64 :=
  Function.update f.csr Csr.timer 0#64

/-- The machine sees every CSR but the timer. -/
lemma Csrfile.visible_of_ne (f : Csrfile) {id : BitVec 12} (h : id ≠ Csr.timer) :
    f.visible id = f.csr id :=
  Function.update_of_ne h _ _

/-- It does not see what the timer is. -/
lemma Csrfile.visible_congr {f g : Csrfile} (h : ∀ id, id ≠ Csr.timer → f.csr id = g.csr id) :
    f.visible = g.visible := by
  funext id
  by_cases hid : id = Csr.timer
  · rw [hid, visible, visible, Function.update_self, Function.update_self]
  · rw [f.visible_of_ne hid, g.visible_of_ne hid, h id hid]

section Programs

variable (lo hi : ℕ)

/-- The instruction does what it should on the processor: a CSR instruction names an implemented CSR
that is not the timer, and if it has an immediate, then the register with this number agrees with it
in the bits that matter. -/
def Allowed (s : Rv64imZicsr.Machine) : Rv64imZicsr.Instr → Prop
  | .im i => Permitted lo hi (i.effectOn s.toMachine).access ∧ DivisorOk s.regs.get i
  | .csr op _ src id => checkCsrId id = true ∧ id ≠ Csr.timer ∧
      (op.immediate = true → s.regs.get src &&& op.mask (s.csrs id) =
        src.setWidth 64 &&& op.mask (s.csrs id))

instance decidableAllowed (s : Rv64imZicsr.Machine) :
    (i : Rv64imZicsr.Instr) → Decidable (Allowed lo hi s i)
  | .im i => inferInstanceAs
    (Decidable (Permitted lo hi (i.effectOn s.toMachine).access ∧ DivisorOk s.regs.get i))
  | .csr op _ src id => inferInstanceAs (Decidable (checkCsrId id = true ∧ id ≠ Csr.timer ∧
      (op.immediate = true → s.regs.get src &&& op.mask (s.csrs id) =
        src.setWidth 64 &&& op.mask (s.csrs id))))

/-- **What a program must keep to**: it stays in its code, where no atomic instruction stands close
behind, and its instructions do what they should. -/
structure CsrTame (s : Rv64imZicsr.Machine) (i : Rv64imZicsr.Instr) : Prop
    extends Placed lo hi s.toMachine where
  noAmo : instAmo (s.word (s.pc + 4#64)) = false ∧ instAmo (s.word (s.pc + 8#64)) = false
  allowed : Allowed lo hi s i

instance decidableCsrTame (s : Rv64imZicsr.Machine) (i : Rv64imZicsr.Instr) :
    Decidable (CsrTame lo hi s i) :=
  decidable_of_iff (Placed lo hi s.toMachine ∧ (instAmo (s.word (s.pc + 4#64)) = false ∧
      instAmo (s.word (s.pc + 8#64)) = false) ∧ Allowed lo hi s i)
    ⟨fun ⟨h1, h2, h3⟩ => ⟨h1, h2, h3⟩, fun ⟨h1, h2, h3⟩ => ⟨h1, h2, h3⟩⟩

end Programs

/-- What an instruction retires with. -/
def csrEvent (i : Rv64imZicsr.Instr) (s : Rv64imZicsr.Machine) : CommitEvent :=
  ⟨s.pc, i.encode, (i.exec s).pc⟩

/-! ## The sequential machine -/

namespace SeqState

/-- **A CSR instruction on the sequential machine**: it goes on to the next word, leaves the memory
alone, and exchanges the CSR with its destination, taking a register for the source. -/
theorem step_csrInstr {M : Type} (dpi : Dpi M) (σ : SeqState M) (op : Zicsr.Op)
    (rd src : BitVec 5) (id : BitVec 12) (hw : (σ.fetchOut dpi).instr = op.encode rd src id)
    (hid : checkCsrId id = true) :
    (step dpi σ).pc = σ.pc + 4#64 ∧
    (step dpi σ).regfile.reg = applyWrite σ.regfile.reg (write rd (σ.csrfile.csr id)) ∧
    (step dpi σ).mem = σ.mem ∧
    (σ.regW dpi).csrWrite = some (id, op.newValue (σ.csrfile.csr id) (σ.regfile.reg src)) := by
  have hc := instCsrInstr_encode op rd src id
  have hwrites := csrInstr_writes dpi σ.mem Bypass.idle σ.regfile σ.csrfile σ.pc
    (σ.fetchOut dpi).commitInfo op rd src id hid
  rw [← hw] at hc hwrites
  have h := σ.holds_regE dpi
  have hop : opcode (σ.fetchOut dpi).instr = 0b1110011#7 :=
    eq_of_beq (instSystem_of_instCsrInstr hc)
  have hclass : redirectClass (σ.fetchOut dpi).instr = false ∧
      instLoad (σ.fetchOut dpi).instr = false ∧ instStore (σ.fetchOut dpi).instr = false ∧
      instAmo (σ.fetchOut dpi).instr = false := by
    simp [redirectClass, instBranch, instJal, instJalr, instLoad, instStore, instAmo, hop,
      not_instMret_of_instCsrInstr hc]
  obtain ⟨hr, hl, hs, ha⟩ := hclass
  have heff : effect dpi σ.mem (σ.regE dpi) =
      ⟨write rd (σ.csrfile.csr id), σ.pc + 4#64, none⟩ := by
    have hreg : (effect dpi σ.mem (σ.regE dpi)).regWrite = write rd (σ.csrfile.csr id) :=
      hwrites.1
    have hnext : (effect dpi σ.mem (σ.regE dpi)).nextPc = σ.pc + 4#64 :=
      nextPc_of_redirectClass dpi σ.mem h hr
    rw [← hreg, ← hnext, ← access_eq_none dpi σ.mem h hl hs ha]
  obtain ⟨hpc, hregs, hmem⟩ :=
    @step_of_effect _ dpi σ ⟨write rd (σ.csrfile.csr id), σ.pc + 4#64, none⟩ heff
  refine ⟨hpc, hregs, hmem, hwrites.2.trans ?_⟩
  rw [sourceValue, forward_idle, Regfile.read_eq]

/-- The CSRs that the machine sees after a step. -/
lemma step_visible {M : Type} (dpi : Dpi M) (σ : SeqState M) : (step dpi σ).csrfile.visible =
    Csrfile.visible ⟨applyWrite σ.csrfile.csr (σ.regW dpi).csrWrite, σ.csrfile.cpuMode⟩ :=
  Csrfile.visible_congr fun _ hid => σ.csrfile.next_csr (σ.regW dpi) hid

/-- The machine of RV64IM with Zicsr in a state. -/
def csrMachine (σ : SeqState Memory.Pmem) : Rv64imZicsr.Machine := ⟨σ.machine, σ.csrfile.visible⟩

section Step

variable {lo hi : ℕ} (hlo : Memory.configMbase ≤ lo)
  (hhi : hi ≤ Memory.configMbase + Memory.configMsize) (σ : SeqState Memory.Pmem)
  (i : Rv64imZicsr.Instr)
  (h : σ.csrMachine.word σ.csrMachine.pc = i.encode ∧ CsrTame lo hi σ.csrMachine i)
include hlo hhi h

/-- **An instruction on the sequential machine.**

**Proof sketch.** The instructions of RV64IM write no CSR (`machine_step`), and the CSR instructions
exchange (`step_csrInstr`). -/
theorem csrMachine_step : (step Memory.dpi σ).csrMachine = i.exec σ.csrMachine := by
  obtain ⟨hw, hplaced, -, hallowed⟩ := h
  have hfetch : (σ.fetchOut Memory.dpi).instr = i.encode :=
    (fetchOut_machine hlo hhi hplaced).trans hw
  have hvisible := σ.step_visible Memory.dpi
  cases i with
  | im i =>
    change (σ.fetchOut Memory.dpi).instr = i.encode at hfetch
    obtain ⟨-, hc, hm⟩ := (plain_encode i).decode
    have hno : (σ.regW Memory.dpi).csrWrite = none := by
      have hholds : (σ.regW Memory.dpi).Holds i.encode :=
        RegW.holds_latch (RegM.holds_latch (hfetch ▸ σ.holds_regE Memory.dpi) _) _
      simp [RegW.csrWrite, hholds.csrWen, decodeCsrWen, hc, hm]
    rw [hno] at hvisible
    rw [csrMachine, hvisible, machine_step hlo hhi hw hplaced hallowed.1 hallowed.2]
    rfl
  | csr op rd src id =>
    obtain ⟨hid, htimer, himm⟩ := hallowed
    obtain ⟨hpc, hregs, hmem, hcsr⟩ := σ.step_csrInstr Memory.dpi op rd src id hfetch hid
    have hold : σ.csrMachine.csrs id = σ.csrfile.csr id := σ.csrfile.visible_of_ne htimer
    have hset : (step Memory.dpi σ).regfile.regs =
        σ.regfile.regs.set rd (σ.csrfile.csr id) := Regs.ext (congrFun hregs)
    have hnew : op.newValue (σ.csrfile.csr id) (σ.regfile.reg src) =
        op.newValue (σ.csrfile.csr id) (op.operand (σ.regfile.reg src) src) := by
      rw [Zicsr.Op.newValue_eq_iff, Zicsr.Op.operand, ← hold]
      split_ifs with hi
      · exact himm hi
      · rfl
    have hcsrs : (step Memory.dpi σ).csrfile.visible = Function.update σ.csrfile.visible id
        (op.newValue (σ.csrfile.csr id) (op.operand (σ.regfile.reg src) src)) := by
      rw [hvisible, hcsr, hnew]
      exact Function.update_comm htimer _ _ _
    rw [csrMachine, machine, hpc, hset, hmem, hcsrs, Rv64imZicsr.Instr.exec, hold]
    rfl

/-- What it retires with. -/
lemma commitEvent_csrMachine : σ.commitEvent Memory.dpi = csrEvent i σ.csrMachine := by
  have hfetch := (fetchOut_machine hlo hhi h.2.toPlaced).trans h.1
  rw [commitEvent, hfetch, csrEvent, ← csrMachine_step hlo hhi σ i h]
  rfl

end Step

end SeqState

/-! ## The pipeline -/

/-- The machine as the processor starts. -/
def csrStart (regfile : Regfile) (csrfile : Csrfile) (mem : Memory.Pmem) : Rv64imZicsr.Machine :=
  ⟨start regfile mem, (csrfile.next true 0#7 false 0#12 0#64).visible⟩

/-- The words that the instructions of a program are, none of which reads the timer. -/
lemma noTimer_encode {lo hi : ℕ} {s : Rv64imZicsr.Machine} {i : Rv64imZicsr.Instr}
    (h : Allowed lo hi s i) : NoTimer i.encode := by
  cases i with
  | im i => exact noTimer_of_calm (plain_encode i).decode
  | csr op rd src id =>
    intro _
    obtain ⟨-, -, -, -, hid⟩ := fields_csrInstr op rd src id
    show csrId (op.encode rd src id) ≠ Csr.timer
    rw [hid]
    exact h.2.1

/-- None of them is atomic. -/
private lemma not_instAmo_encode (i : Rv64imZicsr.Instr) : instAmo i.encode = false := by
  cases i with
  | im i => exact (plain_encode i).decode.1
  | csr op rd src id =>
    show instAmo (op.encode rd src id) = false
    rw [instAmo, (fields_csrInstr op rd src id).1]
    decide

section Main

variable (regfile : Regfile) (csrfile : Csrfile) (mem : Memory.Pmem) {lo hi : ℕ}
  {is : List Rv64imZicsr.Instr} (hlo : Memory.configMbase ≤ lo)
  (hhi : hi ≤ Memory.configMbase + Memory.configMsize)
  (h : (csrStart regfile csrfile mem).Fetches (CsrTame lo hi) is)
include hlo hhi h

/-- A run on the sequential machine. -/
lemma csrMachine_run : ∀ k ≤ is.length,
    ((TopCpu.afterReset regfile csrfile mem).seqState.run Memory.dpi k).csrMachine =
      (csrStart regfile csrfile mem).after (is.take k) :=
  @Executes.iterate _ _ _ _ _ _ (SeqState.step Memory.dpi) SeqState.csrMachine
    (SeqState.csrMachine_step hlo hhi) (TopCpu.afterReset regfile csrfile mem).seqState h

/-- Where the sequential machine ends. -/
lemma csrMachine_run_length :
    ((TopCpu.afterReset regfile csrfile mem).seqState.run Memory.dpi is.length).csrMachine =
      (csrStart regfile csrfile mem).after is := by
  rw [csrMachine_run regfile csrfile mem hlo hhi h _ (Nat.le_refl _), List.take_length]

/-- What it retires with. -/
lemma csrEvents_run : (List.range is.length).map (fun k =>
    ((TopCpu.afterReset regfile csrfile mem).seqState.run Memory.dpi k).commitEvent Memory.dpi) =
      outputs Rv64imZicsr.Instr.exec csrEvent is (csrStart regfile csrfile mem) :=
  @Executes.outputs_iterate _ _ _ _ _ _ _ (SeqState.step Memory.dpi) SeqState.csrMachine
    (SeqState.csrMachine_step hlo hhi) (TopCpu.afterReset regfile csrfile mem).seqState h csrEvent
    _ (SeqState.commitEvent_csrMachine hlo hhi)

/-- An instruction of the run, on the sequential machine. -/
lemma csrFetches_run {k : ℕ} (hk : k < is.length) :
    ((TopCpu.afterReset regfile csrfile mem).seqState.run Memory.dpi k).csrMachine.word
        ((TopCpu.afterReset regfile csrfile mem).seqState.run Memory.dpi k).pc = is[k].encode ∧
      CsrTame lo hi ((TopCpu.afterReset regfile csrfile mem).seqState.run Memory.dpi k).csrMachine
        is[k] :=
  @Executes.ok_iterate _ _ _ _ _ _ _ (SeqState.step Memory.dpi) SeqState.csrMachine
    (SeqState.csrMachine_step hlo hhi) (TopCpu.afterReset regfile csrfile mem).seqState h hk

/-- The steps stand in the code and do not change it. -/
lemma csrCodeRun : CodeRun lo hi is.length (TopCpu.afterReset regfile csrfile mem).seqState := by
  have hmax : hi ≤ 2 ^ 64 := Nat.le_trans hhi (by decide)
  refine ⟨fun k hk => (csrFetches_run regfile csrfile mem hlo hhi h hk).2.toPlaced,
    fun k hk a ha ha' => ?_⟩
  have hkept := @Executes.kept _ _ _ Rv64imZicsr.Instr.exec _ is (csrStart regfile csrfile mem)
    (fun t => Rv64im.Machine.word t.toMachine a) (fun s i hi => by
      cases i with
      | im i => exact word_exec hi.2.allowed.1 ha ha' (by omega)
      | csr op rd src id => rfl) h k (Nat.le_of_lt hk)
  have hrun := congrArg (fun t => Rv64im.Machine.word t.toMachine a)
    (csrMachine_run regfile csrfile mem hlo hhi h k (Nat.le_of_lt hk))
  exact hrun.trans hkept

/-- The words in their shadows are not atomic. -/
lemma noAmo_inShadow (a : BitVec 64)
    (ha : InShadow Memory.dpi (TopCpu.afterReset regfile csrfile mem).seqState is.length a) :
    instAmo (Memory.dpi.instrMemRead mem a) = false := by
  refine @CodeRun.of_shadow _ _ _ _ hlo hhi (csrCodeRun regfile csrfile mem hlo hhi h)
    (fun w => instAmo w = false) (fun k hk b hb => ?_) a ha
  obtain ⟨hw, ht⟩ := csrFetches_run regfile csrfile mem hlo hhi h hk
  simp only [shadow, List.mem_cons, List.not_mem_nil, or_false] at hb
  rcases hb with rfl | rfl | rfl
  · exact (congrArg instAmo hw).trans (not_instAmo_encode is[k])
  · exact ht.noAmo.1
  · exact ht.noAmo.2

/-- They keep their distance when the words of the instructions do. -/
lemma csrSpacedTo (hsp : Spaced (is.map Rv64imZicsr.Instr.encode)) :
    SpacedTo Memory.dpi (TopCpu.afterReset regfile csrfile mem).seqState is.length := by
  have hlen : (is.map Rv64imZicsr.Instr.encode).length = is.length := List.length_map _
  rw [← hlen]
  refine spacedTo_of_spaced hsp (fun k hk => ?_) fun k hk => ?_
  · rw [List.getElem_map]
    obtain ⟨hw, ht⟩ := csrFetches_run regfile csrfile mem hlo hhi h (hlen ▸ hk)
    exact (SeqState.fetchOut_machine hlo hhi ht.toPlaced).trans hw
  · rw [List.getElem_map]
    exact noTimer_encode (csrFetches_run regfile csrfile mem hlo hhi h (hlen ▸ hk)).2.allowed

/-- **The pipeline implements RV64IM with Zicsr.**  Started by reset with any registers, CSRs and
memory: when the machine of RV64IM with Zicsr, started in the same state, fetches the instructions
`is` one after another and keeps to what a program must, and the words of the instructions keep
their distance, then within five cycles an instruction the pipeline has retired exactly these
instructions; in the cycle in which the last one is in write back the memory is that of the machine,
and one edge later so are the registers and the CSRs.

**Proof sketch.** The sequential machine executes the same instructions (`csrMachine_run`), in code
that stays as it is (`csrCodeRun`), and the pipeline follows them with the CSRs because they keep
their distance (`TopCpu.csrs_prefix`). -/
theorem implements_zicsr (hsp : Spaced (is.map Rv64imZicsr.Instr.encode)) (hne : is ≠ []) :
    ∃ n < 5 * is.length,
      TopCpu.commits Memory.dpi (TopCpu.afterReset regfile csrfile mem) (n + 1) =
        outputs Rv64imZicsr.Instr.exec csrEvent is (csrStart regfile csrfile mem) ∧
      Memory.guestBytes (TopCpu.run Memory.dpi n (TopCpu.afterReset regfile csrfile mem)).mem =
        ((csrStart regfile csrfile mem).after is).mem ∧
      (TopCpu.run Memory.dpi (n + 1) (TopCpu.afterReset regfile csrfile mem)).regfile.regs =
        ((csrStart regfile csrfile mem).after is).regs ∧
      (TopCpu.run Memory.dpi (n + 1) (TopCpu.afterReset regfile csrfile mem)).csrfile.visible =
        ((csrStart regfile csrfile mem).after is).csrs := by
  obtain ⟨n, hn, hlen, htracks, hmem, hcsr⟩ := TopCpu.csrs_prefix Memory.dpi regfile csrfile mem
    ((csrCodeRun regfile csrfile mem hlo hhi h).kept hlo hhi)
    (noAmo_inShadow regfile csrfile mem hlo hhi h) (csrSpacedTo regfile csrfile mem hlo hhi h hsp)
    (List.length_pos_iff.mpr hne)
  obtain ⟨hev, hregs⟩ := htracks (n + 1) (Nat.le_refl _)
  rw [hlen] at hev hregs
  have hend := csrMachine_run_length regfile csrfile mem hlo hhi h
  refine ⟨n, hn, hev.trans (csrEvents_run regfile csrfile mem hlo hhi h), ?_, ?_, ?_⟩
  · rw [hmem, ← hend]
    rfl
  · rw [hregs, ← hend]
    rfl
  · rw [Csrfile.visible_congr hcsr, ← hend]
    rfl

end Main

/-- A program that hands a value through `mscratch` to an instruction four places behind, sets bits
in it, and exchanges it for a sum. -/
def csrProgram : List Rv64imZicsr.Instr :=
  [.im (.base (.opImm .addi 5#5 0#5 6#12)), .csr .csrrw 0#5 5#5 Csr.mscratch,
    .im (.base (.opImm .addi 6#5 0#5 9#12)), .im (.mulDiv .mul 8#5 5#5 6#5),
    .im (.base (.opImm .addi 0#5 0#5 0#12)), .csr .csrrs 7#5 6#5 Csr.mscratch,
    .im (.base (.opImm .addi 0#5 0#5 0#12)), .im (.base (.opImm .addi 0#5 0#5 0#12)),
    .im (.base (.reg .add 9#5 7#5 8#5)), .csr .csrrw 10#5 9#5 Csr.mscratch]

/-- Within 50 cycles the bits are set in `x10`, and `mscratch` holds the sum. -/
theorem implements_zicsr_csrProgram : ∃ n < 50,
    (TopCpu.run Memory.dpi (n + 1)
      (Memory.boot (csrProgram.map Rv64imZicsr.Instr.encode))).regfile.reg 10#5 = 15#64 ∧
    (TopCpu.run Memory.dpi (n + 1)
      (Memory.boot (csrProgram.map Rv64imZicsr.Instr.encode))).csrfile.csr Csr.mscratch =
        60#64 := by
  obtain ⟨n, hn, -, -, hregs, hcsrs⟩ := @implements_zicsr Regfile.initial Csrfile.initial
    (Memory.image (csrProgram.map Rv64imZicsr.Instr.encode)) 0x80000000 0x80000040 csrProgram
    (by decide) (by decide) (by decide +kernel) (by decide +kernel) (by decide)
  refine ⟨n, hn, ?_, ?_⟩
  · refine (congrArg (fun x => x.get 10#5) hregs).trans ?_
    decide +kernel
  · refine (congrFun hcsrs Csr.mscratch).trans ?_
    decide +kernel

end Riscv64Cpu.Pipeline
