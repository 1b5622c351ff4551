import Riscv64Cpu.Isa.MulDiv
import Riscv64Cpu.Isa.Rv64im
import Riscv64Cpu.Memory.LoadStore
import Riscv64Cpu.Pipeline.Prefix
import Riscv64Cpu.Pipeline.Program

set_option relaxedAutoImplicit false
set_option autoImplicit false

/-!
# RV64IM on the pipeline

The pipeline over `dpi.c` and `memory.c`, with program and data in one memory, against the machine
of RV64IM, which fetches from, loads from and stores to a memory of bytes.

## Main definitions

* `Memory.guestBytes` — the memory as the guest sees it.
* `Pipeline.SeqState.machine` — the machine of RV64IM in a state of the sequential machine.
* `Pipeline.Tame` — what a program must keep to.
* `Pipeline.CodeRun` — steps that stand in the code and do not change it.
* `Pipeline.events` — what the instructions of a run retire with.
* `Pipeline.start` — the machine of RV64IM as the processor starts.

## Main results

* `Pipeline.effect_rv64im` — an instruction on the stages.
* `Pipeline.SeqState.machine_step` — an instruction on the sequential machine.
* `Pipeline.implements_rv64im` — a run on the pipeline.
-/

namespace Riscv64Cpu

open Clocked Rv64i

/-! ## The memory of the guest -/

namespace Memory

/-- The memory by the guest's addresses; what is not RAM reads as zero. -/
def guestBytes (mem : Pmem) : Rv64im.Bytes := fun a =>
  if inDram a then mem (guestToHost a) else 0#8

/-- The `n` bytes from address `a` on lie in RAM. -/
def InRam (a : BitVec 64) (n : ℕ) : Prop :=
  configMbase ≤ a.toNat ∧ a.toNat + n ≤ configMbase + configMsize

instance (a : BitVec 64) (n : ℕ) : Decidable (InRam a n) := inferInstanceAs (Decidable (_ ∧ _))

section Ram

variable (mem : Pmem) {a : BitVec 64} {n : ℕ}

/-- The first byte of an access in RAM passes the range check. -/
lemma inDram_of_inRam (h : InRam a n) (hn : 0 < n) : inDram a = true := by
  unfold InRam at h
  rw [inDram_iff]
  omega

/-- A little-endian number of the guest. -/
lemma number_guestBytes (h : InRam a n) :
    (guestBytes mem).number a n = littleEndian mem (guestToHost a) n := by
  induction n generalizing a with
  | zero => rfl
  | succ n ih =>
    have hbyte : guestBytes mem a = mem (guestToHost a) :=
      if_pos (inDram_of_inRam h (Nat.succ_pos n))
    have hrest : (guestBytes mem).number (a + 1#64) n = littleEndian mem (guestToHost a + 1) n := by
      unfold InRam configMbase configMsize at h
      have ha := @Rv64im.Bytes.toNat_next a (by omega)
      have hhost : guestToHost (a + 1#64) = guestToHost a + 1 := by
        unfold guestToHost configMbase
        omega
      rw [← hhost]
      refine ih ?_
      unfold InRam configMbase configMsize
      omega
    rw [Rv64im.Bytes.number, littleEndian, hbyte, hrest]

/-- A store of the guest. -/
private lemma guestBytes_storeBytes (h : InRam a n) (data : BitVec 64) :
    guestBytes (storeBytes mem (guestToHost a) n data) = (guestBytes mem).store a n data := by
  unfold InRam configMbase configMsize at h
  funext b
  rw [Rv64im.Bytes.store_apply (by omega)]
  unfold guestBytes storeBytes guestToHost
  cases hb : inDram b with
  | true =>
    have hrange := (inDram_iff b).mp hb
    unfold configMbase configMsize at *
    rw [if_pos rfl, if_pos rfl,
      show b.toNat - 0x80000000 - (a.toNat - 0x80000000) = b.toNat - a.toNat by omega]
    refine if_congr ?_ rfl rfl
    omega
  | false =>
    have hrange : ¬ (configMbase ≤ b.toNat ∧ b.toNat < configMbase + configMsize) := by
      rw [← inDram_iff, hb]
      exact Bool.false_ne_true
    unfold configMbase configMsize at hrange
    rw [if_neg Bool.false_ne_true, if_neg (by omega), if_neg Bool.false_ne_true]

/-- The word that is fetched from an aligned address. -/
lemma dpiInstrMemRead_guestBytes (ha : a.toNat % 4 = 0) (h : InRam a 4) :
    dpiInstrMemRead mem a = ((guestBytes mem).number a 4).setWidth 32 := by
  have halign : a &&& 0xFFFFFFFC#64 = a := by
    apply BitVec.eq_of_toNat_eq
    unfold InRam configMbase configMsize at h
    rw [toNat_aligned (by omega)]
    omega
  rw [dpiInstrMemRead, if_pos (inDram_of_inRam h (by decide)), halign, number_guestBytes mem h]
  rfl

/-- The eight bytes that a load reads. -/
lemma dpiMemRead_guestBytes (pc : BitVec 64) (h : InRam a 8) :
    dpiMemRead mem a 8#32 pc = (guestBytes mem).number a 8 := by
  rw [number_guestBytes mem h]
  exact dpiMemRead_window mem pc h

/-- The bytes that a store writes. -/
lemma guestBytes_dpiMemWrite (hlen : LegalLen n) (data pc : BitVec 64) (h : InRam a n) :
    guestBytes (dpiMemWrite mem a data (BitVec.ofNat 32 n) pc) =
      (guestBytes mem).store a n data := by
  have hin : inDram a = true := by
    refine inDram_of_inRam h ?_
    unfold LegalLen at hlen
    omega
  have hne : (a == 0x10000000#64) = false := by
    rw [beq_eq_false_iff_ne]
    rintro rfl
    rw [serial_not_inDram.2] at hin
    exact Bool.false_ne_true hin
  rw [dpiMemWrite, hne, if_neg Bool.false_ne_true, hin, if_pos rfl,
    ← guestBytes_storeBytes mem h data]
  rcases hlen with rfl | rfl | rfl | rfl <;> rfl

end Ram

end Memory

namespace Pipeline

/-! ## One instruction on the stages -/

/-- The processor has the quotient that the instruction asks for: it does not divide words by a
divisor whose low word alone is zero. -/
def DivisorOk (x : BitVec 5 → BitVec 64) : Rv64im.Instr → Prop
  | .base _ => True
  | .mulDiv op _ _ rs2 => dividesWords op = true → (x rs2).setWidth 32 = 0#32 → x rs2 = 0#64

/-- **An instruction on the stages**: its effect, but that a load reads eight bytes. -/
theorem effect_rv64im {M : Type} (dpi : Dpi M) (mem : M) {e : RegE} {x : BitVec 5 → BitVec 64}
    (i : Rv64im.Instr) (h : e.HoldsWith i.encode x) (hd : DivisorOk x i) :
    effect dpi mem e = (i.effect e.pc x (window dpi mem e)).readEight := by
  cases i with
  | base i => exact effect_of_holdsWith dpi mem i h
  | mulDiv op rd rs1 rs2 =>
    have halu : e.aluInfo = BitVec.twoPow 28 (mulDivBit op) := by
      rw [h.aluInfo]
      exact decodeAluInfo_mulDiv op rd rs1 rs2
    have hop : (if op.word then 0b0111011#7 else 0b0110011#7) = 0b0110011#7 ∨
        (if op.word then 0b0111011#7 else 0b0110011#7) = 0b0111011#7 := by
      cases op <;> decide
    rw [effect_regReg dpi mem hop h, aluResultOf_mulDiv _ _ op halu,
      (mulDivResult_iff (x rs1) (x rs2) op).mpr hd]
    rfl

/-- An instruction depends on the window that it loads from. -/
private lemma effect_congr_window (i : Rv64im.Instr) (pc : BitVec 64) (x : BitVec 5 → BitVec 64)
    {w w' : BitVec 64 → BitVec 64}
    (h : ∀ a len, (i.effect pc x w').access = some (.load a len) → w a = w' a) :
    i.effect pc x w = i.effect pc x w' := by
  cases i with
  | base i =>
    cases i with
    | load op rd rs1 imm =>
      simp only [Rv64im.Instr.effect, Instr.effect, h _ _ rfl]
    | _ => rfl
  | mulDiv op rd rs1 rs2 => rfl

/-- No instruction is atomic or a system instruction. -/
lemma plain_encode (i : Rv64im.Instr) : Plain i.encode := by
  have hop : ∀ w : BitVec 32, ∀ o : BitVec 7, w.extractLsb' 0 7 = o → o ≠ 0b0101111#7 →
      o ≠ 0b1110011#7 → Plain w := fun w o h ha hs => by
    rw [Plain, opcode, h]
    exact ⟨ha, hs⟩
  cases i with
  | base i =>
    cases i with
    | lui rd imm | auipc rd imm =>
      exact hop _ _ (extract_encodeU _ rd imm).1 (by decide) (by decide)
    | jal rd offset => exact hop _ _ (extract_encodeJ _ rd offset).1 (by decide) (by decide)
    | branch op rs1 rs2 offset =>
      exact hop _ _ (extract_encodeB _ _ rs1 rs2 offset).1 (by decide) (by decide)
    | store op rs1 rs2 imm =>
      exact hop _ _ (extract_encodeS _ _ rs1 rs2 imm).1 (by decide) (by decide)
    | jalr rd rs1 imm | load op rd rs1 imm | opImm op rd rs1 imm | addiw rd rs1 imm =>
      exact hop _ _ (extract_encodeI _ _ rd rs1 _).1 (by decide) (by decide)
    | shiftImm op rd rs1 shamt | shiftImmw op rd rs1 shamt =>
      exact hop _ _ (extract_encodeI _ _ rd rs1 _).1 (by decide) (by decide)
    | reg op rd rs1 rs2 | regw op rd rs1 rs2 =>
      exact hop _ _ (extract_encodeR _ _ _ rd rs1 rs2).1 (by decide) (by decide)
  | mulDiv op rd rs1 rs2 =>
    refine hop _ _ (extract_encodeR _ _ _ rd rs1 rs2).1 ?_ ?_ <;> cases op <;> decide

/-- Stores have one of four lengths. -/
private lemma legalLen_of_store (i : Rv64im.Instr) {pc : BitVec 64} {x : BitVec 5 → BitVec 64}
    {w : BitVec 64 → BitVec 64} {a data : BitVec 64} {len : ℕ}
    (h : (i.effect pc x w).access = some (.store a len data)) : Memory.LegalLen len := by
  cases i with
  | base i =>
    cases i with
    | store op rs1 rs2 imm =>
      obtain ⟨rfl, rfl, rfl⟩ : x rs1 + imm.signExtend 64 = a ∧ op.len = len ∧ x rs2 = data := by
        simpa [Rv64im.Instr.effect, Instr.effect] using h
      cases op <;> decide
    | _ => cases h
  | mulDiv op rd rs1 rs2 => cases h

/-! ## Programs -/

section Programs

variable (lo hi : ℕ)

/-- The access lies in RAM, that of a load with all eight bytes that the processor reads, and it
does not change the bytes from `lo` up to `hi`. -/
def Permitted : Option Access → Prop
  | none => True
  | some (.load a _) => Memory.InRam a 8
  | some (.store a len _) => Memory.InRam a len ∧ (a.toNat + len ≤ lo ∨ hi ≤ a.toNat)

instance decidablePermitted : (o : Option Access) → Decidable (Permitted lo hi o)
  | none => isTrue trivial
  | some (.load a _) => inferInstanceAs (Decidable (Memory.InRam a 8))
  | some (.store a len _) =>
    inferInstanceAs (Decidable (Memory.InRam a len ∧ (a.toNat + len ≤ lo ∨ hi ≤ a.toNat)))

instance decidableDivisorOk (x : BitVec 5 → BitVec 64) :
    (i : Rv64im.Instr) → Decidable (DivisorOk x i)
  | .base _ => isTrue trivial
  | .mulDiv op _ _ rs2 => inferInstanceAs
    (Decidable (dividesWords op = true → (x rs2).setWidth 32 = 0#32 → x rs2 = 0#64))

/-- The machine stands in the code, which lies from `lo` up to `hi`: the pc is aligned, and the word
that it fetches and the two words behind are code. -/
structure Placed (s : Rv64im.Machine) : Prop where
  aligned : s.pc.toNat % 4 = 0
  lo_le : lo ≤ s.pc.toNat
  le_hi : s.pc.toNat + 12 ≤ hi

/-- The two words behind neither are atomic nor access a CSR. -/
structure InCode (s : Rv64im.Machine) : Prop extends Placed lo hi s where
  calm : Calm (s.word (s.pc + 4#64)) ∧ Calm (s.word (s.pc + 8#64))

/-- **What a program must keep to**: it stays in its code, accesses lie in RAM and do not change the
code, and no division meets the wrong quotient. -/
structure Tame (s : Rv64im.Machine) (i : Rv64im.Instr) : Prop extends InCode lo hi s where
  permitted : Permitted lo hi (i.effectOn s).access
  divisor : DivisorOk s.regs.get i

instance decidablePlaced (s : Rv64im.Machine) : Decidable (Placed lo hi s) :=
  decidable_of_iff (s.pc.toNat % 4 = 0 ∧ lo ≤ s.pc.toNat ∧ s.pc.toNat + 12 ≤ hi)
    ⟨fun ⟨h1, h2, h3⟩ => ⟨h1, h2, h3⟩, fun ⟨h1, h2, h3⟩ => ⟨h1, h2, h3⟩⟩

instance decidableInCode (s : Rv64im.Machine) : Decidable (InCode lo hi s) :=
  decidable_of_iff (Placed lo hi s ∧ Calm (s.word (s.pc + 4#64)) ∧ Calm (s.word (s.pc + 8#64)))
    ⟨fun ⟨h1, h2⟩ => ⟨h1, h2⟩, fun ⟨h1, h2⟩ => ⟨h1, h2⟩⟩

instance decidableTame (s : Rv64im.Machine) (i : Rv64im.Instr) : Decidable (Tame lo hi s i) :=
  decidable_of_iff (InCode lo hi s ∧ Permitted lo hi (i.effectOn s).access ∧
      DivisorOk s.regs.get i)
    ⟨fun ⟨h1, h2, h3⟩ => ⟨h1, h2, h3⟩, fun ⟨h1, h2, h3⟩ => ⟨h1, h2, h3⟩⟩

end Programs

/-- What an instruction retires with. -/
def event (i : Rv64im.Instr) (s : Rv64im.Machine) : CommitEvent := ⟨s.pc, i.encode, (i.exec s).pc⟩

/-- What the instructions of a run retire with. -/
def events (is : List Rv64im.Instr) (s : Rv64im.Machine) : List CommitEvent :=
  outputs Rv64im.Instr.exec event is s

section Code

variable {lo hi : ℕ} {s : Rv64im.Machine} {i : Rv64im.Instr} {is : List Rv64im.Instr}

/-- An instruction does not change the code. -/
lemma word_exec (h : Permitted lo hi (i.effectOn s).access) {a : BitVec 64} (hlo : lo ≤ a.toNat)
    (hhi : a.toNat + 4 ≤ hi) (hmax : a.toNat + 4 ≤ 2 ^ 64) : (i.exec s).word a = s.word a := by
  rw [Rv64im.Machine.word, Rv64im.Machine.word]
  congr 1
  refine Rv64im.Bytes.number_congr hmax fun b hb hb' => ?_
  show s.mem.after (i.effectOn s).access b = s.mem b
  cases hacc : (i.effectOn s).access with
  | none => rfl
  | some acc =>
    rw [hacc] at h
    cases acc with
    | load c len => rfl
    | store c len data =>
      obtain ⟨hram, hout⟩ := h
      unfold Memory.InRam Memory.configMbase Memory.configMsize at hram
      rw [Rv64im.Bytes.after, Rv64im.Bytes.store_apply (by omega), if_neg (by omega)]

/-- Nor does a run. -/
private lemma word_after (h : s.Fetches (Tame lo hi) is) {a : BitVec 64} (hlo : lo ≤ a.toNat)
    (hhi : a.toNat + 4 ≤ hi) (hmax : a.toNat + 4 ≤ 2 ^ 64) :
    ∀ k ≤ is.length, (s.after (is.take k)).word a = s.word a :=
  @Executes.kept _ _ _ _ _ is s (fun t => Rv64im.Machine.word t a)
    (fun _ _ hi => word_exec hi.2.permitted hlo hhi hmax) h

end Code

/-! ## The sequential machine -/

namespace SeqState

variable {σ : SeqState Memory.Pmem} {lo hi : ℕ} {i : Rv64im.Instr} {is : List Rv64im.Instr}

/-- The machine of RV64IM in a state. -/
def machine (σ : SeqState Memory.Pmem) : Rv64im.Machine :=
  ⟨σ.pc, σ.regfile.regs, Memory.guestBytes σ.mem⟩

/-- The memory after the access of an instruction. -/
private lemma guestBytes_memAfter (mem : Memory.Pmem) (pc : BitVec 64) {o : Option Access}
    (h : Permitted lo hi o) (hlen : ∀ a len data, o = some (.store a len data) →
      Memory.LegalLen len) :
    Memory.guestBytes (memAfter Memory.dpi mem pc o) = (Memory.guestBytes mem).after o := by
  rcases o with _ | ⟨a, len⟩ | ⟨a, len, data⟩
  · rfl
  · rfl
  · exact Memory.guestBytes_dpiMemWrite mem (hlen a len data rfl) data pc h.1

section Step

variable (hlo : Memory.configMbase ≤ lo) (hhi : hi ≤ Memory.configMbase + Memory.configMsize)
include hlo hhi

/-- Code lies in RAM. -/
lemma inRam_of_code {a : BitVec 64} (h : lo ≤ a.toNat) (h' : a.toNat + 4 ≤ hi) :
    Memory.InRam a 4 :=
  ⟨Nat.le_trans hlo h, Nat.le_trans h' hhi⟩

/-- The word at the pc is fetched as it stands in the memory of bytes. -/
lemma fetchOut_machine (h : Placed lo hi σ.machine) :
    (σ.fetchOut Memory.dpi).instr = σ.machine.word σ.pc := by
  refine Memory.dpiInstrMemRead_guestBytes σ.mem h.aligned (inRam_of_code hlo hhi h.lo_le ?_)
  have hle : σ.pc.toNat + 12 ≤ hi := h.le_hi
  omega

/-- **An instruction on the sequential machine.**

**Proof sketch.** The stages have the effect of the fetched instruction (`effect_rv64im`), which
loads from and stores to the memory of bytes. -/
theorem machine_step (hw : σ.machine.word σ.pc = i.encode) (hplaced : Placed lo hi σ.machine)
    (hper : Permitted lo hi (i.effectOn σ.machine).access) (hdiv : DivisorOk σ.regfile.reg i) :
    (step Memory.dpi σ).machine = i.exec σ.machine := by
  have hfetch : (σ.fetchOut Memory.dpi).instr = i.encode :=
    (fetchOut_machine hlo hhi hplaced).trans hw
  have hwindow : i.effect σ.pc σ.regfile.reg (window Memory.dpi σ.mem (σ.regE Memory.dpi)) =
      i.effectOn σ.machine := by
    refine effect_congr_window i σ.pc σ.regfile.reg fun a len ha => ?_
    rw [show (i.effectOn σ.machine).access = some (.load a len) from ha] at hper
    exact Memory.dpiMemRead_guestBytes σ.mem (σ.regE Memory.dpi).pc hper
  have heff := effect_rv64im Memory.dpi σ.mem i (hfetch ▸ σ.holdsWith_regE Memory.dpi) hdiv
  have heff : effect Memory.dpi σ.mem (σ.regE Memory.dpi) = (i.effectOn σ.machine).readEight := by
    rw [← hwindow]
    exact heff
  obtain ⟨hpc, hregs, hmem⟩ := step_of_effect Memory.dpi σ heff
  have hset : (step Memory.dpi σ).regfile.regs =
      σ.regfile.regs.apply (i.effectOn σ.machine).regWrite :=
    Regs.ext (congrFun (hregs.trans (i.get_apply_effect σ.regfile.regs σ.pc _).symm))
  have hbytes : Memory.guestBytes (step Memory.dpi σ).mem =
      (Memory.guestBytes σ.mem).after (i.effectOn σ.machine).access := by
    rw [hmem]
    exact guestBytes_memAfter σ.mem σ.pc hper fun a len data => legalLen_of_store i
  rw [machine, hpc, hset, hbytes]
  rfl

/-- An instruction that a program may execute, on the sequential machine. -/
lemma machine_step_of_tame (σ : SeqState Memory.Pmem) (i : Rv64im.Instr)
    (h : σ.machine.word σ.machine.pc = i.encode ∧ Tame lo hi σ.machine i) :
    (step Memory.dpi σ).machine = i.exec σ.machine :=
  machine_step hlo hhi h.1 h.2.toPlaced h.2.permitted h.2.divisor

/-- What it retires with. -/
private lemma commitEvent_of_tame (σ : SeqState Memory.Pmem) (i : Rv64im.Instr)
    (h : σ.machine.word σ.machine.pc = i.encode ∧ Tame lo hi σ.machine i) :
    σ.commitEvent Memory.dpi = event i σ.machine := by
  rw [commitEvent, (fetchOut_machine hlo hhi h.2.toPlaced).trans h.1, event,
    ← machine_step_of_tame hlo hhi σ i h]
  rfl

/-- A run on the sequential machine. -/
lemma machine_run (h : σ.machine.Fetches (Tame lo hi) is) :
    ∀ k ≤ is.length, (run Memory.dpi σ k).machine = σ.machine.after (is.take k) :=
  h.iterate (machine_step_of_tame hlo hhi)

/-- What it retires with. -/
lemma commitEvents_run (h : σ.machine.Fetches (Tame lo hi) is) :
    (List.range is.length).map (fun k => (run Memory.dpi σ k).commitEvent Memory.dpi) =
      events is σ.machine :=
  h.outputs_iterate (machine_step_of_tame hlo hhi) (commitEvent_of_tame hlo hhi)

end Step

end SeqState

/-! ## The pipeline -/

/-- The word at the pc and the two words behind are code. -/
lemma Placed.of_mem_shadow {lo hi : ℕ} {s : Rv64im.Machine} {a : BitVec 64} (h : Placed lo hi s)
    (hmax : hi ≤ 2 ^ 64) (ha : a ∈ shadow s.pc) :
    lo ≤ a.toNat ∧ a.toNat + 4 ≤ hi ∧ a.toNat % 4 = 0 := by
  have halign := h.aligned
  have hlo := h.lo_le
  have hhi := h.le_hi
  have hnext : ∀ n ≤ 8, (s.pc + BitVec.ofNat 64 n).toNat = s.pc.toNat + n := fun n hn => by
    rw [BitVec.toNat_add, BitVec.toNat_ofNat]
    omega
  have h4 := hnext 4 (by decide)
  have h8 := hnext 8 (by decide)
  simp only [shadow, List.mem_cons, List.not_mem_nil, or_false] at ha
  rcases ha with rfl | rfl | rfl <;> omega

/-- The first `N` steps of the sequential machine stand in the code, and find it as it is at the
start. -/
structure CodeRun (lo hi N : ℕ) (σ : SeqState Memory.Pmem) : Prop where
  placed : ∀ k < N, Placed lo hi (σ.run Memory.dpi k).machine
  word : ∀ k < N, ∀ a : BitVec 64, lo ≤ a.toNat → a.toNat + 4 ≤ hi →
    (σ.run Memory.dpi k).machine.word a = σ.machine.word a

section CodeRun

variable {lo hi N : ℕ} {σ : SeqState Memory.Pmem} (hlo : Memory.configMbase ≤ lo)
  (hhi : hi ≤ Memory.configMbase + Memory.configMsize) (h : CodeRun lo hi N σ)
include hlo hhi h

/-- The words in the shadows of the steps, in the memory of any step. -/
lemma CodeRun.read {a : BitVec 64} (ha : InShadow Memory.dpi σ N a) {j : ℕ} (hj : j < N) :
    Memory.dpi.instrMemRead (σ.run Memory.dpi j).mem a = σ.machine.word a := by
  obtain ⟨k, hk, ha⟩ := ha
  obtain ⟨hlow, hhigh, halign⟩ :=
    (h.placed k hk).of_mem_shadow (Nat.le_trans hhi (by decide)) ha
  refine (Memory.dpiInstrMemRead_guestBytes _ halign
    (SeqState.inRam_of_code hlo hhi hlow hhigh)).trans ?_
  exact h.word j hj a hlow hhigh

/-- No step changes them. -/
lemma CodeRun.kept (a : BitVec 64) (ha : InShadow Memory.dpi σ N a) (j : ℕ) (hj : j < N) :
    Memory.dpi.instrMemRead (σ.run Memory.dpi j).mem a = Memory.dpi.instrMemRead σ.mem a := by
  have hpos : 0 < N := by omega
  exact (h.read hlo hhi ha hj).trans (h.read hlo hhi ha hpos).symm

/-- What holds of the words in the shadow of each step holds of them at the start. -/
lemma CodeRun.of_shadow {P : BitVec 32 → Prop} (hP : ∀ k < N,
    ∀ a ∈ shadow (σ.run Memory.dpi k).pc, P ((σ.run Memory.dpi k).machine.word a))
    (a : BitVec 64) (ha : InShadow Memory.dpi σ N a) : P (Memory.dpi.instrMemRead σ.mem a) := by
  have hpos : 0 < N := by
    obtain ⟨k, hk, -⟩ := ha
    omega
  have hread := h.read hlo hhi ha hpos
  obtain ⟨k, hk, ha⟩ := ha
  obtain ⟨hlow, hhigh, -⟩ := (h.placed k hk).of_mem_shadow (Nat.le_trans hhi (by decide)) ha
  have hword := hP k hk a ha
  rw [h.word k hk a hlow hhigh, ← hread] at hword
  exact hword

end CodeRun

/-- The machine of RV64IM as the processor starts. -/
def start (regfile : Regfile) (mem : Memory.Pmem) : Rv64im.Machine :=
  ⟨0x80000000#64, regfile.regs, Memory.guestBytes mem⟩

section Main

variable (regfile : Regfile) (csrfile : Csrfile) (mem : Memory.Pmem) {lo hi : ℕ}
  {is : List Rv64im.Instr} (hlo : Memory.configMbase ≤ lo)
  (hhi : hi ≤ Memory.configMbase + Memory.configMsize)
  (h : (start regfile mem).Fetches (Tame lo hi) is)
include hlo hhi h

/-- A run on the sequential machine, from the start. -/
lemma machine_run_start {k : ℕ} (hk : k ≤ is.length) :
    ((SeqState.afterReset regfile csrfile mem).run Memory.dpi k).machine =
      (start regfile mem).after (is.take k) :=
  @SeqState.machine_run (.afterReset regfile csrfile mem) lo hi is hlo hhi h k hk

/-- Where the sequential machine ends. -/
lemma machine_run_length :
    ((SeqState.afterReset regfile csrfile mem).run Memory.dpi is.length).machine =
      (start regfile mem).after is := by
  rw [machine_run_start regfile csrfile mem hlo hhi h (Nat.le_refl _), List.take_length]

/-- An instruction of the run, on the sequential machine. -/
lemma fetches_run {k : ℕ} (hk : k < is.length) :
    ((SeqState.afterReset regfile csrfile mem).run Memory.dpi k).machine.word
        ((SeqState.afterReset regfile csrfile mem).run Memory.dpi k).pc = is[k].encode ∧
      Tame lo hi ((SeqState.afterReset regfile csrfile mem).run Memory.dpi k).machine is[k] :=
  @Executes.ok_iterate _ _ _ _ _ _ _ (SeqState.step Memory.dpi) SeqState.machine
    (SeqState.machine_step_of_tame hlo hhi) (.afterReset regfile csrfile mem) h hk

/-- The instructions of the run are in the code and calm. -/
lemma inCode_run : ∀ k < is.length,
    InCode lo hi ((SeqState.afterReset regfile csrfile mem).run Memory.dpi k).machine ∧
    Calm (((SeqState.afterReset regfile csrfile mem).run Memory.dpi k).machine.word
      ((SeqState.afterReset regfile csrfile mem).run Memory.dpi k).pc) := by
  intro k hk
  obtain ⟨hw, ht⟩ := fetches_run regfile csrfile mem hlo hhi h hk
  refine ⟨ht.toInCode, ?_⟩
  rw [hw]
  exact (plain_encode is[k]).decode

section Words

variable {N : ℕ} (hN : N ≤ is.length + 1)
  (hcode : ∀ k < N,
    InCode lo hi ((SeqState.afterReset regfile csrfile mem).run Memory.dpi k).machine ∧
    Calm (((SeqState.afterReset regfile csrfile mem).run Memory.dpi k).machine.word
      ((SeqState.afterReset regfile csrfile mem).run Memory.dpi k).pc))
include hN hcode

/-- Steps in the code find it as it is at the start. -/
lemma codeRun_run : CodeRun lo hi N (SeqState.afterReset regfile csrfile mem) := by
  refine ⟨fun k hk => (hcode k hk).1.toPlaced, fun k hk a ha ha' => ?_⟩
  have hmax : hi ≤ 2 ^ 64 := Nat.le_trans hhi (by decide)
  rw [machine_run_start regfile csrfile mem hlo hhi h (by omega)]
  exact word_after h ha ha' (by omega) k (by omega)

/-- The words in the shadows of the instructions are calm. -/
lemma calm_of_inShadow (a : BitVec 64)
    (ha : InShadow Memory.dpi (.afterReset regfile csrfile mem) N a) :
    Calm (Memory.dpi.instrMemRead mem a) := by
  refine (codeRun_run regfile csrfile mem hlo hhi h hN hcode).of_shadow hlo hhi ?_ a ha
  intro k hk b hb
  obtain ⟨hin, hpc⟩ := hcode k hk
  simp only [shadow, List.mem_cons, List.not_mem_nil, or_false] at hb
  rcases hb with rfl | rfl | rfl
  · exact hpc
  · exact hin.calm.1
  · exact hin.calm.2

end Words

/-- **The pipeline implements RV64IM.**  Started by reset with any registers, CSRs and memory: when
the machine of RV64IM, started in the same state, fetches the instructions `is` one after another
and keeps to what a program must, then within five cycles an instruction the pipeline has retired
exactly these instructions; in the cycle in which the last one is in write back the memory is that
of the machine, and one edge later so are the registers.

**Proof sketch.** The sequential machine executes the same instructions (`SeqState.machine_run`).
Stores leave the code alone (`codeRun_run`), so what stands in the shadows of the instructions is
calm and stays as it is, and the pipeline tracks the sequential machine that far
(`TopCpu.tracks_prefix`). -/
theorem implements_rv64im (hne : is ≠ []) :
    ∃ n < 5 * is.length,
      TopCpu.commits Memory.dpi (TopCpu.afterReset regfile csrfile mem) (n + 1) =
        events is (start regfile mem) ∧
      Memory.guestBytes (TopCpu.run Memory.dpi n (TopCpu.afterReset regfile csrfile mem)).mem =
        ((start regfile mem).after is).mem ∧
      (TopCpu.run Memory.dpi (n + 1) (TopCpu.afterReset regfile csrfile mem)).regfile.regs =
        ((start regfile mem).after is).regs := by
  have hcode := inCode_run regfile csrfile mem hlo hhi h
  obtain ⟨n, hn, hlen, htracks, hmem, -, -⟩ := @TopCpu.tracks_prefix _ Memory.dpi
    (TopCpu.afterReset regfile csrfile mem) (.afterReset regfile csrfile mem) is.length
    (TopCpu.followsTo_frozen
      (calm_of_inShadow regfile csrfile mem hlo hhi h (Nat.le_succ _) hcode) _)
    ((codeRun_run regfile csrfile mem hlo hhi h (Nat.le_succ _) hcode).kept hlo hhi)
    (List.length_pos_iff.mpr hne)
  obtain ⟨hev, hregs⟩ := htracks (n + 1) (Nat.le_refl _)
  rw [hlen] at hev hregs
  have hend := machine_run_length regfile csrfile mem hlo hhi h
  refine ⟨n, hn, hev.trans (SeqState.commitEvents_run hlo hhi h), ?_, ?_⟩
  · rw [hmem, ← hend]
    rfl
  · rw [hregs, ← hend]
    rfl

end Main

/-- A program with a product, a store, a load of what was stored and a branch over an instruction
that is not executed. -/
def smallProgram : List Rv64im.Instr :=
  [.base (.opImm .addi 5#5 0#5 6#12), .base (.opImm .addi 6#5 0#5 7#12), .mulDiv .mul 7#5 5#5 6#5,
    .base (.auipc 8#5 1#20), .base (.store .sd 8#5 7#5 4#12), .base (.load .lw 9#5 8#5 4#12),
    .base (.branch .beq 9#5 7#5 4#12), .base (.opImm .addi 7#5 0#5 0#12),
    .mulDiv .divw 10#5 9#5 5#5]

/-- Within 40 cycles it has divided the product that it has loaded back from memory. -/
theorem implements_rv64im_smallProgram : ∃ n < 40,
    (TopCpu.run Memory.dpi (n + 1)
      (Memory.boot (smallProgram.map Rv64im.Instr.encode))).regfile.reg 10#5 = 7#64 := by
  obtain ⟨n, hn, -, -, hregs⟩ := @implements_rv64im Regfile.initial Csrfile.initial
    (Memory.image (smallProgram.map Rv64im.Instr.encode)) 0x80000000 0x80000040
    (smallProgram.eraseIdx 7) (by decide) (by decide) (by decide +kernel) (by decide)
  refine ⟨n, hn, ?_⟩
  have hreg := congrArg (fun x => x.get 10#5) hregs
  refine hreg.trans ?_
  decide +kernel

end Pipeline

end Riscv64Cpu
