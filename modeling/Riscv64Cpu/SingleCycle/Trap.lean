import Mathlib.Data.List.Nodup
import Riscv64Cpu.Clocked.Run
import Riscv64Cpu.SingleCycle.Machine

set_option relaxedAutoImplicit false
set_option autoImplicit false

/-!
# The trap entry on the single-cycle processor

`trap.S` of the abstract machine for this processor: `__am_asm_trap` saves the context of the
interrupted program on its stack, calls `__am_irq_handle` and restores the context from the stack.
It does not look at what `__am_irq_handle` returns.

## Main definitions

* `SingleCycle.amAsmTrap` — the text, assembled.
* `SingleCycle.Frame` — the stack holds a context, apart from the text.
* `SingleCycle.Entered`, `Handled`, `Resumed` — the call of the handler, its return and the end of
  the trap.

## Main results

* `SingleCycle.runs_stores`, `runs_loads` — a list of registers to the frame and back.
* `SingleCycle.trap_context` — an `ecall` calls the handler with the whole context, and goes on with
  the one that the handler leaves.

## Design

The functions behind `dpi_mem_read` and `dpi_mem_write` are not part of the design.  `Frame` says
what the trap needs of them: words of the frame are read as they were written, and a write there
changes no word apart from it.
-/

namespace Riscv64Cpu.SingleCycle

open Clocked Rv32i

/-! ## `trap.S` -/

/-- `REGS`: the registers but for `x0` and the stack pointer. -/
def regs : List (BitVec 5) :=
  [1#5, 3#5, 4#5, 5#5, 6#5, 7#5, 8#5, 9#5, 10#5, 11#5, 12#5, 13#5, 14#5, 15#5, 16#5, 17#5, 18#5,
    19#5, 20#5, 21#5, 22#5, 23#5, 24#5, 25#5, 26#5, 27#5, 28#5, 29#5, 30#5, 31#5]

/-- The stack pointer. -/
def sp : BitVec 5 := 2#5
/-- The return address. -/
def ra : BitVec 5 := 1#5
/-- The argument of the handler. -/
def a0 : BitVec 5 := 10#5
/-- The temporary for `mcause`. -/
def t0 : BitVec 5 := 5#5
/-- The temporary for `mstatus`. -/
def t1 : BitVec 5 := 6#5
/-- The temporary for `mepc`. -/
def t2 : BitVec 5 := 7#5

/-- `STORE r, (k * XLEN)(sp)`. -/
def storeWord (p : BitVec 5 × ℕ) : Op := .instr (.store .sw sp p.1 (BitVec.ofNat 12 (4 * p.2)))

/-- `LOAD r, (k * XLEN)(sp)`. -/
def loadWord (p : BitVec 5 × ℕ) : Op := .instr (.load .lw p.1 sp (BitVec.ofNat 12 (4 * p.2)))

/-- A register and the word of the context that `PUSH` and `POP` use for it. -/
def ownWord (n : BitVec 5) : BitVec 5 × ℕ := (n, n.toNat)

/-- The words of the context behind the registers: `OFFSET_CAUSE`, `OFFSET_STATUS`,
`OFFSET_EPC`. -/
def causeWord : ℕ := 32
def statusWord : ℕ := 33
def epcWord : ℕ := 34

/-- `csrr rd, csr`. -/
def csrr (rd : BitVec 5) (csr : BitVec 12) : Op := .instr (.csrrs rd 0#5 csr)

/-- `csrw csr, rs`. -/
def csrw (csr : BitVec 12) (rs : BitVec 5) : Op := .instr (.csrrw 0#5 rs csr)

/-- `addi rd, rs, imm`. -/
def addi (rd rs : BitVec 5) (imm : BitVec 12) : Op := .instr (.opImm .addi rd rs imm)

/-- `__am_asm_trap` up to the call of `__am_irq_handle`, which lies `irqHandle` half words behind
the call. -/
def trapEnter (irqHandle : BitVec 20) : List Op :=
  addi sp sp (BitVec.ofInt 12 (-144)) ::
    ((regs.map ownWord).map storeWord ++
      csrr t0 mcause :: csrr t1 mstatus :: csrr t2 mepc ::
        ([(t0, causeWord), (t1, statusWord), (t2, epcWord)].map storeWord ++
          [addi a0 sp 0#12, .instr (.jal ra irqHandle)]))

/-- `__am_asm_trap` from the return of `__am_irq_handle` on. -/
def trapLeave : List Op :=
  [(t1, statusWord), (t2, epcWord)].map loadWord ++
    csrw mstatus t1 :: csrw mepc t2 ::
      ((regs.map ownWord).map loadWord ++ [addi sp sp 144#12, .mret])

/-- `__am_asm_trap`. -/
def amAsmTrap (irqHandle : BitVec 20) : List Op := trapEnter irqHandle ++ trapLeave

/-! ## Code and frame -/

section Placed

variable {M : Type} (dpi : Dpi M)

/-- The words from `a` on encode the operations. -/
def Loaded (mem : M) : BitVec 32 → List Op → Prop
  | _, [] => True
  | a, o :: ops => window dpi mem a = o.encode ∧ Loaded mem (a + 4#32) ops

instance instDecidableLoaded (mem : M) :
    ∀ (a : BitVec 32) (ops : List Op), Decidable (Loaded dpi mem a ops)
  | _, [] => .isTrue trivial
  | a, _ :: ops =>
    have := instDecidableLoaded mem (a + 4#32) ops
    inferInstanceAs (Decidable (_ ∧ _))

/-- The words at `a` and `b` have no byte in common. -/
def Apart (a b : BitVec 32) : Prop := 4 ≤ (a - b).toNat ∧ 4 ≤ (b - a).toNat

instance (a b : BitVec 32) : Decidable (Apart a b) := inferInstanceAs (Decidable (_ ∧ _))

/-- Word `k` from `f` on. -/
def slot (f : BitVec 32) (k : ℕ) : BitVec 32 := f + BitVec.ofNat 32 (4 * k)

/-- The frame at `f` is memory. -/
structure Frame (f : BitVec 32) : Prop where
  same : ∀ m v, ∀ k < 36, window dpi (dpi.memWrite m (slot f k) v 4#32) (slot f k) = v
  apart : ∀ m v b, ∀ k < 36, Apart b (slot f k) →
    window dpi (dpi.memWrite m (slot f k) v 4#32) b = window dpi m b

/-- The `n` words from `a` on are apart from the frame at `f`. -/
def Clear (f a : BitVec 32) (n : ℕ) : Prop := ∀ i < n, ∀ k < 36, Apart (slot a i) (slot f k)

/-- The machine is about to execute `ops`, which are apart from the frame at `f`. -/
structure Ready (f : BitVec 32) (h : Hart M) (ops : List Op) : Prop where
  loaded : Loaded dpi h.mem h.pc ops
  clear : Clear f h.pc ops.length

variable {dpi} {f a : BitVec 32} {mem mem' : M} {h h' : Hart M} {o : Op} {ops ops' : List Op}

/-- The first word. -/
lemma slot_zero : slot a 0 = a := by simp [slot]

/-- The words from the second one on. -/
lemma slot_succ (i : ℕ) : slot (a + 4#32) i = slot a (i + 1) := by
  rw [slot, slot, BitVec.add_assoc, show 4#32 = BitVec.ofNat 32 4 from rfl, ← BitVec.ofNat_add,
    show 4 * (i + 1) = 4 + 4 * i by omega]

/-- Word `j` from word `i` on. -/
lemma slot_slot (i j : ℕ) : slot (slot a i) j = slot a (i + j) := by
  rw [slot, slot, slot, BitVec.add_assoc, ← BitVec.ofNat_add, ← Nat.mul_add]

/-- Different words of the frame are apart. -/
lemma apart_slot {i k : ℕ} (hi : i < 36) (hk : k < 36) (hne : i ≠ k) :
    Apart (slot f i) (slot f k) := by
  have hf := f.isLt
  simp only [Apart, slot, BitVec.toNat_sub, BitVec.toNat_add, BitVec.toNat_ofNat]
  omega

/-- The later part of a code. -/
lemma loaded_append : Loaded dpi mem a (ops ++ ops') ↔
    Loaded dpi mem a ops ∧ Loaded dpi mem (slot a ops.length) ops' := by
  induction ops generalizing a with
  | nil => simp [Loaded, slot_zero]
  | cons o ops ih =>
    simp only [List.cons_append, Loaded, ih, slot_succ, List.length_cons, and_assoc]

/-- A code whose words are still the same. -/
lemma loaded_congr (h : ∀ i < ops.length, window dpi mem' (slot a i) = window dpi mem (slot a i))
    (hl : Loaded dpi mem a ops) : Loaded dpi mem' a ops := by
  induction ops generalizing a with
  | nil => trivial
  | cons o ops ih =>
    refine ⟨?_, ih (fun i hi => ?_) hl.2⟩
    · have h0 := h 0 (Nat.succ_pos _)
      rw [slot_zero] at h0
      rw [h0, hl.1]
    · rw [slot_succ]
      exact h (i + 1) (Nat.succ_lt_succ hi)

/-- An operation that goes on to the next one and changes no word of the code. -/
lemma Ready.next (hr : Ready dpi f h (o :: ops)) (h' : Hart M) (hpc : h'.pc = h.pc + 4#32)
    (hm : ∀ b, (∀ k < 36, Apart b (slot f k)) → window dpi h'.mem b = window dpi h.mem b) :
    Ready dpi f h' ops := by
  have hclear : Clear f (h.pc + 4#32) ops.length := by
    intro i hi k hk
    rw [slot_succ]
    exact hr.clear (i + 1) (Nat.succ_lt_succ hi) k hk
  constructor
  · rw [hpc]
    exact loaded_congr (fun i hi => hm _ fun k hk => hclear i hi k hk) hr.loaded.2
  · rw [hpc]
    exact hclear

end Placed

/-! ## Straight-line code -/

section Straight

variable {M : Type} {dpi : Dpi M} {f : BitVec 32} {h : Hart M} {ops : List Op}

/-- The offset of a word of the frame. -/
lemma offset_slot {k : ℕ} (hk : k < 36) :
    f + (BitVec.ofNat 12 (4 * k)).signExtend 32 = slot f k := by
  have hext : (BitVec.ofNat 12 (4 * k)).signExtend 32 = BitVec.ofNat 32 (4 * k) := by
    rw [BitVec.signExtend_eq_setWidth_of_msb_false, BitVec.setWidth_ofNat_of_le_of_lt (by decide)]
    · omega
    · rw [BitVec.msb_eq_false_iff_two_mul_lt, BitVec.toNat_ofNat]
      omega
  rw [hext, slot]

/-- **Registers to the frame.**  The code stores registers into different words of the frame.

**Proof sketch.** Induction on the list: a later store hits another word. -/
theorem runs_stores (hf : Frame dpi f) : ∀ (l : List (BitVec 5 × ℕ)) {h : Hart M},
    Ready dpi f h (l.map storeWord ++ ops) → h.x sp = f → (∀ p ∈ l, p.2 < 36) →
    (l.map Prod.snd).Nodup → ∃ h', Hart.Runs dpi (l.map storeWord) h h' ∧ Ready dpi f h' ops ∧
      h'.pc = slot h.pc l.length ∧ h'.x = h.x ∧ h'.csr = h.csr ∧
      (∀ p ∈ l, window dpi h'.mem (slot f p.2) = h.x p.1) ∧
      ∀ b, (∀ p ∈ l, Apart b (slot f p.2)) → window dpi h'.mem b = window dpi h.mem b
  | [], h, hr, _, _, _ => ⟨h, rfl, hr, slot_zero.symm, rfl, rfl, by simp, fun _ _ => rfl⟩
  | (r, k) :: l, h, hr, hsp, hk, hnd => by
    have hk0 : k < 36 := hk (r, k) List.mem_cons_self
    obtain ⟨hnot, hnd'⟩ := List.nodup_cons.1 hnd
    have hexec : (storeWord (r, k)).exec dpi h =
        { h with pc := h.pc + 4#32, mem := dpi.memWrite h.mem (slot f k) (h.x r) 4#32 } := by
      rw [← offset_slot hk0, ← hsp]
      rfl
    have hother : ∀ b, Apart b (slot f k) →
        window dpi ((storeWord (r, k)).exec dpi h).mem b = window dpi h.mem b := by
      intro b hb
      rw [hexec]
      exact hf.apart _ _ _ k hk0 hb
    have hx : ((storeWord (r, k)).exec dpi h).x = h.x := by rw [hexec]
    obtain ⟨h', hrun, hr', hpc', hx', hc', hw', hb'⟩ := runs_stores hf l
      (h := (storeWord (r, k)).exec dpi h)
      (hr.next _ (by rw [hexec]) fun b hb => hother b (hb k hk0)) (by rw [hx, hsp])
      (fun p hp => hk p (List.mem_cons_of_mem _ hp)) hnd'
    refine ⟨h', ⟨hr.loaded.1, hrun⟩, hr', ?_, hx'.trans hx, ?_, ?_, ?_⟩
    · rw [hpc', hexec, slot_succ]
      rfl
    · rw [hc', hexec]
    · intro p hp
      rcases List.mem_cons.1 hp with rfl | hp
      · rw [hb' (slot f k), hexec]
        · exact hf.same _ _ k hk0
        · intro p hp
          refine apart_slot hk0 (hk p (List.mem_cons_of_mem _ hp)) fun he => hnot ?_
          exact List.mem_map.2 ⟨p, hp, he.symm⟩
      · rw [hw' p hp, hx]
    · intro b hb
      rw [hb' b fun p hp => hb p (List.mem_cons_of_mem _ hp),
        hother b (hb (r, k) List.mem_cons_self)]

/-- **The frame to registers.**  The code loads words of the frame into different registers. -/
theorem runs_loads : ∀ (l : List (BitVec 5 × ℕ)) {h : Hart M},
    Ready dpi f h (l.map loadWord ++ ops) → h.x sp = f → (∀ p ∈ l, p.2 < 36) →
    (∀ p ∈ l, p.1 ≠ 0#5 ∧ p.1 ≠ sp) → (l.map Prod.fst).Nodup →
    ∃ h', Hart.Runs dpi (l.map loadWord) h h' ∧ Ready dpi f h' ops ∧
      h'.pc = slot h.pc l.length ∧ h'.mem = h.mem ∧ h'.csr = h.csr ∧
      (∀ p ∈ l, h'.x p.1 = window dpi h.mem (slot f p.2)) ∧
      ∀ r, r ∉ l.map Prod.fst → h'.x r = h.x r
  | [], h, hr, _, _, _, _ => ⟨h, rfl, hr, slot_zero.symm, rfl, rfl, by simp, fun _ _ => rfl⟩
  | (r, k) :: l, h, hr, hsp, hk, hne, hnd => by
    have hk0 : k < 36 := hk (r, k) List.mem_cons_self
    obtain ⟨hr0, hrsp⟩ : r ≠ 0#5 ∧ r ≠ sp := hne (r, k) List.mem_cons_self
    obtain ⟨hnot, hnd'⟩ := List.nodup_cons.1 hnd
    have hexec : (loadWord (r, k)).exec dpi h = { h with
        pc := h.pc + 4#32
        x := applyWrite h.x (some (r, window dpi h.mem (slot f k))) } := by
      have hw : write r (window dpi h.mem (slot f k)) = some (r, window dpi h.mem (slot f k)) :=
        if_neg hr0
      rw [← hw, ← offset_slot hk0, ← hsp]
      rfl
    have hx : ∀ q, q ≠ r → ((loadWord (r, k)).exec dpi h).x q = h.x q := by
      intro q hq
      rw [hexec]
      have hmiss : ¬ Hits (some (r, window dpi h.mem (slot f k))) q := by simpa using Ne.symm hq
      exact applyWrite_miss h.x hmiss
    obtain ⟨h', hrun, hr', hpc', hm', hc', hw', hx'⟩ := runs_loads l
      (h := (loadWord (r, k)).exec dpi h)
      (hr.next _ (by rw [hexec]) fun b _ => by rw [hexec]) (by rw [hx _ (Ne.symm hrsp), hsp])
      (fun p hp => hk p (List.mem_cons_of_mem _ hp))
      (fun p hp => hne p (List.mem_cons_of_mem _ hp)) hnd'
    refine ⟨h', ⟨hr.loaded.1, hrun⟩, hr', ?_, ?_, ?_, ?_, ?_⟩
    · rw [hpc', hexec, slot_succ]
      rfl
    · rw [hm', hexec]
    · rw [hc', hexec]
    · intro p hp
      rcases List.mem_cons.1 hp with rfl | hp
      · rw [hx' r hnot, hexec]
        exact applyWrite_hit _ _ _
      · rw [hw' p hp, hexec]
    · intro q hq
      rw [List.map_cons, List.mem_cons, not_or] at hq
      rw [hx' q hq.2, hx q hq.1]

/-- `addi` adds an immediate. -/
lemma exec_addi (dpi : Dpi M) (h : Hart M) (rd rs : BitVec 5) (imm : BitVec 12)
    (hrd : rd ≠ 0#5) :
    (addi rd rs imm).exec dpi h = { h with
      pc := h.pc + 4#32
      x := applyWrite h.x (some (rd, h.x rs + imm.signExtend 32)) } := by
  have hw : write rd (h.x rs + imm.signExtend 32) = some (rd, h.x rs + imm.signExtend 32) :=
    if_neg hrd
  rw [← hw]
  rfl

/-- `csrr` reads a CSR. -/
lemma exec_csrr (dpi : Dpi M) (h : Hart M) (rd : BitVec 5) (id : BitVec 12) (hrd : rd ≠ 0#5) :
    (csrr rd id).exec dpi h = { h with
      pc := h.pc + 4#32, x := applyWrite h.x (some (rd, h.csr id)) } := by
  have hw : write rd (h.csr id) = some (rd, h.csr id) := if_neg hrd
  rw [← hw]
  rfl

/-- `csrw` writes a CSR. -/
lemma exec_csrw (dpi : Dpi M) (h : Hart M) (id : BitVec 12) (rs : BitVec 5) :
    (csrw id rs).exec dpi h = { h with
      pc := h.pc + 4#32, csr := csrAfter h.csr (some (id, h.x rs)) } := rfl

end Straight

/-! ## The trap -/

section Trap

variable {M : Type} (dpi : Dpi M)

/-- The frame below the stack pointer `v`: `CONTEXT_SIZE` is 144. -/
def frameOf (v : BitVec 32) : BitVec 32 := v + BitVec.ofInt 32 (-144)

/-- A context, as `trap.S` saves it. -/
structure Context where
  gpr : BitVec 5 → BitVec 32
  mcause : BitVec 32
  mstatus : BitVec 32
  mepc : BitVec 32

/-- The context of the state at the entry of the trap. -/
def Hart.context (h : Hart M) : Context :=
  ⟨h.x, h.csr SingleCycle.mcause, h.csr SingleCycle.mstatus, h.csr SingleCycle.mepc⟩

/-- The frame at `f` holds the context `c`. -/
structure InFrame (mem : M) (f : BitVec 32) (c : Context) : Prop where
  gpr : ∀ r ∈ regs, window dpi mem (slot f r.toNat) = c.gpr r
  cause : window dpi mem (slot f causeWord) = c.mcause
  status : window dpi mem (slot f statusWord) = c.mstatus
  epc : window dpi mem (slot f epcWord) = c.mepc

/-- The machine `t` is at the entry of the handler, from the state `h` at the entry of the trap. -/
structure Entered (irqHandle : BitVec 20) (h t : Hart M) : Prop where
  pc : t.pc = slot h.pc 38 + (irqHandle ++ 0#1).signExtend 32
  ra : t.x ra = slot h.pc 39
  sp : t.x sp = frameOf (h.x sp)
  a0 : t.x a0 = frameOf (h.x SingleCycle.sp)
  csr : t.csr = h.csr
  context : InFrame dpi t.mem (frameOf (h.x SingleCycle.sp)) h.context
  mem : ∀ b, (∀ k < 36, Apart b (slot (frameOf (h.x SingleCycle.sp)) k)) →
    window dpi t.mem b = window dpi h.mem b

variable {dpi} {h : Hart M} {irqHandle : BitVec 20} {ops : List Op}

/-- The first part of the entry: the frame, with the registers in it. -/
private lemma runs_push (hf : Frame dpi (frameOf (h.x sp)))
    (hr : Ready dpi (frameOf (h.x sp)) h (addi sp sp (BitVec.ofInt 12 (-144)) ::
      ((regs.map ownWord).map storeWord ++ ops))) :
    ∃ t, Hart.Runs dpi
        (addi sp sp (BitVec.ofInt 12 (-144)) :: (regs.map ownWord).map storeWord) h t ∧
      Ready dpi (frameOf (h.x sp)) t ops ∧ t.pc = slot h.pc 31 ∧
      t.x = applyWrite h.x (some (sp, frameOf (h.x sp))) ∧ t.csr = h.csr ∧
      (∀ r ∈ regs, window dpi t.mem (slot (frameOf (h.x sp)) r.toNat) = h.x r) ∧
      ∀ b, (∀ r ∈ regs, Apart b (slot (frameOf (h.x sp)) r.toNat)) →
        window dpi t.mem b = window dpi h.mem b := by
  have hexec := exec_addi dpi h sp sp (BitVec.ofInt 12 (-144)) (by decide)
  rw [show (BitVec.ofInt 12 (-144)).signExtend 32 = BitVec.ofInt 32 (-144) by decide] at hexec
  change _ = { h with
    pc := h.pc + 4#32, x := applyWrite h.x (some (sp, frameOf (h.x sp))) } at hexec
  have hr1 := hr.next ((addi sp sp (BitVec.ofInt 12 (-144))).exec dpi h) (by rw [hexec])
    fun b _ => by rw [hexec]
  obtain ⟨t, hrun, hrt, hpc, hx, hc, hw, hb⟩ := runs_stores hf _ hr1
    (by rw [hexec]; exact applyWrite_hit h.x sp _) (by decide +kernel) (by decide +kernel)
  refine ⟨t, ⟨hr.loaded.1, hrun⟩, hrt, ?_, ?_, ?_, ?_, ?_⟩
  · rw [hpc, hexec, slot_succ]
    rfl
  · rw [hx, hexec]
  · rw [hc, hexec]
  · intro r hr
    have hsp : sp ≠ r := fun he => absurd (he ▸ hr) (by decide)
    have hmiss : ¬ Hits (some (sp, frameOf (h.x sp))) r := by simpa using hsp
    refine (hw (ownWord r) (List.mem_map_of_mem hr)).trans ?_
    rw [hexec]
    exact applyWrite_miss h.x hmiss
  · intro b hbs
    rw [hb b fun p hp => ?_, hexec]
    obtain ⟨r, hr, rfl⟩ := List.mem_map.1 hp
    exact hbs r hr

/-- The second part of the entry: the CSRs in temporaries. -/
private lemma runs_csrr {f : BitVec 32}
    (hr : Ready dpi f h (csrr t0 mcause :: csrr t1 mstatus :: csrr t2 mepc :: ops)) :
    ∃ t, Hart.Runs dpi [csrr t0 mcause, csrr t1 mstatus, csrr t2 mepc] h t ∧ Ready dpi f t ops ∧
      t.pc = slot h.pc 3 ∧ t.csr = h.csr ∧ t.mem = h.mem ∧
      t.x t0 = h.csr mcause ∧ t.x t1 = h.csr mstatus ∧ t.x t2 = h.csr mepc ∧ t.x sp = h.x sp := by
  have h1 := exec_csrr dpi h t0 mcause (by decide)
  have hr1 := hr.next ((csrr t0 mcause).exec dpi h) (by rw [h1]) fun b _ => by rw [h1]
  have h2 := exec_csrr dpi ((csrr t0 mcause).exec dpi h) t1 mstatus (by decide)
  have hr2 := hr1.next ((csrr t1 mstatus).exec dpi ((csrr t0 mcause).exec dpi h))
    (by rw [h2]) fun b _ => by rw [h2]
  have h3 := exec_csrr dpi ((csrr t1 mstatus).exec dpi ((csrr t0 mcause).exec dpi h)) t2 mepc
    (by decide)
  refine ⟨_, ⟨hr.loaded.1, hr1.loaded.1, hr2.loaded.1, rfl⟩,
    hr2.next _ (by rw [h3]) fun b _ => by rw [h3], ?_, ?_, ?_, ?_, ?_, ?_, ?_⟩ <;>
    rw [h3, h2, h1]
  · simp [slot, BitVec.add_assoc]
  · simp [applyWrite, Function.update, t0, t1, t2]
  · simp [applyWrite, Function.update, t1, t2]
  · simp [applyWrite, Function.update, t2]
  · simp [applyWrite, Function.update, t0, t1, t2, sp]

/-- The last part of the entry: the call of the handler. -/
private lemma runs_call {f : BitVec 32}
    (hr : Ready dpi f h [addi a0 sp 0#12, .instr (.jal ra irqHandle)]) :
    ∃ t, Hart.Runs dpi [addi a0 sp 0#12, .instr (.jal ra irqHandle)] h t ∧
      t.pc = slot h.pc 1 + (irqHandle ++ 0#1).signExtend 32 ∧ t.csr = h.csr ∧ t.mem = h.mem ∧
      t.x ra = slot h.pc 2 ∧ t.x a0 = h.x sp ∧ t.x sp = h.x sp := by
  have h1 := exec_addi dpi h a0 sp 0#12 (by decide)
  have hr1 := hr.next ((addi a0 sp 0#12).exec dpi h) (by rw [h1]) fun b _ => by rw [h1]
  have h2 : (Op.instr (.jal ra irqHandle)).exec dpi ((addi a0 sp 0#12).exec dpi h) =
      { h with
        pc := h.pc + 4#32 + (irqHandle ++ 0#1).signExtend 32
        x := applyWrite (applyWrite h.x (some (a0, h.x sp + (0#12).signExtend 32)))
          (some (ra, h.pc + 4#32 + 4#32)) } := by
    rw [h1]
    rfl
  refine ⟨_, ⟨hr.loaded.1, hr1.loaded.1, rfl⟩, ?_⟩
  rw [h2]
  refine ⟨by simp [slot], rfl, rfl, ?_, ?_, ?_⟩
  · simp [applyWrite_some, slot, BitVec.add_assoc]
  · simp [applyWrite_some, a0, ra]
  · simp [applyWrite_some, sp, a0, ra]

/-- **The entry.** -/
theorem runs_trapEnter (hf : Frame dpi (frameOf (h.x sp)))
    (hr : Ready dpi (frameOf (h.x sp)) h (trapEnter irqHandle)) :
    ∃ t, Hart.Runs dpi (trapEnter irqHandle) h t ∧ Entered dpi irqHandle h t := by
  obtain ⟨h1, hrun1, hr1, hpc1, hx1, hc1, hw1, hb1⟩ := runs_push hf hr
  have hsp1 : h1.x sp = frameOf (h.x sp) := by rw [hx1, applyWrite_hit]
  obtain ⟨h2, hrun2, hr2, hpc2, hc2, hm2, ht0, ht1, ht2, hsp2⟩ := runs_csrr hr1
  obtain ⟨h3, hrun3, hr3, hpc3, hx3, hc3, hw3, hb3⟩ := runs_stores hf _ hr2
    (hsp2.trans hsp1) (by decide) (by decide)
  have hsp3 : h3.x sp = frameOf (h.x sp) := by rw [hx3, hsp2, hsp1]
  obtain ⟨t, hrun4, hpc, hc4, hm4, hra, ha0, hsp4⟩ := runs_call hr3
  have hpc3 : h3.pc = slot h.pc 37 := by
    rw [hpc3, hpc2, hpc1]
    simp [slot, BitVec.add_assoc]
  refine ⟨t, ⟨hrun1.1, hrun1.2.append (hrun2.append (hrun3.append hrun4))⟩, ?_⟩
  constructor
  case pc =>
    rw [hpc, hpc3]
    simp [slot, BitVec.add_assoc]
  case ra =>
    rw [hra, hpc3]
    simp [slot, BitVec.add_assoc]
  case sp => rw [hsp4, hsp3]
  case a0 => rw [ha0, hsp3]
  case csr => rw [hc4, hc3, hc2, hc1]
  case context =>
    constructor
    case gpr =>
      intro r hr
      have hlt : r.toNat < 32 := r.isLt
      have hapart : ∀ p ∈ [(t0, causeWord), (t1, statusWord), (t2, epcWord)],
          Apart (slot (frameOf (h.x sp)) r.toNat) (slot (frameOf (h.x sp)) p.2) := by
        simp only [List.forall_mem_cons, causeWord, statusWord, epcWord]
        exact ⟨apart_slot (by omega) (by omega) (by omega),
          apart_slot (by omega) (by omega) (by omega),
          apart_slot (by omega) (by omega) (by omega), by simp⟩
      rw [hm4, hb3 _ hapart, hm2, hw1 r hr]
      rfl
    case cause =>
      rw [hm4, hw3 (t0, causeWord) (by decide), ht0, hc1]
      rfl
    case status =>
      rw [hm4, hw3 (t1, statusWord) (by decide), ht1, hc1]
      rfl
    case epc =>
      rw [hm4, hw3 (t2, epcWord) (by decide), ht2, hc1]
      rfl
  case mem =>
    intro b hb
    have hb1' : ∀ r ∈ regs, Apart b (slot (frameOf (h.x SingleCycle.sp)) r.toNat) := fun r _ =>
      hb r.toNat (Nat.lt_trans r.isLt (by decide))
    have hb3' : ∀ p ∈ [(t0, causeWord), (t1, statusWord), (t2, epcWord)],
        Apart b (slot (frameOf (h.x SingleCycle.sp)) p.2) := by
      simp only [List.forall_mem_cons, causeWord, statusWord, epcWord]
      exact ⟨hb _ (by decide), hb _ (by decide), hb _ (by decide), by simp⟩
    rw [hm4, hb3 b hb3', hm2, hb1 b hb1']

/-- What the handler leaves: the machine is behind the call, with the context `c` in the frame
at `f`. -/
structure Handled (dpi : Dpi M) (f ret : BitVec 32) (c : Context) (t : Hart M) : Prop where
  pc : t.pc = ret
  sp : t.x sp = f
  code : Loaded dpi t.mem ret trapLeave
  context : InFrame dpi t.mem f c

/-- The machine goes on with the context `c` and the stack pointer `v`. -/
structure Resumed (c : Context) (v : BitVec 32) (t : Hart M) : Prop where
  pc : t.pc = c.mepc
  gpr : ∀ r ∈ regs, t.x r = c.gpr r
  sp : t.x sp = v
  status : t.csr mstatus = c.mstatus

/-- The first part of the exit: the CSRs. -/
private lemma runs_csrw {f : BitVec 32}
    (hr : Ready dpi f h (csrw mstatus t1 :: csrw mepc t2 :: ops)) :
    ∃ t, Hart.Runs dpi [csrw mstatus t1, csrw mepc t2] h t ∧ Ready dpi f t ops ∧ t.x = h.x ∧
      t.mem = h.mem ∧ t.csr mstatus = h.x t1 ∧ t.csr mepc = h.x t2 := by
  have h1 := exec_csrw dpi h mstatus t1
  have hr1 := hr.next ((csrw mstatus t1).exec dpi h) (by rw [h1]) fun b _ => by rw [h1]
  have h2 := exec_csrw dpi ((csrw mstatus t1).exec dpi h) mepc t2
  refine ⟨_, ⟨hr.loaded.1, hr1.loaded.1, rfl⟩, hr1.next _ (by rw [h2]) fun b _ => by rw [h2], ?_⟩
  rw [h2, h1]
  exact ⟨rfl, rfl, rfl, rfl⟩

/-- The last part of the exit: the stack pointer and the return. -/
private lemma runs_mret {f : BitVec 32} (hr : Ready dpi f h [addi sp sp 144#12, .mret]) :
    ∃ t, Hart.Runs dpi [addi sp sp 144#12, .mret] h t ∧ t.pc = h.csr mepc ∧ t.csr = h.csr ∧
      t.x sp = h.x sp + 144#32 ∧ ∀ r, r ≠ sp → t.x r = h.x r := by
  have h1 := exec_addi dpi h sp sp 144#12 (by decide)
  rw [show (144#12).signExtend 32 = 144#32 by decide] at h1
  have hr1 := hr.next ((addi sp sp 144#12).exec dpi h) (by rw [h1]) fun b _ => by rw [h1]
  refine ⟨_, ⟨hr.loaded.1, hr1.loaded.1, rfl⟩, ?_⟩
  rw [h1]
  refine ⟨rfl, rfl, ?_, fun r hr => ?_⟩
  · simp [Op.exec, applyWrite_some]
  · simp [Op.exec, applyWrite_some, hr]

/-- **The exit.** -/
theorem runs_trapLeave {v ret : BitVec 32} {c : Context}
    (hh : Handled dpi (frameOf v) ret c h) (hclear : Clear (frameOf v) ret trapLeave.length) :
    ∃ t, Hart.Runs dpi trapLeave h t ∧ Resumed c v t := by
  have hr : Ready dpi (frameOf v) h trapLeave := ⟨hh.pc ▸ hh.code, hh.pc ▸ hclear⟩
  obtain ⟨h1, hrun1, hr1, -, hm1, -, hw1, hx1⟩ := runs_loads _ hr hh.sp (by decide) (by decide)
    (by decide)
  have hsp1 : h1.x sp = frameOf v := (hx1 sp (by decide)).trans hh.sp
  obtain ⟨h2, hrun2, hr2, hx2, hm2, hst2, hepc2⟩ := runs_csrw hr1
  have hsp2 : h2.x sp = frameOf v := by rw [hx2, hsp1]
  obtain ⟨h3, hrun3, hr3, -, -, hc3, hw3, hx3⟩ := runs_loads _ hr2 hsp2 (by decide +kernel)
    (by decide +kernel) (by decide +kernel)
  obtain ⟨t, hrun4, hpc, hc, hsp, hx⟩ := runs_mret hr3
  refine ⟨t, hrun1.append (hrun2.append (hrun3.append hrun4)), ?_⟩
  constructor
  case pc =>
    rw [hpc, hc3, hepc2, hw1 (t2, epcWord) (by decide)]
    exact hh.context.epc
  case gpr =>
    intro r hr
    have hne : r ≠ SingleCycle.sp := fun he => absurd (he ▸ hr) (by decide)
    rw [hx r hne]
    refine (hw3 (ownWord r) (List.mem_map_of_mem hr)).trans ?_
    rw [hm2, hm1]
    exact hh.context.gpr r hr
  case sp =>
    rw [hsp, hx3 SingleCycle.sp (by decide +kernel), hsp2, frameOf, BitVec.add_assoc]
    simp
  case status =>
    rw [hc, hc3, hst2, hw1 (t1, statusWord) (by decide)]
    exact hh.context.status

end Trap

/-! ## The trap on the processor -/

section OnProcessor

variable {M : Type} {dpi : Dpi M} {s : Cpu M} {irqHandle : BitVec 20}
  (hclear : Clear (frameOf (s.regfile sp)) s.csr.mtvec (amAsmTrap irqHandle).length)
include hclear

/-- Thirty-six edges behind the return of the handler the processor goes on with the context in the
frame. -/
private lemma resumed_run {t : Cpu M} {c : Context} (h0 : t.regfile 0#5 = 0#32)
    (hhandled : Handled dpi (frameOf (s.regfile sp)) (slot s.csr.mtvec 39) c t.hart) :
    Resumed c (s.regfile sp) (t.run dpi 36).hart := by
  have hleave : Clear (frameOf (s.regfile sp)) (slot s.csr.mtvec 39) trapLeave.length := by
    intro j hj k hk
    rw [slot_slot]
    refine hclear (39 + j) ?_ k hk
    rw [amAsmTrap, List.length_append]
    exact Nat.add_lt_add_left hj 39
  obtain ⟨h', hrun, hresumed⟩ := runs_trapLeave hhandled hleave
  have ht : (t.run dpi 36).hart = h' := hart_run h0 hrun
  rw [ht]
  exact hresumed

variable (h0 : s.regfile 0#5 = 0#32) (hw : s.instr dpi = Op.ecall.encode)
  (hcode : Loaded dpi s.mem s.csr.mtvec (amAsmTrap irqHandle))
include h0 hw hcode

/-- Forty edges behind the `ecall` the processor is at the entry of the handler. -/
private lemma entered_run (hf : Frame dpi (frameOf (s.regfile sp))) :
    Entered dpi irqHandle (Op.ecall.exec dpi s.hart) (s.run dpi 40).hart := by
  have henter : Ready dpi (frameOf (s.regfile sp)) (Op.ecall.exec dpi s.hart)
      (trapEnter irqHandle) := by
    refine ⟨(loaded_append.1 hcode).1, fun i hi => hclear i ?_⟩
    rw [amAsmTrap, List.length_append]
    exact Nat.lt_add_right _ hi
  obtain ⟨h', hrun, hentered⟩ := runs_trapEnter (h := Op.ecall.exec dpi s.hart) hf henter
  have hrun : Hart.Runs dpi (.ecall :: trapEnter irqHandle) s.hart h' := ⟨hw, hrun⟩
  have ht : (s.run dpi 40).hart = h' := hart_run h0 hrun
  rw [ht]
  exact hentered

end OnProcessor

/-- **A trap on the processor.**  In a run from the reset, let the processor be about to execute an
`ecall`, with the text at the trap vector and the frame below the stack pointer apart from it.  Then
it calls the handler forty edges later, with the whole context of the interrupted program in the
frame.  If the handler, so called, returns within `n` edges and leaves the context `c` there, the
processor goes on with `c`, whatever the handler returns: with the registers and the status of `c`
at the address that `c` says, and with the stack pointer of the interrupted program.

**Proof sketch.** The `ecall` and the entry of the trap are a run of the machine (`entered_run`),
and so is the exit after the handler (`resumed_run`); the processor follows both. -/
theorem trap_context {M : Type} {dpi : Dpi M} {s₀ s : Cpu M} {k : ℕ} {irqHandle : BitVec 20}
    (hs : s = (s₀.step dpi true).run dpi k) (hw : s.instr dpi = Op.ecall.encode)
    (hcode : Loaded dpi s.mem s.csr.mtvec (amAsmTrap irqHandle))
    (hf : Frame dpi (frameOf (s.regfile sp)))
    (hclear : Clear (frameOf (s.regfile sp)) s.csr.mtvec (amAsmTrap irqHandle).length) :
    Entered dpi irqHandle (Op.ecall.exec dpi s.hart) (s.run dpi 40).hart ∧
    ∀ (n : ℕ) (c : Context),
      (∀ t : Cpu M, t.regfile 0#5 = 0#32 →
        Entered dpi irqHandle (Op.ecall.exec dpi s.hart) t.hart →
        Within (fun u => u.step dpi false) (fun u => Handled dpi (frameOf (s.regfile sp))
          (slot s.csr.mtvec 39) c u.hart) n t) →
      Within (fun u => u.step dpi false) (fun u => Resumed c (s.regfile sp) u.hart) (n + 76) s := by
  have h0 : s.regfile 0#5 = 0#32 := hs ▸ x0_run x0_reset k
  have hentered := entered_run hclear h0 hw hcode hf
  refine ⟨hentered, fun n c handler => ?_⟩
  obtain ⟨i, hi, hhandled⟩ := handler (s.run dpi 40) (x0_run h0 40) hentered
  have hx0 : ((s.run dpi 40).run dpi i).regfile 0#5 = 0#32 := x0_run (x0_run h0 40) i
  refine ⟨36 + (i + 40), by omega, ?_⟩
  rw [Function.iterate_add_apply, Function.iterate_add_apply]
  show Resumed c (s.regfile sp) (((s.run dpi 40).run dpi i).run dpi 36).hart
  exact resumed_run hclear hx0 hhandled

/-! ### A trap with an empty handler -/

/-- `ret`. -/
def ret : Op := .instr (.jalr 0#5 ra 0#12)

/-- A handler that lies behind the text and does nothing but return. -/
lemma within_ret {M : Type} {dpi : Dpi M} {s t : Cpu M} (h0 : t.regfile 0#5 = 0#32)
    (hcode : Loaded dpi s.mem s.csr.mtvec (amAsmTrap 74#20 ++ [ret]))
    (hclear : Clear (frameOf (s.regfile sp)) s.csr.mtvec 76)
    (heven : slot s.csr.mtvec 39 &&& ~~~1#32 = slot s.csr.mtvec 39)
    (ht : Entered dpi 74#20 (Op.ecall.exec dpi s.hart) t.hart) :
    Within (fun u => u.step dpi false) (fun u => Handled dpi (frameOf (s.regfile sp))
      (slot s.csr.mtvec 39) (Op.ecall.exec dpi s.hart).context u.hart) 1 t := by
  obtain ⟨hcode, hret, -⟩ := loaded_append.1 hcode
  have hpc : t.pc = slot s.csr.mtvec 75 := by
    refine ht.pc.trans ?_
    rw [show (74#20 ++ 0#1).signExtend 32 = BitVec.ofNat 32 (4 * 37) by decide, slot, slot,
      BitVec.add_assoc, ← BitVec.ofNat_add]
    rfl
  have hw : t.instr dpi = ret.encode := by
    refine Eq.trans ?_ hret
    refine Eq.trans ?_ (ht.mem (slot s.csr.mtvec 75) (hclear 75 (by decide)))
    rw [← hpc]
    rfl
  have hstep := hart_step ret h0 hw
  have hexec : ret.exec dpi t.hart =
      { t.hart with pc := (t.hart.x ra + (0#12).signExtend 32) &&& ~~~1#32 } := rfl
  refine Within.next (Within.now ?_)
  rw [hstep, hexec]
  constructor
  case pc =>
    show (t.hart.x ra + (0#12).signExtend 32) &&& ~~~1#32 = _
    rw [ht.ra, show (0#12).signExtend 32 = 0#32 by decide, BitVec.add_zero]
    exact heven
  case sp => exact ht.sp
  case code =>
    refine loaded_congr (fun i hi => ?_) (loaded_append.1 hcode).2
    have hlen : i < 36 := hi
    rw [slot_slot]
    exact ht.mem (slot s.csr.mtvec (39 + i)) (hclear (39 + i) (by omega))
  case context => exact ht.context

/-- A memory of words. -/
def wordDpi : Dpi (BitVec 32 → BitVec 32) where
  memRead mem addr _ := mem addr
  memWrite mem addr data _ := Function.update mem addr data

/-- A frame in the memory of words. -/
private lemma frame_wordDpi (f : BitVec 32) : Frame wordDpi f where
  same m v k _ := Function.update_self _ _ _
  apart m v b k _ hb := by
    refine Function.update_of_ne (fun he => ?_) _ _
    have h4 := hb.1
    rw [he, BitVec.sub_self] at h4
    exact absurd h4 (by decide)

/-- A program that sets the trap vector and the stack pointer and traps; the text of the trap; and
a handler that does nothing but return. -/
def ecallProgram : List Op :=
  [.instr (.lui 1#5 0x80000#20), addi 1#5 1#5 28#12, csrw mtvec 1#5, .instr (.lui 2#5 0x80001#20),
    addi 17#5 0#5 0xfff#12, .ecall, .instr (.jal 0#5 0#20)] ++ amAsmTrap 74#20 ++
    [ret]

/-- The processor before the reset. -/
def ecallStart : Cpu (BitVec 32 → BitVec 32) where
  pc := 0#32
  regfile := fun _ => 0#32
  csr := Csr.reset
  mem := fun a => ((ecallProgram.map Op.encode)[(a - 0x80000000#32).toNat / 4]?).getD 0#32

/-- The processor at the `ecall`. -/
def atEcall : Cpu (BitVec 32 → BitVec 32) := (ecallStart.step wordDpi true).run wordDpi 5

/-- The `ecall` of the program above comes to the handler with the context in the frame, and returns
with all registers as they were. -/
theorem trap_context_empty : atEcall.hart.context.gpr 17#5 = 0xffffffff#32 ∧
    Entered wordDpi 74#20 (Op.ecall.exec wordDpi atEcall.hart) (atEcall.run wordDpi 40).hart ∧
    Within (fun u => u.step wordDpi false)
      (fun u => Resumed (Op.ecall.exec wordDpi atEcall.hart).context (atEcall.regfile sp) u.hart)
      77 atEcall := by
  have hmem : atEcall.mem = ecallStart.mem := rfl
  have hvec : atEcall.csr.mtvec = 0x8000001c#32 := by decide +kernel
  have hsp : atEcall.regfile sp = 0x80001000#32 := by decide +kernel
  have hcode : Loaded wordDpi atEcall.mem atEcall.csr.mtvec (amAsmTrap 74#20 ++ [ret]) := by
    rw [hmem, hvec]
    decide +kernel
  have hclear : Clear (frameOf (atEcall.regfile sp)) atEcall.csr.mtvec 76 := by
    rw [hvec, hsp]
    unfold Clear
    decide +kernel
  have heven : slot atEcall.csr.mtvec 39 &&& ~~~1#32 = slot atEcall.csr.mtvec 39 := by
    rw [hvec]
    decide
  obtain ⟨hentered, hresumed⟩ := trap_context (k := 5) (s := atEcall) rfl (by decide +kernel)
    (loaded_append.1 hcode).1 (frame_wordDpi _) fun i hi => hclear i (Nat.lt_succ_of_lt hi)
  exact ⟨by decide +kernel, hentered,
    hresumed 1 _ fun t h0 ht => within_ret h0 hcode hclear heven ht⟩

end Riscv64Cpu.SingleCycle
