import Riscv64Cpu.Memory.Pmem
import Mathlib.Logic.Function.Basic
import Mathlib.Tactic.SplitIfs

set_option relaxedAutoImplicit false
set_option autoImplicit false

/-!
# The instruction cache

`icache.v` of the 2025 core: 256 sets of two lines, each with four words.  A miss reads the four
words from the pc on and stores them as the line of the pc.

## Main definitions

* `CacheCpu.CacheLine`, `Icache` — the registers of the cache.
* `CacheCpu.Input`, `icacheStep` — a clock edge.
* `CacheCpu.LineHolds`, `Coherent` — a line holds the words of its addresses.
* `CacheCpu.Transparent`, `MissesFill` — what a run owes, and what its misses have to read.
* `CacheCpu.Fetch`, `fetchStep` — the fetch stage, and `DirectFetch`, one without a cache.

## Main results

* `CacheCpu.select_of_aligned` — which word is read out.
* `CacheCpu.missFills_of_lineStart` — a miss at the first word of a line.
* `CacheCpu.transparent_iff` — the runs on which the cache is transparent.
* `CacheCpu.fetch_direct` — the fetch stage hands on what one without a cache hands on.

## Design

`$random % 2` is signed: the input `way` is the way that it names, or `none` for `-1`, which names
none of the two.  Reset does not clear the lines, so a run starts without valid lines.
-/

namespace Riscv64Cpu.CacheCpu

/-! ## Lines and addresses -/

/-- A line: `{valid, tag, cache_data}`. -/
structure CacheLine where
  valid : Bool
  tag : BitVec 52
  data : BitVec 128
deriving DecidableEq

/-- The registers of `icache.v`. -/
structure Icache where
  cache : BitVec 8 → Fin 2 → CacheLine
  icacheOInstr : BitVec 32

/-- The inputs of `icache.v`, and the way that a replacement takes. -/
structure Input where
  rst : Bool
  bubble : Bool
  stall : Bool
  pc : BitVec 64
  way : Option (Fin 2)

/-- `pc_tag`. -/
def pcTag (pc : BitVec 64) : BitVec 52 := pc.extractLsb' 12 52

/-- `pc_index`. -/
def pcIndex (pc : BitVec 64) : BitVec 8 := pc.extractLsb' 4 8

/-- `pc_offset`. -/
def pcOffset (pc : BitVec 64) : BitVec 4 := pc.extractLsb' 0 4

/-- The address of word `k` of the line with the given tag and index. -/
def lineAddr (tag : BitVec 52) (index : BitVec 8) (k : ℕ) : BitVec 64 :=
  tag ++ index ++ BitVec.ofNat 4 (4 * k)

/-! ## A clock edge -/

section Edge

variable (read : BitVec 64 → BitVec 32)

/-- `memory_data`: the four words from the pc on. -/
def memoryData (pc : BitVec 64) : BitVec 128 :=
  read (pc + 12#64) ++ read (pc + 8#64) ++ read (pc + 4#64) ++ read pc

/-- The word of a line that `pc_offset` selects; the output keeps its value otherwise. -/
def selectWord (data : BitVec 128) (offset : BitVec 4) (old : BitVec 32) : BitVec 32 :=
  if offset == 0#4 then data.extractLsb' 0 32
  else if offset == 4#4 then data.extractLsb' 32 32
  else if offset == 8#4 then data.extractLsb' 64 32
  else if offset == 12#4 then data.extractLsb' 96 32
  else old

/-- `cache_hit_index0` and `cache_hit_index1`. -/
def cacheHit (s : Icache) (pc : BitVec 64) (way : Fin 2) : Bool :=
  (s.cache (pcIndex pc) way).tag == pcTag pc && (s.cache (pcIndex pc) way).valid

/-- `cache_miss`. -/
def cacheMiss (s : Icache) (pc : BitVec 64) : Bool := !(cacheHit s pc 0 || cacheHit s pc 1)

/-- The lines after the replacement of the line of the pc in a way. -/
def fill (s : Icache) (pc : BitVec 64) : Option (Fin 2) → BitVec 8 → Fin 2 → CacheLine
  | none => s.cache
  | some way => Function.update s.cache (pcIndex pc)
      (Function.update (s.cache (pcIndex pc)) way ⟨true, pcTag pc, memoryData read pc⟩)

/-- A clock edge of `icache.v`. -/
def icacheStep (i : Input) (s : Icache) : Icache :=
  if i.rst || i.bubble then { s with icacheOInstr := 0#32 }
  else if !i.stall then
    if cacheHit s i.pc 0 then
      { s with icacheOInstr :=
          selectWord (s.cache (pcIndex i.pc) 0).data (pcOffset i.pc) s.icacheOInstr }
    else if cacheHit s i.pc 1 then
      { s with icacheOInstr :=
          selectWord (s.cache (pcIndex i.pc) 1).data (pcOffset i.pc) s.icacheOInstr }
    else
      { cache := fill read s i.pc i.way
        icacheOInstr := selectWord (memoryData read i.pc) (pcOffset i.pc) s.icacheOInstr }
  else s

end Edge

/-! ## The words of an access -/

/-- A pc at a multiple of four. -/
def Aligned (pc : BitVec 64) : Prop := pc.extractLsb' 0 2 = 0#2

instance (pc : BitVec 64) : Decidable (Aligned pc) := inferInstanceAs (Decidable (_ = _))

/-- The number of the word in its line. -/
def wordOf (pc : BitVec 64) : ℕ := pc.toNat / 4 % 4

/-- The address of a word, as a number. -/
lemma toNat_lineAddr (tag : BitVec 52) (index : BitVec 8) {k : ℕ} (hk : k < 4) :
    (lineAddr tag index k).toNat = tag.toNat * 4096 + index.toNat * 16 + 4 * k := by
  have hindex := index.isLt
  rw [lineAddr, BitVec.toNat_append, BitVec.toNat_append, BitVec.toNat_ofNat,
    Nat.mod_eq_of_lt (by omega), ← Nat.shiftLeft_add_eq_or_of_lt (by omega),
    ← Nat.shiftLeft_add_eq_or_of_lt (by omega), Nat.shiftLeft_eq, Nat.shiftLeft_eq]
  omega

/-- The tag of a pc, as a number. -/
lemma toNat_pcTag (pc : BitVec 64) : (pcTag pc).toNat = pc.toNat / 4096 := by
  have hpc := pc.isLt
  rw [pcTag, BitVec.extractLsb'_toNat, Nat.shiftRight_eq_div_pow]
  omega

/-- The index of a pc, as a number. -/
lemma toNat_pcIndex (pc : BitVec 64) : (pcIndex pc).toNat = pc.toNat / 16 % 256 := by
  rw [pcIndex, BitVec.extractLsb'_toNat, Nat.shiftRight_eq_div_pow]

/-- The offset of a pc, as a number. -/
lemma toNat_pcOffset (pc : BitVec 64) : (pcOffset pc).toNat = pc.toNat % 16 := by
  rw [pcOffset, BitVec.extractLsb'_toNat, Nat.shiftRight_zero]

/-- A pc is aligned when the remainder modulo four is zero. -/
lemma aligned_iff (pc : BitVec 64) : Aligned pc ↔ pc.toNat % 4 = 0 := by
  rw [Aligned, ← BitVec.toNat_inj, BitVec.extractLsb'_toNat, Nat.shiftRight_zero]
  rfl

/-- An aligned pc is the address of its word. -/
private lemma lineAddr_wordOf {pc : BitVec 64} (h : Aligned pc) :
    lineAddr (pcTag pc) (pcIndex pc) (wordOf pc) = pc := by
  rw [aligned_iff] at h
  have hk : wordOf pc < 4 := Nat.mod_lt _ (by decide)
  apply BitVec.eq_of_toNat_eq
  rw [toNat_lineAddr _ _ hk, toNat_pcTag, toNat_pcIndex, wordOf]
  omega

/-- From the first word of a line on, the words are those of the line. -/
private lemma add_eq_lineAddr {pc : BitVec 64} (h : pcOffset pc = 0#4) {k : ℕ} (hk : k < 4) :
    pc + BitVec.ofNat 64 (4 * k) = lineAddr (pcTag pc) (pcIndex pc) k := by
  have hpc := pc.isLt
  have h0 := congrArg BitVec.toNat h
  rw [toNat_pcOffset] at h0
  have h0' : pc.toNat % 16 = 0 := h0
  apply BitVec.eq_of_toNat_eq
  rw [toNat_lineAddr _ _ hk, toNat_pcTag, toNat_pcIndex, BitVec.toNat_add, BitVec.toNat_ofNat]
  omega

/-- **The word that is read out** for an aligned pc. -/
theorem select_of_aligned {pc : BitVec 64} (h : Aligned pc) (data : BitVec 128) (old : BitVec 32) :
    selectWord data (pcOffset pc) old = data.extractLsb' (32 * wordOf pc) 32 := by
  rw [aligned_iff] at h
  have hoff : pcOffset pc = BitVec.ofNat 4 (4 * wordOf pc) := by
    apply BitVec.eq_of_toNat_eq
    rw [toNat_pcOffset, BitVec.toNat_ofNat, wordOf]
    omega
  have hk : wordOf pc < 4 := Nat.mod_lt _ (by decide)
  rw [hoff]
  generalize wordOf pc = k at hk
  obtain rfl | rfl | rfl | rfl : k = 0 ∨ k = 1 ∨ k = 2 ∨ k = 3 := by omega
  all_goals rfl

/-- The words of `memory_data`. -/
lemma extract_memoryData (read : BitVec 64 → BitVec 32) (pc : BitVec 64) {k : ℕ} (hk : k < 4) :
    (memoryData read pc).extractLsb' (32 * k) 32 = read (pc + BitVec.ofNat 64 (4 * k)) := by
  obtain rfl | rfl | rfl | rfl : k = 0 ∨ k = 1 ∨ k = 2 ∨ k = 3 := by omega
  · rw [memoryData, show pc + BitVec.ofNat 64 (4 * 0) = pc from BitVec.add_zero pc]
    exact BitVec.extractLsb'_append_eq_right
  · rw [memoryData, BitVec.extractLsb'_append_eq_of_le (by decide)]
    exact BitVec.extractLsb'_append_eq_right
  · rw [memoryData, BitVec.extractLsb'_append_eq_of_le (by decide),
      BitVec.extractLsb'_append_eq_of_le (by decide)]
    exact BitVec.extractLsb'_append_eq_right
  · rw [memoryData, BitVec.extractLsb'_append_eq_of_le (by decide),
      BitVec.extractLsb'_append_eq_of_le (by decide),
      BitVec.extractLsb'_append_eq_of_le (by decide)]
    exact BitVec.extractLsb'_eq_self

/-! ## One edge -/

/-- The edge is one at which the cache puts out an instruction. -/
def Input.enabled (i : Input) : Bool := !i.rst && !i.bubble && !i.stall

section Steps

variable (read : BitVec 64 → BitVec 32)

/-- A line holds the words of its addresses. -/
def LineHolds (index : BitVec 8) (line : CacheLine) : Prop :=
  ∀ k < 4, line.data.extractLsb' (32 * k) 32 = read (lineAddr line.tag index k)

/-- Every valid line holds the words of its addresses. -/
def Coherent (s : Icache) : Prop :=
  ∀ index way, (s.cache index way).valid = true → LineHolds read index (s.cache index way)

/-- What an edge owes: the output is the instruction at the pc, and every valid line holds the
words of its addresses. -/
def EdgeTransparent (i : Input) (s : Icache) : Prop :=
  (i.enabled = true → (icacheStep read i s).icacheOInstr = read i.pc) ∧
    Coherent read (icacheStep read i s)

/-- What a miss has to read: the four words from the pc on are those of the line that is replaced,
and the one that is put out is that of the pc. -/
def MissFills (i : Input) : Prop :=
  (∀ way, i.way = some way → ∀ k < 4, read (i.pc + BitVec.ofNat 64 (4 * k)) =
      read (lineAddr (pcTag i.pc) (pcIndex i.pc) k)) ∧
    read (i.pc + BitVec.ofNat 64 (4 * wordOf i.pc)) = read i.pc

/-- The edge is not a miss, or the miss reads the line of the pc. -/
def EdgeFills (i : Input) (s : Icache) : Prop :=
  i.enabled = true → cacheMiss s i.pc = true → MissFills read i

variable {read} {i : Input} {s : Icache}

/-- A miss at the first word of a line reads the line. -/
theorem missFills_of_lineStart (h : pcOffset i.pc = 0#4) : MissFills read i := by
  have hword : wordOf i.pc = 0 := by
    have h0 := congrArg BitVec.toNat h
    rw [toNat_pcOffset] at h0
    have h0' : i.pc.toNat % 16 = 0 := h0
    unfold wordOf
    omega
  refine ⟨fun _ _ k hk => congrArg read (add_eq_lineAddr h hk), ?_⟩
  rw [hword]
  exact congrArg read (BitVec.add_zero i.pc)

/-- An edge without an output leaves the lines. -/
private lemma cache_of_not_enabled (h : i.enabled = false) :
    (icacheStep read i s).cache = s.cache := by
  unfold icacheStep
  split_ifs with hr hs h0 h1
  · rfl
  · rfl
  · rfl
  · simp only [Bool.or_eq_true, not_or, Bool.not_eq_true, Bool.not_eq_eq_eq_not, Bool.not_true]
      at hr hs
    rw [Input.enabled, hr.1, hr.2, hs] at h
    exact absurd h.symm Bool.false_ne_true
  · rfl

/-- An edge with an output takes one of the last three branches. -/
private lemma icacheStep_enabled (h : i.enabled = true) : icacheStep read i s =
    if cacheHit s i.pc 0 then
      { s with icacheOInstr :=
          selectWord (s.cache (pcIndex i.pc) 0).data (pcOffset i.pc) s.icacheOInstr }
    else if cacheHit s i.pc 1 then
      { s with icacheOInstr :=
          selectWord (s.cache (pcIndex i.pc) 1).data (pcOffset i.pc) s.icacheOInstr }
    else
      { cache := fill read s i.pc i.way
        icacheOInstr := selectWord (memoryData read i.pc) (pcOffset i.pc) s.icacheOInstr } := by
  simp only [Input.enabled, Bool.and_eq_true, Bool.not_eq_eq_eq_not, Bool.not_true] at h
  obtain ⟨⟨hr, hb⟩, hs⟩ := h
  rw [icacheStep, hr, hb, hs]
  rfl

/-- The word that a hit puts out. -/
lemma select_of_hit (hc : Coherent read s) {pc : BitVec 64} (hpc : Aligned pc) {way : Fin 2}
    (hhit : cacheHit s pc way = true) (old : BitVec 32) :
    selectWord (s.cache (pcIndex pc) way).data (pcOffset pc) old = read pc := by
  simp only [cacheHit, Bool.and_eq_true, beq_iff_eq] at hhit
  rw [select_of_aligned hpc, hc _ _ hhit.2 (wordOf pc) (Nat.mod_lt _ (by decide)), hhit.1,
    lineAddr_wordOf hpc]

/-- The lines after a replacement hold their words if and only if the new one does. -/
private lemma coherent_fill_iff (hc : Coherent read s) {pc : BitVec 64} {way : Option (Fin 2)}
    {out : BitVec 32} : Coherent read ⟨fill read s pc way, out⟩ ↔
      ∀ w, way = some w → LineHolds read (pcIndex pc) ⟨true, pcTag pc, memoryData read pc⟩ := by
  cases way with
  | none => exact iff_of_true hc fun w h => by cases h
  | some w =>
    constructor
    · intro h _ _
      have hnew := h (pcIndex pc) w
      simp only [fill, Function.update_self] at hnew
      exact hnew trivial
    · intro h index way hvalid
      by_cases hi : index = pcIndex pc
      · subst hi
        by_cases hw : way = w
        · subst hw
          simp only [fill, Function.update_self]
          exact h way rfl
        · simp only [fill, Function.update_self, Function.update_of_ne hw] at hvalid ⊢
          exact hc _ _ hvalid
      · simp only [fill, Function.update_of_ne hi] at hvalid ⊢
        exact hc _ _ hvalid

/-- **One edge**: from coherent lines it is transparent if and only if it is no miss, or one that
reads the line of the pc. -/
theorem edgeTransparent_iff (hc : Coherent read s) (hpc : Aligned i.pc) :
    EdgeTransparent read i s ↔ EdgeFills read i s := by
  cases he : i.enabled with
  | false =>
    have hcache : (icacheStep read i s).cache = s.cache := cache_of_not_enabled he
    refine iff_of_true ⟨fun h => ?_, fun index way h => ?_⟩ fun h => ?_
    · exact absurd (he.symm.trans h) Bool.false_ne_true
    · rw [hcache] at h ⊢
      exact hc index way h
    · exact absurd (he.symm.trans h) Bool.false_ne_true
  | true =>
    unfold EdgeTransparent EdgeFills
    rw [icacheStep_enabled he]
    split_ifs with h0 h1
    · refine iff_of_true ⟨fun _ => select_of_hit hc hpc h0 _, hc⟩ fun _ hmiss => ?_
      simp [cacheMiss, h0] at hmiss
    · refine iff_of_true ⟨fun _ => select_of_hit hc hpc h1 _, hc⟩ fun _ hmiss => ?_
      simp [cacheMiss, h1] at hmiss
    · have hmiss : cacheMiss s i.pc = true := by simp [cacheMiss, h0, h1]
      have hk : wordOf i.pc < 4 := Nat.mod_lt _ (by decide)
      have hline : LineHolds read (pcIndex i.pc) ⟨true, pcTag i.pc, memoryData read i.pc⟩ ↔
          ∀ k < 4, read (i.pc + BitVec.ofNat 64 (4 * k)) =
            read (lineAddr (pcTag i.pc) (pcIndex i.pc) k) :=
        forall₂_congr fun k hk => by rw [extract_memoryData read i.pc hk]
      rw [coherent_fill_iff hc, hline, MissFills, select_of_aligned hpc,
        extract_memoryData read i.pc hk]
      constructor
      · rintro ⟨hout, hlines⟩ _ _
        exact ⟨hlines, hout he⟩
      · intro h
        exact ⟨fun _ => (h he hmiss).2, (h he hmiss).1⟩

end Steps

/-! ## Runs -/

section Runs

variable (read : BitVec 64 → BitVec 32)

/-- Every edge of a run is transparent. -/
def Transparent (s : Icache) : List Input → Prop
  | [] => True
  | i :: is => EdgeTransparent read i s ∧ Transparent (icacheStep read i s) is

/-- Every miss of a run reads the line of its pc. -/
def MissesFill (s : Icache) : List Input → Prop
  | [] => True
  | i :: is => EdgeFills read i s ∧ MissesFill (icacheStep read i s) is

/-- From coherent lines. -/
private lemma transparent_iff_of_coherent (is : List Input) (hpc : ∀ i ∈ is, Aligned i.pc) :
    ∀ s : Icache, Coherent read s → (Transparent read s is ↔ MissesFill read s is) := by
  induction is with
  | nil => exact fun s _ => Iff.rfl
  | cons i is ih =>
    intro s hc
    have hedge := edgeTransparent_iff hc (hpc i (by simp))
    have hrest := ih fun j hj => hpc j (by simp [hj])
    constructor
    · rintro ⟨hi, his⟩
      exact ⟨hedge.mp hi, (hrest _ hi.2).mp his⟩
    · rintro ⟨hi, his⟩
      have hi' := hedge.mpr hi
      exact ⟨hi', (hrest _ hi'.2).mpr his⟩

/-- **The runs on which the instruction cache is transparent**: those whose misses read the line
of the pc.

**Proof sketch.** Without valid lines the lines are coherent, and `edgeTransparent_iff` carries
that over each edge. -/
theorem transparent_iff {s : Icache} (hs : ∀ index way, (s.cache index way).valid = false)
    {is : List Input} (hpc : ∀ i ∈ is, Aligned i.pc) :
    Transparent read s is ↔ MissesFill read s is := by
  refine transparent_iff_of_coherent read is hpc s fun index way h => ?_
  rw [hs index way] at h
  exact absurd h Bool.false_ne_true

/-- The cache without valid lines. -/
def Icache.empty : Icache where
  cache := fun _ _ => ⟨false, 0#52, 0#128⟩
  icacheOInstr := 0#32

/-- An access of the pc, with a replacement in way 0 if it misses. -/
def access (pc : BitVec 64) : Input := ⟨false, false, false, pc, some 0⟩

/-- A miss at the start of a line and a hit in its middle. -/
theorem transparent_lineStart : Transparent
    (Memory.dpiInstrMemRead (Memory.image [0x13#32, 0x113#32, 0x213#32, 0x313#32])) Icache.empty
    [access 0x80000000#64, access 0x80000004#64] := by
  refine (transparent_iff _ (fun _ _ => rfl) ?_).mpr ⟨fun _ _ => ?_, fun _ hmiss => ?_, trivial⟩
  · intro i hi
    rcases List.mem_pair.mp hi with rfl | rfl <;> decide
  · exact missFills_of_lineStart (by decide)
  · exact absurd hmiss (by decide +kernel)

/-- A jump into the middle of a line that is not in the cache: the miss stores the words from the
target on as the line, and puts out the word behind the target. -/
theorem jump_into_line : ¬ ∀ (read : BitVec 64 → BitVec 32) (is : List Input),
    (∀ i ∈ is, Aligned i.pc) → Transparent read Icache.empty is := by
  intro h
  have hjump := h (Memory.dpiInstrMemRead
    (Memory.image [0x13#32, 0x13#32, 0x13#32, 0x13#32, 0x13#32, 0x113#32, 0x213#32, 0x313#32]))
    [access 0x80000000#64, access 0x80000014#64] (by
      intro i hi
      rcases List.mem_pair.mp hi with rfl | rfl <;> decide)
  have hout := hjump.2.1.1
  revert hout
  decide +kernel

end Runs

/-! ## The fetch stage -/

/-- The registers of `fetch.v`. -/
structure Fetch where
  icache : Icache
  fetchOPc : BitVec 64
  commit : Bool

/-- A clock edge of `fetch.v`; the cache has the same stall and bubble. -/
def fetchStep (read : BitVec 64 → BitVec 32) (i : Input) (f : Fetch) : Fetch where
  icache := icacheStep read i f.icache
  fetchOPc := if i.rst || i.bubble then 0#64 else if !i.stall then i.pc else f.fetchOPc
  commit := if i.rst || i.bubble then false else if !i.stall then true else f.commit

/-- What a fetch stage hands on: `fetch_o_pc`, `fetch_o_instr`, `fetch_o_pre_pc` and
`fetch_o_commit_info`. -/
structure FetchOut where
  pc : BitVec 64
  instr : BitVec 32
  prePc : BitVec 64
  commitInfo : BitVec 161
deriving DecidableEq

/-- The outputs of `fetch.v`. -/
def Fetch.out (f : Fetch) : FetchOut where
  pc := f.fetchOPc
  instr := f.icache.icacheOInstr
  prePc := f.fetchOPc + 4#64
  commitInfo :=
    BitVec.ofBool f.commit ++ f.icache.icacheOInstr ++ (f.fetchOPc + 4#64) ++ f.fetchOPc

/-- A fetch stage that reads the memory itself: its registers. -/
structure DirectFetch where
  pc : BitVec 64
  instr : BitVec 32
  commit : Bool

namespace DirectFetch

/-- A clock edge. -/
def step (read : BitVec 64 → BitVec 32) (i : Input) (d : DirectFetch) : DirectFetch :=
  if i.rst || i.bubble then ⟨0#64, 0#32, false⟩
  else if !i.stall then ⟨i.pc, read i.pc, true⟩
  else d

/-- What it hands on. -/
def out (d : DirectFetch) : FetchOut :=
  ⟨d.pc, d.instr, d.pc + 4#64, BitVec.ofBool d.commit ++ d.instr ++ (d.pc + 4#64) ++ d.pc⟩

end DirectFetch

/-- The registers of `fetch.v` apart from the lines. -/
def Fetch.direct (f : Fetch) : DirectFetch := ⟨f.fetchOPc, f.icache.icacheOInstr, f.commit⟩

/-- An edge at which the cache is transparent hands on what the memory has. -/
private lemma direct_fetchStep {read : BitVec 64 → BitVec 32} {i : Input} {f : Fetch}
    (h : EdgeTransparent read i f.icache) :
    (fetchStep read i f).direct = f.direct.step read i := by
  have hout := h.1
  unfold Fetch.direct fetchStep DirectFetch.step
  by_cases hr : (i.rst || i.bubble) = true
  · simp [icacheStep, hr]
  · cases hs : i.stall with
    | true => simp [icacheStep, hr, hs]
    | false =>
      have he : i.enabled = true := by
        rw [Input.enabled, hs]
        simpa using hr
      simp [hr, hout he]

/-- A run of `fetch.v` from coherent lines. -/
private lemma direct_foldl {read : BitVec 64 → BitVec 32} {is : List Input}
    (hpc : ∀ i ∈ is, Aligned i.pc) : ∀ f : Fetch, Coherent read f.icache →
      MissesFill read f.icache is → (is.foldl (fun f i => fetchStep read i f) f).direct =
        is.foldl (fun d i => d.step read i) f.direct := by
  induction is with
  | nil => exact fun _ _ _ => rfl
  | cons i is ih =>
    rintro f hc ⟨hi, his⟩
    have hedge := (edgeTransparent_iff hc (hpc i List.mem_cons_self)).mpr hi
    rw [List.foldl_cons, List.foldl_cons, ← direct_fetchStep hedge]
    exact ih (fun j hj => hpc j (List.mem_cons_of_mem i hj)) (fetchStep read i f) hedge.2 his

/-- **The fetch stage with the cache hands on what one without it hands on**, after every run whose
misses read the line of the pc.

**Proof sketch.** Without valid lines the lines are coherent.  Every edge is transparent, so that
the registers take the word of the memory, and leaves the lines coherent (`edgeTransparent_iff`). -/
theorem fetch_direct {read : BitVec 64 → BitVec 32} {f : Fetch}
    (hf : ∀ index way, (f.icache.cache index way).valid = false) {is : List Input}
    (hpc : ∀ i ∈ is, Aligned i.pc) (hfill : MissesFill read f.icache is) :
    (is.foldl (fun f i => fetchStep read i f) f).out =
      (is.foldl (fun d i => d.step read i) f.direct).out := by
  have hc : Coherent read f.icache := fun index way h =>
    absurd ((hf index way).symm.trans h) Bool.false_ne_true
  exact congrArg DirectFetch.out (direct_foldl hpc f hc hfill)

/-- A miss at the start of a line, a hit in its middle and a stall: the word in the middle is handed
on with its pc. -/
theorem fetch_direct_lineStart :
    let read := Memory.dpiInstrMemRead (Memory.image [0x13#32, 0x113#32, 0x213#32, 0x313#32])
    let stalled : Input := { access 0x80000008#64 with stall := true }
    let is := [access 0x80000000#64, access 0x80000004#64, stalled]
    let f : Fetch := ⟨Icache.empty, 0#64, false⟩
    (is.foldl (fun f i => fetchStep read i f) f).out =
      (⟨0x80000004#64, 0x113#32, true⟩ : DirectFetch).out := by
  intro read stalled is f
  have hfill : MissesFill read Icache.empty is := by
    refine ⟨fun _ _ => missFills_of_lineStart (by decide), fun _ hmiss => ?_,
      fun henabled => ?_, trivial⟩
    · exact absurd hmiss (by decide +kernel)
    · exact absurd henabled (by decide)
  have hpc : ∀ i ∈ is, Aligned i.pc := by
    simp only [is, List.forall_mem_cons]
    exact ⟨by decide, by decide, by decide, by simp⟩
  have hdirect : is.foldl (fun d i => d.step read i) f.direct =
      ⟨0x80000004#64, 0x113#32, true⟩ := by
    have hread : read 0x80000004#64 = 0x113#32 := by decide +kernel
    exact congrArg (DirectFetch.mk 0x80000004#64 · true) hread
  rw [fetch_direct (f := f) (fun _ _ => rfl) hpc hfill, hdirect]

end Riscv64Cpu.CacheCpu
