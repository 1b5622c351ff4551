import Riscv64Cpu.Collections.BitPattern
import Riscv64Cpu.Pipeline.Decode
import Mathlib.Data.List.Find
import Mathlib.Tactic.SplitIfs
import Mathlib.Tactic.Tauto

set_option relaxedAutoImplicit false
set_option autoImplicit false

/-!
# The trace of special instructions

`instr_special_trace` of `instr_trace.c` picks out the privileged, CSR and atomic instructions
with a list of bit patterns.  `decode.v` decodes the same instructions with compares of its own.

## Main definitions

* `Simulator.parsePattern` — key and mask of a pattern string.
* `Simulator.instPats`, `instrSpecialTrace` — the patterns, and the first one that matches.
* `Simulator.Info` — the info vectors of `decode.v` for these instructions.
* `Simulator.Agree` — the two decoders agree on a word.

## Main results

* `Simulator.parsePattern_eq` — what the parser computes.
* `Simulator.parsePattern_meets` — the words that pass the test of a pattern.
* `Simulator.instPatMatches_eq` — what each pattern asks of the fields of a word.
* `Simulator.agree_iff` — the words on which the two decoders agree.
-/

namespace Riscv64Cpu.Simulator

open Pipeline

/-! ## Patterns -/

/-- One round of the loop of `parse_pattern`. -/
def parseStep (km : BitVec 32 × BitVec 32) (c : Char) : BitVec 32 × BitVec 32 :=
  if c = ' ' ∨ c = '_' then km
  else if c = '1' then (km.1 <<< 1 ||| 1#32, km.2 <<< 1 ||| 1#32)
  else if c = '0' then (km.1 <<< 1, km.2 <<< 1 ||| 1#32)
  else (km.1 <<< 1, km.2 <<< 1)

/-- `parse_pattern`: the key and the mask. -/
def parsePattern (p : String) : BitVec 32 × BitVec 32 := p.toList.foldl parseStep (0#32, 0#32)

/-- The labels of `INSTPAT`. -/
inductive Label
  | ecall | ebreak | uret | sret | mret | wfi | sfenceVma | csrrw | csrrs | csrrc | csrrwi
  | csrrsi | csrrci | fence | fenceI | lrW | scW | amoswapW | amoaddW | amoxorW | amoandW
  | amoorW | amominW | amomaxW | amominuW | amomaxuW | lrD | scD | amoswapD | amoaddD | amoxorD
  | amoandD | amoorD | amominD | amomaxD | amominuD | amomaxuD
deriving DecidableEq

/-- The patterns of `instr_special_trace`, in order. -/
def instPats : List (String × Label) :=
  [("0000000 00000 00000 000 00000 11100 11", .ecall),
    ("0000000 00001 00000 000 00000 11100 11", .ebreak),
    ("0000000 00010 00000 000 00000 11100 11", .uret),
    ("0001000 00010 00000 000 00000 11100 11", .sret),
    ("0011000 00010 00000 000 00000 11100 11", .mret),
    ("0001000 00101 00000 000 00000 11100 11", .wfi),
    ("0001001 ????? ????? 000 00000 11100 11", .sfenceVma),
    ("??????? ????? ????? 001 ????? 11100 11", .csrrw),
    ("??????? ????? ????? 010 ????? 11100 11", .csrrs),
    ("??????? ????? ????? 011 ????? 11100 11", .csrrc),
    ("??????? ????? ????? 101 ????? 11100 11", .csrrwi),
    ("??????? ????? ????? 110 ????? 11100 11", .csrrsi),
    ("??????? ????? ????? 111 ????? 11100 11", .csrrci),
    ("??????? ????? ????? 000 ????? 00011 11", .fence),
    ("??????? ????? ????? 001 ????? 00011 11", .fenceI),
    ("00010?? ????? ????? 010 ????? 01011 11", .lrW),
    ("00011?? ????? ????? 010 ????? 01011 11", .scW),
    ("00001?? ????? ????? 010 ????? 01011 11", .amoswapW),
    ("00000?? ????? ????? 010 ????? 01011 11", .amoaddW),
    ("00100?? ????? ????? 010 ????? 01011 11", .amoxorW),
    ("01100?? ????? ????? 010 ????? 01011 11", .amoandW),
    ("01000?? ????? ????? 010 ????? 01011 11", .amoorW),
    ("10000?? ????? ????? 010 ????? 01011 11", .amominW),
    ("10100?? ????? ????? 010 ????? 01011 11", .amomaxW),
    ("11000?? ????? ????? 010 ????? 01011 11", .amominuW),
    ("11100?? ????? ????? 010 ????? 01011 11", .amomaxuW),
    ("00010?? ????? ????? 011 ????? 01011 11", .lrD),
    ("00011?? ????? ????? 011 ????? 01011 11", .scD),
    ("00001?? ????? ????? 011 ????? 01011 11", .amoswapD),
    ("00000?? ????? ????? 011 ????? 01011 11", .amoaddD),
    ("00100?? ????? ????? 011 ????? 01011 11", .amoxorD),
    ("01100?? ????? ????? 011 ????? 01011 11", .amoandD),
    ("01000?? ????? ????? 011 ????? 01011 11", .amoorD),
    ("10000?? ????? ????? 011 ????? 01011 11", .amominD),
    ("10100?? ????? ????? 011 ????? 01011 11", .amomaxD),
    ("11000?? ????? ????? 011 ????? 01011 11", .amominuD),
    ("11100?? ????? ????? 011 ????? 01011 11", .amomaxuD)]

/-- The test of `INSTPAT`. -/
def instPatMatches (instr : BitVec 32) (p : String) : Bool :=
  instr &&& (parsePattern p).2 == (parsePattern p).1

/-- `instr_special_trace`: the label of the first pattern that matches, with which it returns. -/
def instrSpecialTrace (instr : BitVec 32) : Option Label :=
  (instPats.find? fun e => instPatMatches instr e.1).map Prod.snd

/-! ## The parser -/

/-- The symbol that a character of a pattern stands for. -/
def symbol (c : Char) : Option Bool :=
  if c = '1' then some true else if c = '0' then some false else none

/-- The symbols of a pattern string. -/
def symbols (p : List Char) : BitPattern.Pattern :=
  (p.filter fun c => decide (¬ (c = ' ' ∨ c = '_'))).map symbol

/-- One round of the parser is one more symbol. -/
private lemma parseStep_eq (km : BitVec 32 × BitVec 32) (c : Char) : parseStep km c =
    if c = ' ' ∨ c = '_' then km else BitPattern.push km (symbol c) := by
  unfold parseStep symbol BitPattern.push
  split_ifs <;> simp

/-- **The parser computes key and mask of the symbols**, for every pattern string. -/
theorem parsePattern_eq (p : String) :
    parsePattern p = BitPattern.keyMask 32 (symbols p.toList) := by
  unfold parsePattern BitPattern.keyMask symbols
  generalize p.toList = cs
  induction cs using List.reverseRecOn with
  | nil => rfl
  | append_singleton cs c ih =>
    rw [List.foldl_append, List.foldl_cons, List.foldl_nil, ih, parseStep_eq, List.filter_append]
    split_ifs with hc
    · rw [List.filter_cons, if_neg fun h => (of_decide_eq_true h : ¬ _) hc]
      simp
    · rw [List.filter_cons, if_pos (decide_eq_true hc)]
      simp

/-- The characters of a pattern string that are not separators. -/
def nonSeparators (p : List Char) : List Char :=
  p.filter fun c => decide (¬ (c = ' ' ∨ c = '_'))

/-- A character of a pattern meets a bit. -/
def Meets (c : Char) (b : Bool) : Prop :=
  (c = '0' ∧ b = false) ∨ (c = '1' ∧ b = true) ∨ c = '?'

/-- The characters of a pattern but for blanks and underscores. -/
private lemma mem_nonSeparators {p : List Char} {c : Char} :
    c ∈ nonSeparators p ↔ c ∈ p ∧ ¬ (c = ' ' ∨ c = '_') := by
  rw [nonSeparators, List.mem_filter, decide_eq_true_eq]

/-- What a pattern character asks of a bit, by its symbol. -/
private lemma meets_iff {c : Char} (hc : c = '0' ∨ c = '1' ∨ c = '?') (b : Bool) :
    Meets c b ↔ ∀ b', symbol c = some b' → b = b' := by
  rcases hc with rfl | rfl | rfl <;> simp [Meets, symbol]

/-- The pattern of a string, character by character from the right. -/
private lemma matchesAt_symbols {p : List Char}
    (hp : ∀ c ∈ p, c = '0' ∨ c = '1' ∨ c = '?' ∨ c = ' ' ∨ c = '_') (w : BitVec 32) :
    BitPattern.MatchesAt (symbols p) 0 w ↔
      ∀ i c, (nonSeparators p).reverse[i]? = some c → Meets c (w.getLsbD i) := by
  have hsymbol : ∀ i c, (nonSeparators p).reverse[i]? = some c →
      (Meets c (w.getLsbD i) ↔ ∀ b, symbol c = some b → w.getLsbD i = b) := by
    intro i c hi
    have hmem := List.mem_reverse.mp (List.mem_of_getElem? hi)
    obtain ⟨hmem, hsep⟩ := mem_nonSeparators.mp hmem
    have hc := hp c hmem
    exact meets_iff (by tauto) _
  have hget : ∀ i : ℕ, (symbols p).reverse[i]? = ((nonSeparators p).reverse[i]?).map symbol := by
    intro i
    rw [symbols, ← List.map_reverse, List.getElem?_map]
    rfl
  simp only [BitPattern.MatchesAt, Nat.zero_add, hget, Option.map_eq_some_iff]
  constructor
  · intro h i c hi
    exact (hsymbol i c hi).mpr fun b hb => h i b ⟨c, hi, hb⟩
  · rintro h i b ⟨c, hi, hb⟩
    exact (hsymbol i c hi).mp (h i c hi) b hb

/-- **`parse_pattern` builds exactly the mask and the key of its pattern**: a word passes the test
when each character that is not a separator, counted from the right, meets its bit; and the key lies
in the mask.

**Proof sketch.** Key and mask are those of the pattern's symbols, for which the test is a
comparison bit by bit. -/
theorem parsePattern_meets {p : String}
    (hp : ∀ c ∈ p.toList, c = '0' ∨ c = '1' ∨ c = '?' ∨ c = ' ' ∨ c = '_')
    (hlen : (nonSeparators p.toList).length ≤ 32) (w : BitVec 32) :
    (w &&& (parsePattern p).2 = (parsePattern p).1 ↔
        ∀ i c, (nonSeparators p.toList).reverse[i]? = some c → Meets c (w.getLsbD i)) ∧
      (parsePattern p).1 &&& (parsePattern p).2 = (parsePattern p).1 := by
  have hsymbols : (symbols p.toList).length ≤ 32 := by
    rw [symbols, List.length_map]
    exact hlen
  rw [parsePattern_eq]
  exact ⟨(BitPattern.and_mask_eq_key_iff hsymbols w).trans (matchesAt_symbols hp w),
    BitPattern.key_and_mask _⟩

/-- The pattern `"1?_0 "` and the word 6. -/
theorem parsePattern_meets_six :
    let p := String.ofList ['1', '?', '_', '0', ' ']
    (6#32 &&& (parsePattern p).2 = (parsePattern p).1 ↔
        ∀ i c, (nonSeparators p.toList).reverse[i]? = some c → Meets c ((6#32).getLsbD i)) ∧
      (parsePattern p).1 &&& (parsePattern p).2 = (parsePattern p).1 := by
  intro p
  have hp : p.toList = ['1', '?', '_', '0', ' '] := String.toList_ofList
  exact parsePattern_meets (by rw [hp]; simp) (by rw [hp]; decide) 6#32

/-! ## The fields that a pattern asks for -/

/-- The kinds of patterns in the list. -/
inductive Shape
  | word (w : BitVec 32)
  | sfence
  | major (op : BitVec 7) (f3 : BitVec 3)
  | amo (f5 : BitVec 5) (f3 : BitVec 3)

/-- The pattern of each kind, by fields. -/
def Shape.pattern : Shape → BitPattern.Pattern
  | word w => BitPattern.field w
  | sfence => BitPattern.field 0b0001001#7 ++ (BitPattern.any 10 ++ (BitPattern.field 0b000#3 ++
    (BitPattern.field 0b00000#5 ++ BitPattern.field 0b1110011#7)))
  | major op f3 => BitPattern.any 17 ++ (BitPattern.field f3 ++
    (BitPattern.any 5 ++ BitPattern.field op))
  | amo f5 f3 => BitPattern.field f5 ++ (BitPattern.any 12 ++ (BitPattern.field f3 ++
    (BitPattern.any 5 ++ BitPattern.field 0b0101111#7)))

/-- What each kind asks of a word. -/
def Shape.holds (w : BitVec 32) : Shape → Bool
  | word w' => w == w'
  | sfence => func7 w == 0b0001001#7 && func3 w == 0b000#3 && rd w == 0#5 && instSystem w
  | major op f3 => opcode w == op && func3 w == f3
  | amo f5 f3 => instAmo w && func3 w == f3 && amoFunc5 w == f5

/-- The kind of the pattern of each label. -/
def Label.shape : Label → Shape
  | ecall => .word 0x00000073#32
  | ebreak => .word 0x00100073#32
  | uret => .word 0x00200073#32
  | sret => .word 0x10200073#32
  | mret => .word 0x30200073#32
  | wfi => .word 0x10500073#32
  | sfenceVma => .sfence
  | csrrw => .major 0b1110011#7 0b001#3
  | csrrs => .major 0b1110011#7 0b010#3
  | csrrc => .major 0b1110011#7 0b011#3
  | csrrwi => .major 0b1110011#7 0b101#3
  | csrrsi => .major 0b1110011#7 0b110#3
  | csrrci => .major 0b1110011#7 0b111#3
  | fence => .major 0b0001111#7 0b000#3
  | fenceI => .major 0b0001111#7 0b001#3
  | lrW => .amo 0b00010#5 0b010#3
  | scW => .amo 0b00011#5 0b010#3
  | amoswapW => .amo 0b00001#5 0b010#3
  | amoaddW => .amo 0b00000#5 0b010#3
  | amoxorW => .amo 0b00100#5 0b010#3
  | amoandW => .amo 0b01100#5 0b010#3
  | amoorW => .amo 0b01000#5 0b010#3
  | amominW => .amo 0b10000#5 0b010#3
  | amomaxW => .amo 0b10100#5 0b010#3
  | amominuW => .amo 0b11000#5 0b010#3
  | amomaxuW => .amo 0b11100#5 0b010#3
  | lrD => .amo 0b00010#5 0b011#3
  | scD => .amo 0b00011#5 0b011#3
  | amoswapD => .amo 0b00001#5 0b011#3
  | amoaddD => .amo 0b00000#5 0b011#3
  | amoxorD => .amo 0b00100#5 0b011#3
  | amoandD => .amo 0b01100#5 0b011#3
  | amoorD => .amo 0b01000#5 0b011#3
  | amominD => .amo 0b10000#5 0b011#3
  | amomaxD => .amo 0b10100#5 0b011#3
  | amominuD => .amo 0b11000#5 0b011#3
  | amomaxuD => .amo 0b11100#5 0b011#3

/-- Pattern and fields. -/
private lemma matchesAt_pattern (k : Shape) (w : BitVec 32) :
    BitPattern.MatchesAt k.pattern 0 w ↔ k.holds w = true := by
  cases k with
  | word w' =>
    rw [Shape.pattern, BitPattern.matchesAt_field, Shape.holds, beq_iff_eq]
    exact Eq.congr_left (BitVec.extractLsb'_eq_self)
  | sfence =>
    simp [Shape.pattern, Shape.holds, BitPattern.matchesAt_append, BitPattern.matchesAt_field,
      BitPattern.matchesAt_any, func7, func3, rd, instSystem, opcode, and_assoc]
  | major op f3 =>
    simp [Shape.pattern, Shape.holds, BitPattern.matchesAt_append, BitPattern.matchesAt_field,
      BitPattern.matchesAt_any, func3, opcode, and_comm]
  | amo f5 f3 =>
    simp [Shape.pattern, Shape.holds, BitPattern.matchesAt_append, BitPattern.matchesAt_field,
      BitPattern.matchesAt_any, func3, amoFunc5, instAmo, opcode, and_comm, and_left_comm]

/-- A shape is a pattern of 32 symbols. -/
private lemma length_pattern (k : Shape) : k.pattern.length = 32 := by
  cases k <;> simp [Shape.pattern]

/-- The symbols of a pattern string from those of its characters. -/
private lemma symbols_ofList {cs : List Char} {p : String} {k : BitPattern.Pattern}
    (hp : String.ofList cs = p) (hk : symbols cs = k) : symbols p.toList = k := by
  rw [← hp, String.toList_ofList, hk]

/-- The pattern strings are those of their labels' kinds. -/
lemma symbols_instPats : ∀ e ∈ instPats, symbols e.1.toList = e.2.shape.pattern := by
  simp only [instPats, List.forall_mem_cons]
  and_intros
  on_goal 38 => exact fun e he => absurd he List.not_mem_nil
  all_goals exact symbols_ofList rfl (by decide +kernel)

/-- **What each pattern asks for.** -/
theorem instPatMatches_eq (w : BitVec 32) {e : String × Label} (he : e ∈ instPats) :
    instPatMatches w e.1 = e.2.shape.holds w := by
  rw [Bool.eq_iff_iff, ← matchesAt_pattern, ← symbols_instPats e he, instPatMatches, beq_iff_eq,
    parsePattern_eq, BitPattern.and_mask_eq_key_iff]
  rw [symbols_instPats e he, length_pattern]

/-- The labels in the order of their patterns. -/
def labels : List Label := instPats.map Prod.snd

/-- The classifier, by fields. -/
lemma instrSpecialTrace_eq (w : BitVec 32) :
    instrSpecialTrace w = labels.find? fun l => l.shape.holds w := by
  have hcongr : instPats.find? (fun e => instPatMatches w e.1) =
      instPats.find? (fun e => e.2.shape.holds w) :=
    List.find?_congr fun e he => instPatMatches_eq w he
  rw [instrSpecialTrace, hcongr, labels, List.find?_map]
  rfl

/-! ## The decoder of the pipeline -/

/-- The info vectors of `decode.v` for privileged, CSR and atomic instructions. -/
@[ext] structure Info where
  system : BitVec 7
  csrrw : BitVec 6
  amo : BitVec 20
deriving DecidableEq

/-- All bits down. -/
def Info.zero : Info := ⟨0#7, 0#6, 0#20⟩

/-- The vectors that `decode.v` raises. -/
def decodeInfo (w : BitVec 32) : Info := ⟨decodeSystemInfo w, decodeCsrrwInfo w, decodeAmoInfo w⟩

/-- The vectors with exactly the bit that stands for the label, if some bit does. -/
def Label.info : Label → Option Info
  | ecall => some ⟨BitVec.twoPow 7 6, 0#6, 0#20⟩
  | ebreak => some ⟨BitVec.twoPow 7 5, 0#6, 0#20⟩
  | uret => some ⟨BitVec.twoPow 7 4, 0#6, 0#20⟩
  | sret => some ⟨BitVec.twoPow 7 3, 0#6, 0#20⟩
  | mret => some ⟨BitVec.twoPow 7 2, 0#6, 0#20⟩
  | wfi => some ⟨BitVec.twoPow 7 1, 0#6, 0#20⟩
  | sfenceVma => some ⟨BitVec.twoPow 7 0, 0#6, 0#20⟩
  | csrrw => some ⟨0#7, BitVec.twoPow 6 5, 0#20⟩
  | csrrs => some ⟨0#7, BitVec.twoPow 6 4, 0#20⟩
  | csrrc => some ⟨0#7, BitVec.twoPow 6 3, 0#20⟩
  | csrrwi => some ⟨0#7, BitVec.twoPow 6 2, 0#20⟩
  | csrrsi => some ⟨0#7, BitVec.twoPow 6 1, 0#20⟩
  | csrrci => some ⟨0#7, BitVec.twoPow 6 0, 0#20⟩
  | fence | fenceI | amoandW | amoandD => none
  | lrW => some ⟨0#7, 0#6, BitVec.twoPow 20 19⟩
  | scW => some ⟨0#7, 0#6, BitVec.twoPow 20 18⟩
  | amoswapW => some ⟨0#7, 0#6, BitVec.twoPow 20 17⟩
  | amoaddW => some ⟨0#7, 0#6, BitVec.twoPow 20 16⟩
  | amoxorW => some ⟨0#7, 0#6, BitVec.twoPow 20 15⟩
  | amoorW => some ⟨0#7, 0#6, BitVec.twoPow 20 14⟩
  | amominW => some ⟨0#7, 0#6, BitVec.twoPow 20 13⟩
  | amomaxW => some ⟨0#7, 0#6, BitVec.twoPow 20 12⟩
  | amominuW => some ⟨0#7, 0#6, BitVec.twoPow 20 11⟩
  | amomaxuW => some ⟨0#7, 0#6, BitVec.twoPow 20 10⟩
  | lrD => some ⟨0#7, 0#6, BitVec.twoPow 20 9⟩
  | scD => some ⟨0#7, 0#6, BitVec.twoPow 20 8⟩
  | amoswapD => some ⟨0#7, 0#6, BitVec.twoPow 20 7⟩
  | amoaddD => some ⟨0#7, 0#6, BitVec.twoPow 20 6⟩
  | amoxorD => some ⟨0#7, 0#6, BitVec.twoPow 20 5⟩
  | amoorD => some ⟨0#7, 0#6, BitVec.twoPow 20 4⟩
  | amominD => some ⟨0#7, 0#6, BitVec.twoPow 20 3⟩
  | amomaxD => some ⟨0#7, 0#6, BitVec.twoPow 20 2⟩
  | amominuD => some ⟨0#7, 0#6, BitVec.twoPow 20 1⟩
  | amomaxuD => some ⟨0#7, 0#6, BitVec.twoPow 20 0⟩

/-- What `decode.v` should raise for the answer of the classifier. -/
def expected : Option Label → Option Info
  | none | some .fence | some .fenceI => some Info.zero
  | some l => l.info

/-! ## Agreement -/

/-- The two decoders agree on a word: a label comes first in the patterns if and only if
`decode.v` raises exactly its bit, and no label does if and only if all bits are down. -/
structure Agree (w : BitVec 32) : Prop where
  label : ∀ l : Label, l ≠ .fence → l ≠ .fenceI →
    (instrSpecialTrace w = some l ↔ l.info = some (decodeInfo w))
  none : (∀ l : Label, l ≠ .fence → l ≠ .fenceI → instrSpecialTrace w ≠ some l) ↔
    decodeInfo w = Info.zero

/-- The label with a given bit. -/
def labelOf (x : Info) : Option Label := labels.find? fun l => l.info == some x

/-- The label with the vectors `x`. -/
lemma labelOf_info {l : Label} {x : Info} (h : l.info = some x) : labelOf x = some l := by
  cases l <;> cases h <;> rfl

/-- Different labels have different vectors. -/
private lemma info_injective {l l' : Label} {x : Info} (h : l.info = some x)
    (h' : l'.info = some x) : l = l' :=
  Option.some.inj ((labelOf_info h).symm.trans (labelOf_info h'))

/-- No label has vectors without a bit. -/
lemma info_ne_zero (l : Label) : l.info ≠ some Info.zero := by
  cases l <;> decide

/-- A label other than the fences is owed its own vectors. -/
private lemma expected_of_special {l : Label} (h : l ≠ .fence) (h' : l ≠ .fenceI) :
    expected (some l) = l.info := by
  cases l <;> first | rfl | exact absurd rfl h | exact absurd rfl h'

/-- Agreement, as one equation. -/
lemma agree_iff_expected (w : BitVec 32) :
    Agree w ↔ expected (instrSpecialTrace w) = some (decodeInfo w) := by
  have hcases : (∃ l : Label, l ≠ .fence ∧ l ≠ .fenceI ∧ instrSpecialTrace w = some l ∧
        expected (instrSpecialTrace w) = l.info) ∨
      ((∀ l : Label, l ≠ .fence → l ≠ .fenceI → instrSpecialTrace w ≠ some l) ∧
        expected (instrSpecialTrace w) = some Info.zero) := by
    cases ht : instrSpecialTrace w with
    | none => exact .inr ⟨(fun l _ _ h => by cases h), rfl⟩
    | some l =>
      by_cases hl : l = .fence
      · subst hl
        exact .inr ⟨fun l hl _ h => hl (Option.some.inj h).symm, rfl⟩
      · by_cases hl' : l = .fenceI
        · subst hl'
          exact .inr ⟨fun l _ hl' h => hl' (Option.some.inj h).symm, rfl⟩
        · exact .inl ⟨l, hl, hl', rfl, expected_of_special hl hl'⟩
  rcases hcases with ⟨l, hl, hl', ht, he⟩ | ⟨hno, he⟩
  · rw [he]
    constructor
    · exact fun h => (h.label l hl hl').mp ht
    · intro hinfo
      constructor
      · intro m _ _
        rw [ht]
        constructor
        · intro h
          rw [← Option.some.inj h, hinfo]
        · intro h
          rw [info_injective h hinfo]
      · refine iff_of_false (fun h => h l hl hl' ht) fun h => ?_
        rw [h] at hinfo
        exact info_ne_zero l hinfo
  · rw [he]
    constructor
    · exact fun h => congrArg some (h.none.mp hno).symm
    · intro hinfo
      have hzero := (Option.some.inj hinfo).symm
      refine ⟨fun l hl hl' => iff_of_false (hno l hl hl') fun h => ?_, fun _ => hzero, fun _ => hno⟩
      rw [hzero] at h
      exact info_ne_zero l h

/-- The major opcode of a pattern. -/
def Shape.opcode : Shape → BitVec 7
  | word w => Pipeline.opcode w
  | sfence => 0b1110011#7
  | major op _ => op
  | amo _ _ => 0b0101111#7

/-- A word of a shape has its opcode. -/
lemma Shape.opcode_of_holds {w : BitVec 32} {k : Shape} (h : k.holds w = true) :
    Pipeline.opcode w = k.opcode := by
  cases k with
  | word w' => rw [eq_of_beq h, Shape.opcode]
  | sfence =>
    simp only [Shape.holds, Bool.and_eq_true] at h
    exact eq_of_beq h.2
  | major op f3 =>
    simp only [Shape.holds, Bool.and_eq_true] at h
    exact eq_of_beq h.1
  | amo f5 f3 =>
    simp only [Shape.holds, Bool.and_eq_true] at h
    exact eq_of_beq h.1.1

/-- The labels other than those of fences are of class `SYSTEM` or `AMO`. -/
private lemma shape_opcode (l : Label) : l = .fence ∨ l = .fenceI ∨
    l.shape.opcode = 0b1110011#7 ∨ l.shape.opcode = 0b0101111#7 := by
  cases l <;> decide

/-! ## Words that the decoders cannot tell apart -/

section Classes

variable {w w' : BitVec 32}

/-- The words that `decode.v` compares all bits of. -/
def decodedWords : List (BitVec 32) :=
  [0x00000073#32, 0x00100073#32, 0x00200073#32, 0x10200073#32, 0x30200073#32, 0x10500073#32]

/-- All tests of both decoders give the same answer on the two words. -/
structure SameTests (w w' : BitVec 32) : Prop where
  opcode : opcode w = opcode w'
  func3 : func3 w = func3 w'
  word : ∀ k ∈ decodedWords, (w == k) = (w' == k)
  sfence : Shape.sfence.holds w = Shape.sfence.holds w'
  sfenceVma : instSfenceVma w = instSfenceVma w'
  func5 : instAmo w = true → amoFunc5 w = amoFunc5 w'

namespace SameTests

/-- Both words are atomic or neither is. -/
lemma amo (h : SameTests w w') : instAmo w = instAmo w' := by
  rw [instAmo, instAmo, h.opcode]

/-- Both words are system instructions or neither is. -/
lemma system (h : SameTests w w') : instSystem w = instSystem w' := by
  rw [instSystem, instSystem, h.opcode]

/-- A test for an atomic instruction has the same outcome on both words. -/
lemma amoTest (h : SameTests w w') (f3 : BitVec 3) (f5 : BitVec 5) :
    (instAmo w && Pipeline.func3 w == f3 && amoFunc5 w == f5) =
      (instAmo w' && Pipeline.func3 w' == f3 && amoFunc5 w' == f5) := by
  cases ha : instAmo w with
  | false => rw [← h.amo, ha, Bool.false_and, Bool.false_and, Bool.false_and, Bool.false_and]
  | true => rw [← h.amo, ha, h.func3, h.func5 ha]

/-- The pipeline raises the same bits. -/
lemma decodeInfo (h : SameTests w w') : decodeInfo w = Simulator.decodeInfo w' := by
  have hword : ∀ k ∈ decodedWords, (w == k) = (w' == k) := h.word
  simp only [decodedWords, List.forall_mem_cons] at hword
  obtain ⟨h1, h2, h3, h4, h5, h6, -⟩ := hword
  have hamo : decodeAmoInfo w = decodeAmoInfo w' := by
    simp only [decodeAmoInfo, instLrw, instScw, instAmoswapw, instAmoaddw, instAmoxorw, instAmoorw,
      instAmominw, instAmomaxw, instAmominuw, instAmomaxuw, instLrd, instScd, instAmoswapd,
      instAmoaddd, instAmoxord, instAmoord, instAmomind, instAmomaxd, instAmominud, instAmomaxud,
      amoW, amoD, h.amoTest]
  have hcsr : decodeCsrrwInfo w = decodeCsrrwInfo w' := by
    simp only [decodeCsrrwInfo, instCsrrw, instCsrrs, instCsrrc, instCsrrwi, instCsrrsi, instCsrrci,
      h.system, h.func3]
  have hsys : decodeSystemInfo w = decodeSystemInfo w' := by
    simp only [decodeSystemInfo, instEcall, instEbreak, instUret, instSret, instMret, instWfi,
      h1, h2, h3, h4, h5, h6, h.sfenceVma]
  rw [Simulator.decodeInfo, Simulator.decodeInfo, hamo, hcsr, hsys]

/-- The classifier gives the same answer. -/
lemma instrSpecialTrace (h : SameTests w w') :
    instrSpecialTrace w = Simulator.instrSpecialTrace w' := by
  rw [instrSpecialTrace_eq, instrSpecialTrace_eq]
  refine List.find?_congr fun l _ => ?_
  have hword : ∀ k ∈ decodedWords, (Shape.word k).holds w = (Shape.word k).holds w' := h.word
  have hmajor : ∀ op f3, (Shape.major op f3).holds w = (Shape.major op f3).holds w' := by
    intro op f3
    rw [Shape.holds, Shape.holds, h.opcode, h.func3]
  have hamo : ∀ f5 f3, (Shape.amo f5 f3).holds w = (Shape.amo f5 f3).holds w' :=
    fun f5 f3 => h.amoTest f3 f5
  cases l <;>
    first
    | exact hmajor _ _
    | exact hamo _ _
    | exact h.sfence
    | exact hword _ (by decide)

/-- Agreement is the same. -/
lemma agree (h : SameTests w w') : Agree w ↔ Agree w' := by
  rw [agree_iff_expected, agree_iff_expected, h.instrSpecialTrace, h.decodeInfo]

end SameTests

/-! ## Class by class -/

/-- The two decoders agree on all words but these: the compare for `sfence.vma` leaves out
`instr[26:25]` and `instr[11:7]`, so that `sret` and `wfi` pass it as well, and `amo_info` has no
place for `amoand.w` and `amoand.d`. -/
def Agreeing (w : BitVec 32) : Prop :=
  (instSfenceVma w = true → w.extractLsb' 25 2 = 0b01#2 ∧ rd w = 0#5) ∧
  ¬ (instAmo w = true ∧ (func3 w = 0b010#3 ∨ func3 w = 0b011#3) ∧ amoFunc5 w = 0b01100#5)

instance (w : BitVec 32) : Decidable (Agreeing w) := inferInstanceAs (Decidable (_ ∧ _))

/-- The answers, by fields. -/
lemma agree_iff_find (w : BitVec 32) : Agree w ↔
    expected (labels.find? fun l => l.shape.holds w) = some (decodeInfo w) := by
  rw [agree_iff_expected, instrSpecialTrace_eq]

/-- The pattern of `sfence.vma` asks for more than the compare of `decode.v`. -/
private lemma sfence_holds_iff (w : BitVec 32) : Shape.sfence.holds w = true ↔
    instSfenceVma w = true ∧ w.extractLsb' 25 2 = 0b01#2 ∧ rd w = 0#5 := by
  have hjoin : amoFunc5 w ++ w.extractLsb' 25 2 = func7 w :=
    BitVec.extractLsb'_append_extractLsb'_eq_extractLsb' rfl
  have hsplit : ∀ (a : BitVec 5) (b : BitVec 2),
      a ++ b = 0b0001001#7 ↔ a = 0b00010#5 ∧ b = 0b01#2 := by decide +kernel
  have h7 : func7 w = 0b0001001#7 ↔ amoFunc5 w = 0b00010#5 ∧ w.extractLsb' 25 2 = 0b01#2 := by
    rw [← hjoin]
    exact hsplit _ _
  simp only [Shape.holds, instSfenceVma, Bool.and_eq_true, beq_iff_eq, h7]
  tauto

/-- The word compares are for words of class `SYSTEM` with `func3` zero. -/
lemma word_eq_false (h : instSystem w = false ∨ func3 w ≠ 0b000#3) :
    ∀ k ∈ decodedWords, (w == k) = false := by
  intro k hk
  have hall : decodedWords.all (fun k => instSystem k && func3 k == 0b000#3) = true := by decide
  have hsys : instSystem k = true ∧ func3 k = 0b000#3 := by
    simpa only [Bool.and_eq_true, beq_iff_eq] using List.all_eq_true.mp hall k hk
  rw [beq_eq_false_iff_ne]
  rintro rfl
  rcases h with h | h
  · exact Bool.false_ne_true (h.symm.trans hsys.1)
  · exact h hsys.2

/-- A word of another class than `SYSTEM` passes no compare of that class. -/
lemma not_system_tests (h : instSystem w = false) :
    (∀ k ∈ decodedWords, (w == k) = false) ∧ Shape.sfence.holds w = false ∧
      instSfenceVma w = false := by
  refine ⟨word_eq_false (.inl h), ?_, ?_⟩
  · rw [Shape.holds, h, Bool.and_false]
  · rw [instSfenceVma, h, Bool.false_and, Bool.false_and]

/-- A word of class `AMO` with the given fields. -/
def amoWord (f3 : BitVec 3) (f5 : BitVec 5) : BitVec 32 :=
  f5 ++ 0#12 ++ f3 ++ 0#5 ++ 0b0101111#7

/-- The words of class `AMO`. -/
private lemma agree_of_amo (ha : instAmo w = true) : Agree w ↔ Agreeing w := by
  have hop : opcode w = 0b0101111#7 := eq_of_beq ha
  have hs : instSystem w = false := by
    rw [instSystem, hop]
    decide
  have hfields : ∀ (f3 : BitVec 3) (f5 : BitVec 5), opcode (amoWord f3 f5) = 0b0101111#7 ∧
      func3 (amoWord f3 f5) = f3 ∧ amoFunc5 (amoWord f3 f5) = f5 := by
    decide +kernel
  obtain ⟨hop', h3', h5'⟩ := hfields (func3 w) (amoFunc5 w)
  have hs' : instSystem (amoWord (func3 w) (amoFunc5 w)) = false := by
    rw [instSystem, hop']
    decide
  obtain ⟨hword, hsf, hsv⟩ := not_system_tests hs
  obtain ⟨hword', hsf', hsv'⟩ := not_system_tests hs'
  have hsame : SameTests w (amoWord (func3 w) (amoFunc5 w)) :=
    ⟨hop.trans hop'.symm, h3'.symm, fun k hk => (hword k hk).trans (hword' k hk).symm,
      hsf.trans hsf'.symm, hsv.trans hsv'.symm, fun _ => h5'.symm⟩
  have hreps : ∀ (f3 : BitVec 3) (f5 : BitVec 5),
      expected (labels.find? fun l => l.shape.holds (amoWord f3 f5)) =
        some (decodeInfo (amoWord f3 f5)) ↔ ¬ ((f3 = 0b010#3 ∨ f3 = 0b011#3) ∧ f5 = 0b01100#5) := by
    decide +kernel
  rw [hsame.agree, agree_iff_find, hreps]
  simp [Agreeing, ha, hsv]

/-- A word of class `SYSTEM` with the given `func3`. -/
def systemWord (f3 : BitVec 3) : BitVec 32 := 0#17 ++ f3 ++ 0#5 ++ 0b1110011#7

/-- The words of class `SYSTEM` with another `func3` than zero. -/
private lemma agree_of_csr (hs : instSystem w = true) (h3 : func3 w ≠ 0b000#3) : Agree w := by
  have hop : opcode w = 0b1110011#7 := eq_of_beq hs
  have ha : instAmo w = false := by
    rw [instAmo, hop]
    decide
  have hnone : ∀ {v : BitVec 32}, func3 v ≠ 0b000#3 →
      Shape.sfence.holds v = false ∧ instSfenceVma v = false := by
    intro v hv
    have hne : (func3 v == 0b000#3) = false := beq_eq_false_iff_ne.mpr hv
    rw [Shape.holds, instSfenceVma, hne, Bool.and_false, Bool.and_false, Bool.false_and,
      Bool.false_and]
    exact ⟨rfl, rfl⟩
  have hfields : ∀ f3 : BitVec 3, opcode (systemWord f3) = 0b1110011#7 ∧
      func3 (systemWord f3) = f3 := by
    decide
  obtain ⟨hop', h3'⟩ := hfields (func3 w)
  have h30 : func3 (systemWord (func3 w)) ≠ 0b000#3 := by rwa [h3']
  have hword := word_eq_false (.inr h3)
  have hword' := word_eq_false (.inr h30)
  have hsame : SameTests w (systemWord (func3 w)) :=
    ⟨hop.trans hop'.symm, h3'.symm, fun k hk => (hword k hk).trans (hword' k hk).symm,
      (hnone h3).1.trans (hnone h30).1.symm, (hnone h3).2.trans (hnone h30).2.symm,
      fun h => absurd (ha.symm.trans h) Bool.false_ne_true⟩
  have hreps : ∀ f3 : BitVec 3, f3 ≠ 0b000#3 →
      expected (labels.find? fun l => l.shape.holds (systemWord f3)) =
        some (decodeInfo (systemWord f3)) := by
    decide +kernel
  rw [hsame.agree, agree_iff_find]
  exact hreps _ h3

/-- A word of class `SYSTEM` with `func3` zero that `decode.v` does not compare as a whole. -/
structure PrivWord (w : BitVec 32) : Prop where
  opcode : opcode w = 0b1110011#7
  func3 : func3 w = 0b000#3
  notMem : w ∉ decodedWords

instance (w : BitVec 32) : Decidable (PrivWord w) :=
  decidable_of_iff (opcode w = 0b1110011#7 ∧ func3 w = 0b000#3 ∧ w ∉ decodedWords)
    ⟨fun h => ⟨h.1, h.2.1, h.2.2⟩, fun h => ⟨h.opcode, h.func3, h.notMem⟩⟩

/-- No comparison with a decoded word holds. -/
lemma PrivWord.word_eq_false {w : BitVec 32} (h : PrivWord w) :
    ∀ k ∈ decodedWords, (w == k) = false := by
  intro k hk
  rw [beq_eq_false_iff_ne]
  rintro rfl
  exact h.notMem hk

/-- Such words differ by the two tests for `sfence.vma` only. -/
lemma PrivWord.sameTests {w w' : BitVec 32} (h : PrivWord w) (h' : PrivWord w')
    (hsf : Shape.sfence.holds w = Shape.sfence.holds w')
    (hsv : instSfenceVma w = instSfenceVma w') : SameTests w w' where
  opcode := h.opcode.trans h'.opcode.symm
  func3 := h.func3.trans h'.func3.symm
  word k hk := (h.word_eq_false k hk).trans (h'.word_eq_false k hk).symm
  sfence := hsf
  sfenceVma := hsv
  func5 ha := by
    rw [instAmo, h.opcode] at ha
    exact absurd ha (by decide)

/-- The words of class `SYSTEM` with `func3` zero.

**Proof sketch.** The six words are looked at one by one.  All other words look to both decoders
like one of three: one that passes both tests for `sfence.vma`, one that passes only the compare
of `decode.v`, and one that passes neither. -/
private lemma agree_of_priv (hs : instSystem w = true) (h3 : func3 w = 0b000#3) :
    Agree w ↔ (instSfenceVma w = true → w.extractLsb' 25 2 = 0b01#2 ∧ rd w = 0#5) := by
  by_cases hk : w ∈ decodedWords
  · have hall : decodedWords.all (fun k => decide
        (expected (labels.find? fun l => l.shape.holds k) = some (decodeInfo k) ↔
          (instSfenceVma k = true → k.extractLsb' 25 2 = 0b01#2 ∧ rd k = 0#5))) = true := by
      decide +kernel
    rw [agree_iff_find]
    exact of_decide_eq_true (List.all_eq_true.mp hall w hk)
  have hpriv : PrivWord w := ⟨eq_of_beq hs, h3, hk⟩
  have hiff := sfence_holds_iff w
  cases hv : instSfenceVma w with
  | false =>
    have hc : Shape.sfence.holds w = false := by
      rw [Bool.eq_false_iff]
      intro hc
      rw [(hiff.mp hc).1] at hv
      exact Bool.false_ne_true hv.symm
    have hsame : SameTests w 0x20000073#32 := hpriv.sameTests (by decide)
      (hc.trans (by decide)) (hv.trans (by decide))
    rw [hsame.agree, agree_iff_find]
    refine iff_of_true (by decide +kernel) fun h => absurd h Bool.false_ne_true
  | true =>
    cases hc : Shape.sfence.holds w with
    | true =>
      have hsame : SameTests w 0x12000073#32 := hpriv.sameTests (by decide)
        (hc.trans (by decide)) (hv.trans (by decide))
      rw [hsame.agree, agree_iff_find]
      exact iff_of_true (by decide +kernel) fun _ => (hiff.mp hc).2
    | false =>
      have hsame : SameTests w 0x10000073#32 := hpriv.sameTests (by decide)
        (hc.trans (by decide)) (hv.trans (by decide))
      rw [hsame.agree, agree_iff_find]
      refine iff_of_false (by decide +kernel) fun h => ?_
      rw [hiff.mpr ⟨hv, h rfl⟩] at hc
      exact Bool.false_ne_true hc.symm

/-- Nothing is raised for the words of other classes, and they have no label but that of a
fence. -/
private lemma agree_of_other (hs : instSystem w = false) (ha : instAmo w = false) : Agree w := by
  obtain ⟨hword, -, hsv⟩ := not_system_tests hs
  have hzero : decodeInfo w = Info.zero := by
    simp only [decodedWords, List.forall_mem_cons] at hword
    obtain ⟨h1, h2, h3, h4, h5, h6, -⟩ := hword
    simp only [decodeInfo, decodeSystemInfo, decodeCsrrwInfo, decodeAmoInfo, instEcall, instEbreak,
      instUret, instSret, instMret, instWfi, h1, h2, h3, h4, h5, h6, hsv, instCsrrw, instCsrrs,
      instCsrrc, instCsrrwi, instCsrrsi, instCsrrci, instLrw, instScw, instAmoswapw, instAmoaddw,
      instAmoxorw, instAmoorw, instAmominw, instAmomaxw, instAmominuw, instAmomaxuw, instLrd,
      instScd, instAmoswapd, instAmoaddd, instAmoxord, instAmoord, instAmomind, instAmomaxd,
      instAmominud, instAmomaxud, amoW, amoD, hs, ha, Bool.false_and]
    decide
  rw [agree_iff_find, hzero]
  cases hl : labels.find? (fun l => l.shape.holds w) with
  | none => rfl
  | some l =>
    have hop := Shape.opcode_of_holds (List.find?_some (p := fun l : Label => l.shape.holds w) hl)
    rcases shape_opcode l with rfl | rfl | hl' | hl'
    · rfl
    · rfl
    · exact absurd (hop.trans hl') (ne_of_beq_false hs)
    · exact absurd (hop.trans hl') (ne_of_beq_false ha)

end Classes

/-- **The words on which the two decoders agree.** -/
theorem agree_iff (w : BitVec 32) : Agree w ↔ Agreeing w := by
  cases ha : instAmo w with
  | true => exact agree_of_amo ha
  | false =>
    have hno : ¬ (instAmo w = true ∧ (func3 w = 0b010#3 ∨ func3 w = 0b011#3) ∧
        amoFunc5 w = 0b01100#5) := by
      rw [ha]
      exact fun h => Bool.false_ne_true h.1
    cases hs : instSystem w with
    | false =>
      refine iff_of_true (agree_of_other hs ha) ⟨fun h => ?_, hno⟩
      rw [(not_system_tests hs).2.2] at h
      exact absurd h Bool.false_ne_true
    | true =>
      by_cases h3 : func3 w = 0b000#3
      · rw [agree_of_priv hs h3, Agreeing]
        exact (and_iff_left hno).symm
      · refine iff_of_true (agree_of_csr hs h3) ⟨fun h => ?_, hno⟩
        simp only [instSfenceVma, Bool.and_eq_true, beq_iff_eq] at h
        exact absurd h.2 h3

/-- For `sret` the classifier answers `sret`, and `decode.v` raises the bit of `sfence.vma` next
to its own. -/
theorem sret_raises_sfence_vma : ¬ ∀ w, Agree w := by
  intro h
  have hsret := (agree_iff_find 0x10200073#32).mp (h _)
  revert hsret
  decide +kernel

end Riscv64Cpu.Simulator
