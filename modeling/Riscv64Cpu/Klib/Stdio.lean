import Riscv64Cpu.Klib.Decimal

set_option relaxedAutoImplicit false
set_option autoImplicit false

/-!
# Formatted output

`vsprintf`, `sprintf` and `printf` of `klib/src/stdio.c`.

## Main definitions

* `Klib.vsprintf`, `sprintf`, `printf` — the functions.
* `Klib.Piece` — an ordinary character of a format, or a directive with its argument: how it is
  spelled in the format and what it prints.
* `Klib.FormatAt`, `Klib.Matches` — a format made of pieces, and the arguments that go with it.
* `Klib.Prints` — what `vsprintf` owes.

## Main results

* `Klib.vsprintfLoop_piece`, `vsprintfLoop_cases` — one round of the loop prints one piece, and
  does nothing else.
* `Klib.vsprintfLoop_pieces` — the rounds of a whole format.
* `Klib.vsprintf_prints` — `vsprintf` prints exactly the format.

## Design

The format and the strings lie in one memory, the output buffer and the local buffers are objects
of their own.  A `va_list` walks over the 64-bit slots in which the arguments are passed: an `int`
and an `unsigned int` are the low half of a slot, whatever the high half is.  The state records
the addresses at which the format is read.
-/

namespace Riscv64Cpu.Klib

/-! ## The functions -/

/-- `BUF_SIZE`. -/
def bufSize : ℕ := 1024

/-- A buffer that was cleared by its initialiser. -/
def Buffer.zero : Buffer where
  bytes := fun _ => 0#8
  written := []

/-- The locals of `vsprintf`; `ap` counts the slots that were taken, and `reads` lists the
addresses at which the format was read. -/
structure State where
  fmt : ℕ
  outIndex : BitVec 32
  out : Buffer
  ap : ℕ
  reads : List ℕ

namespace State

/-- A read of `*fmt`. -/
def look (st : State) : State := { st with reads := st.fmt :: st.reads }

/-- `fmt++`. -/
def next (st : State) : State := { st with fmt := st.fmt + 1 }

/-- `va_arg`, beside the value. -/
def take (st : State) : State := { st with ap := st.ap + 1 }

/-- `out[out_index++] = c`. -/
def put (st : State) (c : BitVec 8) : State :=
  { st with out := st.out.put (elem 0 st.outIndex) c, outIndex := st.outIndex + 1#32 }

/-- `strcpy(out + out_index, src); out_index += strlen(src)`. -/
def append (fuel : ℕ) (st : State) (src : CharPtr) : Option State :=
  (strcpy fuel st.out (elem 0 st.outIndex) src).bind fun out =>
    (strlen fuel src).map fun len =>
      { st with out := out, outIndex := st.outIndex + BitVec.ofNat 32 len }

end State

section Functions

variable (mem : Mem) (args : ℕ → BitVec 64)

/-- `switch(*fmt)`, behind a percent sign. -/
def directive (fuel : ℕ) (st : State) : Option State :=
  let c := mem st.fmt
  if c = ch 'd' then
    let num := (args st.ap).setWidth 32
    st.take.append fuel (some ((intToStr Buffer.zero num).bytes, 0))
  else if c = ch 's' then
    st.take.append fuel (charPtr mem (args st.ap).toNat)
  else if c = ch 'u' then
    let num := args st.ap
    st.take.append fuel (some ((uintToStr Buffer.zero (num.setWidth 32)).bytes, 0))
  else some (st.put c)

/-- `while(*fmt != '\0')`. -/
def vsprintfLoop : ℕ → State → Option State
  | 0, _ => none
  | fuel + 1, st =>
    if mem st.fmt = 0#8 then some st.look
    else if mem st.fmt = ch '%' then
      (directive mem args fuel st.look.next.look).bind fun st => vsprintfLoop fuel st.next
    else vsprintfLoop fuel (st.look.put (mem st.fmt)).next

/-- What a call of `vsprintf` leaves behind. -/
structure VsprintfResult where
  ret : BitVec 32
  out : Buffer
  reads : List ℕ

/-- The locals at the beginning of `vsprintf`. -/
def State.init (out : Mem) (fmt : ℕ) : State where
  fmt := fmt
  outIndex := 0#32
  out := { bytes := out, written := [] }
  ap := 0
  reads := []

/-- `out[out_index] = '\0'; return out_index`. -/
def State.finish (st : State) : VsprintfResult where
  ret := st.outIndex
  out := st.out.put (elem 0 st.outIndex) 0#8
  reads := st.reads

/-- `vsprintf`. -/
def vsprintf (out : Mem) (fmt fuel : ℕ) : Option VsprintfResult :=
  (vsprintfLoop mem args fuel (State.init out fmt)).map State.finish

/-- `sprintf`. -/
def sprintf (out : Mem) (fmt fuel : ℕ) : Option VsprintfResult := vsprintf mem args out fmt fuel

/-- What a call of `printf` leaves behind: the buffer and the characters sent to `putch`. -/
structure PrintfResult where
  ret : BitVec 32
  out : Buffer
  sent : List (BitVec 8)

/-- `printf`. -/
def printf (fmt fuel : ℕ) : Option PrintfResult :=
  (vsprintf mem args Buffer.zero.bytes fmt fuel).map fun r =>
    { ret := r.ret
      out := r.out
      sent := (List.range r.ret.toInt.toNat).map fun i => r.out.bytes i }

end Functions

/-- The call returns `r`: so it does with any fuel from some amount on. -/
def Returns {α : Type} (call : ℕ → Option α) (r : α) : Prop := ∃ N, ∀ fuel ≥ N, call fuel = some r

/-- A call returns one result. -/
lemma Returns.unique {α : Type} {call : ℕ → Option α} {r r' : α} (h : Returns call r)
    (h' : Returns call r') : r = r' := by
  obtain ⟨N, hN⟩ := h
  obtain ⟨N', hN'⟩ := h'
  exact Option.some.inj ((hN (N + N') (by omega)).symm.trans (hN' (N + N') (by omega)))

/-! ## Formats -/

/-- A piece of a format: an ordinary character, a directive with its argument, or a percent sign
with a character that has no meaning of its own, such as `%%`. -/
inductive Piece where
  | ordinary (c : BitVec 8) (h : c ≠ 0#8 ∧ c ≠ ch '%')
  | int (v : BitVec 32)
  | uint (v : BitVec 32)
  | str (s : List (BitVec 8))
  | other (c : BitVec 8) (h : c ≠ ch 'd' ∧ c ≠ ch 's' ∧ c ≠ ch 'u')

namespace Piece

/-- The piece in the format. -/
def spelling : Piece → List (BitVec 8)
  | ordinary c _ => [c]
  | int _ => [ch '%', ch 'd']
  | uint _ => [ch '%', ch 'u']
  | str _ => [ch '%', ch 's']
  | other c _ => [ch '%', c]

/-- The piece in the output. -/
def text : Piece → List (BitVec 8)
  | ordinary c _ => [c]
  | int v => signedDecimal v.toInt
  | uint v => decimal v.toNat
  | str s => s
  | other c _ => [c]

/-- The number of arguments that it takes. -/
def slots : Piece → ℕ
  | ordinary _ _ => 0
  | other _ _ => 0
  | _ => 1

/-- Its argument is passed in the slot. -/
def Held (mem : Mem) (slot : BitVec 64) : Piece → Prop
  | int v => slot.setWidth 32 = v
  | uint v => slot.setWidth 32 = v
  | str s => StringAt (charPtr mem slot.toNat) s
  | _ => True

/-- The bytes that are stored for it: a copied string comes with its `NUL`. -/
def stored (p : Piece) : List (BitVec 8) :=
  if p.slots = 0 then p.text else p.text ++ [0#8]

/-- What is stored for a piece is its text, and at most a `NUL` behind. -/
lemma stored_eq (p : Piece) : ∃ tail, p.stored = p.text ++ tail ∧ tail.length ≤ 1 := by
  unfold stored
  by_cases h : p.slots = 0
  · rw [if_pos h]
    exact ⟨[], (List.append_nil _).symm, Nat.zero_le _⟩
  · rw [if_neg h]
    exact ⟨[0#8], rfl, Nat.le_refl _⟩

end Piece

/-- A format, as it is written. -/
def spelled (ps : List Piece) : List (BitVec 8) := ps.flatMap Piece.spelling

/-- A format, as it is printed. -/
def rendered (ps : List Piece) : List (BitVec 8) := ps.flatMap Piece.text

/-- At `fmt` there is a format that consists of the pieces. -/
def FormatAt (mem : Mem) (fmt : ℕ) (ps : List Piece) : Prop :=
  Segment.At mem fmt (spelled ps ++ [0#8])

/-- From slot `j` on there are the arguments of the pieces. -/
def Matches (mem : Mem) (args : ℕ → BitVec 64) : ℕ → List Piece → Prop
  | _, [] => True
  | j, p :: ps => p.Held mem (args j) ∧ Matches mem args (j + p.slots) ps

/-! ## One round of the loop -/

section Rounds

variable {mem : Mem} {args : ℕ → BitVec 64}

/-- An append copies a string with its `NUL`, with enough fuel. -/
lemma append_eq_some_iff (fuel : ℕ) (st : State) (src : CharPtr) (st' : State) :
    st.append fuel src = some st' ↔ ∃ cs, StringAt src cs ∧ cs.length < fuel ∧
      st' = { st with out := st.out.puts (elem 0 st.outIndex) (cs ++ [0#8])
                      outIndex := st.outIndex + BitVec.ofNat 32 cs.length } := by
  unfold State.append
  constructor
  · intro h
    obtain ⟨out, hout, h⟩ := Option.bind_eq_some_iff.mp h
    obtain ⟨len, hlen, h⟩ := Option.map_eq_some_iff.mp h
    obtain ⟨cs, hcs, rfl, -⟩ := (strcpy_eq_some_iff fuel _ _ src out).mp hout
    obtain ⟨ds, hds, rfl, hfuel⟩ := (strlen_eq_some_iff fuel src len).mp hlen
    rw [← hcs.unique hds] at h hfuel
    exact ⟨cs, hcs, hfuel, h.symm⟩
  · rintro ⟨cs, hcs, hfuel, rfl⟩
    rw [(strcpy_eq_some_iff fuel _ _ src _).mpr ⟨cs, hcs, rfl, hfuel⟩, Option.bind_some,
      (strlen_eq_some_iff fuel src _).mpr ⟨cs, hcs, rfl, hfuel⟩]
    rfl

/-- The locals after the loop printed a piece. -/
def State.after (st : State) (p : Piece) : State where
  fmt := st.fmt + p.spelling.length
  outIndex := st.outIndex + BitVec.ofNat 32 p.text.length
  out := st.out.puts (elem 0 st.outIndex) p.stored
  ap := st.ap + p.slots
  reads := (List.range' st.fmt p.spelling.length).reverse ++ st.reads

/-- The part of a round that copies the text of a piece. -/
lemma bind_append_eq (p : Piece) (st : State) (hslots : p.slots = 1)
    (hlen : p.spelling.length = 2) {src : CharPtr} (hsrc : StringAt src p.text) {fuel : ℕ}
    (hfuel : p.text.length < fuel) :
    ((st.look.next.look.take.append fuel src).bind fun st => vsprintfLoop mem args fuel st.next) =
      vsprintfLoop mem args fuel (st.after p) := by
  have hstored : p.stored = p.text ++ [0#8] := by
    rw [Piece.stored, hslots, if_neg (by decide)]
  rw [(append_eq_some_iff fuel _ src _).mpr ⟨p.text, hsrc, hfuel, rfl⟩, Option.bind_some,
    State.after, hslots, hlen, hstored]
  rfl

/-- Such a part is only left behind with a string. -/
lemma exists_of_bind_append {st : State} {src : CharPtr} {fuel : ℕ} {f : State → Option State}
    {r : State} (h : (st.append fuel src).bind f = some r) :
    ∃ cs, StringAt src cs ∧ cs.length < fuel := by
  obtain ⟨st', hst', -⟩ := Option.bind_eq_some_iff.mp h
  obtain ⟨cs, hcs, hfuel, -⟩ := (append_eq_some_iff fuel _ src st').mp hst'
  exact ⟨cs, hcs, hfuel⟩

/-- **A piece is printed** in one round. -/
theorem vsprintfLoop_piece (p : Piece) (st : State) (hspell : Segment.At mem st.fmt p.spelling)
    (hheld : p.Held mem (args st.ap)) {fuel : ℕ} (hfuel : p.text.length < fuel) :
    vsprintfLoop mem args (fuel + 1) st = vsprintfLoop mem args fuel (st.after p) := by
  have h0 : ch '%' ≠ 0#8 := by decide
  cases p with
  | ordinary c hc =>
    rw [vsprintfLoop, hspell.1, if_neg hc.1, if_neg hc.2]
    rfl
  | int v =>
    have hv : (args st.ap).setWidth 32 = v := hheld
    rw [vsprintfLoop, hspell.1, if_neg h0, if_pos rfl, directive,
      show mem st.look.next.look.fmt = ch 'd' from hspell.2.1, if_pos rfl,
      ← bind_append_eq (.int v) st rfl rfl (stringAt_intToStr Buffer.zero v) hfuel, ← hv]
    rfl
  | uint v =>
    have hv : (args st.ap).setWidth 32 = v := hheld
    rw [vsprintfLoop, hspell.1, if_neg h0, if_pos rfl, directive,
      show mem st.look.next.look.fmt = ch 'u' from hspell.2.1, if_neg (by decide),
      if_neg (by decide), if_pos rfl,
      ← bind_append_eq (.uint v) st rfl rfl (stringAt_uintToStr Buffer.zero v) hfuel, ← hv]
    rfl
  | str s =>
    rw [vsprintfLoop, hspell.1, if_neg h0, if_pos rfl, directive,
      show mem st.look.next.look.fmt = ch 's' from hspell.2.1, if_neg (by decide), if_pos rfl,
      ← bind_append_eq (.str s) st rfl rfl hheld hfuel]
    rfl
  | other c hc =>
    rw [vsprintfLoop, hspell.1, if_neg h0, if_pos rfl, directive,
      show mem st.look.next.look.fmt = c from hspell.2.1, if_neg hc.1, if_neg hc.2.1,
      if_neg hc.2.2]
    rfl

/-- A round behind a percent sign prints a piece, whatever character follows. -/
private lemma directive_cases {fuel : ℕ} {st r : State} (hper : mem st.fmt = ch '%')
    (h : ((directive mem args fuel st.look.next.look).bind fun st =>
      vsprintfLoop mem args fuel st.next) = some r) :
    ∃ p : Piece, Segment.At mem st.fmt p.spelling ∧ p.Held mem (args st.ap) ∧
      vsprintfLoop mem args fuel (st.after p) = some r := by
  by_cases hd : mem (st.fmt + 1) = ch 'd'
  · rw [directive, show mem st.look.next.look.fmt = ch 'd' from hd, if_pos rfl] at h
    obtain ⟨cs, hcs, hfuel⟩ := exists_of_bind_append h
    rw [hcs.unique (stringAt_intToStr Buffer.zero _)] at hfuel
    refine ⟨.int ((args st.ap).setWidth 32), ⟨hper, hd, trivial⟩, rfl, ?_⟩
    rw [← bind_append_eq _ st rfl rfl (stringAt_intToStr Buffer.zero _) hfuel]
    exact h
  by_cases hs : mem (st.fmt + 1) = ch 's'
  · rw [directive, show mem st.look.next.look.fmt = ch 's' from hs, if_neg (by decide),
      if_pos rfl] at h
    obtain ⟨cs, hcs, hfuel⟩ := exists_of_bind_append h
    refine ⟨.str cs, ⟨hper, hs, trivial⟩, hcs, ?_⟩
    rw [← bind_append_eq (.str cs) st rfl rfl hcs hfuel]
    exact h
  by_cases hu : mem (st.fmt + 1) = ch 'u'
  · rw [directive, show mem st.look.next.look.fmt = ch 'u' from hu, if_neg (by decide),
      if_neg (by decide), if_pos rfl] at h
    obtain ⟨cs, hcs, hfuel⟩ := exists_of_bind_append h
    rw [hcs.unique (stringAt_uintToStr Buffer.zero _)] at hfuel
    refine ⟨.uint ((args st.ap).setWidth 32), ⟨hper, hu, trivial⟩, rfl, ?_⟩
    rw [← bind_append_eq _ st rfl rfl (stringAt_uintToStr Buffer.zero _) hfuel]
    exact h
  · refine ⟨.other (mem (st.fmt + 1)) ⟨hd, hs, hu⟩, ⟨hper, rfl, trivial⟩, trivial, ?_⟩
    rw [directive, show mem st.look.next.look.fmt = mem (st.fmt + 1) from rfl, if_neg hd,
      if_neg hs, if_neg hu] at h
    exact h

/-- **A round does nothing else**: the loop ends at a `NUL`, or prints a piece. -/
theorem vsprintfLoop_cases {fuel : ℕ} {st r : State}
    (h : vsprintfLoop mem args (fuel + 1) st = some r) :
    (mem st.fmt = 0#8 ∧ r = st.look) ∨
      ∃ p : Piece, Segment.At mem st.fmt p.spelling ∧ p.Held mem (args st.ap) ∧
        vsprintfLoop mem args fuel (st.after p) = some r := by
  rw [vsprintfLoop] at h
  by_cases h0 : mem st.fmt = 0#8
  · rw [if_pos h0] at h
    exact Or.inl ⟨h0, (Option.some.inj h).symm⟩
  rw [if_neg h0] at h
  by_cases hper : mem st.fmt = ch '%'
  · rw [if_pos hper] at h
    exact Or.inr (directive_cases hper h)
  · rw [if_neg hper] at h
    exact Or.inr ⟨.ordinary (mem st.fmt) ⟨h0, hper⟩, ⟨rfl, trivial⟩, trivial, h⟩

/-- **A format is printed** in as many rounds as it has pieces.

**Proof sketch.** Induction on the pieces.  The fuel of a round is more than that of the rounds
that follow it, and has to suffice for the text of its piece. -/
theorem vsprintfLoop_pieces (ps : List Piece) :
    ∀ st : State, Segment.At mem st.fmt (spelled ps) → Matches mem args st.ap ps →
      ∃ N, ∀ fuel ≥ N, vsprintfLoop mem args (fuel + ps.length) st =
        vsprintfLoop mem args fuel (ps.foldl State.after st) := by
  induction ps with
  | nil => intro st _ _; exact ⟨0, fun fuel _ => rfl⟩
  | cons p ps ih =>
    intro st hspell hargs
    rw [spelled, List.flatMap_cons, Segment.at_append] at hspell
    obtain ⟨N, hN⟩ := ih (st.after p) hspell.2 hargs.2
    refine ⟨N + p.text.length + 1, fun fuel hfuel => ?_⟩
    rw [List.length_cons, ← Nat.add_assoc,
      vsprintfLoop_piece p st hspell.1 hargs.1 (by omega : p.text.length < fuel + ps.length)]
    exact hN fuel (by omega)

end Rounds

/-- The pieces take the format pointer over their spelling. -/
lemma foldl_after_fmt (ps : List Piece) :
    ∀ st : State, (ps.foldl State.after st).fmt = st.fmt + (spelled ps).length := by
  induction ps with
  | nil => intro st; rfl
  | cons p ps ih =>
    intro st
    rw [List.foldl_cons, ih, spelled, spelled, List.flatMap_cons, List.length_append,
      ← Nat.add_assoc]
    rfl

/-! ## The output -/

/-- The text is in the buffer, and nothing else is changed but the byte behind it. -/
structure Rendered (out : Mem) (text : List (BitVec 8)) (st : State) : Prop where
  index : st.outIndex = BitVec.ofNat 32 text.length
  chars : Segment.At st.out.bytes 0 text
  others : ∀ i, text.length < i → st.out.bytes i = out i
  below : ∀ i < text.length, i ∈ st.out.written
  bound : ∀ i ∈ st.out.written, i ≤ text.length

/-- Nothing is rendered at the start. -/
private lemma rendered_init (out : Mem) (fmt : ℕ) : Rendered out [] (State.init out fmt) where
  index := rfl
  chars := Segment.at_nil _ _
  others _ _ := rfl
  below i hi := absurd hi (Nat.not_lt_zero i)
  bound _ hi := nomatch hi

/-- One piece more. -/
lemma Rendered.after {out : Mem} {text : List (BitVec 8)} {st : State}
    (h : Rendered out text st) (p : Piece) (hlen : text.length + p.text.length < 2 ^ 31) :
    Rendered out (text ++ p.text) (st.after p) := by
  obtain ⟨tail, hstored, htail⟩ := p.stored_eq
  have hat : elem 0 st.outIndex = text.length := by
    rw [h.index, elem_ofNat 0 (by omega), Nat.zero_add]
  have hout : (st.after p).out = st.out.puts text.length (p.text ++ tail) := by
    rw [← hstored, ← hat]
    rfl
  constructor
  · show st.outIndex + BitVec.ofNat 32 p.text.length = _
    rw [h.index, List.length_append, BitVec.ofNat_add]
  · rw [hout, Segment.at_append, Nat.zero_add]
    refine ⟨h.chars.copy fun k hk => ?_, ((Segment.at_append _ _ _ _).mp (Buffer.puts_at _ _ _)).1⟩
    exact Buffer.puts_bytes_of_notMem _ _ _ _ (by omega)
  · intro i hi
    rw [List.length_append] at hi
    rw [hout, Buffer.puts_bytes_of_notMem _ _ _ _ (by rw [List.length_append]; omega)]
    exact h.others i (by omega)
  · intro i hi
    rw [List.length_append] at hi
    rw [hout, Buffer.mem_puts_written, List.length_append]
    by_cases hlt : i < text.length
    · exact Or.inl (h.below i hlt)
    · exact Or.inr (by omega)
  · intro i hi
    rw [hout, Buffer.mem_puts_written, List.length_append] at hi
    rw [List.length_append]
    rcases hi with hi | hi
    · exact Nat.le_trans (h.bound i hi) (Nat.le_add_right _ _)
    · omega

/-- The pieces append their texts. -/
lemma Rendered.foldl {out : Mem} (ps : List Piece) :
    ∀ {text : List (BitVec 8)} {st : State}, Rendered out text st →
      text.length + (rendered ps).length < 2 ^ 31 →
        Rendered out (text ++ rendered ps) (ps.foldl State.after st) := by
  induction ps with
  | nil =>
    intro text st h _
    rw [rendered, List.flatMap_nil, List.append_nil]
    exact h
  | cons p ps ih =>
    intro text st h hlen
    rw [rendered, List.flatMap_cons, List.length_append] at hlen
    rw [rendered, List.flatMap_cons, ← List.append_assoc]
    refine ih (h.after p (by omega)) ?_
    rw [List.length_append]
    exact Nat.lt_of_le_of_lt (Nat.le_of_eq (by rw [rendered]; omega)) hlen

/-- What `vsprintf` owes: the text and a `NUL` in the buffer, nothing else written, and the number
of characters returned. -/
structure Prints (out : Mem) (text : List (BitVec 8)) (r : VsprintfResult) : Prop where
  ret : r.ret.toInt = text.length
  chars : Segment.At r.out.bytes 0 (text ++ [0#8])
  others : ∀ i, text.length < i → r.out.bytes i = out i
  written : ∀ i, i ∈ r.out.written ↔ i ≤ text.length

/-- The read that finds the end of the format changes nothing. -/
lemma Rendered.look {out : Mem} {text : List (BitVec 8)} {st : State}
    (h : Rendered out text st) : Rendered out text st.look :=
  ⟨h.index, h.chars, h.others, h.below, h.bound⟩

/-- The `NUL` at the end closes the text. -/
lemma Rendered.finish {out : Mem} {text : List (BitVec 8)} {st : State}
    (h : Rendered out text st) (hlen : text.length < 2 ^ 31) : Prints out text st.finish := by
  have hat : elem 0 st.outIndex = text.length := by
    rw [h.index, elem_ofNat 0 hlen, Nat.zero_add]
  constructor
  · show st.outIndex.toInt = _
    rw [h.index, toInt_ofNat hlen]
  · rw [State.finish, hat, Buffer.put_bytes, Segment.at_append, Segment.at_singleton,
      Nat.zero_add]
    refine ⟨h.chars.copy fun k hk => ?_, Function.update_self _ _ _⟩
    rw [Function.update_of_ne (by omega)]
  · intro i hi
    rw [State.finish, hat, Buffer.put_bytes, Function.update_of_ne (by omega)]
    exact h.others i hi
  · intro i
    rw [State.finish, hat, Buffer.put_written, List.mem_cons]
    constructor
    · rintro (rfl | hi)
      · exact Nat.le_refl _
      · exact h.bound i hi
    · intro hi
      rcases Nat.lt_or_eq_of_le hi with hlt | heq
      · exact Or.inr (h.below i hlt)
      · exact Or.inl heq

/-! ## A call -/

section Call

variable {mem : Mem} {args : ℕ → BitVec 64} {fmt : ℕ} {ps : List Piece}

/-- The loop ends behind the last piece. -/
lemma vsprintf_returns (out : Mem) (hfmt : FormatAt mem fmt ps) (hargs : Matches mem args 0 ps) :
    Returns (vsprintf mem args out fmt)
      (ps.foldl State.after (State.init out fmt)).look.finish := by
  rw [FormatAt, Segment.at_append, Segment.at_singleton] at hfmt
  obtain ⟨N, hN⟩ := vsprintfLoop_pieces ps (State.init out fmt) hfmt.1 hargs
  refine ⟨N + ps.length + 1, fun fuel hfuel => ?_⟩
  have hnul : mem (ps.foldl State.after (State.init out fmt)).fmt = 0#8 := by
    rw [foldl_after_fmt]
    exact hfmt.2
  obtain ⟨k, rfl⟩ : ∃ k, fuel = k + 1 + ps.length := ⟨fuel - 1 - ps.length, by omega⟩
  rw [vsprintf, hN (k + 1) (by omega), vsprintfLoop, if_pos hnul]
  rfl

/-- What it leaves behind. -/
lemma prints_finish (out : Mem) (hlen : (rendered ps).length < 2 ^ 31) :
    Prints out (rendered ps) (ps.foldl State.after (State.init out fmt)).look.finish := by
  have h := (rendered_init out fmt).foldl ps (by rw [List.length_nil, Nat.zero_add]; exact hlen)
  rw [List.nil_append] at h
  exact h.look.finish hlen

/-- **`vsprintf` prints exactly the format**: for every format that consists of ordinary characters
and directives, and all arguments that go with it, it returns, and leaves the text in the buffer.
The number of characters fits the `int` that counts them.

**Proof sketch.** One round of the loop prints one piece, so the state behind the last piece is
known; by induction on the pieces its buffer begins with the text. -/
theorem vsprintf_prints (out : Mem) (hfmt : FormatAt mem fmt ps) (hargs : Matches mem args 0 ps)
    (hlen : (rendered ps).length < 2 ^ 31) :
    ∃ r, Returns (vsprintf mem args out fmt) r ∧ Prints out (rendered ps) r :=
  ⟨_, vsprintf_returns out hfmt hargs, prints_finish out hlen⟩

/-- The format `"%d %s%%"` with the least number and the string `"ok"`. -/
theorem vsprintf_prints_least :
    let mem : Mem := fun a => [ch '%', ch 'd', ch ' ', ch '%', ch 's', ch '%', ch '%', 0#8, ch 'o',
      ch 'k', 0#8].getD (a - 16) 0#8
    let args : ℕ → BitVec 64 := fun j => if j = 0 then 0x80000000#64 else 24#64
    ∃ r, Returns (vsprintf mem args Buffer.zero.bytes 16) r ∧ Prints Buffer.zero.bytes
      [ch '-', ch '2', ch '1', ch '4', ch '7', ch '4', ch '8', ch '3', ch '6', ch '4', ch '8',
        ch ' ', ch 'o', ch 'k', ch '%'] r := by
  intro mem args
  let ps : List Piece := [.int (BitVec.intMin 32), .ordinary (ch ' ') (by decide),
    .str [ch 'o', ch 'k'], .other (ch '%') (by decide)]
  have hfmt : FormatAt mem 16 ps := ⟨rfl, rfl, rfl, rfl, rfl, rfl, rfl, rfl, trivial⟩
  have hargs : Matches mem args 0 ps :=
    ⟨rfl, trivial, ⟨⟨rfl, rfl, rfl, trivial⟩, by decide⟩, trivial, trivial⟩
  exact vsprintf_prints Buffer.zero.bytes hfmt hargs (by decide)

end Call

end Riscv64Cpu.Klib
