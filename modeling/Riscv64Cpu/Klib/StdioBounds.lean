import Riscv64Cpu.Klib.Stdio

set_option relaxedAutoImplicit false
set_option autoImplicit false

/-!
# What formatted output may touch

The loop of `vsprintf` tests for the end of the format at its head, but advances the format at two
places; and `printf` passes no size with its buffer.

## Main definitions

* `Klib.lonePercent` — the format ends in a percent sign with nothing behind it.
* `Klib.Arguments` — the arguments for the directives of a format.
* `Klib.StopsAtNul` — `vsprintf` ends, and reads its format up to the `NUL` only.
* `Klib.Inside` — `printf` keeps to its buffer and sends what is in it.

## Main results

* `Klib.exists_pieces` — every format consists of pieces, and perhaps a lone percent sign.
* `Klib.stopsAtNul_iff` — the formats that are not read past their end.
* `Klib.printf_inside_iff` — the formats and arguments that stay inside the buffer.
-/

namespace Riscv64Cpu.Klib

/-! ## The end of the format -/

/-- The last character of a format is a percent sign, and no percent sign stands before it that
takes it for its directive. -/
def lonePercent : List (BitVec 8) → Bool
  | [] => false
  | [c] => c == ch '%'
  | c :: d :: cs => if c = ch '%' then lonePercent cs else lonePercent (d :: cs)

/-- From slot `j` on there are arguments for the directives of a format: strings for `%s`. -/
def Arguments (mem : Mem) (args : ℕ → BitVec 64) : ℕ → List (BitVec 8) → Prop
  | j, c :: d :: cs =>
    if c ≠ ch '%' then Arguments mem args j (d :: cs)
    else if d = ch 's' then
      (∃ s, StringAt (charPtr mem (args j).toNat) s) ∧ Arguments mem args (j + 1) cs
    else if d = ch 'd' ∨ d = ch 'u' then Arguments mem args (j + 1) cs
    else Arguments mem args j cs
  | _, _ => True

section Reads

variable {mem : Mem} {args : ℕ → BitVec 64}

/-- A directive is a piece: one that its argument fits. -/
private lemma exists_directive {j : ℕ} {d : BitVec 8} {cs : List (BitVec 8)}
    (hargs : Arguments mem args j (ch '%' :: d :: cs)) :
    ∃ p : Piece, p.spelling = [ch '%', d] ∧ p.Held mem (args j) ∧
      Arguments mem args (j + p.slots) cs := by
  rw [Arguments, if_neg (not_not.mpr rfl)] at hargs
  by_cases hs : d = ch 's'
  · rw [if_pos hs] at hargs
    obtain ⟨⟨s, hstr⟩, hrest⟩ := hargs
    exact ⟨.str s, by rw [hs]; rfl, hstr, hrest⟩
  rw [if_neg hs] at hargs
  by_cases hd : d = ch 'd'
  · rw [if_pos (Or.inl hd)] at hargs
    exact ⟨.int ((args j).setWidth 32), by rw [hd]; rfl, rfl, hargs⟩
  by_cases hu : d = ch 'u'
  · rw [if_pos (Or.inr hu)] at hargs
    exact ⟨.uint ((args j).setWidth 32), by rw [hu]; rfl, rfl, hargs⟩
  · rw [if_neg (not_or.mpr ⟨hd, hu⟩)] at hargs
    exact ⟨.other d ⟨hd, hs, hu⟩, rfl, trivial, hargs⟩

/-- **Every format consists of pieces**, and perhaps a lone percent sign at the end.

**Proof sketch.** Induction along the scan for lone percent signs: it steps over a directive, or
over an ordinary character. -/
theorem exists_pieces (cs : List (BitVec 8)) :
    ∀ j, (∀ c ∈ cs, c ≠ 0#8) → Arguments mem args j cs →
      ∃ ps, Matches mem args j ps ∧
        cs = spelled ps ++ if lonePercent cs then [ch '%'] else [] := by
  fun_induction lonePercent cs with
  | case1 =>
    intro j _ _
    exact ⟨[], trivial, rfl⟩
  | case2 c =>
    intro j hne _
    by_cases hc : c = ch '%'
    · refine ⟨[], trivial, ?_⟩
      rw [hc, beq_self_eq_true, if_pos rfl]
      rfl
    · refine ⟨[.ordinary c ⟨hne c (List.mem_singleton_self c), hc⟩], ⟨trivial, trivial⟩, ?_⟩
      rw [beq_eq_false_iff_ne.mpr hc]
      rfl
  | case3 d cs ih =>
    intro j hne hargs
    obtain ⟨p, hspell, hheld, hrest⟩ := exists_directive hargs
    obtain ⟨ps, hps, hcs⟩ := ih _ (fun c hc => hne c (by simp [hc])) hrest
    refine ⟨p :: ps, ⟨hheld, hps⟩, ?_⟩
    rw [spelled, List.flatMap_cons, hspell, List.append_assoc]
    exact congrArg (fun l => ch '%' :: d :: l) hcs
  | case4 c d cs hc ih =>
    intro j hne hargs
    rw [Arguments, if_pos hc] at hargs
    obtain ⟨ps, hps, hcs⟩ := ih j (fun c hc => hne c (List.mem_cons_of_mem _ hc)) hargs
    refine ⟨.ordinary c ⟨hne c List.mem_cons_self, hc⟩ :: ps, ⟨trivial, hps⟩, ?_⟩
    rw [spelled, List.flatMap_cons, List.append_assoc]
    exact congrArg (List.cons c) hcs

/-- The addresses at which the pieces are read. -/
private lemma foldl_after_reads (ps : List Piece) :
    ∀ (st : State) (a : ℕ), a ∈ (ps.foldl State.after st).reads →
      a ∈ st.reads ∨ a < st.fmt + (spelled ps).length := by
  induction ps with
  | nil => intro st a ha; exact Or.inl ha
  | cons p ps ih =>
    intro st a ha
    have hfmt : (st.after p).fmt = st.fmt + p.spelling.length := rfl
    have hreads : (st.after p).reads =
      (List.range' st.fmt p.spelling.length).reverse ++ st.reads := rfl
    rw [spelled, List.flatMap_cons, List.length_append]
    rcases ih (st.after p) a ha with h | h
    · rw [hreads, List.mem_append, List.mem_reverse, List.mem_range'_1] at h
      rcases h with h | h
      · exact Or.inr (by omega)
      · exact Or.inl h
    · rw [hfmt, spelled] at h
      exact Or.inr (by omega)

/-- A loop that ends has read its format where it began, and forgets no read. -/
private lemma mem_reads_of_loop :
    ∀ (fuel : ℕ) (st r : State), vsprintfLoop mem args fuel st = some r →
      st.fmt ∈ r.reads ∧ ∀ a ∈ st.reads, a ∈ r.reads := by
  intro fuel
  induction fuel with
  | zero => intro st r h; exact nomatch h
  | succ fuel ih =>
    intro st r h
    rcases vsprintfLoop_cases h with ⟨-, rfl⟩ | ⟨p, -, -, h⟩
    · exact ⟨List.mem_cons_self, fun a ha => List.mem_cons_of_mem _ ha⟩
    · obtain ⟨-, hmono⟩ := ih _ r h
      have hpos : 0 < p.spelling.length := by cases p <;> exact Nat.succ_pos _
      refine ⟨hmono _ (List.mem_append_left _ ?_), fun a ha => hmono a (List.mem_append_right _ ha)⟩
      rw [List.mem_reverse, List.mem_range'_1]
      omega

/-- `vsprintf` returns, and reads no byte of its format behind the `NUL` at `fmt + n`. -/
def StopsAtNul (mem : Mem) (args : ℕ → BitVec 64) (out : Mem) (fmt n : ℕ) : Prop :=
  ∃ r, Returns (vsprintf mem args out fmt) r ∧ ∀ a ∈ r.reads, a ≤ fmt + n

/-- Pieces that are all of the format. -/
private lemma stopsAtNul_of_pieces (out : Mem) {fmt : ℕ} {ps : List Piece}
    (hfmt : FormatAt mem fmt ps)
    (hargs : Matches mem args 0 ps) : StopsAtNul mem args out fmt (spelled ps).length := by
  refine ⟨_, vsprintf_returns out hfmt hargs, fun a ha => ?_⟩
  rcases List.mem_cons.mp ha with rfl | ha
  · rw [foldl_after_fmt]
    exact Nat.le_refl _
  · rcases foldl_after_reads ps _ a ha with h | h
    · exact nomatch h
    · exact Nat.le_of_lt h

/-- A lone percent sign behind the pieces: the `NUL` is taken for its directive. -/
lemma not_stopsAtNul_of_pieces (out : Mem) {fmt : ℕ} {ps : List Piece}
    (hfmt : Segment.At mem fmt (spelled ps ++ [ch '%', 0#8])) (hargs : Matches mem args 0 ps) :
    ¬StopsAtNul mem args out fmt ((spelled ps).length + 1) := by
  rintro ⟨r, ⟨N, hN⟩, hr⟩
  rw [Segment.at_append] at hfmt
  obtain ⟨M, hM⟩ := vsprintfLoop_pieces ps (State.init out fmt) hfmt.1 hargs
  generalize hst : ps.foldl State.after (State.init out fmt) = st at hM
  have hst_fmt : st.fmt = fmt + (spelled ps).length := by
    rw [← hst, foldl_after_fmt]
    rfl
  have hret := hN (N + M + 2 + 1 + ps.length) (by omega)
  rw [vsprintf, hM (N + M + 2 + 1) (by omega),
    vsprintfLoop_piece (.other 0#8 (by decide)) st (hst_fmt ▸ hfmt.2) trivial
      (Nat.lt_add_left _ Nat.one_lt_two), Option.map_eq_some_iff] at hret
  obtain ⟨st', hloop, rfl⟩ := hret
  have hpast := hr _ (mem_reads_of_loop _ _ _ hloop).1
  rw [show (st.after (.other 0#8 (by decide))).fmt = st.fmt + 2 from rfl, hst_fmt] at hpast
  omega

/-- **The loop of `vsprintf` stops at the `NUL` of its format unless a lone percent sign stands
before it.**

**Proof sketch.** The format is cut into pieces.  If nothing is left over, the rounds of the pieces
lead to the `NUL`, which is tested at the head of the loop.  A lone percent sign takes the `NUL`
for its directive, and the next round begins behind it. -/
theorem stopsAtNul_iff {fmt : ℕ} {cs : List (BitVec 8)} (hfmt : StringAt (some (mem, fmt)) cs)
    (hargs : Arguments mem args 0 cs) (out : Mem) :
    StopsAtNul mem args out fmt cs.length ↔ lonePercent cs = false := by
  obtain ⟨hat, hne⟩ := hfmt
  obtain ⟨ps, hps, hcs⟩ := exists_pieces cs 0 hne hargs
  cases hlone : lonePercent cs with
  | true =>
    rw [hlone, if_pos rfl] at hcs
    rw [hcs, List.append_assoc] at hat
    rw [hcs, List.length_append, List.length_singleton]
    exact iff_of_false (not_stopsAtNul_of_pieces out hat hps) (by decide)
  | false =>
    rw [hlone, if_neg (by decide), List.append_nil] at hcs
    rw [hcs] at hat ⊢
    exact iff_of_true (stopsAtNul_of_pieces out hat hps) rfl

end Reads

/-- The format `"%d"` is not read past its end. -/
theorem stopsAtNul_number :
    let mem : Mem := fun a => [ch '%', ch 'd', 0#8].getD (a - 16) 0#8
    StopsAtNul mem (fun _ => 7#64) Buffer.zero.bytes 16 2 ↔
      lonePercent [ch '%', ch 'd'] = false := by
  intro mem
  have hfmt : StringAt (some (mem, 16)) [ch '%', ch 'd'] :=
    ⟨⟨rfl, rfl, rfl, trivial⟩, by decide⟩
  exact stopsAtNul_iff hfmt trivial _

/-- The format `"5%"` is. -/
theorem percent_past_nul :
    let mem : Mem := fun a => [ch '5', ch '%', 0#8].getD (a - 16) 0#8
    StringAt (some (mem, 16)) [ch '5', ch '%'] ∧
      ¬StopsAtNul mem (fun _ => 7#64) Buffer.zero.bytes 16 2 := by
  intro mem
  have hat : Segment.At mem 16 [ch '5', ch '%', 0#8] := ⟨rfl, rfl, rfl, trivial⟩
  refine ⟨⟨hat, by decide⟩, ?_⟩
  have hargs : Matches mem (fun _ => 7#64) 0 [.ordinary (ch '5') (by decide)] := ⟨trivial, trivial⟩
  exact not_stopsAtNul_of_pieces _ hat hargs

/-! ## The buffer of `printf` -/

section Inside

variable {mem : Mem} {args : ℕ → BitVec 64}

/-- The stores of `vsprintf` are inside of the buffer, and what is sent is what they stored in
front of the `NUL`. -/
structure Inside (r : PrintfResult) : Prop where
  bounds : ∀ i ∈ r.out.written, i < bufSize
  written : ∀ i, i ∈ r.out.written ↔ i ≤ r.sent.length
  sent : Segment.At r.out.bytes 0 (r.sent ++ [0#8])

/-- A loop that ends forgets no store. -/
private lemma mem_written_of_loop :
    ∀ (fuel : ℕ) (st r : State), vsprintfLoop mem args fuel st = some r →
      ∀ i ∈ st.out.written, i ∈ r.out.written := by
  intro fuel
  induction fuel with
  | zero => intro st r h; exact nomatch h
  | succ fuel ih =>
    intro st r h i hi
    rcases vsprintfLoop_cases h with ⟨-, rfl⟩ | ⟨p, -, -, h⟩
    · exact hi
    · exact ih _ r h i ((Buffer.mem_puts_written _ _ _ _).mpr (Or.inl hi))

/-- **A run inside of the buffer prints pieces**, whose text fits in it.

**Proof sketch.** Induction on the rounds.  While the stores are inside of the buffer the index is
at most its size, so that the counter has not overflowed; the `NUL` is the last store. -/
theorem pieces_of_loop :
    ∀ (fuel : ℕ) (st r : State) (k : ℕ), vsprintfLoop mem args fuel st = some r →
      st.outIndex = BitVec.ofNat 32 k → k ≤ bufSize →
      (∀ i ∈ r.finish.out.written, i < bufSize) →
        ∃ ps, FormatAt mem st.fmt ps ∧ Matches mem args st.ap ps ∧
          k + (rendered ps).length < bufSize := by
  have hsize : bufSize < 2 ^ 31 := by decide
  intro fuel
  induction fuel with
  | zero => intro st r k h; exact nomatch h
  | succ fuel ih =>
    intro st r k h hk hle hin
    have hat : elem 0 st.outIndex = k := by
      rw [hk, elem_ofNat 0 (by omega), Nat.zero_add]
    rcases vsprintfLoop_cases h with ⟨h0, rfl⟩ | ⟨p, hspell, hheld, h⟩
    · refine ⟨[], (Segment.at_singleton _ _ _).mpr h0, trivial, ?_⟩
      exact hin k (List.mem_cons.mpr (Or.inl hat.symm))
    · -- the text of the piece is inside of the buffer
      have hstore : ∀ i, k ≤ i → i < k + p.text.length → i < bufSize := by
        obtain ⟨tail, hstored, -⟩ := p.stored_eq
        intro i h1 h2
        refine hin i (List.mem_cons_of_mem _ (mem_written_of_loop _ _ _ h i ?_))
        refine (Buffer.mem_puts_written _ _ _ _).mpr (Or.inr ?_)
        rw [hat, hstored, List.length_append]
        omega
      have hle' : k + p.text.length ≤ bufSize := by
        by_cases hempty : p.text.length = 0
        · omega
        · have := hstore (k + p.text.length - 1) (by omega) (by omega)
          omega
      obtain ⟨ps, hfmt, hargs, hlen⟩ := ih (st.after p) r (k + p.text.length) h
        (by rw [BitVec.ofNat_add, ← hk]; rfl) hle' hin
      refine ⟨p :: ps, ?_, ⟨hheld, hargs⟩, ?_⟩
      · rw [FormatAt, spelled, List.flatMap_cons, List.append_assoc, Segment.at_append]
        exact ⟨hspell, hfmt⟩
      · rw [rendered, List.flatMap_cons, List.length_append, ← Nat.add_assoc]
        exact hlen

/-- Pieces whose text fits the counter: what `printf` returns. -/
lemma printf_returns {fmt : ℕ} {ps : List Piece} (hfmt : FormatAt mem fmt ps)
    (hargs : Matches mem args 0 ps) (hlen : (rendered ps).length < 2 ^ 31) :
    ∃ r, Returns (printf mem args fmt) r ∧ r.sent = rendered ps ∧
      (∀ i, i ∈ r.out.written ↔ i ≤ (rendered ps).length) ∧
      Segment.At r.out.bytes 0 (rendered ps ++ [0#8]) := by
  obtain ⟨N, hN⟩ := vsprintf_returns Buffer.zero.bytes hfmt hargs
  have hprints : Prints _ (rendered ps) _ := @prints_finish fmt ps Buffer.zero.bytes hlen
  generalize (ps.foldl State.after (State.init Buffer.zero.bytes fmt)).look.finish = r
    at hN hprints
  refine ⟨_, ⟨N, fun fuel hfuel => by rw [printf, hN fuel hfuel]; rfl⟩, ?_, hprints.written,
    hprints.chars⟩
  have hmap := ((Segment.at_append _ _ _ _).mp hprints.chars).1.eq_map
  simp only [Nat.zero_add] at hmap
  show (List.range r.ret.toInt.toNat).map _ = _
  rw [hprints.ret, Int.toNat_natCast]
  exact hmap.symm

/-- **`printf` stays inside of its buffer exactly when the text is shorter than the buffer.** -/
theorem printf_inside_iff (mem : Mem) (args : ℕ → BitVec 64) (fmt : ℕ) :
    (∃ r, Returns (printf mem args fmt) r ∧ Inside r) ↔
      ∃ ps, FormatAt mem fmt ps ∧ Matches mem args 0 ps ∧ (rendered ps).length < bufSize := by
  have hsize : bufSize < 2 ^ 31 := by decide
  constructor
  · rintro ⟨r, ⟨N, hN⟩, hr⟩
    have hret := hN N (Nat.le_refl _)
    rw [printf, Option.map_eq_some_iff] at hret
    obtain ⟨v, hv, rfl⟩ := hret
    rw [vsprintf, Option.map_eq_some_iff] at hv
    obtain ⟨st, hst, rfl⟩ := hv
    obtain ⟨ps, hfmt, hargs, hlen⟩ :=
      pieces_of_loop N (State.init _ fmt) st 0 hst rfl (Nat.zero_le _) hr.bounds
    exact ⟨ps, hfmt, hargs, by rwa [Nat.zero_add] at hlen⟩
  · rintro ⟨ps, hfmt, hargs, hlen⟩
    obtain ⟨r, hr, hsent, hwritten, hchars⟩ := printf_returns hfmt hargs (Nat.lt_trans hlen hsize)
    refine ⟨r, hr, ?_, ?_, ?_⟩
    · intro i hi
      exact Nat.lt_of_le_of_lt ((hwritten i).mp hi) hlen
    · rw [hsent]
      exact hwritten
    · rw [hsent]
      exact hchars

end Inside

/-- The format `"%s"` with a string of 1024 characters: its `NUL` is stored behind the buffer. -/
theorem printf_past_buffer :
    let mem : Mem := fun a => if a = 16 then ch '%' else if a = 17 then ch 's'
      else if 1024 ≤ a ∧ a < 2048 then ch 'a' else 0#8
    StringAt (some (mem, 16)) [ch '%', ch 's'] ∧
      StringAt (charPtr mem 1024) (List.replicate 1024 (ch 'a')) ∧
      ¬∃ r, Returns (printf mem (fun _ => 1024#64) 16) r ∧ Inside r := by
  intro mem
  have hat : Segment.At mem 16 [ch '%', ch 's', 0#8] := ⟨rfl, rfl, rfl, trivial⟩
  have hstr : StringAt (charPtr mem 1024) (List.replicate 1024 (ch 'a')) := by
    refine ⟨?_, fun c hc => ?_⟩
    · rw [Segment.at_append, Segment.at_singleton, Segment.at_iff_get]
      refine ⟨fun k hk => ?_, by rw [List.length_replicate]; rfl⟩
      rw [List.length_replicate] at hk
      rw [List.getElem_replicate]
      show ite _ _ _ = _
      rw [if_neg (by omega), if_neg (by omega), if_pos (by omega)]
    · rw [List.eq_of_mem_replicate hc]
      decide
  refine ⟨⟨hat, by decide⟩, hstr, ?_⟩
  rintro ⟨r, hr, hin⟩
  have htext : (rendered [.str (List.replicate 1024 (ch 'a'))]).length = bufSize := by
    rw [rendered, List.flatMap_singleton, Piece.text, List.length_replicate, bufSize]
  have hfmt : FormatAt mem 16 [.str (List.replicate 1024 (ch 'a'))] := hat
  have hargs : Matches mem (fun _ => 1024#64) 0 [.str (List.replicate 1024 (ch 'a'))] :=
    ⟨hstr, trivial⟩
  obtain ⟨r', hr', -, hwritten, -⟩ := printf_returns hfmt hargs (by rw [htext]; decide)
  rw [hr.unique hr'] at hin
  have hlast := hin.bounds bufSize ((hwritten bufSize).mpr (Nat.le_of_eq htext.symm))
  exact absurd hlast (Nat.lt_irrefl _)

end Riscv64Cpu.Klib
