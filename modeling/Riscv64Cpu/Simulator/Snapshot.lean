import Riscv64Cpu.Memory.Pmem
import Mathlib.Data.List.OfFn

set_option relaxedAutoImplicit false
set_option autoImplicit false

/-!
# Snapshots

`snapshot.c` writes the state of the processor and the memory to a file, one after the other, and
reads them back in the same order, straight into the live structures.

## Main definitions

* `Simulator.Block` — the bytes of an object.
* `Simulator.fread`, `fwrite` — the library functions on a file.
* `Simulator.takeArchSnapshot`, `restoreArchSnapshot` — the two functions.
* `Simulator.AllOrNothing` — what a restore owes.

## Main results

* `Simulator.takeArchSnapshot_true`, `restoreArchSnapshot_take` — a complete snapshot.
* `Simulator.allOrNothing_iff` — the files that are restored or leave everything as it was.

## Design

`fread` stores the bytes it could read.  A disk takes a number of bytes before it is full.
-/

namespace Riscv64Cpu.Simulator

open Memory (configMsize)

/-! ## Files -/

/-- The bytes of an object of size `n`. -/
abbrev Block (n : ℕ) := Fin n → BitVec 8

/-- `sizeof(CPU_state)`: 32 registers, the pc and 4096 CSRs. -/
def sizeofCpuState : ℕ := 8 * (32 + 1 + 4096)

/-- The result of `fread`: the number of items read, the object and the rest of the file. -/
structure ReadResult (n : ℕ) where
  items : ℕ
  dst : Block n
  rest : List (BitVec 8)

/-- `fread` of items of `size` bytes into an object of `n` bytes. -/
def fread {n : ℕ} (dst : Block n) (size : ℕ) (file : List (BitVec 8)) : ReadResult n where
  items := min n file.length / size
  dst := fun i => if h : i.val < file.length then file[i.val] else dst i
  rest := file.drop n

/-- `fwrite` of an object of `n` bytes in items of `size` bytes, when the disk has room for `room`
bytes: the number of items written and the bytes in the file. -/
def fwrite {n : ℕ} (src : Block n) (size room : ℕ) : ℕ × List (BitVec 8) :=
  (min n room / size, (List.ofFn src).take room)

/-! ## The two functions -/

/-- `take_arch_snapshot`: the returned flag and the file.  `disk` is `none` when the file cannot be
opened, and otherwise the number of bytes that the disk can take. -/
def takeArchSnapshot (disk : Option ℕ) (state : Block sizeofCpuState) (mem : Block configMsize)
    (old : Option (List (BitVec 8))) : Bool × Option (List (BitVec 8)) :=
  match disk with
  | none => (false, old)
  | some room =>
    let w1 := fwrite state sizeofCpuState room
    if w1.1 ≠ 1 then (false, some w1.2)
    else
      let w2 := fwrite mem 1 (room - sizeofCpuState)
      if w2.1 ≠ configMsize then (false, some (w1.2 ++ w2.2)) else (true, some (w1.2 ++ w2.2))

/-- The result of `restore_arch_snapshot`: the returned flag, `*state` and `mem`. -/
structure Restored where
  ok : Bool
  state : Block sizeofCpuState
  mem : Block configMsize

/-- `restore_arch_snapshot`.  The file is `none` when it cannot be opened. -/
def restoreArchSnapshot (file : Option (List (BitVec 8))) (state : Block sizeofCpuState)
    (mem : Block configMsize) : Restored :=
  match file with
  | none => ⟨false, state, mem⟩
  | some bytes =>
    let r1 := fread state sizeofCpuState bytes
    if r1.items ≠ 1 then ⟨false, r1.dst, mem⟩
    else
      let r2 := fread mem 1 r1.rest
      if r2.items ≠ configMsize then ⟨false, r1.dst, r2.dst⟩ else ⟨true, r1.dst, r2.dst⟩

/-- The bytes of a complete snapshot. -/
def snapshotBytes (state : Block sizeofCpuState) (mem : Block configMsize) : List (BitVec 8) :=
  List.ofFn state ++ List.ofFn mem

/-! ## Reading and writing -/

/-- One item of `n` bytes is complete when there are `n` bytes. -/
lemma one_item_iff {n k : ℕ} (hn : 0 < n) : min n k / n = 1 ↔ n ≤ k := by
  constructor
  · intro h
    by_contra hlt
    rw [Nat.min_eq_right (by omega), Nat.div_eq_of_lt (by omega)] at h
    exact absurd h (by decide)
  · intro h
    rw [Nat.min_eq_left h, Nat.div_self hn]

/-- `n` items of one byte are complete when there are `n` bytes. -/
lemma all_bytes_iff {n k : ℕ} : min n k / 1 = n ↔ n ≤ k := by
  rw [Nat.div_one]
  exact ⟨fun h => h ▸ Nat.min_le_right n k, Nat.min_eq_left⟩

section Blocks

variable {n : ℕ} (b : Block n) (file : List (BitVec 8))

/-- A byte that the file has is read. -/
lemma dst_of_lt (size : ℕ) {i : ℕ} (h : i < n) (h' : i < file.length) :
    (fread b size file).dst ⟨i, h⟩ = file[i] :=
  dif_pos h'

/-- Behind the end of the file the buffer is left as it is. -/
private lemma dst_of_le (size : ℕ) {i : ℕ} (h : i < n) (h' : file.length ≤ i) :
    (fread b size file).dst ⟨i, h⟩ = b ⟨i, h⟩ :=
  dif_neg (Nat.not_lt.mpr h')

/-- A read of one item succeeds when the file has enough bytes. -/
lemma items_one (hn : 0 < n) : (fread b n file).items = 1 ↔ n ≤ file.length :=
  one_item_iff hn

/-- A read of `n` bytes succeeds when the file has as many. -/
lemma items_bytes : (fread b 1 file).items = n ↔ n ≤ file.length :=
  all_bytes_iff

/-- A read changes nothing when the bytes read are there already. -/
lemma dst_eq_iff (size : ℕ) : (fread b size file).dst = b ↔
    ∀ (i : ℕ) (h : i < n) (h' : i < file.length), file[i] = b ⟨i, h⟩ := by
  constructor
  · intro heq i h h'
    rw [← dst_of_lt b file size h h', heq]
  · rintro hall
    funext ⟨i, h⟩
    rcases Nat.lt_or_ge i file.length with h' | h'
    · rw [dst_of_lt b file size h h', hall i h h']
    · rw [dst_of_le b file size h h']

/-- A complete read takes the first `n` bytes of the file. -/
lemma ofFn_dst (size : ℕ) (h : n ≤ file.length) :
    List.ofFn (fread b size file).dst = file.take n := by
  refine List.ext_getElem (by simp [h]) fun i hi _ => ?_
  rw [List.length_ofFn] at hi
  rw [List.getElem_ofFn, List.getElem_take, dst_of_lt b file size hi (by omega)]

/-- The number of items that fit. -/
lemma fwrite_items (size room : ℕ) : (fwrite b size room).1 = min n room / size := rfl

/-- A write succeeds when the disk has room. -/
lemma fwrite_eq (size room : ℕ) (h : n ≤ room) :
    fwrite b size room = (n / size, List.ofFn b) := by
  rw [fwrite, Nat.min_eq_left h, List.take_of_length_le (by rwa [List.length_ofFn])]

end Blocks

/-! ## Snapshots -/

section Snapshots

variable (state : Block sizeofCpuState) (mem : Block configMsize)

/-- The state has a byte. -/
lemma sizeofCpuState_pos : 0 < sizeofCpuState := by decide

/-- The length of a snapshot. -/
private lemma length_snapshotBytes :
    (snapshotBytes state mem).length = sizeofCpuState + configMsize := by
  rw [snapshotBytes, List.length_append, List.length_ofFn, List.length_ofFn]

/-- **A complete snapshot**: what `take_arch_snapshot` has stored when it returns true. -/
theorem takeArchSnapshot_true {disk : Option ℕ} {old file : Option (List (BitVec 8))}
    (h : takeArchSnapshot disk state mem old = (true, file)) :
    file = some (snapshotBytes state mem) := by
  cases disk with
  | none => cases h
  | some room =>
    simp only [takeArchSnapshot] at h
    split_ifs at h with h1 h2
    · cases h
    · cases h
    · rw [ne_eq, not_not, fwrite_items, one_item_iff sizeofCpuState_pos] at h1
      rw [ne_eq, not_not, fwrite_items, all_bytes_iff] at h2
      rw [fwrite_eq state _ _ h1, fwrite_eq mem _ _ h2] at h
      simp only [Prod.mk.injEq, true_and] at h
      rw [snapshotBytes, h]

/-- What `restore_arch_snapshot` owes: when it returns false the structures are as they were, and
when it returns true they are those stored in the file, which for a file of
`take_arch_snapshot` are the ones it was given. -/
structure AllOrNothing (file : Option (List (BitVec 8))) : Prop where
  failed : (restoreArchSnapshot file state mem).ok = false →
    (restoreArchSnapshot file state mem).state = state ∧
      (restoreArchSnapshot file state mem).mem = mem
  restored : (restoreArchSnapshot file state mem).ok = true →
    ∃ rest, file = some (snapshotBytes (restoreArchSnapshot file state mem).state
      (restoreArchSnapshot file state mem).mem ++ rest)
  taken : ∀ disk old state₀ mem₀, takeArchSnapshot disk state₀ mem₀ old = (true, file) →
    restoreArchSnapshot file state mem = ⟨true, state₀, mem₀⟩

variable {bytes : List (BitVec 8)}

/-- A file that ends within the state. -/
lemma restoreArchSnapshot_short (h : bytes.length < sizeofCpuState) :
    restoreArchSnapshot (some bytes) state mem =
      ⟨false, (fread state sizeofCpuState bytes).dst, mem⟩ := by
  have h1 : (fread state sizeofCpuState bytes).items ≠ 1 := by
    rw [ne_eq, items_one _ _ sizeofCpuState_pos]
    omega
  rw [restoreArchSnapshot]
  exact if_pos h1

/-- A file that ends within the memory. -/
private lemma restoreArchSnapshot_truncated (h : sizeofCpuState ≤ bytes.length)
    (h' : bytes.length < sizeofCpuState + configMsize) :
    restoreArchSnapshot (some bytes) state mem =
      ⟨false, (fread state sizeofCpuState bytes).dst,
        (fread mem 1 (bytes.drop sizeofCpuState)).dst⟩ := by
  have h1 : ¬ (fread state sizeofCpuState bytes).items ≠ 1 :=
    not_not.mpr ((items_one _ _ sizeofCpuState_pos).mpr h)
  have h2 : (fread mem 1 (bytes.drop sizeofCpuState)).items ≠ configMsize := by
    rw [ne_eq, items_bytes, List.length_drop]
    omega
  rw [restoreArchSnapshot]
  exact (if_neg h1).trans (if_pos h2)

/-- A complete file. -/
lemma restoreArchSnapshot_complete (h : sizeofCpuState + configMsize ≤ bytes.length) :
    restoreArchSnapshot (some bytes) state mem =
      ⟨true, (fread state sizeofCpuState bytes).dst,
        (fread mem 1 (bytes.drop sizeofCpuState)).dst⟩ := by
  have h1 : ¬ (fread state sizeofCpuState bytes).items ≠ 1 :=
    not_not.mpr ((items_one _ _ sizeofCpuState_pos).mpr (by omega))
  have h2 : ¬ (fread mem 1 (bytes.drop sizeofCpuState)).items ≠ configMsize := by
    rw [not_not, items_bytes, List.length_drop]
    omega
  rw [restoreArchSnapshot]
  exact (if_neg h1).trans (if_neg h2)

/-- A complete file is restored. -/
lemma bytes_of_complete (h : sizeofCpuState + configMsize ≤ bytes.length) :
    bytes = snapshotBytes (restoreArchSnapshot (some bytes) state mem).state
      (restoreArchSnapshot (some bytes) state mem).mem ++
        bytes.drop (sizeofCpuState + configMsize) := by
  rw [restoreArchSnapshot_complete state mem h]
  have h1 := ofFn_dst state bytes sizeofCpuState (by omega)
  have h2 := ofFn_dst mem (bytes.drop sizeofCpuState) 1 (by rw [List.length_drop]; omega)
  rw [snapshotBytes, h1, h2, List.append_assoc, ← List.drop_drop, List.take_append_drop,
    List.take_append_drop]

/-- A snapshot determines the structures it holds. -/
private lemma snapshotBytes_injective {s s' : Block sizeofCpuState} {m m' : Block configMsize}
    {rest : List (BitVec 8)} (h : snapshotBytes s m = snapshotBytes s' m' ++ rest) :
    s = s' ∧ m = m' := by
  rw [snapshotBytes, snapshotBytes, List.append_assoc] at h
  obtain ⟨hs, hm⟩ := List.append_inj h (by rw [List.length_ofFn, List.length_ofFn])
  have hrest : rest = [] := by
    have hlen := congrArg List.length hm
    rw [List.length_append, List.length_ofFn, List.length_ofFn] at hlen
    exact List.eq_nil_of_length_eq_zero (by omega)
  rw [hrest, List.append_nil] at hm
  exact ⟨List.ofFn_injective hs, List.ofFn_injective hm⟩

/-- **A snapshot is restored**: the structures are those that were taken, whatever was in them. -/
theorem restoreArchSnapshot_take {disk : Option ℕ} {old file : Option (List (BitVec 8))}
    {s : Block sizeofCpuState} {m : Block configMsize}
    (h : takeArchSnapshot disk s m old = (true, file)) :
    restoreArchSnapshot file state mem = ⟨true, s, m⟩ := by
  rw [takeArchSnapshot_true s m h]
  have hlen : sizeofCpuState + configMsize ≤ (snapshotBytes s m).length := by
    rw [length_snapshotBytes]
  have hbytes := bytes_of_complete state mem hlen
  obtain ⟨hs, hm⟩ := snapshotBytes_injective hbytes
  have hok : (restoreArchSnapshot (some (snapshotBytes s m)) state mem).ok = true := by
    rw [restoreArchSnapshot_complete state mem hlen]
  generalize restoreArchSnapshot (some (snapshotBytes s m)) state mem = r at hs hm hok
  obtain ⟨ok, s', m'⟩ := r
  rw [hs, hm, ← hok]

/-- The byte of a snapshot at index `i`. -/
lemma snapshotBytes_state {i : ℕ} (h : i < sizeofCpuState) :
    (snapshotBytes state mem)[i]? = some (state ⟨i, h⟩) := by
  rw [snapshotBytes, List.getElem?_append_left (by rwa [List.length_ofFn]), List.getElem?_ofFn,
    dif_pos h]

/-- The memory lies behind the state. -/
lemma snapshotBytes_mem {i : ℕ} (h : i < configMsize) :
    (snapshotBytes state mem)[sizeofCpuState + i]? = some (mem ⟨i, h⟩) := by
  rw [snapshotBytes, List.getElem?_append_right (by rw [List.length_ofFn]; omega), List.length_ofFn,
    Nat.add_sub_cancel_left, List.getElem?_ofFn, dif_pos h]

/-- Reading a truncated file changes nothing when it is the beginning of a snapshot of the live
structures. -/
private lemma prefix_snapshotBytes_iff (hlen : bytes.length ≤ sizeofCpuState + configMsize) :
    bytes <+: snapshotBytes state mem ↔ (fread state sizeofCpuState bytes).dst = state ∧
      (fread mem 1 (bytes.drop sizeofCpuState)).dst = mem := by
  rw [List.prefix_iff_getElem?, dst_eq_iff, dst_eq_iff]
  constructor
  · intro h
    constructor
    · intro i hi hi'
      have := h i hi'
      rw [snapshotBytes_state state mem hi] at this
      exact (Option.some.inj this).symm
    · intro i hi hi'
      rw [List.length_drop] at hi'
      have := h (sizeofCpuState + i) (by omega)
      rw [snapshotBytes_mem state mem hi] at this
      rw [List.getElem_drop]
      exact (Option.some.inj this).symm
  · rintro ⟨hs, hm⟩ i hi
    rcases Nat.lt_or_ge i sizeofCpuState with hlt | hge
    · rw [snapshotBytes_state state mem hlt, hs i hlt hi]
    · obtain ⟨k, rfl⟩ := Nat.exists_eq_add_of_le hge
      have hk := hm k (by omega) (by rw [List.length_drop]; omega)
      rw [List.getElem_drop] at hk
      rw [snapshotBytes_mem state mem (by omega), hk]

/-- A file that does not hold a complete snapshot is rejected; the structures are as they were if
and only if it is the beginning of a snapshot of them. -/
private lemma rejected_unchanged_iff (h : bytes.length < sizeofCpuState + configMsize) :
    (restoreArchSnapshot (some bytes) state mem).ok = false ∧
      ((restoreArchSnapshot (some bytes) state mem).state = state ∧
        (restoreArchSnapshot (some bytes) state mem).mem = mem ↔
        bytes <+: snapshotBytes state mem) := by
  rw [prefix_snapshotBytes_iff state mem (Nat.le_of_lt h)]
  rcases Nat.lt_or_ge bytes.length sizeofCpuState with hshort | hlong
  · rw [restoreArchSnapshot_short state mem hshort]
    have hdrop : bytes.drop sizeofCpuState = [] := List.drop_eq_nil_of_le (Nat.le_of_lt hshort)
    have hmem : (fread mem 1 (bytes.drop sizeofCpuState)).dst = mem := by
      rw [dst_eq_iff]
      intro i hi hi'
      rw [hdrop] at hi'
      exact absurd hi' (Nat.not_lt_zero i)
    exact ⟨rfl, ⟨fun h => ⟨h.1, hmem⟩, fun h => ⟨h.1, rfl⟩⟩⟩
  · rw [restoreArchSnapshot_truncated state mem hlong h]
    exact ⟨rfl, Iff.rfl⟩

/-- **The files that are restored or leave everything as it was**: no file, a complete one, or the
beginning of a snapshot of the live structures (the empty file is one).

**Proof sketch.** A file that is too short is rejected after the bytes it does hold have been
stored over the live structures, so nothing changes if and only if they are there already. -/
theorem allOrNothing_iff (file : Option (List (BitVec 8))) :
    AllOrNothing state mem file ↔ file = none ∨ ∃ bytes, file = some bytes ∧
      (sizeofCpuState + configMsize ≤ bytes.length ∨ bytes <+: snapshotBytes state mem) := by
  cases file with
  | none =>
    refine iff_of_true ⟨fun _ => ⟨rfl, rfl⟩, fun h => ?_, fun _ _ _ _ h => ?_⟩ (.inl rfl)
    · cases h
    · exact restoreArchSnapshot_take state mem h
  | some bytes =>
    rcases Nat.lt_or_ge bytes.length (sizeofCpuState + configMsize) with hlt | hge
    · obtain ⟨hok, hiff⟩ := rejected_unchanged_iff state mem hlt
      constructor
      · exact fun h => .inr ⟨bytes, rfl, .inr (hiff.mp (h.failed hok))⟩
      · rintro (h | ⟨bytes', h, hcond⟩)
        · cases h
        · cases h
          have hprefix : bytes <+: snapshotBytes state mem :=
            hcond.resolve_left (Nat.not_le_of_lt hlt)
          refine ⟨fun _ => hiff.mpr hprefix, fun h => ?_, fun _ _ _ _ h => ?_⟩
          · rw [hok] at h
            exact absurd h Bool.false_ne_true
          · exact restoreArchSnapshot_take state mem h
    · refine iff_of_true ⟨fun h => ?_, fun _ => ?_, fun _ _ _ _ h => ?_⟩
        (.inr ⟨bytes, rfl, .inl hge⟩)
      · rw [restoreArchSnapshot_complete state mem hge] at h
        exact absurd h.symm Bool.false_ne_true
      · exact ⟨_, congrArg some (bytes_of_complete state mem hge)⟩
      · exact restoreArchSnapshot_take state mem h

/-- A file of one byte: the restore fails, and the byte is in the state. -/
theorem truncated_changes_state :
    ¬ ∀ (state : Block sizeofCpuState) (mem : Block configMsize)
      (file : Option (List (BitVec 8))), AllOrNothing state mem file := by
  intro h
  have hfile := h (fun _ => 0#8) (fun _ => 0#8) (some [1#8])
  have hshort : [1#8].length < sizeofCpuState := by decide
  have hr := restoreArchSnapshot_short (fun _ => 0#8) (fun _ => 0#8) hshort
  have hfailed := hfile.failed (by rw [hr])
  rw [hr] at hfailed
  have hbyte : (fread (fun _ => 0#8) sizeofCpuState [1#8]).dst ⟨0, sizeofCpuState_pos⟩ = 0#8 :=
    congrFun hfailed.1 ⟨0, sizeofCpuState_pos⟩
  rw [dst_of_lt _ _ _ sizeofCpuState_pos (by decide)] at hbyte
  exact absurd hbyte (by decide)

end Snapshots

end Riscv64Cpu.Simulator
