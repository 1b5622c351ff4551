import Riscv64Cpu.Pipeline.Drain

set_option relaxedAutoImplicit false
set_option autoImplicit false

/-!
# CSR values that nobody looks at

Decode reads two CSRs for every instruction, whatever the word means.  Only a CSR instruction
uses the first value and only `mret` the second; the normal form of a stage register clears the
values that are not used.  Two stage registers with the same normal form do the same.

## Main definitions

* `Pipeline.RegE.norm`, `RegM.norm`, `RegW.norm` — the normal forms.

## Main results

* `Pipeline.RegE.norm_latch_decode` — what decode has to agree on.
* `Pipeline.RegM.norm_latch_congr`, `RegW.norm_latch_congr` — equal normal forms stay equal down
  the pipeline.
* `Pipeline.redirect_congr`, `memWriteCall_congr`, `RegW.regWrite_congr`, `commit_congr` — equal
  normal forms redirect, store, write and commit the same.
-/

namespace Riscv64Cpu.Pipeline

open Verilog (bit)

/-! ## Normal forms -/

/-- `regE` without the CSR values its instruction does not use. -/
def RegE.norm (e : RegE) : RegE :=
  { e with
    csrRdata1 := if e.opCsrrw then e.csrRdata1 else 0#64
    csrRdata2 := if e.mret then e.csrRdata2 else 0#64 }

/-- `regM` without the CSR value its instruction does not use. -/
def RegM.norm (m : RegM) : RegM :=
  { m with csrRdata1 := if selCsrRdata m.opcodeInfo then m.csrRdata1 else 0#64 }

/-- `regW` without the CSR value its instruction does not use. -/
def RegW.norm (w : RegW) : RegW :=
  { w with csrRdata1 := if selCsrRdata w.opcodeInfo then w.csrRdata1 else 0#64 }

/-- What does not look at the values that a normal form clears is the same for two registers
with the same normal form. -/
lemma congr_of_norm {A B : Type} {n : A → A} {a a' : A} (f : A → B) (h : n a = n a')
    (hf : ∀ a, f (n a) = f a) : f a = f a' := by
  rw [← hf a, h, hf a']

/-- Two decoders that see the same word and the same operands produce the same normal form,
when the CSRs agree as far as the instruction reads them. -/
theorem RegE.norm_latch_decode {b b' : Bypass} {rf rf' : Regfile} {cf cf' : Csrfile}
    {w : BitVec 32} (pc : BitVec 64) (ci : BitVec 161)
    (h1 : (decode b rf cf w).regdata1 = (decode b' rf' cf' w).regdata1)
    (h2 : (decode b rf cf w).regdata2 = (decode b' rf' cf' w).regdata2)
    (hc : instCsrInstr w = true → cf.read (csrRid1 w) = cf'.read (csrRid1 w))
    (hm : instMret w = true → cf.read (csrRid2 w) = cf'.read (csrRid2 w)) :
    (RegE.latch (decode b rf cf w) pc ci).norm = (RegE.latch (decode b' rf' cf' w) pc ci).norm := by
  have hcsr : ∀ b rf cf, (RegE.latch (decode b rf cf w) pc ci).opCsrrw = instCsrInstr w :=
    fun _ _ _ => opcodeInfo_csrInstr w
  have hmret : ∀ b rf cf, (RegE.latch (decode b rf cf w) pc ci).mret = instMret w :=
    fun _ _ _ => by simp [RegE.latch, decode, RegE.mret, decodeSystemInfo]
  have e1 : (if instCsrInstr w then cf.read (csrRid1 w) else 0#64) =
      if instCsrInstr w then cf'.read (csrRid1 w) else 0#64 := by
    split_ifs with h
    · exact hc h
    · rfl
  have e2 : (if instMret w then cf.read (csrRid2 w) else 0#64) =
      if instMret w then cf'.read (csrRid2 w) else 0#64 := by
    split_ifs with h
    · exact hm h
    · rfl
  unfold RegE.norm
  rw [hcsr, hcsr, hmret, hmret]
  simp only [RegE.latch, h1, h2]
  simp only [decode, e1, e2]

section Execute

variable (e : RegE)

/-- The arithmetic unit uses the CSR value for a CSR instruction only. -/
lemma executeAluResult_norm : executeAluResult e.norm = executeAluResult e := by
  have h1 : aluSrc1 e.norm = aluSrc1 e := rfl
  have h2 : aluSrc2 e.norm = aluSrc2 e := by
    have hsrc : (if e.norm.opCsrrw then e.norm.csrRdata1 else 0#64) =
        if e.opCsrrw then e.csrRdata1 else 0#64 := by
      show (if e.opCsrrw then (if e.opCsrrw then e.csrRdata1 else 0#64) else 0#64) = _
      split_ifs <;> rfl
    rw [aluSrc2, aluSrc2, hsrc]
    rfl
  rw [executeAluResult, h1, h2]
  rfl

/-- Branches do not look at CSR values. -/
lemma executeBranchNextPc_norm : executeBranchNextPc e.norm = executeBranchNextPc e := by
  rw [executeBranchNextPc, executeAluResult_norm]
  rfl

/-- The commit information uses the second CSR value for `mret` only. -/
private lemma executeCommitInfo_norm : executeCommitInfo e.norm = executeCommitInfo e := by
  rw [executeCommitInfo, executeBranchNextPc_norm, executeCommitInfo]
  show (if executeBranchNeedJump e then _ else if e.mret then
    commitInfo _ _ (if e.mret then e.csrRdata2 else 0#64) _ else _) = _
  split_ifs <;> rfl

/-- What `regM` samples depends on the normal form of `regE`. -/
lemma RegM.norm_latch :
    (RegM.latch e.norm (execute e.norm)).norm = (RegM.latch e (execute e)).norm := by
  simp only [RegM.latch, RegM.norm, execute, executeAluResult_norm, executeCommitInfo_norm]
  have hc : (if selCsrRdata e.norm.opcodeInfo then e.norm.csrRdata1 else 0#64) =
      if selCsrRdata e.opcodeInfo then e.csrRdata1 else 0#64 := by
    show (if e.opCsrrw then (if e.opCsrrw then e.csrRdata1 else 0#64) else 0#64) =
      if e.opCsrrw then e.csrRdata1 else 0#64
    split_ifs <;> rfl
  rw [hc]
  rfl

end Execute

/-- Equal normal forms in execute stay equal in memory. -/
theorem RegM.norm_latch_congr {e e' : RegE} (h : e.norm = e'.norm) :
    (RegM.latch e (execute e)).norm = (RegM.latch e' (execute e')).norm :=
  congr_of_norm (fun r => (RegM.latch r (execute r)).norm) h RegM.norm_latch

/-- Equal normal forms in execute decide the same about redirects. -/
theorem redirect_congr {e e' : RegE} (h : e.norm = e'.norm) :
    e.mret = e'.mret ∧ executeBranchNeedJump e = executeBranchNeedJump e' ∧
      executeBranchNextPc e = executeBranchNextPc e' ∧
      (e.mret = true → e.csrRdata2 = e'.csrRdata2) := by
  have hm : e.mret = e'.mret := congr_of_norm RegE.mret h fun _ => rfl
  refine ⟨hm, congr_of_norm executeBranchNeedJump h fun _ => rfl,
    congr_of_norm executeBranchNextPc h executeBranchNextPc_norm, fun he => ?_⟩
  · have hc : (if e.mret then e.csrRdata2 else 0#64) = if e'.mret then e'.csrRdata2 else 0#64 :=
      congrArg RegE.csrRdata2 h
    have he' : e'.mret = true := hm ▸ he
    rwa [if_pos he, if_pos he'] at hc

section Memory

variable {M : Type} (dpi : Dpi M) (mem : M)

/-- What `regW` samples depends on the normal form of `regM`. -/
theorem RegW.norm_latch_congr {m m' : RegM} (h : m.norm = m'.norm) :
    (RegW.latch m (memory dpi mem m)).norm = (RegW.latch m' (memory dpi mem m')).norm := by
  have hn : ∀ r : RegM, (RegW.latch r (memory dpi mem r)).norm =
      RegW.latch r.norm (memory dpi mem r.norm) := fun _ => rfl
  rw [hn, hn, h]

/-- Equal normal forms in memory store the same. -/
theorem memWriteCall_congr {m m' : RegM} (h : m.norm = m'.norm) :
    memWriteCall m = memWriteCall m' :=
  congr_of_norm memWriteCall h fun _ => rfl

end Memory

/-- Equal normal forms in write back write the same. -/
theorem RegW.regWrite_congr {w w' : RegW} (h : w.norm = w'.norm) : w.regWrite = w'.regWrite := by
  refine congr_of_norm RegW.regWrite h fun r => ?_
  have hc : ∀ x, (if bit r.norm.opcodeInfo 12 then r.norm.csrRdata1 else x) =
      if bit r.opcodeInfo 12 then r.csrRdata1 else x := by
    intro x
    show (if bit r.opcodeInfo 12 then
      (if bit r.opcodeInfo 12 then r.csrRdata1 else 0#64) else x) = _
    split_ifs <;> rfl
  have hw : wbRegWdata r.norm = wbRegWdata r := by
    rw [wbRegWdata, hc]
    rfl
  rw [regWrite, regWrite, hw]
  rfl

/-- Equal normal forms in write back commit the same. -/
theorem commit_congr {w w' : RegW} (h : w.norm = w'.norm) : commit w = commit w' :=
  congr_of_norm commit h fun _ => rfl

end Riscv64Cpu.Pipeline
