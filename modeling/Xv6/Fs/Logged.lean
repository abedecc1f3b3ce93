import Xv6.Fs.Format
import Xv6.Fs.Dir
import Xv6.Lib.Traced

/-! The code of a file with its calls of `log_write`. The results are those on the blocks
themselves; the trace is the list of the blocks passed to `log_write`, in order, also of a function
that panics. -/
namespace Xv6.Fs

open Lib (Traced Few)

abbrev Logged := Traced ℕ String

namespace Logged
variable (sb : DiskSb)

def logWrite (b : ℕ) : Logged Unit := Traced.emit b

def balloc (st : Store) : Logged (ℕ×Store) :=
  match (List.range sb.size).find? fun b => !st.bitmap b with
  | some b => do
    logWrite (sb.BBLOCK b)
    -- bzero
    logWrite b
    return (b,({ st with bitmap := Function.update st.bitmap b true } : Store).setBlock b fun _ => 0)
  | none => return (0,st)

def bfree (b : ℕ) (st : Store) : Logged Store :=
  if st.bitmap b then do
    logWrite (sb.BBLOCK b)
    return { st with bitmap := Function.update st.bitmap b false }
  else Traced.fail "freeing free block"

/-- `itrunc` up to its `iupdate`. -/
def itrunc (x : Data Store) : Logged (Data Store) :=
  Blocks.itrunc (fun b st => pure (st.block b,st)) (bfree sb) x

end Logged

/-- The blocks of the disk, and the trace of `log_write`. -/
def DiskSb.logged (sb : DiskSb) : Blocks Logged Store where
  balloc := Logged.balloc sb
  bread b st := pure (st.block b,st)
  store b v st := pure (st.setBlock b v)
  logWrite b st := do
    Logged.logWrite b
    return st
  panic := Traced.fail

namespace Logged
variable (sb : DiskSb)

/-! The results are those of the functions without `log_write`. -/

lemma balloc_result (st : Store) : (balloc sb st).result = .ok (st.balloc sb) := by
  unfold balloc Store.balloc
  cases List.find? (fun b => !st.bitmap b) (List.range sb.size) with
  | none => rfl
  | some b => rfl

lemma bfree_result (b : ℕ) (st : Store) : (bfree sb b st).result = st.bfree b := by
  unfold bfree Store.bfree
  split <;> rfl

lemma addr_result (x : Data Store) (j : Fin (NDIRECT+1)) :
    (sb.logged.addr x j).result = sb.blocks.addr x j := by
  unfold Blocks.addr
  split
  · refine Traced.result_bind (balloc_result sb x.st) fun r => ?_
    dsimp only
    split <;> rfl
  · rfl

lemma entry_result (x : Data Store) (ind j : ℕ) :
    (sb.logged.entry x ind j).result = sb.blocks.entry x ind j := by
  unfold Blocks.entry
  refine Traced.result_bind rfl fun r => ?_
  dsimp only
  split
  · refine Traced.result_bind (balloc_result sb _) fun r => ?_
    split <;> rfl
  · rfl

lemma bmap_result (x : Data Store) (bn : ℕ) : (sb.logged.bmap x bn).result = sb.blocks.bmap x bn := by
  unfold Blocks.bmap
  split
  · exact addr_result sb x _
  · split
    · refine Traced.result_bind (addr_result sb x _) fun r => ?_
      dsimp only
      split
      · rfl
      · exact entry_result sb _ _ _
    · rfl

lemma freeAll_result (bs : List ℕ) (st : Store) :
    (Blocks.freeAll (bfree sb) bs st).result = Blocks.freeAll Store.bfree bs st := by
  induction bs generalizing st with
  | nil => rfl
  | cons b bs ih =>
    rw [Blocks.freeAll,Blocks.freeAll]
    split
    · exact ih st
    · exact Traced.result_bind (bfree_result sb b st) ih

lemma itrunc_result (x : Data Store) : (itrunc sb x).result = x.itrunc := by
  refine Traced.result_bind (freeAll_result sb _ x.st) fun st => ?_
  dsimp only
  split
  · rfl
  · refine Traced.result_bind rfl fun r => ?_
    refine Traced.result_bind (freeAll_result sb _ _) fun st => ?_
    exact Traced.result_bind (bfree_result sb _ st) fun st => rfl

lemma readLoop_result (out : ℕ → ℕ → Bool) (n fuel off : ℕ) (got : List UInt8) (x : Data Store) :
    (sb.logged.readLoop out n fuel off got x).result =
      sb.blocks.readLoop out n fuel off got x := by
  induction fuel generalizing off got x with
  | zero => rfl
  | succ fuel ih =>
    rw [Blocks.readLoop,Blocks.readLoop]
    split
    · refine Traced.result_bind (bmap_result sb x _) fun r => ?_
      dsimp only
      split
      · rfl
      · refine Traced.result_bind rfl fun r => ?_
        split
        · exact ih ..
        · rfl
    · rfl

lemma readi_result (out : ℕ → ℕ → Bool) (off n : ℕ) (x : Data Store) :
    (sb.logged.readi out off n x).result = sb.blocks.readi out off n x := by
  unfold Blocks.readi
  split
  · rfl
  · exact Traced.result_bind (readLoop_result sb ..) fun r => rfl

lemma writeLoop_result (src : ℕ → ℕ → List UInt8×Bool) (n fuel tot off : ℕ) (x : Data Store) :
    (sb.logged.writeLoop src n fuel tot off x).result =
      sb.blocks.writeLoop src n fuel tot off x := by
  induction fuel generalizing tot off x with
  | zero => rfl
  | succ fuel ih =>
    rw [Blocks.writeLoop,Blocks.writeLoop]
    split
    · refine Traced.result_bind (bmap_result sb x _) fun r => ?_
      dsimp only
      split
      · rfl
      · refine Traced.result_bind rfl fun r => ?_
        refine Traced.result_bind rfl fun st => ?_
        split
        · exact Traced.result_bind rfl fun st => ih ..
        · rfl
    · rfl

lemma writei_result (src : ℕ → ℕ → List UInt8×Bool) (off n : ℕ) (x : Data Store) :
    (sb.logged.writei src off n x).result = sb.blocks.writei src off n x := by
  unfold Blocks.writei
  split
  · rfl
  · split
    · rfl
    · exact Traced.result_bind (writeLoop_result sb ..) fun r => rfl

lemma readEntry_result (x : Data Store) (off : ℕ) (msg : String) :
    (sb.logged.readEntry x off msg).result = sb.blocks.readEntry x off msg := by
  refine Traced.result_bind (readi_result sb ..) fun r => ?_
  dsimp only
  split <;> rfl

lemma entryLoop_result {β : Type} (msg : String) (stop : Dirent → ℕ → Option β) (last : ℕ → β)
    (left off : ℕ) (x : Data Store) : (sb.logged.entryLoop msg stop last left off x).result =
      sb.blocks.entryLoop msg stop last left off x := by
  induction left generalizing off x with
  | zero => rfl
  | succ left ih =>
    rw [Blocks.entryLoop,Blocks.entryLoop]
    refine Traced.result_bind (readEntry_result sb x off msg) fun r => ?_
    dsimp only
    cases stop r.1 off with
    | some b => rfl
    | none => exact ih ..

lemma dirwrite_result (x : Data Store) (name : List UInt8) (inum : ℕ) :
    (sb.logged.dirwrite x name inum).result = sb.blocks.dirwrite x name inum :=
  Traced.result_bind (entryLoop_result sb ..) fun _ => writei_result ..

variable {sb} {x : Data Store}

/-! Reading a file without holes logs nothing. -/

lemma bmap_of_ptr {bn : ℕ} (hbn : bn < MAXFILE) (h0 : x.ptr (Data.dataPos bn) ≠ 0) :
    sb.logged.bmap x bn = pure (x.ptr (Data.dataPos bn),x) := by
  have hres := bmap_result sb x bn
  rw [Data.bmap_of_ptr hbn h0] at hres
  suffices h : (sb.logged.bmap x bn).trace = [] by
    generalize sb.logged.bmap x bn = y at h hres ⊢
    obtain ⟨l,r⟩ := y
    subst h hres
    rfl
  unfold Blocks.bmap
  by_cases hd : bn < NDIRECT
  · have hpos : Data.dataPos bn = .addr ⟨bn,Nat.lt_succ_of_lt hd⟩ := dif_pos hd
    rw [hpos] at h0
    have h0' : x.d.addrs ⟨bn,Nat.lt_succ_of_lt hd⟩ ≠ 0 := h0
    rw [dif_pos hd,Blocks.addr,if_neg h0']
    rfl
  · have hin : bn-NDIRECT < NINDIRECT := by simp only [MAXFILE] at hbn; omega
    have hpos : Data.dataPos bn = .entry ⟨bn-NDIRECT,hin⟩ := by
      simp only [Data.dataPos,hd,hin,dite_true,dite_false]
    rw [hpos] at h0
    have hi : x.d.ind ≠ 0 := fun hi => h0 (by simp [Data.ptr,Store.ptr,hi])
    have he : x.ptr (.entry ⟨bn-NDIRECT,hin⟩) = (x.st.block x.d.ind).word (bn-NDIRECT) := if_neg hi
    have ha : sb.logged.addr x (Fin.last NDIRECT) = pure (x.d.ind,x) := if_neg hi
    rw [he] at h0
    rw [dif_neg hd,if_pos hin,Traced.bind_of_pure ha]
    simp only [if_neg hi]
    exact (congrArg Traced.trace (if_neg h0)).trans rfl

lemma bmap_full (hf : x.Full) {off : ℕ} (h : off < x.d.size) :
    sb.logged.bmap x (off/BSIZE) = pure (x.ptr (Data.dataPos (off/BSIZE)),x) :=
  bmap_of_ptr (Data.block_lt (lt_of_lt_of_le h hf.size_le)) (Data.ptr_full hf off h)

lemma readLoop_trace (hf : x.Full) (out : ℕ → ℕ → Bool) (n fuel off : ℕ) (got : List UInt8)
    (h : off+(n-got.length) ≤ x.d.size) : (sb.logged.readLoop out n fuel off got x).trace = [] := by
  induction fuel generalizing off got with
  | zero => rfl
  | succ fuel ih =>
    rw [Blocks.readLoop]
    split
    · rename_i hlt
      rw [Traced.bind_of_pure (bmap_full hf (by omega))]
      simp only [if_neg (Data.ptr_full hf off (by omega))]
      split
      · refine ih _ _ ?_
        rw [List.length_append,Data.bytes_length]
        omega
      · rfl
    · rfl

lemma readi_trace (hf : x.Full) (out : ℕ → ℕ → Bool) (off n : ℕ) :
    (sb.logged.readi out off n x).trace = [] := by
  unfold Blocks.readi
  split
  · rfl
  · rename_i hoff
    obtain ⟨ok,l,hl⟩ := Data.readLoop_ok sb hf out
      (if off+n > x.d.size then x.d.size-off else n)
      (if off+n > x.d.size then x.d.size-off else n) off []
      (by rw [List.length_nil]; split <;> omega)
    have hres := readLoop_result sb out (if off+n > x.d.size then x.d.size-off else n)
      (if off+n > x.d.size then x.d.size-off else n) off [] x
    dsimp only
    rw [Traced.bind_of_ok (hres.trans hl),readLoop_trace hf _ _ _ _ _
      (by rw [List.length_nil]; split <;> omega)]
    rfl

lemma readEntry_trace (hf : x.Full) (off : ℕ) (msg : String) :
    (sb.logged.readEntry x off msg).trace = [] := by
  unfold Blocks.readEntry
  obtain ⟨r,l,hr⟩ := Data.readi_ok sb hf (fun _ _ => true) off DIRENT
  rw [Traced.bind_of_ok ((readi_result sb _ _ _ _).trans hr),readi_trace hf]
  dsimp only
  split <;> rfl

lemma entryLoop_trace (hf : x.Full) {β : Type} (msg : String) (stop : Dirent → ℕ → Option β)
    (last : ℕ → β) (left off : ℕ) : (sb.logged.entryLoop msg stop last left off x).trace = [] := by
  induction left generalizing off with
  | zero => rfl
  | succ left ih =>
    have hres := readEntry_result sb x off msg
    rw [Blocks.entryLoop]
    rcases Data.readEntry_or sb hf off msg with ⟨e,he⟩ | he
    · rw [Traced.bind_of_ok (hres.trans he),readEntry_trace hf]
      dsimp only
      cases stop e off with
      | some b => rfl
      | none => exact ih _
    · rw [Traced.bind_of_error (hres.trans he)]
      exact readEntry_trace hf off msg

end Logged
end Xv6.Fs
