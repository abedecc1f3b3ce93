import Xv6.Fs.Content
import Xv6.Fs.Format
import Xv6.Lib.Bytes

/-! `balloc`, `bmap`, `iupdate`, `readi` and `writei` on the bytes of the blocks, through the buffer
cache: a block is in a buffer or only on the disk, and what has not been given to the log may leave
the cache at any time. -/
namespace Xv6.Fs
open Function (update update_self update_of_ne update_eq_self)

/-- The disk, the valid buffers, and the blocks that `log_write` has pinned. `victims` says which
buffers `bget` is going to recycle. -/
structure Cache where
  disk : ℕ → Block
  buf : ℕ → Option Block
  pinned : ℕ → Bool
  victims : List ℕ

namespace Cache
variable (c : Cache) (b : ℕ) (v : Block)

/-- What `bread` of a block gives. -/
def view : Block := (c.buf b).getD (c.disk b)

/-- The buffer of a block is recycled, unless it is pinned. -/
def evict : Cache := if c.pinned b then c else { c with buf := update c.buf b none }

/-- A store to `bp->data`. -/
def store : Cache := { c with buf := update c.buf b (some v) }

def logWrite : Cache := { c with pinned := update c.pinned b true }

/-- What `bget` does to make room. -/
def recycle : Cache :=
  match c.victims with
  | [] => c
  | b::bs => ({ c with victims := bs } : Cache).evict b

def bread : Block×Cache := (c.recycle.view b,c.recycle.store b (c.recycle.view b))

def bzero : Cache := ((c.bread b).2.store b fun _ => 0).logWrite b

end Cache

variable (sb : DiskSb)

/-- The inner loop of `balloc`: the first clear one of the first `n` bits of the block `v` of the
bitmap, whose first bit is that of block `b`. -/
@[irreducible] def clearBit (n : ℕ) (v : Block) (b : ℕ) : Option ℕ :=
  (List.range n).find? fun bi => b+bi < sb.size && !v.bit bi

/-- One round of the loop of `balloc`: the block of the bitmap for block `b` and those after it. -/
def Cache.ballocBlock (b : ℕ) (c : Cache) : Option ℕ×Cache :=
  let (v,c) := c.bread (sb.BBLOCK b)
  match clearBit sb BPB v b with
  | some bi => (some (b+bi),
      ((c.store (sb.BBLOCK b) (v.setBit bi)).logWrite (sb.BBLOCK b)).bzero (b+bi))
  | none => (none,c)

/-- The loop of `balloc`, from the `i`th block of the bitmap on. -/
def Cache.ballocFrom : ℕ → ℕ → Cache → ℕ×Cache
  | 0,_,c => (0,c)
  | left+1,i,c =>
    if BPB*i < sb.size then
      match c.ballocBlock sb (BPB*i) with
      | (some b,c) => (b,c)
      | (none,c) => ballocFrom left (i+1) c
    else (0,c)

def Cache.balloc (c : Cache) : ℕ×Cache := c.ballocFrom sb (sb.size/BPB+1) 0

/-- The blocks as the buffer cache presents them. -/
def DiskSb.cached : Blocks (Except String) Cache where
  balloc c := .ok (c.balloc sb)
  bread b c := .ok (c.bread b)
  store b v c := .ok (c.store b v)
  logWrite b c := .ok (c.logWrite b)
  panic := .error

/-- A locked inode and the cache. -/
abbrev Locked := Data Cache

namespace Locked

/-- `iupdate` of inode `inum`. -/
def iupdate (x : Locked) (inum : ℕ) : Locked :=
  let (v,c) := x.st.bread (sb.IBLOCK inum)
  ⟨x.d,(c.store (sb.IBLOCK inum) (x.d.encode v (inum%IPB))).logWrite (sb.IBLOCK inum)⟩

/-- What a failed copy leaves of the inode and the cache: bytes `l` at `data + o` in the buffer of block
`a`, which is not logged. -/
def tear (x : Locked) (a o : ℕ) (l : List UInt8) : Locked :=
  ⟨x.d,x.st.store a (Data.overwrite (x.st.view a) o l)⟩

/-- `readi`, with a destination to which every copy succeeds. -/
def readi (x : Locked) (off n : ℕ) : Except String (ℤ×List UInt8×Locked) :=
  sb.cached.readi (fun _ _ => true) off n x

/-- `writei` of inode `inum`. -/
def writei (x : Locked) (inum : ℕ) (src : ℕ → ℕ → List UInt8×Bool) (off n : ℕ) :
    Except String (ℤ×Locked) := do
  let (r,x) ← sb.cached.writei src off n x
  return (r,if r = -1 then x else iupdate sb x inum)

end Locked

/-! ### The cache -/

namespace Cache
variable {c : Cache} {b : ℕ} {v : Block}

/-- An unpinned buffer holds what is on the disk. -/
def Coherent (c : Cache) : Prop := ∀ b v, c.buf b = some v → c.pinned b = false → v = c.disk b

@[simp] lemma view_store : (c.store b v).view = update c.view b v := by
  funext a
  by_cases h : a = b
  · subst h
    simp [view,store]
  · simp [view,store,h]

@[simp] lemma view_logWrite : (c.logWrite b).view = c.view := rfl

lemma store_comm {a : ℕ} {w : Block} (hab : a ≠ b) : (c.store a w).store b v = (c.store b v).store a w := by
  simp only [store,Function.update_comm hab]

/-- A store, seen after `bget` has made room: it is still there, or its buffer was recycled. -/
lemma recycle_store (a : ℕ) (w : Block) : (c.store a w).recycle = c.recycle.store a w ∨
    (c.store a w).recycle = c.recycle ∧ c.recycle.buf a = none := by
  unfold recycle
  cases hv : c.victims with
  | nil => simp only [store,hv,true_or]
  | cons b bs =>
    by_cases hp : c.pinned b
    · simp only [store,hv,evict,hp,if_true,true_or]
    · by_cases hab : a = b
      · subst hab
        simp [store,hv,evict,hp]
      · simp [store,hv,evict,hp,Function.update_comm hab]

lemma bread_store {a : ℕ} (hab : a ≠ b) (w : Block) :
    (c.store a w).bread b = ((c.bread b).1,(c.bread b).2.store a w) ∨
    (c.store a w).bread b = c.bread b ∧ (c.bread b).2.buf a = none := by
  rcases recycle_store (c := c) a w with h | ⟨h,hn⟩
  · refine .inl ?_
    simp only [bread,h,view_store,update_of_ne hab.symm,store_comm hab]
  · refine .inr ⟨by simp only [bread,h],?_⟩
    simpa [bread,store,hab] using hn

/-! What is pinned stays so. -/

lemma pinned_recycle : c.recycle.pinned = c.pinned := by
  unfold recycle evict
  split
  · rfl
  · split_ifs <;> rfl

@[simp] lemma pinned_bread : (c.bread b).2.pinned = c.pinned := pinned_recycle

lemma pinned_logWrite (hp : c.pinned b) (a : ℕ) : (c.logWrite a).pinned b := by
  by_cases h : b = a <;> simp [logWrite,h,hp]

lemma pinned_ballocBlock (sb : DiskSb) (b : ℕ) : (c.pinned ≤ (c.ballocBlock sb b).2.pinned) ∧
    ∀ a ∈ (c.ballocBlock sb b).1, (c.ballocBlock sb b).2.pinned a := by
  have hb : (c.bread (sb.BBLOCK b)).2.pinned = c.pinned := pinned_bread
  unfold ballocBlock
  generalize c.bread (sb.BBLOCK b) = r at hb
  obtain ⟨v,c'⟩ := r
  dsimp only
  cases clearBit sb BPB v b with
  | none => exact ⟨hb.ge,by simp⟩
  | some bi =>
    refine ⟨fun a hp => ?_,fun a ha => ?_⟩
    · refine pinned_logWrite ?_ (b+bi)
      show (Cache.bread _ (b+bi)).2.pinned a = true
      rw [pinned_bread]
      refine pinned_logWrite ?_ _
      show c'.pinned a = true
      rw [hb]
      exact hp
    · obtain rfl : b+bi = a := by simpa using ha
      simp [bzero,logWrite]

lemma pinned_ballocFrom (sb : DiskSb) (left i : ℕ) : c.pinned ≤ (c.ballocFrom sb left i).2.pinned ∧
    ((c.ballocFrom sb left i).1 ≠ 0 →
      (c.ballocFrom sb left i).2.pinned (c.ballocFrom sb left i).1) := by
  induction left generalizing c i with
  | zero => exact ⟨le_rfl,fun h => absurd rfl h⟩
  | succ left ih =>
    rw [ballocFrom]
    split_ifs
    · have hb := pinned_ballocBlock (c := c) sb (BPB*i)
      generalize c.ballocBlock sb (BPB*i) = r at hb
      obtain ⟨o,c'⟩ := r
      cases o with
      | some a => exact ⟨hb.1,fun _ => hb.2 a rfl⟩
      | none => exact ⟨hb.1.trans (ih (i+1)).1,(ih (i+1)).2⟩
    · exact ⟨le_rfl,fun h => absurd rfl h⟩

variable (h : c.Coherent)
include h

lemma Coherent.evict (b : ℕ) : (c.evict b).Coherent := by
  unfold Cache.evict
  split_ifs with hp
  · exact h
  · intro a v ha
    by_cases hab : a = b
    · subst hab
      simp at ha
    · exact h a v (by simpa [hab] using ha)

lemma Coherent.view_evict (b : ℕ) : (c.evict b).view = c.view := by
  unfold Cache.evict
  split_ifs with hp
  · rfl
  · funext a
    by_cases hab : a = b
    · subst hab
      cases hb : c.buf a with
      | none => simp [view,hb]
      | some v => simp [view,hb,h a v hb (by simpa using hp)]
    · simp [view,hab]

lemma Coherent.recycle : c.recycle.Coherent ∧ c.recycle.view = c.view := by
  unfold Cache.recycle
  split
  · exact ⟨h,rfl⟩
  · rename_i b bs _
    have h' : ({ c with victims := bs } : Cache).Coherent := h
    exact ⟨h'.evict b,h'.view_evict b⟩

lemma Coherent.store_same : (c.store b (c.view b)).Coherent := by
  intro a v ha hp
  by_cases hab : a = b
  · subst hab
    have hv : c.view a = v := by simpa [Cache.store] using ha
    subst hv
    show c.view a = c.disk a
    cases hb : c.buf a with
    | none => simp [view,hb]
    | some w => simpa [view,hb] using h a w hb hp
  · exact h a v (by simpa [Cache.store,hab] using ha) hp

lemma Coherent.bread (b : ℕ) :
    (c.bread b).1 = c.view b ∧ (c.bread b).2.view = c.view ∧ (c.bread b).2.Coherent := by
  obtain ⟨h₁,h₂⟩ := h.recycle
  refine ⟨congrFun h₂ b,?_,h₁.store_same⟩
  rw [Cache.bread,view_store,update_eq_self,h₂]

/-- A store that `log_write` follows. -/
lemma Coherent.logged (b : ℕ) (v : Block) : ((c.store b v).logWrite b).Coherent := by
  intro a w ha hp
  have hab : a ≠ b := by
    rintro rfl
    simp [logWrite] at hp
  refine h a w ?_ ?_
  · simpa [logWrite,Cache.store,hab] using ha
  · simpa [logWrite,Cache.store,hab] using hp

end Cache

/-! ### The blocks as the functions of `Data` see them -/

/-- The parts of the disk are in this order. -/
structure DiskSb.Valid (sb : DiskSb) : Prop where
  inodes : ∀ i, i < sb.ninodes → sb.IBLOCK i < sb.bmapstart
  start : sb.bmapstart ≤ sb.dataStart
  bitmap : ∀ b, b < sb.size → sb.BBLOCK b < sb.dataStart

/-- The cache presents this bitmap and these data blocks, and these blocks below the bitmap. -/
structure Rep (sb : DiskSb) (low : ℕ → Block) (c : Cache) (st : Store) : Prop where
  coherent : c.Coherent
  bitmap : ∀ b, b < sb.size → st.bitmap b = (c.view (sb.BBLOCK b)).bit (b%BPB)
  block : ∀ b, sb.dataStart ≤ b → c.view b = st.block b
  low : ∀ b, b < sb.bmapstart → c.view b = low b

namespace Rep
variable {sb : DiskSb} {low : ℕ → Block} {c c' : Cache} {st st' : Store} {b : ℕ} {v : Block}

lemma congr (h : Rep sb low c st) (hc : c'.Coherent) (hv : c'.view = c.view) : Rep sb low c' st :=
  ⟨hc,by rw [hv]; exact h.bitmap,by rw [hv]; exact h.block,by rw [hv]; exact h.low⟩

lemma bread (h : Rep sb low c st) (b : ℕ) :
    Rep sb low (c.bread b).2 st ∧ (c.bread b).1 = c.view b := by
  obtain ⟨h₁,h₂,h₃⟩ := h.coherent.bread b
  exact ⟨h.congr h₃ h₂,h₁⟩

lemma setBlock (hv : sb.Valid) (h : Rep sb low c st) (hc : c'.Coherent)
    (hview : c'.view = update c.view b v) (hb : sb.dataStart ≤ b) :
    Rep sb low c' (st.setBlock b v) := by
  refine ⟨hc,fun a ha => ?_,fun a ha => ?_,fun a ha => ?_⟩
  · have := hv.bitmap a ha
    rw [hview,update_of_ne (by omega)]
    exact h.bitmap a ha
  · rw [hview]
    show _ = update st.block b v a
    by_cases hab : a = b
    · rw [hab,update_self,update_self]
    · rw [update_of_ne hab,update_of_ne hab]
      exact h.block a ha
  · have := hv.start
    rw [hview,update_of_ne (by omega)]
    exact h.low a ha

lemma setLow (hv : sb.Valid) (h : Rep sb low c st) (hc : c'.Coherent)
    (hview : c'.view = update c.view b v) (hb : b < sb.bmapstart) :
    Rep sb (update low b v) c' st := by
  have hstart := hv.start
  refine ⟨hc,fun a ha => ?_,fun a ha => ?_,fun a ha => ?_⟩
  · have hle : sb.bmapstart ≤ sb.BBLOCK a := Nat.le_add_left _ _
    rw [hview,update_of_ne (by omega)]
    exact h.bitmap a ha
  · rw [hview,update_of_ne (by omega)]
    exact h.block a ha
  · rw [hview]
    by_cases hab : a = b
    · rw [hab,update_self,update_self]
    · rw [update_of_ne hab,update_of_ne hab]
      exact h.low a ha

lemma mark (hv : sb.Valid) (h : Rep sb low c st) (hb : b < sb.size) :
    Rep sb low ((c.store (sb.BBLOCK b) ((c.view (sb.BBLOCK b)).setBit (b%BPB))).logWrite (sb.BBLOCK b))
      { st with bitmap := update st.bitmap b true } := by
  have hstart := hv.start
  have hbb := hv.bitmap b hb
  refine ⟨h.coherent.logged _ _,fun a ha => ?_,fun a ha => ?_,fun a ha => ?_⟩ <;>
    simp only [Cache.view_logWrite,Cache.view_store]
  · have hmod : b%BPB < BSIZE*8 := Nat.mod_lt _ (by decide)
    by_cases hblk : sb.BBLOCK a = sb.BBLOCK b
    · have hdiv : a/BPB = b/BPB := by simpa [DiskSb.BBLOCK] using hblk
      have hiff : a%BPB = b%BPB ↔ a = b := by
        have := Nat.div_add_mod a BPB
        have := Nat.div_add_mod b BPB
        rw [hdiv] at *
        omega
      rw [hblk,update_self,Block.bit_setBit _ hmod,← hblk,← h.bitmap a ha]
      by_cases hab : a = b
      · subst hab
        simp
      · rw [update_of_ne hab]
        simp [hiff,hab]
    · have hab : a ≠ b := fun he => hblk (he ▸ rfl)
      rw [update_of_ne hblk,update_of_ne hab]
      exact h.bitmap a ha
  · rw [update_of_ne (by omega)]
    exact h.block a ha
  · have hle : sb.bmapstart ≤ sb.BBLOCK b := Nat.le_add_left _ _
    rw [update_of_ne (by omega)]
    exact h.low a ha

lemma bzero (hv : sb.Valid) (h : Rep sb low c st) (hb : sb.dataStart ≤ b) :
    Rep sb low (c.bzero b) (st.setBlock b fun _ => 0) := by
  obtain ⟨hr,-⟩ := h.bread b
  refine h.setBlock hv (hr.coherent.logged _ _) ?_ hb
  rw [Cache.bzero,Cache.view_logWrite,Cache.view_store,(h.coherent.bread b).2.1]

lemma bit_eq (h : Rep sb low c st) (hb : b%BPB = 0) {bi : ℕ} (hbi : bi < BPB) (hlt : b+bi < sb.size) :
    (c.view (sb.BBLOCK b)).bit bi = st.bitmap (b+bi) := by
  have hdm := Nat.div_add_mod b BPB
  have hd : (b+bi)/BPB = b/BPB := by
    rw [← hdm,hb,Nat.add_zero,Nat.mul_add_div (by decide),Nat.div_eq_of_lt hbi,Nat.add_zero,
      Nat.mul_div_cancel_left _ (by decide)]
  have hm : (b+bi)%BPB = bi := by
    rw [← hdm,hb,Nat.add_zero,Nat.mul_add_mod,Nat.mod_eq_of_lt hbi]
  rw [h.bitmap _ hlt,hm,DiskSb.BBLOCK,DiskSb.BBLOCK,hd]

lemma balloc_none (h : ∀ a, a < sb.size → st.bitmap a = true) :
    st.balloc sb = (0,st) := by
  have : (List.range sb.size).find? (fun b => !st.bitmap b) = none := by
    rw [List.find?_eq_none]
    intro a ha
    simp [h a (List.mem_range.mp ha)]
  rw [Store.balloc,this]

lemma balloc_some (hb : b < sb.size) (hfree : st.bitmap b = false)
    (h : ∀ a, a < b → st.bitmap a = true) : st.balloc sb =
      (b,({ st with bitmap := update st.bitmap b true } : Store).setBlock b fun _ => 0) := by
  have : (List.range sb.size).find? (fun b => !st.bitmap b) = some b := by
    rw [List.find?_range_eq_some]
    exact ⟨by simp [hfree],List.mem_range.mpr hb,fun a ha => by simp [h a ha]⟩
  rw [Store.balloc,this]

/-- A round of `balloc` finds the first free block, or there is none in this part. -/
lemma ballocBlock (hv : sb.Valid) (hfree : ∀ b, st.bitmap b = false → sb.dataStart ≤ b)
    (hb : b%BPB = 0) (h : Rep sb low c st)
    (hmarked : ∀ a, a < sb.size → a < b → st.bitmap a = true) :
    (∃ a c', c.ballocBlock sb b = (some a,c') ∧ (st.balloc sb).1 = a ∧
      Rep sb low c' (st.balloc sb).2) ∨
    ∃ c', c.ballocBlock sb b = (none,c') ∧ Rep sb low c' st ∧
      ∀ a, a < sb.size → a < b+BPB → st.bitmap a = true := by
  obtain ⟨hr,hval⟩ := h.bread (sb.BBLOCK b)
  have hview := (h.coherent.bread (sb.BBLOCK b)).2.1
  unfold Cache.ballocBlock
  generalize c.bread (sb.BBLOCK b) = r at hr hval hview
  obtain ⟨v,c'⟩ := r
  have hval : v = c'.view (sb.BBLOCK b) := hval.trans (congrFun hview.symm _)
  have hbit : ∀ a, b ≤ a → a < b+BPB → a < sb.size → v.bit (a-b) = st.bitmap a := by
    intro a h₁ h₂ h₃
    rw [hval,hr.bit_eq hb (by omega) (by omega),Nat.add_sub_cancel' h₁]
  dsimp only
  cases hf : clearBit sb BPB v b with
  | some bi =>
    rw [clearBit] at hf
    obtain ⟨hp,hmem,hfirst⟩ := List.find?_range_eq_some.mp hf
    have hbi := List.mem_range.mp hmem
    obtain ⟨hlt,hclear⟩ : b+bi < sb.size ∧ v.bit bi = false := by simpa using hp
    have hf' : st.bitmap (b+bi) = false := by
      rw [← hbit (b+bi) (by omega) (by omega) hlt,Nat.add_sub_cancel_left,hclear]
    refine .inl ⟨b+bi,_,rfl,?_⟩
    rw [balloc_some hlt hf' fun a ha => ?_]
    · refine ⟨rfl,?_⟩
      have hmark := hr.mark hv hlt
      have hblk : sb.BBLOCK (b+bi) = sb.BBLOCK b ∧ (b+bi)%BPB = bi := by
        have hdm := Nat.div_add_mod b BPB
        rw [hb,Nat.add_zero] at hdm
        rw [DiskSb.BBLOCK,DiskSb.BBLOCK,← hdm,Nat.mul_add_div (by decide),Nat.div_eq_of_lt hbi,
          Nat.add_zero,Nat.mul_div_cancel_left _ (by decide),Nat.mul_add_mod,Nat.mod_eq_of_lt hbi]
        exact ⟨rfl,rfl⟩
      rw [hblk.1,hblk.2,← hval] at hmark
      exact hmark.bzero hv (hfree _ hf')
    · by_cases hab : a < b
      · exact hmarked a (by omega) hab
      · have := hfirst (a-b) (by omega)
        rw [← hbit a (by omega) (by omega) (by omega)]
        simpa [show b+(a-b) < sb.size by omega] using this
  | none =>
    rw [clearBit] at hf
    refine .inr ⟨c',rfl,hr,fun a ha hlt => ?_⟩
    by_cases hab : a < b
    · exact hmarked a ha hab
    · have := List.find?_eq_none.mp hf (a-b) (List.mem_range.mpr (by omega))
      rw [← hbit a (by omega) hlt ha]
      simpa [show b+(a-b) < sb.size by omega] using this

lemma ballocFrom (hv : sb.Valid) (hfree : ∀ b, st.bitmap b = false → sb.dataStart ≤ b)
    (left i : ℕ) (h : Rep sb low c st) (hleft : sb.size ≤ BPB*(i+left))
    (hmarked : ∀ a, a < sb.size → a < BPB*i → st.bitmap a = true) :
    (c.ballocFrom sb left i).1 = (st.balloc sb).1 ∧
      Rep sb low (c.ballocFrom sb left i).2 (st.balloc sb).2 := by
  induction left generalizing c i with
  | zero =>
    rw [Cache.ballocFrom,balloc_none fun a ha => hmarked a ha (by rw [Nat.add_zero] at hleft; omega)]
    exact ⟨rfl,h⟩
  | succ left ih =>
    rw [Cache.ballocFrom]
    by_cases hk : BPB*i < sb.size
    · rw [if_pos hk]
      rcases h.ballocBlock hv hfree (Nat.mul_mod_right BPB i) hmarked with
        ⟨a,c',hb,ha,hr⟩ | ⟨c',hb,hr,hm⟩
      · rw [hb]
        exact ⟨ha.symm,hr⟩
      · rw [hb]
        refine ih (i+1) hr ?_ fun a ha hlt => hm a ha ?_
        · rwa [Nat.add_assoc,Nat.add_comm 1 left]
        · rwa [Nat.mul_succ] at hlt
    · rw [if_neg hk,balloc_none fun a ha => hmarked a ha (by omega)]
      exact ⟨rfl,h⟩

lemma balloc (hv : sb.Valid) (hfree : ∀ b, st.bitmap b = false → sb.dataStart ≤ b)
    (h : Rep sb low c st) : (c.balloc sb).1 = (st.balloc sb).1 ∧
      Rep sb low (c.balloc sb).2 (st.balloc sb).2 := by
  refine h.ballocFrom hv hfree _ 0 ?_ fun a _ h => absurd h (by rw [Nat.mul_zero]; omega)
  have := Nat.lt_mul_div_succ sb.size (show 0 < BPB by decide)
  rw [Nat.zero_add]
  omega

end Rep

/-! ### The functions on blocks follow those of `Data` -/

/-- A source whose failing copies store nothing. -/
def whole (src : ℕ → ℕ → List UInt8×Bool) (tot m : ℕ) : List UInt8×Bool :=
  if (src tot m).2 then src tot m else ([],false)

/-- The same inode over the cache and over the blocks that it presents. The blocks that are not marked
in `bm` have been allocated since, and are pinned. -/
structure Sim (sb : DiskSb) (low : ℕ → Block) (bm : ℕ → Bool) (x : Locked) (y : Data Store) : Prop where
  d : x.d = y.d
  rep : Rep sb low x.st y.st
  fresh : ∀ b, bm b = false → y.st.bitmap b = true → x.st.pinned b = true

/-- The block of the file at which a `writei` at `off` goes on after `t` bytes. -/
def Data.target (y : Data Store) (off t : ℕ) : ℕ := y.ptr (Data.dataPos ((off+t)/BSIZE))

/-- A `writei` of `n` bytes at `off` has stopped after `t` because a copy failed: `x` is its state, and
`x'` and `y` are what there is without the bytes of that copy. -/
def Torn (src : ℕ → ℕ → List UInt8×Bool) (off n t : ℕ) (y : Data Store) (x' x : Locked) : Prop :=
  t < n ∧ y.target off t ≠ 0 ∧
    x = x'.tear (y.target off t) ((off+t)%BSIZE) (src t (Data.pieceLen off n t)).1

namespace Sim
variable {sb : DiskSb} {low : ℕ → Block} {bm : ℕ → Bool} {x : Locked} {y : Data Store} {D : ℕ → Dinode} {k : ℕ}
variable {c : Cache} {st : Store}

/-- The block that `balloc` finds is pinned, as is all that was. -/
lemma fresh_balloc (h : Own sb D st) (hb : (c.balloc sb).1 = (st.balloc sb).1)
    (hf : ∀ b, bm b = false → st.bitmap b = true → c.pinned b = true) :
    ∀ b, bm b = false → (st.balloc sb).2.bitmap b = true → (c.balloc sb).2.pinned b = true := by
  intro a ha hm
  have hp := Cache.pinned_ballocFrom (c := c) sb (sb.size/BPB+1) 0
  rcases hst : st.balloc sb with ⟨b,st'⟩
  rw [hst] at hb hm
  rcases Store.balloc_cases hst with ⟨-,rfl⟩ | ⟨-,hfree,hbm,-⟩
  · exact hp.1 a (hf a ha hm)
  · by_cases hab : a = b
    · have h0 : b ≠ 0 := (h.meta_pos.trans_le (h.free_pos hfree)).ne'
      subst hab
      have hp := hp.2
      rw [← Cache.balloc,hb] at hp
      exact hp h0
    · rw [hbm,update_of_ne hab] at hm
      exact hp.1 a (hf a ha hm)

lemma addr (hv : sb.Valid) (h : Own sb D y.st) (hs : Sim sb low bm x y)
    (j : Fin (NDIRECT+1)) : ∃ a x' y', sb.cached.addr x j = .ok (a,x') ∧
      sb.blocks.addr y j = .ok (a,y') ∧ Sim sb low bm x' y' := by
  obtain ⟨hb,hr⟩ := hs.rep.balloc hv fun b hb => h.free_pos hb
  have hfr := fresh_balloc h hb hs.fresh
  unfold Blocks.addr
  simp only [hs.d,DiskSb.cached,Superblock.blocks,bind,Except.bind]
  split
  · generalize x.st.balloc sb = r at hb hr hfr
    generalize y.st.balloc sb = r' at hb hr hfr
    obtain ⟨b,c⟩ := r
    obtain ⟨b',st⟩ := r'
    obtain rfl : b = b' := hb
    dsimp only
    split
    · exact ⟨0,_,_,rfl,rfl,rfl,hr,hfr⟩
    · exact ⟨b,_,_,rfl,rfl,rfl,hr,hfr⟩
  · exact ⟨_,x,y,rfl,rfl,hs⟩

lemma entry (hv : sb.Valid) (h : Own sb D y.st) (hs : Sim sb low bm x y) {ind : ℕ}
    (hind : sb.dataStart ≤ ind) (j : ℕ) :
    ∃ a x' y', sb.cached.entry x ind j = .ok (a,x') ∧ sb.blocks.entry y ind j = .ok (a,y') ∧
      Sim sb low bm x' y' := by
  obtain ⟨hr,hval⟩ := hs.rep.bread ind
  obtain ⟨hb,hrb⟩ := hr.balloc hv fun b hb => h.free_pos hb
  have hfb := hs.fresh
  rw [← Cache.pinned_bread (b := ind)] at hfb
  have hfr := fresh_balloc h hb hfb
  rw [hs.rep.block ind hind] at hval
  unfold Blocks.entry
  simp only [DiskSb.cached,Superblock.blocks,bind,Except.bind]
  generalize x.st.bread ind = r at hr hval hb hrb hfb hfr
  obtain ⟨v,c⟩ := r
  obtain rfl : v = y.st.block ind := hval
  dsimp only at hb hrb hfr ⊢
  split
  · rcases hc : c.balloc sb with ⟨b,c'⟩
    rcases hst : y.st.balloc sb with ⟨b',st⟩
    rw [hc,hst] at hb hrb hfr
    obtain rfl : b = b' := hb
    dsimp only
    split
    · exact ⟨0,_,_,rfl,rfl,hs.d,hrb,hfr⟩
    · refine ⟨b,_,_,rfl,rfl,hs.d,?_,fun a ha hm => Cache.pinned_logWrite (hfr a ha hm) ind⟩
      exact hrb.setBlock hv (hrb.coherent.logged _ _) (by simp) hind
  · exact ⟨_,_,_,rfl,rfl,hs.d,hr,hfb⟩

lemma bmap (hv : sb.Valid) (h : Data.Owned sb D k y) (hs : Sim sb low bm x y) {bn : ℕ}
    (hbn : bn < MAXFILE) : ∃ a x' y', sb.cached.bmap x bn = .ok (a,x') ∧
      sb.blocks.bmap y bn = .ok (a,y') ∧ Sim sb low bm x' y' := by
  unfold Blocks.bmap
  split
  · rename_i hd
    exact hs.addr hv h.toOwn ⟨bn,Nat.lt_succ_of_lt hd⟩
  · rename_i hd
    rw [if_pos (by simp only [MAXFILE] at hbn; omega),if_pos (by simp only [MAXFILE] at hbn; omega)]
    obtain ⟨ind,x',y',h₁,h₂,h₃⟩ := hs.addr hv h.toOwn (Fin.last NDIRECT)
    obtain ⟨hown,-,rfl,-⟩ := Data.addr_spec h h₂
    rw [h₁,h₂]
    simp only [bind,Except.bind]
    split
    · exact ⟨0,x',y',rfl,rfl,h₃⟩
    · rename_i h0
      exact h₃.entry hv hown.toOwn (hown.marked_ptr h0).1 (bn-NDIRECT)

lemma readLoop (hv : sb.Valid) (h : Data.Owned sb D k y) (hf : Data.Full y) (n fuel off : ℕ) (got : List UInt8)
    (hoff : off+(n-got.length) ≤ y.d.size) (hs : Sim sb low bm x y) :
    ∃ l x', sb.cached.readLoop (fun _ _ => true) n fuel off got x = .ok (true,l,x') ∧
      sb.blocks.readLoop (fun _ _ => true) n fuel off got y = .ok (true,l,y) ∧
      Sim sb low bm x' y := by
  induction fuel generalizing off got x with
  | zero => exact ⟨got,x,rfl,rfl,hs⟩
  | succ fuel ih =>
    rw [Blocks.readLoop,Blocks.readLoop]
    split
    · rename_i hlt
      have hsz := hf.size_le
      have hbn : off/BSIZE < MAXFILE := Data.block_lt (by omega)
      obtain ⟨a,x',y',h₁,h₂,h₃⟩ := hs.bmap hv h hbn
      have hb : sb.blocks.bmap y (off/BSIZE) = .ok (y.ptr (Data.dataPos (off/BSIZE)),y) :=
        Data.bmap_full hf (by omega)
      rw [hb] at h₂
      obtain ⟨rfl,rfl⟩ := Prod.mk.inj (Except.ok.inj h₂)
      have h0 := Data.ptr_full hf off (by omega)
      rw [h₁,hb]
      simp only [bind,Except.bind,if_neg h0,if_true,DiskSb.cached,Superblock.blocks]
      obtain ⟨hr,hval⟩ := h₃.rep.bread (y.ptr (Data.dataPos (off/BSIZE)))
      rw [h₃.rep.block _ (h.marked_ptr h0).1] at hval
      rw [hval]
      refine ih _ _ ?_ ⟨h₃.d,hr,by rw [Cache.pinned_bread]; exact h₃.fresh⟩
      rw [List.length_append,Data.bytes_length]
      omega
    · exact ⟨got,x,rfl,rfl,hs⟩

/-- `readi` of a file without holes returns a part of its content. -/
lemma readi (hv : sb.Valid) (h : Data.Owned sb D k y) (hf : Data.Full y) (hs : Sim sb low bm x y) {off n : ℕ} (ho : off < 2^32)
    (hn : n < 2^32) : ∃ l x', x.readi sb off n = .ok (l.length,l,x') ∧
      l = if 2^32 ≤ off+n then [] else (y.content.drop off).take n := by
  obtain ⟨l,hl,hc⟩ := Data.readi_content sb hf ho hn
  unfold Locked.readi
  unfold Blocks.readi at hl ⊢
  rw [hs.d]
  split at hl
  · rename_i hoff
    rw [if_pos hoff]
    obtain ⟨-,rfl⟩ : (0 : ℤ) = l.length ∧ l = [] := by
      simpa [pure,Except.pure] using hl
    exact ⟨[],x,rfl,hc⟩
  · rename_i hoff
    rw [if_neg hoff]
    obtain ⟨got,x',h₁,h₂,-⟩ := hs.readLoop hv h hf
      (if off+n > y.d.size then y.d.size-off else n)
      (if off+n > y.d.size then y.d.size-off else n) off [] (by rw [List.length_nil]; split <;> omega)
    dsimp only at hl ⊢
    rw [h₂] at hl
    rw [h₁]
    obtain ⟨-,rfl⟩ : got.length = l.length ∧ got = l := by
      simpa [bind,Except.bind,pure,Except.pure] using hl
    exact ⟨got,x',rfl,hc⟩

/-- The loop of `writei` follows that of `Data` with failing copies that store nothing. -/
lemma writeLoop (src : ℕ → ℕ → List UInt8×Bool) (hv : sb.Valid) {off n : ℕ}
    (hoff : off+n ≤ MAXFILE*BSIZE) (fuel tot : ℕ) (hfuel : n-tot ≤ fuel) (h : Data.Owned sb D k y)
    (hs : Sim sb low bm x y) :
    ∃ t x₁ x' y', sb.cached.writeLoop src n fuel tot (off+tot) x = .ok (t,off+t,x₁) ∧
      sb.blocks.writeLoop (whole src) n fuel tot (off+tot) y = .ok (t,off+t,y') ∧
      Sim sb low bm x' y' ∧ (∃ D', Data.Owned sb D' k y') ∧
      ((x₁ = x' ∧ (n ≤ t ∨ y'.target off t = 0)) ∨ Torn src off n t y' x' x₁) := by
  induction fuel generalizing tot x y D with
  | zero => exact ⟨tot,x,x,y,rfl,rfl,hs,⟨D,h⟩,.inl ⟨rfl,.inl (by omega)⟩⟩
  | succ fuel ih =>
    rw [Blocks.writeLoop,Blocks.writeLoop]
    split
    · rename_i hlt
      have hbn : (off+tot)/BSIZE < MAXFILE := Data.block_lt (by omega)
      obtain ⟨a,x',z,h₁,h₂,h₃⟩ := hs.bmap hv h hbn
      obtain ⟨a',z',hb,hown,-,hptr⟩ := Data.bmap_spec h hbn
      rw [h₂] at hb
      obtain ⟨rfl,rfl⟩ := Prod.mk.inj (Except.ok.inj hb)
      rw [h₁,h₂]
      simp only [bind,Except.bind,DiskSb.cached,Superblock.blocks]
      split
      · rename_i ha
        exact ⟨tot,x',x',z,rfl,rfl,h₃,⟨_,hown⟩,.inl ⟨rfl,.inr (hptr.trans ha)⟩⟩
      · rename_i ha
        have hdata : sb.dataStart ≤ a := by
          rw [← hptr] at ha ⊢
          exact (hown.marked_ptr ha).1
        obtain ⟨hr,hval⟩ := h₃.rep.bread a
        have hfr := h₃.fresh
        rw [← Cache.pinned_bread (b := a)] at hfr
        rw [h₃.rep.block a hdata] at hval
        generalize x'.st.bread a = r at hr hval hfr
        obtain ⟨v,c⟩ := r
        obtain rfl : v = z.st.block a := hval
        rw [show min (n-tot) (BSIZE-(off+tot)%BSIZE) = Data.pieceLen off n tot from rfl,whole]
        rcases hpiece : src tot (Data.pieceLen off n tot) with ⟨l,ok⟩
        cases ok with
        | true =>
          obtain ⟨hown',-,-⟩ := Data.write_spec hown hbn
            (Data.overwrite (z.st.block a) ((off+tot)%BSIZE) l)
          rw [hptr] at hown'
          have hm : 0 < Data.pieceLen off n tot := by
            have := Nat.mod_lt (off+tot) (show 0 < BSIZE by decide)
            rw [Data.pieceLen]
            omega
          generalize Data.pieceLen off n tot = m at hm
          rw [Nat.add_assoc off tot m]
          exact ih (tot+m) (by omega) hown'
            ⟨h₃.d,hr.setBlock hv (hr.coherent.logged _ _) (by simp) hdata,
              fun b hb hm => Cache.pinned_logWrite (hfr b hb hm) a⟩
        | false =>
          have hsame : z.st.setBlock a (z.st.block a) = z.st := by simp [Store.setBlock]
          have hself : c.view a = z.st.block a := hr.block a hdata
          refine ⟨tot,_,⟨x'.d,c⟩,z,rfl,?_,⟨h₃.d,hr,hfr⟩,⟨_,hown⟩,.inr ⟨hlt,hptr.trans_ne ha,?_⟩⟩
          · simp only [Bool.false_eq_true,if_false,Data.overwrite_nil,hsame]
            rfl
          · rw [Data.target,hptr,hpiece,Locked.tear]
            dsimp only
            rw [hself]
    · exact ⟨tot,x,x,y,rfl,rfl,hs,⟨D,h⟩,.inl ⟨rfl,.inl (by omega)⟩⟩

/-- `iupdate` after a failed copy: its `bread` recycles the buffer, or the bytes are still there. -/
lemma iupdate_tear {a o : ℕ} (l : List UInt8) (hc : x.st.Coherent) (ha : a ≠ sb.IBLOCK k) :
    (Locked.iupdate sb (x.tear a o l) k = Locked.iupdate sb x k ∧
      (Locked.iupdate sb x k).st.buf a = none) ∨
    Locked.iupdate sb (x.tear a o l) k = (Locked.iupdate sb x k).tear a o l := by
  obtain ⟨-,hview,-⟩ := hc.bread (sb.IBLOCK k)
  rcases Cache.bread_store (c := x.st) ha (Data.overwrite (x.st.view a) o l) with hb | ⟨hb,hn⟩
  · refine .inr ?_
    have hself : (Locked.iupdate sb x k).st.view a = x.st.view a := by
      simp only [Locked.iupdate,Cache.view_logWrite,Cache.view_store,update_of_ne ha,hview]
    conv_rhs => rw [Locked.tear,hself]
    simp only [Locked.iupdate,Locked.tear,hb,Cache.store_comm ha]
    rfl
  · refine .inl ⟨by simp only [Locked.iupdate,Locked.tear,hb],?_⟩
    simpa [Locked.iupdate,Cache.logWrite,Cache.store,ha] using hn

/-- `writei` follows that of `Data` with failing copies that store nothing. -/
lemma writei (src : ℕ → ℕ → List UInt8×Bool) (off n : ℕ) (hv : sb.Valid)
    (h : Data.Owned sb D k y) (hkn : k < sb.ninodes) (hs : Sim sb low bm x y) :
    ∃ r x₁ x' y' low', x.writei sb k src off n = .ok (r,x₁) ∧
      sb.blocks.writei (whole src) off n y = .ok (r,y') ∧ Sim sb low' bm x' y' ∧
      (x' = x ∨ low' (sb.IBLOCK k) = y'.d.encode (low (sb.IBLOCK k)) (k%IPB)) ∧
      (r = -1 ∧ x₁ = x' ∨ ∃ t : ℕ, r = t ∧ off+n ≤ MAXFILE*BSIZE ∧
        ((x₁ = x' ∧ (n ≤ t ∨ y'.target off t = 0 ∨ x'.st.buf (y'.target off t) = none)) ∨
          Torn src off n t y' x' x₁)) := by
  unfold Locked.writei Blocks.writei
  rw [hs.d]
  split
  · exact ⟨-1,x,x,y,low,rfl,rfl,hs,.inl rfl,.inl ⟨rfl,rfl⟩⟩
  · split
    · exact ⟨-1,x,x,y,low,rfl,rfl,hs,.inl rfl,.inl ⟨rfl,rfl⟩⟩
    · rename_i hmax
      obtain ⟨t,x₁,x',y',h₁,h₂,h₃,⟨D',hown⟩,hend⟩ :=
        hs.writeLoop src hv (not_lt.mp hmax) n 0 (by omega) h
      rw [Nat.add_zero] at h₁ h₂
      rw [h₁,h₂]
      simp only [bind,Except.bind,pure,Except.pure]
      have hblk := hv.inodes k hkn
      obtain ⟨hr,hval⟩ := h₃.rep.bread (sb.IBLOCK k)
      rw [h₃.rep.low _ hblk] at hval
      have hfr := h₃.fresh
      rw [← Cache.pinned_bread (b := sb.IBLOCK k)] at hfr
      obtain ⟨d,hd⟩ : ∃ d, ({ y'.d with size := max y'.d.size (off+t) } : Dinode) = d := ⟨_,rfl⟩
      have hptr : ∀ p, Data.ptr ⟨d,y'.st⟩ p = y'.ptr p := by
        intro p
        rw [← hd]
        exact Store.ptr_congr rfl (fun _ => rfl) _
      have hx₁ : x₁.d = y'.d := by
        rcases hend with ⟨rfl,-⟩ | ⟨-,-,rfl⟩ <;> exact h₃.d
      rw [hx₁,hd]
      refine ⟨t,_,Locked.iupdate sb ⟨d,x'.st⟩ k,⟨d,y'.st⟩,update low (sb.IBLOCK k)
        (d.encode (low (sb.IBLOCK k)) (k%IPB)),rfl,rfl,⟨rfl,?_,?_⟩,.inr (update_self _ _ _),
        .inr ⟨t,rfl,by omega,?_⟩⟩
      · rw [Locked.iupdate]
        dsimp only
        rw [hval]
        exact hr.setLow hv (hr.coherent.logged _ _) (by simp) hblk
      · exact fun b hb hm => Cache.pinned_logWrite (hfr b hb hm) _
      · have ht : Data.target ⟨d,y'.st⟩ off t = y'.target off t := hptr _
        rw [Torn,ht]
        rcases hend with ⟨rfl,hn⟩ | ⟨hlt,ha,rfl⟩
        · exact .inl ⟨rfl,hn.imp id .inl⟩
        · have hdata : sb.dataStart ≤ y'.target off t := (hown.marked_ptr ha).1
          have hstart := hv.start
          have hne : y'.target off t ≠ sb.IBLOCK k := by omega
          rcases iupdate_tear (x := ⟨d,x'.st⟩) (o := (off+t)%BSIZE)
            (src t (Data.pieceLen off n t)).1 h₃.rep.coherent hne with ⟨he,hn⟩ | he
          · exact .inl ⟨he,.inr (.inr hn)⟩
          · exact .inr ⟨hlt,ha,he⟩

end Sim
end Xv6.Fs
