import Xv6.Fs.Data

/-! Block ownership: the marked data blocks are the ones the inodes point to, each from one place.
The functions of `Data` keep this, and leave the blocks of other inodes alone. -/
namespace Xv6.Fs
open List
open Blocks (freeAll)
open Superblock (blocks_bread blocks_store blocks_logWrite)
open Function (update update_idem update_self update_apply update_of_ne update_eq_self)

/-- A place of an inode that holds a block number: `addrs[j]`, or an entry of the indirect block. -/
inductive Pos
  | addr (j : Fin (NDIRECT+1))
  | entry (j : Fin NINDIRECT)
  deriving DecidableEq

/-- `ip->addrs[NDIRECT]`. -/
def Dinode.ind (d : Dinode) : ℕ := d.addrs (Fin.last NDIRECT)

namespace Store

/-- The block number at a place of an inode. -/
def ptr (st : Store) (d : Dinode) : Pos → ℕ
  | .addr j => d.addrs j
  | .entry j => if d.ind = 0 then 0 else (st.block d.ind).word j.val

variable {st st' : Store} {d d' : Dinode} {sb : Superblock} {b : ℕ}

lemma ptr_congr (ha : d'.addrs = d.addrs) (hb : d.ind ≠ 0 → st'.block d.ind = st.block d.ind)
    (p : Pos) : st'.ptr d' p = st.ptr d p := by
  have hi : d'.ind = d.ind := congrFun ha _
  cases p with
  | addr j => exact congrFun ha j
  | entry j =>
    simp only [ptr,hi]
    split
    · rfl
    · rw [hb ‹_›]

lemma ptr_zero (hd : ∀ j, d.addrs j = 0) (p : Pos) : st.ptr d p = 0 := by
  cases p with
  | addr j => exact hd j
  | entry j => exact if_pos (hd _)

/-- `balloc` finds nothing, or marks a free block and zeroes it. -/
lemma balloc_cases (h : st.balloc sb = (b,st')) : (b = 0 ∧ st' = st) ∨
    (b < sb.size ∧ st.bitmap b = false ∧ st'.bitmap = update st.bitmap b true ∧
      st'.block = update st.block b fun _ => 0) := by
  unfold balloc at h
  split at h
  · rename_i c hc
    obtain ⟨rfl,rfl⟩ := Prod.mk.inj h
    have hm := mem_of_find?_eq_some hc
    have hf := List.find?_some hc
    exact .inr ⟨mem_range.mp hm,by simpa using hf,rfl,rfl⟩
  · obtain ⟨rfl,rfl⟩ := Prod.mk.inj h
    exact .inl ⟨rfl,rfl⟩

end Store

/-- The marked data blocks are exactly those that inodes in use point to, each from one place. -/
structure Own (sb : Superblock) (D : ℕ → Dinode) (st : Store) : Prop where
  small : sb.size ≤ 2^32
  meta_pos : 0 < sb.dataStart
  meta_marked : ∀ b, b < sb.dataStart → st.bitmap b
  mark : ∀ k p, (D k).type ≠ 0 → st.ptr (D k) p ≠ 0 →
    sb.dataStart ≤ st.ptr (D k) p ∧ st.ptr (D k) p < sb.size ∧ st.bitmap (st.ptr (D k) p)
  inj : ∀ k p k' p', (D k).type ≠ 0 → (D k').type ≠ 0 → st.ptr (D k) p ≠ 0 →
    st.ptr (D k) p = st.ptr (D k') p' → k = k' ∧ p = p'
  owned : ∀ b, sb.dataStart ≤ b → b < sb.size → st.bitmap b →
    ∃ k p, (D k).type ≠ 0 ∧ st.ptr (D k) p = b

namespace Own
variable {sb : Superblock} {D D' : ℕ → Dinode} {st st' : Store} {k : ℕ} {p : Pos} {b : ℕ}

variable (h : Own sb D st)
include h

lemma congr (hty : ∀ k, (D' k).type ≠ 0 ↔ (D k).type ≠ 0)
    (hptr : ∀ k p, (D k).type ≠ 0 → st'.ptr (D' k) p = st.ptr (D k) p)
    (hbm : st'.bitmap = st.bitmap) : Own sb D' st' where
  small := h.small
  meta_pos := h.meta_pos
  meta_marked := hbm ▸ h.meta_marked
  mark k p hk := by
    have hk := (hty k).mp hk
    rw [hptr k p hk,hbm]
    exact h.mark k p hk
  inj k p k' p' hk hk' := by
    have hk := (hty k).mp hk
    have hk' := (hty k').mp hk'
    rw [hptr k p hk,hptr k' p' hk']
    exact h.inj k p k' p' hk hk'
  owned b hb hb' hm := by
    obtain ⟨k,p,hk,hp⟩ := h.owned b hb hb' (hbm ▸ hm)
    exact ⟨k,p,(hty k).mpr hk,(hptr k p hk).trans hp⟩

lemma marked (hk : (D k).type ≠ 0) (hp : st.ptr (D k) p ≠ 0) :
    st.bitmap (st.ptr (D k) p) := (h.mark k p hk hp).2.2

lemma ptr_ne (hk : (D k).type ≠ 0) (hb : st.bitmap b = false) (h0 : b ≠ 0) :
    st.ptr (D k) p ≠ b := by
  rintro rfl
  have hm := h.marked hk h0
  simp [hb] at hm

lemma free_pos (hb : st.bitmap b = false) : sb.dataStart ≤ b := by
  by_contra hc
  have := h.meta_marked b (by omega)
  simp [hb] at this

lemma free_ne (hb : st.bitmap b = false) : b ≠ 0 :=
  (h.meta_pos.trans_le (h.free_pos hb)).ne'

/-- A free block is put at a place that held no block number; all other places keep theirs. -/
lemma claim (hb : st.bitmap b = false) (hbs : b < sb.size)
    (hty : ∀ k, (D' k).type ≠ 0 ↔ (D k).type ≠ 0) (hk : (D k).type ≠ 0)
    (h0 : st.ptr (D k) p = 0) (hp : st'.ptr (D' k) p = b)
    (hsame : ∀ k' p', (D k').type ≠ 0 → ¬(k' = k ∧ p' = p) → st'.ptr (D' k') p' = st.ptr (D k') p')
    (hbm : st'.bitmap = update st.bitmap b true) : Own sb D' st' := by
  have hstart := h.free_pos hb
  have hb0 := h.free_ne hb
  have hbm' : ∀ c, st.bitmap c → st'.bitmap c := by
    intro c hc
    rw [hbm,update_apply]
    split <;> simp [hc]
  have hself : st'.bitmap b := by simp [hbm]
  refine ⟨h.small,h.meta_pos,fun c hc => hbm' c (h.meta_marked c hc),?_,?_,?_⟩
  · intro k' p' hk' hp'
    have hk' := (hty k').mp hk'
    by_cases he : k' = k ∧ p' = p
    · obtain ⟨rfl,rfl⟩ := he
      rw [hp]
      exact ⟨hstart,hbs,hself⟩
    · rw [hsame k' p' hk' he] at hp' ⊢
      obtain ⟨h₁,h₂,h₃⟩ := h.mark k' p' hk' hp'
      exact ⟨h₁,h₂,hbm' _ h₃⟩
  · intro k₁ p₁ k₂ p₂ hk₁ hk₂ hp₁ heq
    have hk₁ := (hty k₁).mp hk₁
    have hk₂ := (hty k₂).mp hk₂
    by_cases h₁ : k₁ = k ∧ p₁ = p <;> by_cases h₂ : k₂ = k ∧ p₂ = p
    · exact ⟨h₁.1.trans h₂.1.symm,h₁.2.trans h₂.2.symm⟩
    · obtain ⟨rfl,rfl⟩ := h₁
      rw [hp,hsame k₂ p₂ hk₂ h₂] at heq
      exact absurd heq.symm (h.ptr_ne hk₂ hb hb0)
    · obtain ⟨rfl,rfl⟩ := h₂
      rw [hp,hsame k₁ p₁ hk₁ h₁] at heq
      exact absurd heq (h.ptr_ne hk₁ hb hb0)
    · rw [hsame k₁ p₁ hk₁ h₁] at hp₁ heq
      rw [hsame k₂ p₂ hk₂ h₂] at heq
      exact h.inj k₁ p₁ k₂ p₂ hk₁ hk₂ hp₁ heq
  · intro c hc hc' hm
    by_cases hcb : c = b
    · exact ⟨k,p,(hty k).mpr hk,hp.trans hcb.symm⟩
    · rw [hbm,update_of_ne hcb] at hm
      obtain ⟨k',p',hk',hp'⟩ := h.owned c hc hc' hm
      refine ⟨k',p',(hty k').mpr hk',?_⟩
      rw [hsame k' p' hk' ?_,hp']
      rintro ⟨rfl,rfl⟩
      have hst := h.meta_pos
      omega

/-- An inode gives up its blocks, if it has any, and no longer points to one. -/
lemma release {d : Dinode} (hd : ∀ j, d.addrs j = 0)
    (hblk : st'.block = st.block) (hbm : ∀ b, st'.bitmap b = true ↔
      st.bitmap b = true ∧ (b = 0 ∨ (D k).type = 0 ∨ ∀ p, st.ptr (D k) p ≠ b)) :
    Own sb (update D k d) st' := by
  have hother : ∀ k' p, k' ≠ k → st'.ptr (update D k d k') p = st.ptr (D k') p := by
    intro k' p hk
    rw [update_of_ne hk]
    exact Store.ptr_congr rfl (fun _ => congrFun hblk _) p
  have hself : ∀ p, st'.ptr (update D k d k) p = 0 := by
    rw [update_self]
    exact Store.ptr_zero hd
  have hty : ∀ k', k' ≠ k → (update D k d k').type ≠ 0 → (D k').type ≠ 0 := by
    intro k' hk
    rw [update_of_ne hk]
    exact id
  refine ⟨h.small,h.meta_pos,fun b hb => ?_,?_,?_,?_⟩
  · refine (hbm b).mpr ⟨h.meta_marked b hb,?_⟩
    by_contra hc
    push Not at hc
    obtain ⟨hb0,hk,p,rfl⟩ := hc
    have := (h.mark k p hk hb0).1
    omega
  · intro k' p hk' hp
    by_cases hk : k' = k
    · exact absurd (hk ▸ hself p) hp
    · rw [hother k' p hk] at hp ⊢
      obtain ⟨h₁,h₂,h₃⟩ := h.mark k' p (hty k' hk hk') hp
      refine ⟨h₁,h₂,(hbm _).mpr ⟨h₃,?_⟩⟩
      by_contra hc
      push Not at hc
      obtain ⟨_,hkt,p',he⟩ := hc
      exact hk (h.inj k' p k p' (hty k' hk hk') hkt hp he.symm).1
  · intro k₁ p₁ k₂ p₂ hk₁ hk₂ hp heq
    by_cases h₁ : k₁ = k
    · exact absurd (h₁ ▸ hself p₁) hp
    · by_cases h₂ : k₂ = k
      · exact absurd (heq.trans (h₂ ▸ hself p₂)) hp
      · rw [hother k₁ p₁ h₁] at hp heq
        rw [hother k₂ p₂ h₂] at heq
        exact h.inj k₁ p₁ k₂ p₂ (hty k₁ h₁ hk₁) (hty k₂ h₂ hk₂) hp heq
  · intro b hb hbs hm
    obtain ⟨hm,hor⟩ := (hbm b).mp hm
    obtain ⟨k',p,hk',hp⟩ := h.owned b hb hbs hm
    have hk : k' ≠ k := by
      rintro rfl
      have hpos := h.meta_pos
      rcases hor with h0 | h0 | h0
      · omega
      · exact hk' h0
      · exact h0 p hp
    exact ⟨k',p,by rw [update_of_ne hk]; exact hk',(hother k' p hk).trans hp⟩

end Own

namespace Data

def ptr (x : Data Store) (p : Pos) : ℕ := x.st.ptr x.d p

/-- The place of the pointer to block `bn` of a file, for `bn` below `MAXFILE`. -/
def dataPos (bn : ℕ) : Pos :=
  if h : bn < NDIRECT then .addr ⟨bn,Nat.lt_succ_of_lt h⟩
  else if h' : bn-NDIRECT < NINDIRECT then .entry ⟨bn-NDIRECT,h'⟩
  else .addr (Fin.last NDIRECT)

/-- Blocks may have been added to a file: what it had it keeps, and new blocks were free. -/
structure Kept (x y : Data Store) : Prop where
  keep : ∀ p, x.ptr p ≠ 0 → y.ptr p = x.ptr p
  fresh : ∀ p, x.ptr p = 0 → y.ptr p ≠ 0 → x.st.bitmap (y.ptr p) = false
  mono : ∀ b, x.st.bitmap b → y.st.bitmap b

/-- Of the blocks in use only the indirect block of the file may have changed. -/
structure Ext (x y : Data Store) : Prop extends Kept x y where
  d_eq : y.d = { x.d with addrs := y.d.addrs }
  frame : ∀ b, x.st.bitmap b → b ≠ x.d.ind → y.st.block b = x.st.block b

/-- A file has been written to or has grown: no block in use changes but its own. -/
structure Grow (x y : Data Store) : Prop extends Kept x y where
  d_eq : y.d = { x.d with addrs := y.d.addrs, size := y.d.size }
  frame : ∀ b, x.st.bitmap b → (∀ p, x.ptr p ≠ b) → y.st.block b = x.st.block b

section Kept
variable {x y z : Data Store}

lemma Kept.refl (x : Data Store) : Kept x x := ⟨fun _ _ => rfl,fun _ h h' => absurd h h',fun _ => id⟩

/-- A block in use that the file points to was already its own. -/
lemma Kept.old (h : Kept x y) {p : Pos} (hb : x.st.bitmap (y.ptr p)) : x.ptr p = y.ptr p := by
  by_cases h0 : x.ptr p = 0
  · by_contra hne
    have := h.fresh p h0 fun hy => hne (h0.trans hy.symm)
    simp [hb] at this
  · exact (h.keep p h0).symm

lemma Kept.trans (h : Kept x y) (h' : Kept y z) : Kept x z where
  keep p hp := by
    have hy := h.keep p hp
    exact (h'.keep p (hy ▸ hp)).trans hy
  fresh p h0 hp := by
    by_cases hy : y.ptr p = 0
    · have hf := h'.fresh p hy hp
      by_contra hc
      simp [h.mono _ (by simpa using hc)] at hf
    · rw [h'.keep p hy]
      exact h.fresh p h0 hy
  mono b hb := h'.mono b (h.mono b hb)

lemma Ext.refl (x : Data Store) : Ext x x := ⟨.refl x,rfl,fun _ _ _ => rfl⟩

lemma Ext.trans (h : Ext x y) (h' : Ext y z) : Ext x z where
  toKept := h.toKept.trans h'.toKept
  d_eq := by rw [h'.d_eq,h.d_eq]
  frame b hb hne := by
    have hind : b ≠ y.d.ind := by
      rintro rfl
      exact hne (h.old (p := .addr (Fin.last NDIRECT)) hb).symm
    rw [h'.frame b (h.mono b hb) hind,h.frame b hb hne]

lemma Ext.grow (h : Ext x y) : Grow x y where
  toKept := h.toKept
  d_eq := by rw [h.d_eq]
  frame b hb hp := h.frame b hb fun he => hp (.addr (Fin.last NDIRECT)) he.symm

namespace Grow

lemma trans (h : Grow x y) (h' : Grow y z) : Grow x z where
  toKept := h.toKept.trans h'.toKept
  d_eq := by rw [h'.d_eq,h.d_eq]
  frame b hb hne := by
    have hy : ∀ p, y.ptr p ≠ b := by
      rintro p rfl
      exact hne p (h.old hb)
    rw [h'.frame b (h.mono b hb) hy,h.frame b hb hne]

lemma type_eq (h : Grow x y) : y.d.type = x.d.type := by rw [h.d_eq]

lemma resize (h : Grow x y) (n : ℕ) : Grow x ⟨{ y.d with size := n },y.st⟩ where
  d_eq := by rw [h.d_eq]
  keep p hp := (Store.ptr_congr rfl (fun _ => rfl) p).trans (h.keep p hp)
  fresh p h0 hp := by
    have he : ptr ⟨{ y.d with size := n },y.st⟩ p = y.ptr p := Store.ptr_congr rfl (fun _ => rfl) p
    rw [he] at hp ⊢
    exact h.fresh p h0 hp
  mono := h.mono
  frame := h.frame

end Grow
end Kept

/-- The inode is the one with number `k` of those that share the blocks, and is in use. -/
structure Owned (sb : Superblock) (D : ℕ → Dinode) (k : ℕ) (x : Data Store) : Prop
    extends Own sb D x.st where
  d_eq : D k = x.d
  used : x.d.type ≠ 0

namespace Owned
variable {sb : Superblock} {D : ℕ → Dinode} {k : ℕ} {x : Data Store} (h : Owned sb D k x)
include h

lemma type_ne : (D k).type ≠ 0 := h.d_eq ▸ h.used

lemma ptr_eq (p : Pos) : x.st.ptr (D k) p = x.ptr p := by rw [h.d_eq,ptr]

lemma self : Owned sb (update D k x.d) k x := by rwa [← h.d_eq,update_eq_self]

lemma marked_ptr {p : Pos} (h0 : x.ptr p ≠ 0) :
    sb.dataStart ≤ x.ptr p ∧ x.ptr p < sb.size ∧ x.st.bitmap (x.ptr p) := by
  have := h.mark k p h.type_ne
  rw [h.ptr_eq] at this
  exact this h0

lemma ptr_inj {p q : Pos} (h0 : x.ptr p ≠ 0) (he : x.ptr p = x.ptr q) : p = q := by
  rw [← h.ptr_eq,← h.ptr_eq] at he
  exact (h.inj k p k q h.type_ne h.type_ne ((h.ptr_eq p).trans_ne h0) he).2

end Owned

variable {sb : Superblock} {D : ℕ → Dinode} {k : ℕ} {x y : Data Store} {a : ℕ}

lemma type_update {d : Dinode} (hd : d.type = (D k).type) (k' : ℕ) :
    (update D k d k').type ≠ 0 ↔ (D k').type ≠ 0 := by
  by_cases h : k' = k
  · subst h
    rw [update_self,hd]
  · rw [update_of_ne h]

variable {st : Store} {b bn c : ℕ}

lemma ptr_balloc (h : Own sb D x.st) (hb : x.st.bitmap b = false)
    (hst : st.block = update x.st.block b fun _ => 0) {k' : ℕ} (hk : (D k').type ≠ 0)
    (p : Pos) : st.ptr (D k') p = x.st.ptr (D k') p := by
  refine Store.ptr_congr rfl (fun h0 => ?_) p
  have hne : (D k').ind ≠ b := by
    intro he
    have hm : x.st.bitmap (D k').ind := h.marked (p := .addr (Fin.last NDIRECT)) hk h0
    simp [he,hb] at hm
  rw [hst,update_of_ne hne]

/-- Setting a pointer that was zero leaves the other places as they are; a new indirect block is
empty. -/
lemma ptr_setAddr {d : Dinode} {j : Fin (NDIRECT+1)} (h0 : d.addrs j = 0)
    (hb : st.block b = fun _ => 0) {p : Pos} (hp : p ≠ .addr j) :
    st.ptr (d.setAddr j b) p = st.ptr d p := by
  cases p with
  | addr i =>
    have hi : i ≠ j := fun he => hp (he ▸ rfl)
    exact update_of_ne hi _ _
  | entry i =>
    by_cases hj : j = Fin.last NDIRECT
    · subst hj
      have hd : d.ind = 0 := h0
      have hi : (d.setAddr (Fin.last NDIRECT) b).ind = b := by simp [Dinode.ind,Dinode.setAddr]
      simp [Store.ptr,hd,hi,hb]
    · have hi : (d.setAddr j b).ind = d.ind := update_of_ne (Ne.symm hj) _ _
      simp only [Store.ptr,hi]

lemma block_balloc (hb : x.st.bitmap b = false)
    (hst : st.block = update x.st.block b fun _ => 0) (hc : x.st.bitmap c) :
    st.block c = x.st.block c := by
  rw [hst,update_of_ne]
  rintro rfl
  simp [hb] at hc

lemma addr_eq (hb : x.st.balloc sb = (b,st)) (j : Fin (NDIRECT+1)) : sb.blocks.addr x j =
    .ok (if x.d.addrs j = 0 then if b = 0 then (0,⟨x.d,st⟩) else (b,⟨x.d.setAddr j b,st⟩)
      else (x.d.addrs j,x)) := by
  have hb' : sb.blocks.balloc x.st = .ok (b,st) := congrArg _ hb
  rw [Blocks.addr,hb']
  simp only [apply_ite Except.ok]
  rfl

lemma entry_eq (hb : x.st.balloc sb = (b,st)) (ind j : ℕ) : sb.blocks.entry x ind j =
    .ok (if (x.st.block ind).word j = 0 then
        if b = 0 then (0,⟨x.d,st⟩) else (b,⟨x.d,st.setBlock ind ((x.st.block ind).setWord j b)⟩)
      else ((x.st.block ind).word j,x)) := by
  have hb' : sb.blocks.balloc x.st = .ok (b,st) := congrArg _ hb
  simp only [Blocks.entry,blocks_bread,bind,Except.bind,hb',apply_ite Except.ok]
  rfl

/-- A free block has been put at an empty place of the inode, and the others are as before. -/
lemma claim_spec (h : Owned sb D k x) (hfree : x.st.bitmap b = false) (hbs : b < sb.size) {p : Pos}
    (h0 : x.ptr p = 0) (hd : y.d = { x.d with addrs := y.d.addrs }) (hp : y.ptr p = b)
    (hself : ∀ q, q ≠ p → y.ptr q = x.ptr q)
    (hothers : ∀ k' q, k' ≠ k → (D k').type ≠ 0 → y.st.ptr (D k') q = x.st.ptr (D k') q)
    (hbm : y.st.bitmap = update x.st.bitmap b true)
    (hframe : ∀ c, x.st.bitmap c → c ≠ x.d.ind → y.st.block c = x.st.block c) :
    Owned sb (update D k y.d) k y ∧ Ext x y := by
  have hty : y.d.type = x.d.type := by rw [hd]
  refine ⟨⟨?_,update_self _ _ _,hty ▸ h.used⟩,⟨fun q hq => ?_,fun q hq hq' => ?_,fun c hc => ?_⟩,hd,
    hframe⟩
  · refine h.claim hfree hbs (type_update (by rw [h.d_eq,hty])) h.type_ne ((h.ptr_eq p).trans h0)
      (by rw [update_self]; exact hp) (fun k' q hk' hne => ?_) hbm
    by_cases hk : k' = k
    · subst hk
      rw [update_self,h.ptr_eq]
      exact hself q fun hq => hne ⟨rfl,hq⟩
    · rw [update_of_ne hk]
      exact hothers k' q hk hk'
  · exact hself q fun he => hq (he ▸ h0)
  · by_cases he : q = p
    · rw [he,hp,hfree]
    · exact absurd ((hself q he).trans hq) hq'
  · rw [hbm,update_apply]
    split <;> simp [hc]

lemma addr_spec (h : Owned sb D k x) {j : Fin (NDIRECT+1)} (hx : sb.blocks.addr x j = .ok (a,y)) :
    Owned sb (update D k y.d) k y ∧ Ext x y ∧ y.ptr (.addr j) = a ∧
      ∀ p, p ≠ .addr j → y.ptr p = x.ptr p := by
  rcases hb : x.st.balloc sb with ⟨b,st⟩
  rw [addr_eq hb,Except.ok.injEq] at hx
  split_ifs at hx with h0 hb0
  · rcases Store.balloc_cases hb with ⟨-,rfl⟩ | ⟨-,hfree,-⟩
    · cases hx
      exact ⟨h.self,.refl x,h0,fun _ _ => rfl⟩
    · exact absurd hb0 (h.free_ne hfree)
  · obtain ⟨rfl,rfl⟩ := Prod.mk.inj hx
    obtain ⟨rfl,-⟩ | ⟨hbs,hfree,hbm,hblk⟩ := Store.balloc_cases hb
    · exact absurd rfl hb0
    have hset : st.ptr (x.d.setAddr j b) (.addr j) = b := update_self _ _ _
    have hother : ∀ p, p ≠ .addr j → st.ptr (x.d.setAddr j b) p = x.ptr p := by
      intro p hp
      rw [ptr_setAddr h0 (by rw [hblk,update_self]) hp,← h.d_eq,ptr_balloc h.toOwn hfree hblk h.type_ne,
        h.ptr_eq]
    exact And.imp_right (fun hext => ⟨hext,hset,hother⟩) (claim_spec (p := .addr j) h hfree hbs h0 rfl
      hset hother (fun k' q _ hk' => ptr_balloc h.toOwn hfree hblk hk' q) hbm
      fun c hc _ => block_balloc hfree hblk hc)
  · cases hx
    exact ⟨h.self,.refl x,rfl,fun _ _ => rfl⟩

lemma entry_spec (h : Owned sb D k x) (hi : x.d.ind ≠ 0) {j : Fin NINDIRECT}
    (hx : sb.blocks.entry x x.d.ind j.val = .ok (a,y)) :
    Owned sb (update D k y.d) k y ∧ Ext x y ∧ y.ptr (.entry j) = a := by
  have hptr : x.ptr (.entry j) = (x.st.block x.d.ind).word j.val := if_neg hi
  rcases hb : x.st.balloc sb with ⟨b,st⟩
  rw [entry_eq hb,Except.ok.injEq] at hx
  split_ifs at hx with h0 hb0
  · rcases Store.balloc_cases hb with ⟨-,rfl⟩ | ⟨-,hfree,-⟩
    · cases hx
      exact ⟨h.self,.refl x,hptr.trans h0⟩
    · exact absurd hb0 (h.free_ne hfree)
  · obtain ⟨rfl,rfl⟩ := Prod.mk.inj hx
    obtain ⟨rfl,-⟩ | ⟨hbs,hfree,hbm,hblk⟩ := Store.balloc_cases hb
    · exact absurd rfl hb0
    -- the pointers of this inode: one entry of the indirect block is new
    have hset : (st.setBlock x.d.ind ((x.st.block x.d.ind).setWord j.val b)).ptr x.d (.entry j) =
        b := by
      have hlt : b < 2^32 := lt_of_lt_of_le hbs h.small
      simp only [Store.ptr,if_neg hi,Store.setBlock,update_self]
      rw [Block.word_setWord _ _ j.isLt,Nat.mod_eq_of_lt hlt]
    refine And.imp_right (fun hext => ⟨hext,hset⟩) (claim_spec (p := .entry j) h hfree hbs
      (hptr.trans h0) rfl hset (fun p hp => ?_) (fun k' p hk hk' => ?_) hbm fun c hc hne => ?_)
    · cases p with
      | addr i => rfl
      | entry i =>
        have hij : i.val ≠ j.val := fun he => hp (by rw [Fin.ext he])
        simp only [ptr,Store.ptr,if_neg hi,Store.setBlock,update_self]
        rw [Block.word_setWord_ne _ _ hij]
    · -- another inode has another indirect block
      rw [← ptr_balloc h.toOwn hfree hblk hk' p]
      refine Store.ptr_congr rfl (fun hi' => update_of_ne (fun he => hk ?_) _ _) p
      exact (h.inj k' (.addr (Fin.last NDIRECT)) k (.addr (Fin.last NDIRECT)) hk' h.type_ne hi'
        (by rw [h.d_eq]; exact he)).1
    · exact (update_of_ne hne _ _).trans (block_balloc hfree hblk hc)
  · cases hx
    exact ⟨h.self,.refl x,hptr⟩

/-- `bmap` succeeds or runs out of blocks; either way ownership stands, and nothing but the
indirect block is written. -/
lemma bmap_spec (h : Owned sb D k x) (hbn : bn < MAXFILE) : ∃ a y, sb.blocks.bmap x bn = .ok (a,y) ∧
    Owned sb (update D k y.d) k y ∧ Ext x y ∧ y.ptr (dataPos bn) = a := by
  unfold Blocks.bmap dataPos
  split
  · rename_i hd
    have hy := addr_eq (rfl : x.st.balloc sb = (_,_)) ⟨bn,Nat.lt_succ_of_lt hd⟩
    obtain ⟨h₁,h₂,h₃,_⟩ := addr_spec h hy
    exact ⟨_,_,hy,h₁,h₂,h₃⟩
  · rename_i hd
    have hin : bn-NDIRECT < NINDIRECT := by simp only [MAXFILE] at hbn; omega
    obtain ⟨⟨ind,y⟩,hy⟩ : ∃ r, sb.blocks.addr x (Fin.last NDIRECT) = .ok r := ⟨_,addr_eq rfl _⟩
    obtain ⟨h₁,h₂,h₃,_⟩ := addr_spec h hy
    rw [if_pos hin,hy]
    simp only [bind,Except.bind]
    split
    · rename_i h0
      refine ⟨0,y,rfl,h₁,h₂,?_⟩
      have hi : y.d.ind = 0 := h₃.trans h0
      simp [ptr,Store.ptr,hi]
    · rename_i h0
      obtain rfl : y.d.ind = ind := h₃
      have hz := entry_eq (rfl : y.st.balloc sb = (_,_)) y.d.ind (bn-NDIRECT)
      obtain ⟨g₁,g₂,g₃⟩ := entry_spec h₁ h0 (j := ⟨bn-NDIRECT,hin⟩) hz
      rw [update_idem] at g₁
      exact ⟨_,_,hz,g₁,h₂.trans g₂,by simpa [hin] using g₃⟩

lemma bmap_of_ptr (hbn : bn < MAXFILE) (h0 : x.ptr (dataPos bn) ≠ 0) :
    sb.blocks.bmap x bn = .ok (x.ptr (dataPos bn),x) := by
  unfold Blocks.bmap
  by_cases hd : bn < NDIRECT
  · have hpos : dataPos bn = .addr ⟨bn,Nat.lt_succ_of_lt hd⟩ := dif_pos hd
    rw [hpos] at h0 ⊢
    rw [dif_pos hd]
    exact if_neg h0
  · have hin : bn-NDIRECT < NINDIRECT := by simp only [MAXFILE] at hbn; omega
    have hpos : dataPos bn = .entry ⟨bn-NDIRECT,hin⟩ := by simp only [dataPos,hd,hin,dite_true,dite_false]
    rw [hpos] at h0 ⊢
    have hi : x.d.ind ≠ 0 := fun hi => h0 (by simp [ptr,Store.ptr,hi])
    have he : x.ptr (.entry ⟨bn-NDIRECT,hin⟩) = (x.st.block x.d.ind).word (bn-NDIRECT) := if_neg hi
    rw [he] at h0 ⊢
    have ha : sb.blocks.addr x (Fin.last NDIRECT) = .ok (x.d.ind,x) := if_neg hi
    rw [dif_neg hd,if_pos hin,ha]
    exact (if_neg hi).trans (if_neg h0)

lemma dataPos_ne (hbn : bn < MAXFILE) : dataPos bn ≠ .addr (Fin.last NDIRECT) := by
  unfold dataPos
  split
  · rename_i hd
    intro he
    have hv : bn = NDIRECT := congrArg Fin.val (Pos.addr.inj he)
    omega
  · have hin : bn-NDIRECT < NINDIRECT := by simp only [MAXFILE] at hbn; omega
    rw [dif_pos hin]
    exact fun he => nomatch he

lemma dataPos_inj {a : ℕ} (ha : a < MAXFILE) (hb : b < MAXFILE) (h : dataPos a = dataPos b) :
    a = b := by
  simp only [MAXFILE] at ha hb
  unfold dataPos at h
  split_ifs at h <;> simp_all <;> omega

lemma write_spec (h : Owned sb D k x) (hbn : bn < MAXFILE) (v : Block) :
    Owned sb D k ⟨x.d,x.st.setBlock (x.ptr (dataPos bn)) v⟩ ∧
      Grow x ⟨x.d,x.st.setBlock (x.ptr (dataPos bn)) v⟩ ∧
      ∀ p, ptr ⟨x.d,x.st.setBlock (x.ptr (dataPos bn)) v⟩ p = x.ptr p := by
  have hptr : ∀ k' p, (D k').type ≠ 0 →
      (x.st.setBlock (x.ptr (dataPos bn)) v).ptr (D k') p = x.st.ptr (D k') p := by
    intro k' p hk'
    refine Store.ptr_congr rfl (fun hi => update_of_ne ?_ _ _) p
    intro he
    have := (h.inj k' (.addr (Fin.last NDIRECT)) k (dataPos bn) hk' h.type_ne hi
      (he.trans (h.ptr_eq _).symm)).2
    exact dataPos_ne hbn this.symm
  have hself : ∀ p, ptr ⟨x.d,x.st.setBlock (x.ptr (dataPos bn)) v⟩ p = x.ptr p := by
    intro p
    have := hptr k p h.type_ne
    rwa [h.d_eq] at this
  refine ⟨⟨h.congr (fun _ => Iff.rfl) hptr rfl,h.d_eq,h.used⟩,⟨⟨fun p _ => hself p,
    fun p hp hp' => absurd ((hself p).trans hp) hp',fun _ => id⟩,rfl,
    fun b _ hne => update_of_ne (Ne.symm (hne _)) _ _⟩,hself⟩

/-- The file has a block for every byte below its size. -/
structure Full (x : Data Store) : Prop where
  size_le : x.d.size ≤ MAXFILE*BSIZE
  ptr_ne : ∀ bn, bn*BSIZE < x.d.size → x.ptr (dataPos bn) ≠ 0

/-- What the loop of `writei` leaves when it has gone from `off` to `off'`. -/
structure Wrote (sb : Superblock) (D : ℕ → Dinode) (k : ℕ) (x : Data Store) (off off' : ℕ) (y : Data Store) :
    Prop where
  own : Owned sb (update D k y.d) k y
  grow : Grow x y
  size_eq : y.d.size = x.d.size
  filled : off < off' → ∀ bn, off < (bn+1)*BSIZE → bn*BSIZE < off' → y.ptr (dataPos bn) ≠ 0

lemma Wrote.at_once {off tot n : ℕ} (h : Owned sb (update D k y.d) k y) (hg : Grow x y)
    (hs : y.d.size = x.d.size) (htot : tot ≤ n) :
    ∃ tot' z, (Except.ok (tot,off,y) : Except String (ℕ×ℕ×Data Store)) = .ok (tot',off+(tot'-tot),z) ∧
      tot ≤ tot' ∧ tot' ≤ n ∧ Wrote sb D k x off (off+(tot'-tot)) z := by
  refine ⟨tot,y,?_,le_rfl,htot,?_⟩
  · rw [Nat.sub_self,Nat.add_zero]
  · rw [Nat.sub_self,Nat.add_zero]
    exact ⟨h,hg,hs,fun h => absurd h (lt_irrefl off)⟩

/-- The loop of `writei` never panics, keeps ownership, and leaves no hole in what it wrote. -/
lemma writeLoop_spec (src : ℕ → ℕ → List UInt8×Bool) (n fuel tot off : ℕ) (h : Owned sb D k x)
    (hoff : off+(n-tot) ≤ MAXFILE*BSIZE) (htot : tot ≤ n) :
    ∃ tot' y, sb.blocks.writeLoop src n fuel tot off x = .ok (tot',off+(tot'-tot),y) ∧
      tot ≤ tot' ∧ tot' ≤ n ∧ Wrote sb D k x off (off+(tot'-tot)) y := by
  induction fuel generalizing tot off x D with
  | zero => exact Wrote.at_once h.self (Ext.refl x).grow rfl htot
  | succ fuel ih =>
    rw [Blocks.writeLoop]
    split
    · rename_i hlt
      have hbn : off/BSIZE < MAXFILE := by
        rw [Nat.div_lt_iff_lt_mul (by decide)]
        omega
      obtain ⟨a,y,hb,hown,hext,hptr⟩ := bmap_spec h hbn
      have hsize : y.d.size = x.d.size := by rw [hext.d_eq]
      rw [hb]
      simp only [bind,Except.bind,pure,Except.pure]
      split
      · exact Wrote.at_once hown hext.grow hsize htot
      · rename_i ha
        rcases hsrc : src tot (min (n-tot) (BSIZE-off%BSIZE)) with ⟨l,ok⟩
        simp only [blocks_bread,blocks_store,blocks_logWrite]
        -- the block is overwritten, whether or not the copy succeeded
        obtain ⟨hown',hg,_⟩ := write_spec hown hbn (overwrite (y.st.block a) (off%BSIZE) l)
        rw [hptr] at hown' hg
        have hxg := hext.grow.trans hg
        split
        · have hmod : off%BSIZE < BSIZE := Nat.mod_lt _ (by decide)
          have hdm : BSIZE*(off/BSIZE)+off%BSIZE = off := Nat.div_add_mod _ _
          set m := min (n-tot) (BSIZE-off%BSIZE) with hm
          have hm0 : 0 < m := by omega
          obtain ⟨tot',z,hz,hle,hn,hw⟩ := ih (tot+m) (off+m) hown' (by omega) (by omega)
          have he : off+m+(tot'-(tot+m)) = off+(tot'-tot) := by omega
          rw [he] at hz hw
          refine ⟨tot',z,hz,by omega,hn,⟨?_,hxg.trans hw.grow,hw.size_eq.trans hsize,?_⟩⟩
          · have := hw.own
            rwa [update_idem] at this
          · intro _ bn h₁ h₂
            by_cases hbe : bn = off/BSIZE
            · subst hbe
              have hy0 : y.ptr (dataPos (off/BSIZE)) ≠ 0 := hptr ▸ ha
              have hkeep := hg.keep (dataPos (off/BSIZE)) hy0
              rw [hw.grow.keep _ (by rw [hkeep]; exact hy0),hkeep]
              exact hy0
            · have hlow : off/BSIZE < bn := by
                have := (Nat.div_lt_iff_lt_mul (x := off) (by decide : 0 < BSIZE)).mpr h₁
                omega
              have hge : (off/BSIZE+1)*BSIZE ≤ bn*BSIZE := Nat.mul_le_mul_right _ hlow
              have hring : (off/BSIZE+1)*BSIZE = BSIZE*(off/BSIZE)+BSIZE := by ring
              have hring' : (bn+1)*BSIZE = bn*BSIZE+BSIZE := by ring
              exact hw.filled (by omega) bn (by omega) h₂
        · exact Wrote.at_once hown' hxg hsize htot
    · exact Wrote.at_once h.self (Ext.refl x).grow rfl htot

/-- `writei` never panics and keeps ownership, and a file without holes has none afterwards. -/
lemma writei_spec (src : ℕ → ℕ → List UInt8×Bool) (off n : ℕ) (h : Owned sb D k x)
    (hf : Full x) : ∃ r y, sb.blocks.writei src off n x = .ok (r,y) ∧
      Owned sb (update D k y.d) k y ∧ Grow x y ∧ Full y ∧ (r = -1 → y = x) := by
  have hrefuse : Owned sb (update D k x.d) k x ∧ Grow x x ∧ Full x ∧ ((-1 : ℤ) = -1 → x = x) :=
    ⟨h.self,(Ext.refl x).grow,hf,fun _ => rfl⟩
  unfold Blocks.writei
  split
  · exact ⟨-1,x,rfl,hrefuse⟩
  · rename_i hoff
    split
    · exact ⟨-1,x,rfl,hrefuse⟩
    · rename_i hmax
      obtain ⟨tot,y,hy,_,hn,hw⟩ := writeLoop_spec src n n 0 off h (by omega) (Nat.zero_le n)
      rw [Nat.sub_zero] at hy hw
      rw [hy]
      refine ⟨_,_,rfl,?_,hw.grow.resize _,⟨?_,?_⟩,fun hr => absurd hr (by omega)⟩
      · refine ⟨hw.own.congr (fun k' => ?_) (fun k' p _ => ?_) rfl,update_self _ _ _,hw.own.used⟩
        · by_cases hkk : k' = k
          · subst hkk
            simp only [update_self]
          · simp only [update_of_ne hkk]
        · by_cases hkk : k' = k
          · subst hkk
            simp only [update_self]
            exact Store.ptr_congr rfl (fun _ => rfl) p
          · simp only [update_of_ne hkk]
      · have := hf.size_le
        have := hw.size_eq
        show max y.d.size (off+tot) ≤ _
        omega
      · intro bn hbn
        have he : ptr ⟨{ y.d with size := max y.d.size (off+tot) },y.st⟩ (dataPos bn) =
          y.ptr (dataPos bn) := Store.ptr_congr rfl (fun _ => rfl) _
        rw [he]
        have hbn : bn*BSIZE < max y.d.size (off+tot) := hbn
        have hsz := hw.size_eq
        by_cases hold : bn*BSIZE < x.d.size
        · have h0 := hf.ptr_ne bn hold
          rw [hw.grow.keep _ h0]
          exact h0
        · have hring : (bn+1)*BSIZE = bn*BSIZE+BSIZE := by ring
          have hB : 0 < BSIZE := by decide
          exact hw.filled (by omega) bn (by omega) (by omega)

/-- The loops of `itrunc` succeed when the blocks to be freed are marked and distinct. -/
lemma freeAll_ok {l : List ℕ} (st : Store) (hd : (l.filter (· ≠ 0)).Nodup)
    (hm : ∀ b ∈ l, b ≠ 0 → st.bitmap b) : ∃ st', freeAll Store.bfree l st = .ok st' ∧ st'.block = st.block ∧
      ∀ b, st'.bitmap b = true ↔ st.bitmap b = true ∧ (b = 0 ∨ b ∉ l) := by
  induction l generalizing st with
  | nil => exact ⟨st,rfl,rfl,fun b => by simp⟩
  | cons c l ih =>
    by_cases hc : c = 0
    · subst hc
      obtain ⟨st',h₁,h₂,h₃⟩ := ih st (by simpa using hd)
        fun b hb => hm b (mem_cons_of_mem _ hb)
      refine ⟨st',by rw [freeAll,if_pos rfl,h₁],h₂,fun b => ?_⟩
      rw [h₃ b,mem_cons]
      tauto
    · have hcm : st.bitmap c := hm c mem_cons_self hc
      rw [filter_cons_of_pos (by simpa using hc),nodup_cons] at hd
      have hcl : c ∉ l := fun hmem => hd.1 (mem_filter.mpr ⟨hmem,by simpa using hc⟩)
      obtain ⟨st',h₁,h₂,h₃⟩ := ih
        ({ st with bitmap := update st.bitmap c false }) hd.2 (by
          intro b hb hb0
          have hbc : b ≠ c := fun he => hcl (he ▸ hb)
          simpa [update_of_ne hbc] using hm b (mem_cons_of_mem _ hb) hb0)
      refine ⟨st',by simp [freeAll,hc,Store.bfree,hcm,h₁,bind,Except.bind],h₂,fun b => ?_⟩
      rw [h₃ b,mem_cons]
      by_cases hbc : b = c
      · subst hbc
        simp [hc]
      · simp [hbc]

lemma freeAll_append (l l' : List ℕ) (st : Store) :
    freeAll Store.bfree (l++l') st = (freeAll Store.bfree l st >>= freeAll Store.bfree l') := by
  induction l generalizing st with
  | nil => rfl
  | cons c l ih =>
    rw [cons_append,freeAll,freeAll]
    split
    · exact ih st
    · cases st.bfree c with
      | error m => rfl
      | ok st => exact ih st

/-- The places of an inode in the order in which `itrunc` visits them. -/
def allPos : List Pos :=
  (List.finRange NDIRECT).map (fun j => .addr j.castSucc)++(List.finRange NINDIRECT).map .entry++
    [.addr (Fin.last NDIRECT)]

lemma mem_allPos (p : Pos) : p ∈ allPos := by
  cases p with
  | addr j =>
    refine Fin.lastCases ?_ (fun j => ?_) j
    · simp [allPos]
    · simp [allPos]
  | entry j => simp [allPos]

lemma allPos_nodup : allPos.Nodup := by
  unfold allPos
  refine List.Nodup.append (List.Nodup.append ?_ ?_ ?_) (nodup_singleton _) ?_
  · refine (nodup_finRange _).map fun a b h => ?_
    exact Fin.castSucc_injective _ (Pos.addr.inj h)
  · exact (nodup_finRange _).map fun a b h => Pos.entry.inj h
  · simp [List.Disjoint]
  · rintro a ha hb
    rw [mem_singleton] at hb
    subst hb
    simp [Fin.castSucc_ne_last] at ha

lemma freeAll_block {l : List ℕ} {st' : Store} (h : freeAll Store.bfree l st = .ok st') :
    st'.block = st.block := by
  induction l generalizing st with
  | nil => rw [← Except.ok.inj h]
  | cons c l ih =>
    rw [freeAll] at h
    split at h
    · exact ih h
    · unfold Store.bfree at h
      split at h
      · exact (ih h).trans rfl
      · cases h

lemma freeAll_zeros {l : List ℕ} (hl : ∀ b ∈ l, b = 0) (st : Store) : freeAll Store.bfree l st = .ok st := by
  induction l with
  | nil => rfl
  | cons c l ih =>
    rw [freeAll,if_pos (hl c mem_cons_self)]
    exact ih fun b hb => hl b (mem_cons_of_mem _ hb)

/-- `itrunc` frees what the inode's places hold, in this order. -/
lemma itrunc_eq (x : Data Store) :
    x.itrunc = (freeAll Store.bfree (allPos.map x.ptr) x.st).map fun st => ⟨x.d.trunc,st⟩ := by
  have hdir : (List.finRange NDIRECT).map (x.ptr ∘ fun j => .addr j.castSucc) = directs x.d := rfl
  simp only [allPos,map_append,map_map,hdir,freeAll_append,map_singleton]
  unfold itrunc Blocks.itrunc
  cases h₁ : freeAll Store.bfree (directs x.d) x.st with
  | error m => rfl
  | ok st =>
    have hind : x.ptr (.addr (Fin.last NDIRECT)) = x.d.ind := rfl
    have hb := freeAll_block h₁
    by_cases h0 : x.d.ind = 0
    · have hz : ∀ b ∈ (List.finRange NINDIRECT).map (x.ptr ∘ .entry), b = 0 := by
        intro b hb
        obtain ⟨j,_,rfl⟩ := mem_map.mp hb
        exact if_pos h0
      have h0' : x.d.addrs (Fin.last NDIRECT) = 0 := h0
      simp [bind,Except.bind,freeAll_zeros hz,freeAll,hind,h0,h0',Except.map,pure,Except.pure]
    · have he : (List.finRange NINDIRECT).map (x.ptr ∘ .entry) = indirects (st.block x.d.ind) := by
        rw [hb,indirects]
        refine ext_getElem (by simp) fun i h₁ h₂ => ?_
        rw [getElem_map,getElem_map]
        simp [ptr,Store.ptr,h0]
      have hd : x.d.addrs (Fin.last NDIRECT) = x.d.ind := rfl
      simp only [bind,Except.bind,he,hind,hd,if_neg h0,pure,Except.pure]
      cases freeAll Store.bfree (indirects (st.block x.d.ind)) st with
      | error m => rfl
      | ok st =>
        simp only [freeAll,if_neg h0,bind,Except.bind]
        cases st.bfree x.d.ind <;> rfl

/-- `itrunc` returns exactly the inode's blocks to the bitmap. -/
lemma itrunc_spec (h : Owned sb D k x) :
    ∃ st, x.itrunc = .ok ⟨x.d.trunc,st⟩ ∧ st.block = x.st.block ∧
      ∀ b, st.bitmap b = true ↔ x.st.bitmap b = true ∧ (b = 0 ∨ ∀ p, x.ptr p ≠ b) := by
  have hd : ((allPos.map x.ptr).filter (· ≠ 0)).Nodup := by
    rw [filter_map]
    refine (allPos_nodup.filter _).map_on fun a ha b _ he => ?_
    have ha0 : x.ptr a ≠ 0 := by simpa using (mem_filter.mp ha).2
    exact h.ptr_inj ha0 he
  have hm : ∀ b ∈ allPos.map x.ptr, b ≠ 0 → x.st.bitmap b := by
    intro b hb hb0
    obtain ⟨p,_,rfl⟩ := mem_map.mp hb
    exact (h.marked_ptr hb0).2.2
  obtain ⟨st,h₁,h₂,h₃⟩ := freeAll_ok _ hd hm
  refine ⟨st,?_,h₂,fun b => (h₃ b).trans ?_⟩
  · rw [itrunc_eq,h₁]
    rfl
  · simp [mem_allPos]

end Data
end Xv6.Fs
