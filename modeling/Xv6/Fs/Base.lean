import Xv6.Fs.Action

/-! What every action of every process keeps, in any order: each block of the disk has the owner
the bitmap says, files have no holes, and an inode in the table is the one on disk. -/
namespace Xv6.Fs
open List
open Function (update update_self update_apply update_of_ne update_eq_self)

open Itable (Entry Op Ref Stage Scan Table)

namespace Itable.Entry
variable {n : Entry} {k k' : Dinode} {p q : Fin NPROC} {g : Stage}

/-- Between actions a valid entry is a copy of the inode on disk, and only the holder of the
sleep-lock is at work with it. -/
structure Synced (n : Entry) (k : Dinode) : Prop where
  ref_eq : n.ref = n.refs.length
  locked : n.refs.countP (·.2.locks) = if n.holder.isSome then 1 else 0
  held : ∀ r ∈ n.refs, r.2.locks → n.holder = some r.1 ∧ n.valid
  synced : n.refs ≠ [] → n.valid → k.type ≠ 0 ∧ n.d = k

namespace Synced

variable (h : n.Synced k)
include h

lemma valid {r : Ref} (hr : r ∈ n.refs) (hl : r.2.locks) : n.valid ∧ k.type ≠ 0 ∧ n.d = k := by
  have hv := (h.held r hr hl).2
  exact ⟨hv,h.synced (ne_nil_of_mem hr) hv⟩

lemma unlocked (hn : n.holder = none) : ∀ r ∈ n.refs, r.2.locks = false := by
  intro r hr
  by_contra hc
  have := (h.held r hr (by simpa using hc)).1
  simp [hn] at this

/-- A reference is replaced by one of another stage, and the lock taken or released with it. -/
lemma move {a b : Ref} {n' : Entry} (ha : a ∈ n.refs)
    (hrefs : n'.refs = b::n.refs.erase a) (href : n'.ref = n.ref)
    (hother : ∀ r ∈ n.refs.erase a, r.2.locks = false)
    (hlock : if b.2.locks then n'.holder = some b.1 ∧ n'.valid else n'.holder = none)
    (hsync : n'.valid → k'.type ≠ 0 ∧ n'.d = k') : n'.Synced k' where
  ref_eq := by rw [hrefs,href,length_move ha,h.ref_eq]
  locked := by
    have hzero : (n.refs.erase a).countP (·.2.locks) = 0 :=
      countP_eq_zero.mpr fun r hr => by simp [hother r hr]
    rw [hrefs,countP_cons,hzero]
    split at hlock
    · rename_i hb
      simp [hb,hlock.1]
    · rename_i hb
      simp [hb,hlock]
  held r hr hl := by
    rw [hrefs,mem_cons] at hr
    rcases hr with rfl | hr
    · rw [if_pos hl] at hlock
      exact hlock
    · simp [hother r hr] at hl
  synced _ := hsync

lemma resize {n' : Entry} (hne : n.refs ≠ []) (href : n'.ref = n'.refs.length)
    (hcount : n'.refs.countP (·.2.locks) = n.refs.countP (·.2.locks))
    (hmem : ∀ r ∈ n'.refs, r.2.locks → r ∈ n.refs) (hh : n'.holder = n.holder)
    (hv : n'.valid = n.valid) (hd : n'.d = n.d) : n'.Synced k where
  ref_eq := href
  locked := by rw [hcount,hh,h.locked]
  held r hr hl := by
    rw [hh,hv]
    exact h.held r (hmem r hr hl) hl
  synced _ hv' := by
    rw [hd]
    exact h.synced hne (hv ▸ hv')

lemma share (hne : n.refs ≠ []) {w} :
    ({ n with ref := n.ref+1, refs := (p.val,.idle)::n.refs, new := w } : Entry).Synced k := by
  refine h.resize hne (congrArg (·+1) h.ref_eq) ?_ ?_ rfl rfl rfl
  · rw [countP_cons,if_neg (by simp [Stage.locks]),Nat.add_zero]
  · intro r hr hl
    rcases mem_cons.mp hr with rfl | hr
    · cases hl
    · exact hr

lemma pass (hm : (p.val,.idle) ∈ n.refs) : (passedEntry n p q).Synced k := by
  refine h.resize (ne_nil_of_mem hm) ?_ ?_ ?_ rfl rfl rfl
  · exact h.ref_eq.trans (length_move hm).symm
  · exact countP_move (b := (q.val,.idle)) hm (·.2.locks)
  · intro r hr hl
    rcases mem_cons.mp hr with rfl | hr
    · cases hl
    · exact mem_of_mem_erase hr

lemma erase (hm : (p.val,g) ∈ n.refs) (hl : g.locks = false) {w} :
    ({ n with ref := n.ref-1, refs := n.refs.erase (p.val,g), new := w } : Entry).Synced k := by
  refine h.resize (ne_nil_of_mem hm) ?_ ?_ (fun r hr _ => mem_of_mem_erase hr) rfl rfl rfl
  · show n.ref-1 = (n.refs.erase (p.val,g)).length
    rw [length_erase_of_mem hm,h.ref_eq]
  · have hc := (perm_cons_erase hm).countP_eq (·.2.locks)
    rw [countP_cons,if_neg (by simp [hl])] at hc
    exact hc.symm

lemma lock (hm : (p.val,.idle) ∈ n.refs) (hn : n.holder = none)
    (hty : n.valid = false → k.type ≠ 0) : (lockedEntry n k p).Synced k := by
  have hu := h.unlocked hn
  refine h.move (b := (p.val,.hold)) hm rfl rfl (fun r hr => hu r (mem_of_mem_erase hr))
    ⟨rfl,rfl⟩ fun _ => ?_
  cases hv : n.valid with
  | true => simpa [lockedEntry,hv] using h.synced (ne_nil_of_mem hm) hv
  | false => simpa [lockedEntry,hv] using hty hv

lemma unlock (hm : (p.val,.hold) ∈ n.refs) :
    ({ n.move p.val .hold .idle with holder := none } : Entry).Synced k :=
  h.move (b := (p.val,.idle)) hm rfl rfl (sole_of_locked h.locked hm rfl) rfl
    fun hv => h.synced (ne_nil_of_mem hm) hv

lemma test (hm : (p.val,.idle) ∈ n.refs) (hn : n.holder = none) (hv : n.valid) :
    ({ n.move p.val .idle .itrunc with holder := some p.val, new := none } : Entry).Synced k := by
  have hu := h.unlocked hn
  exact h.move (b := (p.val,.itrunc)) hm rfl rfl (fun r hr => hu r (mem_of_mem_erase hr))
    ⟨rfl,hv⟩ fun hv => h.synced (ne_nil_of_mem hm) hv

lemma free (hm : (p.val,.itrunc) ∈ n.refs) : (freedEntry n p).Synced k' :=
  h.move (b := (p.val,.drop)) hm rfl rfl (sole_of_locked h.locked hm rfl) rfl fun hv => nomatch hv

lemma change {d : Dinode} (hd : d.type ≠ 0) : ({ n with d := d } : Entry).Synced d where
  ref_eq := h.ref_eq
  locked := h.locked
  held := h.held
  synced _ _ := ⟨hd,rfl⟩

lemma recycle (hr : n.ref = 0) {dev inum : ℕ} {w} :
    ({ n with dev := dev, inum := inum, ref := 1, valid := false, refs := [(p.val,.idle)],
              new := w } : Entry).Synced k' where
  ref_eq := rfl
  locked := by
    have hl := h.locked
    have hnil : n.refs = [] := eq_nil_of_length_eq_zero (h.ref_eq ▸ hr)
    rw [hnil] at hl
    exact hl
  held r hr hl := by
    rw [mem_singleton] at hr
    subst hr
    cases hl
  synced _ hv := nomatch hv

lemma of_unused (hr : n.refs = []) : n.Synced k' :=
  ⟨h.ref_eq,h.locked,h.held,fun hne => absurd hr hne⟩

/-- `ialloc` takes over an inode: no entry has a copy of it. -/
lemma reuse (hk : k.type = 0) : n.Synced k' :=
  ⟨h.ref_eq,h.locked,h.held,fun hne hv => absurd hk (h.synced hne hv).1⟩

end Synced
end Itable.Entry
namespace Data
variable {sb : Superblock} {D : ℕ → Dinode} {k k' : ℕ} {x y : Data Store}

lemma Grow.block_other (hg : Grow x y) (h : Owned sb D k x) (hne : k' ≠ k) (hk' : (D k').type ≠ 0)
    {p : Pos} (h0 : x.st.ptr (D k') p ≠ 0) :
    y.st.block (x.st.ptr (D k') p) = x.st.block (x.st.ptr (D k') p) := by
  refine hg.frame _ (h.marked hk' h0) fun p' he => hne ?_
  exact (h.inj k' p k p' hk' h.type_ne h0 ((h.ptr_eq p').trans he).symm).1

lemma Grow.ptr_other (hg : Grow x y) (h : Owned sb D k x) (hne : k' ≠ k) (hk' : (D k').type ≠ 0)
    (p : Pos) : ptr ⟨D k',y.st⟩ p = ptr ⟨D k',x.st⟩ p :=
  Store.ptr_congr rfl (fun hi => hg.block_other h hne hk' (p := .addr (Fin.last NDIRECT)) hi) p

lemma Full.congr {d : Dinode} {st st' : Store} (h : Full ⟨d,st⟩)
    (hp : ∀ p, ptr ⟨d,st'⟩ p = ptr ⟨d,st⟩ p) : Full ⟨d,st'⟩ :=
  ⟨h.size_le,fun bn hbn => by rw [hp]; exact h.ptr_ne bn hbn⟩

lemma Full.of_size {d : Dinode} {st : Store} (h : d.size = 0) : Full ⟨d,st⟩ :=
  ⟨by simp [h],fun bn hbn => by simp [h] at hbn⟩

end Data

/-- The invariant of the file system below the level of names. -/
structure Base (sb : Superblock) (s : State) : Prop where
  sync : ∀ i, (s.table.inode i).Synced (s.table.dinode i)
  dev : ∀ i, (s.table.inode i).refs ≠ [] → (s.table.inode i).dev = ROOTDEV
  unique : ∀ i j, (s.table.inode i).refs ≠ [] → (s.table.inode j).refs ≠ [] →
    (s.table.inode i).inum = (s.table.inode j).inum → i = j
  scan : ∀ c ∈ s.table.scans, c.dev = ROOTDEV
  own : Own sb s.dinode s.store
  full : ∀ k, (s.dinode k).type ≠ 0 → Data.Full ⟨s.dinode k,s.store⟩

namespace Base
variable {sb : Superblock} {s t : State} {i : Slot} {p : Fin NPROC} {n : Entry} {k : Dinode}

section
variable (h : Base sb s)
include h

section
variable (hne : (s.table.inode i).refs ≠ [])
include hne

lemma dinode_eq : s.table.dinode i = s.dinode (s.table.inode i).inum := by
  rw [Table.dinode,h.dev i hne]
  rfl

lemma put_dinode (n : Entry) (k : Dinode) :
    (s.put i n k).dinode = update s.dinode (s.table.inode i).inum k := by
  funext j
  show (s.table.put i n k).disk ROOTDEV j = _
  rw [Table.put,Table.disk_setDisk,h.dev i hne,update_apply]
  simp only [true_and]
  rfl

/-- A step with an entry, after which the disk is as `hown` and `hfull` say. -/
lemma put (hdev : n.dev = (s.table.inode i).dev) (hinum : n.inum = (s.table.inode i).inum)
    (hs : n.Synced k) {st : Store} (hown : Own sb (update s.dinode (s.table.inode i).inum k) st)
    (hfull : ∀ j, (update s.dinode (s.table.inode i).inum k j).type ≠ 0 →
      Data.Full ⟨update s.dinode (s.table.inode i).inum k j,st⟩) :
    Base sb { s.put i n k with store := st } := by
  have hrefs : ∀ j, (s.put i n k |>.table.inode j).refs ≠ [] → (s.table.inode j).refs ≠ [] := by
    intro j hj
    by_cases hji : j = i
    · exact hji ▸ hne
    · rwa [State.put_inode_ne _ _ _ _ hji] at hj
  have hname : ∀ j, (s.put i n k |>.table.inode j).inum = (s.table.inode j).inum ∧
      (s.put i n k |>.table.inode j).dev = (s.table.inode j).dev := by
    intro j
    by_cases hji : j = i
    · subst hji
      rw [State.put_inode]
      exact ⟨hinum,hdev⟩
    · rw [State.put_inode_ne _ _ _ _ hji]
      exact ⟨rfl,rfl⟩
  have hd := h.put_dinode hne n k
  refine ⟨fun j => ?_,fun j hj => ?_,fun j j' hj hj' he => ?_,h.scan,?_,?_⟩
  · show ((s.put i n k).table.inode j).Synced ((s.put i n k).table.dinode j)
    by_cases hji : j = i
    · subst hji
      rw [State.put_inode,State.put_dinode hdev hinum]
      exact hs
    · rw [State.put_inode_ne _ _ _ _ hji]
      have hj := h.sync j
      by_cases hju : (s.table.inode j).refs = []
      · exact hj.of_unused hju
      · -- another entry in use is of another inode
        have hne' : (s.table.inode j).inum ≠ (s.table.inode i).inum :=
          fun he => hji (h.unique j i hju hne he)
        have : (s.put i n k).table.dinode j = s.table.dinode j := by
          show (s.put i n k).table.disk ((s.put i n k).table.inode j).dev
            ((s.put i n k).table.inode j).inum = _
          rw [State.put_inode_ne _ _ _ _ hji,h.dev j hju,h.dinode_eq hju]
          show (s.put i n k).dinode _ = _
          rw [hd,update_of_ne hne']
        rw [this]
        exact hj
  · exact (hname j).2.trans (h.dev j (hrefs j hj))
  · refine h.unique j j' (hrefs j hj) (hrefs j' hj') ?_
    rw [← (hname j).1,← (hname j').1]
    exact he
  · show Own sb (s.put i n k).dinode st
    rwa [hd]
  · show ∀ j, ((s.put i n k).dinode j).type ≠ 0 → Data.Full ⟨(s.put i n k).dinode j,st⟩
    rwa [hd]

lemma put_same (hdev : n.dev = (s.table.inode i).dev) (hinum : n.inum = (s.table.inode i).inum)
    (hs : n.Synced (s.table.dinode i)) : Base sb (s.put i n (s.table.dinode i)) := by
  have hd : update s.dinode (s.table.inode i).inum (s.table.dinode i) = s.dinode := by
    rw [h.dinode_eq hne,update_eq_self]
  exact h.put hne hdev hinum hs (by rw [hd]; exact h.own : Own sb _ s.store) (by rw [hd]; exact h.full)

end

lemma locked {r : Ref} (hr : r ∈ (s.table.inode i).refs) (hl : r.2.locks) :
    s.dinode (s.table.inode i).inum = (s.table.inode i).d ∧ (s.table.inode i).d.type ≠ 0 := by
  obtain ⟨_,hty,hd⟩ := (h.sync i).valid hr hl
  have hne := ne_nil_of_mem hr
  rw [← h.dinode_eq hne,hd]
  exact ⟨rfl,hty⟩

lemma owned {r : Ref} (hr : r ∈ (s.table.inode i).refs) (hl : r.2.locks) :
    Data.Owned sb s.dinode (s.table.inode i).inum ⟨(s.table.inode i).d,s.store⟩ :=
  ⟨h.own,(h.locked hr hl).1,(h.locked hr hl).2⟩

lemma full_locked {r : Ref} (hr : r ∈ (s.table.inode i).refs) (hl : r.2.locks) :
    Data.Full ⟨(s.table.inode i).d,s.store⟩ := by
  obtain ⟨hd,hty⟩ := h.locked hr hl
  exact hd ▸ h.full _ (hd ▸ hty)

lemma write (hm : (p.val,.hold) ∈ (s.table.inode i).refs) {y : Data Store}
    (hown : Own sb (update s.dinode (s.table.inode i).inum y.d) y.st)
    (hg : Data.Grow ⟨(s.table.inode i).d,s.store⟩ y) (hf : Data.Full y) :
    Base sb (s.change i y.d y.d y.st) := by
  refine h.put (n := { s.table.inode i with d := y.d }) (k := y.d) (ne_nil_of_mem hm) rfl rfl
    ((h.sync i).change ?_) hown fun j hj => ?_
  · rw [hg.type_eq]
    exact (h.locked hm rfl).2
  · by_cases hji : j = (s.table.inode i).inum
    · subst hji
      rw [update_self]
      exact hf
    · rw [update_of_ne hji] at hj ⊢
      exact (h.full j hj).congr (hg.ptr_other (h.owned hm rfl) hji hj)

end

/-- What is asked of a function that writes to a file. -/
def Writes (sb : Superblock) (f : Data Store → Except String (ℤ×Data Store)) : Prop :=
  ∀ x D k r y, Data.Owned sb D k x → Data.Full x → f x = .ok (r,y) →
    Data.Owned sb (update D k y.d) k y ∧ Data.Grow x y ∧ Data.Full y ∧ (r = -1 → y = x)

lemma writes_writei (src : ℕ → ℕ → List UInt8×Bool) (off n : ℕ) :
    Writes sb fun x => sb.blocks.writei src off n x := by
  intro x D k r y hown hf hw
  obtain ⟨r',y',h',hres⟩ := Data.writei_spec src off n hown hf
  have hw : sb.blocks.writei src off n x = .ok (r,y) := hw
  rw [h'] at hw
  obtain ⟨rfl,rfl⟩ := Prod.mk.inj (Except.ok.inj hw)
  exact hres

/-- The part of `dirlink` after its check ends in a `writei`, or in the panic of its loop. -/
lemma dirwrite_or {D : ℕ → Dinode} {k : ℕ} {x : Data Store} (h : Data.Owned sb D k x) (hf : x.Full)
    (name : List UInt8) (inum : ℕ) : (∃ r y, sb.blocks.dirwrite x name inum = .ok (r,y) ∧
      Data.Owned sb (update D k y.d) k y ∧ Data.Grow x y ∧ Data.Full y ∧ (r = -1 → y = x)) ∨
      sb.blocks.dirwrite x name inum = .error "dirlink read" := by
  unfold Blocks.dirwrite Blocks.dirfree
  rcases Data.entryLoop_or sb hf "dirlink read"
    (fun e off => if e.inum = 0 then some off else none) id (x.rounds 0) 0 with ⟨off,ho⟩ | ho
  · rw [ho]
    exact .inl (Data.writei_spec _ off DIRENT h hf)
  · rw [ho]
    exact .inr rfl

lemma writes_dirwrite (name : List UInt8) (inum : ℕ) :
    Writes sb fun x => sb.blocks.dirwrite x name inum := by
  intro x D k r y hown hf hw
  have hw : sb.blocks.dirwrite x name inum = .ok (r,y) := hw
  rcases dirwrite_or hown hf name inum with ⟨r',y',h',hres⟩ | h'
  · rw [h'] at hw
    obtain ⟨rfl,rfl⟩ := Prod.mk.inj (Except.ok.inj hw)
    exact hres
  · rw [h'] at hw
    cases hw

variable (h : Base sb s)
include h

lemma writeData {f : Data Store → Except String (ℤ×Data Store)} (hf : Writes sb f) {r : ℤ}
    (hw : writeData p i f s = .ok (r,t)) : Base sb t := by
  obtain ⟨hm,x,hx,rfl⟩ := writeData_ok hw
  obtain ⟨hown,hg,hfull,hsame⟩ := hf _ s.dinode (s.table.inode i).inum r x (h.owned hm rfl)
    (h.full_locked hm rfl) hx
  split
  · rename_i hr
    rw [hsame hr]
    exact h.put_same (ne_nil_of_mem hm) rfl rfl (h.sync i)
  · exact h.write hm hown.toOwn hg hfull

variable {u : Unit}

/-- Fields other than the type, the size and the pointers are changed. -/
lemma setDinode {f : Dinode → Dinode}
    (hw : setDinode p i f s = .ok (u,t)) (hty : ∀ d, (f d).type = d.type)
    (hsz : ∀ d, (f d).size = d.size) (ha : ∀ d, (f d).addrs = d.addrs) : Base sb t := by
  obtain ⟨hm,rfl⟩ := setDinode_ok hw
  obtain ⟨hd,hty'⟩ := h.locked hm rfl
  have hupd : ∀ j, update s.dinode (s.table.inode i).inum (f (s.table.inode i).d) j =
      if j = (s.table.inode i).inum then f (s.dinode j) else s.dinode j := by
    intro j
    rw [update_apply]
    split
    · rename_i hj
      rw [hj,hd]
    · rfl
  refine h.put (n := { s.table.inode i with d := f (s.table.inode i).d })
    (k := f (s.table.inode i).d) (ne_nil_of_mem hm) rfl rfl
    ((h.sync i).change (by rw [hty]; exact hty')) ?_ fun j hj => ?_
  · refine h.own.congr (fun j => ?_) (fun j pos _ => ?_) rfl
    · rw [hupd]
      split
      · rw [hty]
      · rfl
    · rw [hupd]
      split
      · exact Store.ptr_congr (ha _) (fun _ => rfl) pos
      · rfl
  · rw [hupd] at hj ⊢
    split at hj
    · rename_i he
      rw [if_pos he]
      rw [hty] at hj
      have hf := h.full j hj
      refine ⟨by rw [hsz]; exact hf.size_le,fun bn hbn => ?_⟩
      rw [hsz] at hbn
      have hp : Data.ptr ⟨f (s.dinode j),s.store⟩ (Data.dataPos bn) =
        Data.ptr ⟨s.dinode j,s.store⟩ (Data.dataPos bn) := Store.ptr_congr (ha _) (fun _ => rfl) _
      rw [hp]
      exact hf.ptr_ne bn hbn
    · rename_i he
      rw [if_neg he]
      exact h.full j hj

lemma release {r : Ref} (hr : r ∈ (s.table.inode i).refs) (hl : r.2.locks)
    {x : Data Store} (hx : Data.itrunc ⟨(s.table.inode i).d,s.store⟩ = .ok x)
    (hdev : n.dev = (s.table.inode i).dev) (hinum : n.inum = (s.table.inode i).inum)
    (hs : n.Synced k) (hk : ∀ j, k.addrs j = 0) (hsz : k.size = 0) :
    Base sb { s.put i n k with store := x.st } := by
  obtain ⟨hd,hty⟩ := h.locked hr hl
  obtain ⟨st,hst,hblk,hbm⟩ := Data.itrunc_spec (h.owned hr hl)
  rw [hst] at hx
  obtain rfl := Except.ok.inj hx
  refine h.put (ne_nil_of_mem hr) hdev hinum hs ?_ fun j hj => ?_
  · refine h.own.release hk hblk fun b => (hbm b).trans ?_
    rw [hd]
    simp only [hty,false_or]
    rfl
  · by_cases hji : j = (s.table.inode i).inum
    · subst hji
      rw [update_self]
      exact .of_size hsz
    · rw [update_of_ne hji] at hj ⊢
      exact (h.full j hj).congr fun pos => Store.ptr_congr rfl (fun _ => congrFun hblk _) pos

lemma itrunc (hw : itrunc p i s = .ok (u,t)) : Base sb t := by
  obtain ⟨hm,x,hx,rfl⟩ := itrunc_ok hw
  obtain ⟨hd,hty⟩ := h.locked hm rfl
  obtain ⟨st,hst,-,-⟩ := Data.itrunc_spec (h.owned hm rfl)
  have hxd : x.d = (s.table.inode i).d.trunc := by
    rw [hst] at hx
    rw [← Except.ok.inj hx]
  rw [hxd]
  exact h.release hm rfl hx rfl rfl ((h.sync i).change hty) (fun _ => rfl) rfl

lemma iputFree (hw : iputFree p i s = .ok (u,t)) : Base sb t := by
  obtain ⟨hm,x,hx,rfl⟩ := iputFree_ok hw
  exact h.release hm rfl hx rfl rfl ((h.sync i).free hm) (fun _ => rfl) rfl

lemma iputTest {b : Bool} (hw : iputTest p i s = .ok (b,t)) : Base sb t := by
  obtain ⟨hm,⟨-,hlast,hn,rfl⟩ | ⟨-,-,rfl⟩⟩ := iputTest_ok hw
  · exact h.put_same (ne_nil_of_mem hm) rfl rfl ((h.sync i).test hm hn hlast.2.1)
  · exact h.put_same (ne_nil_of_mem hm) rfl rfl ((h.sync i).erase hm rfl)

lemma setInode (hdev : n.dev = ROOTDEV) (hs : n.Synced (s.table.disk n.dev n.inum))
    (hu : ∀ j, j ≠ i → (s.table.inode j).refs ≠ [] → (s.table.inode j).inum ≠ n.inum) :
    Base sb { s with table := s.table.setInode i n } := by
  have hself : (s.table.setInode i n).inode i = n := update_self _ _ _
  have hother : ∀ j, j ≠ i → (s.table.setInode i n).inode j = s.table.inode j :=
    fun j hj => update_of_ne hj _ _
  refine ⟨fun j => ?_,fun j hj => ?_,fun j j' hj hj' he => ?_,h.scan,h.own,h.full⟩
  · by_cases hji : j = i
    · subst hji
      show ((s.table.setInode j n).inode j).Synced (s.table.disk _ _)
      rw [hself]
      exact hs
    · show ((s.table.setInode i n).inode j).Synced (s.table.disk _ _)
      rw [hother j hji]
      exact h.sync j
  · by_cases hji : j = i
    · subst hji
      dsimp only
      rw [hself]
      exact hdev
    · dsimp only at hj ⊢
      rw [hother j hji] at hj ⊢
      exact h.dev j hj
  · dsimp only at hj hj' he
    by_cases hji : j = i <;> by_cases hji' : j' = i
    · exact hji.trans hji'.symm
    · subst hji
      rw [hself,hother j' hji'] at he
      rw [hother j' hji'] at hj'
      exact absurd he.symm (hu j' hji' hj')
    · subst hji'
      rw [hself,hother j hji] at he
      rw [hother j hji] at hj
      exact absurd he (hu j hji hj)
    · rw [hother j hji] at hj he
      rw [hother j' hji'] at hj' he
      exact h.unique j j' hj hj' he

lemma names {inum : ℕ} : s.table.Names i ROOTDEV inum ↔
    (s.table.inode i).refs ≠ [] ∧ (s.table.inode i).inum = inum := by
  have hpos : 0 < (s.table.inode i).ref ↔ (s.table.inode i).refs ≠ [] := by
    rw [(h.sync i).ref_eq,length_pos_iff]
  constructor
  · rintro ⟨h₁,_,h₂⟩
    exact ⟨hpos.mp h₁,h₂⟩
  · rintro ⟨h₁,h₂⟩
    exact ⟨hpos.mpr h₁,h.dev i h₁,h₂⟩

lemma iget {inum : ℕ} {new : Option ℕ} (hw : iget p inum new s = .ok (i,t)) : Base sb t := by
  rcases iget_ok hw with ⟨hn,rfl⟩ | ⟨hn,h0,rfl⟩
  · obtain ⟨hne,hinum⟩ := h.names.mp hn
    refine h.setInode (h.dev i hne) ((h.sync i).share hne) fun j hj hjr he => ?_
    exact hj (h.unique j i hjr hne he)
  · refine h.setInode rfl ((h.sync i).recycle h0) fun j _ hjr he => ?_
    exact hn j (h.names.mpr ⟨hjr,he⟩)

/-- Loops over the entries of a directory change nothing. -/
lemma entryLoop {β : Type} {msg : String} {stop : Dirent → ℕ → Option β}
    {last : ℕ → β} {left off : ℕ} {b : β} {x : Data Store} (hm : (p.val,.hold) ∈ (s.table.inode i).refs)
    (hx : sb.blocks.entryLoop msg stop last left off ⟨(s.table.inode i).d,s.store⟩ = .ok (b,x)) :
    s.change i x.d (s.table.dinode i) x.st = s := by
  rcases Data.entryLoop_or sb (h.full_locked hm rfl) msg stop last left off with ⟨b',hb⟩ | hb
  · rw [hb] at hx
    obtain ⟨-,rfl⟩ := Prod.mk.inj (Except.ok.inj hx)
    exact s.put_self i
  · rw [hb] at hx
    cases hx

lemma dirlookup {name : List UInt8} {r : Option (Slot×ℕ)}
    (hw : dirlookup sb p i name s = .ok (r,t)) : Base sb t := by
  obtain ⟨-,hm,o,x,hx,hr⟩ := dirlookup_ok hw
  have hs := h.entryLoop hm hx
  split at hr
  · rw [hr,hs]
    exact h
  · rw [hs] at hr
    exact h.iget hr.2
  · exact hr.elim

lemma isdirempty {b : Bool} (hw : isdirempty sb p i s = .ok (b,t)) : t = s := by
  obtain ⟨hm,x,hx,rfl⟩ := onData_ok hw
  exact h.entryLoop hm hx

lemma readi {off n : ℕ} {r : ℤ×List UInt8} (hw : readi sb p i off n s = .ok (r,t)) : t = s := by
  obtain ⟨hm,x,hx,rfl⟩ := onData_ok hw
  obtain ⟨r',l,hr⟩ := Data.readi_ok sb (h.full_locked hm rfl) (fun _ _ => true) off n
  rw [hr] at hx
  cases hx
  exact s.put_self i

lemma setScans {l : List Scan} (hl : ∀ c ∈ l, c.dev = ROOTDEV) :
    Base sb { s with table := { s.table with scans := l } } :=
  ⟨h.sync,h.dev,h.unique,hl,h.own,h.full⟩

lemma allocate (inum type : ℕ) (h0 : (s.dinode inum).type = 0) :
    Base sb { s with table := s.table.setDisk ROOTDEV inum (.fresh type) } := by
  have hd : State.dinode { s with table := s.table.setDisk ROOTDEV inum (.fresh type) } =
      update s.dinode inum (.fresh type) := by
    funext j
    show (s.table.setDisk ROOTDEV inum _).disk ROOTDEV j = _
    rw [Table.disk_setDisk,update_apply]
    simp only [true_and]
    rfl
  refine ⟨fun j => ?_,h.dev,h.unique,h.scan,?_,fun j hj => ?_⟩
  · have hj := h.sync j
    by_cases hju : (s.table.inode j).refs = []
    · exact hj.of_unused hju
    · show (s.table.inode j).Synced ((s.table.setDisk ROOTDEV inum (.fresh type)).disk
        (s.table.inode j).dev (s.table.inode j).inum)
      rw [Table.disk_setDisk,h.dev j hju]
      split
      · rename_i he
        rw [h.dinode_eq hju,he.2] at hj
        exact hj.reuse h0
      · rw [h.dinode_eq hju] at hj
        exact hj
  · rw [hd]
    exact h.own.release (fun _ => rfl) rfl fun b => by simp [h0]
  · rw [hd] at hj ⊢
    by_cases hji : j = inum
    · subst hji
      rw [update_self]
      exact .of_size rfl
    · rw [update_of_ne hji] at hj ⊢
      exact h.full j hj

lemma scanStep {c : Scan} {r : Scan⊕Option Slot}
    (hw : Fs.scan sb p c s = .ok (r,t)) : Base sb t := by
  obtain ⟨hc,hw⟩ := scan_ok hw
  have hdev := h.scan c hc
  have herase : ∀ c' ∈ s.table.scans.erase c, c'.dev = ROOTDEV :=
    fun c' hc' => h.scan c' (mem_of_mem_erase hc')
  have hcons : ∀ c', c'.dev = c.dev → ∀ e ∈ c'::s.table.scans.erase c, e.dev = ROOTDEV :=
    fun c' hc' => forall_mem_cons.mpr ⟨hc'.trans hdev,herase⟩
  rcases hw with ⟨-,i,-,hi⟩ | ⟨hf,hlt,h0,-,rfl⟩ | ⟨hf,hlt,h0,-,rfl⟩ | ⟨hf,hge,-,rfl⟩
  · exact (h.setScans herase).iget hi
  · have h0' : (s.table.disk ROOTDEV c.inum).type = 0 := h0
    have := (h.setScans (hcons { c with found := true } rfl)).allocate c.inum
      c.type h0
    simpa [Table.scan,hf,hlt,h0',hdev] using this
  · have h0' : ¬(s.table.disk c.dev c.inum).type = 0 := by rw [hdev]; exact h0
    simpa [Table.scan,hf,hlt,h0'] using h.setScans (hcons { c with inum := c.inum+1 } rfl)
  · have hge' : ¬c.inum < sb.ninodes := by omega
    simpa [Table.scan,hf,hge'] using h.setScans herase

lemma setFiles (hf : t.table = s.table) (hst : t.store = s.store) : Base sb t := by
  obtain ⟨tb,st,_,_⟩ := t
  obtain rfl : tb = s.table := hf
  obtain rfl : st = s.store := hst
  exact ⟨h.sync,h.dev,h.unique,h.scan,h.own,h.full⟩

lemma ilock (hw : ilock p i s = .ok (u,t)) : Base sb t := by
  obtain ⟨hm,hn,hty,rfl⟩ := ilock_ok hw
  exact h.put_same (ne_nil_of_mem hm) rfl rfl ((h.sync i).lock hm hn hty)

lemma iunlock (hw : entryOp p i .iunlock s = .ok (u,t)) : Base sb t := by
  obtain ⟨n,k,ho,rfl⟩ := entryOp_ok.mp hw
  have hs := Entry.op_cases ho
  generalize he : (none : Option String) = m at hs
  cases hs with
  | iunlockPanic => cases he
  | iunlock hm => exact h.put_same (ne_nil_of_mem hm) rfl rfl ((h.sync i).unlock hm)

lemma iputDrop (hw : entryOp p i .drop s = .ok (u,t)) : Base sb t := by
  obtain ⟨n,k,ho,rfl⟩ := entryOp_ok.mp hw
  cases Entry.op_cases ho with
  | drop hm => exact h.put_same (ne_nil_of_mem hm) rfl rfl ((h.sync i).erase hm rfl)

lemma fileclose {f : Fin NFILE} {r : Option Slot}
    (hw : fileclose p f s = .ok (r,t)) : Base sb t := by
  rcases fileclose_ok hw with ⟨-,-,rfl⟩ | ⟨-,-,-,rfl⟩ | ⟨-,-,-,-,hm,rfl⟩
  · exact h.setFiles rfl rfl
  · exact h.setFiles rfl rfl
  · exact (h.put_same (n := passedEntry _ _ p) (ne_nil_of_mem hm) rfl rfl
      ((h.sync _).pass hm)).setFiles rfl rfl

lemma lockFile {f : Fin NFILE} (hw : lockFile p f s = .ok (i,t)) : Base sb t := by
  obtain ⟨-,-,hm,hn,hty,rfl⟩ := lockFile_ok hw
  refine (h.put_same (n := lockedEntry (passedEntry _ _ p) _ p) (ne_nil_of_mem hm) rfl rfl
    ?_).setFiles rfl rfl
  exact ((h.sync i).pass hm).lock mem_cons_self hn hty

lemma fork {q : Fin NPROC} (hw : fork p q s = .ok (u,t)) : Base sb t := by
  obtain ⟨i,-,-,hne,rfl⟩ := fork_ok hw
  exact (h.put_same (n := sharedEntry _ q) hne rfl rfl ((h.sync i).share hne)).setFiles rfl rfl

/-- Every action of every process keeps the invariant. -/
theorem eval {a : Act} {r : a.Ret} (ha : eval sb p a s = .ok (r,t)) : Base sb t := by
  cases a with
  | iget inum => exact h.iget ha
  | idupCwd =>
    obtain ⟨-,hne,rfl⟩ := idupCwd_ok ha
    exact h.put_same hne rfl rfl ((h.sync _).share hne)
  | ilock i => exact h.ilock ha
  | iunlock i => exact h.iunlock ha
  | iputTest i => exact h.iputTest ha
  | iputFree i => exact h.iputFree ha
  | iputDrop i => exact h.iputDrop ha
  | peek i | fdget fd =>
    simp only [Fs.eval,bind_ok,get_ok,pure_ok] at ha
    obtain ⟨_,_,⟨rfl,rfl⟩,-,rfl⟩ := ha
    exact h
  | dirlookup dp name => exact h.dirlookup ha
  | dirwrite dp name inum =>
    simp only [Fs.eval,Fs.dirwrite,bind_ok,pure_ok] at ha
    obtain ⟨_,_,hw,-,rfl⟩ := ha
    exact h.writeData (writes_dirwrite name inum) hw
  | isdirempty i => exact h.isdirempty ha ▸ h
  | erase dp off =>
    simp only [Fs.eval,Fs.erase,bind_ok] at ha
    obtain ⟨_,_,hw,ha⟩ := ha
    split at ha
    · exact absurd ha throw_ok
    · obtain ⟨-,rfl⟩ := pure_ok.mp ha
      exact h.writeData (writes_writei _ off DIRENT) hw
  | addNlink i δ | clearNlink i | setup i major minor =>
    simp only [Fs.eval] at ha
    exact h.setDinode ha (fun _ => rfl) (fun _ => rfl) fun _ => rfl
  | itrunc i => exact h.itrunc ha
  | readi i off n => exact h.readi ha ▸ h
  | writei i src off n => exact h.writeData (writes_writei src off n) ha
  | ialloc type =>
    simp only [Fs.eval,bind_ok,modify_ok,pure_ok] at ha
    obtain ⟨_,_,rfl,-,rfl⟩ := ha
    exact h.setScans (forall_mem_cons.mpr ⟨rfl,h.scan⟩)
  | scan c => exact h.scanStep ha
  | filealloc =>
    rcases filealloc_ok ha with ⟨-,rfl⟩ | ⟨_,-,-,rfl⟩
    · exact h
    · exact h.setFiles rfl rfl
  | fdalloc f =>
    rcases fdalloc_ok ha with ⟨-,rfl⟩ | ⟨_,-,-,rfl⟩
    · exact h
    · exact h.setFiles rfl rfl
  | fdclear fd =>
    simp only [Fs.eval,bind_ok,get_ok,setProc,modify_ok] at ha
    obtain ⟨_,_,⟨rfl,rfl⟩,rfl⟩ := ha
    exact h.setFiles rfl rfl
  | fileclose f => exact h.fileclose ha
  | openFile f i omode =>
    obtain rfl := modify_ok.mp ha
    exact h.setFiles rfl rfl
  | unlockFile f i =>
    obtain ⟨v,hv,rfl⟩ := unlockFile_ok ha
    exact (h.iunlock hv).setFiles rfl rfl
  | lockFile f => exact h.lockFile ha
  | leaveCwd =>
    obtain ⟨-,rfl⟩ := leaveCwd_ok ha
    exact h.setFiles rfl rfl
  | setCwd j =>
    obtain rfl := setCwd_ok ha
    exact h.setFiles rfl rfl
  | fork q => exact h.fork ha
  | nlinkPanic => exact absurd ha throw_ok

end Base
end Xv6.Fs
