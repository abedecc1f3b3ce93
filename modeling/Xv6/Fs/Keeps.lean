import Xv6.Fs.Walk
import Xv6.Fs.LogSpace

/-! What the calls do to the files: which inodes keep their fields and their bytes, and what becomes
of a directory that an entry is written to. -/
namespace Xv6.Fs
open Function (update update_idem update_self update_of_ne)

open Lib (Few)

namespace Files

/-- `iupdate` of an inode whose blocks are left alone. -/
def setInode (s : Files) (k : ℕ) (d : Dinode) : Files := ⟨update s.inode k d,s.store⟩

@[simp] lemma setInode_self (s : Files) (k : ℕ) (d : Dinode) : (s.setInode k d).inode k = d :=
  update_self ..

lemma setInode_file (s : Files) {k j : ℕ} (hj : j ≠ k) (d : Dinode) :
    (s.setInode k d).file j = s.file j :=
  congrArg (Data.mk · s.store) (update_of_ne hj ..)

@[simp] lemma setInode_setInode (s : Files) (k : ℕ) (d d' : Dinode) :
    (s.setInode k d).setInode k d' = s.setInode k d' := by
  rw [setInode,setInode,setInode,update_idem]

/-- The inodes outside `X` are in use as before, with the same fields and bytes. The blocks that
they are in may have been joined by others. -/
structure Keeps (X : Set ℕ) (s t : Files) : Prop where
  type : ∀ k, k ∉ X → (t.inode k).type = (s.inode k).type
  fields : ∀ k, k ∉ X → (s.inode k).type ≠ 0 →
    t.inode k = { s.inode k with addrs := (t.inode k).addrs }
  content : ∀ k, k ∉ X → (s.inode k).type ≠ 0 → t.content k = s.content k

namespace Keeps
variable {X Y : Set ℕ} {s t u : Files} {k : ℕ} {sb : Superblock}

lemma refl (s : Files) : Keeps X s s := ⟨fun _ _ => rfl,fun _ _ _ => rfl,fun _ _ _ => rfl⟩

lemma trans (h : Keeps X s t) (h' : Keeps X t u) : Keeps X s u where
  type k hk := (h'.type k hk).trans (h.type k hk)
  fields k hk hty := by
    rw [h'.fields k hk (h.type k hk ▸ hty),h.fields k hk hty]
  content k hk hty := (h'.content k hk (h.type k hk ▸ hty)).trans (h.content k hk hty)

lemma mono (h : Keeps X s t) (hX : X ⊆ Y) : Keeps Y s t where
  type k hk := h.type k fun hx => hk (hX hx)
  fields k hk := h.fields k fun hx => hk (hX hx)
  content k hk := h.content k fun hx => hk (hX hx)

lemma of_free (h : Keeps {k} s t) (hs : (s.inode k).type = 0) (ht : (t.inode k).type = 0) :
    Keeps ∅ s t where
  type j _ := by
    by_cases hj : j = k
    · rw [hj,hs,ht]
    · exact h.type j hj
  fields j _ hty := h.fields j (fun hj : j = k => hty (hj ▸ hs)) hty
  content j _ hty := h.content j (fun hj : j = k => hty (hj ▸ hs)) hty

lemma of_same (h : Keeps {k} s t) (hd : t.inode k = { s.inode k with addrs := (t.inode k).addrs })
    (hc : t.content k = s.content k) : Keeps ∅ s t where
  type j _ := by
    by_cases hj : j = k
    · rw [hj,hd]
    · exact h.type j hj
  fields j _ hty := by
    by_cases hj : j = k
    · rw [hj]
      exact hd
    · exact h.fields j hj hty
  content j _ hty := by
    by_cases hj : j = k
    · rw [hj]
      exact hc
    · exact h.content j hj hty

lemma used (h : Keeps X s t) (hk : k ∉ X) (hty : (s.inode k).type ≠ 0) :
    (t.inode k).type ≠ 0 := h.type k hk ▸ hty

lemma nlink (h : Keeps X s t) (hk : k ∉ X) (hty : (s.inode k).type ≠ 0) :
    (t.inode k).nlink = (s.inode k).nlink := by rw [h.fields k hk hty]

lemma slots (h : Keeps X s t) (hk : k ∉ X) (hty : (s.inode k).type ≠ 0) :
    (t.file k).slots = (s.file k).slots := by
  rw [Data.slots,Data.ents_congr (h.content k hk hty),Data.slots]

lemma dirMap (h : Keeps X s t) (hk : k ∉ X) (hty : (s.inode k).type ≠ 0) :
    t.dirMap k = s.dirMap k := by
  rw [Files.dirMap,Data.dirMap,h.slots hk hty]
  rfl

lemma directory (h : Keeps X s t) (ht : Image sb t.inode t.store) (hk : k ∉ X)
    (hty : (s.inode k).type ≠ 0) (hd : (s.file k).Directory) : (t.file k).Directory :=
  hd.congr (ht.full k (h.used hk hty)) (h.content k hk hty)

lemma of_block (s : Files) (k : ℕ) (d : Dinode) {st : Store} (hb : st.block = s.store.block) :
    Keeps {k} s ⟨update s.inode k d,st⟩ := by
  have hinode : ∀ j, j ≠ k → (⟨update s.inode k d,st⟩ : Files).inode j = s.inode j :=
    fun j hj => update_of_ne hj ..
  refine ⟨fun j hj => ?_,fun j hj _ => ?_,fun j hj _ => ?_⟩
  · rw [hinode j hj]
  · rw [hinode j hj]
  · have hp : ∀ p, st.ptr (s.inode j) p = s.store.ptr (s.inode j) p := fun p =>
      Store.ptr_congr rfl (fun _ => by rw [hb]) p
    rw [Files.content,Files.content,file,hinode j hj]
    refine List.map_congr_left fun i _ => ?_
    rw [Data.byteAt,Data.byteAt]
    show (st.block (st.ptr (s.inode j) _)).byte _ = _
    rw [hp,hb]
    rfl

lemma setInode (s : Files) (k : ℕ) (d : Dinode) : Keeps {k} s (s.setInode k d) := of_block s k d rfl

lemma grow {y : Data Store} (hs : Image sb s.inode s.store) (hty : (s.inode k).type ≠ 0)
    (hg : Data.Grow (s.file k) y) : Keeps {k} s (s.iupdate k y) := by
  have hinode : ∀ j, j ≠ k → (s.iupdate k y).inode j = s.inode j := fun j hj =>
    update_of_ne hj ..
  refine ⟨fun j hj => ?_,fun j hj _ => ?_,fun j hj hj' => ?_⟩
  · rw [hinode j hj]
  · rw [hinode j hj]
  · exact content_other hs hty hg hj hj'

end Keeps

/-- An entry `o` has been written to a free slot of directory `k`. -/
structure Entered (sb : Superblock) (s t : Files) (k : ℕ) (o : Option (List UInt8×ℕ)) : Prop where
  image : Image sb t.inode t.store
  keeps : Keeps {k} s t
  fields : t.inode k =
    { s.inode k with addrs := (t.inode k).addrs, size := (t.inode k).size }
  aligned : (t.file k).Aligned
  slots : ∃ m, m ≤ (s.file k).slots.length ∧ (∀ o', (s.file k).slots[m]? = some o' → o' = none) ∧
    (t.file k).slots = Lib.Slots.put (s.file k).slots m o

namespace Entered
variable {sb : Superblock} {s t : Files} {k inum : ℕ} {key : List UInt8}
variable {o : Option (List UInt8×ℕ)}

lemma nlink (h : Entered sb s t k o) : (t.inode k).nlink = (s.inode k).nlink := by rw [h.fields]

lemma type (h : Entered sb s t k o) (j : ℕ) : (t.inode j).type = (s.inode j).type := by
  by_cases hj : j = k
  · rw [hj,h.fields]
  · exact h.keeps.type j hj

lemma dirMap (h : Entered sb s t k (some (key,inum))) (hd : (s.file k).Directory)
    (hnone : s.dirMap k key = none) :
    Lib.Slots.Distinct (t.file k).slots ∧
      t.dirMap k = update (s.dirMap k) key (some inum) := by
  obtain ⟨m,hm,hfree,hput⟩ := h.slots
  obtain ⟨hdis,hlook⟩ := hd.distinct.insert hm hfree hnone inum
  rw [← hput] at hdis
  refine ⟨hdis,?_⟩
  rw [Files.dirMap,Data.dirMap,hput,hlook]
  rfl

lemma directory (h : Entered sb s t k (some (key,inum))) (hty : (s.inode k).type = T_DIR)
    (hd : (s.file k).Directory) (hnone : s.dirMap k key = none) : (t.file k).Directory where
  full := h.image.full k (by rw [h.type]; exact type_dir hty)
  aligned := h.aligned
  distinct := (h.dirMap hd hnone).1

end Entered
end Files

namespace View
variable {v : View} {s t : Files} {l l' : List ℕ} {h : Held} {k : ℕ} {y : Data Store} {X : Set ℕ}

/-- The call has changed the files, and logged the blocks of `l`. -/
def after (v : View) (s : Files) (l : List ℕ) : View :=
  { v with inode := s.inode, store := s.store, log := v.log++l }

lemma write_eq : v.write k y l = v.after (v.files.iupdate k y) l := rfl

@[simp] lemma hold_after : (v.hold h).after s l = (v.after s l).hold h := rfl

@[simp] lemma after_after : (v.after s l).after t l' = v.after t (l++l') := by
  rw [after,after,after,List.append_assoc]

lemma after_self : v.after v.files [] = v := by
  rw [after,List.append_nil]
  rfl

lemma Kept.keeps (hk : v.Kept k) (h : Files.Keeps X v.files s) (hX : k ∉ X) : (v.after s l).Kept k := by
  refine ⟨h.used hX hk.1,hk.2.imp_left fun h0 => ?_⟩
  show (s.inode k).nlink ≠ 0
  rw [h.nlink hX hk.1]
  exact h0

lemma Kept.entered {sb : Superblock} {o : Option (List UInt8×ℕ)} (hk : v.Kept k)
    (h : Files.Entered sb v.files s k o) : (v.after s l).Kept k := by
  refine ⟨(h.type k).trans_ne hk.1,hk.2.imp_left fun h0 => ?_⟩
  show (s.inode k).nlink ≠ 0
  rw [h.nlink]
  exact h0

end View
end Xv6.Fs
