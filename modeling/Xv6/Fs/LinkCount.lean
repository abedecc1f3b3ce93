import Xv6.Fs.Unlink

/-! Link counts. The count of an inode is the number of entries that name it, the entry `.` of a
directory for itself apart, as long as it does not leave the range of a `short`. -/
namespace Xv6.Fs
open Finset

lemma toShort_eq {n : ℤ} (h0 : 0 ≤ n) (h1 : n ≤ 32767) : toShort n = n := by
  rw [toShort,Int.bmod_eq_of_le] <;> omega

namespace Files
variable (s : Files)

/-- The entries of a directory; an inode of another type has none. -/
def table (d : ℕ) : List (Option (List UInt8×ℕ)) :=
  if (s.inode d).type = T_DIR then (s.file d).slots else []

/-- Slot `m` of directory `d` holds an entry for inode `k`. -/
abbrev Entry (d m : ℕ) (name : List UInt8) (k : ℕ) : Prop :=
  (s.table d)[m]? = some (some (name,k))

/-- A slot with an entry for inode `k` that counts as a link. -/
def Names (k : ℕ) (o : Option (List UInt8×ℕ)) : Bool := o.any fun r => r.1 ≠ dot ∧ k = r.2

/-- The number of links to an inode. -/
def links (sb : Superblock) (k : ℕ) : ℕ := ∑ d ∈ Finset.range sb.ninodes, (s.table d).countP (Names k)

variable {s} {t : Files} {sb : Superblock} {d e k m : ℕ} {name : List UInt8}

lemma table_dir (h : (s.inode d).type = T_DIR) : s.table d = (s.file d).slots := if_pos h

lemma table_not_dir (h : (s.inode d).type ≠ T_DIR) : s.table d = [] := if_neg h

variable {o : Option (List UInt8×ℕ)}

lemma dir_of_table (h : (s.table d)[m]? = some o) : (s.inode d).type = T_DIR := by
  by_contra hne
  rw [table_not_dir hne] at h
  cases h

lemma Keeps.table {X : Set ℕ} (h : Keeps X s t) (hd : d ∉ X) : t.table d = s.table d := by
  rw [Files.table,Files.table,h.type d hd]
  split_ifs with hdir
  · exact h.slots hd (type_dir hdir)
  · rfl

lemma table_setInode {a : Dinode} (htype : a.type = (s.inode k).type)
    (hsize : a.size = (s.inode k).size) (haddrs : a.addrs = (s.inode k).addrs) (d : ℕ) :
    (s.setInode k a).table d = s.table d := by
  by_cases hd : d = k
  · subst hd
    rw [table,table,setInode_self,htype,Data.slots,Data.slots,
      Data.ents_congr (content_setInode hsize haddrs)]
  · exact (Keeps.setInode s k a).table hd

lemma Entry.inj {name' : List UInt8} {k' : ℕ} (h : s.Entry d m name k) (h' : s.Entry d m name' k') :
    name = name' ∧ k = k' :=
  Prod.mk.inj (Option.some.inj (Option.some.inj (h.symm.trans h')))

lemma names_some {i : ℕ} : Names k (some (name,i)) = true ↔ name ≠ dot ∧ k = i := by
  simp [Names]

lemma names_iff : Names k o = true ↔ ∃ name, o = some (name,k) ∧ name ≠ dot := by
  constructor
  · intro h
    cases o with
    | none => cases h
    | some r =>
      obtain ⟨hne,rfl⟩ := names_some.mp h
      exact ⟨r.1,rfl,hne⟩
  · rintro ⟨name,rfl,hne⟩
    exact names_some.mpr ⟨hne,rfl⟩

lemma countP_eq_zero (h : ∀ n name, s.Entry d n name k → name = dot) :
    (s.table d).countP (Names k) = 0 := by
  refine List.countP_eq_zero.mpr fun o ho hk => ?_
  obtain ⟨name,rfl,hne⟩ := names_iff.mp hk
  obtain ⟨n,hn⟩ := List.getElem?_of_mem ho
  exact hne (h n name hn)

lemma countP_eq_one (hs : s.Entry d m name k) (hne : name ≠ dot)
    (h : ∀ n name, s.Entry d n name k → name ≠ dot → n = m) :
    (s.table d).countP (Names k) = 1 := by
  refine Lib.Slots.countP_eq_one rfl hs (names_some.mpr ⟨hne,rfl⟩) fun n o hn ho => ?_
  obtain ⟨name',rfl,hne'⟩ := names_iff.mp ho
  exact h n name' hn hne'

/-- The inodes and their links in a file system in good order: every directory begins with entries
for itself and for the directory that it is an entry of, and the count of every inode in use is the
number of its links. -/
structure Linked (sb : Superblock) (s : Files) : Prop where
  used : ∀ k, (s.inode k).type ≠ 0 → 0 < k ∧ k < sb.ninodes
  root : (s.inode ROOTINO).type = T_DIR
  dirs : s.Directories
  dot : ∀ d, (s.inode d).type = T_DIR → s.Entry d 0 dot d
  dotdot : ∀ d, (s.inode d).type = T_DIR → ∃ e, s.Entry d 1 dotdot e ∧
    (d = ROOTINO ∧ e = ROOTINO ∨ ∃ m name, 2 ≤ m ∧ s.Entry e m name d)
  named : ∀ d m name k, s.Entry d m name k → (s.inode k).type ≠ 0
  tree : ∀ d m name k, 2 ≤ m → s.Entry d m name k → (s.inode k).type = T_DIR →
    k ≠ ROOTINO ∧ s.Entry k 1 Fs.dotdot d ∧ ∀ m' name', 2 ≤ m' → s.Entry d m' name' k → m' = m
  nlink : ∀ k, (s.inode k).type ≠ 0 → (s.inode k).nlink = s.links sb k
  fits : ∀ k, (s.inode k).type ≠ 0 → (s.inode k).nlink ≤ 32767

namespace Linked

lemma distinct (h : Linked sb s) (d : ℕ) : Lib.Slots.Distinct (s.table d) := by
  by_cases hd : (s.inode d).type = T_DIR
  · rw [table_dir hd]
    exact (h.dirs d hd).distinct
  · rw [table_not_dir hd]
    intro i j k v w hi
    cases hi

lemma ne_dot (h : Linked sb s) (hm : m ≠ 0) (hs : s.Entry d m name k) :
    name ≠ Fs.dot := by
  rintro rfl
  exact hm (h.distinct d m 0 _ _ _ hs (h.dot d (dir_of_table hs)))

lemma mem_range (h : Linked sb s) (hs : (s.table d)[m]? = some o) : d ∈ Finset.range sb.ninodes :=
  Finset.mem_range.mpr (h.used d (type_dir (dir_of_table hs))).2

lemma countP_pos (hs : s.Entry d m name k) (hne : name ≠ Fs.dot) :
    0 < (s.table d).countP (Names k) :=
  List.countP_pos_iff.mpr ⟨_,List.mem_of_getElem? hs,names_some.mpr ⟨hne,rfl⟩⟩

section
variable (h : Linked sb s)
include h

lemma links_pos (hs : s.Entry d m name k) (hne : name ≠ Fs.dot) : 0 < s.links sb k :=
  (countP_pos hs hne).trans_le
    (single_le_sum (f := fun d => (s.table d).countP (Names k)) (fun _ _ => Nat.zero_le _)
      (h.mem_range hs))

/-- A directory is named by one that it is an entry of, the root by itself. -/
lemma dir_links (hd : (s.inode d).type = T_DIR) : ∃ e m name, s.Entry e m name d ∧ name ≠ Fs.dot ∧
      (d = ROOTINO ∧ e = ROOTINO ∨ 2 ≤ m) := by
  obtain ⟨e,he,⟨rfl,rfl⟩ | ⟨m,name,hm,hs⟩⟩ := h.dotdot d hd
  · exact ⟨_,1,_,he,h.ne_dot one_ne_zero he,.inl ⟨rfl,rfl⟩⟩
  · exact ⟨e,m,name,hs,h.ne_dot (by omega) hs,.inr hm⟩

/-- The count of an inode that is named by an entry, even by its own. -/
lemma pos (hs : s.Entry d m name k) : 0 < (s.inode k).nlink := by
  rw [h.nlink k (h.named d m name k hs),Int.natCast_pos]
  by_cases hne : name = Fs.dot
  · have hdir := dir_of_table hs
    obtain rfl := h.distinct d m 0 name k d hs (hne ▸ h.dot d hdir)
    obtain ⟨-,rfl⟩ := hs.inj (h.dot d hdir)
    obtain ⟨e,n,name',he,hn,-⟩ := h.dir_links hdir
    exact h.links_pos he hn
  · exact h.links_pos hs hne

lemma toShort_nlink (hk : (s.inode k).type ≠ 0) : toShort (s.inode k).nlink = (s.inode k).nlink :=
  toShort_eq (h.nlink k hk ▸ Int.natCast_nonneg _) (h.fits k hk)

lemma congr (hdirs : t.Directories) (htype : ∀ k, (t.inode k).type = (s.inode k).type)
    (hnl : ∀ k, (s.inode k).type ≠ 0 → (t.inode k).nlink = (s.inode k).nlink)
    (htab : t.table = s.table) : Linked sb t where
  used k := htype k ▸ h.used k
  root := htype ROOTINO ▸ h.root
  dirs := hdirs
  dot d := by
    rw [htype,Entry,htab]
    exact h.dot d
  dotdot d := by
    rw [htype]
    simp only [Entry,htab]
    exact h.dotdot d
  named d m name k := by
    rw [htype,Entry,htab]
    exact h.named d m name k
  tree d m name k := by
    rw [htype]
    simp only [Entry,htab]
    exact h.tree d m name k
  nlink k hk := by
    rw [htype] at hk
    rw [hnl k hk,h.nlink k hk,links,links,htab]
  fits k hk := by
    rw [htype] at hk
    rw [hnl k hk]
    exact h.fits k hk

lemma keeps (ht : Image sb t.inode t.store) (hk : Keeps ∅ s t) : Linked sb t := by
  refine h.congr (fun d hd => ?_) (fun k => hk.type k (by simp)) (fun k => hk.nlink (by simp)) ?_
  · rw [hk.type d (by simp)] at hd
    exact hk.directory ht (by simp) (type_dir hd) (h.dirs d hd)
  · exact funext fun d => hk.table (by simp)

lemma insert {key : List UInt8} (hd : (s.inode d).type = T_DIR)
    (hk : (s.inode k).type ≠ 0) (hkd : (s.inode k).type ≠ T_DIR) (hlt : (s.inode k).nlink ≠ 32767)
    (hnone : s.dirMap d key = none) (hdirs : t.Directories)
    (htype : ∀ j, (t.inode j).type = (s.inode j).type) (hnl : ∀ j, (s.inode j).type ≠ 0 →
      (t.inode j).nlink = (s.inode j).nlink+if j = k then 1 else 0)
    (hother : ∀ j, j ≠ d → t.table j = s.table j) (hm : m ≤ (s.table d).length)
    (hfree : ∀ o, (s.table d)[m]? = some o → o = none)
    (hput : t.table d = Lib.Slots.put (s.table d) m (some (key,k))) : Linked sb t := by
  have hdot : key ≠ Fs.dot := by
    rintro rfl
    refine Lib.Slots.lookup_eq_none.mp hnone 0 d ?_
    exact table_dir hd ▸ h.dot d hd
  obtain ⟨e,hdd,-⟩ := h.dotdot d hd
  have hm2 : 2 ≤ m := by
    by_contra hlt
    obtain rfl | rfl : m = 0 ∨ m = 1 := by omega
    · cases hfree _ (h.dot d hd)
    · cases hfree _ hdd
  -- the entries are those of before and the new one
  have hold : ∀ j n name i, s.Entry j n name i → t.Entry j n name i := by
    intro j n name i hs
    by_cases hj : j = d
    · subst hj
      have hne : n ≠ m := by
        rintro rfl
        cases hfree _ hs
      rw [Entry,hput,Lib.Slots.getElem?_put _ hm,if_neg hne]
      exact hs
    · rw [Entry,hother j hj]
      exact hs
  have hnew : ∀ j n name i, t.Entry j n name i → s.Entry j n name i ∨ n = m ∧ j = d ∧ i = k := by
    intro j n name i hs
    by_cases hj : j = d
    · subst hj
      rw [Entry,hput,Lib.Slots.getElem?_put _ hm] at hs
      split_ifs at hs with hn
      · cases hs
        exact .inr ⟨hn,rfl,rfl⟩
      · exact .inl hs
    · rw [Entry,hother j hj] at hs
      exact .inl hs
  have hlinks : ∀ j, t.links sb j = s.links sb j+if j = k then 1 else 0 := by
    intro j
    have hsum : ∀ i ∈ range sb.ninodes, (t.table i).countP (Names j) =
        (s.table i).countP (Names j)+if i = d then (if j = k then 1 else 0) else 0 := by
      intro i _
      by_cases hi : i = d
      · subst hi
        rw [hput,Lib.Slots.countP_insert rfl hfree,if_pos rfl]
        simp only [names_some,hdot,ne_eq,not_false_eq_true,true_and]
      · rw [hother i hi,if_neg hi,Nat.add_zero]
    rw [links,sum_congr rfl hsum,sum_add_distrib,sum_ite_eq' _ d,
      if_pos (h.mem_range (h.dot d hd))]
    rfl
  refine ⟨fun j => htype j ▸ h.used j,htype ROOTINO ▸ h.root,hdirs,fun j hj => ?_,fun j hj => ?_,
    fun j n name i hs => ?_,fun j n name i hn hs hi => ?_,fun j hj => ?_,fun j hj => ?_⟩
  · exact hold j 0 _ j (h.dot j (htype j ▸ hj))
  · obtain ⟨e,he,hp⟩ := h.dotdot j (htype j ▸ hj)
    refine ⟨e,hold j 1 _ e he,hp.imp_right ?_⟩
    rintro ⟨n,name,hn,hs⟩
    exact ⟨n,name,hn,hold e n name j hs⟩
  · rw [htype]
    rcases hnew j n name i hs with hs | ⟨-,-,rfl⟩
    · exact h.named j n name i hs
    · exact hk
  · -- the new entry is not for a directory, so it is not one of these
    rw [htype] at hi
    have hik : i ≠ k := by
      rintro rfl
      exact hkd hi
    have hback : ∀ n name, t.Entry j n name i → s.Entry j n name i := fun n name hs =>
      (hnew j n name i hs).resolve_right fun hr => hik hr.2.2
    obtain ⟨hr,hp,huniq⟩ := h.tree j n name i hn (hback n name hs) hi
    exact ⟨hr,hold i 1 _ j hp,fun n' name' hn' hs' => huniq n' name' hn' (hback n' name' hs')⟩
  · rw [htype] at hj
    rw [hnl j hj,h.nlink j hj,hlinks j]
    split_ifs <;> simp
  · rw [htype] at hj
    rw [hnl j hj]
    have := h.fits j hj
    split_ifs with hjk
    · subst hjk
      omega
    · omega

lemma links_eq_one (hs : s.Entry d m name k) (hne : name ≠ Fs.dot)
    (hone : ∀ e n name', s.Entry e n name' k → name' ≠ Fs.dot → e = d ∧ n = m) :
    s.links sb k = 1 := by
  rw [links,sum_eq_single_of_mem d (h.mem_range hs)]
  · exact countP_eq_one hs hne fun n name' hn hne' => (hone d n name' hn hne').2
  · intro e _ he
    refine countP_eq_zero fun n name' hn => by_contra fun hne' => ?_
    exact he (hone e n name' hn hne').1

lemma two_le_links {e n : ℕ} {name' : List UInt8} (hs : s.Entry d m name k)
    (hs' : s.Entry e n name' k) (hne : name ≠ Fs.dot) (hne' : name' ≠ Fs.dot) (hde : d ≠ e) :
    2 ≤ s.links sb k := by
  have hsub : {d,e} ⊆ range sb.ninodes :=
    insert_subset (h.mem_range hs) (singleton_subset_iff.mpr (h.mem_range hs'))
  have hle : ∑ i ∈ {d,e}, (s.table i).countP (Names k) ≤ s.links sb k :=
    sum_le_sum_of_subset hsub
  rw [sum_pair hde] at hle
  have := countP_pos hs hne
  have := countP_pos hs' hne'
  omega

end

/-- A directory with no entries but the first two. -/
def Empty (s : Files) (k : ℕ) : Prop := ∀ n name i, 2 ≤ n → ¬s.Entry k n name i

/-- An empty directory has one link, from the directory that it is an entry of. -/
lemma links_empty (h : Linked sb s) (hm : 2 ≤ m) (hs : s.Entry d m name k)
    (hk : (s.inode k).type = T_DIR) (he : Empty s k) : s.links sb k = 1 := by
  obtain ⟨hroot,hp,huniq⟩ := h.tree d m name k hm hs hk
  refine h.links_eq_one hs (h.ne_dot (by omega) hs) fun e n name' hn hne => ?_
  by_cases h2 : 2 ≤ n
  · obtain ⟨-,hp',-⟩ := h.tree e n name' k h2 hn hk
    obtain ⟨-,rfl⟩ := hp.inj hp'
    exact ⟨rfl,huniq n name' h2 hn⟩
  · obtain rfl | rfl : n = 0 ∨ n = 1 := by omega
    · exact absurd (hn.inj (h.dot e (dir_of_table hn))).1 hne
    · -- a directory with this parent would be an entry of it
      obtain ⟨i,hi,hpar⟩ := h.dotdot e (dir_of_table hn)
      obtain ⟨-,rfl⟩ := hn.inj hi
      rcases hpar with ⟨-,hr⟩ | ⟨n',name',h2',hs'⟩
      · exact absurd hr hroot
      · exact absurd hs' (he n' name' e h2')

/-- The directory that an empty one is an entry of has another link. -/
lemma links_parent (h : Linked sb s) (hm : 2 ≤ m) (hs : s.Entry d m name k) (hdk : d ≠ k)
    (hk : (s.inode k).type = T_DIR) (he : Empty s k) : 2 ≤ s.links sb d := by
  obtain ⟨-,hp,-⟩ := h.tree d m name k hm hs hk
  obtain ⟨e,n,name',hn,hne,hor⟩ := h.dir_links (dir_of_table hs)
  refine h.two_le_links hp hn (h.ne_dot one_ne_zero hp) hne ?_
  rintro rfl
  rcases hor with ⟨hd,hk⟩ | h2
  · exact hdk (hd.trans hk.symm)
  · exact he n name' d h2 hn

end Linked

/-- Slot `m` of directory `d` is free, and the inode `k` that it named is free if this was its last
link; a directory is freed then, and its own link to `d` is gone. -/
structure Unnamed (s t : Files) (d m k : ℕ) : Prop where
  dirs : t.Directories
  type : ∀ j, j ≠ k → (t.inode j).type = (s.inode j).type
  node : (t.inode k).type = 0 ∧ (s.inode k).nlink = 1 ∨
    (s.inode k).type ≠ T_DIR ∧ (t.inode k).type = (s.inode k).type ∧
      (t.inode k).nlink = (s.inode k).nlink-1
  nlink : ∀ j, j ≠ k → (s.inode j).type ≠ 0 → (t.inode j).nlink =
    (s.inode j).nlink-if (s.inode k).type = T_DIR ∧ j = d then 1 else 0
  put : t.table d = Lib.Slots.put (s.table d) m none
  other : ∀ j, j ≠ d → j ≠ k → t.table j = s.table j

namespace Unnamed
variable {i j n : ℕ} {a : List UInt8} (ht : Unnamed s t d m k)
include ht

lemma not_dir : (t.inode k).type ≠ T_DIR := by
  rcases ht.node with ⟨h0,-⟩ | ⟨hne,heq,-⟩
  · rw [h0]
    decide
  · rwa [heq]

lemma dir (hj : (t.inode j).type = T_DIR) : j ≠ k ∧ (s.inode j).type = T_DIR := by
  have hjk : j ≠ k := by
    rintro rfl
    exact ht.not_dir hj
  exact ⟨hjk,ht.type j hjk ▸ hj⟩

variable (hs : s.Entry d m name k)
include hs

/-- The entries are those of before, but for the one that is erased and those of `k`. -/
lemma old (he : t.Entry j n a i) : s.Entry j n a i ∧ j ≠ k := by
  have hjk : j ≠ k := (ht.dir (dir_of_table he)).1
  refine ⟨?_,hjk⟩
  by_cases hj : j = d
  · subst hj
    rw [Entry,ht.put,Lib.Slots.getElem?_put _ (List.getElem?_eq_some_iff.mp hs).choose.le] at he
    split_ifs at he
    · cases he
    · exact he
  · rwa [Entry,ht.other j hj hjk] at he

lemma new (he : s.Entry j n a i) (hjk : j ≠ k) (hnm : n ≠ m ∨ i ≠ k) : t.Entry j n a i := by
  by_cases hj : j = d
  · subst hj
    have hne : n ≠ m := by
      rintro rfl
      exact hnm.elim (fun h => h rfl) fun h => h (he.inj hs).2
    rw [Entry,ht.put,Lib.Slots.getElem?_put _ (List.getElem?_eq_some_iff.mp hs).choose.le,
      if_neg hne]
    exact he
  · rwa [Entry,ht.other j hj hjk]

end Unnamed

namespace Linked
variable (h : Linked sb s) (ht : Unnamed s t d m k) (hs : s.Entry d m name k)
include h ht hs

lemma erase_used {j : ℕ} (hj : (t.inode j).type ≠ 0) : (s.inode j).type ≠ 0 := by
  by_cases hjk : j = k
  · subst hjk
    exact h.named d m _ j hs
  · rwa [← ht.type j hjk]

variable (hm : 2 ≤ m) (hdk : d ≠ k) (hempty : Empty s k)
include hm hdk hempty

/-- Where the links to inode `j` are when the entry of `d` for `k` is gone, and with it all the
entries of `k`. -/
lemma erase_links (j : ℕ) :
    t.links sb j+(if j = k then 1 else 0)+(if (s.inode k).type = T_DIR ∧ j = d then 1 else 0) =
      s.links sb j := by
  have hne := h.ne_dot (by omega) hs
  -- an empty directory has one entry that is a link, for the directory it is in
  have hown : (s.table k).countP (Names j) =
      if (s.inode k).type = T_DIR ∧ j = d then 1 else 0 := by
    have hall : (s.inode k).type = T_DIR → ∀ n name i, s.Entry k n name i → name ≠ Fs.dot →
        n = 1 ∧ i = d := by
      intro hk n name i hn hname
      obtain ⟨-,hp,-⟩ := h.tree d m _ k hm hs hk
      have hlt : ¬2 ≤ n := fun h2 => hempty n name i h2 hn
      obtain rfl | rfl : n = 0 ∨ n = 1 := by omega
      · exact absurd (hn.inj (h.dot k hk)).1 hname
      · exact ⟨rfl,(hn.inj hp).2⟩
    split_ifs with hj
    · obtain ⟨hk,rfl⟩ := hj
      obtain ⟨-,hp,-⟩ := h.tree j m _ k hm hs hk
      exact countP_eq_one hp (h.ne_dot one_ne_zero hp) fun n name hn hname =>
        (hall hk n name j hn hname).1
    · refine countP_eq_zero fun n name hn => by_contra fun hname => hj ?_
      exact ⟨dir_of_table hn,(hall (dir_of_table hn) n name j hn hname).2⟩
  have hsum : ∀ i ∈ range sb.ninodes, (s.table i).countP (Names j) =
      (t.table i).countP (Names j)+(if i = d then (if j = k then 1 else 0) else 0)+
        (if i = k then (if (s.inode k).type = T_DIR ∧ j = d then 1 else 0) else 0) := by
    intro i _
    by_cases hi : i = d
    · subst hi
      rw [if_pos rfl,if_neg hdk,ht.put,← Lib.Slots.countP_erase rfl hs]
      simp only [names_some,hne,ne_eq,not_false_eq_true,true_and,Nat.add_zero]
    · by_cases hik : i = k
      · subst hik
        rw [if_neg hi,if_pos rfl,table_not_dir ht.not_dir,hown,List.countP_nil,Nat.zero_add]
      · rw [if_neg hi,if_neg hik,ht.other i hi hik,Nat.add_zero]
  have hmem : d ∈ range sb.ninodes := h.mem_range hs
  have hmemk : k ∈ range sb.ninodes :=
    Finset.mem_range.mpr (h.used k (h.named d m _ k hs)).2
  rw [links,links,sum_congr rfl hsum,sum_add_distrib,sum_add_distrib,
    sum_ite_eq' _ d,sum_ite_eq' _ k,if_pos hmem,if_pos hmemk]

lemma erase_nlink {j : ℕ} (hj : (t.inode j).type ≠ 0) : (t.inode j).nlink = t.links sb j := by
  have hl := h.erase_links ht hs hm hdk hempty j
  have hsj := h.nlink j (h.erase_used ht hs hj)
  by_cases hjk : j = k
  · subst hjk
    rcases ht.node with ⟨h0,-⟩ | ⟨hne,-,hlk⟩
    · exact absurd h0 hj
    · rw [if_pos rfl,if_neg fun hc => hne hc.1] at hl
      rw [hlk]
      omega
  · rw [ht.nlink j hjk (h.erase_used ht hs hj)]
    rw [if_neg hjk] at hl
    split_ifs at hl ⊢ <;> omega

lemma erase_named {j n i : ℕ} {a : List UInt8} (he : t.Entry j n a i) : (t.inode i).type ≠ 0 := by
  obtain ⟨hent,hjk⟩ := ht.old hs he
  by_cases hik : i = k
  · subst hik
    rcases ht.node with ⟨h0,h1⟩ | ⟨-,heq,-⟩
    · have hl := h.erase_links ht hs hm hdk hempty i
      have hsi := h.nlink i (h.named d m _ i hs)
      rw [if_pos rfl] at hl
      have hzero : t.links sb i = 0 := by omega
      by_cases hname : a = Fs.dot
      · subst hname
        obtain rfl : n = 0 := by_contra fun hn0 => h.ne_dot hn0 hent rfl
        exact absurd (hent.inj (h.dot j (dir_of_table hent))).2.symm hjk
      · have hpos := countP_pos he hname
        have := sum_eq_zero_iff.mp hzero j (h.mem_range hent)
        omega
    · rw [heq]
      exact h.named d m _ i hs
  · rw [ht.type i hik]
    exact h.named j n a i hent

lemma erase : Linked sb t := by
  have hroot : ROOTINO ≠ k := by
    rintro rfl
    exact (h.tree d m _ _ hm hs h.root).1 rfl
  refine ⟨fun j hj => h.used j (h.erase_used ht hs hj),ht.type _ hroot ▸ h.root,ht.dirs,
    fun j hj => ?_,fun j hj => ?_,fun j n a i => h.erase_named ht hs hm hdk hempty,
    fun j n a i hn he hi => ?_,fun j => h.erase_nlink ht hs hm hdk hempty,fun j hj => ?_⟩
  · obtain ⟨hjk,hj⟩ := ht.dir hj
    exact ht.new hs (h.dot j hj) hjk (.inl (by omega))
  · obtain ⟨hjk,hj⟩ := ht.dir hj
    obtain ⟨e,he,hp⟩ := h.dotdot j hj
    refine ⟨e,ht.new hs he hjk (.inl (by omega)),hp.imp_right ?_⟩
    rintro ⟨n,a,hn,hent⟩
    refine ⟨n,a,hn,ht.new hs hent ?_ (.inr hjk)⟩
    rintro rfl
    exact hempty n a j hn hent
  · obtain ⟨hent,hjk⟩ := ht.old hs he
    obtain ⟨hik,hi⟩ := ht.dir hi
    obtain ⟨hr,hp,huniq⟩ := h.tree j n a i hn hent hi
    refine ⟨hr,ht.new hs hp hik (.inl (by omega)),fun n' a' hn' he' => ?_⟩
    exact huniq n' a' hn' (ht.old hs he').1
  · have hl := h.erase_links ht hs hm hdk hempty j
    have hsj := h.nlink j (h.erase_used ht hs hj)
    have := h.fits j (h.erase_used ht hs hj)
    rw [h.erase_nlink ht hs hm hdk hempty hj]
    omega

end Linked
end Files

end Xv6.Fs
