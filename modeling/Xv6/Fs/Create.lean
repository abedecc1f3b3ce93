import Xv6.Fs.Keeps

/-! `dirlink`, `ialloc` and `create`, run alone. -/
namespace Xv6.Fs
open View List Files Data Logged

open Itable (Scan)
open Lib (Few)
open Lib.Prog (wp_act wp_bind wp_ite wp_perform)

namespace Solo
variable {sb : DiskSb} {p : Fin NPROC} {E : View → Stop → Prop} {v : View} {i : Slot} {k inum : ℕ}
variable {name : List UInt8} {α : Type}

/-- The blocks of `l` are, apart from bitmap and the inode `k`, at most `n` different ones. -/
def Costs (sb : DiskSb) (k n : ℕ) (l : List ℕ) : Prop := ∀ ks, k ∈ ks → Few (sb.metas ks) n l

variable {Q : α → View → Prop}

/-- The actions that change the fields of a locked inode. -/
lemma wp_set {a : Act} {c : a.Ret → Code α} {r : a.Ret} (f : Dinode → Dinode)
    (ha : ∀ P, Set sb v i f (P r) → pre sb p E a v P) (hm : ⟨i,k,.locked⟩ ∈ v.held)
    (h : ∀ s, s = v.files.setInode k (f (v.inode k)) → Image sb s.inode s.store →
      (c r).Wp (spec sb p E) (v.after s [sb.IBLOCK k]) Q) :
    (perform a >>= c).Wp (spec sb p E) v Q :=
  wp_act (ha _ ⟨k,hm,fun hi => h _ rfl hi⟩)

variable {major minor : ℤ} {c : Unit → Code α}

lemma wp_setup (hm : ⟨i,k,.locked⟩ ∈ v.held) (h : ∀ s, s = v.files.setInode k
        { v.inode k with major := toShort major, minor := toShort minor, nlink := 1 } →
      Image sb s.inode s.store →
      (c ()).Wp (spec sb p E) (v.after s [sb.IBLOCK k]) Q) :
    (perform (.setup i major minor) >>= c).Wp (spec sb p E) v Q :=
  wp_set (a := .setup i major minor)
    (fun d => { d with major := toShort major, minor := toShort minor, nlink := 1 })
    (fun _ hP => hP) hm h

lemma wp_clearNlink (hm : ⟨i,k,.locked⟩ ∈ v.held)
    (h : ∀ s, s = v.files.setInode k { v.inode k with nlink := 0 } →
      Image sb s.inode s.store →
      (c ()).Wp (spec sb p E) (v.after s [sb.IBLOCK k]) Q) :
    (perform (.clearNlink i) >>= c).Wp (spec sb p E) v Q :=
  wp_set (a := .clearNlink i) (fun d => { d with nlink := 0 }) (fun _ hP => hP) hm h

lemma wp_addNlink {δ : ℤ} (hm : ⟨i,k,.locked⟩ ∈ v.held)
    (h : ∀ s, s = v.files.setInode k { v.inode k with nlink := toShort ((v.inode k).nlink+δ) } →
      Image sb s.inode s.store →
      (c ()).Wp (spec sb p E) (v.after s [sb.IBLOCK k]) Q) :
    (perform (.addNlink i δ) >>= c).Wp (spec sb p E) v Q :=
  wp_set (a := .addNlink i δ) (fun d => { d with nlink := toShort (d.nlink+δ) }) (fun _ hP => hP)
    hm h

/-- `iput`: it may free the inode. -/
lemma wp_put {Q : Unit → View → Prop} {h : Held} (hi : Image sb v.inode v.store)
    (hm : h ∈ v.held) (hst : h.mode.stage = .idle) (hty : (v.inode h.inum).type ≠ 0)
    (hkeep : ¬v.Last h ∨ h.mode = .fresh → Q () (v.drop h))
    (hfree : v.Last h → ∀ s l, Image sb s.inode s.store →
      Files.Keeps {h.inum} v.files s → s.inode h.inum = (v.inode h.inum).freed →
      Costs sb h.inum 0 l → Q () ((v.after s l).drop h)) :
    (iput h.slot).Wp (spec sb p E) v Q := by
  obtain ⟨st,hst',hblock,-⟩ := itrunc_spec (x := v.data h.inum) ⟨hi.own,rfl,hty⟩
  have hptr : ∀ pos, (v.data h.inum).ptr pos ≠ 0 → (v.data h.inum).ptr pos < sb.size := fun pos h0 =>
    (hi.own.mark h.inum pos hty h0).2.1
  refine wp_iput hm hst hkeep (fun hl y hy himage => ?_) fun m he => ?_
  · cases hst'.symm.trans hy
    exact hfree hl _ _ himage (.of_block v.files _ _ hblock) (Function.update_self ..) fun ks hks =>
      release_few hks hptr
  · cases hst'.symm.trans he

lemma wp_iunlockput {Q : Unit → View → Prop} (hi : Image sb v.inode v.store)
    (hm : ⟨i,k,.locked⟩ ∈ v.held) (hty : (v.inode k).type ≠ 0)
    (hkeep : ¬v.Last ⟨i,k,.locked⟩ → Q () (v.drop ⟨i,k,.locked⟩))
    (hfree : v.Last ⟨i,k,.locked⟩ → ∀ s l, Image sb s.inode s.store →
      Files.Keeps {k} v.files s → s.inode k = (v.inode k).freed → Costs sb k 0 l →
      Q () ((v.after s l).drop ⟨i,k,.locked⟩)) :
    (iunlockput i).Wp (spec sb p E) v Q := by
  have hlast : (v.move ⟨i,k,.locked⟩ .seen).Last ⟨i,k,.seen⟩ ↔ v.Last ⟨i,k,.locked⟩ :=
    and_congr (sole_move hm) Iff.rfl
  refine wp_act ⟨k,hm,wp_put (h := ⟨i,k,.seen⟩) hi mem_cons_self rfl hty (fun hk => ?_)
    fun hl s l hs hkeeps hfreed hcost => ?_⟩
  · rw [move_drop (h := ⟨i,k,.locked⟩)]
    refine hkeep (hk.elim (mt hlast.mpr) fun hf => ?_)
    cases hf
  · have hdrop : ((v.move ⟨i,k,.locked⟩ .seen).after s l).drop ⟨i,k,.seen⟩ =
        (v.after s l).drop ⟨i,k,.locked⟩ := move_drop (v := v.after s l) (h := ⟨i,k,.locked⟩)
    rw [hdrop]
    exact hfree (hlast.mp hl) s l hs hkeeps hfreed hcost

section Dirwrite
variable {Q : Bool → View → Prop} (hi : Image sb v.inode v.store) (hm : ⟨i,k,.locked⟩ ∈ v.held)
variable (hd : (v.data k).Directory)
variable (hfail : ∀ s l, ¬(v.data k).HasRoom sb → Image sb s.inode s.store →
  Files.Keeps ∅ v.files s → Costs sb k 2 l → Q false (v.after s l))
variable (hok : ∀ s l, (v.data k).HasRoom sb →
  Files.Entered sb v.files s k (Dirent.slot ⟨inum%65536,strncpy DIRSIZ name⟩) →
  Costs sb k 2 l → Q true (v.after s l))
include hi hm hd hfail hok

/-- `dirlink` after its check. -/
lemma wp_dirwrite (hty : (v.inode k).type ≠ 0) :
    (perform (.dirwrite i name inum)).Wp (spec sb p E) v Q := by
  obtain ⟨r,y,hw,hown,hg,hf,ha,-,hroom,hslots⟩ :=
    dirwrite_slots (x := v.data k) ⟨hi.own,rfl,hty⟩ hd.full hd.aligned name inum
  have hres : (Logged.writeData sb k (sb.logged.dirwrite (v.data k) name inum)).result = .ok (r,y) := by
    rw [writeData_result,dirwrite_result,hw]
  have hcost : Costs sb k 2
      (Logged.writeData sb k (sb.logged.dirwrite (v.data k) name inum)).trace := fun ks hks =>
    writeData_few hks (dirwrite_few hd.full hd.aligned name inum)
  refine wp_perform ⟨k,hm,?_⟩
  unfold Wrote
  rw [hres]
  intro himage
  have hkeep : Files.Keeps {k} v.files (v.files.iupdate k y) := .grow hi hty hg
  have hfile : (v.files.iupdate k y).file k = y := iupdate_file v.files k y
  have hinode : (v.files.iupdate k y).inode k = y.d := congrArg d hfile
  rw [write_eq]
  by_cases hr : r = DIRENT
  · rw [decide_eq_true hr]
    rw [if_pos hr] at hslots
    refine hok _ _ (hroom.mp hr) ⟨himage,hkeep,?_,?_,?_⟩ hcost
    · rw [hinode]
      exact hg.d_eq
    · rwa [hfile]
    · rwa [hfile]
  · rw [decide_eq_false hr]
    rw [if_neg hr] at hslots
    refine hfail _ _ (fun h => hr (hroom.mpr h)) himage (hkeep.of_same ?_ ?_) hcost
    · have hsize : y.d.size = (v.data k).d.size := by
        rw [← content_length,hslots,content_length]
      have hd := hg.d_eq
      rw [hsize] at hd
      rw [hinode]
      exact hd
    · rw [Files.content,hfile]
      exact hslots

/-- `dirlink` of a name that is not in the directory. -/
lemma wp_dirlink_new (hdir : (v.inode k).type = T_DIR)
    (hnone : v.files.dirMap k (cut name) = none) :
    (dirlink i name inum).Wp (spec sb p E) v Q :=
  wp_dirlookup hm hdir hd (fun _ => wp_dirwrite hi hm hd hfail hok (type_dir (s := v.files) hdir))
    fun j m hsome _ => by
      rw [show (v.data k).dirMap (cut name) = none from hnone] at hsome
      cases hsome

end Dirwrite

/-- `dirlink` in a directory whose entries are for inodes that stay. -/
lemma wp_dirlink {Q : Bool → View → Prop} (hi : Image sb v.inode v.store)
    (hm : ⟨i,k,.locked⟩ ∈ v.held) (hdir : (v.inode k).type = T_DIR) (hd : (v.data k).Directory)
    (hE : v.TableFull → E v (.panic "iget: no inodes"))
    (hnamed : ∀ j, v.files.dirMap k (cut name) = some j → v.Kept j)
    (hfound : v.files.dirMap k (cut name) ≠ none → Q false v)
    (hfail : ∀ s l, v.files.dirMap k (cut name) = none → ¬(v.data k).HasRoom sb →
      Image sb s.inode s.store → Files.Keeps ∅ v.files s → Costs sb k 2 l →
      Q false (v.after s l))
    (hok : ∀ s l, v.files.dirMap k (cut name) = none → (v.data k).HasRoom sb →
      Files.Entered sb v.files s k (Dirent.slot ⟨inum%65536,strncpy DIRSIZ name⟩) →
      Costs sb k 2 l → Q true (v.after s l)) :
    (dirlink i name inum).Wp (spec sb p E) v Q := by
  refine wp_dirlookup hm hdir hd (fun hnone => ?_) fun j m hsome _ => ⟨hE,fun ip hip => ?_⟩
  · exact wp_dirwrite hi hm hd (fun s l => hfail s l hnone) (fun s l => hok s l hnone)
      (type_dir (s := v.files) hdir)
  · have hkept : v.Kept j := hnamed j hsome
    refine wp_bind (wp_iput_keep mem_hold rfl ?_ ?_)
    · exact View.Kept.not_last hkept hip
    · rw [hold_drop]
      exact hfound (by rw [show v.files.dirMap k (cut name) = some j from hsome]; nofun)

variable {Q : Option Slot → View → Prop} {d type : ℕ}

section Ialloc
variable (hE : ∀ w, w.others = v.others → w.held = v.held → w.TableFull →
  E w (.panic "iget: no inodes"))
variable (hsome : ∀ k j, 0 < k → k < sb.ninodes → (v.inode k).type = 0 →
  Image sb (v.files.setInode k (.fresh type)).inode v.store → (v.hold ⟨j,k,.fresh⟩).Wf →
  Q (some j) ((v.after (v.files.setInode k (.fresh type)) [sb.IBLOCK k]).hold ⟨j,k,.fresh⟩))
include hE hsome

lemma wp_iallocLoop (fuel n : ℕ) (h0 : 0 < n) (hn : n ≤ sb.ninodes+1)
    (hfuel : sb.ninodes+2 ≤ fuel+n)
    (hnone : (∀ k, n ≤ k → k < sb.ninodes → (v.inode k).type ≠ 0) → Q none v) :
    (iallocLoop fuel ⟨p.val,ROOTDEV,type,n,false⟩).Wp (spec sb p E)
      { v with scans := ⟨p.val,ROOTDEV,type,n,false⟩::v.scans } Q := by
  induction fuel generalizing n with
  | zero => omega
  | succ fuel ih =>
    rw [iallocLoop]
    refine wp_act ⟨mem_cons_self,?_⟩
    simp only [Bool.false_eq_true,if_false,erase_cons_head]
    split
    · rename_i hlt
      split
      · rename_i hfree
        intro himage
        obtain ⟨fuel,rfl⟩ := Nat.exists_eq_succ_of_ne_zero (show fuel ≠ 0 by omega)
        rw [iallocLoop]
        refine wp_act ⟨mem_cons_self,?_⟩
        simp only [if_true,erase_cons_head]
        refine ⟨hE _ rfl rfl,fun j hj => ?_⟩
        exact hsome n j h0 hlt hfree himage (hj.of_eq rfl rfl rfl)
      · rename_i hused
        refine ih (n+1) n.succ_pos (by omega) (by omega) fun hall => hnone fun k hk hlt' => ?_
        rcases Nat.eq_or_lt_of_le hk with rfl | hk
        · exact hused
        · exact hall k hk hlt'
    · rename_i hge
      exact hnone fun k hk hlt => absurd hlt (by omega)

lemma wp_ialloc (hnone : (∀ k, 0 < k → k < sb.ninodes → (v.inode k).type ≠ 0) → Q none v) :
    (Fs.ialloc sb type).Wp (spec sb p E) v Q :=
  wp_act (wp_iallocLoop hE hsome (sb.ninodes+2) 1 one_pos (by omega) (by omega) hnone)

end Ialloc

/-- The entries of a new directory; there are none in another new inode. -/
def Filled (sb : Superblock) (s t : Files) (type k d : ℕ) : Prop :=
  if type = T_DIR then
    ∃ u, Files.Entered sb s u k (Dirent.slot ⟨k%65536,strncpy DIRSIZ dot⟩) ∧
      Files.Entered sb u t k (Dirent.slot ⟨d%65536,strncpy DIRSIZ dotdot⟩)
  else t = s

lemma Filled.keeps {s t : Files} (h : Filled sb s t type k d) : Files.Keeps {k} s t := by
  unfold Filled at h
  split at h
  · obtain ⟨u,hu,ht⟩ := h
    exact hu.keeps.trans ht.keeps
  · rw [h]
    exact .refl s

variable {dp ip : Slot}

lemma wp_dots {Q : Bool → View → Prop} {f : Code Bool}
    (hi : Image sb v.inode v.store) (hm : ⟨ip,k,.locked⟩ ∈ v.held)
    (hdp : ⟨i,d,.locked⟩ ∈ v.held) (hdir : (v.inode k).type = T_DIR) (hnew : (v.inode k).size = 0)
    (hfail : ∀ s l, Image sb s.inode s.store → Files.Keeps {k} v.files s →
      (s.inode k).type = T_DIR → Costs sb k 4 l → Q false (v.after s l))
    (hok : ∀ s u l, Files.Entered sb v.files u k
        (Dirent.slot ⟨k%65536,strncpy DIRSIZ dot⟩) →
      Files.Entered sb u s k (Dirent.slot ⟨d%65536,strncpy DIRSIZ dotdot⟩) →
      Costs sb k 4 l → f.Wp (spec sb p E) (v.after s l) Q) :
    (do
      if !(← dirlink ip dot k) then return false
      if !(← dirlink ip dotdot (← perform (.peek i)).1) then return false
      f).Wp (spec sb p E) v Q := by
  have hslots : (v.files.file k).slots = [] := by
    rw [slots,ents,show (v.files.file k).d.size = 0 from hnew]
    rfl
  have hd : (v.data k).Directory := by
    refine ⟨hi.full k (type_dir (s := v.files) hdir),⟨0,hnew⟩,?_⟩
    rw [show (v.data k).slots = [] from hslots]
    simp [Lib.Slots.Distinct]
  have hnone : ∀ key, v.files.dirMap k key = none := by
    intro key
    rw [Files.dirMap,Data.dirMap,hslots]
    rfl
  refine wp_bind (wp_dirlink_new hi hm hd (fun s l _ hs hk hl => ?_) (fun u l _ hu hl => ?_) hdir
    (hnone _))
  · exact hfail s l hs (hk.mono (Set.empty_subset _)) ((hk.type k (by simp)).trans hdir) fun ks hks =>
      (hl ks hks).le (by omega)
  · have hone : (u.file k).slots = [Dirent.slot ⟨k%65536,strncpy DIRSIZ dot⟩] := by
      obtain ⟨m,hm,-,hput⟩ := hu.slots
      rw [hslots] at hm hput
      rw [hput,Nat.le_zero.mp hm]
      rfl
    have hdir' : (u.inode k).type = T_DIR := (hu.type k).trans hdir
    have hd' : (u.file k).Directory := by
      refine ⟨hu.image.full k (type_dir hdir'),hu.aligned,?_⟩
      rw [hone]
      intro a b _ _ _ ha hb
      have ha := (List.getElem?_eq_some_iff.mp ha).1
      have hb := (List.getElem?_eq_some_iff.mp hb).1
      simp only [length_singleton] at ha hb
      omega
    have hnone' : u.dirMap k (cut dotdot) = none := by
      rw [Files.dirMap,Data.dirMap,hone,Lib.Slots.lookup_eq_none]
      intro m j hmj
      have hslot := mem_singleton.mp (mem_of_getElem? hmj)
      have hcut := (Dirent.slot_eq_some.mp hslot.symm).2.1
      rw [cut_strncpy] at hcut
      exact absurd hcut (by decide)
    refine wp_act ⟨d,hdp,?_⟩
    refine wp_bind (wp_dirlink_new (v := v.after u l) hu.image hm hd'
      (fun s l' _ hs hk hl' => ?_) (fun s l' _ hs hl' => ?_) hdir' hnone')
    · rw [after_after]
      exact hfail s _ hs (hu.keeps.trans (hk.mono (Set.empty_subset _)))
        ((hk.type k (by simp)).trans hdir') fun ks hks =>
        (hl ks hks).append (hl' ks hks)
    · rw [after_after]
      exact hok s u _ hu hs fun ks hks => (hl ks hks).append (hl' ks hks)

lemma wp_createEntries {Q : Bool → View → Prop}
    (hi : Image sb v.inode v.store) (hm : ⟨ip,k,.locked⟩ ∈ v.held)
    (hdp : ⟨dp,d,.locked⟩ ∈ v.held) (hne : d ≠ k) (htype : (v.inode k).type = type)
    (hnew : (v.inode k).size = 0) (hdir : (v.inode d).type = T_DIR) (hd : (v.data d).Directory)
    (hnone : v.files.dirMap d (cut name) = none)
    (hfail : ∀ s l, (type ≠ T_DIR → ¬(v.data d).HasRoom sb) →
      Image sb s.inode s.store → Files.Keeps {k} v.files s →
      (s.inode k).type = type → Few (sb.metas {d,k}) 6 l → Q false (v.after s l))
    (hok : ∀ s t l, (type ≠ T_DIR → (v.data d).HasRoom sb) →
      Filled sb v.files s type k d →
      Files.Entered sb s t d (Dirent.slot ⟨k%65536,strncpy DIRSIZ name⟩) →
      Few (sb.metas {d,k}) 6 l → Q true (v.after t l)) :
    (createEntries dp ip name type).Wp (spec sb p E) v Q := by
  have hk : k ∈ ({d,k} : Finset ℕ) := Finset.mem_insert_of_mem (Finset.mem_singleton_self k)
  have hd0 : (v.files.inode d).type ≠ 0 := type_dir hdir
  unfold createEntries
  refine wp_act ⟨k,hm,wp_ite (fun ht => ?_) fun ht => ?_⟩
  · subst ht
    refine wp_dots hi hm hdp htype hnew (fun s l hs hkeep hst hl => ?_) fun s u l hu hs hl => ?_
    · exact hfail s l (fun h => absurd rfl h) hs hkeep hst
        ((hl _ hk).le (by omega))
    · have hkeep : Files.Keeps {k} v.files s := hu.keeps.trans hs.keeps
      refine wp_dirlink_new (v := v.after s l) hs.image hdp (hkeep.directory hs.image hne hd0 hd)
        (fun t l' _ ht hkeep' hl' => ?_) (fun t l' _ ht hl' => ?_) ((hkeep.type d hne).trans hdir)
        ((congrFun (hkeep.dirMap hne hd0) _).trans hnone)
      · rw [after_after]
        have htk : (t.inode k).type = T_DIR := by
          rw [hkeep'.type k (by simp)]
          exact (hs.type k).trans ((hu.type k).trans htype)
        exact hfail t _ (fun h => absurd rfl h) ht (hkeep.trans (hkeep'.mono (Set.empty_subset _))) htk
          ((hl _ hk).append (hl' _ (Finset.mem_insert_self ..)))
      · rw [after_after]
        refine hok s t _ (fun h => absurd rfl h) ?_ ht
          ((hl _ hk).append (hl' _ (Finset.mem_insert_self ..)))
        rw [Filled,if_pos rfl]
        exact ⟨u,hu,hs⟩
  · refine wp_dirlink_new hi hdp hd (fun t l hroom hs hkeep hl => ?_)
      (fun t l hroom hs hl => ?_) hdir hnone
    · exact hfail t l (fun _ => hroom) hs (hkeep.mono (Set.empty_subset _))
        ((hkeep.type k (by simp)).trans htype) ((hl _ (Finset.mem_insert_self ..)).le (by omega))
    · refine hok v.files t l (fun _ => hroom) ?_ hs
        ((hl _ (Finset.mem_insert_self ..)).le (by omega))
      rw [Filled,if_neg ht]

/-- What `create` leaves of the files when it has made an inode, before it puts the directory. -/
structure Created (sb : Superblock) (s t : Files) (type : ℕ) (major minor : ℤ) (d k : ℕ)
    (name : List UInt8) : Prop where
  pos : 0 < k
  lt : k < sb.ninodes
  free : (s.inode k).type = 0
  absent : s.dirMap d (cut name) = none
  room : type ≠ T_DIR → (s.file d).HasRoom sb
  made : ∃ u, Filled sb (s.setInode k
      { Dinode.fresh type with major := toShort major, minor := toShort minor, nlink := 1 })
      u type k d ∧
    Files.Entered sb u t d (Dirent.slot ⟨k%65536,strncpy DIRSIZ name⟩)

namespace Created
variable {s t : Files} {type d j : ℕ} {major minor : ℤ}

variable (h : Created sb s t type major minor d k name)
include h

lemma image : Image sb t.inode t.store := by
  obtain ⟨u,-,hu⟩ := h.made
  exact hu.image

lemma type_eq (hj : j ≠ k) : (t.inode j).type = (s.inode j).type := by
  obtain ⟨u,hfill,hu⟩ := h.made
  exact (hu.type j).trans (((Files.Keeps.setInode s k _).trans hfill.keeps).type j hj)

lemma node : (t.inode k).type = type := by
  obtain ⟨u,hfill,hu⟩ := h.made
  rw [hu.type]
  unfold Filled at hfill
  split at hfill
  · obtain ⟨w,hw,hu'⟩ := hfill
    rw [hu'.type,hw.type,setInode_self]
    rfl
  · rw [hfill,setInode_self]
    rfl

lemma dir (hd : (s.inode d).type ≠ 0) : d ≠ k ∧ (t.inode d).type ≠ 0 := by
  have hne : d ≠ k := fun he => hd (he ▸ h.free)
  exact ⟨hne,(h.type_eq hne).trans_ne hd⟩

lemma new (hT : type ≠ T_DIR)
    (htype : type ≠ 0) (hne : k ≠ d) : t.inode k = { Dinode.fresh type with
      major := toShort major, minor := toShort minor, nlink := 1, addrs := (t.inode k).addrs } := by
  obtain ⟨u,hfill,hu⟩ := h.made
  rw [Filled,if_neg hT] at hfill
  have huk : u.inode k =
      { Dinode.fresh type with major := toShort major, minor := toShort minor, nlink := 1 } := by
    rw [hfill,setInode_self]
  rw [hu.keeps.fields k hne (by rw [huk]; exact htype),huk]

lemma dirMap (hT : type ≠ T_DIR)
    (hn : sb.ninodes ≤ 65536) (hdir : (s.inode d).type = T_DIR) (hd : (s.file d).Directory) :
    t.dirMap d = Function.update (s.dirMap d) (cut name) (some k) := by
  have hne := (h.dir (type_dir hdir)).1
  have hlt := h.lt
  have habsent := h.absent
  obtain ⟨u,hfill,hu⟩ := h.made
  rw [Filled,if_neg hT] at hfill
  have hkeep : Files.Keeps {k} s u := hfill ▸ .setInode s k _
  have hfile : u.file d = s.file d := hfill ▸ setInode_file s hne _
  have hmap : u.dirMap d = s.dirMap d := hkeep.dirMap hne (type_dir hdir)
  rw [Nat.mod_eq_of_lt (by omega),slot_strncpy h.pos.ne'] at hu
  rw [(hu.dirMap (hfile ▸ hd) (hmap ▸ habsent)).2,hmap]

end Created

/-- The directory is not put for the last time, if it has got no directory. -/
lemma Created.kept {t : Files} {l : List ℕ}
    (h : Created sb v.files t type major minor d k name) (hT : type ≠ T_DIR)
    (hk : v.Kept d) : (v.after t l).Kept d := by
  have hne := (h.dir hk.1).1
  obtain ⟨u,hfill,hu⟩ := h.made
  rw [Filled,if_neg hT] at hfill
  have hkeep : Files.Keeps {k} v.files u := hfill ▸ .setInode v.files k _
  have hku : (v.after u []).Kept d := hk.keeps hkeep hne
  exact View.Kept.entered (v := v.after u []) (l := l) hku hu

/-- The end of `create` when it has made an inode. -/
def createDone (dp ip : Slot) (type : ℕ) : Code (Option Slot) := do
  if type = T_DIR then perform (.addNlink dp 1)
  iunlockput dp
  return some ip

lemma wp_createDone
    (hi : Image sb v.inode v.store) (hm : ⟨dp,d,.locked⟩ ∈ v.held) (hd : (v.inode d).type ≠ 0)
    (hQ : ∀ s l, Image sb s.inode s.store → Files.Keeps {d} v.files s →
      Costs sb d 0 l → Q (some ip) ((v.after s l).drop ⟨dp,d,.locked⟩)) :
    (createDone dp ip type).Wp (spec sb p E) v Q := by
  have hput : ∀ s l, Image sb s.inode s.store → Files.Keeps {d} v.files s →
      (s.inode d).type ≠ 0 → Costs sb d 0 l → ((do iunlockput dp; return some ip) :
        Code (Option Slot)).Wp (spec sb p E) (v.after s l) Q := by
    intro s l hs hk hsd hl
    refine wp_bind (wp_iunlockput hs hm hsd (fun _ => hQ s l hs hk hl) fun _ t l' ht hkt _ hl' => ?_)
    rw [after_after]
    exact hQ t _ ht (hk.trans hkt) fun ks hks => (hl ks hks).append (hl' ks hks)
  refine wp_ite (fun _ => ?_) fun _ => ?_
  · refine wp_addNlink hm fun s hs himage => hput s _ himage (hs ▸ .setInode ..) ?_ fun ks hks => ?_
    · rw [hs,setInode_self]
      exact hd
    · exact .of_mem (forall_mem_singleton.mpr (inode_mem hks))
  · have h := hput v.files [] hi (.refl _) hd fun _ _ => .nil
    rwa [after_self] at h

/-- From the moment `create` has made an inode in the directory `d`, it ends in `Q`. -/
def Finishes (sb : DiskSb) (p : Fin NPROC) (E : View → Stop → Prop) (v : View) (type : ℕ)
    (major minor : ℤ) (dp : Slot) (d : ℕ) (name : List UInt8) (Q : Option Slot → View → Prop) :
    Prop :=
  ∀ k ip t l, Created sb v.files t type major minor d k name → Few (sb.metas {d,k}) 6 l →
    ((v.hold ⟨dp,d,.locked⟩).hold ⟨ip,k,.locked⟩).Wf →
    (createDone dp ip type).Wp (spec sb p E)
      (((v.after t l).hold ⟨dp,d,.locked⟩).hold ⟨ip,k,.locked⟩) Q

/-- `create` in the directory that the path leads to. -/
def createIn (sb : Superblock) (dp : Slot) (name : List UInt8) (type : ℕ) (major minor : ℤ) :
    Code (Option Slot) := do
  perform (.ilock dp)
  match ← perform (.dirlookup dp name) with
  | some (ip,_) =>
    iunlockput dp
    perform (.ilock ip)
    let d := (← perform (.peek ip)).2
    if type = T_FILE ∧ (d.type = T_FILE ∨ d.type = T_DEVICE) then return some ip
    iunlockput ip
    return none
  | none =>
    match ← Fs.ialloc sb type with
    | none =>
      iunlockput dp
      return none
    | some ip =>
      perform (.ilock ip)
      perform (.setup ip major minor)
      if ← createEntries dp ip name type then createDone dp ip type
      else
        perform (.clearNlink ip)
        iunlockput ip
        iunlockput dp
        return none

lemma create_eq (path : List UInt8) (type : ℕ) (major minor : ℤ) :
    create sb path type major minor = (do
      match ← nameiparent path with
      | none => return none
      | some (dp,name) => createIn sb dp name type major minor) := rfl

/-- `create` finds an inode that is free and room for the entry. -/
def CanMake (sb : Superblock) (s : Files) (d : ℕ) (name : List UInt8) : Prop :=
  s.dirMap d (cut name) = none ∧ (∃ k, 0 < k ∧ k < sb.ninodes ∧ (s.inode k).type = 0) ∧
    (s.file d).HasRoom sb

/-- The label `fail` of `create`: the new inode, which no one else has got, is given back. -/
lemma wp_createUndo {s : Files} {l : List ℕ}
    (ht : v.Tree) (h0 : v.held = []) (hk : v.Kept d) (hne : d ≠ k) (hfree : (v.inode k).type = 0)
    (hw : ((v.hold ⟨dp,d,.locked⟩).hold ⟨ip,k,.locked⟩).Wf) (hkeep : Files.Keeps {k} v.files s)
    (hst : (s.inode k).type ≠ 0) (hl : Few (sb.metas {d,k}) 6 l)
    (hfail : ∀ t l, Image sb t.inode t.store → Files.Keeps ∅ v.files t →
      Few (sb.metas {d,k}) 6 l → Q none (v.after t l)) :
    (do
      perform (.clearNlink ip)
      iunlockput ip
      iunlockput dp
      return none : Code (Option Slot)).Wp (spec sb p E)
      (((v.after s l).hold ⟨dp,d,.locked⟩).hold ⟨ip,k,.locked⟩) Q := by
  have hslot : dp ≠ ip := fun he => hne
    ((hw.held ⟨dp,d,.locked⟩ (by simp [hold]) ⟨ip,k,.locked⟩ (by simp [hold])).mp he)
  have hib : Few (sb.metas {d,k}) 0 [sb.IBLOCK k] :=
    .of_mem (forall_mem_singleton.mpr (inode_mem (by simp)))
  refine wp_clearNlink mem_hold fun t ht' himage => ?_
  simp only [hold_after,after_after]
  have htk : t.inode k = { s.inode k with nlink := 0 } := by
    rw [ht']
    exact setInode_self ..
  have hkeep' : Files.Keeps {k} v.files t := hkeep.trans (ht' ▸ Files.Keeps.setInode s k _)
  refine wp_bind (wp_iunlockput himage mem_hold (htk ▸ hst : (t.inode k).type ≠ 0)
    (fun hl => absurd ?_ hl) fun _ u l' hu hku huk hl' => ?_)
  · refine ⟨⟨?_,?_⟩,congrArg Dinode.nlink htk⟩
    · -- the inode was free, so that no one else refers to it
      by_contra hother
      have hname : k = v.name ip := (hw.other ⟨ip,k,.locked⟩ mem_hold ip hother).mp rfl
      exact ht.found ip hother (hname ▸ hfree)
    · simp [View.hold,View.after,h0,hslot]
  · simp only [hold_after,after_after,hold_drop]
    have hku' : Files.Keeps {k} v.files u := hkeep'.trans hku
    refine wp_putback (hk.keeps hku' hne) (hw.tail.of_eq rfl rfl rfl) ?_
    refine hfail u _ hu (hku'.of_free hfree ?_) ?_
    · rw [huk]
      rfl
    · exact ((hl.append hib).append (hl' _ (by simp))).le (by omega)

/-- `create` with a new inode. When it fails it gives the inode back. -/
lemma wp_createNew
    (ht : v.Tree) (h0 : v.held = []) (hk : v.Kept d) (hdir : (v.inode d).type = T_DIR)
    (htype : type ≠ 0) (hnone : v.files.dirMap d (cut name) = none) (hpos : 0 < k)
    (hlt : k < sb.ninodes) (hfree : (v.inode k).type = 0)
    (hw : ((v.hold ⟨dp,d,.locked⟩).hold ⟨ip,k,.fresh⟩).Wf)
    (hfail : ∀ s l, type = T_DIR ∨ ¬CanMake sb v.files d name →
      Image sb s.inode s.store → Files.Keeps ∅ v.files s →
      Few (sb.metas {d,k}) 6 l → Q none (v.after s l))
    (hmade : Finishes sb p E v type major minor dp d name Q) :
    (do
      perform (.ilock ip)
      perform (.setup ip major minor)
      if ← createEntries dp ip name type then createDone dp ip type
      else
        perform (.clearNlink ip)
        iunlockput ip
        iunlockput dp
        return none : Code (Option Slot)).Wp (spec sb p E)
      (((v.hold ⟨dp,d,.locked⟩).after (v.files.setInode k (.fresh type)) [sb.IBLOCK k]).hold
        ⟨ip,k,.fresh⟩) Q := by
  have hd0 : (v.inode d).type ≠ 0 := type_dir (s := v.files) hdir
  have hne : d ≠ k := fun he => hd0 (he ▸ hfree)
  have hslot : dp ≠ ip := fun he => hne
    ((hw.held ⟨dp,d,.locked⟩ (by simp [hold]) ⟨ip,k,.fresh⟩ (by simp [hold])).mp he)
  have hwl : ((v.hold ⟨dp,d,.locked⟩).hold ⟨ip,k,.locked⟩).Wf := hw.hold_mode
  have hib : Few (sb.metas {d,k}) 0 [sb.IBLOCK k] :=
    .of_mem (forall_mem_singleton.mpr (inode_mem (by simp)))
  refine wp_act ⟨k,.fresh,mem_hold,rfl,?_,?_⟩
  · exact (congrArg Dinode.type (Function.update_self ..)).trans_ne htype
  rw [if_neg ?locks,hold_move]
  case locks =>
    rintro ⟨g,hg,hgs,hl⟩
    simp only [View.hold,View.after,h0,mem_cons,not_mem_nil,or_false] at hg
    rcases hg with rfl | rfl
    · cases hl
    · exact hslot hgs
  refine wp_setup mem_hold fun u hu himage => ?_
  have hu' : u = v.files.setInode k
      { Dinode.fresh type with major := toShort major, minor := toShort minor, nlink := 1 } := by
    rw [hu]
    refine (setInode_setInode v.files k ..).trans ?_
    exact congrArg (fun d : Dinode => v.files.setInode k
      { d with major := toShort major, minor := toShort minor, nlink := 1 })
      (setInode_self v.files k (.fresh type))
  have hkeep : Files.Keeps {k} v.files u := hu' ▸ .setInode ..
  have huk : u.inode k =
      { Dinode.fresh type with major := toShort major, minor := toShort minor, nlink := 1 } := by
    rw [hu',setInode_self]
  have hdata : u.file d = v.data d := hu' ▸ setInode_file v.files hne _
  simp only [hold_after,after_after]
  refine wp_bind (wp_createEntries himage mem_hold (mem_cons_of_mem _ mem_hold) hne
    (congrArg Dinode.type huk) (congrArg Dinode.size huk) ((hkeep.type d hne).trans hdir)
    (hkeep.directory himage hne hd0 (ht.dirs d hdir)) ((congrFun (hkeep.dirMap hne hd0) _).trans hnone)
    (fun s l hroom _ hks hst hl => ?_) fun s t l hroom hfill hent hl => ?_)
  · simp only [hold_after,after_after]
    rw [if_neg Bool.false_ne_true]
    refine wp_createUndo ht h0 hk hne hfree hwl (hkeep.trans hks) (hst.trans_ne htype)
      (((hib.append hib).append hl).le (by omega))
      fun t l => hfail t l ?_
    by_cases hT : type = T_DIR
    · exact .inl hT
    · refine .inr fun hc => hroom hT ?_
      show (u.file d).HasRoom sb
      rw [hdata]
      exact hc.2.2
  · simp only [hold_after,after_after]
    refine hmade k ip t _ ⟨hpos,hlt,hfree,hnone,fun h => ?_,s,hu' ▸ hfill,hent⟩ ?_ hwl
    · exact (hdata ▸ hroom h : (v.data d).HasRoom sb)
    · exact ((hib.append hib).append hl).le (by omega)

/-- `create` once the directory is found. Whenever it fails, the files are as before. -/
lemma wp_createIn {m : Mode} (hi : Image sb v.inode v.store) (ht : v.Tree) (h0 : v.held = [])
    (hE : ∀ w g, w.others = v.others → w.held = g::v.held → g.slot = dp → w.TableFull →
      E w (.panic "iget: no inodes")) (hm : m.stage = .idle) (hw : (v.hold ⟨dp,d,m⟩).Wf)
    (hk : v.Kept d) (hdir : (v.inode d).type = T_DIR) (htype : type ≠ 0)
    (hfail : ∀ s l k, type = T_DIR ∨ ¬CanMake sb v.files d name →
      Image sb s.inode s.store → Files.Keeps ∅ v.files s →
      Few (sb.metas {d,k}) 6 l → Q none (v.after s l))
    (hfound : ∀ k j, v.files.dirMap d (cut name) = some k → v.Kept k → type = T_FILE →
      (v.inode k).type = T_FILE ∨ (v.inode k).type = T_DEVICE → (v.hold ⟨j,k,.locked⟩).Wf →
      Q (some j) (v.hold ⟨j,k,.locked⟩))
    (hmade : Finishes sb p E v type major minor dp d name Q) :
    (createIn sb dp name type major minor).Wp (spec sb p E) (v.hold ⟨dp,d,m⟩) Q := by
  have hu : v.Unlocked := .of_held h0
  have hsame : (type = T_DIR ∨ ¬CanMake sb v.files d name) → Q none v := by
    intro hwhy
    have h := hfail v.files [] 0 hwhy hi (.refl _) .nil
    rwa [after_self] at h
  have hnone : (type = T_DIR ∨ ¬CanMake sb v.files d name) →
      ((do iunlockput dp; return none) : Code (Option Slot)).Wp (spec sb p E)
        (v.hold ⟨dp,d,.locked⟩) Q :=
    fun hwhy => wp_putback hk hw.hold_mode (hsame hwhy)
  refine wp_ilock hu hm hk.1 ?_
  refine wp_dirlookup mem_hold hdir (ht.dirs d hdir) (fun habsent => ?_)
    fun k j hthere _ => ⟨hE _ _ rfl rfl rfl,fun ip hip => ?_⟩
  · refine wp_bind (wp_ialloc (fun w ho hh => hE w _ ho hh rfl)
      (fun k ip hpos hlt hfree _ hwf => ?_) fun hall => hnone (.inr fun hc => ?_))
    · exact wp_createNew ht h0 hk hdir htype habsent hpos hlt hfree hwf (fun s l => hfail s l k) hmade
    · obtain ⟨-,⟨k,hpos,hlt,hfree⟩,-⟩ := hc
      exact hall k hpos hlt hfree
  · have hkept : v.Kept k := ht.named d _ k hdir hthere
    rw [get_eq] at hip ⊢
    refine wp_putback_below hk hip (by simp) ?_
    have hwk : (v.hold ⟨ip,k,.locked⟩).Wf := hip.swap.tail.hold_mode
    refine wp_ilock hu rfl hkept.1 (wp_act ⟨k,mem_hold,wp_ite (fun hfile => ?_) fun hfile => ?_⟩)
    · exact hfound k ip hthere hkept hfile.1 hfile.2 hwk
    · refine wp_putback hkept hwk (hsame (.inr fun hc => ?_))
      cases hc.1.symm.trans (show v.files.dirMap d (cut name) = some k from hthere)

lemma wp_create {path : List UInt8} (hi : Image sb v.inode v.store) (ht : v.Tree) (h0 : v.held = [])
    (hE : MayFill E v) (hcwd : v.HasCwd p) (htype : type ≠ 0)
    (hfail : ∀ s l d k, Image sb s.inode s.store → Files.Keeps ∅ v.files s →
      Few (sb.metas {d,k}) 6 l → Q none (v.after s l))
    (hfound : ∀ d name k j, v.files.parent (v.start p path) (comps path) = some (d,name) →
      v.files.dirMap d (cut name) = some k → v.Kept k → type = T_FILE →
      (v.inode k).type = T_FILE ∨ (v.inode k).type = T_DEVICE → (v.hold ⟨j,k,.locked⟩).Wf →
      Q (some j) (v.hold ⟨j,k,.locked⟩))
    (hmade : ∀ d name dp, v.files.parent (v.start p path) (comps path) = some (d,name) →
      v.Kept d → Finishes sb p E v type major minor dp d name Q) :
    (create sb path type major minor).Wp (spec sb p E) v Q := by
  have hu : v.Unlocked := .of_held h0
  rw [create_eq]
  refine wp_bind (wp_nameiparent ht hu hE hcwd (fun _ => ?_) fun d name dp m hp hm hw hk => ?_)
  · have h := hfail v.files [] 0 0 hi (.refl _) .nil
    rwa [after_self] at h
  · exact wp_createIn hi ht h0 (fun w g ho hh _ => hE w ho (.inr ⟨g,hh⟩)) hm hw hk
      (parent_eq_some.mp hp).2.2 htype (fun s l k _ => hfail s l d k) (fun k j => hfound d name k j hp)
      (hmade d name dp hp hk)

end Solo
end Xv6.Fs
