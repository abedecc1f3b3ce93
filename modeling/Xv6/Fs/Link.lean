import Xv6.Fs.Create

/-! `sys_link`, run alone, and what `create` and `sys_link` leave when they fail. -/
namespace Xv6.Fs
open View List Files

open Lib (Few)
open Lib.Prog (wp_act wp_bind wp_ite wp_perform)

lemma Files.content_setInode {s : Files} {k : ℕ} {d : Dinode} (hsize : d.size = (s.inode k).size)
    (haddrs : d.addrs = (s.inode k).addrs) : (s.setInode k d).content k = s.content k := by
  have hfile : (s.setInode k d).file k = ⟨d,s.store⟩ :=
    congrArg (Data.mk · s.store) (Function.update_self ..)
  have hp : ∀ p, s.store.ptr d p = s.store.ptr (s.inode k) p := Store.ptr_congr haddrs fun _ => rfl
  rw [content,content,hfile,Data.content,Data.content]
  show (range d.size).map _ = (range (s.inode k).size).map _
  rw [hsize]
  refine map_congr_left fun i _ => ?_
  rw [Data.byteAt,Data.byteAt,Data.ptr,hp]
  rfl

variable {l : List ℕ}

/-- The tree while a call has a reference to a file and has changed its inode. -/
lemma View.Tree.change {v : View} {s : Files} {sb : Superblock} {i : Slot} {k : ℕ} {m : Mode}
    (ht : v.Tree) (hs : Image sb s.inode s.store) (hK : Files.Keeps {k} v.files s)
    (hty : (s.inode k).type = (v.inode k).type) (h0 : (v.inode k).type ≠ 0)
    (hdir : (v.inode k).type ≠ T_DIR) : ((v.after s l).hold ⟨i,k,m⟩).Tree := by
  have htype : ∀ j, (s.inode j).type = (v.inode j).type := by
    intro j
    by_cases hj : j = k
    · rw [hj,hty]
    · exact hK.type j hj
  have hkept : ∀ j, v.Kept j → ((v.after s l).hold ⟨i,k,m⟩).Kept j := by
    intro j hj
    by_cases hjk : j = k
    · rw [hjk]
      exact ⟨hty.trans_ne h0,.inr (.inr ⟨⟨i,k,m⟩,mem_hold,rfl⟩)⟩
    · exact View.Kept.hold (hj.keeps hK hjk)
  have hne : ∀ j, (s.inode j).type = T_DIR → j ≠ k ∧ (v.inode j).type = T_DIR := by
    intro j hj
    rw [htype] at hj
    exact ⟨fun he => hdir (he ▸ hj),hj⟩
  refine ⟨hkept _ ht.root,fun j hj => ?_,fun j name n hj hn => ?_,fun j hj => ?_⟩
  · obtain ⟨hjk,hjd⟩ := hne j hj
    exact hK.directory hs hjk (type_dir hjd) (ht.dirs j hjd)
  · obtain ⟨hjk,hjd⟩ := hne j hj
    refine hkept n (ht.named j name n hjd ?_)
    rw [← hK.dirMap hjk (type_dir hjd)]
    exact hn
  · exact (htype _).trans_ne (ht.found j hj)

lemma toShort_add_sub (n : ℤ) : toShort (toShort (n+1)+ -1) = toShort n := by
  rw [toShort,toShort,Int.bmod_add_bmod,toShort]
  ring_nf

namespace Solo
variable {sb : DiskSb} {p : Fin NPROC} {E : View → Stop → Prop} {v : View} {ip : Slot} {k : ℕ}
variable {Q : ℤ → View → Prop}

/-- The label `bad` of `sys_link`: the link count is as before. -/
lemma wp_linkBad {s : Files} {m : Mode}
    (hw : (v.hold ⟨ip,k,m⟩).Wf) (hu : v.Unlocked) (hk : v.Kept k) (hm : m.stage = .idle)
    (hfit : toShort (v.inode k).nlink = (v.inode k).nlink) (hs : Files.Keeps ∅ (v.files.setInode k
      { v.inode k with nlink := toShort ((v.inode k).nlink+1) }) s)
    (hfail : ∀ t, Image sb t.inode t.store → Files.Keeps ∅ v.files t →
      Q (-1) (v.after t (l++[sb.IBLOCK k]))) :
    (linkBad ip).Wp (spec sb p E) ((v.after s l).hold ⟨ip,k,m⟩) Q := by
  have h1k : (v.files.setInode k { v.inode k with nlink := toShort ((v.inode k).nlink+1) }).inode k =
      { v.inode k with nlink := toShort ((v.inode k).nlink+1) } := setInode_self ..
  have hsk : s.inode k = { v.inode k with
      nlink := toShort ((v.inode k).nlink+1), addrs := (s.inode k).addrs } := by
    rw [hs.fields k (by simp) (by rw [h1k]; exact hk.1),h1k]
  have hsc : s.content k = v.files.content k :=
    (hs.content k (by simp) (by rw [h1k]; exact hk.1)).trans (content_setInode rfl rfl)
  have hty : (s.inode k).type ≠ 0 := by
    rw [hsk]
    exact hk.1
  refine wp_ilock (v := v.after s l) hu hm hty ?_
  refine wp_addNlink mem_hold fun t ht himage => ?_
  simp only [hold_after,after_after]
  have htk : t.inode k = { v.inode k with addrs := (s.inode k).addrs } := by
    have hn : toShort (toShort ((v.inode k).nlink+1)+ -1) = (v.inode k).nlink := by
      rw [toShort_add_sub,hfit]
    rw [ht]
    refine (setInode_self s k _).trans ?_
    show { s.inode k with nlink := toShort ((s.inode k).nlink+ -1) } = _
    rw [hsk]
    simp only [hn]
  have hkeep : Files.Keeps ∅ v.files t := by
    have h₁ : Files.Keeps {k} v.files s :=
      (Files.Keeps.setInode v.files k _).trans (hs.mono (Set.empty_subset _))
    refine (h₁.trans (ht ▸ Files.Keeps.setInode s k _)).of_same ?_ ?_
    · rw [htk]
      rfl
    · rw [← hsc,ht]
      exact content_setInode rfl rfl
  exact wp_putback (hk.keeps hkeep (by simp)) (hw.hold_mode.of_eq rfl rfl rfl)
    (hfail t himage hkeep)

/-- `sys_link` with the inode found and its count incremented, in the directory of the new name. -/
lemma wp_linkIn {s : Files} {dp : Slot} {d : ℕ} {m : Mode}
    {name : List UInt8} (hs : s = v.files.setInode k
      { v.inode k with nlink := toShort ((v.inode k).nlink+1) })
    (hi : Image sb s.inode s.store) (ht : ((v.after s l).hold ⟨ip,k,.seen⟩).Tree)
    (hu : v.Unlocked) (hk : v.Kept k) (hfit : toShort (v.inode k).nlink = (v.inode k).nlink)
    (hE : ∀ w, E w (.panic "iget: no inodes")) (hw : (v.hold ⟨ip,k,.seen⟩).Wf)
    (hdw : (((v.after s l).hold ⟨ip,k,.seen⟩).hold ⟨dp,d,m⟩).Wf) (hm : m.stage = .idle)
    (hd : ((v.after s l).hold ⟨ip,k,.seen⟩).Kept d) (hdir : (s.inode d).type = T_DIR)
    (hfail : ∀ t l', Image sb t.inode t.store → Files.Keeps ∅ v.files t →
      Few (sb.metas {d,k}) 2 l' → Q (-1) (v.after t (l++l')))
    (hok : ∀ t l', s.dirMap d (cut name) = none →
      Files.Entered sb s t d (Dirent.slot ⟨k%65536,strncpy DIRSIZ name⟩) →
      Few (sb.metas {d,k}) 2 l' →
      ((do iput ip; return 0) : Code ℤ).Wp (spec sb p E)
        ((v.after t (l++l')).hold ⟨ip,k,.seen⟩) Q) :
    (do
      perform (.ilock dp)
      if ← dirlink dp name k then
        iunlockput dp
        iput ip
        return 0
      else
        iunlockput dp
        linkBad ip : Code ℤ).Wp (spec sb p E)
      (((v.after s l).hold ⟨ip,k,.seen⟩).hold ⟨dp,d,m⟩) Q := by
  have hib : Few (sb.metas {d,k}) 0 [sb.IBLOCK k] :=
    .of_mem (forall_mem_singleton.mpr (Logged.inode_mem (by simp)))
  have hwl : (((v.after s l).hold ⟨ip,k,.seen⟩).hold ⟨dp,d,.locked⟩).Wf :=
    hdw.hold_mode
  have hu' : ((v.after s l).hold ⟨ip,k,.seen⟩).Unlocked := forall_mem_cons.mpr ⟨rfl,hu⟩
  -- the two ways in which dirlink fails
  have hbad : ∀ t l', Files.Keeps ∅ s t → Few (sb.metas {d,k}) 2 l' →
      ((do iunlockput dp; linkBad ip) : Code ℤ).Wp (spec sb p E)
        (((v.after t (l++l')).hold ⟨ip,k,.seen⟩).hold ⟨dp,d,.locked⟩) Q := by
    intro t l' hkt hl'
    refine wp_putback (View.Kept.keeps (l := l') hd hkt (by simp)) (hwl.of_eq rfl rfl rfl) ?_
    refine wp_linkBad hw hu hk rfl hfit (hs ▸ hkt) fun u hu hku => ?_
    rw [append_assoc]
    exact hfail u _ hu hku ((hl'.append hib).le (by omega))
  refine wp_ilock hu' hm hd.1 ?_
  refine wp_bind (wp_dirlink hi mem_hold hdir (ht.dirs d hdir) (fun _ => hE _)
    (fun j hj => View.Kept.hold (ht.named d _ j hdir hj)) (fun _ => ?_) (fun t l' _ _ _ hkt hl' => ?_)
    fun t l' hnone _ hent hl' => ?_)
  · have h := hbad s [] (.refl s) .nil
    rw [append_nil] at h
    exact h
  · simp only [hold_after,after_after]
    exact hbad t l' hkt (hl' _ (by simp))
  · simp only [hold_after,after_after]
    exact wp_putback (View.Kept.entered (l := l') hd hent) (hwl.of_eq rfl rfl rfl)
      (hok t l' hnone hent (hl' _ (by simp)))

lemma wp_sysLink {old new : List UInt8}
    (hi : Image sb v.inode v.store) (ht : v.Tree) (h0 : v.held = [])
    (hcwd : v.HasCwd p) (hE : ∀ w, E w (.panic "iget: no inodes"))
    (hfit : ∀ k, (v.inode k).type ≠ 0 → toShort (v.inode k).nlink = (v.inode k).nlink)
    (hfail : ∀ s l d k, Image sb s.inode s.store → Files.Keeps ∅ v.files s →
      Few (sb.metas {d,k}) 2 l → Q (-1) (v.after s l))
    (hok : ∀ path k d name ip s t l, argstr old = some path →
      v.files.walk (v.start p path) (comps path) = some k → v.Kept k → (v.inode k).type ≠ T_DIR →
      s = v.files.setInode k { v.inode k with nlink := toShort ((v.inode k).nlink+1) } →
      (s.inode d).type = T_DIR → s.dirMap d (cut name) = none →
      Files.Entered sb s t d (Dirent.slot ⟨k%65536,strncpy DIRSIZ name⟩) →
      Few (sb.metas {d,k}) 2 l → (v.hold ⟨ip,k,.seen⟩).Wf →
      ((do iput ip; return 0) : Code ℤ).Wp (spec sb p E) ((v.after t l).hold ⟨ip,k,.seen⟩) Q) :
    (sysLink old new).Wp (spec sb p E) v Q := by
  have hu : v.Unlocked := .of_held h0
  have hsame : Q (-1) v := by
    have h := hfail v.files [] 0 0 hi (.refl _) .nil
    rwa [after_self] at h
  unfold sysLink
  split
  · rename_i path _ hpath _
    refine wp_bind (wp_namei ht hu (fun w _ _ _ => hE w) hcwd (fun _ => hsame)
      fun k ip m hwalk hm hw hk => ?_)
    have hws : (v.hold ⟨ip,k,.seen⟩).Wf := hw.hold_mode
    refine wp_ilock hu hm hk.1 (wp_act ⟨k,mem_hold,wp_ite (fun hdir => ?_) fun hdir => ?_⟩)
    · exact wp_putback hk hw.hold_mode hsame
    · have hdir' : (v.inode k).type ≠ T_DIR := hdir
      refine wp_addNlink mem_hold fun s hs himage => ?_
      have hs' : s = v.files.setInode k
        { v.inode k with nlink := toShort ((v.inode k).nlink+1) } := hs
      have hsk : s.inode k = { v.inode k with nlink := toShort ((v.inode k).nlink+1) } := by
        rw [hs']
        exact setInode_self ..
      have hib : ∀ d, Few (sb.metas {d,k}) 0 [sb.IBLOCK k] := fun d =>
        .of_mem (forall_mem_singleton.mpr (Logged.inode_mem (by simp)))
      refine wp_act ⟨k,mem_hold,?_⟩
      rw [hold_after,hold_move]
      have ht' : ((v.after s [sb.IBLOCK k]).hold ⟨ip,k,.seen⟩).Tree :=
        ht.change himage (hs' ▸ .setInode ..) (by rw [hsk]) hk.1 hdir'
      refine wp_bind (wp_nameiparent ht' (forall_mem_cons.mpr ⟨rfl,hu⟩) (fun w _ _ _ => hE w)
        hcwd (fun _ => ?_) fun d name dp m' hp hm' hdw hd => ?_)
      · refine wp_linkBad hws hu hk rfl (hfit k hk.1) (hs' ▸ .refl _) fun t htt hkt => ?_
        exact hfail t _ 0 k htt hkt (((hib 0).append (hib 0)).le (by omega))
      · refine wp_linkIn hs' himage ht' hu hk (hfit k hk.1) hE hws hdw hm' hd
          (parent_eq_some.mp hp).2.2 (fun t l' htt hkt hl' => ?_) fun t l' hnone hent hl' => ?_
        · exact hfail t _ d k htt hkt (((hib d).append hl').le (by omega))
        · exact hok path k d name ip s t _ hpath hwalk hk hdir' hs' (parent_eq_some.mp hp).2.2 hnone hent
            (((hib d).append hl').le (by omega)) hws
  · exact hsame

end Solo

/-- The tree, the files and the references are as before: the inodes in use are the same, with the
same fields and bytes, the directories the same maps. No inode is locked. -/
structure Restored (s t : State) : Prop where
  keeps : Files.Keeps ∅ s.view.files t.view.files
  file : t.file = s.file
  proc : t.proc = s.proc
  ref : ∀ i, (t.table.inode i).ref = (s.table.inode i).ref
  inum : ∀ i, 0 < (s.table.inode i).ref → (t.table.inode i).inum = (s.table.inode i).inum
  unlocked : ∀ i, (t.table.inode i).holder = none

lemma Restored.dirMap {s t : State} (h : Restored s t) {k : ℕ} (hk : (s.dinode k).type = T_DIR) :
    t.view.files.dirMap k = s.view.files.dirMap k :=
  h.keeps.dirMap (by simp) (type_dir hk)

lemma Restored.of_good {sb : DiskSb} {p : Fin NPROC} {s t : State} {f : Files}
    (h : Quiet sb p s) (hg : Good sb p (s.view.after f l) t)
    (hk : Files.Keeps ∅ s.view.files f) : Restored s t := by
  have hf : t.view.files = f := by
    show Files.mk t.dinode t.store = f
    rw [hg.inode,hg.store]
    rfl
  rw [← hf] at hk
  refine ⟨hk,hg.file,hg.proc,fun i => ?_,fun i hi => (hg.slot i).name (h.refs_ne.mpr hi),
    hg.unlocked fun _ hg => nomatch hg⟩
  rw [hg.ref_eq,h.good.ref_eq]
  rfl

section
variable {sb : DiskSb} {p : Fin NPROC} {s t : State}

/-- What a call has left that ends with a view on the files as before. -/
lemma Quiet.restored {α : Type} {x : Code α} {r : α} {v : View} {s₁ : State} (h : Quiet sb p s)
    (hg : Good sb p v s₁)
    (hx : x.Wp (Solo.spec sb p fun _ _ => True) v fun y w => y = r →
      ∃ f l, w = s.view.after f l ∧ Files.Keeps ∅ s.view.files f)
    (hr : x.run (eval sb p) s₁ = .ok (r,t)) : Restored s t := by
  rcases Solo.run hg hx with ⟨e,w,he,-⟩ | ⟨y,t',w,hy,hg',hw⟩
  · rw [hr] at he
    cases he
  · rw [hr] at hy
    cases hy
    obtain ⟨f,l,rfl,hk⟩ := hw rfl
    exact .of_good h hg' hk

end

/-- When `create` or `sys_link` fails, for whatever reason, everything is as before the call. -/
theorem failed_create_and_link (sb : DiskSb) (p : Fin NPROC) (s : State) (h : Quiet sb p s)
    (ht : s.view.Tree) (hfit : ∀ k, (s.dinode k).Fits) :
    (∀ path type major minor t, type ≠ 0 →
      (create sb path type major minor).run (eval sb p) s =
        .ok (none,t) → Restored s t) ∧
    ∀ old new t, (sysLink old new).run (eval sb p) s = .ok (-1,t) → Restored s t := by
  constructor
  · intro path type major minor t htype hr
    refine h.restored h.good (x := create sb path type major minor) ?_ hr
    refine Solo.wp_create h.good.image ht rfl (fun _ _ _ _ => trivial) h.cwd htype
      (fun f l _ _ _ hk _ _ => ⟨f,l,rfl,hk⟩) (fun _ _ _ _ _ _ _ _ _ _ ho => nomatch ho)
      fun d name dp _ hd k ip f l hmade _ _ => ?_
    exact Solo.wp_createDone hmade.image (mem_cons_of_mem _ mem_hold)
      (hmade.dir hd.1).2 fun _ _ _ _ _ ho => nomatch ho
  · intro old new t hr
    refine h.restored h.good (x := sysLink old new) ?_ hr
    refine Solo.wp_sysLink h.good.image ht rfl h.cwd (fun _ => trivial) (fun k _ => (hfit k).nlink)
      (fun f l _ _ _ hk _ _ => ⟨f,l,rfl,hk⟩) fun _ k d name ip f u l _ _ hk hdir hf _ _ hent _ _ => ?_
    have hfk : (f.inode k).type = (s.dinode k).type := by
      rw [hf,setInode_self]
      rfl
    refine Lib.Prog.wp_bind (Solo.wp_put (h := ⟨ip,k,.seen⟩) hent.image mem_hold rfl ?_
      (fun _ hr => nomatch hr) fun _ _ _ _ _ _ _ hr => nomatch hr)
    exact (hent.type k).trans_ne (hfk.trans_ne hk.1)

/-- The small image on a disk with no other block. -/
def fullSb : DiskSb := { smallDiskSb with size := 11, nblocks := 1 }

/-- `mkdir("/a")` has got an inode when it finds no block for the entries, and gives it back. -/
theorem failed_create_full : ∃ t,
    (create fullSb [47,97] T_DIR 0 0).run (eval fullSb proc0) (boot smallDisk smallStore).state =
      .ok (none,t) ∧ Restored (boot smallDisk smallStore).state t := by
  obtain ⟨t,ht,-⟩ := Lib.Prog.exists_of_run (eval fullSb proc0)
    (create fullSb [47,97] T_DIR 0 0) (boot smallDisk smallStore).state none (fun _ => True)
    (by decide +kernel)
  exact ⟨t,ht,(failed_create_and_link fullSb proc0 _
    (.boot (image_small rfl (by decide) (by decide))) small_tree small_fits).1 [47,97] T_DIR 0 0 t
    (by decide) ht⟩

end Xv6.Fs
