import Xv6.Fs.Link

/-! `sys_unlink`, run alone. -/
namespace Xv6.Fs
open List View Data Logged

open Lib (Few)
open Lib.Prog (wp_act wp_bind wp_ite wp_perform)

namespace Files

/-- Slot `m` of directory `k` has been erased. -/
structure Erased (sb : Superblock) (s t : Files) (k m : ℕ) : Prop where
  image : Image sb t.inode t.store
  keeps : Keeps {k} s t
  fields : t.inode k = { s.inode k with addrs := (t.inode k).addrs, size := (t.inode k).size }
  directory : (t.file k).Directory
  slots : (t.file k).slots = Lib.Slots.put (s.file k).slots m none

end Files

lemma View.sole_hold {v : View} {h : Held} (hw : (v.hold h).Wf) :
    (v.hold h).Sole h.slot ↔ ¬v.Shared h.inum := by
  constructor
  · rintro ⟨hnil,hone⟩ (⟨j,hj,hname⟩ | ⟨g,hg,hinum⟩)
    · exact hj ((hw.other h mem_hold j hj).mpr hname.symm ▸ hnil)
    · have hslot : g.slot = h.slot :=
        (hw.held g (mem_cons_of_mem _ hg) h mem_hold).mpr hinum
      have hpos : 0 < v.held.countP (·.slot = h.slot) :=
        countP_pos_iff.mpr ⟨g,hg,decide_eq_true hslot⟩
      rw [hold,countP_cons,if_pos (decide_eq_true rfl)] at hone
      omega
  · intro hs
    refine ⟨by_contra fun hne => hs (.inl ⟨h.slot,hne,?_⟩),?_⟩
    · exact ((hw.other h mem_hold h.slot hne).mp rfl).symm
    · rw [hold,countP_cons,if_pos (decide_eq_true rfl),countP_eq_zero.mpr]
      intro g hg hslot
      refine hs (.inr ⟨g,hg,?_⟩)
      exact (hw.held g (mem_cons_of_mem _ hg) h mem_hold).mp (of_decide_eq_true hslot)

namespace Solo
variable {sb : DiskSb} {p : Fin NPROC} {E : View → Stop → Prop} {v : View} {dp ip : Slot}
variable {d k m : ℕ} {α : Type}

lemma wp_erase {c : Unit → Code α} {Q : α → View → Prop} {key : List UInt8} {inum : ℕ}
    (hi : Image sb v.inode v.store) (hm : ⟨dp,d,.locked⟩ ∈ v.held)
    (hty : (v.inode d).type ≠ 0) (hd : (v.data d).Directory)
    (hslot : (v.data d).slots[m]? = some (some (key,inum)))
    (h : ∀ s l, Files.Erased sb v.files s d m → Costs sb d 2 l →
      (c ()).Wp (spec sb p E) (v.after s l) Q) :
    (perform (.erase dp (m*DIRENT)) >>= c).Wp (spec sb p E) v Q := by
  obtain ⟨y,hw,-,hg,hdir,hslots,-⟩ :=
    erase_map (x := v.data d) ⟨hi.own,rfl,hty⟩ hd hslot
  have hres : (Logged.writeData sb d (sb.logged.writeEntry (v.data d) .zero (m*DIRENT))).result =
      .ok ((DIRENT : ℤ),y) := by
    rw [writeData_result]
    exact (writei_result ..).trans hw
  have hfile : (v.files.iupdate d y).file d = y := Files.iupdate_file v.files d y
  have hinode : (v.files.iupdate d y).inode d = y.d := congrArg Data.d hfile
  refine wp_act ⟨d,hm,?_⟩
  unfold Wrote
  rw [hres]
  intro himage
  rw [if_pos rfl,write_eq]
  refine h _ _ ⟨himage,.grow hi hty hg,?_,?_,?_⟩ fun ks hks =>
    writeData_few hks (writeEntry_few ..)
  · rw [hinode]
    exact hg.d_eq
  · rw [hfile]
    exact hdir
  · rw [hfile]
    exact hslots

variable {Q : ℤ → View → Prop}

/-- The end of `sys_unlink`: the inode has one link less, and is freed if no one uses it. -/
lemma wp_unlinkNode {u : Files} {l : List ℕ}
    (hw : (v.hold ⟨ip,k,.locked⟩).Wf) (hty : (u.inode k).type ≠ 0)
    (h : ∀ t l', Image sb t.inode t.store → Files.Keeps {k} u t → Costs sb k 0 l' →
      (toShort ((u.inode k).nlink+ -1) = 0 ∧ ¬v.Shared k → (t.inode k).type = 0) →
      (¬(toShort ((u.inode k).nlink+ -1) = 0 ∧ ¬v.Shared k) →
        t = u.setInode k { u.inode k with nlink := toShort ((u.inode k).nlink+ -1) }) →
      Q 0 (v.after t (l++l'))) :
    (do
      perform (.addNlink ip (-1))
      iunlockput ip
      return 0 : Code ℤ).Wp (spec sb p E) ((v.after u l).hold ⟨ip,k,.locked⟩) Q := by
  refine wp_addNlink mem_hold fun t ht himage => ?_
  simp only [hold_after,after_after]
  have htk : t.inode k = { u.inode k with nlink := toShort ((u.inode k).nlink+ -1) } := by
    rw [ht]
    exact Files.setInode_self ..
  have hkeep : Files.Keeps {k} u t := ht ▸ Files.Keeps.setInode u k _
  have hib : Costs sb k 0 [sb.IBLOCK k] := fun ks hks =>
    .of_mem (forall_mem_singleton.mpr (inode_mem hks))
  have hlast : ((v.after t (l++[sb.IBLOCK k])).hold ⟨ip,k,.locked⟩).Last ⟨ip,k,.locked⟩ ↔
      toShort ((u.inode k).nlink+ -1) = 0 ∧ ¬v.Shared k := by
    refine and_comm.trans (and_congr ?_ (sole_hold (hw.of_eq rfl rfl rfl)))
    show (t.inode k).nlink = 0 ↔ _
    rw [htk]
  refine wp_bind (wp_iunlockput himage mem_hold (htk ▸ hty : (t.inode k).type ≠ 0)
    (fun hl => ?_) fun hl s l' hs hks hsk hl' => ?_)
  · rw [hold_drop]
    exact h t _ himage hkeep hib (fun ha => absurd (hlast.mpr ha) hl) fun _ => ht
  · simp only [hold_after,after_after,hold_drop]
    rw [append_assoc]
    refine h s _ hs (hkeep.trans hks) (fun ks hks => (hib ks hks).append (hl' ks hks)) (fun _ => ?_)
      fun ha => absurd (hlast.mp hl) ha
    rw [hsk]
    rfl

/-- The directory of the entry is not freed with it: only the entry of a directory costs it a link. -/
def Stays (v : View) (d k : ℕ) : Prop :=
  (v.inode k).type = T_DIR → toShort ((v.inode d).nlink+ -1) ≠ 0 ∨ v.Shared d

/-- What `sys_unlink` leaves of the files: slot `m` of directory `d`, which named `k`, is free. -/
structure Unlinked (sb : Superblock) (v : View) (t : Files) (d k m : ℕ) : Prop where
  image : Image sb t.inode t.store
  keeps : Files.Keeps {d,k} v.files t
  dir : t.inode d = { v.inode d with
    nlink := if (v.inode k).type = T_DIR then toShort ((v.inode d).nlink+ -1) else (v.inode d).nlink
    addrs := (t.inode d).addrs
    size := (t.inode d).size }
  directory : (t.file d).Directory
  slots : (t.file d).slots = Lib.Slots.put (v.files.file d).slots m none
  freed : toShort ((v.inode k).nlink+ -1) = 0 ∧ ¬v.Shared k → (t.inode k).type = 0
  kept : ¬(toShort ((v.inode k).nlink+ -1) = 0 ∧ ¬v.Shared k) →
    t.inode k = { v.inode k with
      nlink := toShort ((v.inode k).nlink+ -1), addrs := (t.inode k).addrs } ∧
    t.content k = v.files.content k

/-- `sys_unlink` once it has found that the entry may go. -/
def unlinkEntry (dp ip : Slot) (off : ℕ) (d : Dinode) : Code ℤ := do
  perform (.erase dp off)
  if d.type = T_DIR then perform (.addNlink dp (-1))
  iunlockput dp
  perform (.addNlink ip (-1))
  iunlockput ip
  return 0

/-- The part after the directory is put, for any files `u` that this has left. -/
lemma wp_unlinkRest {u : Files} {l : List ℕ} (hk : v.Kept k) (hne : d ≠ k)
    (hw : (v.hold ⟨ip,k,.locked⟩).Wf) (hkeep : Files.Keeps {d} v.files u)
    (hl : Few (sb.metas {d,k}) 2 l) (hd0 : (v.inode d).type ≠ 0)
    (hu : Stays v d k → u.inode d = { v.inode d with
        nlink := if (v.inode k).type = T_DIR then toShort ((v.inode d).nlink+ -1)
          else (v.inode d).nlink
        addrs := (u.inode d).addrs
        size := (u.inode d).size } ∧
      (u.file d).Directory ∧ (u.file d).slots = Lib.Slots.put (v.files.file d).slots m none)
    (h : ∀ t l, Image sb t.inode t.store → Few (sb.metas {d,k}) 2 l →
      (Stays v d k → Unlinked sb v t d k m) → Q 0 (v.after t l)) :
    (do
      perform (.addNlink ip (-1))
      iunlockput ip
      return 0 : Code ℤ).Wp (spec sb p E) ((v.after u l).hold ⟨ip,k,.locked⟩) Q := by
  have huk := hkeep.fields k hne.symm hk.1
  have hnl : (u.inode k).nlink = (v.inode k).nlink := hkeep.nlink hne.symm hk.1
  refine wp_unlinkNode hw (hkeep.used hne.symm hk.1) fun t l' ht hkt hl' hfree hkept => ?_
  rw [hnl] at hfree hkept
  refine h t _ ht ((hl.append (hl' _ (by simp))).le (by omega)) fun hs => ?_
  obtain ⟨hud,hdir,hslots⟩ := hu hs
  have hud0 : (u.inode d).type ≠ 0 := by
    rw [hud]
    exact hd0
  refine ⟨ht,(hkeep.mono (by simp)).trans (hkt.mono (by simp)),?_,hkt.directory ht hne hud0 hdir,?_,
    hfree,fun ha => ?_⟩
  · rw [hkt.fields d hne hud0,hud]
  · rw [hkt.slots hne hud0,hslots]
  · have htu := hkept ha
    have htk : t.inode k = { u.inode k with nlink := toShort ((v.inode k).nlink+ -1) } := by
      rw [htu]
      exact Files.setInode_self ..
    constructor
    · rw [htk,huk]
      rfl
    · rw [← hkeep.content k hne.symm hk.1,htu]
      exact Files.content_setInode rfl rfl

lemma wp_unlinkEntry {key : List UInt8}
    (hi : Image sb v.inode v.store) (hkd : v.Kept d) (hk : v.Kept k) (hne : d ≠ k)
    (hw : ((v.hold ⟨dp,d,.locked⟩).hold ⟨ip,k,.locked⟩).Wf) (hd : (v.data d).Directory)
    (hslot : (v.data d).slots[m]? = some (some (key,k)))
    (h : ∀ t l, Image sb t.inode t.store → Few (sb.metas {d,k}) 2 l →
      (Stays v d k → Unlinked sb v t d k m) → Q 0 (v.after t l)) :
    (unlinkEntry dp ip (m*DIRENT) (v.inode k)).Wp (spec sb p E)
      ((v.hold ⟨dp,d,.locked⟩).hold ⟨ip,k,.locked⟩) Q := by
  have hib : Few (sb.metas {d,k}) 0 [sb.IBLOCK d] :=
    .of_mem (forall_mem_singleton.mpr (inode_mem (by simp)))
  -- the directory is put with files u, in which it may have one link less
  have hput : ∀ u l, Image sb u.inode u.store → Files.Keeps {d} v.files u →
      Few (sb.metas {d,k}) 2 l → u.inode d = { v.inode d with
        nlink := if (v.inode k).type = T_DIR then toShort ((v.inode d).nlink+ -1)
          else (v.inode d).nlink
        addrs := (u.inode d).addrs
        size := (u.inode d).size } →
      (u.file d).Directory → (u.file d).slots = Lib.Slots.put (v.files.file d).slots m none →
      (do
        iunlockput dp
        perform (.addNlink ip (-1))
        iunlockput ip
        return 0 : Code ℤ).Wp (spec sb p E)
        (((v.after u l).hold ⟨dp,d,.locked⟩).hold ⟨ip,k,.locked⟩) Q := by
    intro u l hu hkeep hl hud hdir hslots
    have hud0 : (u.inode d).type ≠ 0 := by
      rw [hud]
      exact hkd.1
    have hstays : Stays v d k → (v.after u l).Kept d := by
      intro hs
      refine ⟨hud0,?_⟩
      show (u.inode d).nlink ≠ 0 ∨ v.Shared d
      rw [hud]
      by_cases hT : (v.inode k).type = T_DIR
      · rw [if_pos hT]
        exact hs hT
      · rw [if_neg hT]
        exact hkd.2
    have hwu : (((v.after u l).hold ⟨dp,d,.locked⟩).hold ⟨ip,k,.locked⟩).Wf := hw.of_eq rfl rfl rfl
    have hdrop : ∀ w : View, ((w.hold ⟨dp,d,.locked⟩).hold ⟨ip,k,.locked⟩).drop ⟨dp,d,.locked⟩ =
        w.hold ⟨ip,k,.locked⟩ := fun w =>
      hold_hold_drop fun he => hne (congrArg Held.inum he).symm
    refine wp_bind (wp_iunlockput hu (mem_cons_of_mem _ mem_hold) hud0 (fun _ => ?_)
      fun hlast u' l' hu' hku' hud' hl' => ?_)
    · rw [hdrop]
      exact wp_unlinkRest hk hne hw.swap.tail hkeep hl hkd.1 (fun _ => ⟨hud,hdir,hslots⟩) h
    · simp only [hold_after,after_after]
      rw [hdrop]
      refine wp_unlinkRest hk hne hw.swap.tail (hkeep.trans hku')
        ((hl.append (hl' _ (by simp))).le (by omega)) hkd.1 (fun hs => ?_) h
      exact absurd hlast ((hstays hs).not_last_below hwu)
  refine wp_erase hi (mem_cons_of_mem _ mem_hold) hkd.1 hd hslot fun s l hs hl => ?_
  have hsd : s.inode d = { v.inode d with
      addrs := (s.inode d).addrs, size := (s.inode d).size } := hs.fields
  simp only [hold_after]
  refine wp_ite (fun hT => ?_) fun hT => ?_
  · refine wp_addNlink (mem_cons_of_mem _ mem_hold) fun u hu himage => ?_
    have hud : u.inode d = { s.inode d with nlink := toShort ((s.inode d).nlink+ -1) } := by
      rw [hu]
      exact Files.setInode_self ..
    have hcont : u.content d = s.content d := by
      rw [hu]
      exact Files.content_setInode rfl rfl
    simp only [hold_after,after_after]
    have hud0 : (u.inode d).type ≠ 0 := by
      rw [hud,hsd]
      exact hkd.1
    refine hput u _ himage (hs.keeps.trans (hu ▸ Files.Keeps.setInode s d _))
      (((hl _ (by simp)).append hib).le (by omega)) ?_ ?_ ?_
    · rw [if_pos hT,hud,hsd]
    · exact hs.directory.congr (himage.full d hud0) hcont
    · rw [slots,ents_congr hcont]
      exact hs.slots
  · refine hput s l hs.image hs.keeps (hl _ (by simp)) ?_ hs.directory hs.slots
    rw [if_neg hT]
    exact hsd

/-- `ip->type == T_DIR && !isdirempty(ip)`. -/
lemma wp_isBusy {c : Bool → Code α} {Q : α → View → Prop}
    (hi : Image sb v.inode v.store) (hm : ⟨ip,k,.locked⟩ ∈ v.held)
    (hk : (v.inode k).type ≠ 0) (hE : E v (.panic "isdirempty: readi"))
    (hbusy : (c true).Wp (spec sb p E) v Q)
    (hempty : ((v.inode k).type = T_DIR → (v.data k).Aligned → 2 ≤ (v.data k).slots.length →
      ∀ o ∈ (v.data k).slots.drop 2, o = none) → (c false).Wp (spec sb p E) v Q) :
    (isBusy ip (v.inode k) >>= c).Wp (spec sb p E) v Q := by
  have hf : (v.data k).Full := hi.full k hk
  unfold isBusy
  refine wp_bind (wp_ite (fun hT => ?_) fun hT => ?_)
  · refine wp_act ⟨k,hm,?_⟩
    rcases entryLoop_or sb hf "isdirempty: readi"
      (fun e _ => if e.inum ≠ 0 then some false else none) (fun _ => true)
      ((v.data k).rounds (2*DIRENT)) (2*DIRENT) with ⟨b,hb⟩ | hb
    · rw [Blocks.isdirempty,hb]
      cases b with
      | false => exact hbusy
      | true =>
        refine hempty fun _ ha hlen o ho => ?_
        rw [slots,length_map] at hlen
        obtain ⟨b,hb',hiff⟩ := isdirempty_spec sb hf ha hlen
        cases hb'.symm.trans hb
        rw [slots,← map_drop] at ho
        obtain ⟨e,he,rfl⟩ := mem_map.mp ho
        exact Dirent.slot_eq_none.mpr (hiff.mp rfl e he)
    · rw [Blocks.isdirempty,hb]
      exact hE
  · exact hempty fun h => absurd h hT

lemma wp_sysUnlink {path : List UInt8}
    (hi : Image sb v.inode v.store) (ht : v.Tree) (h0 : v.held = [])
    (hcwd : v.HasCwd p) (hE : ∀ w e, e ≠ .panic "unlink: nlink < 1" → E w e)
    (hpanic : ∀ w d key k, (v.inode d).type = T_DIR → v.files.dirMap d key = some k →
      (v.inode k).nlink < 1 → E w (.panic "unlink: nlink < 1")) (hfail : Q (-1) v)
    (hok : ∀ path' d name k m t l, argstr path = some path' →
      v.files.parent (v.start p path') (comps path') = some (d,name) →
      (v.inode d).type = T_DIR → cut name ≠ dot → cut name ≠ dotdot →
      (v.files.file d).slots[m]? = some (some (cut name,k)) → d ≠ k →
      ((v.inode k).type = T_DIR → 2 ≤ (v.data k).slots.length →
        ∀ o ∈ (v.data k).slots.drop 2, o = none) →
      Image sb t.inode t.store → Few (sb.metas {d,k}) 2 l →
      (Stays v d k → Unlinked sb v t d k m) → Q 0 (v.after t l)) :
    (sysUnlink path).Wp (spec sb p E) v Q := by
  have hu : v.Unlocked := .of_held h0
  unfold sysUnlink
  split
  · exact hfail
  rename_i path' hpath
  refine wp_bind (wp_nameiparent ht hu (fun w _ _ _ => hE w _ (by decide)) hcwd (fun _ => hfail)
    fun d name dp m hp hm hw hkd => ?_)
  have hdir : (v.inode d).type = T_DIR := (Files.parent_eq_some.mp hp).2.2
  have hret : ((do iunlockput dp; return -1) : Code ℤ).Wp (spec sb p E)
      (v.hold ⟨dp,d,.locked⟩) Q := wp_putback hkd hw.hold_mode hfail
  refine wp_ilock hu hm hkd.1 ?_
  refine wp_ite (fun _ => hret) fun hname => ?_
  rw [not_or,namecmp_eq_zero,namecmp_eq_zero] at hname
  refine wp_dirlookup mem_hold hdir (ht.dirs d hdir) (fun _ => hret)
    fun k n hthere hslot => ⟨fun _ => hE _ _ (by decide),fun ip hip => ?_⟩
  rw [get_eq] at hip ⊢
  have hk : v.Kept k := ht.named d _ k hdir hthere
  refine wp_act ⟨k,.fresh,mem_hold,rfl,hk.1,?_⟩
  -- a directory that names itself would be locked twice
  by_cases hdk : d = k
  · rw [if_pos]
    · exact hE _ _ (by decide)
    · refine ⟨⟨dp,d,.locked⟩,mem_cons_of_mem _ mem_hold,?_,rfl⟩
      exact (hip.held ⟨dp,d,.locked⟩ (mem_cons_of_mem _ mem_hold) ⟨ip,k,.fresh⟩
        mem_hold).mpr hdk
  rw [if_neg ?locks,hold_move]
  case locks =>
    rintro ⟨g,hg,hgs,hl⟩
    simp only [hold,h0,mem_cons,not_mem_nil,or_false] at hg
    rcases hg with rfl | rfl
    · cases hl
    · exact hdk ((hip.held ⟨dp,d,.locked⟩ (mem_cons_of_mem _ mem_hold) ⟨ip,k,.fresh⟩
        mem_hold).mp hgs)
  have hw2 : ((v.hold ⟨dp,d,.locked⟩).hold ⟨ip,k,.locked⟩).Wf := hip.hold_mode
  refine wp_act ⟨k,mem_hold,?_⟩
  have hrest : (do
      if ← isBusy ip (v.inode k) then
        iunlockput ip
        iunlockput dp
        return -1
      unlinkEntry dp ip (n*DIRENT) (v.inode k) : Code ℤ).Wp (spec sb p E)
      ((v.hold ⟨dp,d,.locked⟩).hold ⟨ip,k,.locked⟩) Q := by
    refine wp_isBusy (v := (v.hold ⟨dp,d,.locked⟩).hold ⟨ip,k,.locked⟩) hi mem_hold hk.1
      (hE _ _ (by decide)) ?_ fun hempty => ?_
    · exact wp_putback (View.Kept.hold hk) hw2 hret
    · refine wp_unlinkEntry hi hkd hk hdk hw2 (ht.dirs d hdir) hslot fun t l himage hl hun => ?_
      refine hok path' d name k n t l hpath hp hdir hname.1 hname.2 hslot hdk (fun hT => ?_) himage hl hun
      exact hempty hT (ht.dirs k hT).aligned
  refine wp_ite (fun hn => ?_) fun hn => ?_
  · exact wp_act (hpanic _ d _ k hdir hthere hn)
  · exact hrest

end Solo
end Xv6.Fs
