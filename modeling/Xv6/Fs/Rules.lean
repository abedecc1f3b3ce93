import Xv6.Fs.SoloActions

/-! Rules for the parts that the system calls are made of, run alone: `iput`, `iunlockput`, `ilock`
and the lookup in a directory. -/
namespace Xv6.Fs
open List Logged

open Lib.Prog (wp_act wp_bind)

/-- The file system between the calls of other processes, when `p` begins one: no reference is at
work with its inode, and one is for the current directory of `p`. -/
structure Quiet (sb : DiskSb) (p : Fin NPROC) (s : State) : Prop where
  base : Base sb s
  idle : ∀ i, ∀ r ∈ (s.table.inode i).refs, r.2 = .idle
  scans : s.table.scans = []
  cwd : ∃ i, (s.proc p).cwd = some i ∧ (p.val,.idle) ∈ (s.table.inode i).refs

/-- The view of a process that begins a call. -/
def State.view (s : State) : View where
  inode := s.dinode
  store := s.store
  held := []
  others i := (s.table.inode i).refs
  name i := (s.table.inode i).inum
  scans := s.table.scans
  file := s.file
  proc := s.proc
  log := []

section
variable {sb : DiskSb} {p : Fin NPROC} {s : State} {v : View} {E : View → Stop → Prop}

lemma Quiet.good (h : Quiet sb p s) : Good sb p s.view s where
  base := h.base
  inode := rfl
  store := rfl
  scans := rfl
  file := rfl
  proc := rfl
  slot i := ⟨.refl _,by simp [State.view,mine],fun _ => rfl,by simp [State.view,mine]⟩
  idle := h.idle

lemma Quiet.refs_ne (h : Quiet sb p s) {i : Slot} :
    (s.table.inode i).refs ≠ [] ↔ 0 < (s.table.inode i).ref := by
  rw [(h.base.sync i).ref_eq,length_pos_iff]

lemma Good.ref_eq (h : Good sb p v s) (i : Slot) :
    (s.table.inode i).ref = (mine v.held i).length+(v.others i).length := by
  rw [(h.base.sync i).ref_eq,(h.slot i).refs.length_eq,length_append,length_map]

lemma Solo.run {α : Type} {x : Code α} {Q : α → View → Prop} (hg : Good sb p v s)
    (hx : x.Wp (spec sb p E) v Q) :
    (∃ e w, x.run (eval sb p) s = .error e ∧ E w e) ∨
      ∃ r t w, x.run (eval sb p) s = .ok (r,t) ∧ Good sb p w t ∧ Q r w := by
  have hres : (x.traced (evalLogged sb p) s).result = x.run (eval sb p) s :=
    Lib.Prog.traced_result ..
  rcases Solo.ends hg hx with ⟨e,w,he,hw,-⟩ | ⟨r,t,w,hr,ht,hw,-⟩
  · exact .inl ⟨e,w,hres ▸ he,hw⟩
  · exact .inr ⟨r,t,w,hres ▸ hr,ht,hw⟩

end

namespace View
variable {v w : View} {g h : Held} {k : ℕ} {m : Mode}

/-- The view with one more reference of the call. -/
def hold (v : View) (h : Held) : View := { v with held := h::v.held }

lemma get_eq {i : Slot} : v.get i k = v.hold ⟨i,k,.fresh⟩ := rfl

@[simp] lemma hold_drop : (v.hold h).drop h = v := by
  rw [drop,hold,erase_cons_head]

@[simp] lemma hold_move : (v.hold h).move h m = v.hold ⟨h.slot,h.inum,m⟩ := by
  rw [move,hold,erase_cons_head]
  rfl

lemma hold_hold_drop (hne : g ≠ h) : ((v.hold h).hold g).drop h = v.hold g := by
  rw [drop,hold,hold,erase_cons_tail (by simpa using hne),erase_cons_head]
  rfl

lemma move_drop : (v.move h m).drop ⟨h.slot,h.inum,m⟩ = v.drop h := by
  rw [move,drop,erase_cons_head]
  rfl

lemma mem_hold : h ∈ (v.hold h).held := mem_cons_self

lemma Wf.congr (hv : v.Wf)
    (hmem : ∀ g ∈ w.held, ∃ h ∈ v.held, h.slot = g.slot ∧ h.inum = g.inum)
    (ho : w.others = v.others) (hn : w.name = v.name) : w.Wf where
  held g hg h hh := by
    obtain ⟨g',hg',hgs,hgi⟩ := hmem g hg
    obtain ⟨h',hh',hhs,hhi⟩ := hmem h hh
    rw [← hgs,← hgi,← hhs,← hhi]
    exact hv.held g' hg' h' hh'
  other h hh i hi := by
    obtain ⟨h',hh',hhs,hhi⟩ := hmem h hh
    rw [ho] at hi
    rw [← hhs,← hhi,hn]
    exact hv.other h' hh' i hi
  name i j hi hj he := by
    rw [ho] at hi hj
    rw [hn] at he
    exact hv.name i j hi hj he

lemma Wf.of_eq (hv : v.Wf) (hh : w.held = v.held) (ho : w.others = v.others)
    (hn : w.name = v.name) : w.Wf :=
  hv.congr (fun g hg => ⟨g,hh ▸ hg,rfl,rfl⟩) ho hn

lemma Wf.hold_mode {i : Slot} {m' : Mode} (hv : (v.hold ⟨i,k,m⟩).Wf) : (v.hold ⟨i,k,m'⟩).Wf := by
  refine hv.congr (forall_mem_cons.mpr ⟨⟨_,mem_hold,rfl,rfl⟩,fun g hg => ?_⟩) rfl rfl
  exact ⟨g,mem_cons_of_mem _ hg,rfl,rfl⟩

lemma Wf.swap (hv : ((v.hold g).hold h).Wf) : ((v.hold h).hold g).Wf :=
  hv.congr (fun a ha => ⟨a,(List.Perm.swap h g _).mem_iff.mp ha,rfl,rfl⟩) rfl rfl

lemma Wf.tail (hv : (v.hold h).Wf) : v.Wf :=
  hv.congr (fun g hg => ⟨g,mem_cons_of_mem _ hg,rfl,rfl⟩) rfl rfl

/-- Others refer to the inode, or the call does. -/
def Shared (v : View) (k : ℕ) : Prop :=
  (∃ j, v.others j ≠ [] ∧ v.name j = k) ∨ ∃ g ∈ v.held, g.inum = k

/-- An inode that is in use and does not go away when the call gets one more reference to it and
puts it: it has a link, or there are other references. -/
def Kept (v : View) (k : ℕ) : Prop :=
  (v.inode k).type ≠ 0 ∧ ((v.inode k).nlink ≠ 0 ∨ v.Shared k)

/-- `iput` would free the inode. -/
def Last (v : View) (h : Held) : Prop := v.Sole h.slot ∧ (v.inode h.inum).nlink = 0

lemma Kept.hold (hk : v.Kept k) : (v.hold h).Kept k :=
  hk.imp_right (Or.imp_right (Or.imp_right fun ⟨g,hg,hk⟩ => ⟨g,mem_cons_of_mem _ hg,hk⟩))

/-- The reference to `h` is one more than those of `v`. -/
lemma Kept.not_last_of (hk : v.Kept h.inum) (hw : w.Wf) (hs : (h::v.held).Subperm w.held)
    (ho : w.others = v.others) (hn : w.name = v.name) (hi : w.inode = v.inode) : ¬w.Last h := by
  rintro ⟨⟨hnil,hone⟩,h0⟩
  have hm : h ∈ w.held := hs.subset mem_cons_self
  rw [hi] at h0
  rcases hk.2 with hl | ⟨j,hj,hname⟩ | ⟨g,hg,hinum⟩
  · exact hl h0
  · rw [← ho] at hj
    rw [← hn] at hname
    exact hj ((hw.other h hm j hj).mpr hname.symm ▸ hnil)
  · have hslot : g.slot = h.slot :=
      (hw.held g (hs.subset (mem_cons_of_mem _ hg)) h hm).mpr hinum
    have hle := hs.countP_le (fun g => decide (g.slot = h.slot))
    have hpos : 0 < v.held.countP (·.slot = h.slot) :=
      countP_pos_iff.mpr ⟨g,hg,decide_eq_true hslot⟩
    rw [countP_cons,if_pos (decide_eq_true rfl)] at hle
    omega

lemma Kept.not_last (hk : v.Kept h.inum) (hw : (v.hold h).Wf) : ¬(v.hold h).Last h :=
  hk.not_last_of hw (List.Subperm.refl _) rfl rfl rfl

lemma Kept.not_last_below (hk : v.Kept h.inum) (hw : ((v.hold h).hold g).Wf) :
    ¬((v.hold h).hold g).Last h :=
  hk.not_last_of hw (sublist_cons_self ..).subperm rfl rfl rfl

lemma sole_move (hm : h ∈ v.held) {i : Slot} : (v.move h m).Sole i ↔ v.Sole i := by
  have hcount : (v.move h m).held.countP (·.slot = i) = v.held.countP (·.slot = i) := by
    rw [(perm_cons_erase hm).countP_eq,move,countP_cons,countP_cons]
  rw [Sole,Sole,hcount]
  rfl

/-- No reference of the call is locked. -/
def Unlocked (v : View) : Prop := ∀ h ∈ v.held, h.mode.stage.locks = false

lemma Unlocked.of_held (hv : v.held = []) : v.Unlocked := by
  intro g hg
  rw [hv] at hg
  cases hg

lemma Unlocked.not_locks (hv : v.Unlocked) (hi : h.mode.stage = .idle) {i : Slot} :
    ¬(v.hold h).Locks i := by
  rintro ⟨g,hg,-,hl⟩
  rcases mem_cons.mp hg with rfl | hg
  · rw [hi] at hl
    cases hl
  · rw [hv g hg] at hl
    cases hl

end View

lemma Good.unlocked {sb : DiskSb} {p : Fin NPROC} {v : View} {s : State} (h : Good sb p v s)
    (hu : v.Unlocked) (i : Slot) : (s.table.inode i).holder = none := by
  refine h.holder.mpr ?_
  rintro ⟨g,hg,-,hl⟩
  rw [hu g hg] at hl
  cases hl

namespace Solo
variable {sb : DiskSb} {p : Fin NPROC} {E : View → Stop → Prop} {v : View} {h : Held} {i : Slot}
variable {k : ℕ} {α : Type} {Q : Unit → View → Prop}

/-- `ilock` of an inode to which the call has got a reference. -/
lemma wp_ilock {m : Mode} {c : Unit → Code α} {Q : α → View → Prop} (hu : v.Unlocked)
    (hm : m.stage = .idle) (hty : (v.inode k).type ≠ 0)
    (hc : (c ()).Wp (spec sb p E) (v.hold ⟨i,k,.locked⟩) Q) :
    (perform (.ilock i) >>= c).Wp (spec sb p E) (v.hold ⟨i,k,m⟩) Q := by
  refine wp_act ⟨k,m,View.mem_hold,hm,hty,?_⟩
  rwa [if_neg (hu.not_locks hm),View.hold_move]

/-- `iput` of a reference that is not the last one to an unlinked inode. -/
lemma wp_iput_keep (hm : h ∈ v.held) (hi : h.mode.stage = .idle)
    (hk : ¬v.Last h) (hQ : Q () (v.drop h)) : (iput h.slot).Wp (spec sb p E) v Q := by
  refine wp_act ⟨h.inum,h.mode,hm,hi,?_⟩
  unfold View.Last at hk
  rw [if_neg hk]
  exact hQ

/-- `iput` in general: the inode is freed if the reference is the last one to an unlinked inode that
the call has seen. -/
lemma wp_iput (hm : h ∈ v.held) (hi : h.mode.stage = .idle)
    (hkeep : ¬v.Last h ∨ h.mode = .fresh → Q () (v.drop h))
    (hfree : v.Last h → ∀ y, (v.data h.inum).itrunc = .ok y →
      Image sb (Function.update v.inode h.inum (v.inode h.inum).freed) y.st →
      Q () ((v.write h.inum ⟨(v.inode h.inum).freed,y.st⟩
        (Logged.release sb h.inum (v.data h.inum)).trace).drop h))
    (hE : ∀ m, (v.data h.inum).itrunc ≠ .error m) : (iput h.slot).Wp (spec sb p E) v Q := by
  refine wp_act ⟨h.inum,h.mode,hm,hi,?_⟩
  split
  · rename_i hl
    refine ⟨?_,fun hf => hkeep (.inr hf)⟩
    cases hx : (v.data h.inum).itrunc with
    | error m => exact absurd hx (hE m)
    | ok y =>
      have hres : (do return ((),← release sb h.inum (v.data h.inum)) :
          Logged (Unit×Data Store)).result = .ok ((),⟨(v.inode h.inum).freed,y.st⟩) := by
        rw [Lib.Traced.bind_result,release_result hx]
        rfl
      have htrace : (do return ((),← release sb h.inum (v.data h.inum)) :
          Logged (Unit×Data Store)).trace = (release sb h.inum (v.data h.inum)).trace := by
        rw [Lib.Traced.bind_of_ok (release_result hx)]
        exact append_nil _
      refine wp_act ⟨h.inum,mem_cons_self,(View.sole_move hm).mpr hl.1,?_⟩
      have hdata : (v.move h .freeing).data h.inum = v.data h.inum := rfl
      rw [hdata]
      unfold Wrote
      rw [hres,htrace]
      intro himage
      refine Lib.Prog.wp_perform ⟨h.inum,mem_cons_self,?_⟩
      have hQ := hfree hl y hx himage
      have hheld : (((v.move h .freeing).write h.inum ⟨(v.inode h.inum).freed,y.st⟩
          (release sb h.inum (v.data h.inum)).trace).move ⟨h.slot,h.inum,.freeing⟩
            .dropping).drop ⟨h.slot,h.inum,.dropping⟩ = (v.write h.inum ⟨(v.inode h.inum).freed,y.st⟩
          (release sb h.inum (v.data h.inum)).trace).drop h := by
        simp only [View.move,View.drop,View.write,erase_cons_head]
      rw [hheld]
      exact hQ
  · rename_i hl
    exact hkeep (.inl hl)

lemma wp_iunlockput_keep (hm : ⟨i,k,.locked⟩ ∈ v.held)
    (hk : ¬v.Last ⟨i,k,.locked⟩) (hQ : Q () (v.drop ⟨i,k,.locked⟩)) :
    (iunlockput i).Wp (spec sb p E) v Q := by
  refine wp_act ⟨k,hm,?_⟩
  refine wp_iput_keep (h := ⟨i,k,.seen⟩) mem_cons_self rfl ?_ ?_
  · exact fun hl => hk ⟨(View.sole_move hm).mp hl.1,hl.2⟩
  · rw [View.move_drop (h := ⟨i,k,.locked⟩)]
    exact hQ

section
variable {c : Unit → Code α} {Q : α → View → Prop} (hk : v.Kept k)
include hk

/-- `iunlockput` of a reference to an inode that stays. -/
lemma wp_putback (hw : (v.hold ⟨i,k,.locked⟩).Wf) (hc : (c ()).Wp (spec sb p E) v Q) :
    (iunlockput i >>= c).Wp (spec sb p E) (v.hold ⟨i,k,.locked⟩) Q := by
  refine wp_bind (wp_iunlockput_keep View.mem_hold (View.Kept.not_last hk hw) ?_)
  rwa [View.hold_drop]

lemma wp_putback_below (hw : ((v.hold ⟨i,k,.locked⟩).hold h).Wf) (hne : h ≠ ⟨i,k,.locked⟩)
    (hc : (c ()).Wp (spec sb p E) (v.hold h) Q) :
    (iunlockput i >>= c).Wp (spec sb p E) ((v.hold ⟨i,k,.locked⟩).hold h) Q := by
  refine wp_bind (wp_iunlockput_keep (mem_cons_of_mem _ View.mem_hold)
    (View.Kept.not_last_below hk hw) ?_)
  rwa [View.hold_hold_drop hne]

end

lemma wp_dirlookup {name : List UInt8} {f : Option (Slot×ℕ) → Code α} {Q : α → View → Prop}
    (hm : ⟨i,k,.locked⟩ ∈ v.held) (hdir : (v.inode k).type = T_DIR) (hd : (v.data k).Directory)
    (hnone : (v.data k).dirMap (cut name) = none → (f none).Wp (spec sb p E) v Q)
    (hsome : ∀ inum m, (v.data k).dirMap (cut name) = some inum →
      (v.data k).slots[m]? = some (some (cut name,inum)) →
      Got E v inum fun j w => (f (some (j,m*DIRENT))).Wp (spec sb p E) w Q) :
    (perform (.dirlookup i name) >>= f).Wp (spec sb p E) v Q := by
  refine wp_act ⟨k,hm,hdir,?_⟩
  obtain ⟨o,ho,hmap,hoff⟩ := Data.dirlookup_map sb hd name
  rw [ho]
  cases o with
  | none => exact hnone hmap.symm
  | some r =>
    obtain ⟨m,hm,hslot⟩ := hoff r.1 r.2 rfl
    have := hsome r.1 m hmap.symm hslot
    rw [← hm] at this
    exact this

end Solo
end Xv6.Fs
