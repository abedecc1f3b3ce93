import Xv6.File.Refs

/-! The lifetime of a pipe. Each end that is open belongs to exactly one `struct file` that is in
use, or to a `fileclose` that has taken the file down and has not come to `pipeclose` yet; the page
is freed by the process that closes the second end. -/
namespace Xv6.Ftable
open Process (Slot initproc)
open Xv6.Lib Sys
open Function (update update_self update_of_ne)

def Pipe.isOpen (w : Bool) (v : Pipe) : Bool := if w then v.writeopen else v.readopen

/-- The file is the end `w` of the pipe in page `pi`. -/
def File.endOf (pi : ℕ) (w : Bool) (v : File) : ℕ :=
  if 0 < v.ref ∧ v.type = .pipe ∧ v.pipe = pi ∧ v.writable = w then 1 else 0

def Pc.ends (pi : ℕ) (w : Bool) : Pc → ℕ
  | .closed ff _ => if ff.type = .pipe ∧ ff.pipe = pi ∧ ff.writable = w then 1 else 0
  | _ => 0

def Pc.kfrees (pi : ℕ) : Pc → ℕ
  | .kfree i _ => if i = pi then 1 else 0
  | _ => 0

def openOf (w : Bool) : Option Pipe → ℕ
  | some v => if v.isOpen w then 1 else 0
  | none => 0

def deadOf : Option Pipe → ℕ
  | some v => if v.dead then 1 else 0
  | none => 0

structure Ends (s : Sys) : Prop where
  ends : ∀ pi w, ∑ f, (s.file f).endOf pi w+∑ p, (s.pc p).ends pi w = openOf w (s.pipe pi)
  kfrees : ∀ pi, ∑ p, (s.pc p).kfrees pi = deadOf (s.pipe pi)

/-- Each pipe ever made is in one page, or it has been freed once. -/
structure Ids (s : Sys) : Prop where
  lt : ∀ pi v, s.pipe pi = some v → v.id < s.made
  inj : ∀ pi pi' v v', s.pipe pi = some v → s.pipe pi' = some v' → v.id = v'.id → pi = pi'
  once : s.freed.Nodup
  gone : ∀ i ∈ s.freed, i < s.made ∧ ∀ pi v, s.pipe pi = some v → v.id ≠ i
  all : ∀ i, i < s.made → i ∈ s.freed ∨ ∃ pi v, s.pipe pi = some v ∧ v.id = i

section Pipe
variable {v : Pipe} {w w' : Bool}

lemma Pipe.isOpen_close : (v.close w).isOpen w' = (if w' = w then false else v.isOpen w') := by
  cases w <;> cases w' <;> simp [Pipe.close,Pipe.isOpen]

@[simp] lemma Pipe.close_id : (v.close w).id = v.id := by
  cases w <;> rfl

lemma Pipe.dead_iff : v.dead = true ↔ v.readopen = false ∧ v.writeopen = false := by
  simp [Pipe.dead]

lemma Pipe.not_dead (h : v.isOpen w = true) : v.dead = false := by
  cases w <;> simp_all [Pipe.dead,Pipe.isOpen]

end Pipe

namespace Ends
variable {s t : Sys} {p r : Slot} {f g : FileIdx} {k : Cont} {q : Pc} {pi : ℕ} {w : Bool}

lemma ends_of (h : Ends s) (hpc : ∀ r, r ≠ p → t.pc r = s.pc r)
    (hb : ∑ f, (t.file f).endOf pi w+(t.pc p).ends pi w+openOf w (s.pipe pi) =
      ∑ f, (s.file f).endOf pi w+(s.pc p).ends pi w+openOf w (t.pipe pi)) :
    ∑ f, (t.file f).endOf pi w+∑ p, (t.pc p).ends pi w = openOf w (t.pipe pi) := by
  have hs := sum_change (g := fun r => (s.pc r).ends pi w) (k := fun r => (t.pc r).ends pi w) p
    (fun r hr => by simp only [hpc r hr])
  have he := h.ends pi w
  omega

lemma kfrees_of (h : Ends s) (hpc : ∀ r, r ≠ p → t.pc r = s.pc r)
    (hb : (t.pc p).kfrees pi+deadOf (s.pipe pi) = (s.pc p).kfrees pi+deadOf (t.pipe pi)) :
    ∑ p, (t.pc p).kfrees pi = deadOf (t.pipe pi) := by
  have hs := sum_change (g := fun r => (s.pc r).kfrees pi) (k := fun r => (t.pc r).kfrees pi) p
    (fun r hr => by simp only [hpc r hr])
  have he := h.kfrees pi
  omega

lemma of_same (h : Ends s) (hpc : ∀ r, r ≠ p → t.pc r = s.pc r)
    (hfile : ∀ f pi w, (t.file f).endOf pi w = (s.file f).endOf pi w)
    (hends : ∀ pi w, (t.pc p).ends pi w = (s.pc p).ends pi w)
    (hkfrees : ∀ pi, (t.pc p).kfrees pi = (s.pc p).kfrees pi) (hp : t.pipe = s.pipe) : Ends t where
  ends pi w := h.ends_of hpc (by simp only [hfile,hends,hp])
  kfrees pi := h.kfrees_of hpc (by simp only [hkfrees,hp])

lemma resume_ends (u : Sys) : ((resume u p k).pc p).ends pi w = 0 := by
  cases k <;> simp [resume,Pc.ends]

lemma resume_kfrees (u : Sys) : ((resume u p k).pc p).kfrees pi = 0 := by
  cases k <;> simp [resume,Pc.kfrees]

lemma goto_same {u : Sys} (h : Ends s) (hpc : u.pc = s.pc)
    (hfile : ∀ f pi w, (u.file f).endOf pi w = (s.file f).endOf pi w)
    (hends : ∀ pi w, q.ends pi w = (s.pc p).ends pi w)
    (hkfrees : ∀ pi, q.kfrees pi = (s.pc p).kfrees pi) (hp : u.pipe = s.pipe) :
    Ends (u.goto p q) := by
  refine h.of_same (p := p) (fun r hr => ?_) hfile ?_ ?_ hp
  · simp only [goto_pc,update_of_ne hr,hpc]
  · simpa only [goto_pc,update_self] using hends
  · simpa only [goto_pc,update_self] using hkfrees

lemma resume_same {u : Sys} (h : Ends s) (hpc : u.pc = s.pc)
    (hfile : ∀ f pi w, (u.file f).endOf pi w = (s.file f).endOf pi w)
    (hends : ∀ pi w, (s.pc p).ends pi w = 0) (hkfrees : ∀ pi, (s.pc p).kfrees pi = 0)
    (hp : u.pipe = s.pipe) : Ends (resume u p k) := by
  refine h.of_same (p := p) (fun r hr => ?_) ?_ ?_ ?_ ?_
  · rw [resume_pc_of_ne u hr,hpc]
  · simpa only [resume_file] using hfile
  · intro pi w
    rw [resume_ends,hends]
  · intro pi
    rw [resume_kfrees,hkfrees]
  · rw [resume_pipe,hp]

lemma endOf_setFile {v : File} (hv : ∀ pi w, v.endOf pi w = (s.file g).endOf pi w) (f : FileIdx)
    (pi : ℕ) (w : Bool) :
    ((s.setFile g v).file f).endOf pi w = (s.file f).endOf pi w := by
  simp only [setFile_file]
  by_cases hfg : f = g
  · rw [hfg,update_self,hv]
  · rw [update_of_ne hfg]

lemma endOf_of_type {v : File} (h : v.type ≠ .pipe) : v.endOf pi w = 0 := by
  simp [File.endOf,h]

lemma endOf_ref {n : ℕ} {v : File} (hn : 0 < n) (hv : 0 < v.ref) :
    { v with ref := n }.endOf pi w = v.endOf pi w := by
  simp [File.endOf,hn,hv]

/-- The last reference goes: the end passes from the file to the process that closes it. -/
lemma closeLast (h : Ends s) (hc : s.pc p = .fileclose g k) (hg : (s.file g).ref = 1) :
    Ends ((s.setFile g { s.file g with ref := 0, type := .none }).goto p
      (.closed { s.file g with ref := 0 } k)) := by
  have hother : ∀ r, r ≠ p → ((s.setFile g { s.file g with ref := 0, type := .none }).goto p
      (.closed { s.file g with ref := 0 } k)).pc r = s.pc r := fun r hr => by simp [hr]
  refine ⟨fun pi w => h.ends_of hother ?_,fun pi => h.kfrees_of hother ?_⟩
  · have hs := sum_change (g := fun f => (s.file f).endOf pi w) (k := fun f =>
      (update s.file g { s.file g with ref := 0, type := .none } f).endOf pi w) g
      (fun f hf => by simp only [update_of_ne hf])
    have hnew : { s.file g with ref := 0, type := .none }.endOf pi w = 0 := by simp [File.endOf]
    have hold : (s.file g).endOf pi w =
        (Pc.closed { s.file g with ref := 0 } k).ends pi w := by
      simp [File.endOf,Pc.ends,hg]
    have hzero : (Pc.fileclose g k).ends pi w = 0 := rfl
    simp only [update_self,hnew] at hs hold
    simp only [goto_file,setFile_file,goto_pc,update_self,goto_pipe,
      setFile_pipe,hc,hzero]
    omega
  · simp [hc,Pc.kfrees]

/-- `pipeclose` finds the end open. -/
lemma open_of_closed (h : Ends s) {ff : File} (hc : s.pc p = .closed ff k)
    (hty : ff.type = .pipe) : ∃ v, s.pipe ff.pipe = some v ∧ v.isOpen ff.writable = true := by
  have hle := le_sum (g := fun r => (s.pc r).ends ff.pipe ff.writable) p
  have he := h.ends ff.pipe ff.writable
  have hone : (s.pc p).ends ff.pipe ff.writable = 1 := by simp [hc,Pc.ends,hty]
  cases hp : s.pipe ff.pipe with
  | none =>
    rw [hp,openOf] at he
    omega
  | some v =>
    refine ⟨v,rfl,?_⟩
    by_contra hv
    rw [hp,openOf,if_neg hv] at he
    omega

lemma pipeclose {ff : File} {v : Pipe} (h : Ends s) (hc : s.pc p = .closed ff k)
    (hty : ff.type = .pipe) (hp : s.pipe ff.pipe = some v)
    (hpc : ∀ r, r ≠ p → t.pc r = s.pc r) (hfile : t.file = s.file)
    (hpipe : t.pipe = update s.pipe ff.pipe (some (v.close ff.writable)))
    (hends : ∀ pi w, (t.pc p).ends pi w = 0)
    (hkfrees : ∀ pi, (t.pc p).kfrees pi =
      if ff.pipe = pi ∧ (v.close ff.writable).dead = true then 1 else 0) : Ends t := by
  obtain ⟨v',hv',hopen⟩ := h.open_of_closed hc hty
  obtain rfl : v = v' := Option.some_inj.mp (hp.symm.trans hv')
  refine ⟨fun pi w => h.ends_of hpc ?_,fun pi => h.kfrees_of hpc ?_⟩
  · rw [hfile,hends,hpipe,hc,Pc.ends]
    by_cases hpi : ff.pipe = pi
    · subst hpi
      rw [update_self,hp,openOf,openOf,Pipe.isOpen_close]
      by_cases hw : ff.writable = w
      · subst hw
        simp [hty,hopen]
      · simp [hw,Ne.symm hw]
    · rw [update_of_ne (Ne.symm hpi)]
      simp [hpi]
  · rw [hkfrees,hpipe,hc,Pc.kfrees]
    by_cases hpi : ff.pipe = pi
    · subst hpi
      rw [update_self,hp,deadOf,deadOf,Pipe.not_dead hopen]
      simp
    · rw [update_of_ne (Ne.symm hpi)]
      simp [hpi]
    all_goals exact fun _ _ h => nomatch h

/-- A page about to be freed holds a pipe that is closed at both ends. -/
lemma dead_of_kfree (h : Ends s) (hc : s.pc p = .kfree pi k) :
    ∃ v, s.pipe pi = some v ∧ v.dead = true := by
  have hle := le_sum (g := fun r => (s.pc r).kfrees pi) p
  have he := h.kfrees pi
  have hone : (s.pc p).kfrees pi = 1 := by simp [hc,Pc.kfrees]
  cases hp : s.pipe pi with
  | none =>
    rw [hp,deadOf] at he
    omega
  | some v =>
    refine ⟨v,rfl,?_⟩
    by_contra hv
    rw [hp,deadOf,if_neg hv] at he
    omega

lemma kfree {freed : List ℕ} (h : Ends s) (hc : s.pc p = .kfree pi k) :
    Ends (resume ({ s with freed := freed }.setPipe pi none) p k) := by
  obtain ⟨v,hv,hdead⟩ := h.dead_of_kfree hc
  have hclosed : ∀ w, v.isOpen w = false := by
    rw [Pipe.dead_iff] at hdead
    intro w
    cases w <;> simp [Pipe.isOpen,hdead]
  have hpc : ∀ r, r ≠ p → (resume ({ s with freed := freed }.setPipe pi none) p k).pc r = s.pc r :=
    fun r hr => resume_pc_of_ne _ hr
  refine ⟨fun i w => h.ends_of hpc ?_,fun i => h.kfrees_of hpc ?_⟩
  · rw [resume_ends,resume_file,resume_pipe,hc]
    by_cases hi : i = pi
    · subst hi
      simp [hv,openOf,hclosed,Pc.ends]
    · simp [hi,Pc.ends]
  · rw [resume_kfrees,resume_pipe,hc,Pc.kfrees]
    by_cases hi : i = pi
    · subst hi
      simp [hv,deadOf,hdead]
    · simp [hi,Ne.symm hi]

lemma pipeKalloc {rf wf : FileIdx} {id made : ℕ} (h : Ends s) (hc : s.pc p = .pipeKalloc rf wf)
    (hp : s.pipe pi = none) (hne : rf ≠ wf) (hrf : (s.file rf).ref = 1)
    (hrt : (s.file rf).type = .none) (hwf : (s.file wf).ref = 1) (hwt : (s.file wf).type = .none) :
    Ends ({ (((s.setPipe pi (some { readopen := true, writeopen := true, id := id })).setFile
      rf (readEnd (s.file rf) pi)).setFile
      wf (writeEnd ((s.setFile rf (readEnd (s.file rf) pi)).file wf) pi)) with
        made := made }.goto p (.pipeFd rf wf)) := by
  refine ⟨fun i w => h.ends_of (p := p) (fun r hr => by simp [hr]) ?_,
    fun i => h.kfrees_of (p := p) (fun r hr => by simp [hr]) ?_⟩
  · have hs₀ := sum_change (g := fun f => (s.file f).endOf i w)
      (k := fun f => (update s.file rf (readEnd (s.file rf) pi) f).endOf i w) rf
      (fun f hf => by simp only [update_of_ne hf])
    have hs₁ := sum_change
      (g := fun f => (update s.file rf (readEnd (s.file rf) pi) f).endOf i w)
      (k := fun f => (update (update s.file rf (readEnd (s.file rf) pi)) wf
        (writeEnd (s.file wf) pi) f).endOf i w) wf
      (fun f hf => by simp only [update_of_ne hf])
    have hr₀ : (s.file rf).endOf i w = 0 := endOf_of_type (by simp [hrt])
    have hw₀ : (s.file wf).endOf i w = 0 := endOf_of_type (by simp [hwt])
    simp only [update_self,update_of_ne (Ne.symm hne),hr₀,hw₀] at hs₀ hs₁
    simp only [goto_file,setFile_file,setPipe_file,goto_pc,update_self,
      goto_pipe,setFile_pipe,setPipe_pipe,update_of_ne (Ne.symm hne),hc,
      Pc.ends]
    by_cases hi : i = pi
    · subst hi
      have hr₁ : (readEnd (s.file rf) i).endOf i w = if w = false then 1 else 0 := by
        simp [File.endOf,readEnd,hrf,eq_comm]
      have hw₁ : (writeEnd (s.file wf) i).endOf i w = if w = true then 1 else 0 := by
        simp [File.endOf,writeEnd,hwf,eq_comm]
      rw [hr₁] at hs₀
      rw [hw₁] at hs₁
      rw [update_self,hp,openOf,openOf]
      cases w <;> simp [Pipe.isOpen] at hs₀ hs₁ ⊢ <;> omega
    · have hr₁ : (readEnd (s.file rf) pi).endOf i w = 0 := by
        simp [File.endOf,readEnd,Ne.symm hi]
      have hw₁ : (writeEnd (s.file wf) pi).endOf i w = 0 := by
        simp [File.endOf,writeEnd,Ne.symm hi]
      rw [hr₁] at hs₀
      rw [hw₁] at hs₁
      rw [update_of_ne hi]
      omega
  · by_cases hi : i = pi
    · subst hi
      simp [hp,deadOf,Pipe.dead,hc,Pc.kfrees]
    · simp [hi,hc,Pc.kfrees]

lemma hop_same {o : Fd → Option FileIdx} {q q' : Pc} (h : Hop o q q') :
    (∀ pi w, q'.ends pi w = q.ends pi w) ∧ ∀ pi, q'.kfrees pi = q.kfrees pi := by
  cases h <;> exact ⟨fun _ _ => rfl,fun _ => rfl⟩

lemma alloc_same (h : Ends s) (href : Refs s) (hg : (s.file g).ref = 0)
    (hends : ∀ pi w, q.ends pi w = (s.pc p).ends pi w)
    (hkfrees : ∀ pi, q.kfrees pi = (s.pc p).kfrees pi) :
    Ends ((s.setFile g { s.file g with ref := 1 }).goto p q) := by
  refine h.goto_same rfl (endOf_setFile ?_) hends hkfrees rfl
  intro pi w
  have hty := href.typed g hg
  rw [endOf_of_type (v := s.file g) (by simp [hty]),endOf_of_type (by simp [hty])]

lemma trans (h : Ends s) (href : Refs s) (ht : Trans s p t) : Ends t := by
  cases ht with
  | hop hh => exact h.goto_same rfl (fun _ _ _ => rfl) (hop_same hh).1 (hop_same hh).2 rfl
  | closeMore hc hr =>
    exact h.resume_same rfl (endOf_setFile fun _ _ => endOf_ref (by omega) (by omega))
      (fun _ _ => by rw [hc]; rfl) (fun _ => by rw [hc]; rfl) rfl
  | closeLast hc hr => exact h.closeLast hc hr
  | closedOther hc hty =>
    exact h.resume_same rfl (fun _ _ _ => rfl) (fun _ _ => by simp [hc,Pc.ends,hty])
      (fun _ => by rw [hc]; rfl) rfl
  | pipeclose hc hty hp hd =>
    exact h.pipeclose hc hty hp (fun r hr => resume_pc_of_ne _ hr) (by simp) (by simp)
      (fun _ _ => resume_ends _) (fun _ => by rw [resume_kfrees]; simp [hd])
  | pipecloseDead hc hty hp hd =>
    exact h.pipeclose hc hty hp (fun r hr => by simp [hr]) rfl rfl (fun _ _ => by simp [Pc.ends])
      (fun _ => by simp [hd,Pc.kfrees])
  | kfree hc hp => exact h.kfree hc
  | filedup hc hr =>
    exact h.goto_same rfl (endOf_setFile fun _ _ => endOf_ref (by omega) (by omega))
      (fun _ _ => by rw [hc]; rfl) (fun _ => by rw [hc]; rfl) rfl
  | openAlloc hc hr | pipeAlloc hc hr | pipeAlloc1 hc hr =>
    exact h.alloc_same href hr (fun _ _ => by rw [hc]; rfl) (fun _ => by rw [hc]; rfl)
  | openFd hc | pipeFd hc | copyoutNone hc | forkAlloc hc | forkCopyNone hc | forkDone hc
  | exitDone hc =>
    exact h.goto_same rfl (fun _ _ _ => rfl) (fun _ _ => by rw [hc]; rfl)
      (fun _ => by rw [hc]; rfl) rfl
  | @openSet o g fd hc =>
    refine h.goto_same rfl (endOf_setFile fun pi w => ?_) (fun _ _ => by rw [hc]; rfl)
      (fun _ => by rw [hc]; rfl) rfl
    have hty := (href.fresh p g (by rw [hc]; rfl)).2
    rw [endOf_of_type (v := s.file g) (by simp [hty]),endOf_of_type]
    cases hd : o.device <;> simp [openFile,hd]
  | @pipeKalloc rf wf pi hc hr =>
    obtain ⟨hrf,hrt⟩ := href.fresh p rf (by rw [hc]; exact .inl rfl)
    obtain ⟨hwf,hwt⟩ := href.fresh p wf (by rw [hc]; exact .inr rfl)
    have hne : rf ≠ wf := by
      rintro rfl
      have hle := href.share_le_ref p rf
      simp only [Sys.share,shareOf,hc,Pc.refs,if_true] at hle
      omega
    exact h.pipeKalloc hc hr hne hrf hrt hwf hwt
  | forkDup hc hg hr =>
    refine h.goto_same rfl (fun f pi w => ?_) (fun _ _ => by rw [hc]; rfl)
      (fun _ => by rw [hc]; rfl) rfl
    exact endOf_setFile (fun _ _ => endOf_ref (by omega) (by omega)) f pi w
  | _ => exact ⟨h.ends,h.kfrees⟩

lemma enter (h : Ends s) (hc : s.pc p = .user)
    (ht : Enter { s with saved := update s.saved p (s.ofile p) } p t) : Ends t := by
  cases ht with
  | go hq =>
    refine h.goto_same rfl (fun _ _ _ => rfl) ?_ ?_ rfl
    · cases hq <;> exact fun _ _ => by rw [hc]; rfl
    · cases hq <;> exact fun _ => by rw [hc]; rfl
  | dup | close =>
    exact h.goto_same rfl (fun _ _ _ => rfl) (fun _ _ => by rw [hc]; rfl)
      (fun _ => by rw [hc]; rfl) rfl

end Ends

namespace Ids
variable {s t : Sys} {p : Slot} {pi : ℕ} {v : Pipe}

lemma of_same (h : Ids s) (hp : t.pipe = s.pipe) (hm : t.made = s.made) (hf : t.freed = s.freed) :
    Ids t := by
  constructor
  case lt => rw [hp,hm]; exact h.lt
  case inj => rw [hp]; exact h.inj
  case once => rw [hf]; exact h.once
  case gone => rw [hp,hm,hf]; exact h.gone
  case all => rw [hp,hm,hf]; exact h.all

lemma setPipe {w : Pipe} (h : Ids s) (hv : s.pipe pi = some v) (hid : w.id = v.id)
    (hp : t.pipe = update s.pipe pi (some w)) (hm : t.made = s.made)
    (hf : t.freed = s.freed) : Ids t := by
  have hback : ∀ i u, t.pipe i = some u → ∃ u', s.pipe i = some u' ∧ u'.id = u.id := by
    intro i u hu
    rw [hp] at hu
    by_cases hi : i = pi
    · subst hi
      rw [update_self,Option.some_inj] at hu
      exact ⟨v,hv,by rw [←hu,hid]⟩
    · rw [update_of_ne hi] at hu
      exact ⟨u,hu,rfl⟩
  constructor
  case lt =>
    intro i u hu
    obtain ⟨u',hu',he⟩ := hback i u hu
    rw [hm,←he]
    exact h.lt i u' hu'
  case inj =>
    intro i j u w hu hw he
    obtain ⟨u',hu',heu⟩ := hback i u hu
    obtain ⟨w',hw',hew⟩ := hback j w hw
    exact h.inj i j u' w' hu' hw' (by rw [heu,hew,he])
  case once => rw [hf]; exact h.once
  case gone =>
    intro i hi
    rw [hf] at hi
    rw [hm]
    refine ⟨(h.gone i hi).1,?_⟩
    intro j u hu
    obtain ⟨u',hu',he⟩ := hback j u hu
    exact he ▸ (h.gone i hi).2 j u' hu'
  case all =>
    intro i hi
    rw [hm] at hi
    rw [hf]
    refine (h.all i hi).imp_right ?_
    rintro ⟨j,u,hu,rfl⟩
    by_cases hj : j = pi
    · subst hj
      rw [hv,Option.some_inj] at hu
      exact ⟨j,w,by rw [hp,update_self],by rw [hid,hu]⟩
    · exact ⟨j,u,by rw [hp,update_of_ne hj,hu],rfl⟩

/-- A page is freed, for the first time for this pipe. -/
lemma kfree (h : Ids s) (hv : s.pipe pi = some v) (hp : t.pipe = update s.pipe pi none)
    (hm : t.made = s.made) (hf : t.freed = s.freed++[v.id]) : Ids t := by
  have hback : ∀ i u, t.pipe i = some u → i ≠ pi ∧ s.pipe i = some u := by
    intro i u hu
    rw [hp] at hu
    by_cases hi : i = pi
    · subst hi
      simp at hu
    · rw [update_of_ne hi] at hu
      exact ⟨hi,hu⟩
  constructor
  case lt =>
    intro i u hu
    rw [hm]
    exact h.lt i u (hback i u hu).2
  case inj =>
    intro i j u w hu hw
    exact h.inj i j u w (hback i u hu).2 (hback j w hw).2
  case once =>
    rw [hf]
    refine List.nodup_append.mpr ⟨h.once,List.nodup_singleton _,?_⟩
    rintro a ha b hb rfl
    rw [List.mem_singleton] at hb
    exact (h.gone a ha).2 pi v hv hb.symm
  case gone =>
    intro i hi
    rw [hf] at hi
    rw [hm]
    obtain hi | hi := List.mem_append.mp hi
    · exact ⟨(h.gone i hi).1,fun j u hu => (h.gone i hi).2 j u (hback j u hu).2⟩
    · rw [List.mem_singleton] at hi
      subst hi
      refine ⟨h.lt pi v hv,?_⟩
      intro j u hu he
      exact (hback j u hu).1 (h.inj j pi u v (hback j u hu).2 hv he)
  case all =>
    intro i hi
    rw [hm] at hi
    rw [hf]
    obtain hi | ⟨j,u,hu,rfl⟩ := h.all i hi
    · exact .inl (List.mem_append_left _ hi)
    · by_cases hj : j = pi
      · subst hj
        rw [hv,Option.some_inj] at hu
        exact .inl (by simp [hu])
      · exact .inr ⟨j,u,by rw [hp,update_of_ne hj,hu],rfl⟩

lemma make (h : Ids s) (hn : s.pipe pi = none) (hid : v.id = s.made)
    (hp : t.pipe = update s.pipe pi (some v)) (hm : t.made = s.made+1)
    (hf : t.freed = s.freed) : Ids t := by
  have hback : ∀ i u, t.pipe i = some u → (i = pi ∧ u.id = s.made) ∨ s.pipe i = some u := by
    intro i u hu
    rw [hp] at hu
    by_cases hi : i = pi
    · subst hi
      rw [update_self,Option.some_inj] at hu
      exact .inl ⟨rfl,hu ▸ hid⟩
    · rw [update_of_ne hi] at hu
      exact .inr hu
  constructor
  case lt =>
    intro i u hu
    rw [hm]
    obtain ⟨-,he⟩ | hu := hback i u hu
    · omega
    · exact (h.lt i u hu).trans (Nat.lt_succ_self _)
  case inj =>
    intro i j u w hu hw he
    obtain ⟨hi,heu⟩ | hu := hback i u hu <;> obtain ⟨hj,hew⟩ | hw := hback j w hw
    · rw [hi,hj]
    · have := h.lt j w hw
      omega
    · have := h.lt i u hu
      omega
    · exact h.inj i j u w hu hw he
  case once => rw [hf]; exact h.once
  case gone =>
    intro i hi
    rw [hf] at hi
    obtain ⟨hlt,hne⟩ := h.gone i hi
    rw [hm]
    refine ⟨hlt.trans (Nat.lt_succ_self _),?_⟩
    intro j u hu
    obtain ⟨-,he⟩ | hu := hback j u hu
    · omega
    · exact hne j u hu
  case all =>
    intro i hi
    rw [hm] at hi
    rw [hf]
    obtain hi | rfl := Nat.lt_succ_iff_lt_or_eq.mp hi
    · refine (h.all i hi).imp_right ?_
      rintro ⟨j,u,hu,rfl⟩
      have hj : j ≠ pi := by
        rintro rfl
        rw [hn] at hu
        cases hu
      exact ⟨j,u,by rw [hp,update_of_ne hj,hu],rfl⟩
    · exact .inr ⟨pi,v,by rw [hp,update_self],hid⟩

lemma trans (h : Ids s) (ht : Trans s p t) : Ids t := by
  cases ht with
  | closeMore | closedOther => exact h.of_same (by simp) (by simp) (by simp)
  | @pipeclose ff k v hc hty hp hd =>
    exact h.setPipe (w := v.close ff.writable) hp Pipe.close_id (by simp) (by simp) (by simp)
  | pipecloseDead hc hty hp hd => exact h.setPipe hp Pipe.close_id rfl rfl rfl
  | kfree hc hp => exact h.kfree hp (by simp) (by simp) (by simp)
  | pipeKalloc hc hp =>
    exact h.make (v := { readopen := true, writeopen := true, id := s.made }) hp rfl rfl rfl rfl
  | _ => exact h.of_same rfl rfl rfl

end Ids

structure Inv (s : Sys) : Prop where
  calm : s.panic = none
  tables : Tables s
  refs : Refs s
  ends : Ends s
  ids : Ids s

lemma inv_boot : Inv boot where
  calm := rfl
  tables :=
    { alive := by simp [boot]
      empty := by simp [boot]
      kids := by
        intro q
        by_cases hq : q = initproc <;> simp [boot,hq,Pc.kid,Pc.child?]
      child := by simp [boot,Pc.child?]
      own := fun _ => trivial
      kept := fun _ => trivial }
  refs :=
    { count := by simp [boot,Sys.share,shareOf,slotsOf,seen,Pc.refs]
      typed := by simp [boot]
      fresh := fun _ _ hf => hf.elim }
  ends :=
    { ends := by simp [boot,File.endOf,Pc.ends,openOf]
      kfrees := by simp [boot,Pc.kfrees,deadOf] }
  ids :=
    { lt := by simp [boot]
      inj := by simp [boot]
      once := by simp [boot]
      gone := by simp [boot]
      all := by simp [boot] }

namespace Inv
variable {s t : Sys} {p : Slot} {e : Event}

lemma calm_trans (h : Inv s) (ht : Trans s p t) : t.panic = none := by
  cases ht with
  | @closeBad f k hc hr =>
    have hle := h.refs.share_le_ref p f
    have hone : 1 ≤ s.share p f := Refs.one_le_of_refs (by rw [hc]; simp [Pc.refs])
    omega
  | pipecloseBad hc hty hp =>
    obtain ⟨v,hv,-⟩ := h.ends.open_of_closed hc hty
    rw [hp] at hv
    cases hv
  | kfreeBad hc hp =>
    obtain ⟨v,hv,-⟩ := h.ends.dead_of_kfree hc
    rw [hp] at hv
    cases hv
  | @filedupBad f fd hc hr =>
    have hown := h.tables.own p
    rw [hc] at hown
    obtain ⟨-,i,hi,hf⟩ := hown
    have hle := h.refs.share_le_ref p f
    have hone := Refs.one_le_of_slot hf (by rw [hc]; simp [Pc.hides,Ne.symm hi])
    omega
  | @forkDupBad np f i hc hf hr =>
    have hle := h.refs.share_le_ref p f
    have hone := Refs.one_le_of_slot hf (by rw [hc]; rfl)
    omega
  | closeMore | closedOther | pipeclose | kfree => rw [resume_panic]; exact h.calm
  | _ => exact h.calm

lemma trans (h : Inv s) (ht : Trans s p t) : Inv t :=
  ⟨h.calm_trans ht,h.tables.trans ht,h.refs.trans h.tables ht,h.ends.trans h.refs ht,
    h.ids.trans ht⟩

lemma enter (h : Inv s) (hal : s.stage p = .alive) (hc : s.pc p = .user)
    (ht : Enter { s with saved := update s.saved p (s.ofile p) } p t) : Inv t := by
  refine ⟨?_,h.tables.enter hal hc ht,h.refs.enter hc ht,h.ends.enter hc ht,?_⟩
  · cases ht <;> exact h.calm
  · cases ht <;> exact h.ids.of_same rfl rfl rfl

lemma reap (h : Inv s) (hz : s.stage p = .zombie) : Inv (s.setStage p .unused) :=
  ⟨h.calm,h.tables.reap hz,⟨h.refs.count,h.refs.typed,h.refs.fresh⟩,⟨h.ends.ends,h.ends.kfrees⟩,
    h.ids.of_same rfl rfl rfl⟩

lemma step (h : Inv s) (ht : step s e = some t) : Inv t := by
  unfold Ftable.step at ht
  rw [if_neg (by simp [h.calm])] at ht
  cases e with
  | call p c =>
    obtain ⟨⟨hal,hc⟩,ht⟩ := Option.ite_none_right_eq_some.mp ht
    exact h.enter hal hc (enter_trans ht)
  | run p r => exact h.trans (run_trans ht)
  | reap q =>
    simp only [Option.ite_none_right_eq_some,Option.some_inj] at ht
    exact ht.2 ▸ h.reap ht.1

end Inv

lemma inv_runs {es : List Event} {s : Sys} (h : Runs step (fun _ _ => True) boot es s) : Inv s :=
  h.invariant (fun _ _ _ hs _ ht => hs.step ht) inv_boot

end Xv6.Ftable
