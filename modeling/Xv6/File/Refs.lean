import Xv6.File.Table
import Xv6.Lib.Tally

/-! Who holds a reference to a `struct file`. The count of a file is the number of descriptors that
point to it together with the references that processes inside the kernel hold in local
variables; a descriptor does not count while `sys_dup` has not counted it yet or while `exit` is
closing it. -/
namespace Xv6.Ftable
open Process (Slot)
open Xv6.Lib Sys Pc
open Function (update update_self update_of_ne)

def Cont.hides (fd : Fd) : Cont → Bool
  | .exit i => i = fd
  | _ => false

/-- The descriptor that does not count at the moment. -/
def Pc.hides (fd : Fd) : Pc → Bool
  | .filedup _ i => i = fd
  | .fileclose _ k | .closed _ k | .kfree _ k => k.hides fd
  | _ => false

def Cont.refs (f : FileIdx) : Cont → ℕ
  | .close g _ => if g = f then 1 else 0
  | _ => 0

/-- References to `f` in local variables. -/
def Pc.refs (f : FileIdx) : Pc → ℕ
  | .fileclose g k => (if g = f then 1 else 0)+k.refs f
  | .closed _ k | .kfree _ k => k.refs f
  | .openFd _ g | .pipeAlloc1 g => if g = f then 1 else 0
  | .pipeKalloc g h | .pipeFd g h => (if g = f then 1 else 0)+(if h = f then 1 else 0)
  | _ => 0

def seen (o : Fd → Option FileIdx) (q : Pc) (f : FileIdx) (fd : Fd) : ℕ :=
  if o fd = some f ∧ q.hides fd = false then 1 else 0

/-- The references of a process with descriptors `o` at position `q`. -/
def slotsOf (o : Fd → Option FileIdx) (q : Pc) (f : FileIdx) : ℕ := ∑ fd, seen o q f fd
def shareOf (o : Fd → Option FileIdx) (q : Pc) (f : FileIdx) : ℕ := slotsOf o q f+q.refs f

def Sys.share (s : Sys) (p : Slot) (f : FileIdx) : ℕ := shareOf (s.ofile p) (s.pc p) f

/-- The child that `fork` is at work on, with the number of descriptors done. -/
def Pc.child? : Pc → Option (Slot × ℕ)
  | .forkCopy np => some (np,0)
  | .forkDup np i => some (np,i)
  | _ => none

def Pc.kid (np : Slot) (q : Pc) : ℕ := if q.child?.map Prod.fst = some np then 1 else 0

/-- A file that has just been allocated for the process. -/
def Pc.fresh (f : FileIdx) : Pc → Prop
  | .openFd _ g | .openSet _ g _ | .pipeAlloc1 g => g = f
  | .pipeKalloc g h => g = f ∨ h = f
  | _ => False

def Cont.Own (o : Fd → Option FileIdx) : Cont → Prop
  | .exit fd => ∀ i, i < fd → o i = none
  | _ => True

/-- What a position says about the descriptors of its process. -/
def Pc.Own (o : Fd → Option FileIdx) : Pc → Prop
  | .openSet _ f fd => o fd = some f
  | .filedup f fd => o fd = some f ∧ ∃ i, i ≠ fd ∧ o i = some f
  | .pipeCopyout rf wf fd0 fd1 => fd1 ≠ fd0 ∧ o fd0 = some rf ∧ o fd1 = some wf
  | .exitLoop n => ∀ i : Fd, i < n → o i = none
  | .fileclose _ k | .closed _ k | .kfree _ k => k.Own o
  | _ => True

/-- The call will return -1. -/
def Cont.failed : Cont → Bool
  | .ret none | .close _ none => true
  | _ => false

/-- What a position says about the descriptors `sv` that the process came with. -/
def Pc.Kept (o sv : Fd → Option FileIdx) : Pc → Prop
  | .openAlloc _ | .openFd _ _ | .pipeAlloc | .pipeAlloc1 _ | .pipeKalloc _ _ | .pipeFd _ _
  | .forkAlloc | .forkCopy _ => o = sv
  | .ret v => v = none → o = sv
  | .pipeCopyout rf wf fd0 fd1 => sv fd0 = none ∧ sv fd1 = none ∧
      o = update (update sv fd0 (some rf)) fd1 (some wf)
  | .fileclose _ k | .closed _ k | .kfree _ k => k.failed = true → o = sv
  | _ => True

/-- The processes and their tables of descriptors. -/
structure Tables (s : Sys) : Prop where
  alive : ∀ p, s.pc p ≠ .user → s.stage p = .alive
  empty : ∀ p, s.stage p = .unused ∨ s.stage p = .zombie → ∀ fd, s.ofile p fd = none
  kids : ∀ q, ∑ p, (s.pc p).kid q = if s.stage q = .used then 1 else 0
  child : ∀ p np i, (s.pc p).child? = some (np,i) → ∀ fd : Fd, i ≤ fd → s.ofile np fd = none
  own : ∀ p, (s.pc p).Own (s.ofile p)
  kept : ∀ p, (s.pc p).Kept (s.ofile p) (s.saved p)

def Sys.Fresh (s : Sys) : Prop :=
  ∀ p f, (s.pc p).fresh f → (s.file f).ref = 1 ∧ (s.file f).type = .none

/-- The counts of the files. -/
structure Refs (s : Sys) : Prop where
  count : ∀ f, (s.file f).ref = ∑ p, s.share p f
  typed : ∀ f, (s.file f).ref = 0 → (s.file f).type = .none
  fresh : s.Fresh

section Share
variable {o u : Fd → Option FileIdx} {q q' r : Pc} {f : FileIdx}

lemma slotsOf_same (h : ∀ fd, r.hides fd = q.hides fd) : slotsOf o r f = slotsOf o q f := by
  simp only [slotsOf,seen,h]

/-- The descriptors before and after a change at `fd` alone. -/
lemma slotsOf_change (fd : Fd) (ho : ∀ i, i ≠ fd → u i = o i)
    (hh : ∀ i, i ≠ fd → r.hides i = q.hides i) :
    slotsOf u r f+seen o q f fd = slotsOf o q f+seen u r f fd :=
  sum_change fd fun i hi => by simp only [seen,ho i hi,hh i hi]

lemma slotsOf_two {fd0 fd1 : Fd} (v0 v1 : Option FileIdx) (hne : fd1 ≠ fd0)
    (hh : ∀ i, r.hides i = q.hides i) :
    slotsOf (update (update o fd0 v0) fd1 v1) r f+seen o q f fd0+seen o q f fd1 =
      slotsOf o q f+(if v0 = some f ∧ q.hides fd0 = false then 1 else 0)+
        (if v1 = some f ∧ q.hides fd1 = false then 1 else 0) := by
  have hs₀ := slotsOf_change (o := o) (u := update o fd0 v0) (q := q) (r := r) (f := f) fd0
    (fun i hi => update_of_ne hi _ _) (fun i _ => hh i)
  have hs₁ := slotsOf_change (o := update o fd0 v0)
    (u := update (update o fd0 v0) fd1 v1) (q := r) (r := r) (f := f) fd1
    (fun i hi => update_of_ne hi _ _) (fun _ _ => rfl)
  simp only [seen,hh,update_self,update_of_ne hne] at hs₀ hs₁ ⊢
  omega

lemma seen_le (fd : Fd) : seen o q f fd ≤ slotsOf o q f := le_sum (g := seen o q f) fd

lemma one_le_of_fresh (ho : q.Own o) (h : q.fresh f) : 1 ≤ shareOf o q f := by
  cases q with
  | openFd a g =>
    obtain rfl : g = f := h
    simp [shareOf,refs]
  | openSet a g fd =>
    obtain rfl : g = f := h
    have hfd : o fd = some g := ho
    have hle := seen_le (o := o) (q := .openSet a g fd) (f := g) fd
    simp only [seen,hfd,hides,and_self,if_true] at hle
    simp only [shareOf]
    omega
  | pipeAlloc1 g =>
    obtain rfl : g = f := h
    simp [shareOf,refs]
  | pipeKalloc g g' =>
    obtain rfl | rfl : g = f ∨ g' = f := h
    · simp only [shareOf,refs,if_true]
      omega
    · simp only [shareOf,refs,if_true]
      omega
  | _ => exact h.elim

variable (h : Hop o q q')
include h

lemma Hop.shareOf_eq : shareOf o q' f = shareOf o q f := by
  cases h with
  | exitClose hi hf =>
    rename_i i g
    have hs := slotsOf_change (o := o) (u := o) (q := .exitLoop i)
      (r := .fileclose g (.exit ⟨i,hi⟩)) (f := f) ⟨i,hi⟩ (fun _ _ => rfl)
      (fun j hj => by simp [hides,Cont.hides,Ne.symm hj])
    simp only [seen,hf,hides,Cont.hides,Option.some_inj,and_true,decide_true,
      Bool.true_eq_false,and_false,if_false] at hs
    simp only [shareOf,refs,Cont.refs]
    omega
  | _ => simp [shareOf,slotsOf,seen,refs,hides,Cont.refs,Cont.hides]

lemma Hop.ne_user : q ≠ .user := by
  cases h <;> simp

lemma Hop.own (ho : q.Own o) : q'.Own o := by
  cases h with
  | exitSkip hi hn =>
    intro i hlt
    obtain hlt | he := Nat.lt_succ_iff_lt_or_eq.mp hlt
    · exact ho i hlt
    · obtain rfl : i = ⟨_,hi⟩ := Fin.ext he
      exact hn
  | exitClose hi hf => exact fun i hlt => ho i hlt
  | _ => trivial

lemma Hop.kept {sv : Fd → Option FileIdx} (hk : q.Kept o sv) : q'.Kept o sv := by
  cases h with
  | ret | forkCopy | forkSkip | exitSkip => trivial
  | copyout | exitClose => exact fun hv => nomatch hv
  | _ => exact fun _ => hk

lemma Hop.child {np : Slot} {i : ℕ} (hc : q'.child? = some (np,i)) :
    ∃ j, j ≤ i ∧ q.child? = some (np,j) := by
  cases h with
  | forkCopy =>
    obtain ⟨rfl,rfl⟩ : _ = np ∧ 0 = i := by simpa [child?] using hc
    exact ⟨0,le_rfl,rfl⟩
  | forkSkip hi hn =>
    obtain ⟨rfl,rfl⟩ : _ = np ∧ _+1 = i := by simpa [child?] using hc
    exact ⟨_,Nat.le_succ _,rfl⟩
  | _ => cases hc

lemma Hop.kid_eq (np : Slot) : q'.kid np = q.kid np := by
  cases h <;> rfl

end Share

namespace Tables
variable {s t : Sys} {p r np : Slot} {q : Pc}

lemma kid_of_child {i : ℕ} (h : q.child? = some (np,i)) : q.kid np = 1 := by
  simp [kid,h]

lemma used (h : Tables s) {i : ℕ} (hc : (s.pc r).child? = some (np,i)) : s.stage np = .used := by
  have hle := le_sum (g := fun p => (s.pc p).kid np) r
  rw [h.kids] at hle
  by_contra hne
  rw [if_neg hne,kid_of_child hc] at hle
  omega

lemma user_of_used (h : Tables s) (hn : s.stage np = .used) : s.pc np = .user := by
  by_contra hne
  rw [h.alive np hne] at hn
  cases hn

/-- Only one `fork` is at work on a child. -/
lemma fork_unique (h : Tables s) {i j : ℕ} (hr : (s.pc r).child? = some (np,i))
    (hp : (s.pc p).child? = some (np,j)) : r = p := by
  by_contra hne
  have hle := add_le_sum (g := fun p => (s.pc p).kid np) hne
  rw [h.kids,if_pos (h.used hr)] at hle
  simp only [kid_of_child hr,kid_of_child hp] at hle
  omega

/-- The number of forks at work on `np` after a step of `p`. -/
lemma kids_of (h : Tables s) (hpc : t.pc = update s.pc p q)
    (hb : (if t.stage np = .used then 1 else 0)+(s.pc p).kid np =
      (if s.stage np = .used then 1 else 0)+q.kid np) :
    ∑ r, (t.pc r).kid np = if t.stage np = .used then 1 else 0 := by
  have hs := sum_change (g := fun r => (s.pc r).kid np) (k := fun r => (t.pc r).kid np) p
    (fun r hr => by simp only [hpc,update_of_ne hr])
  simp only [h.kids] at hs
  rw [show (t.pc p).kid np = q.kid np by rw [hpc,update_self]] at hs
  omega

/-- A predicate on the position and the tables of each process, after a step of `p`. -/
lemma each_of {P : (Fd → Option FileIdx) → (Fd → Option FileIdx) → Pc → Prop}
    (h : ∀ r, P (s.ofile r) (s.saved r) (s.pc r)) (hpc : t.pc = update s.pc p q)
    (ho : ∀ r, r ≠ p → s.pc r ≠ .user → t.ofile r = s.ofile r)
    (hsv : ∀ r, r ≠ p → t.saved r = s.saved r) (huser : ∀ o sv, P o sv .user)
    (hp : P (t.ofile p) (t.saved p) q) (r : Slot) : P (t.ofile r) (t.saved r) (t.pc r) := by
  by_cases hrp : r = p
  · subst hrp
    rwa [hpc,update_self]
  · rw [hpc,update_of_ne hrp,hsv r hrp]
    by_cases hu : s.pc r = .user
    · rw [hu]
      exact huser _ _
    · rw [ho r hrp hu]
      exact h r

/-- The general step: process `p` moves on to `q`, and the descriptors that change are its own or
those of a child it is making. -/
lemma change (h : Tables s) (hpc : t.pc = update s.pc p q)
    (hst : ∀ r, s.stage r = .alive → r ≠ p → t.stage r = .alive)
    (hp : q ≠ .user → t.stage p = .alive)
    (hempty : ∀ r, t.stage r = .unused ∨ t.stage r = .zombie → ∀ fd, t.ofile r fd = none)
    (hkid : ∀ np, (if t.stage np = .used then 1 else 0)+(s.pc p).kid np =
      (if s.stage np = .used then 1 else 0)+q.kid np)
    (hchild : ∀ np i, q.child? = some (np,i) → ∀ fd : Fd, i ≤ fd → t.ofile np fd = none)
    (hothers : ∀ r np i, r ≠ p → (s.pc r).child? = some (np,i) → t.ofile np = s.ofile np)
    (ho : ∀ r, r ≠ p → s.pc r ≠ .user → t.ofile r = s.ofile r)
    (hsv : ∀ r, r ≠ p → t.saved r = s.saved r)
    (hown : q.Own (t.ofile p)) (hkept : q.Kept (t.ofile p) (t.saved p)) : Tables t where
  alive := by
    intro r hr
    by_cases hrp : r = p
    · subst hrp
      rw [hpc,update_self] at hr
      exact hp hr
    · rw [hpc,update_of_ne hrp] at hr
      exact hst r (h.alive r hr) hrp
  empty := hempty
  kids np := h.kids_of hpc (hkid np)
  child := by
    intro r np i hc
    by_cases hrp : r = p
    · subst hrp
      rw [hpc,update_self] at hc
      exact hchild np i hc
    · rw [hpc,update_of_ne hrp] at hc
      rw [hothers r np i hrp hc]
      exact h.child r np i hc
  own := each_of (P := fun o _ q => q.Own o) h.own hpc ho hsv (fun _ _ => trivial) hown
  kept := each_of (P := fun o sv q => q.Kept o sv) h.kept hpc ho hsv (fun _ _ => trivial) hkept

lemma move (h : Tables s) (hal : s.stage p = .alive) (hpc : t.pc = update s.pc p q)
    (ho : ∀ r, r ≠ p → t.ofile r = s.ofile r) (hst : t.stage = s.stage)
    (hsv : ∀ r, r ≠ p → t.saved r = s.saved r) (hkid : ∀ np, q.kid np = (s.pc p).kid np)
    (hch : ∀ np i, q.child? = some (np,i) → ∃ j, j ≤ i ∧ (s.pc p).child? = some (np,j))
    (hown : q.Own (t.ofile p)) (hkept : q.Kept (t.ofile p) (t.saved p)) : Tables t := by
  have hchild : ∀ r np i, (s.pc r).child? = some (np,i) → t.ofile np = s.ofile np := by
    intro r np i hc
    apply ho
    rintro rfl
    rw [h.used hc] at hal
    cases hal
  refine h.change hpc (fun r hr _ => by rw [hst,hr]) (fun _ => by rw [hst,hal]) ?_
    (fun np => by rw [hst,hkid]) ?_ (fun r np i _ => hchild r np i) (fun r hr _ => ho r hr) hsv
    hown hkept
  · intro r hr
    rw [hst] at hr
    rw [ho r (by rintro rfl; simp [hal] at hr)]
    exact h.empty r hr
  · intro np i hc fd hfd
    obtain ⟨j,hj,hc⟩ := hch np i hc
    rw [hchild p np j hc]
    exact h.child p np j hc fd (by omega)

/-- A move between positions outside `fork`. -/
lemma advance {c : Pc} (h : Tables s) (hc : s.pc p = c) (hpc : t.pc = update s.pc p q)
    (hown : q.Own (t.ofile p)) (hkept : q.Kept (t.ofile p) (t.saved p))
    (ho : ∀ r, r ≠ p → t.ofile r = s.ofile r) (hu : c ≠ .user)
    (hcc : c.child? = none) (hq : q.child? = none) (hst : t.stage = s.stage)
    (hsv : t.saved = s.saved) : Tables t := by
  refine h.move (h.alive p (by rwa [hc])) hpc ho hst (fun r _ => congrFun hsv r) ?_ ?_ hown hkept
  · intro np
    simp only [kid,hc,hcc,hq]
  · simp [hq]

lemma resume {u : Sys} {k : Cont} {c : Pc} (h : Tables s) (hc : s.pc p = c)
    (hown : k.Own (s.ofile p)) (hkept : k.failed = true → s.ofile p = s.saved p)
    (hpc : u.pc = s.pc) (ho : u.ofile = s.ofile) (hst : u.stage = s.stage)
    (hsv : u.saved = s.saved) (hu : c ≠ .user) (hcc : c.child? = none) : Tables (resume u p k) := by
  cases k with
  | ret v =>
    refine h.advance (q := .ret v) hc (by rw [←hpc]; rfl) trivial ?_ (fun r _ => congrFun ho r) hu hcc
      rfl hst hsv
    rintro rfl
    simpa [Ftable.resume,ho,hsv] using hkept rfl
  | close f v =>
    refine h.advance (q := .fileclose f (.ret v)) hc (by rw [←hpc]; rfl) trivial ?_
      (fun r _ => congrFun ho r) hu hcc rfl hst hsv
    intro hv
    have hk : (Cont.close f v).failed = true := by cases v <;> simp_all [Cont.failed]
    simpa [Ftable.resume,ho,hsv] using hkept hk
  | exit fd =>
    refine h.advance (q := .exitLoop (fd+1)) hc (by rw [←hpc]; rfl) ?_ trivial ?_ hu hcc rfl hst hsv
    · intro i hi
      simp only [Ftable.resume,goto_ofile,setFd_ofile,update_self,ho]
      by_cases hif : i = fd
      · simp [hif]
      · rw [update_of_ne hif]
        exact hown i (lt_of_le_of_ne (Nat.lt_succ_iff.mp hi) hif)
    · intro r hr
      simp [Ftable.resume,hr,ho]

lemma ne_of_stage {a b : Stage} (hp : s.stage p = a) (hr : s.stage r = b)
    (hab : a ≠ b) : p ≠ r := by
  rintro rfl
  exact hab (hp.symm.trans hr)

variable (h : Tables s)
include h

section
variable (hal : s.stage p = .alive)
include hal

lemma forkAlloc (hc : s.pc p = .forkAlloc)
    (hnp : s.stage np = .unused) : Tables ((s.setStage np .used).goto p (.forkCopy np)) := by
  have hkept := h.kept p
  rw [hc] at hkept
  refine h.change (q := .forkCopy np) rfl (fun r hr _ => by simp [ne_of_stage hr hnp nofun,hr])
    (by simp [ne_of_stage hal hnp nofun,hal]) ?_ ?_ ?_ (fun _ _ _ _ _ => rfl) (fun _ _ _ => rfl)
    (fun _ _ => rfl) trivial hkept
  · intro r hr
    by_cases hrn : r = np
    · simp [hrn] at hr
    · exact h.empty r (by simpa [hrn] using hr)
  · intro r
    by_cases hrn : r = np
    · simp [hrn,hc,hnp,kid,child?]
    · simp [hrn,Ne.symm hrn,hc,kid,child?]
  · intro n i hr fd _
    obtain ⟨rfl,rfl⟩ : np = n ∧ 0 = i := by simpa [child?] using hr
    exact h.empty np (.inl hnp) fd

/-- `fork` is done with the child: it is given back, or it starts to run. -/
lemma forkLeave {v : Stage} {a : Ret} {i : ℕ}
    (hc : (s.pc p).child? = some (np,i)) (hv : v = .alive ∨ (v = .unused ∧ i = 0))
    (hkept : (Pc.ret a).Kept (s.ofile p) (s.saved p)) :
    Tables ((s.setStage np v).goto p (.ret a)) := by
  have hnp := h.used hc
  refine h.change (q := .ret a) rfl (fun r hr _ => by simp [ne_of_stage hr hnp nofun,hr])
    (by simp [ne_of_stage hal hnp nofun,hal]) ?_ ?_ (by simp [child?]) (fun _ _ _ _ _ => rfl)
    (fun _ _ _ => rfl) (fun _ _ => rfl) trivial hkept
  · intro r hr
    by_cases hrn : r = np
    · subst hrn
      obtain rfl | ⟨rfl,rfl⟩ := hv
      · simp at hr
      · exact fun fd => h.child p r 0 hc fd (Nat.zero_le _)
    · exact h.empty r (by simpa [hrn] using hr)
  · intro r
    have hzero : (ret a).kid r = 0 := rfl
    by_cases hrn : r = np
    · subst hrn
      have hvu : v ≠ .used := by
        obtain rfl | ⟨rfl,-⟩ := hv <;> simp
      simp [hzero,kid_of_child hc,hnp,hvu]
    · have hkid : (s.pc p).kid r = 0 := by simp [kid,hc,Ne.symm hrn]
      simp [hzero,hkid,hrn]

lemma forkDup {i : Fd} {f : FileIdx} {file : FileIdx → File} (hc : s.pc p = .forkDup np i) :
    Tables (({ s with file := file }.setFd np i (some f)).goto p (.forkDup np (i+1))) := by
  have hcp : (s.pc p).child? = some (np,i.val) := by rw [hc]; rfl
  have hnp := h.used hcp
  refine h.change (q := .forkDup np (i+1)) rfl (fun r hr _ => hr) (fun _ => hal) ?_ ?_ ?_ ?_ ?_
    (fun _ _ => rfl) trivial trivial
  · intro r hr fd
    have hrn : r ≠ np := by
      rintro rfl
      simp [hnp] at hr
    simpa [hrn] using h.empty r (by simpa using hr) fd
  · intro r
    rw [show (Pc.forkDup np (i+1)).kid r = (s.pc p).kid r by rw [hc]; rfl]
    rfl
  · intro n j hr fd hfd
    obtain ⟨rfl,rfl⟩ : np = n ∧ i.val+1 = j := by simpa [child?] using hr
    have hfi : fd ≠ i := by
      rintro rfl
      omega
    simpa [hfi] using h.child p np i hcp fd (by omega)
  · intro r n j hrp hr
    have hnn : n ≠ np := by
      rintro rfl
      exact hrp (h.fork_unique hr hcp)
    simp [hnn]
  · intro r _ hr
    have hrn : r ≠ np := by
      rintro rfl
      exact hr (h.user_of_used hnp)
    simp [hrn]

lemma exitDone {n : ℕ} (hc : s.pc p = .exitLoop n)
    (hn : NOFILE ≤ n) : Tables ((s.setStage p .zombie).goto p .user) := by
  have hown := h.own p
  rw [hc] at hown
  refine h.change (q := .user) rfl (fun r hr hrp => by simp [hrp,hr]) (by simp) ?_ ?_
    (by simp [child?]) (fun _ _ _ _ _ => rfl) (fun _ _ _ => rfl) (fun _ _ => rfl) trivial trivial
  · intro r hr
    by_cases hrp : r = p
    · subst hrp
      exact fun fd => hown fd (by omega)
    · exact h.empty r (by simpa [hrp] using hr)
  · intro r
    rw [show user.kid r = (s.pc p).kid r by rw [hc]; rfl]
    by_cases hrp : r = p
    · simp [hrp,hal]
    · simp [hrp]

end

lemma reap (hz : s.stage p = .zombie) : Tables (s.setStage p .unused) where
  alive := by
    intro r hr
    have hrp : r ≠ p := by
      rintro rfl
      rw [h.alive r hr] at hz
      cases hz
    simpa [hrp] using h.alive r hr
  empty := by
    intro r hr
    by_cases hrp : r = p
    · subst hrp
      exact h.empty r (.inr hz)
    · exact h.empty r (by simpa [hrp] using hr)
  kids := by
    intro r
    have hr := h.kids r
    by_cases hrp : r = p
    · subst hrp
      simpa [hz] using hr
    · simpa [hrp] using hr
  child := h.child
  own := h.own
  kept := h.kept

lemma trans (ht : Trans s p t) : Tables t := by
  have hown := h.own p
  have hkept := h.kept p
  cases ht with
  | hop hh =>
    exact h.move (h.alive p hh.ne_user) rfl (fun _ _ => rfl) rfl (fun _ _ => rfl) hh.kid_eq
      (fun _ _ => hh.child) (hh.own hown) (hh.kept hkept)
  | closeMore hc | closedOther hc | pipeclose hc | kfree hc =>
    rw [hc] at hown hkept
    exact h.resume hc hown hkept rfl rfl rfl rfl nofun rfl
  | closeLast hc | pipecloseDead hc =>
    rw [hc] at hown hkept
    exact h.advance hc rfl hown hkept (fun _ _ => rfl) nofun rfl rfl rfl rfl
  | filedup hc | openSet hc =>
    exact h.advance hc rfl trivial (fun hv => nomatch hv) (fun _ _ => rfl) nofun rfl rfl rfl rfl
  | openAlloc hc | pipeAlloc hc | pipeAlloc1 hc | pipeKalloc hc =>
    rw [hc] at hkept
    exact h.advance hc rfl trivial hkept (fun _ _ => rfl) nofun rfl rfl rfl rfl
  | openFd hc =>
    exact h.advance hc rfl (by simp [Pc.Own]) trivial (fun r hr => by simp [hr]) nofun rfl rfl rfl rfl
  | pipeFd hc h0 h1 hne =>
    rw [hc] at hkept
    have hsv : s.ofile p = s.saved p := hkept
    exact h.advance hc rfl ⟨hne,by simp [Ne.symm hne],by simp⟩ ⟨hsv ▸ h0,hsv ▸ h1,by simp [hsv]⟩
      (fun r hr => by simp [hr]) nofun rfl rfl rfl rfl
  | @copyoutNone rf wf fd0 fd1 hc =>
    rw [hc] at hkept
    obtain ⟨h0,h1,ho⟩ := hkept
    refine h.advance hc rfl trivial ?_ (fun r hr => by simp [hr]) nofun rfl rfl rfl rfl
    intro _
    simp only [goto_ofile,setFd_ofile,update_self,goto_saved,setFd_saved,ho]
    funext i
    by_cases hi1 : i = fd1
    · simp [hi1,h1]
    · by_cases hi0 : i = fd0
      · subst hi0
        simp [hi1,h0]
      · simp [hi0,hi1]
  | forkAlloc hc hnp => exact h.forkAlloc (h.alive p (by simp [hc])) hc hnp
  | forkCopyNone hc =>
    rw [hc] at hkept
    exact h.forkLeave (h.alive p (by simp [hc])) (by rw [hc]; rfl) (.inr ⟨rfl,rfl⟩) (fun _ => hkept)
  | forkDup hc hf hr => exact h.forkDup (h.alive p (by simp [hc])) hc
  | forkDone hc hi =>
    exact h.forkLeave (h.alive p (by simp [hc])) (by rw [hc]; rfl) (.inl rfl) (fun hv => nomatch hv)
  | exitDone hc hi => exact h.exitDone (h.alive p (by simp [hc])) hc hi
  | _ => exact ⟨h.alive,h.empty,h.kids,h.child,h.own,h.kept⟩

/-- The entry into a system call, where the ghost takes the descriptors down. -/
lemma enter (hal : s.stage p = .alive) (hc : s.pc p = .user)
    (ht : Enter { s with saved := update s.saved p (s.ofile p) } p t) : Tables t := by
  have hkid : ∀ q : Pc, q.child? = none → ∀ np, q.kid np = (s.pc p).kid np := by
    intro q hq np
    simp only [kid,hq,hc,show user.child? = none from rfl]
  cases ht with
  | go hf =>
    refine h.move hal rfl (fun _ _ => rfl) rfl (fun r hr => by simp [hr]) (hkid _ ?_) ?_ ?_ ?_
    · cases hf <;> rfl
    · cases hf <;> simp [child?]
    · cases hf with
      | exitLoop => exact fun i hi => absurd hi (Nat.not_lt_zero _)
      | _ => trivial
    · have hsv : update s.saved p (s.ofile p) p = s.ofile p := update_self ..
      cases hf with
      | exitLoop => trivial
      | ret => exact fun _ => hsv.symm
      | _ => exact hsv.symm
  | dup hi hfd =>
    rename_i f fd i
    have hne : i ≠ fd := by
      rintro rfl
      rw [hi] at hfd
      cases hfd
    refine h.move hal rfl (fun r hr => by simp [hr]) rfl (fun r hr => by simp [hr]) (hkid _ rfl)
      (by simp [child?]) ⟨by simp,i,hne,?_⟩ trivial
    simpa [hne] using hi
  | close hi =>
    exact h.move hal rfl (fun r hr => by simp [hr]) rfl (fun r hr => by simp [hr]) (hkid _ rfl)
      (by simp [child?]) trivial (fun hv => nomatch hv)

end Tables

section Balance
variable {s t : Sys} {p r : Slot} {f : FileIdx} {k : Cont} {q : Pc}

lemma share_congr (ho : t.ofile r = s.ofile r) (hpc : t.pc r = s.pc r) :
    t.share r f = s.share r f := by
  simp only [share,ho,hpc]

lemma share_resume {u : Sys} (ho : u.ofile = s.ofile)
    (hc : ∀ fd, (s.pc p).hides fd = k.hides fd) :
    (resume u p k).share p f = slotsOf (s.ofile p) (s.pc p) f+k.refs f := by
  cases k with
  | ret v =>
    simp only [share,resume,goto_ofile,goto_pc,update_self,shareOf,ho]
    rw [slotsOf_same (q := s.pc p) (r := .ret v) fun fd => (hc fd).symm]
    rfl
  | close g v =>
    simp only [share,resume,goto_ofile,goto_pc,update_self,shareOf,ho]
    rw [slotsOf_same (q := s.pc p) (r := .fileclose g (.ret v)) fun fd => (hc fd).symm]
    rfl
  | exit fd =>
    have hs := slotsOf_change (o := s.ofile p) (u := update (s.ofile p) fd none)
      (q := s.pc p) (r := .exitLoop (fd+1)) (f := f) fd
      (fun i hi => update_of_ne hi _ _)
      (fun i hi => by rw [hc]; simp [hides,Cont.hides,Ne.symm hi])
    have h₀ : seen (s.ofile p) (s.pc p) f fd = 0 := by simp [seen,hc,Cont.hides]
    have h₁ : seen (update (s.ofile p) fd none) (.exitLoop (fd+1)) f fd = 0 := by
      simp [seen]
    simp only [share,resume,goto_ofile,setFd_ofile,goto_pc,update_self,
      shareOf,ho]
    rw [h₀,h₁] at hs
    simpa [refs,Cont.refs] using hs

lemma resume_pc_of_ne (u : Sys) (h : r ≠ p) : (resume u p k).pc r = u.pc r := by
  cases k <;> simp [resume,h]

lemma resume_ofile_of_ne (u : Sys) (h : r ≠ p) : (resume u p k).ofile r = u.ofile r := by
  cases k <;> simp [resume,h]

@[simp] lemma resume_file (u : Sys) : (resume u p k).file = u.file := by cases k <;> rfl
@[simp] lemma resume_pipe (u : Sys) : (resume u p k).pipe = u.pipe := by cases k <;> rfl
@[simp] lemma resume_panic (u : Sys) : (resume u p k).panic = u.panic := by cases k <;> rfl
@[simp] lemma resume_made (u : Sys) : (resume u p k).made = u.made := by cases k <;> rfl
@[simp] lemma resume_freed (u : Sys) : (resume u p k).freed = u.freed := by cases k <;> rfl

/-- The count of `f` stays the number of its references if it moves with those of `p`. -/
lemma count_of (h : (s.file f).ref = ∑ p, s.share p f)
    (hr : ∀ r, r ≠ p → t.share r f = s.share r f)
    (hb : (t.file f).ref+s.share p f = (s.file f).ref+t.share p f) :
    (t.file f).ref = ∑ p, t.share p f := by
  have hs := sum_change (g := fun r => s.share r f) (k := fun r => t.share r f) p hr
  simp only [←h] at hs
  omega

lemma share_goto {u : Sys} (ho : u.ofile p = s.ofile p)
    (hh : ∀ fd, q.hides fd = (s.pc p).hides fd) :
    (u.goto p q).share p f = slotsOf (s.ofile p) (s.pc p) f+q.refs f := by
  simp only [share,goto_ofile,goto_pc,update_self,shareOf,ho,
    slotsOf_same hh]

lemma share_setFd {u : Sys} {fd : Fd} {v : Option FileIdx} (ho : u.ofile p = s.ofile p)
    (hh : ∀ i, i ≠ fd → q.hides i = (s.pc p).hides i) :
    ((u.setFd p fd v).goto p q).share p f+seen (s.ofile p) (s.pc p) f fd =
      slotsOf (s.ofile p) (s.pc p) f+(if v = some f ∧ q.hides fd = false then 1 else 0)+
        q.refs f := by
  have hs := slotsOf_change (o := s.ofile p) (u := update (s.ofile p) fd v)
    (q := s.pc p) (r := q) (f := f) fd (fun i hi => update_of_ne hi _ _) hh
  have hv : seen (update (s.ofile p) fd v) q f fd =
      if v = some f ∧ q.hides fd = false then 1 else 0 := by
    simp only [seen,update_self]
  rw [hv] at hs
  simp only [share,goto_ofile,setFd_ofile,goto_pc,update_self,shareOf,ho]
  omega

lemma seen_of_none {o : Fd → Option FileIdx} {fd : Fd} (h : o fd = none) : seen o q f fd = 0 := by
  simp [seen,h]

end Balance

namespace Refs
variable {s t : Sys} {p r np : Slot} {f g : FileIdx} {k : Cont} {q : Pc}

/-- A file in the hands of `p` is not one that another process has just allocated. -/
lemma apart (h : Refs s) (ht : Tables s) (hrp : r ≠ p) (hp : 1 ≤ s.share p g)
    (hr : (s.pc r).fresh f) : f ≠ g := by
  rintro rfl
  have hle := add_le_sum (g := fun p => s.share p f) hrp
  have hone := one_le_of_fresh (ht.own r) hr
  rw [←h.count,(h.fresh r f hr).1] at hle
  have : 1 ≤ s.share r f := hone
  omega

lemma share_le_ref (h : Refs s) (p : Slot) (f : FileIdx) : s.share p f ≤ (s.file f).ref := by
  rw [h.count]
  exact le_sum (g := fun p => s.share p f) p

lemma one_le_of_refs (hq : 1 ≤ (s.pc p).refs f) : 1 ≤ s.share p f := by
  simp only [share,shareOf]
  omega

lemma one_le_of_slot {fd : Fd} (hfd : s.ofile p fd = some f)
    (hh : (s.pc p).hides fd = false) : 1 ≤ s.share p f := by
  have hle := seen_le (o := s.ofile p) (q := s.pc p) (f := f) fd
  simp only [seen,hfd,hh,and_self,if_true] at hle
  simp only [share,shareOf]
  omega

lemma count_resume {u : Sys} (h : Refs s) (ho : u.ofile = s.ofile) (hpc : u.pc = s.pc)
    (hh : ∀ fd, (s.pc p).hides fd = k.hides fd)
    (hb : (u.file f).ref+(s.pc p).refs f = (s.file f).ref+k.refs f) :
    ((resume u p k).file f).ref = ∑ r, (resume u p k).share r f := by
  refine count_of (p := p) (h.count f) (fun r hr => share_congr ?_ ?_) ?_
  · rw [resume_ofile_of_ne u hr,ho]
  · rw [resume_pc_of_ne u hr,hpc]
  · rw [share_resume ho hh,resume_file]
    simp only [share,shareOf]
    omega

lemma count_goto {u : Sys} (h : Refs s) (ho : u.ofile = s.ofile) (hpc : u.pc = s.pc)
    (hh : ∀ fd, q.hides fd = (s.pc p).hides fd)
    (hb : (u.file f).ref+(s.pc p).refs f = (s.file f).ref+q.refs f) :
    ((u.goto p q).file f).ref = ∑ r, (u.goto p q).share r f := by
  refine count_of (p := p) (h.count f) (fun r hr => share_congr ?_ ?_) ?_
  · rw [goto_ofile,ho]
  · simp only [goto_pc,update_of_ne hr,hpc]
  · rw [share_goto (s := s) (congrFun ho p) hh,goto_file]
    simp only [share,shareOf]
    omega

lemma count_setFd {u : Sys} {fd : Fd} {v : Option FileIdx} (h : Refs s) (ho : u.ofile = s.ofile)
    (hpc : u.pc = s.pc) (hh : ∀ i, i ≠ fd → q.hides i = (s.pc p).hides i)
    (hb : (u.file f).ref+(s.pc p).refs f+seen (s.ofile p) (s.pc p) f fd =
      (s.file f).ref+q.refs f+(if v = some f ∧ q.hides fd = false then 1 else 0)) :
    (((u.setFd p fd v).goto p q).file f).ref = ∑ r, ((u.setFd p fd v).goto p q).share r f := by
  refine count_of (p := p) (h.count f) (fun r hr => share_congr ?_ ?_) ?_
  · simp only [goto_ofile,setFd_ofile,update_of_ne hr,ho]
  · simp only [goto_pc,setFd_pc,update_of_ne hr,hpc]
  · have hs := share_setFd (f := f) (v := v) (congrFun ho p) hh
    have hself : s.share p f = slotsOf (s.ofile p) (s.pc p) f+(s.pc p).refs f := rfl
    have hfile : (((u.setFd p fd v).goto p q).file f).ref = (u.file f).ref := rfl
    omega

lemma count_setFds {fd0 fd1 : Fd} {v0 v1 : Option FileIdx} (h : Refs s) (hne : fd1 ≠ fd0)
    (hh : ∀ i, q.hides i = (s.pc p).hides i)
    (hb : (if v0 = some f ∧ (s.pc p).hides fd0 = false then 1 else 0)+
        (if v1 = some f ∧ (s.pc p).hides fd1 = false then 1 else 0)+q.refs f =
      seen (s.ofile p) (s.pc p) f fd0+seen (s.ofile p) (s.pc p) f fd1+(s.pc p).refs f) :
    ((((s.setFd p fd0 v0).setFd p fd1 v1).goto p q).file f).ref =
      ∑ r, (((s.setFd p fd0 v0).setFd p fd1 v1).goto p q).share r f := by
  refine count_of (p := p) (h.count f) (fun r hr => share_congr ?_ ?_) ?_
  · simp only [goto_ofile,setFd_ofile,update_of_ne hr]
  · simp only [goto_pc,setFd_pc,update_of_ne hr]
  · have hs := slotsOf_two (o := s.ofile p) (f := f) v0 v1 hne hh
    simp only [share,goto_ofile,setFd_ofile,goto_pc,update_self,
      goto_file,setFd_file,shareOf]
    omega

@[grind =] lemma ref_setFile (v : File) :
    ((s.setFile g v).file f).ref = if g = f then v.ref else (s.file f).ref := by
  by_cases hgf : g = f
  · simp [hgf]
  · simp [hgf,Ne.symm hgf]

variable (h : Refs s)
include h

lemma count_alloc (hg : (s.file g).ref = 0) (hh : ∀ fd, q.hides fd = (s.pc p).hides fd)
    (hq : ∀ f, q.refs f = (s.pc p).refs f+if g = f then 1 else 0) :
    (((s.setFile g { s.file g with ref := 1 }).goto p q).file f).ref =
      ∑ r, ((s.setFile g { s.file g with ref := 1 }).goto p q).share r f := by
  refine h.count_goto rfl rfl hh ?_
  grind

lemma count_trans (htab : Tables s) (ht : Trans s p t) (f : FileIdx) :
    (t.file f).ref = ∑ p, t.share p f := by
  cases ht with
  | hop hh =>
    refine count_of (p := p) (h.count f) (fun r hr => share_congr rfl ?_) ?_
    · simp only [goto_pc,update_of_ne hr]
    · have he := hh.shareOf_eq (f := f)
      simp only [share,goto_ofile,goto_pc,update_self,goto_file,he]
  | @closeMore g k hc hr =>
    refine h.count_resume rfl rfl (fun _ => by rw [hc]; rfl) ?_
    rw [hc,refs]
    grind
  | @closeLast g k hc hr =>
    refine h.count_goto rfl rfl (fun _ => by rw [hc]; rfl) ?_
    rw [hc,refs,refs]
    grind
  | closedOther hc | pipeclose hc | kfree hc =>
    exact h.count_resume rfl rfl (fun _ => by rw [hc]; rfl) (by rw [hc]; rfl)
  | pipecloseDead hc | forkAlloc hc | forkCopyNone hc | forkDone hc | exitDone hc =>
    exact h.count_goto rfl rfl (fun _ => by rw [hc]; rfl) (by rw [hc]; rfl)
  | @filedup g fd hc hr =>
    have hown := htab.own p
    rw [hc] at hown
    refine count_of (p := p) (h.count f) (fun r hr => share_congr rfl ?_) ?_
    · simp only [goto_pc,update_of_ne hr,setFile_pc]
    · -- the new descriptor counts from now on
      have hs := slotsOf_change (o := s.ofile p) (u := s.ofile p) (q := .filedup g fd)
        (r := .ret (some fd)) (f := f) fd (fun _ _ => rfl)
        (fun i hi => by simp [hides,Ne.symm hi])
      simp only [seen,hown.1,hides,decide_true,Bool.true_eq_false,and_false,if_false,
        Option.some_inj,and_true] at hs
      simp only [share,goto_ofile,setFile_ofile,goto_pc,update_self,
        goto_file,shareOf,hc,refs]
      grind
  | openAlloc hc hr | pipeAlloc hc hr | pipeAlloc1 hc hr =>
    exact h.count_alloc hr (fun _ => by rw [hc]; rfl) (fun _ => by rw [hc]; simp [refs])
  | @openFd o g fd hc hfd =>
    refine h.count_setFd rfl rfl (fun _ _ => by rw [hc]; rfl) ?_
    rw [seen_of_none hfd,hc]
    simp [refs,hides]
  | @openSet o g fd hc =>
    refine h.count_goto rfl rfl (fun _ => by rw [hc]; rfl) ?_
    by_cases hgf : f = g
    · subst hgf
      simp [hc,refs,openFile]
    · simp [hc,refs,hgf]
  | @pipeKalloc rf wf pi hc hr =>
    refine h.count_goto rfl rfl (fun _ => by rw [hc]; rfl) ?_
    rw [hc,refs,refs]
    by_cases hw : f = wf
    · subst hw
      by_cases hfr : f = rf
      · simp [hfr,readEnd,writeEnd]
      · simp [hfr,writeEnd]
    · by_cases hfr : f = rf
      · subst hfr
        simp [hw,readEnd]
      · simp [hw,hfr]
  | @pipeFd rf wf fd0 fd1 hc h0 h1 hne =>
    refine h.count_setFds hne (fun _ => by rw [hc]; rfl) ?_
    simp only [seen_of_none h0,seen_of_none h1,hc,hides,refs,Option.some_inj,and_true]
    omega
  | @copyoutNone rf wf fd0 fd1 hc =>
    have hown := htab.own p
    rw [hc] at hown
    refine h.count_setFds hown.1 (fun _ => by rw [hc]; rfl) ?_
    simp [seen,hown.2.1,hown.2.2,hc,hides,refs,Cont.refs]
  | @forkDup np g i hc hf hr =>
    have hcp : (s.pc p).child? = some (np,i.val) := by rw [hc]; rfl
    have huser := htab.user_of_used (htab.used hcp)
    have hnone := htab.child p np i hcp i le_rfl
    have hne : p ≠ np := by
      rintro rfl
      rw [huser] at hc
      cases hc
    -- the reference is the child's, in the descriptor that is set
    refine count_of (p := np) (h.count f) ?_ ?_
    · intro r hrn
      by_cases hrp : r = p
      · subst hrp
        rw [share_goto (s := s) (by simp [hrn]) (fun _ => by rw [hc]; rfl)]
        simp only [share,shareOf,hc,refs]
      · exact share_congr (by simp [hrn]) (by simp [hrp])
    · have hs := slotsOf_change (o := s.ofile np) (u := update (s.ofile np) i (some g))
        (q := .user) (r := .user) (f := f) i (fun i hi => update_of_ne hi _ _)
        (fun _ _ => rfl)
      simp only [seen,hnone,update_self,reduceCtorEq,if_false,Option.some_inj,
        hides,and_true] at hs
      simp only [share,goto_ofile,setFd_ofile,setFile_ofile,goto_pc,
        setFd_pc,setFile_pc,update_of_ne (Ne.symm hne),update_self,
        goto_file,setFd_file,huser,shareOf,refs]
      grind
  | _ => exact h.count f

/-- A write of `p` to a file leaves what others have just allocated alone. -/
lemma other (htab : Tables s) {v : File}
    (hg : 1 ≤ s.share p g ∨ (s.file g).ref = 0) (hr : r ≠ p) (hf : (s.pc r).fresh f) :
    update s.file g v f = s.file f := by
  apply update_of_ne
  obtain hg | hg := hg
  · exact h.apart htab hr hg hf
  · rintro rfl
    rw [(h.fresh r f hf).1] at hg
    omega

lemma fresh_of (hpc : ∀ r, r ≠ p → t.pc r = s.pc r)
    (hfile : ∀ f r, r ≠ p → (s.pc r).fresh f → t.file f = s.file f)
    (hp : ∀ f, (t.pc p).fresh f → (t.file f).ref = 1 ∧ (t.file f).type = .none) : t.Fresh := by
  intro r f hf
  by_cases hrp : r = p
  · subst hrp
    exact hp f hf
  · rw [hpc r hrp] at hf
    rw [hfile f r hrp hf]
    exact h.fresh r f hf

lemma fresh_goto {u : Sys} (hpc : u.pc = s.pc)
    (hfile : ∀ f r, r ≠ p → (s.pc r).fresh f → u.file f = s.file f)
    (hp : ∀ f, q.fresh f → (u.file f).ref = 1 ∧ (u.file f).type = .none) : (u.goto p q).Fresh := by
  refine h.fresh_of (t := u.goto p q) (p := p) (fun r hr => ?_) hfile ?_
  · simp only [goto_pc,update_of_ne hr,hpc]
  · simpa only [goto_pc,goto_file,update_self] using hp

lemma fresh_resume {u : Sys} (hpc : u.pc = s.pc)
    (hfile : ∀ f r, r ≠ p → (s.pc r).fresh f → u.file f = s.file f) : (resume u p k).Fresh := by
  refine h.fresh_of (p := p) (fun r hr => ?_) ?_ ?_
  · rw [resume_pc_of_ne u hr,hpc]
  · simpa only [resume_file] using hfile
  · intro g hg
    cases k <;> simp [resume,Pc.fresh] at hg

lemma fresh_alloc (htab : Tables s) (hg : (s.file g).ref = 0)
    (hq : ∀ f, q.fresh f → f = g ∨ (s.pc p).fresh f) :
    ((s.setFile g { s.file g with ref := 1 }).goto p q).Fresh := by
  refine h.fresh_goto (u := s.setFile g { s.file g with ref := 1 }) rfl
    (fun f r hr hf => h.other htab (.inr hg) hr hf) ?_
  intro f hf
  simp only [setFile_file]
  by_cases hfg : f = g
  · subst hfg
    simpa using h.typed f hg
  · rw [update_of_ne hfg]
    exact h.fresh p f ((hq f hf).resolve_left hfg)

lemma fresh_trans (htab : Tables s) (ht : Trans s p t) : t.Fresh := by
  cases ht with
  | hop hh =>
    refine h.fresh_goto rfl (fun _ _ _ _ => rfl) ?_
    intro g hg
    generalize s.pc p = q at hh
    cases hh <;> exact hg.elim
  | @closeMore g k hc hr =>
    refine h.fresh_resume rfl (fun f r hr hf => ?_)
    exact h.other htab (.inl (one_le_of_refs (by rw [hc]; simp [refs]))) hr hf
  | @closeLast g k hc hr =>
    refine h.fresh_goto rfl (fun f r hr hf => ?_) (fun _ hf => hf.elim)
    exact h.other htab (.inl (one_le_of_refs (by rw [hc]; simp [refs]))) hr hf
  | closedOther | pipeclose | kfree => exact h.fresh_resume rfl (fun _ _ _ _ => rfl)
  | pipecloseDead | pipeFd | copyoutNone | forkAlloc | forkCopyNone | forkDone | exitDone =>
    exact h.fresh_goto rfl (fun _ _ _ _ => rfl) (fun _ hf => hf.elim)
  | @filedup g fd hc hr =>
    refine h.fresh_goto rfl (fun f r hr hf => ?_) (fun _ hf => hf.elim)
    have hown := htab.own p
    rw [hc] at hown
    obtain ⟨-,i,hi,hg⟩ := hown
    exact h.other htab (.inl (one_le_of_slot hg (by rw [hc]; simp [hides,Ne.symm hi]))) hr hf
  | openAlloc hc hr | pipeAlloc hc hr =>
    exact h.fresh_alloc htab hr (fun f hf => .inl hf.symm)
  | openFd hc hfd =>
    refine h.fresh_goto rfl (fun _ _ _ _ => rfl) ?_
    intro g hg
    exact h.fresh p g (by rw [hc]; exact hg)
  | @openSet o g fd hc =>
    refine h.fresh_goto rfl (fun f r hr hf => ?_) (fun _ hf => hf.elim)
    exact h.other htab (.inl (one_le_of_fresh (htab.own p) (by rw [hc]; rfl))) hr hf
  | pipeAlloc1 hc hr =>
    refine h.fresh_alloc htab hr (fun f hf => ?_)
    obtain hf | hf := hf
    · exact .inr (by rw [hc]; exact hf)
    · exact .inl hf.symm
  | @pipeKalloc rf wf pi hc hr =>
    refine h.fresh_goto rfl (fun f r hr hf => ?_) (fun _ hf => hf.elim)
    have hrf : 1 ≤ s.share p rf := one_le_of_fresh (htab.own p) (by rw [hc]; exact .inl rfl)
    have hwf : 1 ≤ s.share p wf := one_le_of_fresh (htab.own p) (by rw [hc]; exact .inr rfl)
    simp only [setFile_file,setPipe_file]
    rw [update_of_ne (h.apart htab hr hwf hf),
      update_of_ne (h.apart htab hr hrf hf)]
  | forkDup hc hg hr =>
    refine h.fresh_goto rfl (fun f r hr hf => ?_) (fun _ hf => hf.elim)
    exact h.other htab (.inl (one_le_of_slot hg (by rw [hc]; rfl))) hr hf
  | _ => exact h.fresh

lemma typed_setFile {v : File} (hv : v.ref = 0 → v.type = .none) (f : FileIdx)
    (hf : (update s.file g v f).ref = 0) : (update s.file g v f).type = .none := by
  by_cases hfg : f = g
  · subst hfg
    rw [update_self] at hf ⊢
    exact hv hf
  · rw [update_of_ne hfg] at hf ⊢
    exact h.typed f hf

lemma typed_trans (ht : Trans s p t) (f : FileIdx) (hf : (t.file f).ref = 0) :
    (t.file f).type = .none := by
  cases ht with
  | closeMore hc hr =>
    rw [resume_file] at hf ⊢
    exact h.typed_setFile (fun hv => by simp only at hv; omega) f hf
  | closeLast hc hr => exact h.typed_setFile (fun _ => rfl) f hf
  | closedOther | pipeclose | kfree => exact h.typed f (by simpa using hf) ▸ by simp
  | filedup | forkDup => exact h.typed_setFile (fun hv => by simp only at hv; omega) f hf
  | openAlloc | pipeAlloc | pipeAlloc1 => exact h.typed_setFile (fun hv => by simp at hv) f hf
  | @openSet o g fd hc =>
    have hg := (h.fresh p g (by rw [hc]; rfl)).1
    exact h.typed_setFile (fun hv => by simp [openFile,hg] at hv) f hf
  | @pipeKalloc rf wf pi hc hr =>
    have hrf := (h.fresh p rf (by rw [hc]; exact .inl rfl)).1
    have hwf := (h.fresh p wf (by rw [hc]; exact .inr rfl)).1
    simp only [goto_file,setFile_file,setPipe_file] at hf ⊢
    by_cases hfw : f = wf
    · subst hfw
      by_cases hfr : f = rf
      · simp [hfr,writeEnd,readEnd,hrf] at hf
      · simp [writeEnd,hfr,hwf] at hf
    · rw [update_of_ne hfw] at hf ⊢
      exact h.typed_setFile (fun hv => by simp [readEnd,hrf] at hv) f hf
  | _ => exact h.typed f hf

lemma trans (htab : Tables s) (ht : Trans s p t) : Refs t where
  count := h.count_trans htab ht
  typed := h.typed_trans ht
  fresh := h.fresh_trans htab ht

lemma enter (hc : s.pc p = .user)
    (ht : Enter { s with saved := update s.saved p (s.ofile p) } p t) : Refs t := by
  refine ⟨fun f => ?_,by cases ht <;> exact h.typed,?_⟩
  · cases ht with
    | go hq =>
      refine h.count_goto rfl rfl ?_ ?_
      · cases hq <;> exact fun _ => by rw [hc]; rfl
      · rw [hc]
        cases hq <;> rfl
    | dup hi hfd =>
      refine h.count_setFd rfl rfl (fun i hi => by rw [hc]; simp [hides,Ne.symm hi]) ?_
      rw [seen_of_none hfd,hc]
      simp [refs,hides]
    | @close g i hi =>
      have hfd : s.ofile p i = some g := hi
      refine h.count_setFd rfl rfl (fun i hi => by rw [hc]; rfl) ?_
      rw [hc]
      simp [seen,hfd,refs,hides,Cont.refs]
  · cases ht with
    | go hq =>
      refine h.fresh_goto rfl (fun _ _ _ _ => rfl) ?_
      intro g hg
      cases hq <;> exact hg.elim
    | dup hi hfd | close hi => exact h.fresh_goto rfl (fun _ _ _ _ => rfl) (fun _ hf => hf.elim)

end Refs

end Xv6.Ftable
