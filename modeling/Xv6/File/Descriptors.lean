import Xv6.File.Lifetime

/-! Descriptors and pipes over whole runs: at rest a file counts its descriptors, an end of a pipe
is open as long as a file stands for it, and a system call that fails gives back whatever it took. -/
namespace Xv6.Ftable
open Process (Slot initproc)
open Xv6.Lib Finset Option

variable {s t u : Sys} {p r : Slot} {e : Event} {es : List Event}

/-- Nobody is inside the kernel. -/
def Sys.Quiet (s : Sys) : Prop := ∀ p, s.pc p = .user

/-- The descriptors of all processes that point to `f`. -/
def Sys.slots (s : Sys) (f : FileIdx) : Finset (Slot × Fd) := {x | s.ofile x.1 x.2 = some f}

lemma shareOf_user (o : Fd → Option FileIdx) (f : FileIdx) :
    shareOf o .user f = ∑ fd, if o fd = some f then 1 else 0 := by
  simp [shareOf,slotsOf,seen,Pc.refs,Pc.hides]

lemma Inv.ref_eq_card (h : Inv s) (hq : s.Quiet) (f : FileIdx) :
    (s.file f).ref = (s.slots f).card := by
  have hshare : ∀ p, s.share p f = ∑ fd, if s.ofile p fd = some f then 1 else 0 := by
    intro p
    rw [Sys.share,hq p,shareOf_user]
  rw [h.refs.count,Sys.slots,card_filter,Fintype.sum_prod_type]
  exact sum_congr rfl fun p _ => hshare p

/-- An end is open exactly while a file stands for it. -/
lemma Inv.open_iff (h : Inv s) (hq : s.Quiet) {pi : ℕ} {v : Pipe} (hp : s.pipe pi = some v)
    (w : Bool) : v.isOpen w = true ↔ ∃ f, 0 < (s.file f).ref ∧ (s.file f).type = .pipe ∧
      (s.file f).pipe = pi ∧ (s.file f).writable = w := by
  have he := h.ends.ends pi w
  have hzero : ∑ p, (s.pc p).ends pi w = 0 := sum_eq_zero fun p _ => by rw [hq p]; rfl
  rw [hzero,hp,openOf] at he
  constructor
  · intro hv
    rw [if_pos hv] at he
    obtain ⟨f,-,hf⟩ := exists_ne_zero_of_sum_ne_zero (s := univ)
      (f := fun f => (s.file f).endOf pi w) (by omega)
    exact ⟨f,by simpa [File.endOf] using hf⟩
  · rintro ⟨f,hf⟩
    have hle := le_sum (g := fun f => (s.file f).endOf pi w) f
    have hone : (s.file f).endOf pi w = 1 := by rw [File.endOf,if_pos hf]
    by_contra hv
    rw [if_neg hv] at he
    omega

/-- The page of a file that stands for an end holds a pipe. -/
lemma Inv.pipe_of_file (h : Inv s) {f : FileIdx} (hr : 0 < (s.file f).ref)
    (ht : (s.file f).type = .pipe) : ∃ v, s.pipe (s.file f).pipe = some v := by
  have he := h.ends.ends (s.file f).pipe (s.file f).writable
  have hle := le_sum (g := fun g => (s.file g).endOf (s.file f).pipe (s.file f).writable) f
  have hone : (s.file f).endOf (s.file f).pipe (s.file f).writable = 1 := by
    simp [File.endOf,hr,ht]
  cases hp : s.pipe (s.file f).pipe with
  | none =>
    rw [hp,openOf] at he
    omega
  | some v => exact ⟨v,rfl⟩

/-- At rest no pipe is closed at both ends. -/
lemma Inv.not_dead (h : Inv s) (hq : s.Quiet) {pi : ℕ} {v : Pipe} (hp : s.pipe pi = some v) :
    v.readopen = true ∨ v.writeopen = true := by
  have he := h.ends.kfrees pi
  have hzero : ∑ p, (s.pc p).kfrees pi = 0 := sum_eq_zero fun p _ => by rw [hq p]; rfl
  rw [hzero,hp,deadOf] at he
  have hd : v.dead = false := by
    by_contra hd
    rw [if_pos (by simpa using hd)] at he
    omega
  simp only [Pipe.dead,Bool.and_eq_false_iff,Bool.not_eq_false'] at hd
  exact hd

section Failed

@[simp] lemma resume_saved (k : Cont) : (resume u p k).saved = u.saved := by cases k <;> rfl

lemma Trans.saved_eq (ht : Trans s p t) : t.saved = s.saved := by
  cases ht with
  | closeMore | closedOther | pipeclose | kfree => exact resume_saved _
  | _ => rfl

lemma step_call {c : Call} (hs : step s (.call p c) = some t) : s.stage p = .alive ∧ s.pc p = .user ∧
    Enter { s with saved := Function.update s.saved p (s.ofile p) } p t := by
  unfold step at hs
  obtain ⟨-,hs⟩ := ite_none_left_eq_some.mp hs
  obtain ⟨⟨hal,hc⟩,hs⟩ := ite_none_right_eq_some.mp hs
  exact ⟨hal,hc,enter_trans hs⟩

lemma Enter.saved_eq (ht : Enter s p t) : t.saved = s.saved := by
  cases ht <;> rfl

lemma step_saved (hs : step s e = some t) (he : ∀ c, e ≠ .call p c) : t.saved p = s.saved p := by
  cases e with
  | call q c =>
    obtain ⟨-,-,ht⟩ := step_call hs
    have hqp : p ≠ q := by
      rintro rfl
      exact he c rfl
    rw [ht.saved_eq]
    exact Function.update_of_ne hqp _ _
  | run q r =>
    unfold step at hs
    obtain ⟨-,hs⟩ := ite_none_left_eq_some.mp hs
    rw [(run_trans hs).saved_eq]
  | reap q =>
    unfold step at hs
    obtain ⟨-,hs⟩ := ite_none_left_eq_some.mp hs
    simp only [ite_none_right_eq_some,some_inj] at hs
    rw [←hs.2]
    rfl

/-- A position before which only the table of the process itself has changed. -/
def Pc.early : Pc → Bool
  | .user | .ret (some _) | .forkDup _ _ => false
  | _ => true

/-- A step of `p` that can still fail changes nothing of another process. -/
lemma Trans.frame (ht : Trans s p t) (hr : r ≠ p) : t.pc r = s.pc r ∧
    ((t.pc p).early = true → (s.pc p).early = true ∧ t.ofile r = s.ofile r) := by
  have hgo : ∀ (u : Sys) q, u.pc = s.pc → (u.goto p q).pc r = s.pc r := by
    intro u q hu
    simp only [Sys.goto_pc,Function.update_of_ne hr,hu]
  cases ht with
  | hop hh =>
    refine ⟨hgo s _ rfl,?_⟩
    simp only [Sys.goto_pc,Function.update_self,Sys.goto_ofile,and_true]
    generalize s.pc p = q at hh
    cases hh <;> simp [Pc.early]
  | closeMore hc | closedOther hc | pipeclose hc | kfree hc =>
    exact ⟨resume_pc_of_ne _ hr,fun _ => ⟨by rw [hc]; rfl,resume_ofile_of_ne _ hr⟩⟩
  | closeLast hc | pipecloseDead hc | openAlloc hc | pipeAlloc hc | pipeAlloc1 hc | pipeKalloc hc
  | forkAlloc hc | forkCopyNone hc => exact ⟨hgo _ _ rfl,fun _ => ⟨by rw [hc]; rfl,rfl⟩⟩
  | filedup hc | openSet hc | forkDup hc | forkDone hc | exitDone hc =>
    refine ⟨hgo _ _ rfl,fun hq => ?_⟩
    simp [Pc.early] at hq
  | openFd hc | pipeFd hc | copyoutNone hc =>
    exact ⟨hgo _ _ rfl,fun _ => ⟨by rw [hc]; rfl,by simp [hr]⟩⟩
  | _ => exact ⟨rfl,fun hq => ⟨hq,rfl⟩⟩

/-- A call that fails leaves its process with the descriptors and the references it had, whatever
the others did in between. -/
lemma call_failed {c : Call} {fs : List Event} (h : Inv s) (hcall : step s (.call p c) = some u)
    (hrun : Runs step (fun _ e => ∀ c', e ≠ .call p c') u fs t) (hret : t.pc p = .ret none) :
    t.ofile p = s.ofile p ∧ ∀ f, t.share p f = s.share p f := by
  obtain ⟨-,hc,hent⟩ := step_call hcall
  have hsaved : t.saved p = s.ofile p := by
    refine hrun.invariant (I := fun t => t.saved p = s.ofile p)
      (fun _ _ _ hs he ht => (step_saved ht he).trans hs) ?_
    rw [hent.saved_eq]
    exact Function.update_self ..
  have hinv : Inv t := hrun.invariant (fun _ _ _ hs _ ht => hs.step ht) (h.step hcall)
  have hkept := hinv.tables.kept p
  rw [hret] at hkept
  have ho : t.ofile p = s.ofile p := (hkept rfl).trans hsaved
  refine ⟨ho,fun f => ?_⟩
  simp only [Sys.share,shareOf,ho,hret,hc]
  rfl

/-- If nobody else runs meanwhile, everything is as it was. -/
lemma call_failed_alone {c : Call} {fs : List Event} (h : Inv s)
    (hcall : step s (.call p c) = some u)
    (hrun : Runs step (fun _ e => ∃ r, e = .run p r) u fs t) (hret : t.pc p = .ret none) :
    t.ofile = s.ofile ∧ ∀ f, (t.file f).ref = (s.file f).ref := by
  obtain ⟨hown,hshare⟩ := call_failed h hcall
    (hrun.mono fun _ _ ⟨r,he⟩ c' hc' => by rw [he] at hc'; cases hc') hret
  obtain ⟨-,-,hent⟩ := step_call hcall
  have hinv : Inv t := hrun.invariant (fun _ _ _ hs _ ht => hs.step ht) (h.step hcall)
  have hstart : ∀ r, r ≠ p → u.pc r = s.pc r ∧ u.ofile r = s.ofile r := by
    intro r hr
    cases hent <;> simp [hr]
  have hframe : ∀ r, r ≠ p → t.pc r = s.pc r ∧ ((t.pc p).early = true → t.ofile r = s.ofile r) := by
    intro r hr
    refine hrun.invariant (I := fun t => t.pc r = s.pc r ∧
      ((t.pc p).early = true → t.ofile r = s.ofile r)) ?_ ⟨(hstart r hr).1,fun _ => (hstart r hr).2⟩
    rintro a e b ⟨hpc,ho⟩ ⟨n,rfl⟩ hs
    unfold step at hs
    obtain ⟨-,hs⟩ := ite_none_left_eq_some.mp hs
    obtain ⟨hpc',ho'⟩ := (run_trans hs).frame hr
    exact ⟨hpc'.trans hpc,fun hq => (ho' hq).2.trans (ho (ho' hq).1)⟩
  have ho : ∀ r, t.ofile r = s.ofile r := by
    intro r
    by_cases hr : r = p
    · rw [hr,hown]
    · exact (hframe r hr).2 (by rw [hret]; rfl)
  refine ⟨funext ho,fun f => ?_⟩
  rw [hinv.refs.count,h.refs.count]
  refine sum_congr rfl fun r _ => ?_
  by_cases hr : r = p
  · rw [hr,hshare]
  · exact share_congr (ho r) (hframe r hr).1

end Failed

/-- In every run: no panic; a file without references has no type; the count of a file is made up
of what the processes hold, and at rest it is the number of descriptors; an end of a pipe is open
exactly while a file in use stands for it; each pipe is freed at most once, with both ends closed,
and it has been freed if it is in no page; and a call that returns -1 leaves its process with the
descriptors and references it came with, which is everything if nobody else ran meanwhile. -/
theorem descriptor_lifetimes (h : Runs step (fun _ _ => True) boot es s) :
    s.panic = none ∧
    (∀ f, (s.file f).ref = 0 → (s.file f).type = .none) ∧
    (∀ f, (s.file f).ref = ∑ p, s.share p f) ∧
    (s.Quiet → (∀ f, (s.file f).ref = (s.slots f).card) ∧
      ∀ pi v, s.pipe pi = some v → (v.readopen = true ∨ v.writeopen = true) ∧
        ∀ w, v.isOpen w = true ↔ ∃ f, 0 < (s.file f).ref ∧ (s.file f).type = .pipe ∧
          (s.file f).pipe = pi ∧ (s.file f).writable = w) ∧
    (∀ f, 0 < (s.file f).ref → (s.file f).type = .pipe → ∃ v, s.pipe (s.file f).pipe = some v) ∧
    s.freed.Nodup ∧
    (∀ i, i ∈ s.freed ↔ i < s.made ∧ ∀ pi v, s.pipe pi = some v → v.id ≠ i) ∧
    (∀ p pi k, s.pc p = .kfree pi k →
      ∃ v, s.pipe pi = some v ∧ v.readopen = false ∧ v.writeopen = false) ∧
    (∀ p c u fs t, step s (.call p c) = some u → t.pc p = .ret none →
      (Runs step (fun _ e => ∀ c', e ≠ .call p c') u fs t →
        t.ofile p = s.ofile p ∧ ∀ f, t.share p f = s.share p f) ∧
      (Runs step (fun _ e => ∃ r, e = .run p r) u fs t →
        t.ofile = s.ofile ∧ ∀ f, (t.file f).ref = (s.file f).ref)) := by
  have hi := inv_runs h
  refine ⟨hi.calm,hi.refs.typed,hi.refs.count,?_,fun f => hi.pipe_of_file,hi.ids.once,?_,?_,?_⟩
  · intro hq
    exact ⟨hi.ref_eq_card hq,fun pi v hp => ⟨hi.not_dead hq hp,hi.open_iff hq hp⟩⟩
  · intro i
    refine ⟨hi.ids.gone i,?_⟩
    rintro ⟨hlt,hne⟩
    obtain hm | ⟨pi,v,hp,he⟩ := hi.ids.all i hlt
    · exact hm
    · exact absurd he (hne pi v hp)
  · intro p pi k hc
    obtain ⟨v,hv,hd⟩ := hi.ends.dead_of_kfree hc
    exact ⟨v,hv,Pipe.dead_iff.mp hd⟩
  · intro p c u fs t hcall hret
    exact ⟨fun hr => call_failed hi hcall hr hret,fun hr => call_failed_alone hi hcall hr hret⟩

/-- `initproc` makes a pipe and a child; the child exits and is reaped, and `initproc` closes both
ends. -/
def sharedPipe : List Event :=
  let child : Slot := ⟨1,one_lt_NPROC⟩
  [Event.call initproc .pipe,.run initproc none,.run initproc none,.run initproc (some 5),
    .run initproc none,.run initproc (some 0),.run initproc none,
    .call initproc .fork,.run initproc (some 1),.run initproc (some 0)]++
    List.replicate 18 (Event.run initproc none)++
    [Event.call child .exit]++List.replicate 19 (Event.run child none)++[Event.reap child,
    .call initproc (.close 0)]++List.replicate 3 (Event.run initproc none)++
    [Event.call initproc (.close 1)]++List.replicate 4 (Event.run initproc none)

theorem descriptor_lifetimes_sharedPipe : ∃ s u, Runs step (fun _ _ => True) boot sharedPipe s ∧
    s.freed = [0] ∧ s.freed.Nodup ∧ s.pipe 5 = none ∧
    step s (.call initproc (.dup 3)) = some u ∧ u.pc initproc = .ret none ∧
    u.ofile = s.ofile := by
  obtain ⟨s,h,hf,hp,hs⟩ := Runs.exists_of_execIf step (fun _ _ => True) boot sharedPipe
    (fun s => s.freed = [0] ∧ s.pipe 5 = none ∧
      (step s (.call initproc (.dup 3))).map (fun u => u.pc initproc) = some (.ret none))
    (by decide +kernel)
  obtain ⟨u,hu,hret⟩ := map_eq_some_iff.mp hs
  obtain ⟨-,-,-,-,-,hnodup,-,-,hfail⟩ := descriptor_lifetimes h
  exact ⟨s,u,h,hf,hnodup,hp,hu,hret,((hfail _ _ u [] u hu hret).2 (.nil u)).1⟩

end Xv6.Ftable
