import Xv6.Proc.Wait

/-! `kill` and the flag `killed`. A slot that is UNUSED keeps the pid 0, and `kill` does not look
at the state of a slot, so `kill(0)` can set the flag of a slot that is in no use; `allocproc`
does not clear it, and the next process of the slot is born killed. In all other runs the flag
of a process is set by its own faults and by `kill` with its pid, and by nothing else. -/
namespace Xv6.Process
open Xv6.Lib
open Function (update update_apply update_of_ne)

/-- A process is killed because of a fault of its own or of a `kill` with its pid, and a slot in
no use is as `freeproc` leaves it. -/
structure Unharmed (s : Sys) : Prop where
  cause : ∀ p, (s.proc p).state ≠ .unused → (s.proc p).killed = true →
    .fault ∈ (s.life p).causes ∨ .kill (s.proc p).pid ∈ (s.life p).causes
  unused : ∀ p, (s.proc p).state = .unused → (s.proc p).pid = 0 ∧ (s.proc p).killed = false

/-- No `kill(0)` is at a slot that is UNUSED. -/
def SparesUnused (s : Sys) : Event → Prop
  | .run p _ =>
    match s.pc p with
    | .killScan pid j => ∀ q ∈ slot? j, (s.proc q).state = .unused → pid ≠ 0
    | _ => True
  | _ => True

instance (s : Sys) (e : Event) : Decidable (SparesUnused s e) := by
  unfold SparesUnused
  split
  · split <;> infer_instance
  · infer_instance

lemma PState.ite_eq_unused {st : PState} :
    (if st = .sleeping then PState.runnable else st) = .unused ↔ st = .unused := by
  cases st <;> simp

namespace Unharmed
variable {s t : Sys} {p q : Slot} {c : Pc} {r : Record} (h : Unharmed s)
include h

lemma of_same (hk : ∀ q, (t.proc q).killed = (s.proc q).killed)
    (hp : ∀ q, (t.proc q).pid = (s.proc q).pid) (hl : t.life = s.life)
    (hs : ∀ q, (t.proc q).state = .unused ↔ (s.proc q).state = .unused) : Unharmed t := by
  constructor
  · intro q hq hkq
    rw [hl,hp q]
    exact h.cause q (mt (hs q).mpr hq) (hk q ▸ hkq)
  · intro q hq
    rw [hp q,hk q]
    exact h.unused q ((hs q).mp hq)

lemma goto : Unharmed (s.goto p c) :=
  h.of_same (fun _ => rfl) (fun _ => rfl) rfl (fun _ => Iff.rfl)

lemma leave {r : Ret} : Unharmed (s.leave p r) :=
  h.of_same (fun _ => rfl) (fun _ => rfl) rfl (fun _ => Iff.rfl)

lemma acquire : Unharmed (s.acquire p) :=
  h.of_same (fun _ => rfl) (fun _ => rfl) rfl (fun _ => Iff.rfl)

lemma release : Unharmed s.release :=
  h.of_same (fun _ => rfl) (fun _ => rfl) rfl (fun _ => Iff.rfl)

lemma record : Unharmed (s.record r) :=
  h.of_same (fun _ => rfl) (fun _ => rfl) rfl (fun _ => Iff.rfl)

lemma put {f : Proc → Proc} (hk : ∀ r, (f r).killed = r.killed)
    (hp : ∀ r, (f r).pid = r.pid)
    (hs : (f (s.proc p)).state = .unused ↔ (s.proc p).state = .unused) : Unharmed (s.put p f) := by
  apply h.of_same
  · intro q
    rw [Sys.put_proc,update_apply]
    split
    · rw [hk,‹q = p›]
    · rfl
  · intro q
    rw [Sys.put_proc,update_apply]
    split
    · rw [hp,‹q = p›]
    · rfl
  · rfl
  · intro q
    rw [Sys.put_proc,update_apply]
    split
    · rw [hs,‹q = p›]
    · rfl

lemma become {st : PState} (hst : st ≠ .unused)
    (hp : (s.proc p).state ≠ .unused) : Unharmed (s.become p st) :=
  h.put (fun _ => rfl) (fun _ => rfl) ⟨fun he => absurd he hst,fun he => absurd he hp⟩

lemma of_slot (ho : ∀ r, r ≠ q → t.proc r = s.proc r ∧ t.life r = s.life r)
    (hk : (t.proc q).state ≠ .unused → (t.proc q).killed = true →
      .fault ∈ (t.life q).causes ∨ .kill (t.proc q).pid ∈ (t.life q).causes)
    (hu : (t.proc q).state = .unused → (t.proc q).pid = 0 ∧ (t.proc q).killed = false) :
    Unharmed t := by
  constructor
  · intro r
    by_cases hr : r = q
    · exact hr ▸ hk
    · rw [(ho r hr).1,(ho r hr).2]
      exact h.cause r
  · intro r
    by_cases hr : r = q
    · exact hr ▸ hu
    · rw [(ho r hr).1]
      exact h.unused r

lemma freeproc : Unharmed (s.put p freeproc) := by
  apply h.of_slot (q := p)
  · intro r hr
    exact ⟨update_of_ne hr _ _,rfl⟩
  · simp [Process.freeproc]
  · simp [Process.freeproc]

lemma wakeupAt {o : Option Chan} : Unharmed (wakeupAt s p q o) := by
  unfold Process.wakeupAt
  split
  · rename_i hq
    exact h.become (by simp) (by simp [hq.2.1])
  · exact h

/-- A new process starts with `killed = 0`: the slot was in no use and the flag clear. -/
lemma allocproc (hn : (s.proc q).state = .unused) (ok : Bool) :
    Unharmed (allocproc s p q ok) := by
  cases ok with
  | false =>
    exact ((h.of_same (t := { s with nextpid := s.nextpid+1 }) (fun _ => rfl) (fun _ => rfl)
      rfl (fun _ => Iff.rfl)).freeproc).leave
  | true =>
    apply h.of_slot (q := q)
    · intro r hr
      exact ⟨update_of_ne hr _ _,update_of_ne hr _ _⟩
    · simp [Process.allocproc,(h.unused q hn).2]
    · simp [Process.allocproc]

lemma strike (hq : (s.proc q).state ≠ .unused) :
    Unharmed (strike s p q (s.proc q).pid) := by
  apply h.of_slot (q := q)
  · intro r hr
    simp only [Process.strike,if_neg hq]
    exact ⟨update_of_ne hr _ _,update_of_ne hr _ _⟩
  · simp [Process.strike,hq]
  · simp [Process.strike,PState.ite_eq_unused,hq]

lemma fault (hp : (s.proc p).state ≠ .unused) :
    Unharmed { s.put p (fun q => { q with killed := true }) with
      life := update s.life p ((s.life p).struck .fault) } := by
  apply h.of_slot (q := p)
  · intro r hr
    exact ⟨update_of_ne hr _ _,update_of_ne hr _ _⟩
  · simp
  · simp [hp]

lemma ran {ok : Bool} (hfam : Family s) (hspare : SparesUnused s (.run p ok))
    (hp : (s.proc p).state = .running) (ht : Ran s p ok t) : Unharmed t := by
  cases ht with
  | forkNext | reparentNext | reparentDone | wakeInitDone | wakeParentDone | child
  | notChild | scanned | waitSleep | killNext => exact h.goto
  | unblocked | woken | link | adopt =>
    exact goto (put h (fun _ => rfl) (fun _ => rfl) Iff.rfl)
  | forkFull | killNone => exact h.leave
  | alloc hc hn | allocFail hc hn => exact h.allocproc hn _
  | start hc => exact ((h.become (by simp) (by simp [hfam.used (.inr hc)])).goto).leave
  | exitLock | waitLock => exact h.acquire.goto
  | wakeInit | wakeParent => exact h.wakeupAt.goto
  | zombie hc =>
    exact goto (record (release (put h (fun _ => rfl) (fun _ => rfl) (by simp [hp]))))
  | copyoutFail | waitFail => exact h.release.leave
  | reap hc hpp hz => exact h.record.freeproc.release.leave
  | sleep hc => exact goto (release (put h (fun _ => rfl) (fun _ => rfl) (by simp [hp])))
  | @killHit q pid hk hq =>
    subst hq
    apply h.strike
    intro hu
    simp only [SparesUnused,hk] at hspare
    exact hspare q (slot?_eq_some.mpr rfl) hu (h.unused q hu).1

/-- One step of the table, if no `kill(0)` finds an UNUSED slot. -/
lemma trans {e : Event} (hfam : Family s) (hspare : SparesUnused s e)
    (ht : Trans s e t) : Unharmed t := by
  cases ht with
  | schedule hp | yield hp hl | wakeup hp => exact h.become (by simp) (by simp [hp])
  | call => exact h.goto
  | fault hp => exact h.fault (by simp [hp])
  | sleepOn hp hu => exact goto (put h (fun _ => rfl) (fun _ => rfl) (by simp [hp]))
  | run hp ht => exact h.ran hfam hspare hp ht

omit h in
lemma boot : Unharmed boot := by
  constructor
  · intro p _ hk
    by_cases hp : p = initproc <;> simp [Process.boot,hp] at hk
  · intro p hu
    by_cases hp : p = initproc <;> simp [Process.boot,hp] at hu ⊢

end Unharmed

/-- A step of `kill(pid)` changes no process with another pid, and it returns 0 only if there is
a process with this one. -/
lemma kill_step {s t : Sys} {p : Slot} {ok : Bool} {pid : Int32} {j : ℕ} (h : Unharmed s)
    (hspare : SparesUnused s (.run p ok)) (ht : Ran s p ok t)
    (hc : s.pc p = .killScan pid j) : (∀ q, (s.proc q).pid ≠ pid → t.proc q = s.proc q) ∧
      (t.pc p = .user → t.ret p = .val 0 → ∃ q, (s.proc q).state ≠ .unused ∧
        (s.proc q).pid = pid ∧ (t.proc q).killed = true) := by
  simp only [SparesUnused,hc] at hspare
  cases ht with
  | @killHit q pid' hk hq =>
    obtain ⟨rfl,rfl⟩ : pid = pid' ∧ j = q.val := by simpa [hc] using hk
    refine ⟨fun x hx => update_of_ne ?_ _ _,fun _ _ => ⟨q,fun hu => ?_,hq,by simp [strike]⟩⟩
    · rintro rfl
      exact hx hq
    · exact hspare q (slot?_eq_some.mpr rfl) hu (hq ▸ (h.unused q hu).1)
  | _ => simp_all

lemma wakeupAt_killed (s : Sys) (p q : Slot) (o : Option Chan) (x : Slot) :
    ((wakeupAt s p q o).proc x).killed = (s.proc x).killed := by
  unfold wakeupAt
  split
  · by_cases hx : x = q <;> simp [hx]
  · rfl

lemma flag_ran {s t : Sys} {p q : Slot} {ok : Bool} (ht : Ran s p ok t)
    (hs : (s.proc q).killed = false) (hk : (t.proc q).killed = true) :
    s.pc p = .killScan (s.proc q).pid q ∧ t = strike s p q (s.proc q).pid := by
  cases ht with
  | @killHit r pid hc hr =>
    by_cases hqr : q = r
    · subst hqr hr
      exact ⟨hc,rfl⟩
    · simp [strike,hqr,hs] at hk
  | wakeInit | wakeParent =>
    rw [Sys.goto_proc,wakeupAt_killed] at hk
    simp [hs] at hk
  | @alloc np | @allocFail np =>
    by_cases hqn : q = np
    · subst hqn
      simp [allocproc,freeproc,hs] at hk
    · simp [allocproc,hqn,hs] at hk
  | unblocked | link | adopt | zombie | reap | sleep | woken | start =>
    simp only [Sys.goto_proc,Sys.leave_proc,Sys.release_proc,Sys.record_proc,Sys.put_proc,
      Sys.become_proc,update_apply] at hk
    split at hk <;> simp_all [freeproc]
  | _ => exact absurd (hs.symm.trans hk) (by simp)

lemma flag_set {s t : Sys} {e : Event} {q : Slot} (ht : Trans s e t)
    (hs : (s.proc q).killed = false) (hk : (t.proc q).killed = true) :
    (e = .fault q ∧ (s.proc q).state = .running) ∨ ∃ p ok, e = .run p ok ∧
      s.pc p = .killScan (s.proc q).pid q ∧ t = strike s p q (s.proc q).pid := by
  cases ht with
  | @fault p hp =>
    by_cases hqp : q = p
    · subst hqp
      exact .inl ⟨rfl,hp⟩
    · simp [hqp,hs] at hk
  | schedule | yield | wakeup | sleepOn =>
    simp only [Sys.goto_proc,Sys.put_proc,Sys.become_proc,update_apply] at hk
    split at hk <;> simp_all
  | call => exact absurd (hs.symm.trans hk) (by simp)
  | run hp ht => exact .inr ⟨_,_,rfl,flag_ran ht hs hk⟩

lemma born_unharmed {s t : Sys} {e : Event} {q : Slot} (h : Unharmed s) (ht : Trans s e t)
    (hs : (s.proc q).state = .unused) (hq : (t.proc q).state ≠ .unused) :
    (t.proc q).killed = false := by
  refine Bool.eq_false_iff.mpr fun hk => ?_
  rcases flag_set ht (h.unused q hs).2 hk with ⟨-,hr⟩ | ⟨p,ok,-,-,rfl⟩
  · simp [hs] at hr
  · simp [strike,hs] at hq

/-- `kill` reaches only its target, in every run in which no `kill(0)` comes to an UNUSED slot:
the flag of a process is set in its lifetime by a fault of its own or by a `kill` with its pid. -/
theorem kill_reaches_target {es : List Event} {s : Sys} (h : Runs step SparesUnused boot es s) :
    (∀ p, (s.proc p).state ≠ .unused → (s.proc p).killed = true →
      .fault ∈ (s.life p).causes ∨ .kill (s.proc p).pid ∈ (s.life p).causes) ∧
    (∀ p ok t pid j, SparesUnused s (.run p ok) → step s (.run p ok) = some t →
      s.pc p = .killScan pid j → (∀ q, (s.proc q).pid ≠ pid → t.proc q = s.proc q) ∧
      (t.pc p = .user → t.ret p = .val 0 → ∃ q, (s.proc q).state ≠ .unused ∧
        (s.proc q).pid = pid ∧ (t.proc q).killed = true)) ∧
    (∀ e t q, step s e = some t → (s.proc q).killed = false → (t.proc q).killed = true →
      e = .fault q ∨ ∃ p ok, e = .run p ok ∧ s.pc p = .killScan (s.proc q).pid q) ∧
    ∀ e t q, SparesUnused s e → step s e = some t → (s.proc q).state = .unused →
      (t.proc q).state ≠ .unused → (t.proc q).killed = false := by
  have hinv : Family s ∧ Unharmed s :=
    h.invariant_and (fun _ _ _ hs _ ht => hs.trans (step_trans ht))
      (fun _ _ _ hf hu hc ht => hu.trans hf hc (step_trans ht)) ⟨family_boot,Unharmed.boot⟩
  refine ⟨hinv.2.cause,?_,?_,?_⟩
  · intro p ok t pid j hspare ht hc
    exact kill_step hinv.2 hspare (step_ran ht) hc
  · intro e t q ht hs hk
    rcases flag_set (step_trans ht) hs hk with ⟨he,-⟩ | ⟨p,ok,he,hc,-⟩
    · exact .inl he
    · exact .inr ⟨p,ok,he,hc⟩
  · intro e t q _ ht hs hq
    exact born_unharmed hinv.2 (step_trans ht) hs hq

/-- `initproc` forks a child and kills it by its pid. -/
def killChild : List Event :=
  [Event.schedule initproc,.fork initproc]++List.replicate 4 (Event.run initproc true)++
    [Event.kill initproc 2]++List.replicate 2 (Event.run initproc true)

theorem kill_reaches_target_child : ∃ s, Runs step SparesUnused boot killChild s ∧
    ∃ p, (s.proc p).state = .runnable ∧ (s.proc p).killed = true ∧
      (.fault ∈ (s.life p).causes ∨ .kill (s.proc p).pid ∈ (s.life p).causes) := by
  obtain ⟨s,h,hs,hk⟩ := Runs.exists_of_execIf step SparesUnused boot killChild
    (fun s => (s.proc ⟨1,by decide⟩).state = .runnable ∧ (s.proc ⟨1,by decide⟩).killed = true)
    (by decide +kernel)
  exact ⟨s,h,_,hs,hk,(kill_reaches_target h).1 _ (by simp [hs]) hk⟩

/-- `initproc` calls `kill(0)` and then forks. -/
def killUnused : List Event := [Event.schedule initproc,.kill initproc 0,.run initproc true]

/-- `kill(0)` returns 0 although no process has the pid 0, and a child forked afterwards is
RUNNABLE with its flag set. -/
theorem kill_strikes_unused :
    (∃ s t, Runs step (fun _ _ => True) boot killUnused s ∧
      step s (.run initproc true) = some t ∧ s.pc initproc = .killScan 0 1 ∧
      t.pc initproc = .user ∧ t.ret initproc = .val 0 ∧
      ∀ q, (s.proc q).pid = 0 → (s.proc q).state = .unused) ∧
    ∃ s p, Runs step (fun _ _ => True) boot (killUnused++[Event.run initproc true,.fork initproc]++
        List.replicate 4 (Event.run initproc true)) s ∧
      (s.proc p).state = .runnable ∧ (s.proc p).killed = true ∧ (s.life p).causes = [] := by
  constructor
  · obtain ⟨s,h,hpc,hpid,hs⟩ := Runs.exists_of_execIf step (fun _ _ => True) boot killUnused
      (fun s => s.pc initproc = .killScan 0 1 ∧
        (∀ q, (s.proc q).pid = 0 → (s.proc q).state = .unused) ∧
        (step s (.run initproc true)).map (fun t =>
          decide (t.pc initproc = .user ∧ t.ret initproc = .val 0)) = some true)
      (by decide +kernel)
    obtain ⟨t,ht,hret⟩ := Option.map_eq_some_iff.mp hs
    obtain ⟨hu,hv⟩ := of_decide_eq_true hret
    exact ⟨s,t,h,ht,hpc,hu,hv,hpid⟩
  · obtain ⟨s,h,hs⟩ := Runs.exists_of_execIf step (fun _ _ => True) boot
      (killUnused++[Event.run initproc true,.fork initproc]++List.replicate 4 (Event.run initproc true))
      (fun s => (s.proc ⟨1,by decide⟩).state = .runnable ∧
        (s.proc ⟨1,by decide⟩).killed = true ∧ (s.life ⟨1,by decide⟩).causes = [])
      (by decide +kernel)
    exact ⟨s,_,h,hs⟩

end Xv6.Process
