import Xv6.Proc.Table

/-! `sleep` and `wakeup` at the granularity of the operations on spinlocks: a step is one
`acquire` or `release` with the code up to the next one, and the swap of locks in `sleep` is cut
once more, between the release of `lk` and the switch to the scheduler. `p->lock` may be held
across a context switch; it then passes from a process to the scheduler or back. -/
namespace Xv6.Sched
open Xv6.Lib Xv6.Process Option
open Function (update update_self update_apply update_of_ne)

/-- The fields of `struct proc` that `p->lock` protects and these functions use. A channel is an
address, 0 for none. -/
structure Proc where
  state : PState
  chan : ℕ
  killed : Bool
  pid : Int32
  deriving DecidableEq

/-- Who holds a `p->lock`. -/
inductive Owner
  | thread (p : Slot)
  | scheduler
  deriving DecidableEq

/-- Whether a process has a CPU; `switched` is the time between the switch to it and its release
of its own `p->lock`. -/
inductive Cpu
  | off | switched | on
  deriving DecidableEq

/-- What a process is doing in the kernel. At a `Held` position it holds a `p->lock`. -/
inductive Pc
  | dead
  | idle
  | sleepLock (chan lk : ℕ)
  | sleepRelease (chan lk : ℕ)
  | sleepSet (chan lk : ℕ)
  | asleep (chan lk : ℕ)
  | relock (lk : ℕ)
  | wakeup (chan j : ℕ)
  | wakeupHeld (chan j : ℕ)
  | kill (pid : Int32) (j : ℕ)
  | killHeld (pid : Int32) (j : ℕ) (found : Bool)
  | forkHeld (np : Slot)
  | forkStart (np : Slot)
  | held (q : Slot)
  | exitHeld (lk : ℕ)
  deriving DecidableEq

/-- The state. `locks p` are the other spinlocks that `p` holds; `calls p` is a ghost, the number
of calls of `sleep` made from slot `p`. -/
structure Sys where
  proc : Slot → Proc
  cpu : Slot → Cpu
  plock : Slot → Option Owner
  pc : Slot → Pc
  locks : Slot → List ℕ
  calls : Slot → ℕ

namespace Sys

@[simps]
def goto (s : Sys) (p : Slot) (c : Pc) : Sys := { s with pc := update s.pc p c }

@[simps]
def put (s : Sys) (p : Slot) (f : Proc → Proc) : Sys :=
  { s with proc := update s.proc p (f (s.proc p)) }

@[simps]
def own (s : Sys) (q : Slot) (o : Option Owner) : Sys :=
  { s with plock := update s.plock q o }

@[simps]
def switch (s : Sys) (p : Slot) (c : Cpu) : Sys := { s with cpu := update s.cpu p c }

@[simps]
def hold (s : Sys) (p : Slot) (ls : List ℕ) : Sys :=
  { s with locks := update s.locks p ls }

/-- Nobody holds the spinlock `l`. -/
def Free (s : Sys) (l : ℕ) : Prop := ∀ p, l ∉ s.locks p

instance (s : Sys) (l : ℕ) : Decidable (s.Free l) := inferInstanceAs (Decidable (∀ _, _))

end Sys

/-- Process `p` acquires `q->lock` and executes `f` on the slot. -/
def visit (s : Sys) (p q : Slot) (f : Proc → Proc) (c : Pc) : Option Sys :=
  if s.plock q = none then some (((s.own q (some (.thread p))).put q f).goto p c) else none

/-- Process `p` releases `q->lock`. -/
def quit (s : Sys) (p q : Slot) (c : Pc) : Option Sys :=
  if s.plock q = some (.thread p) then some ((s.own q none).goto p c) else none

/-- `sched`, called by `p`: it must hold `p->lock` and no other spinlock, and the scheduler gets
the lock. -/
def sched (s : Sys) (p : Slot) (c : Pc) : Option Sys :=
  if s.plock p = some (.thread p) ∧ s.locks p = [] then
    some (((s.own p (some .scheduler)).switch p .off).goto p c)
  else none

-- if(p->state == SLEEPING && p->chan == chan) p->state = RUNNABLE;
def wake (chan : ℕ) (q : Proc) : Proc :=
  if q.state = .sleeping ∧ q.chan = chan then { q with state := .runnable } else q

-- the body of the loop of kill
def strike (pid : Int32) (q : Proc) : Proc :=
  if q.pid = pid then
    { q with killed := true, state := if q.state = .sleeping then .runnable else q.state }
  else q

def freeproc (q : Proc) : Proc := { q with pid := 0, chan := 0, killed := false, state := .unused }

/-- The next step of a process that has a CPU. -/
def run (s : Sys) (p : Slot) : Option Sys :=
  match s.pc p with
  | .dead | .idle | .asleep _ _ => none
  | .sleepLock chan lk => visit s p p id (.sleepRelease chan lk)
  | .sleepRelease chan lk =>
    if lk ∈ s.locks p then some ((s.hold p ((s.locks p).erase lk)).goto p (.sleepSet chan lk))
    else none
  | .sleepSet chan lk =>
    sched (s.put p fun q => { q with chan := chan, state := .sleeping }) p (.asleep chan lk)
  | .relock lk =>
    if s.Free lk then some ((s.hold p (lk::s.locks p)).goto p .idle) else none
  | .wakeup chan j =>
    match slot? j with
    | none => some (s.goto p .idle)
    | some q =>
      if q = p then some (s.goto p (.wakeup chan (j+1)))
      else visit s p q (wake chan) (.wakeupHeld chan j)
  | .wakeupHeld chan j => (slot? j).bind fun q => quit s p q (.wakeup chan (j+1))
  | .kill pid j =>
    match slot? j with
    | none => some (s.goto p .idle)
    | some q => visit s p q (strike pid) (.killHeld pid j ((s.proc q).pid = pid))
  | .killHeld pid j found =>
    (slot? j).bind fun q => quit s p q (if found then .idle else .kill pid (j+1))
  | .forkHeld np => quit s p np (.forkStart np)
  | .forkStart np =>
    (visit s p np (fun q => { q with state := .runnable }) (.held np)).map fun t =>
      (t.goto np .idle).switch np .off
  | .held q => quit s p q .idle
  | .exitHeld lk =>
    if lk ∈ s.locks p then sched (s.hold p ((s.locks p).erase lk)) p .dead else none

/-- On return from `sched`, or in `forkret`, a process releases its own `p->lock`. -/
def resume (s : Sys) (p : Slot) : Option Sys :=
  match s.pc p with
  | .asleep _ lk =>
    (quit (s.put p fun q => { q with chan := 0 }) p p (.relock lk)).map (·.switch p .on)
  | c => (quit s p p c).map (·.switch p .on)

/-- The positions at which a process holds no `p->lock`. -/
def Pc.outside : Pc → Bool
  | idle | sleepLock _ _ | relock _ | wakeup _ _ | kill _ _ | forkStart _ => true
  | _ => false

/-- What can happen next. A process in the kernel takes and gives back spinlocks and calls the
functions of `proc.c`; a scheduler looks at a slot, and releases the lock of a slot. -/
inductive Event
  | acquire (p : Slot) (l : ℕ)
  | release (p : Slot) (l : ℕ)
  | sleep (p : Slot) (chan lk : ℕ)
  | wakeup (p : Slot) (chan : ℕ)
  | kill (p : Slot) (pid : Int32)
  | fork (p np : Slot) (pid : Int32)
  | forkFail (p : Slot)
  | wait (p q : Slot)
  | exit (p : Slot) (lk : ℕ)
  | yield (p : Slot)
  | run (p : Slot)
  | resume (p : Slot)
  | schedule (p : Slot)
  | leave (p : Slot)
  deriving DecidableEq

def Sys.inKernel (s : Sys) (p : Slot) : Bool := decide (s.cpu p = .on ∧ s.pc p = .idle)

def step (s : Sys) : Event → Option Sys
  | .acquire p l =>
    if s.inKernel p ∧ s.Free l then some (s.hold p (l::s.locks p)) else none
  | .release p l =>
    if s.inKernel p ∧ l ∈ s.locks p then some (s.hold p ((s.locks p).erase l)) else none
  | .sleep p chan lk =>
    if s.inKernel p ∧ lk ∈ s.locks p then
      some { s.goto p (.sleepLock chan lk) with calls := update s.calls p (s.calls p+1) }
    else none
  | .wakeup p chan => if s.inKernel p then some (s.goto p (.wakeup chan 0)) else none
  | .kill p pid => if s.inKernel p then some (s.goto p (.kill pid 0)) else none
  | .fork p np pid =>
    -- one slot of the scan of allocproc
    if s.inKernel p then
      if (s.proc np).state = .unused then
        visit s p np (fun q => { q with pid := pid, state := .used }) (.forkHeld np)
      else visit s p np id (.held np)
    else none
  | .forkFail p =>
    -- allocproc or uvmcopy runs out of memory; np->lock is released next
    if s.cpu p = .on then
      match s.pc p with
      | .forkHeld np => some ((s.put np freeproc).goto p (.held np))
      | _ => none
    else none
  | .wait p q =>
    -- one slot of the scan of wait
    if s.inKernel p then
      if (s.proc q).state = .zombie then
        visit s p q freeproc (.held q)
      else visit s p q id (.held q)
    else none
  | .exit p lk =>
    if s.inKernel p then visit s p p (fun q => { q with state := .zombie }) (.exitHeld lk) else none
  | .yield p =>
    if s.cpu p = .on ∧ (s.pc p).outside then
      (visit s p p (fun q => { q with state := .runnable }) (s.pc p)).bind fun t =>
        sched t p (s.pc p)
    else none
  | .run p => if s.cpu p = .on then run s p else none
  | .resume p => if s.cpu p = .switched then resume s p else none
  | .schedule p =>
    if s.plock p = none then
      if (s.proc p).state = .runnable then
        some (((s.own p (some (.thread p))).put p fun q => { q with state := .running }).switch p
          .switched)
      else some (s.own p (some .scheduler))
    else none
  | .leave p => if s.plock p = some .scheduler then some (s.own p none) else none

/-- Any table in which nobody is asleep and nobody has called `sleep` yet. -/
structure Sys.Initial (s : Sys) : Prop where
  awake : ∀ p, (s.proc p).state ≠ .sleeping
  idle : ∀ p, s.pc p = .idle ∨ s.pc p = .dead

/-- The positions outside `sleep` and `wakeup`; `relock` is past everything that matters. -/
def Pc.calm : Pc → Bool
  | sleepLock _ _ | sleepRelease _ _ | sleepSet _ _ | asleep _ _ | wakeup _ _
  | wakeupHeld _ _ => false
  | _ => true

/-- The positions between the acquire of `p->lock` in `sleep` and the switch. -/
def Pc.swapping : Pc → Bool
  | sleepRelease _ _ | sleepSet _ _ => true
  | _ => false

lemma Pc.not_swapping {c : Pc} (h : c.calm = true) : c.swapping = false := by
  cases c <;> first | rfl | cases h

lemma Pc.swapping_outside {c : Pc} (h : c.outside = true) : c.swapping = false := by
  cases c <;> first | rfl | cases h

/-- A change of a slot that puts nobody to sleep. -/
def Tame (f : Proc → Proc) : Prop :=
  ∀ q, (f q).state = .sleeping → q.state = .sleeping ∧ (f q).chan = q.chan

/-- Everything a step can do. -/
inductive Trans (s : Sys) : Sys → Prop
  | hold {p ls} : Trans s (s.hold p ls)
  | relock {p l ls} (hp : s.cpu p = .on) (hc : s.pc p = .relock l) :
      Trans s ((s.hold p ls).goto p .idle)
  | sleep {p chan lk} (hp : s.cpu p = .on) (hc : s.pc p = .idle) :
      Trans s { s.goto p (.sleepLock chan lk) with calls := update s.calls p (s.calls p+1) }
  | wakeup {p chan} (hp : s.cpu p = .on) (hc : s.pc p = .idle) : Trans s (s.goto p (.wakeup chan 0))
  | move {p c} (hp : s.cpu p = .on) (hc : (s.pc p).calm = true) (hc' : c.calm = true) :
      Trans s (s.goto p c)
  | visit {p q f c} (hp : s.cpu p = .on) (hc : (s.pc p).calm = true) (hc' : c.calm = true)
      (hf : Tame f) (hq : s.plock q = none) :
      Trans s (((s.own q (some (.thread p))).put q f).goto p c)
  | revise {p q f c} (hp : s.cpu p = .on) (hc : (s.pc p).calm = true) (hc' : c.calm = true)
      (hf : Tame f) : Trans s ((s.put q f).goto p c)
  | quit {p q c} (hp : s.cpu p ≠ .off) (hc : (s.pc p).calm = true) (hc' : c.calm = true)
      (hq : s.plock q = some (.thread p)) : Trans s ((s.own q none).goto p c)
  | sleepLock {p chan lk} (hp : s.cpu p = .on) (hc : s.pc p = .sleepLock chan lk)
      (hq : s.plock p = none) :
      Trans s (((s.own p (some (.thread p))).put p id).goto p (.sleepRelease chan lk))
  | sleepRelease {p chan lk} (hp : s.cpu p = .on) (hc : s.pc p = .sleepRelease chan lk)
      (hl : lk ∈ s.locks p) :
      Trans s ((s.hold p ((s.locks p).erase lk)).goto p (.sleepSet chan lk))
  | sleepSet {p chan lk} (hp : s.cpu p = .on) (hc : s.pc p = .sleepSet chan lk) :
      Trans s ((((s.put p fun q => { q with chan := chan, state := .sleeping }).own p
        (some .scheduler)).switch p .off).goto p (.asleep chan lk))
  | wakeupEnd {p chan j} (hp : s.cpu p = .on) (hc : s.pc p = .wakeup chan j) (hj : NPROC ≤ j) :
      Trans s (s.goto p .idle)
  | wakeupSkip {p chan} (hp : s.cpu p = .on) (hc : s.pc p = .wakeup chan p.val) :
      Trans s (s.goto p (.wakeup chan (p+1)))
  | wakeupVisit {p q chan} (hp : s.cpu p = .on) (hc : s.pc p = .wakeup chan q.val) (hqp : q ≠ p)
      (hq : s.plock q = none) :
      Trans s (((s.own q (some (.thread p))).put q (wake chan)).goto p (.wakeupHeld chan q))
  | wakeupQuit {p} {q : Slot} {chan} (hp : s.cpu p = .on) (hc : s.pc p = .wakeupHeld chan q.val)
      (hq : s.plock q = some (.thread p)) :
      Trans s ((s.own q none).goto p (.wakeup chan (q+1)))
  | start {p np} (hp : s.cpu p = .on) (hc : s.pc p = .forkStart np) (hq : s.plock np = none) :
      Trans s (((((s.own np (some (.thread p))).put np fun q =>
        { q with state := .runnable }).goto p (.held np)).goto np .idle).switch np .off)
  | exit {p lk ls} (hp : s.cpu p = .on) (hc : s.pc p = .exitHeld lk) :
      Trans s ((((s.hold p ls).own p (some .scheduler)).switch p .off).goto p .dead)
  | yield {p} (hp : s.cpu p = .on) (hc : (s.pc p).outside = true) :
      Trans s ((((((s.own p (some (.thread p))).put p fun q =>
        { q with state := .runnable }).goto p (s.pc p)).own p (some .scheduler)).switch p .off).goto
          p (s.pc p))
  | awaken {p chan lk} (hp : s.cpu p = .switched) (hc : s.pc p = .asleep chan lk)
      (hq : s.plock p = some (.thread p)) :
      Trans s ((((s.put p fun q => { q with chan := 0 }).own p none).goto p
        (.relock lk)).switch p .on)
  | resume {p} (hp : s.cpu p = .switched) (hc : ∀ chan lk, s.pc p ≠ .asleep chan lk)
      (hq : s.plock p = some (.thread p)) :
      Trans s (((s.own p none).goto p (s.pc p)).switch p .on)
  | schedule {p} (hq : s.plock p = none) (hs : (s.proc p).state = .runnable) :
      Trans s (((s.own p (some (.thread p))).put p fun q =>
        { q with state := .running }).switch p .switched)
  | look {p} (hq : s.plock p = none) : Trans s (s.own p (some .scheduler))
  | leave {p} (hq : s.plock p = some .scheduler) : Trans s (s.own p none)

lemma tame_id : Tame id := fun _ h => ⟨h,rfl⟩

lemma tame_wake (chan : ℕ) : Tame (wake chan) := by
  intro q h
  unfold wake at h ⊢
  split at h
  · cases h
  · rw [if_neg ‹_›]
    exact ⟨h,rfl⟩

lemma tame_strike (pid : Int32) : Tame (strike pid) := by
  intro q h
  unfold strike at h ⊢
  split at h
  · by_cases hs : q.state = .sleeping <;> simp [hs] at h
  · rw [if_neg ‹_›]
    exact ⟨h,rfl⟩

lemma tame_of_state {f : Proc → Proc} (h : ∀ q, (f q).state ≠ .sleeping) : Tame f :=
  fun q hq => absurd hq (h q)

lemma tame_freeproc : Tame freeproc := tame_of_state (by simp [freeproc])

lemma Tame.update {s t : Sys} {q r : Slot} {f : Proc → Proc} (hf : Tame f)
    (ht : t.proc = update s.proc q (f (s.proc q))) (hr : (t.proc r).state = .sleeping) :
    (s.proc r).state = .sleeping ∧ (t.proc r).chan = (s.proc r).chan := by
  rw [ht,update_apply] at hr ⊢
  split_ifs at hr ⊢ with hrq
  · rw [hrq]
    exact hf _ hr
  · exact ⟨hr,rfl⟩

section
variable {s t : Sys} {p q : Slot} {f : Proc → Proc} {c : Pc} {e : Event}

lemma visit_eq (h : visit s p q f c = some t) : s.plock q = none ∧
    ((s.own q (some (.thread p))).put q f).goto p c = t := by
  simpa only [visit,ite_none_right_eq_some,some_inj] using h

lemma quit_eq (h : quit s p q c = some t) : s.plock q = some (.thread p) ∧
    (s.own q none).goto p c = t := by
  simpa only [quit,ite_none_right_eq_some,some_inj] using h

lemma sched_eq (h : sched s p c = some t) : s.plock p = some (.thread p) ∧ s.locks p = [] ∧
    ((s.own p (some .scheduler)).switch p .off).goto p c = t := by
  simpa only [sched,ite_none_right_eq_some,some_inj,and_assoc] using h

lemma run_trans (hp : s.cpu p = .on) (h : run s p = some t) : Trans s t := by
  unfold run at h
  cases hc : s.pc p with
  | dead | idle | asleep => simp [hc] at h
  | sleepLock chan lk =>
    simp only [hc] at h
    obtain ⟨hq,rfl⟩ := visit_eq h
    exact .sleepLock hp hc hq
  | sleepRelease chan lk =>
    simp only [hc,ite_none_right_eq_some,some_inj] at h
    exact h.2 ▸ .sleepRelease hp hc h.1
  | sleepSet chan lk =>
    simp only [hc] at h
    obtain ⟨-,-,rfl⟩ := sched_eq h
    exact .sleepSet hp hc
  | relock lk =>
    simp only [hc,ite_none_right_eq_some,some_inj] at h
    exact h.2 ▸ .relock hp hc
  | wakeup chan j =>
    simp only [hc] at h
    cases hj : slot? j with
    | none =>
      simp only [hj,some_inj] at h
      exact h ▸ .wakeupEnd hp hc (slot?_eq_none.mp hj)
    | some q =>
      obtain rfl := slot?_eq_some.mp hj
      simp only [hj] at h
      split at h
      · subst q
        exact some_inj.mp h ▸ .wakeupSkip hp hc
      · obtain ⟨hq,rfl⟩ := visit_eq h
        exact .wakeupVisit hp hc ‹_› hq
  | wakeupHeld chan j =>
    simp only [hc] at h
    obtain ⟨q,hj,h⟩ := bind_eq_some_iff.mp h
    obtain rfl := slot?_eq_some.mp hj
    obtain ⟨hq,rfl⟩ := quit_eq h
    exact .wakeupQuit hp hc hq
  | kill pid j =>
    simp only [hc] at h
    cases hj : slot? j with
    | none =>
      simp only [hj,some_inj] at h
      exact h ▸ .move hp (by rw [hc]; rfl) rfl
    | some q =>
      simp only [hj] at h
      obtain ⟨hq,rfl⟩ := visit_eq h
      exact .visit hp (by rw [hc]; rfl) rfl (tame_strike pid) hq
  | killHeld pid j found =>
    simp only [hc] at h
    obtain ⟨q,-,h⟩ := bind_eq_some_iff.mp h
    obtain ⟨hq,rfl⟩ := quit_eq h
    exact .quit (by simp [hp]) (by rw [hc]; rfl) (by cases found <;> rfl) hq
  | forkHeld np | held q =>
    simp only [hc] at h
    obtain ⟨hq,rfl⟩ := quit_eq h
    exact .quit (by simp [hp]) (by rw [hc]; rfl) rfl hq
  | forkStart np =>
    simp only [hc] at h
    obtain ⟨u,hu,rfl⟩ := map_eq_some_iff.mp h
    obtain ⟨hq,rfl⟩ := visit_eq hu
    exact .start hp hc hq
  | exitHeld lk =>
    simp only [hc,ite_none_right_eq_some] at h
    obtain ⟨-,-,rfl⟩ := sched_eq h.2
    exact .exit hp hc

lemma step_trans (h : step s e = some t) : Trans s t := by
  have calm : ∀ {p}, s.inKernel p = true → s.cpu p = .on ∧ s.pc p = .idle := by
    intro p hp
    simpa only [Sys.inKernel,decide_eq_true_eq] using hp
  have enter : ∀ {p q f c}, s.inKernel p = true → Tame f → c.calm = true →
      visit s p q f c = some t → Trans s t := by
    intro p q f c hk hf hc' h
    obtain ⟨hq,rfl⟩ := visit_eq h
    exact .visit (calm hk).1 (by rw [(calm hk).2]; rfl) hc' hf hq
  cases e with
  | run p =>
    simp only [step,ite_none_right_eq_some] at h
    exact run_trans h.1 h.2
  | acquire p l | release p l =>
    simp only [step,ite_none_right_eq_some,some_inj] at h
    exact h.2 ▸ .hold
  | sleep p chan lk =>
    simp only [step,ite_none_right_eq_some,some_inj] at h
    exact h.2 ▸ .sleep (calm h.1.1).1 (calm h.1.1).2
  | wakeup p chan =>
    simp only [step,ite_none_right_eq_some,some_inj] at h
    exact h.2 ▸ .wakeup (calm h.1).1 (calm h.1).2
  | kill p pid =>
    simp only [step,ite_none_right_eq_some,some_inj] at h
    exact h.2 ▸ .move (calm h.1).1 (by rw [(calm h.1).2]; rfl) rfl
  | fork p np pid =>
    simp only [step,ite_none_right_eq_some] at h
    obtain ⟨hk,h⟩ := h
    split at h
    · exact enter hk (tame_of_state (by simp)) rfl h
    · exact enter hk tame_id rfl h
  | forkFail p =>
    simp only [step,ite_none_right_eq_some] at h
    obtain ⟨hp,h⟩ := h
    split at h
    · exact some_inj.mp h ▸ .revise hp (by rw [‹s.pc p = _›]; rfl) rfl tame_freeproc
    · cases h
  | wait p q =>
    simp only [step,ite_none_right_eq_some] at h
    obtain ⟨hk,h⟩ := h
    split at h
    · exact enter hk tame_freeproc rfl h
    · exact enter hk tame_id rfl h
  | exit p lk =>
    simp only [step,ite_none_right_eq_some] at h
    exact enter h.1 (tame_of_state (by simp)) rfl h.2
  | yield p =>
    simp only [step,ite_none_right_eq_some] at h
    obtain ⟨⟨hp,hc⟩,h⟩ := h
    obtain ⟨u,hu,h⟩ := bind_eq_some_iff.mp h
    obtain ⟨-,rfl⟩ := visit_eq hu
    obtain ⟨-,-,rfl⟩ := sched_eq h
    exact .yield hp hc
  | resume p =>
    simp only [step,ite_none_right_eq_some,resume] at h
    obtain ⟨hp,h⟩ := h
    split at h
    · obtain ⟨u,hu,rfl⟩ := map_eq_some_iff.mp h
      obtain ⟨hq,rfl⟩ := quit_eq hu
      exact .awaken hp ‹_› hq
    · obtain ⟨u,hu,rfl⟩ := map_eq_some_iff.mp h
      obtain ⟨hq,rfl⟩ := quit_eq hu
      exact .resume hp ‹_› hq
  | schedule p =>
    simp only [step,ite_none_right_eq_some] at h
    obtain ⟨hq,h⟩ := h
    split at h
    · exact some_inj.mp h ▸ .schedule hq ‹_›
    · exact some_inj.mp h ▸ .look hq
  | leave p =>
    simp only [step,ite_none_right_eq_some,some_inj] at h
    exact h.2 ▸ .leave h.1

end

/-- A sleeper is inside `sleep`, off the CPU, and `p->chan` is the channel it passed; a process
that is about to sleep holds its own `p->lock`. -/
structure Sys.Sleeper (s : Sys) (p : Slot) : Prop where
  asleep : (s.proc p).state = .sleeping →
    s.cpu p = .off ∧ ∃ lk, s.pc p = .asleep (s.proc p).chan lk
  held : (s.pc p).swapping = true → s.plock p = some (.thread p) ∧ s.cpu p = .on

def Sleepers (s : Sys) : Prop := ∀ p, s.Sleeper p

namespace Sleepers
variable {s t : Sys} {p q : Slot} {f : Proc → Proc} {c : Pc}

section
variable (h : Sleepers s)
include h

lemma awake (hp : s.cpu p ≠ .off) : (s.proc p).state ≠ .sleeping :=
  fun hs => hp ((h p).asleep hs).1

/-- A step of `p` that leaves the others where they are, and no lock to them that they need. -/
lemma of_actor (hp : t.Sleeper p)
    (hlock : ∀ r, r ≠ p → s.plock r = some (.thread r) → t.plock r = some (.thread r))
    (hst : ∀ r, r ≠ p → (t.proc r).state = .sleeping → (s.proc r).state = .sleeping ∧
      (t.proc r).chan = (s.proc r).chan)
    (hr : ∀ r, r ≠ p → t.pc r = s.pc r ∧ t.cpu r = s.cpu r) : Sleepers t := by
  intro r
  by_cases hrp : r = p
  · rwa [hrp]
  · obtain ⟨hpc,hcpu⟩ := hr r hrp
    constructor <;> intro hs
    · obtain ⟨h₁,h₂⟩ := hst r hrp hs
      rw [hpc,hcpu,h₂]
      exact (h r).asleep h₁
    · rw [hpc] at hs
      rw [hcpu]
      exact ((h r).held hs).imp_left (hlock r hrp)

lemma of_own (hr : ∀ r, r ≠ p →
      t.pc r = s.pc r ∧ t.cpu r = s.cpu r ∧ t.plock r = s.plock r ∧ t.proc r = s.proc r)
    (hp : t.Sleeper p) : Sleepers t := by
  refine h.of_actor hp (fun r h hs => ?_) (fun r h hs => ?_) fun r h => ⟨(hr r h).1,(hr r h).2.1⟩
  · rwa [(hr r h).2.2.1]
  · rw [(hr r h).2.2.2] at hs ⊢
    exact ⟨hs,rfl⟩

lemma goto (hp : s.cpu p ≠ .off) (hc : c.swapping = false) : Sleepers (s.goto p c) :=
  h.of_own (p := p) (fun r hr => by simp [hr])
    ⟨fun hs => absurd hs (h.awake hp),by simp [hc]⟩

lemma revise (hp : s.cpu p = .on) (hf : Tame f) (hc : c.swapping = false) :
    Sleepers ((s.put q f).goto p c) := by
  refine h.of_actor (p := p) ⟨fun hs => ?_,by simp [hc]⟩ (fun _ _ hl => hl)
    (fun r _ => hf.update rfl) fun r hr => by simp [hr]
  exact absurd (hf.update rfl hs).1 (h.awake (by simp [hp]))

lemma visit (hp : s.cpu p = .on) (hf : Tame f) (hq : s.plock q = none)
    (hc : c.swapping = true → q = p) :
    Sleepers (((s.own q (some (.thread p))).put q f).goto p c) := by
  refine h.of_actor (p := p) ⟨fun hs => ?_,fun hcp => ?_⟩ (fun r _ hlock => ?_)
    (fun r _ => hf.update rfl) fun r hr => by simp [hr]
  · exact absurd (hf.update rfl hs).1 (h.awake (by simp [hp]))
  · simp only [Sys.goto_pc,update_self] at hcp
    simp [hp,hc hcp]
  · have hrq : r ≠ q := by
      rintro rfl
      rw [hq] at hlock
      cases hlock
    simpa [hrq] using hlock

lemma quit (hp : s.cpu p ≠ .off) (hq : s.plock q = some (.thread p))
    (hc : c.swapping = false) : Sleepers ((s.own q none).goto p c) := by
  refine h.of_actor (p := p) ⟨fun hs => absurd hs (h.awake hp),by simp [hc]⟩
    (fun r hr hlock => ?_) (fun _ _ h => ⟨h,rfl⟩) fun r hr => by simp [hr]
  have hrq : r ≠ q := by
    rintro rfl
    rw [hq] at hlock
    exact hr (by simpa [eq_comm] using hlock)
  simpa [hrq] using hlock

end

lemma trans (h : Sleepers s) (ht : Trans s t) : Sleepers t := by
  cases ht with
  | hold => exact fun p => ⟨(h p).asleep,(h p).held⟩
  | @relock p l ls hp hc =>
    have hs := h.goto (p := p) (c := .idle) (by simp [hp]) rfl
    exact fun p => ⟨(hs p).asleep,(hs p).held⟩
  | @sleep p chan lk hp hc =>
    have hs := h.goto (p := p) (c := .sleepLock chan lk) (by simp [hp]) rfl
    exact fun p => ⟨(hs p).asleep,(hs p).held⟩
  | wakeup hp hc | wakeupEnd hp hc | wakeupSkip hp hc => exact h.goto (by simp [hp]) rfl
  | move hp hc hc' => exact h.goto (by simp [hp]) (Pc.not_swapping hc')
  | visit hp hc hc' hf hq => exact h.visit hp hf hq (by simp [Pc.not_swapping hc'])
  | revise hp hc hc' hf => exact h.revise hp hf (Pc.not_swapping hc')
  | quit hp hc hc' hq => exact h.quit hp hq (Pc.not_swapping hc')
  | sleepLock hp hc hq => exact h.visit hp tame_id hq fun _ => rfl
  | @sleepRelease p chan lk hp hc hl =>
    refine h.of_own (p := p) (fun r hr => by simp [hr]) ⟨fun hs => ?_,fun _ => ?_⟩
    · exact absurd hs (h.awake (by simp [hp]))
    · exact (h p).held (by rw [hc]; rfl)
  | @sleepSet p =>
    exact h.of_own (p := p) (fun r hr => by simp [hr]) ⟨by simp,by simp [Pc.swapping]⟩
  | wakeupVisit hp hc hqp hq => exact h.visit hp (tame_wake _) hq (by simp [Pc.swapping])
  | wakeupQuit hp hc hq => exact h.quit (by simp [hp]) hq rfl
  | @start p np hp hc hq =>
    have hv := h.visit (c := .held np) (f := fun q => { q with state := .runnable })
      hp (tame_of_state (by simp)) hq (by simp [Pc.swapping])
    exact hv.of_own (p := np) (fun r hr => by simp [hr]) ⟨by simp,by simp [Pc.swapping]⟩
  | @exit p lk ls hp hc =>
    refine h.of_own (p := p) (fun r hr => by simp [hr]) ⟨fun hs => ?_,by simp [Pc.swapping]⟩
    exact absurd hs (h.awake (by simp [hp]))
  | @yield p hp hc =>
    exact h.of_own (p := p) (fun r hr => by simp [hr]) ⟨by simp,by simp [Pc.swapping_outside hc]⟩
  | @awaken p chan lk hp hc hq =>
    refine h.of_own (p := p) (fun r hr => by simp [hr]) ⟨fun hs => ?_,by simp [Pc.swapping]⟩
    exact absurd (by simpa using hs) (h.awake (p := p) (by simp [hp]))
  | @resume p hp hc hq =>
    refine h.of_own (p := p) (fun r hr => by simp [hr]) ⟨fun hs => ?_,fun hx => ?_⟩
    · exact absurd hs (h.awake (by simp [hp]))
    · have := ((h p).held (by simpa using hx)).2
      rw [hp] at this
      cases this
  | @schedule p hq hs =>
    refine h.of_own (p := p) (fun r hr => by simp [hr]) ⟨by simp,fun hx => ?_⟩
    rw [((h p).held hx).1] at hq
    cases hq
  | @look p hq | @leave p hq =>
    refine h.of_own (p := p) (fun r hr => by simp [hr]) ⟨(h p).asleep,fun hx => ?_⟩
    rw [((h p).held hx).1] at hq
    cases hq

end Sleepers

/-- Process `p` is in its `n`-th call of `sleep`, has given back `lk` there and is not woken. -/
def Sys.Pending (s : Sys) (p : Slot) (n : ℕ) : Prop :=
  s.calls p = n ∧ ((∃ chan lk, s.pc p = .sleepSet chan lk) ∨ (s.proc p).state = .sleeping)

/-- Where a process can be once it has given back `lk` in a call of `sleep(chan, lk)`, until it
calls `sleep` again. -/
def Pc.After (chan : ℕ) : Pc → Prop
  | sleepLock _ _ | sleepRelease _ _ => False
  | sleepSet chan' _ | asleep chan' _ => chan' = chan
  | _ => True

variable {chan n : ℕ}

lemma Pc.after_of_calm {c : Pc} (h : c.calm = true) : c.After chan := by
  cases c <;> trivial

/-- The `n`-th call of `sleep` of process `p` was on `chan` and is past the release of `lk`. -/
def Sys.Past (s : Sys) (p : Slot) (n chan : ℕ) : Prop :=
  n < s.calls p ∨ s.calls p = n ∧ (s.pc p).After chan

section
variable {s t : Sys} {p q : Slot} {n chan : ℕ}

/-- A step of `r`, after which it is at a harmless position `c`, and which puts nobody to
sleep. -/
lemma past_of_move {r : Slot} {c : Pc} (h : s.Past p n chan) (hcalls : t.calls = s.calls)
    (hpc : t.pc = update s.pc r c) (hc : c.After chan) (hset : c.swapping = false)
    (hst : (t.proc p).state = .sleeping → (s.proc p).state = .sleeping) :
    t.Past p n chan ∧ (t.Pending p n → s.Pending p n) := by
  unfold Sys.Past Sys.Pending
  rw [hcalls,hpc,update_apply]
  split
  · refine ⟨h.imp_right (And.imp_right fun _ => hc),?_⟩
    rintro ⟨hn,⟨a,b,hab⟩ | hs⟩
    · rw [hab] at hset
      cases hset
    · exact ⟨hn,.inr (hst hs)⟩
  · exact ⟨h,And.imp_right (Or.imp_right hst)⟩

lemma past_of_stay (h : s.Past p n chan) (hcalls : t.calls p = s.calls p)
    (hpc : t.pc p = s.pc p)
    (hst : (t.proc p).state = .sleeping → (s.proc p).state = .sleeping) :
    t.Past p n chan ∧ (t.Pending p n → s.Pending p n) := by
  unfold Sys.Past Sys.Pending
  rw [hcalls,hpc]
  exact ⟨h,And.imp_right (Or.imp_right hst)⟩

lemma past_of_early (h : s.Past p n chan) (hcalls : t.calls = s.calls)
    (hc : ¬(s.pc p).After chan) : t.Past p n chan ∧ (t.Pending p n → s.Pending p n) := by
  have hlt : n < s.calls p := h.resolve_right fun hx => hc hx.2
  refine ⟨.inl (by rw [hcalls]; exact hlt),?_⟩
  rintro ⟨hn,-⟩
  rw [hcalls] at hn
  omega

lemma state_of_update {P : Proc} (ht : t.proc = update s.proc q P)
    (hP : P.state = .sleeping → (s.proc q).state = .sleeping)
    (hs : (t.proc p).state = .sleeping) : (s.proc p).state = .sleeping := by
  rw [ht,update_apply] at hs
  split at hs
  · rw [‹p = q›]
    exact hP hs
  · exact hs

lemma past_trans (h : s.Past p n chan) (ht : Trans s t) :
    t.Past p n chan ∧ (t.Pending p n → s.Pending p n) := by
  cases ht with
  | hold | look | leave => exact past_of_stay h rfl rfl id
  | relock | wakeup | wakeupEnd | wakeupSkip | wakeupQuit | exit =>
    exact past_of_move h rfl rfl trivial rfl id
  | move hp hc hc' | quit hp hc hc' =>
    exact past_of_move h rfl rfl (Pc.after_of_calm hc') (Pc.not_swapping hc') id
  | visit hp hc hc' hf | revise hp hc hc' hf =>
    exact past_of_move h rfl rfl (Pc.after_of_calm hc') (Pc.not_swapping hc') fun hs =>
      (hf.update rfl hs).1
  | wakeupVisit =>
    exact past_of_move h rfl rfl trivial rfl fun hs => ((tame_wake _).update rfl hs).1
  | awaken => exact past_of_move h rfl rfl trivial rfl (state_of_update rfl id)
  | @sleep r chan' lk hp hc =>
    by_cases hr : p = r
    · subst hr
      have hle : n ≤ s.calls p := h.elim Nat.le_of_lt fun hx => hx.1.ge
      refine ⟨.inl (by simp; omega),?_⟩
      rintro ⟨hn,-⟩
      simp only [update_self] at hn
      omega
    · exact past_of_stay h (by simp [hr]) (by simp [hr]) id
  | @sleepLock r chan' lk hp hc hq =>
    by_cases hr : p = r
    · subst hr
      exact past_of_early h rfl (by simp [hc,Pc.After])
    · exact past_of_stay h rfl (by simp [hr]) (state_of_update rfl id)
  | @sleepRelease r chan' lk hp hc hl =>
    by_cases hr : p = r
    · subst hr
      exact past_of_early h rfl (by simp [hc,Pc.After])
    · exact past_of_stay h rfl (by simp [hr]) id
  | @sleepSet r chan' lk hp hc =>
    by_cases hr : p = r
    · subst hr
      refine ⟨h.imp_right (And.imp_right ?_),?_⟩
      · simp [hc,Pc.After]
      · rintro ⟨hn,-⟩
        exact ⟨hn,.inl ⟨chan',lk,hc⟩⟩
    · exact past_of_stay h rfl (by simp [hr]) (by simp [hr])
  | @start r np hp hc hq =>
    have hvisit := past_of_move (t := ((s.own np (some (.thread r))).put np fun q =>
      { q with state := .runnable }).goto r (.held np)) h rfl rfl trivial rfl
      (state_of_update rfl (by simp))
    have hgoto := past_of_move (t := ((((s.own np (some (.thread r))).put np fun q =>
      { q with state := .runnable }).goto r (.held np)).goto np .idle).switch np .off)
      hvisit.1 rfl rfl trivial rfl id
    exact ⟨hgoto.1,hvisit.2 ∘ hgoto.2⟩
  | @yield r hp hc =>
    refine past_of_stay h rfl ?_ (state_of_update rfl (by simp))
    by_cases hr : p = r <;> simp [hr]
  | @resume r hp hc hq =>
    refine past_of_stay h rfl ?_ id
    by_cases hr : p = r <;> simp [hr]
  | schedule => exact past_of_stay h rfl rfl (state_of_update rfl (by simp))

end

/-- While `q` is in `wakeup(chan)`, the slots it has visited do not include that of a process
that still sleeps in the given call. -/
structure Scanning (p q : Slot) (n chan : ℕ) (s : Sys) : Prop where
  past : s.Past p n chan
  scan : ∀ j, s.pc q = .wakeup chan j → s.Pending p n → j ≤ p.val
  held : ∀ j, s.pc q = .wakeupHeld chan j → s.Pending p n → j < p.val

namespace Scanning
variable {s t : Sys} {p q r : Slot} {n chan : ℕ} {c : Pc}

variable (h : Scanning p q n chan s)
include h

lemma of_move (hpast : t.Past p n chan ∧ (t.Pending p n → s.Pending p n))
    (hpc : t.pc = update s.pc r c)
    (hc : ∀ j, c ≠ .wakeup chan j ∧ c ≠ .wakeupHeld chan j) : Scanning p q n chan t := by
  refine ⟨hpast.1,?_,?_⟩ <;> intro j hj hx <;> rw [hpc,update_apply] at hj <;>
    split at hj
  · exact absurd hj (hc j).1
  · exact h.scan j hj (hpast.2 hx)
  · exact absurd hj (hc j).2
  · exact h.held j hj (hpast.2 hx)

lemma of_stay (hpast : t.Past p n chan ∧ (t.Pending p n → s.Pending p n)) (hpc : t.pc q = s.pc q) :
    Scanning p q n chan t := by
  refine ⟨hpast.1,?_,?_⟩ <;> intro j hj hx <;> rw [hpc] at hj
  · exact h.scan j hj (hpast.2 hx)
  · exact h.held j hj (hpast.2 hx)

/-- `wakeup` visits a slot: the process in it no longer sleeps on that channel. -/
lemma visit (hs : Sleepers s) (hne : q ≠ p)
    (hc : s.pc q = .wakeup chan r.val) (hr : s.plock r = none)
    (hpast : (((s.own r (some (.thread q))).put r (wake chan)).goto q
        (.wakeupHeld chan r)).Past p n chan ∧
      ((((s.own r (some (.thread q))).put r (wake chan)).goto q
        (.wakeupHeld chan r)).Pending p n → s.Pending p n)) :
    Scanning p q n chan (((s.own r (some (.thread q))).put r (wake chan)).goto q
      (.wakeupHeld chan r)) := by
  refine ⟨hpast.1,by simp,?_⟩
  intro j hj hx
  obtain rfl : r.val = j := by simpa using hj
  have hpend := hpast.2 hx
  have hle := h.scan r.val hc hpend
  refine lt_of_le_of_ne hle ?_
  intro he
  obtain rfl := Fin.ext he
  -- it holds its lock until it is SLEEPING on chan, and then wakeup finds it so
  have hafter : (s.pc r).After chan := h.past.elim (fun hlt => absurd hpend.1 hlt.ne') And.right
  obtain ⟨hn,⟨a,b,hset⟩ | hsleep⟩ := hpend
  · rw [((hs r).held (by rw [hset]; rfl)).1] at hr
    cases hr
  · obtain ⟨-,lk,hpc⟩ := (hs r).asleep hsleep
    rw [hpc] at hafter
    obtain ⟨-,⟨a,b,hset⟩ | hstate⟩ := hx
    · rw [Sys.goto_pc,update_of_ne hne.symm] at hset
      cases hset.symm.trans hpc
    · have : (wake chan (s.proc r)).state = .runnable := by
        unfold wake
        rw [if_pos ⟨hsleep,hafter⟩]
      simp [this] at hstate

lemma trans (hs : Sleepers s) (hne : q ≠ p) (ht : Trans s t) : Scanning p q n chan t := by
  have hpast := past_trans h.past ht
  cases ht with
  | hold | look | leave | schedule => exact h.of_stay hpast rfl
  | @yield r hp hc | @resume r hp hc hq =>
    refine h.of_stay hpast ?_
    by_cases hr : q = r <;> simp [hr]
  | relock | sleepRelease | sleepSet | wakeupEnd | exit | awaken | sleep | sleepLock =>
    exact h.of_move hpast rfl (by simp)
  | move hp hc hc' | visit hp hc hc' | revise hp hc hc' | quit hp hc hc' =>
    refine h.of_move hpast rfl fun j => ⟨?_,?_⟩ <;> rintro rfl <;> cases hc'
  | @start r np hp hc hq =>
    by_cases hn : q = np
    · exact ⟨hpast.1,by simp [hn],by simp [hn]⟩
    · by_cases hr : q = r
      · subst hr
        exact ⟨hpast.1,by simp [hn],by simp [hn]⟩
      · exact h.of_stay hpast (by simp [hn,hr])
  | @wakeup r chan' hp hc =>
    by_cases hr : q = r
    · subst hr
      refine ⟨hpast.1,?_,by simp⟩
      intro j hj _
      obtain ⟨-,rfl⟩ : _ ∧ 0 = j := by simpa using hj
      exact Nat.zero_le _
    · exact h.of_stay hpast (by simp [hr])
  | @wakeupSkip r chan' hp hc =>
    by_cases hr : q = r
    · subst hr
      refine ⟨hpast.1,?_,by simp⟩
      intro j hj hx
      obtain ⟨rfl,rfl⟩ : chan' = chan ∧ q.val+1 = j := by simpa using hj
      have hle := h.scan q.val hc (hpast.2 hx)
      have : q.val ≠ p.val := fun he => hne (Fin.ext he)
      omega
    · exact h.of_stay hpast (by simp [hr])
  | @wakeupVisit r y chan' hp hc hyr hy =>
    by_cases hr : q = r
    · subst hr
      by_cases hch : chan' = chan
      · subst hch
        exact h.visit hs hne hc hy hpast
      · exact ⟨hpast.1,by simp,by simp [hch]⟩
    · exact h.of_stay hpast (by simp [hr])
  | @wakeupQuit r y chan' hp hc hy =>
    by_cases hr : q = r
    · subst hr
      refine ⟨hpast.1,?_,by simp⟩
      intro j hj hx
      obtain ⟨rfl,rfl⟩ : chan' = chan ∧ y.val+1 = j := by simpa using hj
      exact h.held y.val hc (hpast.2 hx)
    · exact h.of_stay hpast (by simp [hr])

end Scanning

/-- All runs of the machine. -/
abbrev Reaches (s : Sys) (es : List Event) (t : Sys) : Prop := Runs step (fun _ _ => True) s es t

variable {s t : Sys}

lemma sleepers_runs {es : List Event} (h : Reaches s es t) (hs : Sleepers s) : Sleepers t :=
  h.invariant (fun _ _ _ hs _ ht => hs.trans (step_trans ht)) hs

lemma Sys.Initial.sleepers (h : s.Initial) : Sleepers s := by
  intro p
  refine ⟨fun hp => absurd hp (h.awake p),fun hp => ?_⟩
  obtain hi | hi := h.idle p <;> rw [hi] at hp <;> cases hp

lemma past_runs {es : List Event} {p : Slot} (h : Reaches s es t)
    (hs : s.Past p n chan) : t.Past p n chan :=
  h.invariant (I := fun s => s.Past p n chan)
    (fun _ _ _ hs _ ht => (past_trans hs (step_trans ht)).1) hs

lemma scanning_runs {es : List Event} {p q : Slot} (h : Reaches s es t)
    (hne : q ≠ p) (hs : Sleepers s) (hscan : Scanning p q n chan s) : Scanning p q n chan t :=
  (h.invariant_and (fun _ _ _ hs _ ht => hs.trans (step_trans ht))
    (fun _ _ _ hs hq _ ht => hq.trans hs hne (step_trans ht)) ⟨hs,hscan⟩).2

lemma past_of_release {p : Slot} {lk : ℕ} (hc : s.pc p = .sleepRelease chan lk)
    (h : step s (.run p) = some t) : t.Past p (t.calls p) chan := by
  refine .inr ⟨rfl,?_⟩
  simp only [step,run,hc,ite_none_right_eq_some,some_inj] at h
  obtain ⟨-,-,rfl⟩ := h
  simp [Pc.After]

lemma scanning_of_call {p q : Slot} (h : t.Past p n chan)
    (ht : step s (.wakeup q chan) = some t) : Scanning p q n chan t := by
  simp only [step,ite_none_right_eq_some,some_inj] at ht
  obtain ⟨-,rfl⟩ := ht
  refine ⟨h,?_,by simp⟩
  intro j hj _
  obtain rfl : 0 = j := by simpa using hj
  exact Nat.zero_le _

/-- No wakeup is lost: process `p` has called `sleep(chan, lk)` and releases `lk` there, then `q`
acquires `lk` and runs `wakeup(chan)` to its end; at that point `p` does not sleep in that call.
And whoever sleeps has in `p->chan` the channel it passed. -/
theorem no_lost_wakeup {s₀ : Sys} (hinit : s₀.Initial) :
    (∀ es s, Reaches s₀ es s → ∀ p, (s.proc p).state = .sleeping →
      ∃ lk, s.pc p = .asleep (s.proc p).chan lk) ∧
    ∀ es s p chan lk s₁, Reaches s₀ es s → s.pc p = .sleepRelease chan lk →
      step s (.run p) = some s₁ →
      ∀ q es₁ s₂ s₃, q ≠ p → Reaches s₁ es₁ s₂ → step s₂ (.acquire q lk) = some s₃ →
      ∀ es₂ s₄ s₅, Reaches s₃ es₂ s₄ → step s₄ (.wakeup q chan) = some s₅ →
      ∀ es₃ s₆ s₇, Reaches s₅ es₃ s₆ → s₆.pc q = .wakeup chan NPROC →
        step s₆ (.run q) = some s₇ →
        ¬(s₇.calls p = s₁.calls p ∧ (s₇.proc p).state = .sleeping) := by
  refine ⟨fun es s h p hp => ((sleepers_runs h hinit.sleepers p).asleep hp).2,?_⟩
  intro es s p chan lk s₁ h hpc h₁ q es₁ s₂ s₃ hne h₂ h₃ es₂ s₄ s₅ h₄ h₅ es₃ s₆ s₇ h₆ hq h₇
  rintro ⟨hcall,hsleep⟩
  have hs₁ := (sleepers_runs h hinit.sleepers).trans (step_trans h₁)
  have hrun : Reaches s₁ (es₁++.acquire q lk::es₂) s₄ := h₂.append (.cons trivial h₃ h₄)
  have hs₅ := (sleepers_runs hrun hs₁).trans (step_trans h₅)
  have hpast := (past_trans (past_runs hrun (past_of_release hpc h₁)) (step_trans h₅)).1
  have hscan := scanning_runs h₆ hne hs₅ (scanning_of_call hpast h₅)
  have hpend := (past_trans hscan.past (step_trans h₇)).2 ⟨hcall,.inr hsleep⟩
  exact absurd (hscan.scan NPROC hq hpend) (not_le.mpr p.isLt)

/-- Two processes that are ready to run. -/
def twoReady : Sys where
  proc p :=
    { state := if p.val < 2 then .runnable else .unused
      chan := 0
      killed := false
      pid := 0 }
  cpu _ := .off
  plock _ := none
  pc p := if p.val < 2 then .idle else .dead
  locks _ := []
  calls _ := 0

lemma twoReady_initial : twoReady.Initial := by
  constructor
  · intro p
    simp only [twoReady]
    split <;> simp
  · intro p
    simp only [twoReady]
    split <;> simp

/-- Process 0 takes lock 7 and calls `sleep` on channel 9. -/
def sleeper : List Event :=
  [.schedule 0,.resume 0,.acquire 0 7,.sleep 0 9 7,.run 0]

/-- Process 0 falls asleep and process 1 gets a CPU. -/
def fallsAsleep : List Event := [.run 0,.leave 0,.schedule 1,.resume 1]

/-- All of `wakeup(9)` by process 1 but its return. -/
def wholeWakeup : List Event := List.replicate 127 (.run 1)

theorem no_lost_wakeup_two : ∃ es s, Reaches twoReady es s ∧ s.calls 0 = 1 ∧
    s.pc 0 = .asleep 9 7 ∧ ¬(s.calls 0 = 1 ∧ (s.proc 0).state = .sleeping) := by
  obtain ⟨s₇,h,hcall,hpc⟩ := Runs.exists_of_execIf step (fun _ _ => True) twoReady
    (sleeper++(.run 0::(fallsAsleep++(.acquire 1 7::.wakeup 1 9::(wholeWakeup++[.run 1])))))
    (fun s => s.calls 0 = 1 ∧ s.pc 0 = .asleep 9 7) (by decide +kernel)
  refine ⟨_,s₇,h,hcall,hpc,?_⟩
  obtain ⟨s,hs,h⟩ := h.split
  obtain ⟨s₁,h₁,h⟩ := h.uncons
  obtain ⟨s₂,h₂,h⟩ := h.split
  obtain ⟨s₃,h₃,h⟩ := h.uncons
  obtain ⟨s₅,h₅,h⟩ := h.uncons
  obtain ⟨s₆,h₆,h⟩ := h.split
  obtain ⟨s₇,h₇,h⟩ := h.uncons
  cases h
  have hrel := hs.holds_of_exec (fun s => s.pc 0 = .sleepRelease 9 7) (by decide +kernel)
  have hrun := hs.snoc trivial h₁
  have hone := hrun.holds_of_exec (fun s => s.calls 0 = 1) (by decide +kernel)
  have hend := ((hrun.append h₂).append (.cons trivial h₃ (.cons trivial h₅ h₆))).holds_of_exec
    (fun s => s.pc 1 = .wakeup 9 NPROC) (by decide +kernel)
  have := (no_lost_wakeup twoReady_initial).2 _ s 0 9 7 s₁ hs hrel h₁ 1 _ s₂ s₃ (by decide) h₂ h₃
    [] s₃ s₅ (.nil _) h₅ _ s₆ s₇ h₆ hend h₇
  rwa [hone] at this

end Xv6.Sched
