import Xv6.Proc.Smp

/-! The invariant of the scheduler. A lock `p->lock` belongs to a CPU; which positions of the code
hold it is read off the position, and a switch of stacks passes it from one thread to the other on
the same CPU. -/
namespace Xv6.Smp
open Xv6.Process Xv6.Lib List
open Function (update update_self update_of_ne)

variable {C : Type} {n : ℕ}

namespace Why

def proc : Why n → Fin n
  | yield p | sleep p _ | exit p => p

/-- The state that the caller of `sched` has set. -/
def state : Why n → PState
  | yield _ => .runnable
  | sleep _ _ => .sleeping
  | exit _ => .zombie

lemma state_ne_running (w : Why n) : w.state ≠ .running := by cases w <;> simp [state]

/-- The spinlock that is taken again after the switch. -/
def relock : Why n → List ℕ
  | sleep _ lk => [lk]
  | _ => []

end Why

def Stack.proc : Stack C n → Option (Fin n)
  | sched _ => none
  | kstack p => some p

namespace Pc

/-- The process whose lock is held at a position; `o` is the process that the thread belongs to. -/
def holds (o : Option (Fin n)) : Pc n → Option (Fin n)
  | test p _ | save p | load p | back p | unlock p _ => some p
  | wakeupHeld _ q _ | wakeupRelease _ q _ | visitHeld q _ _ => some q
  | yieldSet p _ | sleepRelease p _ _ _ | sleepSet p _ _ _ | sleepUnlock p _ _ => some p
  | sched w _ | schedSave _ w _ _ | schedLoad w _ | resumed w _ _ | woken w _ => some w.proc
  | exitSet p | exitRelease p => some p
  | killHeld _ q | killRelease _ q _ => some q
  | allocHeld q | allocRelease q | allocInit q | forkCopy q | forkFail q | forkStart q
  | forkUnlock q => some q
  | waitHeld q | waitRelease q _ => some q
  | forkret => o
  | _ => none

/-- The other spinlocks that are held. -/
def locks : Pc n → List ℕ
  | idle ls | handler ls _ => ls
  | wakeup _ _ k | wakeupHeld _ _ k | wakeupRelease _ _ k | visit _ _ k | visitHeld _ _ k
  | sleepAcquire _ _ _ k | sleepRelease _ _ _ k => k.locks
  | sleepSet _ _ lk k => k.locks.erase lk
  | sched w k => k.locks.diff w.relock
  | exitBody | exitSet _ | exitRelease _ | forkParent _ | waitScan _ | waitHeld _ | waitRelease _ _
  | waitDone _ => [WAIT]
  | _ => []

/-- The slot of the process that `fork` is making. -/
def child : Pc n → Option (Fin n)
  | allocInit q | forkCopy q | forkWait q | forkParent q | forkAcquire q | forkStart q => some q
  | handler _ k | wakeup _ _ k | wakeupHeld _ _ k | wakeupRelease _ _ k | visit _ _ k
  | visitHeld _ _ k | yieldAcquire _ k | yieldSet _ k | sleepAcquire _ _ _ k | sleepRelease _ _ _ k
  | sleepSet _ _ _ k | sched _ k | schedSave _ _ k _ | schedLoad _ k | resumed _ k _ | woken _ k
  | sleepUnlock _ _ k | sleepRelock _ k => k.child
  | _ => none

/-- What the local variables are at a position, and what the position it returns to may be. -/
def Legal (o : Option (Fin n)) : Pc n → Prop
  | loop _ _ | test _ _ | save _ | load _ | back _ | unlock _ _ => o = none
  | idle ls => o ≠ none ∧ ls.Nodup
  | handler ls k => ls.Nodup ∧ k.locks = [] ∧ k.holds o = none ∧ k.Legal o
  | wakeup _ _ k | wakeupHeld _ _ k | wakeupRelease _ _ k | visit _ _ k | visitHeld _ _ k =>
    k.holds o = none ∧ k.Legal o
  | yieldAcquire p k | yieldSet p k => o = some p ∧ k.locks = [] ∧ k.holds o = none ∧ k.Legal o
  | sleepAcquire p _ lk k | sleepRelease p _ lk k | sleepSet p _ lk k =>
    o = some p ∧ lk ∈ k.locks ∧ k.holds o = none ∧ k.Legal o
  | sched w k => o = some w.proc ∧ (∀ l ∈ w.relock, l ∈ k.locks) ∧
      (w.relock = [] → k.locks = []) ∧ k.holds o = none ∧ k.Legal o
  | schedSave p w k _ =>
    o = some p ∧ o = some w.proc ∧ k.locks = w.relock ∧ k.holds o = none ∧ k.Legal o
  | schedLoad w k => o = some w.proc ∧ k.locks = w.relock ∧ k.holds o = none ∧ k.Legal o
  | resumed w k _ | woken w k =>
    o = some w.proc ∧ w.state ≠ .zombie ∧ k.locks = w.relock ∧ k.holds o = none ∧ k.Legal o
  | sleepUnlock p lk k => o = some p ∧ k.locks = [lk] ∧ k.holds o = none ∧ k.Legal o
  | sleepRelock lk k => o ≠ none ∧ k.locks = [lk] ∧ k.holds o = none ∧ k.Legal o
  | exitSet p | exitRelease p => o = some p
  | _ => o ≠ none

/-- What the state of the CPU's process is at a position. -/
def Shows : Pc n → PState → Prop
  | back _,st => st ≠ .running
  | sched w _,st | schedSave _ w _ _,st | schedLoad w _,st => st = w.state
  | exitRelease _,st => st = .zombie
  | _,st => st = .running

/-- The process that the scheduler is switching to, or has come back from. -/
def target : Pc n → Option (Fin n)
  | save p | load p | back p => some p
  | _ => none

/-- Neither in a `swtch` nor before the context of a new process is set. -/
def plain : Pc n → Bool
  | save _ | load _ | back _ | schedLoad _ _ | allocInit _ => false
  | _ => true

end Pc

namespace Ctx
variable (x : Ctx C n)

def holds : Option (Fin n) := x.pc.holds x.stack.proc

/-- What `c->proc` is when a CPU executes here. -/
def current : Option (Fin n) :=
  match x.stack with
  | .sched _ => x.pc.target
  | .kstack p => some p

/-- A context from which process `p` can be resumed. -/
def Saved (p : Fin n) : Prop :=
  x.stack = .kstack p ∧ (x.pc = .forkret ∨ ∃ w k intena, x.pc = .resumed w k intena) ∧
    x.pc.Legal (some p)

end Ctx

/-- No CPU executes on the stack of `p`. -/
def Sys.Off (s : Sys C n) (p : Fin n) : Prop := ∀ c, (s.cpu c).regs.stack ≠ .kstack p

/-- The thread of `p` is at `k`, on a CPU or waiting to be resumed. -/
def Sys.Thread (s : Sys C n) (p : Fin n) (k : Pc n) : Prop :=
  (∃ c, (s.cpu c).regs = ⟨.kstack p,k⟩) ∨
    (s.Off p ∧ (s.proc p).state ∈ [.runnable,.sleeping,.running] ∧ (s.proc p).context = ⟨.kstack p,k⟩)

/-- What holds at CPU `c`. -/
structure Ok (s : Sys C n) (c : C) : Prop where
  legal : (s.cpu c).regs.pc.Legal (s.cpu c).regs.stack.proc
  own : ∀ c', (s.cpu c).regs.stack = .sched c' → c' = c
  cpu_proc : (s.cpu c).proc = (s.cpu c).regs.current
  noff : (s.cpu c).noff = (s.cpu c).regs.pc.locks.length+(s.cpu c).regs.holds.toList.length
  intr : (s.cpu c).intr = true → (s.cpu c).noff = 0
  lock : ∀ q, (s.proc q).lock = some c ↔ (s.cpu c).regs.holds = some q
  spin : ∀ l, s.spin l = some c ↔ l ∈ (s.cpu c).regs.pc.locks
  shows : ∀ p, (s.cpu c).proc = some p → (s.cpu c).regs.pc.Shows (s.proc p).state
  /-- The scheduler's context while its CPU executes a process. -/
  home : ∀ p, (s.cpu c).regs.stack = .kstack p ∨ (s.cpu c).regs.pc = .load p →
    (s.cpu c).context = ⟨.sched c,.back p⟩
  leaving : ∀ p w k, (s.cpu c).regs = ⟨.kstack p,.schedLoad w k⟩ →
    ∃ intena, (s.proc p).context = ⟨.kstack p,.resumed w k intena⟩

structure Inv (s : Sys C n) : Prop where
  ok : ∀ c, Ok s c
  unique : ∀ c c' p, (s.cpu c).proc = some p → (s.cpu c').proc = some p → c = c'
  parked : ∀ p, (s.proc p).state = .running → ∃ c, (s.cpu c).proc = some p
  /-- The context of a process that is not executing. -/
  saved : ∀ p, s.Off p → (s.proc p).state ∉ [.zombie,.unused] →
    (∀ c, (s.cpu c).regs.pc ≠ .allocInit p) → (s.proc p).context.Saved p
  fresh : ∀ p, (s.proc p).state = .used → (∀ c, (s.cpu c).regs.pc ≠ .allocInit p) →
    (s.proc p).context = ⟨.kstack p,.forkret⟩
  child : ∀ p k q, s.Thread p k → k.child = some q →
    s.maker q = some p ∧ (s.proc q).state = .used
  calm : s.panicked = none ∨ s.panicked = some "sched locks"

/-! ### Positions -/

section Positions
variable {o : Option (Fin n)} {k k' : Pc n} {st : PState} {x : Ctx C n} {p q : Fin n}

lemma Pc.shows_eq (hh : k.holds o = none) : k.Shows = (· = .running) := by
  cases k <;> first | rfl | cases hh

lemma Pc.plain_of_holds (hh : k.holds o = none) : k.plain = true := by
  cases k <;> first | rfl | cases hh

lemma Pc.plain_target (h : k.plain = true) : k.target = none := by
  cases k <;> first | rfl | cases h

lemma Pc.nodup_locks (hl : k.Legal o) : k.locks.Nodup := by
  induction k with
  | idle ls => exact hl.2
  | handler ls k => exact hl.1
  | wakeup _ _ k ih => exact ih hl.2
  | wakeupHeld _ _ k ih => exact ih hl.2
  | wakeupRelease _ _ k ih => exact ih hl.2
  | visit _ _ k ih => exact ih hl.2
  | visitHeld _ _ k ih => exact ih hl.2
  | sleepAcquire _ _ _ k ih => exact ih hl.2.2.2
  | sleepRelease _ _ _ k ih => exact ih hl.2.2.2
  | sleepSet _ _ lk k ih => exact (ih hl.2.2.2).erase lk
  | sched w k ih => exact (ih hl.2.2.2.2).diff
  | exitBody => exact nodup_singleton _
  | exitSet => exact nodup_singleton _
  | exitRelease => exact nodup_singleton _
  | forkParent => exact nodup_singleton _
  | waitScan => exact nodup_singleton _
  | waitHeld => exact nodup_singleton _
  | waitRelease => exact nodup_singleton _
  | waitDone => exact nodup_singleton _
  | _ => exact nodup_nil

/-- Only who holds the lock of the CPU's process has changed its state. -/
lemma Ctx.shows_iff (hl : x.pc.Legal x.stack.proc) (hc : x.current = some p)
    (hh : x.holds ≠ some p) : x.pc.Shows st ↔ st = .running := by
  obtain ⟨stack,k⟩ := x
  have hp : ∀ q, stack.proc = some q → q = p := by
    intro q hq
    cases stack with
    | sched c => cases hq
    | kstack r =>
      cases hq
      exact Option.some_inj.mp hc
  cases k with
  | back q =>
    cases stack with
    | sched c => exact absurd hc hh
    | kstack r => cases hl
  | sched w k => exact absurd (congrArg some (hp _ hl.1)) hh
  | schedSave q w k ie => exact absurd (congrArg some (hp _ hl.2.1)) hh
  | schedLoad w k => exact absurd (congrArg some (hp _ hl.1)) hh
  | exitRelease q => exact absurd (congrArg some (hp _ hl)) hh
  | _ => exact Iff.rfl

end Positions

/-! ### The CPU that moves and the others -/

/-- What a step of CPU `c` leaves alone. -/
structure Frame (s t : Sys C n) (c : C) : Prop where
  cpu : ∀ c', c' ≠ c → t.cpu c' = s.cpu c'
  lock : ∀ c' q, c' ≠ c → ((t.proc q).lock = some c' ↔ (s.proc q).lock = some c')
  spin : ∀ c' l, c' ≠ c → (t.spin l = some c' ↔ s.spin l = some c')
  proc : ∀ c' p, c' ≠ c → (s.cpu c').proc = some p →
    (t.proc p).state = (s.proc p).state ∧ (t.proc p).context = (s.proc p).context

section Others
variable {s t : Sys C n} {c c' : C} {p q : Fin n} {k : Pc n}

lemma Ok.proc_of_stack (h : Ok s c) (hs : (s.cpu c).regs.stack = .kstack p) :
    (s.cpu c).proc = some p := by
  rw [h.cpu_proc,Ctx.current,hs]

lemma Ok.shows_at (h : Ok s c) (hk : (s.cpu c).regs.pc = k) (hp : (s.cpu c).proc = some p) :
    k.Shows (s.proc p).state :=
  hk ▸ h.shows p hp

lemma Ok.of_cpu {u : Cpu C n} (hcpu : t.cpu c = u) (legal : u.regs.pc.Legal u.regs.stack.proc)
    (own : ∀ c', u.regs.stack = .sched c' → c' = c) (cpu_proc : u.proc = u.regs.current)
    (noff : u.noff = u.regs.pc.locks.length+u.regs.holds.toList.length)
    (intr : u.intr = true → u.noff = 0)
    (lock : ∀ q, (t.proc q).lock = some c ↔ u.regs.holds = some q)
    (spin : ∀ l, t.spin l = some c ↔ l ∈ u.regs.pc.locks)
    (shows : ∀ p, u.proc = some p → u.regs.pc.Shows (t.proc p).state)
    (home : ∀ p, u.regs.stack = .kstack p ∨ u.regs.pc = .load p → u.context = ⟨.sched c,.back p⟩)
    (leaving : ∀ p w k, u.regs = ⟨.kstack p,.schedLoad w k⟩ →
      ∃ intena, (t.proc p).context = ⟨.kstack p,.resumed w k intena⟩) : Ok t c := by
  subst hcpu
  exact ⟨legal,own,cpu_proc,noff,intr,lock,spin,shows,home,leaving⟩

namespace Frame
variable (f : Frame s t c)
include f

lemma ok (hc : c' ≠ c) (h : Ok s c') : Ok t c' := by
  refine .of_cpu (f.cpu c' hc) h.legal h.own h.cpu_proc h.noff h.intr
    (fun q => (f.lock c' q hc).trans (h.lock q)) (fun l => (f.spin c' l hc).trans (h.spin l))
    (fun p hp => ?_) h.home fun p w k hr => ?_
  · rw [(f.proc c' p hc hp).1]
    exact h.shows p hp
  · rw [(f.proc c' p hc (h.proc_of_stack (congrArg Ctx.stack hr))).2]
    exact h.leaving p w k hr

/-- What the step does not change at its own CPU it does not change at any. -/
lemma same {β : Type} (g : Cpu C n → β) (h : g (t.cpu c) = g (s.cpu c)) (c' : C) :
    g (t.cpu c') = g (s.cpu c') := by
  by_cases hc : c' = c
  · rw [hc,h]
  · rw [f.cpu c' hc]

lemma alloc (h : (s.cpu c).regs.pc ≠ .allocInit q)
    (ha : ∀ c', (t.cpu c').regs.pc ≠ .allocInit q) (c' : C) :
    (s.cpu c').regs.pc ≠ .allocInit q := by
  by_cases hc : c' = c
  · rwa [hc]
  · rw [← f.cpu c' hc]
    exact ha c'

lemma off (h : (s.cpu c).regs.stack ≠ .kstack q) (ho : t.Off q) : s.Off q := by
  intro c'
  by_cases hc : c' = c
  · rwa [hc]
  · rw [← f.cpu c' hc]
    exact ho c'

end Frame

namespace Inv
variable (I : Inv s)
include I

/-- A process that is not running and that CPU `c` has locked is on no other CPU. -/
lemma not_elsewhere (hh : (s.cpu c).regs.holds = some q) (hst : (s.proc q).state ≠ .running)
    (hc : c' ≠ c) : (s.cpu c').proc ≠ some q := by
  intro hp
  have hlock : (s.cpu c').regs.holds ≠ some q := fun h => by
    have h₁ := ((I.ok c).lock q).mpr hh
    have h₂ := ((I.ok c').lock q).mpr h
    rw [h₁] at h₂
    exact hc (Option.some_inj.mp h₂).symm
  have hcur := (I.ok c').cpu_proc.symm.trans hp
  exact hst ((Ctx.shows_iff (I.ok c').legal hcur hlock).mp ((I.ok c').shows q hp))

/-- A step of `c` after which it has the same process as before. -/
lemma of_same (f : Frame s t c) (ok : Ok t c) (hproc : (t.cpu c).proc = (s.cpu c).proc)
    (hrun : ∀ r, (t.proc r).state = .running → (s.proc r).state = .running)
    (saved : ∀ p, t.Off p → (t.proc p).state ∉ [.zombie,.unused] →
      (∀ c, (t.cpu c).regs.pc ≠ .allocInit p) → (t.proc p).context.Saved p)
    (fresh : ∀ p, (t.proc p).state = .used → (∀ c, (t.cpu c).regs.pc ≠ .allocInit p) →
      (t.proc p).context = ⟨.kstack p,.forkret⟩)
    (child : ∀ p k q, t.Thread p k → k.child = some q →
      t.maker q = some p ∧ (t.proc q).state = .used)
    (hpanic : t.panicked = s.panicked) : Inv t := by
  have hsame := f.same (·.proc) hproc
  refine ⟨fun c' => ?_,fun c₁ c₂ p h₁ h₂ => ?_,fun p hp => ?_,saved,fresh,child,hpanic ▸ I.calm⟩
  · by_cases hcc : c' = c
    · exact hcc ▸ ok
    · exact f.ok hcc (I.ok c')
  · exact I.unique c₁ c₂ p ((hsame c₁).symm.trans h₁) ((hsame c₂).symm.trans h₂)
  · obtain ⟨c',h⟩ := I.parked p (hrun p hp)
    exact ⟨c',(hsame c').trans h⟩

omit I in
lemma thread (hs : (s.cpu c).regs.stack = .kstack p) : s.Thread p (s.cpu c).regs.pc :=
  .inl ⟨c,by rw [← hs]⟩

end Inv

end Others

/-! ### Steps on one stack -/

/-- What may become of the state of a process that is not being made or started. -/
def Ordinary (a b : PState) : Prop :=
  b = a ∨ (a,b) ∈ [(.running,.runnable),(.running,.sleeping),(.running,.zombie),
    (.sleeping,.runnable),(.zombie,.unused)]

instance (a b : PState) : Decidable (Ordinary a b) := inferInstanceAs (Decidable (_ ∨ _))

/-- A slot whose process is gone gets another one only from `allocproc`. -/
def Ages (s t : Sys C n) : Prop :=
  ∀ p, s.made p ≤ t.made p ∧ (t.made p = s.made p → (s.proc p).state ∈ [.zombie,.unused] →
    (t.proc p).state ∈ [.zombie,.unused])

/-- What is left to show of a step from `s` to `t`. -/
def After (s t : Sys C n) : Prop := Inv t ∧ Ages s t

lemma Ages.trans {s t u : Sys C n} (h : Ages s t) (h' : Ages t u) : Ages s u := fun p =>
  ⟨(h p).1.trans (h' p).1,fun hm hs => (h' p).2 (le_antisymm (hm ▸ (h p).1) (h' p).1)
    ((h p).2 (le_antisymm (hm ▸ (h' p).1) (h p).1) hs)⟩

lemma After.trans {s t u : Sys C n} (h : After s t) (h' : After t u) : After s u :=
  ⟨h'.1,h.2.trans h'.2⟩

/-- CPU `c` moves on its stack; it keeps its process, and the contexts in memory stay. -/
structure Moves (s t : Sys C n) (c : C) : Prop extends Frame s t c where
  stack : (t.cpu c).regs.stack = (s.cpu c).regs.stack
  cpu_proc : (t.cpu c).proc = (s.cpu c).proc
  home : (t.cpu c).context = (s.cpu c).context
  context : ∀ q, (t.proc q).context = (s.proc q).context
  state : ∀ q, Ordinary (s.proc q).state (t.proc q).state
  maker : t.maker = s.maker
  made : t.made = s.made
  panicked : t.panicked = s.panicked

/-- A position that may come after another one. -/
structure Next (o : Option (Fin n)) (k k' : Pc n) : Prop where
  legal : k'.Legal o
  source : k.target = none
  target : k'.target = none
  child : ∀ q, k'.child = some q → k.child = some q
  alloc : ∀ q, k ≠ .allocInit q
  leaving : ∀ w j, k' ≠ .schedLoad w j

section Steps
variable {s t : Sys C n} {c : C} {p q : Fin n} {k k' : Pc n}

namespace Moves

lemma off_iff (m : Moves s t c) : t.Off p ↔ s.Off p := by
  simp only [Sys.Off,m.same (·.regs.stack) m.stack]

lemma ages (m : Moves s t c) : Ages s t := by
  intro p
  refine ⟨(congrFun m.made p).ge,fun _ hs => ?_⟩
  have ho := m.state p
  revert hs ho
  generalize (s.proc p).state = a
  generalize (t.proc p).state = b
  cases a <;> cases b <;> decide

end Moves

/-- The state after a move, from what the move says about locks and interrupts. -/
lemma Inv.move (I : Inv s) (m : Moves s t c) (hk : (s.cpu c).regs.pc = k)
    (hk' : (t.cpu c).regs.pc = k') (hn : Next (s.cpu c).regs.stack.proc k k')
    (hshows : ∀ p, (s.cpu c).proc = some p → k'.Shows (t.proc p).state)
    (hnoff : (t.cpu c).noff =
      k'.locks.length+(k'.holds (s.cpu c).regs.stack.proc).toList.length)
    (hintr : (t.cpu c).intr = true → (t.cpu c).noff = 0)
    (hlock : ∀ q, (t.proc q).lock = some c ↔ k'.holds (s.cpu c).regs.stack.proc = some q)
    (hspin : ∀ l, t.spin l = some c ↔ l ∈ k'.locks) : After s t := by
  subst hk hk'
  have hstates : ∀ a b, Ordinary a b → (b = .running → a = .running) ∧
      (b ∉ [PState.zombie,.unused] → a ∉ [PState.zombie,.unused]) ∧ (a = .used ↔ b = .used) ∧
      (b ∈ [PState.runnable,.sleeping,.running] → a ∈ [PState.runnable,.sleeping,.running]) := by
    intro a b
    cases a <;> cases b <;> decide
  have halloc : ∀ p, (∀ c', (t.cpu c').regs.pc ≠ .allocInit p) →
      ∀ c', (s.cpu c').regs.pc ≠ .allocInit p := fun p => m.alloc (hn.alloc p)
  have O := I.ok c
  refine ⟨I.of_same m.toFrame ?_ m.cpu_proc (fun p => (hstates _ _ (m.state p)).1)
    (fun p hoff hu ha => ?_) (fun p hu ha => ?_) (fun p j q ht hj => ?_) m.panicked,m.ages⟩
  · refine ⟨?_,fun c₂ h => O.own c₂ (m.stack ▸ h),?_,?_,hintr,fun q => ?_,hspin,
      fun p hp => hshows p (m.cpu_proc ▸ hp),fun p hp => ?_,fun p w j hr => ?_⟩
    · rw [m.stack]
      exact hn.legal
    · rw [m.cpu_proc,O.cpu_proc,Ctx.current,Ctx.current,m.stack,hn.source,hn.target]
    · rw [Ctx.holds,m.stack]
      exact hnoff
    · rw [Ctx.holds,m.stack]
      exact hlock q
    · rw [m.home]
      refine O.home p (hp.imp (fun h => m.stack ▸ h) fun h => ?_)
      have ht := hn.target
      rw [h] at ht
      cases ht
    · exact absurd (congrArg Ctx.pc hr) (hn.leaving w j)
  · rw [m.context]
    exact I.saved p (m.off_iff.mp hoff) ((hstates _ _ (m.state p)).2.1 hu) (halloc p ha)
  · rw [m.context]
    exact I.fresh p ((hstates _ _ (m.state p)).2.2.1.mpr hu) (halloc p ha)
  · have hthread : ∃ i, s.Thread p i ∧ i.child = some q := by
      rcases ht with ⟨c',hr⟩ | ⟨hoff,hu,hctx⟩
      · by_cases hcc : c' = c
        · subst hcc
          refine ⟨_,Inv.thread (m.stack.symm.trans (congrArg Ctx.stack hr)),hn.child q ?_⟩
          rw [hr]
          exact hj
        · exact ⟨j,.inl ⟨c',m.cpu c' hcc ▸ hr⟩,hj⟩
      · exact ⟨j,.inr ⟨m.off_iff.mp hoff,(hstates _ _ (m.state p)).2.2.2 hu,m.context p ▸ hctx⟩,hj⟩
    obtain ⟨i,hi,hq⟩ := hthread
    rw [m.maker,← (hstates _ _ (m.state q)).2.2.1]
    exact I.child p i q hi hq

lemma Ok.goto (O : Ok s c) (hk : (s.cpu c).regs.pc = k)
    (hcpu : t.cpu c = { s.cpu c with regs := ⟨(s.cpu c).regs.stack,k'⟩ })
    (hlock : ∀ r, (t.proc r).lock = (s.proc r).lock) (hspin : t.spin = s.spin)
    (hleg : k'.Legal (s.cpu c).regs.stack.proc) (hsrc : k.target = none) (htgt : k'.target = none)
    (hs : ∀ p, (s.cpu c).proc = some p → k'.Shows (t.proc p).state)
    (hh : k'.holds (s.cpu c).regs.stack.proc = k.holds (s.cpu c).regs.stack.proc)
    (hl : k'.locks = k.locks)
    (hleave : ∀ p w j, (s.cpu c).regs.stack = .kstack p → k' = .schedLoad w j →
      ∃ intena, (t.proc p).context = ⟨.kstack p,.resumed w j intena⟩) : Ok t c := by
  subst hk
  refine .of_cpu hcpu hleg O.own ?_ ?_ O.intr (fun q => ?_) (fun l => ?_) hs (fun p hp => ?_)
    fun p w j hr => hleave p w j (congrArg Ctx.stack hr) (congrArg Ctx.pc hr)
  · have hp := O.cpu_proc
    rw [Ctx.current,hsrc] at hp
    show _ = Ctx.current ⟨_,_⟩
    rw [Ctx.current,htgt]
    exact hp
  · show _ = k'.locks.length+(k'.holds _).toList.length
    rw [hl,hh]
    exact O.noff
  · show _ ↔ k'.holds _ = some q
    rw [hlock,hh]
    exact O.lock q
  · show _ ↔ l ∈ k'.locks
    rw [hspin,hl]
    exact O.spin l
  · refine O.home p (hp.imp id fun (h : k' = .load p) => ?_)
    rw [h] at htgt
    cases htgt

lemma Next.of {o : Option (Fin n)} (hl : k'.Legal o) (hk : k.plain = true) (hk' : k'.plain = true)
    (hchild : k'.child = none ∨ k'.child = k.child) : Next o k k' := by
  refine ⟨hl,Pc.plain_target hk,Pc.plain_target hk',fun q hq => ?_,?_,?_⟩
  · rcases hchild with h | h <;> rw [h] at hq
    · cases hq
    · exact hq
  · rintro q rfl
    cases hk
  · rintro w j rfl
    cases hk'

/-- A function returns to where no process lock is held. -/
lemma Next.ret {o : Option (Fin n)} (hh : k'.holds o = none) (hl : k'.Legal o)
    (hk : k.plain = true) (hchild : k'.child = k.child) : Next o k k' :=
  .of hl hk (Pc.plain_of_holds hh) (.inr hchild)

variable [DecidableEq C]

section Fields
variable (s c q k) (f : Cpu C n → Cpu C n)

@[simp] lemma setCpu_cpu : (s.setCpu c f).cpu c = f (s.cpu c) := update_self ..
@[simp] lemma setCpu_cpu_ne {c' : C} (h : c' ≠ c) : (s.setCpu c f).cpu c' = s.cpu c' :=
  update_of_ne h ..
lemma goto_setCpu : ((s.setCpu c f).goto c k).cpu =
    update s.cpu c { f (s.cpu c) with regs := ⟨(f (s.cpu c)).regs.stack,k⟩ } := by
  simp [Sys.goto,Sys.setCpu]

omit [DecidableEq C]
variable (g : Proc C n → Proc C n)

@[simp] lemma setProc_proc : (s.setProc q g).proc q = g (s.proc q) := update_self ..
@[simp] lemma setProc_proc_ne {r : Fin n} (h : r ≠ q) : (s.setProc q g).proc r = s.proc r :=
  update_of_ne h ..

end Fields

/-- A jump, with changes to the CPU's interrupt state and to the locks that it holds. -/
lemma Inv.jump (I : Inv s) {u : Cpu C n} (hk : (s.cpu c).regs.pc = k)
    (hcpu : t.cpu = update s.cpu c u) (hp : u.proc = (s.cpu c).proc)
    (hctx : u.context = (s.cpu c).context) (hregs : u.regs = ⟨(s.cpu c).regs.stack,k'⟩)
    (hsame : ∀ r, (t.proc r).state = (s.proc r).state ∧ (t.proc r).context = (s.proc r).context)
    (hrest : t.maker = s.maker ∧ t.made = s.made ∧ t.panicked = s.panicked)
    (hlock : ∀ c' r, c' ≠ c → ((t.proc r).lock = some c' ↔ (s.proc r).lock = some c'))
    (hspin : ∀ c' l, c' ≠ c → (t.spin l = some c' ↔ s.spin l = some c'))
    (hn : Next (s.cpu c).regs.stack.proc k k') (hs : k'.Shows = k.Shows)
    (hnoff : u.noff = k'.locks.length+(k'.holds (s.cpu c).regs.stack.proc).toList.length)
    (hintr : u.intr = true → u.noff = 0)
    (hown : ∀ q, (t.proc q).lock = some c ↔ k'.holds (s.cpu c).regs.stack.proc = some q)
    (hheld : ∀ l, t.spin l = some c ↔ l ∈ k'.locks) : After s t := by
  have hc : t.cpu c = u := by rw [hcpu,update_self]
  refine I.move ⟨⟨fun c' h => ?_,hlock,hspin,fun _ r _ _ => hsame r⟩,?_,?_,?_,fun r => (hsame r).2,
    fun r => .inl (hsame r).1,hrest.1,hrest.2.1,hrest.2.2⟩ hk ?_ hn (fun p h => ?_) ?_ ?_ hown hheld
  · rw [hcpu,update_of_ne h]
  · rw [hc,hregs]
  · rw [hc,hp]
  · rw [hc,hctx]
  · rw [hc,hregs]
  · rw [(hsame p).1]
    rw [hs]
    exact (I.ok c).shows_at hk h
  · rw [hc]
    exact hnoff
  · rw [hc]
    exact hintr

omit [DecidableEq C] in
lemma Ok.intr_off (O : Ok s c) (h : 0 < (s.cpu c).noff) : (s.cpu c).intr = false :=
  Bool.eq_false_iff.mpr fun hi => h.ne' (O.intr hi)

/-- The CPU after `pop_off`. -/
def Cpu.popped (u : Cpu C n) : Cpu C n :=
  { u with noff := u.noff-1, intr := u.noff-1 = 0 ∧ u.intena }

lemma Ok.popOff_eq (O : Ok s c) (h : 0 < (s.cpu c).noff) (hu : t.cpu = s.cpu) :
    t.popOff c = t.setCpu c Cpu.popped := by
  rw [Sys.popOff,hu,O.intr_off h,if_neg (by simp),if_neg (by omega)]
  rfl

lemma goto_self (hk : (s.cpu c).regs.pc = k) : s.goto c k = s := by
  subst hk
  simp [Sys.goto,Sys.setCpu]

section Locks
variable (I : Inv s) (hk : (s.cpu c).regs.pc = k)
include I hk

lemma Inv.flip {f : Cpu C n → Cpu C n}
    (hf : ∀ u, (f u).proc = u.proc ∧ (f u).noff = u.noff ∧ (f u).context = u.context ∧
      (f u).regs = u.regs)
    (hi : (f (s.cpu c)).intr = true → (s.cpu c).noff = 0)
    (hn : Next (s.cpu c).regs.stack.proc k k')
    (hs : k'.Shows = k.Shows)
    (hh : k'.holds (s.cpu c).regs.stack.proc = k.holds (s.cpu c).regs.stack.proc)
    (hl : k'.locks = k.locks) : After s ((s.setCpu c f).goto c k') := by
  subst hk
  have O := I.ok c
  obtain ⟨hp,hno,hctx,hregs⟩ := hf (s.cpu c)
  refine I.jump (u := { f (s.cpu c) with regs := ⟨(s.cpu c).regs.stack,k'⟩ }) rfl
    (by simp [Sys.goto,Sys.setCpu,hregs]) hp hctx rfl (fun _ => ⟨rfl,rfl⟩) ⟨rfl,rfl,rfl⟩
    (fun _ _ _ => Iff.rfl) (fun _ _ _ => Iff.rfl) hn hs ?_ (fun h => hno.trans (hi h))
    (fun q => ?_) fun l => ?_
  · rw [hl,hh]
    exact hno.trans O.noff
  · rw [hh]
    exact O.lock q
  · rw [hl]
    exact O.spin l

lemma Inv.goto
    (hn : Next (s.cpu c).regs.stack.proc k k')
    (hs : k'.Shows = k.Shows)
    (hh : k'.holds (s.cpu c).regs.stack.proc = k.holds (s.cpu c).regs.stack.proc)
    (hl : k'.locks = k.locks) : After s (s.goto c k') := by
  have h : s.setCpu c id = s := by simp [Sys.setCpu]
  have := I.flip (f := id) hk (fun u => ⟨rfl,rfl,rfl,rfl⟩) (I.ok c).intr hn hs hh hl
  rwa [h] at this

/-- `acquire` of a process lock by a CPU that holds none. -/
lemma Inv.acquire (ht : s.acquire c q k' = some t)
    (hn : Next (s.cpu c).regs.stack.proc k k')
    (hs : k'.Shows = k.Shows)
    (hh : k.holds (s.cpu c).regs.stack.proc = none)
    (hh' : k'.holds (s.cpu c).regs.stack.proc = some q)
    (hl : k'.locks = k.locks) : After s t := by
  subst hk
  have O := I.ok c
  have hfree : ∀ r, (s.proc r).lock ≠ some c := fun r h => by
    have := (O.lock r).mp h
    rw [Ctx.holds,hh] at this
    cases this
  rw [Sys.acquire,if_neg (hfree q)] at ht
  obtain ⟨hlock,ht⟩ := Option.ite_none_right_eq_some.mp ht
  cases ht
  refine I.jump (u := { (s.pushOff c).cpu c with regs := ⟨(s.cpu c).regs.stack,k'⟩ }) rfl
    (by simp [Sys.goto,Sys.setCpu,Sys.setProc,Sys.pushOff]) (by simp [Sys.pushOff])
    (by simp [Sys.pushOff]) rfl (fun r => ?_) ⟨rfl,rfl,rfl⟩ (fun c' r h => ?_)
    (fun _ _ _ => Iff.rfl) hn hs ?_ (by simp [Sys.pushOff]) (fun r => ?_) fun l => ?_
  · by_cases hr : r = q <;> simp [Sys.goto,Sys.pushOff,hr]
  · by_cases hr : r = q <;> simp [Sys.goto,Sys.pushOff,hr,hlock,Ne.symm h]
  · have hno := O.noff
    rw [Ctx.holds,hh] at hno
    rw [hl,hh']
    simpa [Sys.pushOff] using hno
  · rw [hh',Option.some_inj]
    by_cases hr : r = q
    · simp [Sys.goto,Sys.pushOff,hr]
    · simp [Sys.goto,Sys.pushOff,hr,Ne.symm hr,hfree r]
  · rw [hl]
    exact O.spin l

lemma Inv.release (ht : s.release c q k' = some t)
    (hn : Next (s.cpu c).regs.stack.proc k k')
    (hs : k'.Shows = k.Shows)
    (hh : k.holds (s.cpu c).regs.stack.proc = some q)
    (hh' : k'.holds (s.cpu c).regs.stack.proc = none)
    (hl : k'.locks = k.locks) : After s t := by
  subst hk
  have O := I.ok c
  have hlk : (s.proc q).lock = some c := (O.lock q).mpr hh
  have hno := O.noff
  rw [Ctx.holds,hh] at hno
  have hno : (s.cpu c).noff = (s.cpu c).regs.pc.locks.length+1 := hno
  rw [Sys.release,if_pos hlk,O.popOff_eq (t := s.setProc q _) (by omega) rfl] at ht
  cases ht
  refine I.jump (u := { (s.cpu c).popped with regs := ⟨(s.cpu c).regs.stack,k'⟩ }) rfl
    (goto_setCpu ..) rfl rfl rfl (fun r => ?_) ⟨rfl,rfl,rfl⟩
    (fun c' r h => ?_) (fun _ _ _ => Iff.rfl) hn hs ?_ (fun h => (of_decide_eq_true h).1)
    (fun r => ?_) fun l => ?_
  · by_cases hr : r = q <;> simp [Sys.goto,hr]
  · by_cases hr : r = q <;> simp [Sys.goto,hr,hlk,Ne.symm h]
  · rw [hl,hh']
    exact congrArg (·-1) hno
  · rw [hh']
    by_cases hr : r = q
    · simp [Sys.goto,hr]
    · have := O.lock r
      rw [Ctx.holds,hh] at this
      simp [Sys.goto,hr,this,Ne.symm hr]
  · rw [hl]
    exact O.spin l

lemma Inv.acquireSpin {l : ℕ} (ht : s.acquireSpin c k' l = some t) (hn : Next (s.cpu c).regs.stack.proc k k')
    (hs : k'.Shows = k.Shows)
    (hh : k'.holds (s.cpu c).regs.stack.proc = k.holds (s.cpu c).regs.stack.proc)
    (hl : l ∉ k.locks) (hl' : k'.locks = l::k.locks) : After s t := by
  subst hk
  have O := I.ok c
  rw [Sys.acquireSpin,if_neg fun h => hl ((O.spin l).mp h)] at ht
  obtain ⟨hfree,ht⟩ := Option.ite_none_right_eq_some.mp ht
  cases ht
  refine I.jump (u := { (s.pushOff c).cpu c with regs := ⟨(s.cpu c).regs.stack,k'⟩ }) rfl
    (by simp [Sys.goto,Sys.setCpu,Sys.pushOff]) (by simp [Sys.pushOff]) (by simp [Sys.pushOff]) rfl
    (fun _ => ⟨rfl,rfl⟩) ⟨rfl,rfl,rfl⟩ (fun _ _ _ => Iff.rfl) (fun c' m h => ?_) hn hs ?_
    (by simp [Sys.pushOff]) (fun r => ?_) fun m => ?_
  · by_cases hm : m = l <;> simp [Sys.goto,hm,hfree,Ne.symm h]
  · have hno := O.noff
    rw [Ctx.holds] at hno
    rw [hl',hh,length_cons]
    simp only [Sys.pushOff,setCpu_cpu]
    omega
  · rw [hh]
    exact O.lock r
  · rw [hl',mem_cons,← O.spin m]
    by_cases hm : m = l <;> simp [Sys.goto,hm]

lemma Inv.releaseSpin {l : ℕ} (ht : s.releaseSpin c k' l = some t) (hn : Next (s.cpu c).regs.stack.proc k k')
    (hl : l ∈ k.locks) (hs : k'.Shows = k.Shows)
    (hh : k'.holds (s.cpu c).regs.stack.proc = k.holds (s.cpu c).regs.stack.proc)
    (hl' : k'.locks = k.locks.erase l) : After s t := by
  subst hk
  have O := I.ok c
  have hno := O.noff
  have hpos := length_pos_of_mem hl
  rw [Sys.releaseSpin,if_pos ((O.spin l).mpr hl),
    O.popOff_eq (t := { s with spin := update s.spin l none }) (by omega) rfl] at ht
  cases ht
  refine I.jump (u := { (s.cpu c).popped with regs := ⟨(s.cpu c).regs.stack,k'⟩ }) rfl
    (goto_setCpu ..) rfl rfl rfl (fun _ => ⟨rfl,rfl⟩) ⟨rfl,rfl,rfl⟩
    (fun _ _ _ => Iff.rfl) (fun c' m h => ?_) hn hs ?_ (fun h => (of_decide_eq_true h).1)
    (fun r => ?_) fun m => ?_
  · by_cases hm : m = l <;> simp [Sys.goto,hm,(O.spin l).mpr hl,Ne.symm h]
  · rw [Ctx.holds] at hno
    rw [hl',hh,length_erase_of_mem hl]
    dsimp only [Cpu.popped]
    omega
  · rw [hh]
    exact O.lock r
  · rw [hl',(Pc.nodup_locks O.legal).mem_erase_iff,← O.spin m]
    by_cases hm : m = l <;> simp [Sys.goto,hm]

/-- An assignment to the fields of a locked process. -/
lemma Inv.set {g : Proc C n → Proc C n}
    (hh : k.holds (s.cpu c).regs.stack.proc = some q)
    (hg : ∀ r, (g r).lock = r.lock ∧ (g r).context = r.context)
    (ho : Ordinary (s.proc q).state (g (s.proc q)).state)
    (hrun : (g (s.proc q)).state = (s.proc q).state ∨ (s.proc q).state ≠ .running ∨
      (s.cpu c).proc = some q)
    (hn : Next (s.cpu c).regs.stack.proc k k')
    (hs : ∀ p, (s.cpu c).proc = some p → k'.Shows ((s.setProc q g).proc p).state)
    (hh' : k'.holds (s.cpu c).regs.stack.proc = some q) (hl : k'.locks = k.locks) :
    After s ((s.setProc q g).goto c k') := by
  subst hk
  have O := I.ok c
  generalize ht : (s.setProc q g).goto c k' = t
  have hproc : t.proc = (s.setProc q g).proc := by simp [← ht,Sys.goto]
  have hcpu : t.cpu c = { s.cpu c with regs := ⟨(s.cpu c).regs.stack,k'⟩ } := by
    simp [← ht,Sys.goto]
  have hctx : ∀ r, (t.proc r).lock = (s.proc r).lock ∧ (t.proc r).context = (s.proc r).context := by
    intro r
    rw [hproc]
    by_cases hr : r = q
    · rw [hr,setProc_proc]
      exact hg _
    · rw [setProc_proc_ne _ _ _ hr]
      exact ⟨rfl,rfl⟩
  have f : Frame s t c := by
    refine ⟨fun c' h => by simp [← ht,Sys.goto,h],fun c' r h => by rw [(hctx r).1],
      fun c' l h => by simp [← ht,Sys.goto],fun c' r h hr => ⟨?_,(hctx r).2⟩⟩
    rw [hproc]
    by_cases hrq : r = q
    · subst hrq
      rw [setProc_proc]
      rcases hrun with h' | h' | h'
      · exact h'
      · exact absurd hr (I.not_elsewhere hh h' h)
      · exact absurd (I.unique c' c r hr h') h
    · rw [setProc_proc_ne _ _ _ hrq]
  refine I.move ⟨f,by rw [hcpu],by rw [hcpu],by rw [hcpu],fun r => (hctx r).2,fun r => ?_,?_,?_,?_⟩
    rfl (by rw [hcpu]) hn (fun p hp => ?_) ?_ ?_ (fun r => ?_) fun l => ?_
  · rw [hproc]
    by_cases hr : r = q
    · rw [hr,setProc_proc]
      exact ho
    · rw [setProc_proc_ne _ _ _ hr]
      exact .inl rfl
  · simp [← ht,Sys.goto]
  · simp [← ht,Sys.goto]
  · simp [← ht,Sys.goto]
  · rw [hproc]
    exact hs p hp
  · rw [hcpu,hl,hh',← hh]
    exact O.noff
  · rw [hcpu]
    exact O.intr
  · rw [(hctx r).1,hh',← hh]
    exact O.lock r
  · rw [hl]
    simpa [← ht,Sys.goto] using O.spin l

/-- An assignment to fields that the scheduler does not look at. -/
lemma Inv.touch {g : Proc C n → Proc C n}
    (hh : k.holds (s.cpu c).regs.stack.proc = some q)
    (hg : ∀ r, (g r).lock = r.lock ∧ (g r).context = r.context ∧ (g r).state = r.state)
    (hn : Next (s.cpu c).regs.stack.proc k k) : After s (s.setProc q g) := by
  have h : (s.setProc q g).goto c k = s.setProc q g := goto_self hk
  have := I.set hk hh (fun r => ⟨(hg r).1,(hg r).2.1⟩) (.inl (hg _).2.2) (.inl (hg _).2.2) hn
    (fun p hp => ?_) hh rfl
  · rwa [h] at this
  · have hs := (I.ok c).shows_at hk hp
    by_cases hpq : p = q
    · rw [hpq,setProc_proc,(hg _).2.2,← hpq]
      exact hs
    · rwa [setProc_proc_ne _ _ _ hpq]

end Locks

end Steps

end Xv6.Smp
