import Xv6.Lib.Transition
import Xv6.Param

/-! The process table of `proc.c` as a state machine. A step is one critical section of
`p->lock`, or the part of one of `wait_lock` between two of those: the loops of `allocproc`,
`reparent`, `wakeup`, `wait` and `kill` visit one slot in a step, and whoever holds `wait_lock`
keeps it over all the steps in between. -/
namespace Xv6.Process
open Option
open Function (update)

instance : NeZero NPROC := ⟨by decide⟩

abbrev Slot := Fin NPROC

-- userinit runs before any other allocproc
def initproc : Slot := ⟨0,NPROC_pos⟩

/-- `enum procstate`. -/
inductive PState
  | unused | used | sleeping | runnable | running | zombie
  deriving DecidableEq

/-- A sleep channel: the address of a slot of the table, as `wait` uses it, or any other. -/
inductive Chan
  | proc (p : Slot)
  | other (n : ℕ)
  deriving DecidableEq

/-- The part of `struct proc` that `p->lock` and `wait_lock` protect. -/
structure Proc where
  state : PState
  chan : Option Chan
  killed : Bool
  xstate : Int32
  pid : Int32
  parent : Option Slot
  deriving DecidableEq

def freeproc (p : Proc) : Proc :=
  { p with
    pid := 0
    parent := none
    chan := none
    killed := false
    xstate := 0
    state := .unused }

/-- What the kernel is doing on behalf of a process, with its local variables. A number is the
next slot of a loop over the table. -/
inductive Pc
  | dead
  | user
  | blocked (n : ℕ)
  | forkScan (j : ℕ)
  | forkLink (np : Slot) (pid : Int32)
  | forkRun (np : Slot) (pid : Int32)
  | exitLock (status : Int32)
  | reparent (status : Int32) (j : ℕ)
  | reparentWake (status : Int32) (j m : ℕ)
  | exitWake (status : Int32) (m : ℕ)
  | exitZombie (status : Int32)
  | waitLock (addr : UInt64)
  | waitScan (addr : UInt64) (j : ℕ) (havekids : Bool)
  | waitTest (addr : UInt64) (havekids : Bool)
  | waitSleep (addr : UInt64)
  | waitAsleep (addr : UInt64)
  | killScan (pid : Int32) (j : ℕ)
  deriving DecidableEq

/-- The positions at which a process holds `wait_lock`. -/
def Pc.locked : Pc → Bool
  | reparent _ _ | reparentWake _ _ _ | exitWake _ _ | exitZombie _ | waitScan _ _ _
  | waitTest _ _ | waitSleep _ => true
  | _ => false

def Pc.inWait : Pc → Bool
  | waitLock _ | waitScan _ _ _ | waitTest _ _ | waitSleep _ | waitAsleep _ => true
  | _ => false

/-- The value a system call returned: the `-1` of its error paths, or another. -/
inductive Ret
  | fail
  | val (n : Int32)
  deriving DecidableEq

/-- Why the flag `killed` is set: a call of `kill` with its argument, or `setkilled`. -/
inductive Cause
  | kill (pid : Int32)
  | fault
  deriving DecidableEq

/-- Ghost record of one use of a slot: a number no other process ever has, and what has set the
flag of this process. -/
structure Life where
  id : ℕ
  causes : List Cause
  deriving DecidableEq

@[simps]
def Life.struck (l : Life) (c : Cause) : Life := { l with causes := c::l.causes }

/-- Ghost history: a process has become a zombie, or `parent` has reaped it in `wait`, which
returned `pid` and stored `status`. -/
inductive Record
  | exit (id : ℕ) (pid status : Int32)
  | reap (parent id : ℕ) (pid status : Int32)
  deriving DecidableEq

/-- The table, `wait_lock`, `nextpid` and what every process is doing. The last four fields are
ghosts; `creator` maps a process to the one that forked it. -/
structure Sys where
  proc : Slot → Proc
  pc : Slot → Pc
  ret : Slot → Ret
  waitLock : Option Slot
  nextpid : Int32
  life : Slot → Life
  births : ℕ
  creator : ℕ → ℕ
  log : List Record

namespace Sys

@[simps]
def put (s : Sys) (p : Slot) (f : Proc → Proc) : Sys :=
  { s with proc := update s.proc p (f (s.proc p)) }

@[simps!]
def become (s : Sys) (p : Slot) (st : PState) : Sys := s.put p fun q => { q with state := st }

@[simps]
def goto (s : Sys) (p : Slot) (c : Pc) : Sys := { s with pc := update s.pc p c }

@[simps!]
def leave (s : Sys) (p : Slot) (r : Ret) : Sys :=
  { s.goto p .user with ret := update s.ret p r }

@[simps]
def acquire (s : Sys) (p : Slot) : Sys := { s with waitLock := some p }

@[simps]
def release (s : Sys) : Sys := { s with waitLock := none }

@[simps]
def record (s : Sys) (r : Record) : Sys := { s with log := s.log++[r] }

end Sys

/-- The slot a loop over the table visits next. -/
def slot? (j : ℕ) : Option Slot := if h : j < NPROC then some ⟨j,h⟩ else none

/-- `allocproc` at a slot that is UNUSED, up to the release of `np->lock` in `fork`. `ok` is
false if `kalloc`, `proc_pagetable` or `uvmcopy` fails. The flag `killed` is not written. -/
def allocproc (s : Sys) (p np : Slot) (ok : Bool) : Sys :=
  let pid := s.nextpid
  let s := { s with nextpid := s.nextpid+1 }
  if ok then
    { (s.put np fun q => { q with pid := pid, state := .used }).goto p (.forkLink np pid) with
      life := update s.life np { id := s.births, causes := [] }
      births := s.births+1
      creator := update s.creator s.births (s.life p).id }
  else (s.put np freeproc).leave p .fail

-- if(pp->parent == p){ pp->parent = initproc; wakeup(initproc); }
def reparentAt (s : Sys) (p pp : Slot) (status : Int32) : Sys :=
  if (s.proc pp).parent = some p then
    (s.put pp fun q => { q with parent := some initproc }).goto p (.reparentWake status pp 0)
  else s.goto p (.reparent status (pp+1))

-- one slot of wakeup(chan) called by me
def wakeupAt (s : Sys) (me q : Slot) (chan : Option Chan) : Sys :=
  if q ≠ me ∧ (s.proc q).state = .sleeping ∧ (s.proc q).chan = chan then s.become q .runnable
  else s

/-- One slot of the scan of `wait`; `ok` is the outcome of `copyout`, if it is called. -/
def waitAt (s : Sys) (p pp : Slot) (ok : Bool) (addr : UInt64) (havekids : Bool) : Sys :=
  if (s.proc pp).parent = some p then
    if (s.proc pp).state = .zombie then
      if addr ≠ 0 ∧ ok = false then s.release.leave p .fail
      else
        (((s.record (.reap (s.life p).id (s.life pp).id (s.proc pp).pid
          (s.proc pp).xstate)).put pp freeproc).release).leave p (.val (s.proc pp).pid)
    else s.goto p (.waitScan addr (pp+1) true)
  else s.goto p (.waitScan addr (pp+1) havekids)

/-- What `kill(pid)` called by `p` does to the slot it takes for that of its target. -/
def strike (s : Sys) (p q : Slot) (pid : Int32) : Sys :=
  { (s.put q fun r => { r with
      killed := true
      state := if r.state = .sleeping then .runnable else r.state }).leave p (.val 0) with
    life := if (s.proc q).state = .unused then s.life
      else update s.life q ((s.life q).struck (.kill pid)) }

/-- One slot of the scan of `kill`, which tests the pid of a slot in whatever state it is. -/
def killAt (s : Sys) (p q : Slot) (pid : Int32) : Sys :=
  if (s.proc q).pid = pid then strike s p q pid else s.goto p (.killScan pid (q+1))

/-- The next step of what process `p` does in the kernel. -/
def run (s : Sys) (p : Slot) (ok : Bool) : Option Sys :=
  match s.pc p with
  | .dead | .user => none
  | .blocked _ => some ((s.put p fun q => { q with chan := none }).goto p .user)
  | .forkScan j =>
    match slot? j with
    | some np =>
      if (s.proc np).state = .unused then some (allocproc s p np ok)
      else some (s.goto p (.forkScan (j+1)))
    | none => some (s.leave p .fail)
  | .forkLink np pid =>
    if s.waitLock = none then
      some ((s.put np fun q => { q with parent := some p }).goto p (.forkRun np pid))
    else none
  | .forkRun np pid => some (((s.become np .runnable).goto np .user).leave p (.val pid))
  | .exitLock status =>
    if s.waitLock = none then some ((s.acquire p).goto p (.reparent status 0)) else none
  | .reparent status j =>
    match slot? j with
    | some pp => some (reparentAt s p pp status)
    | none => some (s.goto p (.exitWake status 0))
  | .reparentWake status j m =>
    match slot? m with
    | some q => some ((wakeupAt s p q (some (.proc initproc))).goto p (.reparentWake status j (m+1)))
    | none => some (s.goto p (.reparent status (j+1)))
  | .exitWake status m =>
    match slot? m with
    | some q => some ((wakeupAt s p q ((s.proc p).parent.map .proc)).goto p (.exitWake status (m+1)))
    | none => some (s.goto p (.exitZombie status))
  | .exitZombie status =>
    some ((((s.put p fun q => { q with xstate := status, state := .zombie }).release).record
      (.exit (s.life p).id (s.proc p).pid status)).goto p .dead)
  | .waitLock addr =>
    if s.waitLock = none then some ((s.acquire p).goto p (.waitScan addr 0 false)) else none
  | .waitScan addr j havekids =>
    match slot? j with
    | some pp => some (waitAt s p pp ok addr havekids)
    | none => some (s.goto p (.waitTest addr havekids))
  | .waitTest addr havekids =>
    if havekids = false ∨ (s.proc p).killed = true then some (s.release.leave p .fail)
    else some (s.goto p (.waitSleep addr))
  | .waitSleep addr =>
    -- sleep(p, &wait_lock)
    some (((s.put p fun q => { q with chan := some (.proc p), state := .sleeping }).release).goto p
      (.waitAsleep addr))
  | .waitAsleep addr => some ((s.put p fun q => { q with chan := none }).goto p (.waitLock addr))
  | .killScan pid j =>
    match slot? j with
    | some q => some (killAt s p q pid)
    | none => some (s.leave p .fail)

/-- What can happen next: the scheduler picks a process or takes the CPU from one, a process
enters the kernel, sleeps on or is woken from some other channel, or goes on in the kernel. -/
inductive Event
  | schedule (p : Slot)
  | yield (p : Slot)
  | fork (p : Slot)
  | exit (p : Slot) (status : Int32)
  | wait (p : Slot) (addr : UInt64)
  | kill (p : Slot) (pid : Int32)
  | fault (p : Slot)
  | sleepOn (p : Slot) (n : ℕ)
  | wakeup (p : Slot) (n : ℕ)
  | run (p : Slot) (ok : Bool)
  deriving DecidableEq

def Sys.inUser (s : Sys) (p : Slot) : Bool :=
  decide ((s.proc p).state = .running ∧ s.pc p = .user)

def step (s : Sys) : Event → Option Sys
  | .schedule p => if (s.proc p).state = .runnable then some (s.become p .running) else none
  | .yield p =>
    -- interrupts are off while a spinlock is held
    if (s.proc p).state = .running ∧ (s.pc p).locked = false then some (s.become p .runnable)
    else none
  | .fork p => if s.inUser p then some (s.goto p (.forkScan 0)) else none
  | .exit p status =>
    -- panic("init exiting")
    if s.inUser p ∧ p ≠ initproc then some (s.goto p (.exitLock status)) else none
  | .wait p addr => if s.inUser p then some (s.goto p (.waitLock addr)) else none
  | .kill p pid => if s.inUser p then some (s.goto p (.killScan pid 0)) else none
  | .fault p =>
    -- setkilled(p)
    if s.inUser p then
      some { s.put p (fun q => { q with killed := true }) with
        life := update s.life p ((s.life p).struck .fault) }
    else none
  | .sleepOn p n =>
    if s.inUser p then
      some ((s.put p fun q => { q with chan := some (.other n), state := .sleeping }).goto p
        (.blocked n))
    else none
  | .wakeup p n =>
    if (s.proc p).state = .sleeping ∧ (s.proc p).chan = some (.other n) then
      some (s.become p .runnable)
    else none
  | .run p ok => if (s.proc p).state = .running then run s p ok else none

/-- The table when the first process is about to run. -/
def boot : Sys where
  proc p :=
    if p = initproc then
      { state := .runnable, chan := none, killed := false, xstate := 0, pid := 1, parent := none }
    else { state := .unused, chan := none, killed := false, xstate := 0, pid := 0, parent := none }
  pc p := if p = initproc then .user else .dead
  ret _ := .val 0
  waitLock := none
  nextpid := 2
  life _ := { id := 0, causes := [] }
  births := 1
  creator _ := 0
  log := []

lemma slot?_eq_some {j : ℕ} {q : Slot} : slot? j = some q ↔ q.val = j := by
  unfold slot?
  split
  · rw [some_inj,Fin.ext_iff]
    exact eq_comm
  · simp only [reduceCtorEq,false_iff]
    have := q.isLt
    omega

lemma slot?_eq_none {j : ℕ} : slot? j = none ↔ NPROC ≤ j := by
  unfold slot?
  split <;> simp <;> omega

/-- Where a system call of the process table starts. -/
def Pc.entry : Pc → Bool
  | forkScan 0 | exitLock _ | waitLock _ | killScan _ 0 => true
  | _ => false

/-- Everything that process `p` can do in the kernel, with the guards. -/
inductive Ran (s : Sys) (p : Slot) (ok : Bool) : Sys → Prop
  | unblocked {n} (hc : s.pc p = .blocked n) :
      Ran s p ok ((s.put p fun q => { q with chan := none }).goto p .user)
  | forkNext {j} (hc : s.pc p = .forkScan j) : Ran s p ok (s.goto p (.forkScan (j+1)))
  | forkFull {j} (hc : s.pc p = .forkScan j) : Ran s p ok (s.leave p .fail)
  | alloc {np j} (hc : s.pc p = .forkScan j) (hn : (s.proc np).state = .unused) :
      Ran s p ok (allocproc s p np true)
  | allocFail {np j} (hc : s.pc p = .forkScan j) (hn : (s.proc np).state = .unused) :
      Ran s p ok (allocproc s p np false)
  | link {np pid} (hc : s.pc p = .forkLink np pid) (hl : s.waitLock = none) :
      Ran s p ok ((s.put np fun q => { q with parent := some p }).goto p (.forkRun np pid))
  | start {np pid} (hc : s.pc p = .forkRun np pid) :
      Ran s p ok (((s.become np .runnable).goto np .user).leave p (.val pid))
  | exitLock {st} (hc : s.pc p = .exitLock st) (hl : s.waitLock = none) :
      Ran s p ok ((s.acquire p).goto p (.reparent st 0))
  | adopt {pp st} (hc : s.pc p = .reparent st pp.val) (hpp : (s.proc pp).parent = some p) :
      Ran s p ok ((s.put pp fun q => { q with parent := some initproc }).goto p
        (.reparentWake st pp 0))
  | reparentNext {pp st} (hc : s.pc p = .reparent st pp.val) (hpp : (s.proc pp).parent ≠ some p) :
      Ran s p ok (s.goto p (.reparent st (pp+1)))
  | reparentDone {j st} (hc : s.pc p = .reparent st j) (hj : NPROC ≤ j) :
      Ran s p ok (s.goto p (.exitWake st 0))
  | wakeInit {q j st} (hc : s.pc p = .reparentWake st j q.val) :
      Ran s p ok ((wakeupAt s p q (some (.proc initproc))).goto p (.reparentWake st j (q+1)))
  | wakeInitDone {j m st} (hc : s.pc p = .reparentWake st j m) (hm : NPROC ≤ m) :
      Ran s p ok (s.goto p (.reparent st (j+1)))
  | wakeParent {q st} (hc : s.pc p = .exitWake st q.val) :
      Ran s p ok ((wakeupAt s p q ((s.proc p).parent.map .proc)).goto p (.exitWake st (q+1)))
  | wakeParentDone {m st} (hc : s.pc p = .exitWake st m) (hm : NPROC ≤ m) :
      Ran s p ok (s.goto p (.exitZombie st))
  | zombie {st} (hc : s.pc p = .exitZombie st) :
      Ran s p ok ((((s.put p fun q => { q with xstate := st, state := .zombie }).release).record
        (.exit (s.life p).id (s.proc p).pid st)).goto p .dead)
  | waitLock {a} (hc : s.pc p = .waitLock a) (hl : s.waitLock = none) :
      Ran s p ok ((s.acquire p).goto p (.waitScan a 0 false))
  | copyoutFail {pp a k} (hc : s.pc p = .waitScan a pp.val k) (hpp : (s.proc pp).parent = some p)
      (hz : (s.proc pp).state = .zombie) (ha : a ≠ 0) (hok : ok = false) :
      Ran s p ok (s.release.leave p .fail)
  | reap {pp a k} (hc : s.pc p = .waitScan a pp.val k) (hpp : (s.proc pp).parent = some p)
      (hz : (s.proc pp).state = .zombie) :
      Ran s p ok ((((s.record (.reap (s.life p).id (s.life pp).id (s.proc pp).pid
        (s.proc pp).xstate)).put pp freeproc).release).leave p (.val (s.proc pp).pid))
  | child {pp a k} (hc : s.pc p = .waitScan a pp.val k) (hz : (s.proc pp).state ≠ .zombie) :
      Ran s p ok (s.goto p (.waitScan a (pp+1) true))
  | notChild {pp a k} (hc : s.pc p = .waitScan a pp.val k) (hpp : (s.proc pp).parent ≠ some p) :
      Ran s p ok (s.goto p (.waitScan a (pp+1) k))
  | scanned {a j k} (hc : s.pc p = .waitScan a j k) (hj : NPROC ≤ j) :
      Ran s p ok (s.goto p (.waitTest a k))
  | waitFail {a k} (hc : s.pc p = .waitTest a k) (hk : k = false ∨ (s.proc p).killed = true) :
      Ran s p ok (s.release.leave p .fail)
  | waitSleep {a k} (hc : s.pc p = .waitTest a k) : Ran s p ok (s.goto p (.waitSleep a))
  | sleep {a} (hc : s.pc p = .waitSleep a) :
      Ran s p ok (((s.put p fun q =>
        { q with chan := some (.proc p), state := .sleeping }).release).goto p (.waitAsleep a))
  | woken {a} (hc : s.pc p = .waitAsleep a) :
      Ran s p ok ((s.put p fun q => { q with chan := none }).goto p (.waitLock a))
  | killHit {q pid} (hc : s.pc p = .killScan pid q.val) (hq : (s.proc q).pid = pid) :
      Ran s p ok (strike s p q pid)
  | killNext {q : Slot} {pid} (hc : s.pc p = .killScan pid q.val) :
      Ran s p ok (s.goto p (.killScan pid (q+1)))
  | killNone {j pid} (hc : s.pc p = .killScan pid j) : Ran s p ok (s.leave p .fail)

/-- Everything a step can do. -/
inductive Trans (s : Sys) : Event → Sys → Prop
  | schedule {p} (hp : (s.proc p).state = .runnable) : Trans s (.schedule p) (s.become p .running)
  | yield {p} (hp : (s.proc p).state = .running) (hl : (s.pc p).locked = false) :
      Trans s (.yield p) (s.become p .runnable)
  | call {e p c} (hp : (s.proc p).state = .running) (hu : s.pc p = .user) (hc : c.entry = true)
      (hi : ∀ st, c = .exitLock st → p ≠ initproc) : Trans s e (s.goto p c)
  | fault {p} (hp : (s.proc p).state = .running) :
      Trans s (.fault p) { s.put p (fun q => { q with killed := true }) with
        life := update s.life p ((s.life p).struck .fault) }
  | sleepOn {p n} (hp : (s.proc p).state = .running) (hu : s.pc p = .user) :
      Trans s (.sleepOn p n) ((s.put p fun q =>
        { q with chan := some (.other n), state := .sleeping }).goto p (.blocked n))
  | wakeup {p n} (hp : (s.proc p).state = .sleeping) : Trans s (.wakeup p n) (s.become p .runnable)
  | run {p ok t} (hp : (s.proc p).state = .running) (ht : Ran s p ok t) : Trans s (.run p ok) t

variable {s t : Sys} {p : Slot} {e : Event}

lemma run_ran {ok : Bool} (h : run s p ok = some t) : Ran s p ok t := by
  unfold run at h
  cases hc : s.pc p with
  | dead | user => simp [hc] at h
  | blocked n =>
    simp only [hc,some_inj] at h
    exact h ▸ .unblocked hc
  | forkScan j =>
    simp only [hc] at h
    cases hj : slot? j with
    | none =>
      simp only [hj,some_inj] at h
      exact h ▸ .forkFull hc
    | some np =>
      simp only [hj] at h
      split at h
      · cases ok with
        | false => exact some_inj.mp h ▸ .allocFail hc ‹_›
        | true => exact some_inj.mp h ▸ .alloc hc ‹_›
      · exact some_inj.mp h ▸ .forkNext hc
  | forkLink np pid =>
    simp only [hc,ite_none_right_eq_some,some_inj] at h
    exact h.2 ▸ .link hc h.1
  | forkRun np pid =>
    simp only [hc,some_inj] at h
    exact h ▸ .start hc
  | exitLock st =>
    simp only [hc,ite_none_right_eq_some,some_inj] at h
    exact h.2 ▸ .exitLock hc h.1
  | reparent st j =>
    simp only [hc] at h
    split at h <;> rename_i hj
    · obtain rfl := slot?_eq_some.mp hj
      simp only [reparentAt,some_inj] at h
      split at h
      · exact h ▸ .adopt hc ‹_›
      · exact h ▸ .reparentNext hc ‹_›
    · cases h
      exact .reparentDone hc (slot?_eq_none.mp hj)
  | reparentWake st j m =>
    simp only [hc] at h
    split at h <;> rename_i hj <;> cases h
    · obtain rfl := slot?_eq_some.mp hj
      exact .wakeInit hc
    · exact .wakeInitDone hc (slot?_eq_none.mp hj)
  | exitWake st m =>
    simp only [hc] at h
    split at h <;> rename_i hj <;> cases h
    · obtain rfl := slot?_eq_some.mp hj
      exact .wakeParent hc
    · exact .wakeParentDone hc (slot?_eq_none.mp hj)
  | exitZombie st =>
    simp only [hc,some_inj] at h
    exact h ▸ .zombie hc
  | waitLock a =>
    simp only [hc,ite_none_right_eq_some,some_inj] at h
    exact h.2 ▸ .waitLock hc h.1
  | waitScan a j k =>
    simp only [hc] at h
    split at h <;> rename_i hj
    · obtain rfl := slot?_eq_some.mp hj
      simp only [waitAt,some_inj] at h
      split at h
      · split at h
        · split at h
          · rename_i hpp hz ha
            exact h ▸ .copyoutFail hc hpp hz ha.1 ha.2
          · exact h ▸ .reap hc ‹_› ‹_›
        · exact h ▸ .child hc ‹_›
      · exact h ▸ .notChild hc ‹_›
    · cases h
      exact .scanned hc (slot?_eq_none.mp hj)
  | waitTest a k =>
    simp only [hc] at h
    split at h
    · exact some_inj.mp h ▸ .waitFail hc ‹_›
    · exact some_inj.mp h ▸ .waitSleep hc
  | waitSleep a =>
    simp only [hc,some_inj] at h
    exact h ▸ .sleep hc
  | waitAsleep a =>
    simp only [hc,some_inj] at h
    exact h ▸ .woken hc
  | killScan pid j =>
    simp only [hc] at h
    split at h <;> rename_i hj
    · obtain rfl := slot?_eq_some.mp hj
      simp only [killAt,some_inj] at h
      split at h
      · exact h ▸ .killHit hc ‹_›
      · exact h ▸ .killNext hc
    · cases h
      exact .killNone hc

lemma step_ran {ok : Bool} (h : step s (.run p ok) = some t) : Ran s p ok t :=
  run_ran (ite_none_right_eq_some.mp h).2

lemma step_trans (h : step s e = some t) : Trans s e t := by
  cases e with
  | run p ok =>
    simp only [step,ite_none_right_eq_some] at h
    exact .run h.1 (run_ran h.2)
  | schedule p =>
    simp only [step,ite_none_right_eq_some,some_inj] at h
    exact h.2 ▸ .schedule h.1
  | yield p =>
    simp only [step,ite_none_right_eq_some,some_inj] at h
    exact h.2 ▸ .yield h.1.1 h.1.2
  | fork p | wait p a | kill p pid =>
    simp only [step,ite_none_right_eq_some,some_inj,Sys.inUser,decide_eq_true_eq] at h
    exact h.2 ▸ .call h.1.1 h.1.2 rfl (by simp)
  | exit p st =>
    simp only [step,ite_none_right_eq_some,some_inj,Sys.inUser,decide_eq_true_eq] at h
    exact h.2 ▸ .call h.1.1.1 h.1.1.2 rfl fun _ _ => h.1.2
  | fault p =>
    simp only [step,ite_none_right_eq_some,some_inj,Sys.inUser,decide_eq_true_eq] at h
    exact h.2 ▸ .fault h.1.1
  | sleepOn p n =>
    simp only [step,ite_none_right_eq_some,some_inj,Sys.inUser,decide_eq_true_eq] at h
    exact h.2 ▸ .sleepOn h.1.1 h.1.2
  | wakeup p n =>
    simp only [step,ite_none_right_eq_some,some_inj] at h
    exact h.2 ▸ .wakeup h.1.1

end Xv6.Process
