import Xv6.Proc.Table
import Xv6.Lib.Transition

/-! The scheduler on several CPUs: `scheduler`, `sched`, `yield`, `sleep`, `wakeup`, `exit`,
`kill`, `fork`, `wait` and `forkret` at the granularity of lock operations, assignments to
`p->state` and the two halves of `swtch`; `acquire`, `release`, `push_off` and `pop_off` are one step
each, and a CPU that spins takes none. A CPU executes at a position of the code on some stack,
and `swtch` copies that pair to a context in memory and loads another one. Interrupts come between
any two steps when they are enabled. Everything else that a process does, in the kernel or in user
space, is idling as far as these functions are concerned. -/
namespace Xv6.Smp
open Xv6.Process Xv6.Lib

variable {C : Type} [DecidableEq C] {n : ℕ}

/-- `wait_lock`; the other spinlocks, apart from those of the processes, are numbers too. -/
def WAIT : ℕ := 0

/-- Who called `sched`. -/
inductive Why (n : ℕ)
  | yield (p : Fin n)
  | sleep (p : Fin n) (lk : ℕ)
  | exit (p : Fin n)
  deriving DecidableEq

/-- A position in the code, with the local variables. Where a function is called from several
places, `k` is the position that it returns to. -/
inductive Pc (n : ℕ)
  -- the scheduler's thread
  | loop (i : ℕ) (found : Bool)
  | test (p : Fin n) (found : Bool)
  | save (p : Fin n)
  | load (p : Fin n)
  | back (p : Fin n)
  | unlock (p : Fin n) (found : Bool)
  -- any thread: code that holds the spinlocks `ls`, or a trap handler that does
  | idle (ls : List ℕ)
  | handler (ls : List ℕ) (k : Pc n)
  | wakeup (chan i : ℕ) (k : Pc n)
  | wakeupHeld (chan : ℕ) (q : Fin n) (k : Pc n)
  | wakeupRelease (chan : ℕ) (q : Fin n) (k : Pc n)
  -- `killed` and `setkilled`
  | visit (q : Fin n) (set : Bool) (k : Pc n)
  | visitHeld (q : Fin n) (set : Bool) (k : Pc n)
  -- `yield` and `sleep`
  | yieldAcquire (p : Fin n) (k : Pc n)
  | yieldSet (p : Fin n) (k : Pc n)
  | sleepAcquire (p : Fin n) (chan lk : ℕ) (k : Pc n)
  | sleepRelease (p : Fin n) (chan lk : ℕ) (k : Pc n)
  | sleepSet (p : Fin n) (chan lk : ℕ) (k : Pc n)
  | sched (w : Why n) (k : Pc n)
  | schedSave (p : Fin n) (w : Why n) (k : Pc n) (intena : Bool)
  | schedLoad (w : Why n) (k : Pc n)
  | resumed (w : Why n) (k : Pc n) (intena : Bool)
  | woken (w : Why n) (k : Pc n)
  | sleepUnlock (p : Fin n) (lk : ℕ) (k : Pc n)
  | sleepRelock (lk : ℕ) (k : Pc n)
  -- `exit`
  | exitWait
  | exitBody
  | exitSet (p : Fin n)
  | exitRelease (p : Fin n)
  -- `kill`
  | kill (pid : Int32) (i : ℕ)
  | killHeld (pid : Int32) (q : Fin n)
  | killRelease (pid : Int32) (q : Fin n) (found : Bool)
  -- `fork`, with `allocproc`
  | alloc (i : ℕ)
  | allocHeld (q : Fin n)
  | allocRelease (q : Fin n)
  | allocInit (q : Fin n)
  | forkCopy (q : Fin n)
  | forkFail (q : Fin n)
  | forkWait (q : Fin n)
  | forkParent (q : Fin n)
  | forkAcquire (q : Fin n)
  | forkStart (q : Fin n)
  | forkUnlock (q : Fin n)
  | forkret
  -- `wait`
  | waitStart
  | waitScan (i : ℕ)
  | waitHeld (q : Fin n)
  | waitRelease (q : Fin n) (found : Bool)
  | waitDone (found : Bool)
  deriving DecidableEq

/-- The stacks: one for each CPU's scheduler and one for each process. -/
inductive Stack (C : Type) (n : ℕ)
  | sched (c : C)
  | kstack (p : Fin n)
  deriving DecidableEq

/-- What `struct context` saves: stack pointer and return address. -/
structure Ctx (C : Type) (n : ℕ) where
  stack : Stack C n
  pc : Pc n
  deriving DecidableEq

/-- `struct cpu`, and the registers of the CPU: whether interrupts are enabled, and the position. -/
structure Cpu (C : Type) (n : ℕ) where
  proc : Option (Fin n)
  noff : ℕ
  intena : Bool
  context : Ctx C n
  intr : Bool
  regs : Ctx C n

/-- The fields of `struct proc` that these functions use. The lock is held by a CPU. -/
structure Proc (C : Type) (n : ℕ) where
  lock : Option C
  state : PState
  chan : ℕ
  killed : Bool
  pid : Int32
  context : Ctx C n

/-- The state. Two fields are not in the kernel: `made q` counts how often `allocproc` has taken
the slot `q`, and `maker q` is the process that last did. -/
structure Sys (C : Type) (n : ℕ) where
  cpu : C → Cpu C n
  proc : Fin n → Proc C n
  spin : ℕ → Option C
  nextpid : Int32
  panicked : Option String
  made : Fin n → ℕ
  maker : Fin n → Option (Fin n)

namespace Sys
variable (s : Sys C n) (c : C) (q : Fin n) (k : Pc n)

@[simps -fullyApplied proc spin maker made panicked]
def setCpu (f : Cpu C n → Cpu C n) : Sys C n :=
  { s with cpu := Function.update s.cpu c (f (s.cpu c)) }

@[simps -fullyApplied cpu spin maker made panicked]
def setProc (f : Proc C n → Proc C n) : Sys C n :=
  { s with proc := Function.update s.proc q (f (s.proc q)) }

/-- CPU `c` goes on at `k`. -/
def goto : Sys C n := s.setCpu c fun u => { u with regs := { u.regs with pc := k } }

def panic (msg : String) : Sys C n := { s with panicked := some msg }

/-- `push_off`, on CPU `c`. -/
def pushOff : Sys C n := s.setCpu c fun u =>
  { u with
    intr := false
    intena := if u.noff = 0 then u.intr else u.intena
    noff := u.noff+1 }

/-- `pop_off`. -/
def popOff : Sys C n :=
  if (s.cpu c).intr then s.panic "pop_off - interruptible"
  else if (s.cpu c).noff < 1 then s.panic "pop_off"
  else s.setCpu c fun u =>
    { u with
      noff := u.noff-1
      intr := u.noff-1 = 0 ∧ u.intena }

/-- `acquire(&q->lock)`, then on to `k`; while another CPU holds the lock there is no step. -/
def acquire : Option (Sys C n) :=
  if (s.proc q).lock = some c then some ((s.pushOff c).panic "acquire")
  else if (s.proc q).lock = none then
    some (((s.pushOff c).setProc q fun r => { r with lock := some c }).goto c k)
  else none

/-- `release(&q->lock)`, then on to `k`. -/
def release : Option (Sys C n) :=
  if (s.proc q).lock = some c then
    some (((s.setProc q fun r => { r with lock := none }).popOff c).goto c k)
  else some (s.panic "release")

/-- `acquire` of another spinlock. -/
def acquireSpin (l : ℕ) : Option (Sys C n) :=
  if s.spin l = some c then some ((s.pushOff c).panic "acquire")
  else if s.spin l = none then
    some ({ s.pushOff c with spin := Function.update s.spin l (some c) }.goto c k)
  else none

def releaseSpin (l : ℕ) : Option (Sys C n) :=
  if s.spin l = some c then
    some (({ s with spin := Function.update s.spin l none }.popOff c).goto c k)
  else some (s.panic "release")

def setState (st : PState) : Sys C n := s.setProc q fun r => { r with state := st }

/-- `freeproc`. -/
def freeproc : Sys C n :=
  s.setProc q fun r => { r with pid := 0, chan := 0, killed := false, state := .unused }

end Sys

/-- The checks of `sched`, and what it leaves for after the switch. -/
def sched (s : Sys C n) (c : C) (w : Why n) (k : Pc n) : Option (Sys C n) :=
  match (s.cpu c).proc with
  | none => none
  | some p =>
    if (s.proc p).lock ≠ some c then some (s.panic "sched p->lock")
    else if (s.cpu c).noff ≠ 1 then some (s.panic "sched locks")
    else if (s.proc p).state = .running then some (s.panic "sched running")
    else if (s.cpu c).intr then some (s.panic "sched interruptible")
    else some (s.goto c (.schedSave p w k (s.cpu c).intena))

/-- The next instructions of CPU `c`. -/
def run (s : Sys C n) (c : C) : Option (Sys C n) :=
  match (s.cpu c).regs.pc with
  -- for(p = proc; p < &proc[NPROC]; p++) { acquire(&p->lock); ... release(&p->lock); }
  | .loop i found =>
    if h : i < n then s.acquire c ⟨i,h⟩ (.test ⟨i,h⟩ found)
    -- found or not, the loop starts again with intr_on()
    else some ((s.setCpu c fun u => { u with intr := true }).goto c (.loop 0 false))
  | .test p found =>
    if (s.proc p).state = .runnable then
      some (((s.setState p .running).setCpu c fun u => { u with proc := some p }).goto c (.save p))
    else some (s.goto c (.unlock p found))
  -- swtch(&c->context, &p->context)
  | .save p =>
    some ((s.setCpu c fun u => { u with context := ⟨u.regs.stack,.back p⟩ }).goto c (.load p))
  | .load p => some (s.setCpu c fun u => { u with regs := (s.proc p).context })
  | .back p => some ((s.setCpu c fun u => { u with proc := none }).goto c (.unlock p true))
  | .unlock p found => s.release c p (.loop (p.val+1) found)
  | .idle _ | .handler _ _ => none
  | .wakeup chan i k =>
    if h : i < n then
      if (s.cpu c).proc = some ⟨i,h⟩ then some (s.goto c (.wakeup chan (i+1) k))
      else s.acquire c ⟨i,h⟩ (.wakeupHeld chan ⟨i,h⟩ k)
    else some (s.goto c k)
  | .wakeupHeld chan q k =>
    if (s.proc q).state = .sleeping ∧ (s.proc q).chan = chan then
      some ((s.setState q .runnable).goto c (.wakeupRelease chan q k))
    else some (s.goto c (.wakeupRelease chan q k))
  | .wakeupRelease chan q k => s.release c q (.wakeup chan (q.val+1) k)
  | .visit q set k => s.acquire c q (.visitHeld q set k)
  | .visitHeld q set k => (s.setProc q fun r => { r with killed := r.killed || set }).release c q k
  | .yieldAcquire p k => s.acquire c p (.yieldSet p k)
  | .yieldSet p k => some ((s.setState p .runnable).goto c (.sched (.yield p) k))
  | .sleepAcquire p chan lk k => s.acquire c p (.sleepRelease p chan lk k)
  | .sleepRelease p chan lk k => s.releaseSpin c (.sleepSet p chan lk k) lk
  | .sleepSet p chan lk k =>
    some ((s.setProc p fun r => { r with chan := chan, state := .sleeping }).goto c
      (.sched (.sleep p lk) k))
  | .sched w k => Smp.sched s c w k
  -- swtch(&p->context, &mycpu()->context)
  | .schedSave p w k intena =>
    some ((s.setProc p fun r =>
      { r with context := ⟨(s.cpu c).regs.stack,.resumed w k intena⟩ }).goto c (.schedLoad w k))
  | .schedLoad _ _ => some (s.setCpu c fun u => { u with regs := u.context })
  | .resumed w k intena =>
    some ((s.setCpu c fun u => { u with intena := intena }).goto c (.woken w k))
  | .woken (.yield p) k => s.release c p k
  | .woken (.sleep p lk) k =>
    some ((s.setProc p fun r => { r with chan := 0 }).goto c (.sleepUnlock p lk k))
  | .woken (.exit _) _ => some (s.panic "zombie exit")
  | .sleepUnlock p lk k => s.release c p (.sleepRelock lk k)
  | .sleepRelock lk k => s.acquireSpin c k lk
  | .exitWait => s.acquireSpin c .exitBody WAIT
  | .exitBody =>
    match (s.cpu c).proc with
    | none => none
    | some p => s.acquire c p (.exitSet p)
  | .exitSet p => some ((s.setState p .zombie).goto c (.exitRelease p))
  | .exitRelease p => s.releaseSpin c (.sched (.exit p) (.idle [])) WAIT
  | .kill pid i =>
    if h : i < n then s.acquire c ⟨i,h⟩ (.killHeld pid ⟨i,h⟩) else some (s.goto c (.idle []))
  | .killHeld pid q =>
    if (s.proc q).pid = pid then
      some ((s.setProc q fun r =>
        { r with
          killed := true
          state := if r.state = .sleeping then .runnable else r.state }).goto c
        (.killRelease pid q true))
    else some (s.goto c (.killRelease pid q false))
  | .killRelease pid q found => s.release c q (if found then .idle [] else .kill pid (q.val+1))
  | .alloc i =>
    if h : i < n then s.acquire c ⟨i,h⟩ (.allocHeld ⟨i,h⟩) else some (s.goto c (.idle []))
  | .allocHeld q =>
    if (s.proc q).state = .unused then
      some (({ s with
        nextpid := s.nextpid+1
        made := Function.update s.made q (s.made q+1)
        maker := Function.update s.maker q (s.cpu c).proc }.setProc q fun r =>
          { r with pid := s.nextpid, state := .used }).goto c (.allocInit q))
    else some (s.goto c (.allocRelease q))
  | .allocRelease q => s.release c q (.alloc (q.val+1))
  | .allocInit q =>
    some ((s.setProc q fun r => { r with context := ⟨.kstack q,.forkret⟩ }).goto c (.forkCopy q))
  | .forkCopy q => s.release c q (.forkWait q)
  | .forkFail q => s.release c q (.idle [])
  | .forkWait q => s.acquireSpin c (.forkParent q) WAIT
  | .forkParent q => s.releaseSpin c (.forkAcquire q) WAIT
  | .forkAcquire q => s.acquire c q (.forkStart q)
  | .forkStart q => some ((s.setState q .runnable).goto c (.forkUnlock q))
  | .forkUnlock q => s.release c q (.idle [])
  | .forkret =>
    match (s.cpu c).proc with
    | none => none
    | some p => s.release c p (.idle [])
  | .waitStart => s.acquireSpin c (.waitScan 0) WAIT
  | .waitScan i =>
    if h : i < n then s.acquire c ⟨i,h⟩ (.waitHeld ⟨i,h⟩) else some (s.goto c (.waitDone false))
  | .waitHeld q =>
    if (s.proc q).state = .zombie then some ((s.freeproc q).goto c (.waitRelease q true))
    else some (s.goto c (.waitRelease q false))
  | .waitRelease q found => s.release c q (if found then .waitDone true else .waitScan (q.val+1))
  | .waitDone _ => s.releaseSpin c (.idle []) WAIT

/-- What can happen at a CPU: the next instructions of the code at hand; an interrupt, its handler's
return or its call of `yield`; a call of one of the functions, or of other code that takes or
releases a spinlock; in `fork` and `wait` also a failure, or the step over a slot. -/
inductive Act (n : ℕ)
  | run
  | interrupt | iret | yield
  | acquire (l : ℕ)
  | release (l : ℕ)
  | sleep (chan lk : ℕ)
  | wakeup (chan : ℕ)
  | visit (q : Fin n) (set : Bool)
  | exit | kill (pid : Int32) | fork | wait
  | fail | skip

/-- A call, from where it can be made. -/
def call (s : Sys C n) (c : C) : Act n → Option (Sys C n)
  | .run => none
  | .interrupt =>
    if (s.cpu c).intr then
      some ((s.setCpu c fun u => { u with intr := false }).goto c (.handler [] (s.cpu c).regs.pc))
    else none
  | .iret =>
    match (s.cpu c).regs.pc with
    | .handler [] k => some ((s.setCpu c fun u => { u with intr := true }).goto c k)
    | _ => none
  | .yield =>
    match (s.cpu c).regs.pc,(s.cpu c).proc with
    | .handler [] k,some p => some (s.goto c (.yieldAcquire p (.handler [] k)))
    | _,_ => none
  | .acquire l =>
    match (s.cpu c).regs.pc with
    | .idle ls => if l ∈ ls then none else s.acquireSpin c (.idle (l::ls)) l
    | .handler ls k => if l ∈ ls then none else s.acquireSpin c (.handler (l::ls) k) l
    | _ => none
  | .release l =>
    match (s.cpu c).regs.pc with
    | .idle ls => if l ∈ ls then s.releaseSpin c (.idle (ls.erase l)) l else none
    | .handler ls k => if l ∈ ls then s.releaseSpin c (.handler (ls.erase l) k) l else none
    | _ => none
  | .sleep chan lk =>
    match (s.cpu c).regs.pc,(s.cpu c).proc with
    | .idle ls,some p =>
      if lk ∈ ls then some (s.goto c (.sleepAcquire p chan lk (.idle ls))) else none
    | .waitDone false,some p =>
      -- wait sleeps when it has found no zombie, and scans the table again
      if lk = WAIT then some (s.goto c (.sleepAcquire p chan lk (.waitScan 0))) else none
    | _,_ => none
  | .wakeup chan =>
    match (s.cpu c).regs.pc with
    | .idle ls => some (s.goto c (.wakeup chan 0 (.idle ls)))
    | .handler ls k => some (s.goto c (.wakeup chan 0 (.handler ls k)))
    | .exitBody => some (s.goto c (.wakeup chan 0 .exitBody))
    | _ => none
  | .visit q set =>
    match (s.cpu c).regs.pc with
    | .idle ls => some (s.goto c (.visit q set (.idle ls)))
    | .waitDone false => some (s.goto c (.visit q set (.waitDone false)))
    | _ => none
  | .exit => if (s.cpu c).regs.pc = .idle [] then some (s.goto c .exitWait) else none
  | .kill pid => if (s.cpu c).regs.pc = .idle [] then some (s.goto c (.kill pid 0)) else none
  | .fork => if (s.cpu c).regs.pc = .idle [] then some (s.goto c (.alloc 0)) else none
  | .wait => if (s.cpu c).regs.pc = .idle [] then some (s.goto c .waitStart) else none
  | .fail =>
    match (s.cpu c).regs.pc with
    -- kalloc or uvmcopy fails
    | .allocInit q => some ((s.freeproc q).goto c (.forkFail q))
    | .forkCopy q => some ((s.freeproc q).goto c (.forkFail q))
    -- copyout fails
    | .waitHeld q =>
      if (s.proc q).state = .zombie then some (s.goto c (.waitRelease q true)) else none
    | _ => none
  | .skip =>
    match (s.cpu c).regs.pc with
    -- the slot is not a child's
    | .waitScan i => if i < n then some (s.goto c (.waitScan (i+1))) else none
    | _ => none

/-- One step of one CPU. After a panic there is none. -/
def step (s : Sys C n) (e : C×Act n) : Option (Sys C n) :=
  if s.panicked ≠ none then none
  else
    match e.2 with
    | .run => run s e.1
    | a => call s e.1 a

/-- After boot: every CPU is about to enter its scheduler's loop, and the slots in use belong to
processes that have not run yet. -/
structure Sys.Initial (s : Sys C n) : Prop where
  regs : ∀ c, (s.cpu c).regs = ⟨.sched c,.loop 0 false⟩
  cpu_proc : ∀ c, (s.cpu c).proc = none
  noff : ∀ c, (s.cpu c).noff = 0
  lock : ∀ p, (s.proc p).lock = none
  state : ∀ p, (s.proc p).state = .unused ∨
    (s.proc p).state = .runnable ∧ (s.proc p).context = ⟨.kstack p,.forkret⟩
  spin : ∀ l, s.spin l = none
  panicked : s.panicked = none

/-- CPU `c` executes on the stack of `p`, or is about to load the context of `p`. -/
def Sys.Executes (s : Sys C n) (c : C) (p : Fin n) : Prop :=
  (s.cpu c).regs.stack = .kstack p ∨ (s.cpu c).regs.pc = .load p

end Xv6.Smp
