import Xv6.Param

/-! The pipe of `pipe.c` as a state machine. A process changes the pipe only while it holds
`pi->lock`; the lock is released at `sleep` and at return, and each pass of a copy loop is
one step, so that every intermediate state is a state of the machine. -/
namespace Xv6.Ipc

def PIPESIZE : ℕ := 512

/-- `struct pipe` without its lock. The counters are 32-bit and never reset. -/
structure Pipe where
  data : Fin PIPESIZE → UInt8
  nread : UInt32
  nwrite : UInt32
  readopen : Bool
  writeopen : Bool

def slotOf (n : ℕ) : Fin PIPESIZE := ⟨n%PIPESIZE,Nat.mod_lt _ (by decide)⟩

/-- The state `pipealloc` leaves, with whatever the page contained as data. -/
def pipealloc (page : Fin PIPESIZE → UInt8) : Pipe :=
  { data := page, nread := 0, nwrite := 0, readopen := true, writeopen := true }

/-- Where a process is in `pipewrite` or `piperead`, with the loop counter `i` and the size
argument `n`. A `want` position waits for `pi->lock`, an `at` position is the head of a loop
with the lock held, and a `sleep` position is SLEEPING on `&pi->nwrite` or `&pi->nread`. -/
inductive Pc
  | idle
  | wantWrite (i n : ℤ)
  | atWrite (i n : ℤ)
  | sleepWrite (i n : ℤ)
  | wantRead (n : ℤ)
  | atRead (n : ℤ)
  | sleepRead (n : ℤ)
  | atCopy (i n : ℤ)
  | ret (r : ℤ)
  deriving DecidableEq

namespace Pc

def holds : Pc → Bool
  | atWrite _ _ | atRead _ | atCopy _ _ => true
  | _ => false

def outside : Pc → Bool
  | idle | ret _ => true
  | _ => false

/-- The size argument of a `piperead` in progress. -/
def reading : Pc → Option ℤ
  | wantRead n | atRead n | sleepRead n | atCopy _ n => some n
  | _ => none

/-- `wakeup(&pi->nread)`, seen from one process: it then competes for `pi->lock`. -/
def wakeRead : Pc → Pc
  | sleepRead n => wantRead n
  | q => q

def wakeWrite : Pc → Pc
  | sleepWrite i n => wantWrite i n
  | q => q

end Pc

/-- One pipe with all processes that use it. `put` and `got` are ghost histories of the
bytes stored into and taken out of `pi->data`; no step reads them. -/
structure Sys where
  pipe : Pipe
  freed : Bool
  lock : Option Pid
  pc : Pid → Pc
  killed : Pid → Bool
  put : List UInt8
  got : List UInt8

namespace Sys

def goto (s : Sys) (p : Pid) (q : Pc) : Sys := { s with pc := Function.update s.pc p q }
def release (s : Sys) : Sys := { s with lock := none }
def wakeupNread (s : Sys) : Sys := { s with pc := fun p => (s.pc p).wakeRead }
def wakeupNwrite (s : Sys) : Sys := { s with pc := fun p => (s.pc p).wakeWrite }

-- pi->data[pi->nwrite++ % PIPESIZE] = ch
def store (s : Sys) (ch : UInt8) : Sys :=
  { s with
    pipe := { s.pipe with
      data := Function.update s.pipe.data (slotOf s.pipe.nwrite.toNat) ch
      nwrite := s.pipe.nwrite+1 }
    put := s.put++[ch] }

def next (s : Sys) : UInt8 := s.pipe.data (slotOf s.pipe.nread.toNat)

-- ch = pi->data[pi->nread++ % PIPESIZE]
def fetch (s : Sys) : Sys :=
  { s with pipe := { s.pipe with nread := s.pipe.nread+1 }, got := s.got++[s.next] }

end Sys

/-- What can happen next. A process acquires the lock at the start of a call and again on
return from `sleep`. `src` is what `copyin` delivers and `ok` the outcome of `copyout`, if
the pass of the loop calls them. -/
inductive Event
  | write (p : Pid) (n : ℤ)
  | read (p : Pid) (n : ℤ)
  | acquire (p : Pid)
  | writeIter (p : Pid) (src : Option UInt8)
  | readTest (p : Pid)
  | readIter (p : Pid) (ok : Bool)
  | close (writable : Bool)
  | kill (p : Pid)
  deriving DecidableEq

-- one pass of the loop of pipewrite, with the code after the loop
def pipewriteIter (s : Sys) (p : Pid) (src : Option UInt8) (i n : ℤ) : Sys :=
  if i < n then
    if s.pipe.readopen = false ∨ s.killed p then (s.goto p (.ret (-1))).release
    else if s.pipe.nwrite = s.pipe.nread+UInt32.ofNat PIPESIZE then
      (s.wakeupNread.goto p (.sleepWrite i n)).release
    else match src with
      | none => (s.wakeupNread.goto p (.ret i)).release
      | some ch => (s.store ch).goto p (.atWrite (i+1) n)
  else (s.wakeupNread.goto p (.ret i)).release

-- one test of the first loop of piperead
def pipereadTest (s : Sys) (p : Pid) (n : ℤ) : Sys :=
  if s.pipe.nread = s.pipe.nwrite ∧ s.pipe.writeopen then
    if s.killed p then (s.goto p (.ret (-1))).release
    else (s.goto p (.sleepRead n)).release
  else s.goto p (.atCopy 0 n)

/-- One pass of the copy loop of `piperead`, with the exit code after the loop. A byte is
taken out of the pipe before `copyout` is tried. -/
def pipereadIter (s : Sys) (p : Pid) (ok : Bool) (i n : ℤ) : Sys :=
  if i < n then
    if s.pipe.nread = s.pipe.nwrite then (s.wakeupNwrite.goto p (.ret i)).release
    else if ok then s.fetch.goto p (.atCopy (i+1) n)
    else (s.fetch.wakeupNwrite.goto p (.ret i)).release
  else (s.wakeupNwrite.goto p (.ret i)).release

/-- `pipeclose`, one critical section of `pi->lock`; the page is freed with the last end. -/
def pipeclose (s : Sys) (writable : Bool) : Sys :=
  let t := if writable then { s.wakeupNread with pipe := { s.pipe with writeopen := false } }
    else { s.wakeupNwrite with pipe := { s.pipe with readopen := false } }
  { t with freed := !t.pipe.readopen && !t.pipe.writeopen }

/-- `kill` needs no pipe lock: it may hit a process at any point of its call. -/
def kill (s : Sys) (p : Pid) : Sys :=
  ({ s with killed := Function.update s.killed p true }).goto p (s.pc p).wakeRead.wakeWrite

/-- The steps of the machine. After the last close the page is gone and nothing runs on it. -/
def step (s : Sys) (e : Event) : Option Sys :=
  if s.freed then none else
  match e with
  | .write p n => if (s.pc p).outside then some (s.goto p (.wantWrite 0 n)) else none
  | .read p n => if (s.pc p).outside then some (s.goto p (.wantRead n)) else none
  | .acquire p =>
    match s.lock,s.pc p with
    | none,.wantWrite i n => some { s.goto p (.atWrite i n) with lock := some p }
    | none,.wantRead n => some { s.goto p (.atRead n) with lock := some p }
    | _,_ => none
  | .writeIter p src =>
    match s.pc p with
    | .atWrite i n => some (pipewriteIter s p src i n)
    | _ => none
  | .readTest p =>
    match s.pc p with
    | .atRead n => some (pipereadTest s p n)
    | _ => none
  | .readIter p ok =>
    match s.pc p with
    | .atCopy i n => some (pipereadIter s p ok i n)
    | _ => none
  | .close writable => if s.lock = none then some (pipeclose s writable) else none
  | .kill p => some (kill s p)

def init (page : Fin PIPESIZE → UInt8) (killed : Pid → Bool) : Sys :=
  { pipe := pipealloc page, freed := false, lock := none, pc := fun _ => .idle,
    killed := killed, put := [], got := [] }

end Xv6.Ipc
