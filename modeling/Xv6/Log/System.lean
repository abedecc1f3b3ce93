import Xv6.Bio.Cache
import Xv6.Log.Program

/-! The log and the buffer cache run by any number of processes. A process switch may happen
between any two critical sections of `log.lock` and `bcache.lock`, and between any two steps
on a locked buffer. Kernel panics are states in which nothing more happens. -/
namespace Xv6.Log
open Xv6.Bio
open Function (update)

/-- The steps on buffers that the statements of `log.c` and of its clients consist of. -/
inductive Micro
  | bget (b : ℕ)
  | lock (b : ℕ)
  | fill (b : ℕ)
  | store (b : ℕ) (v : Block)
  | memmove (dst src : ℕ)
  | putHead (b : ℕ)
  | bwrite (b : ℕ)
  | bunpin (b : ℕ)
  | unlock (b : ℕ)
  | drop (b : ℕ)

/-- What a process may do with buffers outside `log.c`. -/
def Micro.client : Micro → Bool
  | memmove _ _ | putHead _ | bunpin _ => false
  | _ => true

/-- `getHead` and `clear` are not part of a loop body or of `write_head`. -/
def Stmt.micro : Stmt → List Micro
  | bread b => [.bget b,.lock b,.fill b]
  | memmove dst src => [.memmove dst src]
  | putHead b => [.putHead b]
  | bwrite b => [.bwrite b]
  | bunpin b => [.bunpin b]
  | brelse b => [.unlock b,.drop b]
  | getHead _ | clear => []

/-- Where `commit` is: in a pass of `write_log` or `install_trans`, or in one of its two calls
of `write_head`. -/
inductive Phase
  | log (tail : ℕ)
  | head
  | install (tail : ℕ)
  | erase
  deriving DecidableEq

namespace Phase

def code (L : Layout) (lh : LogHeader) : Phase → List Stmt
  | log tail => writeLogBody L lh tail
  | head | erase => writeHead L
  | install tail => installBody L false lh tail

def steps (L : Layout) (lh : LogHeader) (ph : Phase) : List Micro :=
  (ph.code L lh).flatMap Stmt.micro

def next (n : ℕ) : Phase → Option Phase
  | log tail => some (if tail+1 < n then log (tail+1) else head)
  | head => some (if 0 < n then install 0 else erase)
  | install tail => some (if tail+1 < n then install (tail+1) else erase)
  | erase => none

end Phase

/-- Where a process is with respect to the log. `enter` is in `end_op` between setting
`committing` and `commit`, and `finish` between `commit` and resetting it. -/
inductive Pc
  | out
  | begin (asleep : Bool)
  | inOp
  | enter
  | commit (ph : Phase) (k : ℕ)
  | finish
  deriving DecidableEq

/-- `wakeup(&log)`, seen from one process. -/
def Pc.wake : Pc → Pc
  | begin _ => begin false
  | pc => pc

def Pc.inCommit : Pc → Bool
  | enter | commit _ _ | finish => true
  | _ => false

/-- A call of `log_write`: by which operation, in which group, on which block. -/
structure Rec where
  op : ℕ
  epoch : ℕ
  block : ℕ
  deriving DecidableEq

/-- `struct log` and where the processes are. The fields from `op` on are history, which no
step of the code reads: the number of the operation a process is in, the calls of `log_write`,
the number of finished groups and the group being committed. -/
structure Ctl where
  outstanding : ℕ
  committing : Bool
  lh : LogHeader
  pc : Pid → Pc
  op : Pid → ℕ
  nextOp : ℕ
  hist : List Rec
  epoch : ℕ
  group : ℕ

/-- The whole state. Again the fields from `snap` on are history: the contents of the cache
when the last group was closed, the pins, the blocks modified since they were last passed to
`log_write` or `bwrite`, and the contents last stored in each block. -/
structure Sys extends Ctl where
  cache : Cache
  panicked : Option String
  snap : Disk
  pins : ℕ → ℕ
  dirty : ℕ → Bool
  last : Disk

namespace Sys

/-- The state after `recover_from_log` has left the disk `d`. -/
def init (d : Disk) : Sys where
  outstanding := 0
  committing := false
  lh := ⟨0,fun _ => 0⟩
  pc _ := .out
  op _ := 0
  nextOp := 0
  hist := []
  epoch := 0
  group := 0
  cache := .init d
  panicked := none
  snap := d
  pins _ := 0
  dirty _ := false
  last := d

variable (L : Layout) (s : Sys) (p : Pid)

def panic (msg : String) : Sys := { s with panicked := some msg }

def setPc (pc : Pc) : Sys := { s with pc := update s.pc p pc }

def store (b : ℕ) (v : Block) : Option Sys :=
  (s.cache.store p b v).map fun c =>
    { s with
      cache := c
      dirty := update s.dirty b true
      last := update s.last b v }

def micro : Micro → Option Sys
  | .bget b => some <| match s.cache.bget p b with
    | some c => { s with cache := c }
    | none => s.panic "bget: no buffers"
  | .lock b => (s.cache.acquiresleep p b).map fun c => { s with cache := c }
  | .fill b => (s.cache.fill p b).map fun c => { s with cache := c }
  | .store b v => s.store p b v
  | .memmove dst src => (s.cache.ready p src).bind fun i => s.store p dst (s.cache.buf i).data
  | .putHead b => (s.cache.ready p b).bind fun i => s.store p b (s.lh.fill (s.cache.buf i).data)
  | .bwrite b => (s.cache.bwrite p b).map fun c =>
      { s with cache := c, dirty := update s.dirty b false }
  | .bunpin b => (s.cache.ready p b).bind fun _ => (s.cache.bunpin b).map fun c =>
      { s with cache := c, pins := update s.pins b (s.pins b-1) }
  | .unlock b => (s.cache.releasesleep p b).map fun c => { s with cache := c }
  | .drop b => (s.cache.drop p b).map fun c => { s with cache := c }

/-- The index the search loop of `log_write` ends with. -/
def logSlot (lh : LogHeader) (b : ℕ) : ℕ :=
  ((List.range lh.n).find? fun i => lh.block i = b).getD lh.n

def logWrite (b : ℕ) : Option Sys :=
  (s.cache.ready p b).bind fun _ =>
    if LOGSIZE ≤ s.lh.n ∨ L.size-1 ≤ s.lh.n then some (s.panic "too big a transaction")
    else if s.outstanding < 1 then some (s.panic "log_write outside of trans")
    else
      let i := logSlot s.lh b
      let t := { s with
        lh := { s.lh with block := update s.lh.block i b }
        hist := ⟨s.op p,s.epoch,b⟩::s.hist
        dirty := update s.dirty b false }
      if i = s.lh.n then
        (s.cache.bpin b).map fun c =>
          { t with
            cache := c
            lh := { t.lh with n := s.lh.n+1 }
            pins := update s.pins b (s.pins b+1) }
      else some t

/-- One pass of the loop of `begin_op`. -/
def beginTest : Sys :=
  if s.committing then s.setPc p (.begin true)
  else if s.lh.n+(s.outstanding+1)*MAXOPBLOCKS > LOGSIZE then s.setPc p (.begin true)
  else { s.setPc p .inOp with
    outstanding := s.outstanding+1
    op := update s.op p s.nextOp
    nextOp := s.nextOp+1 }

/-- The first critical section of `end_op`. -/
def endOp : Sys :=
  let t := { s with outstanding := s.outstanding-1 }
  if s.committing then t.panic "log.committing"
  else if t.outstanding = 0 then
    { t.setPc p .enter with committing := true, group := s.epoch, snap := s.cache.content }
  else { t with pc := update (fun q => (s.pc q).wake) p .out }

/-- The second critical section of `end_op`. -/
def endCommit : Sys :=
  { s with committing := false, pc := update (fun q => (s.pc q).wake) p .out }

/-- `commit` passes from one phase to the next. -/
def advance (ph : Phase) : Sys :=
  match ph.next s.lh.n with
  | some .erase => { s.setPc p (.commit .erase 0) with
      lh := { s.lh with n := 0 }
      epoch := s.epoch+1 }
  | some ph' => s.setPc p (.commit ph' 0)
  | none => s.setPc p .finish

/-- The next step of a process in `commit`. -/
def commitStep : Option Sys :=
  match s.pc p with
  | .enter => some (s.setPc p (if 0 < s.lh.n then .commit (.log 0) 0 else .finish))
  | .commit ph k =>
    match (ph.steps L s.lh)[k]? with
    | some m => (s.micro p m).map fun t => t.setPc p (.commit ph (k+1))
    | none => some (s.advance p ph)
  | .finish => some (s.endCommit p)
  | _ => none

end Sys

inductive Event
  | buffer (p : Pid) (m : Micro)
  | logWrite (p : Pid) (b : ℕ)
  | beginOp (p : Pid)
  | beginTest (p : Pid)
  | wake (p : Pid)
  | endOp (p : Pid)
  | commit (p : Pid)

def step (L : Layout) (s : Sys) (e : Event) : Option Sys :=
  if s.panicked ≠ none then none
  else match e with
    | .buffer p m => if (s.pc p = .out ∨ s.pc p = .inOp) ∧ m.client then s.micro p m else none
    | .logWrite p b => if s.pc p = .inOp then s.logWrite L p b else none
    | .beginOp p => if s.pc p = .out then some (s.setPc p (.begin false)) else none
    | .beginTest p => if s.pc p = .begin false then some (s.beginTest p) else none
    -- a sleeper may also be woken by `kill`, and looks at the condition again
    | .wake p => if s.pc p = .begin true then some (s.setPc p (.begin false)) else none
    | .endOp p => if s.pc p = .inOp then some (s.endOp p) else none
    | .commit p => s.commitStep L p

/-- The steps, one constructor for each thing that can happen. -/
inductive Step (L : Layout) (s : Sys) : Event → Sys → Prop
  | buffer {p m t} (hp : s.pc p = .out ∨ s.pc p = .inOp) (hm : m.client)
      (h : s.micro p m = some t) : Step L s (.buffer p m) t
  | logWrite {p b t} (hp : s.pc p = .inOp) (h : s.logWrite L p b = some t) :
      Step L s (.logWrite p b) t
  | beginOp {p} (hp : s.pc p = .out) : Step L s (.beginOp p) (s.setPc p (.begin false))
  | beginTest {p} (hp : s.pc p = .begin false) : Step L s (.beginTest p) (s.beginTest p)
  | wake {p} (hp : s.pc p = .begin true) : Step L s (.wake p) (s.setPc p (.begin false))
  | endOp {p} (hp : s.pc p = .inOp) : Step L s (.endOp p) (s.endOp p)
  | enter {p} (hp : s.pc p = .enter) :
      Step L s (.commit p) (s.setPc p (if 0 < s.lh.n then .commit (.log 0) 0 else .finish))
  | micro {p ph k m t} (hp : s.pc p = .commit ph k) (hm : (ph.steps L s.lh)[k]? = some m)
      (h : s.micro p m = some t) : Step L s (.commit p) (t.setPc p (.commit ph (k+1)))
  | advance {p ph k} (hp : s.pc p = .commit ph k) (hm : (ph.steps L s.lh)[k]? = none) :
      Step L s (.commit p) (s.advance p ph)
  | finish {p} (hp : s.pc p = .finish) : Step L s (.commit p) (s.endCommit p)

lemma commitStep_cases {L : Layout} {s t : Sys} {p : Pid} (h : s.commitStep L p = some t) :
    Step L s (.commit p) t := by
  unfold Sys.commitStep at h
  cases hp : s.pc p with
  | enter =>
    rw [hp] at h
    cases h
    exact .enter hp
  | commit ph k =>
    simp only [hp] at h
    cases hm : (ph.steps L s.lh)[k]? with
    | some m =>
      rw [hm] at h
      obtain ⟨u,hu,rfl⟩ := Option.map_eq_some_iff.mp h
      exact .micro hp hm hu
    | none =>
      rw [hm] at h
      cases h
      exact .advance hp hm
  | finish =>
    rw [hp] at h
    cases h
    exact .finish hp
  | out | begin _ | inOp => rw [hp] at h; cases h

theorem step_cases {L : Layout} {s t : Sys} {e : Event} (h : step L s e = some t) : Step L s e t := by
  unfold step at h
  split_ifs at h with hpan
  cases e with
  | buffer p m =>
    obtain ⟨⟨hp,hm⟩,h⟩ := Option.ite_none_right_eq_some.mp h
    exact .buffer hp hm h
  | logWrite p b =>
    obtain ⟨hp,h⟩ := Option.ite_none_right_eq_some.mp h
    exact .logWrite hp h
  | beginOp p =>
    obtain ⟨hp,h⟩ := Option.ite_none_right_eq_some.mp h
    cases h
    exact .beginOp hp
  | beginTest p =>
    obtain ⟨hp,h⟩ := Option.ite_none_right_eq_some.mp h
    cases h
    exact .beginTest hp
  | wake p =>
    obtain ⟨hp,h⟩ := Option.ite_none_right_eq_some.mp h
    cases h
    exact .wake hp
  | endOp p =>
    obtain ⟨hp,h⟩ := Option.ite_none_right_eq_some.mp h
    cases h
    exact .endOp hp
  | commit p => exact commitStep_cases h

end Xv6.Log
