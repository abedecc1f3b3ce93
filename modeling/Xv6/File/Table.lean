import Xv6.Lib.Transition
import Xv6.Proc.Table

/-! File descriptors, `struct file` and pipes as a state machine: `open`, `dup`, `close`, `pipe`,
`fork` and `exit` of any processes. A step is one critical section of `ftable.lock` or `pi->lock`
with the accesses to private data around it; `kalloc`, `allocproc`, `uvmcopy` and `copyout` may
fail whenever they are called. -/
namespace Xv6.Ftable
open Option
open Process (Slot initproc)
open Function (update update_idem update_self update_eq_self)

abbrev Fd := Fin NOFILE
abbrev FileIdx := Fin NFILE

inductive FileType
  | none | pipe | inode | device
  deriving DecidableEq

/-- `struct file`; `pipe` is the page of the `struct pipe`. -/
structure File where
  type : FileType
  ref : ℕ
  readable : Bool
  writable : Bool
  pipe : ℕ
  ip : ℕ
  deriving DecidableEq

/-- The two flags of `struct pipe`, with a number that no other pipe has or had. -/
structure Pipe where
  readopen : Bool
  writeopen : Bool
  id : ℕ
  deriving DecidableEq

/-- The inode that `sys_open` found, by its number and whether it is a device. -/
structure Opened where
  ip : ℕ
  device : Bool
  omode : ℕ
  deriving DecidableEq

/-- What a system call returns, where `none` is a `return -1`. -/
abbrev Ret := Option ℕ

/-- What follows a `fileclose`: the return of the system call, a second `fileclose` before it, or
the rest of a round of the loop in `exit`. -/
inductive Cont
  | ret (v : Ret)
  | close (f : FileIdx) (v : Ret)
  | exit (fd : Fd)
  deriving DecidableEq

/-- Where a process is in a system call. -/
inductive Pc
  | user
  | ret (v : Ret)
  | fileclose (f : FileIdx) (k : Cont)
  | closed (ff : File) (k : Cont)
  | kfree (pi : ℕ) (k : Cont)
  | filedup (f : FileIdx) (fd : Fd)
  | openAlloc (o : Opened)
  | openFd (o : Opened) (f : FileIdx)
  | openSet (o : Opened) (f : FileIdx) (fd : Fd)
  | pipeAlloc
  | pipeAlloc1 (rf : FileIdx)
  | pipeKalloc (rf wf : FileIdx)
  | pipeFd (rf wf : FileIdx)
  | pipeCopyout (rf wf : FileIdx) (fd0 fd1 : Fd)
  | forkAlloc
  | forkCopy (np : Slot)
  | forkDup (np : Slot) (i : ℕ)
  | exitLoop (i : ℕ)
  deriving DecidableEq

/-- The states that matter here: `used` is a child that `fork` is still at work on. -/
inductive Stage
  | unused | used | alive | zombie
  deriving DecidableEq

/-- A free of a page that is not in use, or a use of one that is free, counts as a panic. -/
inductive Panic
  | filedup | fileclose | pipeclose | kfree
  deriving DecidableEq

/-- `pipe` gives the pipe in a page. The last three fields are ghosts: the descriptors a process
had when it entered the kernel, the number of pipes made so far, and the pipes freed. -/
structure Sys where
  file : FileIdx → File
  pipe : ℕ → Option Pipe
  ofile : Slot → Fd → Option FileIdx
  stage : Slot → Stage
  pc : Slot → Pc
  panic : Option Panic
  saved : Slot → Fd → Option FileIdx
  made : ℕ
  freed : List ℕ

namespace Sys

@[simps -fullyApplied] def goto (s : Sys) (p : Slot) (q : Pc) : Sys := { s with pc := update s.pc p q }
@[simps -fullyApplied] def setFile (s : Sys) (f : FileIdx) (v : File) : Sys :=
  { s with file := update s.file f v }
@[simps -fullyApplied] def setFd (s : Sys) (p : Slot) (fd : Fd) (v : Option FileIdx) : Sys :=
  { s with ofile := update s.ofile p (update (s.ofile p) fd v) }
@[simps -fullyApplied] def setPipe (s : Sys) (pi : ℕ) (v : Option Pipe) : Sys :=
  { s with pipe := update s.pipe pi v }
@[simps -fullyApplied] def setStage (s : Sys) (p : Slot) (v : Stage) : Sys :=
  { s with stage := update s.stage p v }

end Sys

/-- `argfd`. -/
def argfd (ofile : Fd → Option FileIdx) (fd : ℤ) : Option (Fd × FileIdx) :=
  if h : 0 ≤ fd ∧ fd < NOFILE then
    let i : Fd := ⟨fd.toNat,by omega⟩
    (ofile i).map fun f => (i,f)
  else none

/-- `fdalloc`: the first free descriptor. -/
def fdalloc (ofile : Fd → Option FileIdx) : Option Fd :=
  (List.finRange NOFILE).find? fun fd => (ofile fd).isNone

/-- `filealloc`: the first file without a reference. -/
def filealloc (file : FileIdx → File) : Option FileIdx :=
  (List.finRange NFILE).find? fun f => (file f).ref = 0

/-- The system calls. `open` is told what `namei` or `create` came to; `none` is each failure
before `filealloc`. -/
inductive Call
  | open (o : Option Opened)
  | dup (fd : ℤ)
  | close (fd : ℤ)
  | pipe
  | fork
  | exit
  deriving DecidableEq

/-- The accesses to the process's own table before the first lock. -/
def enter (s : Sys) (p : Slot) : Call → Option Sys
  | .open none => some (s.goto p (.ret none))
  | .open (some o) => some (s.goto p (.openAlloc o))
  | .dup fd =>
    match argfd (s.ofile p) fd with
    | none => some (s.goto p (.ret none))
    | some (_,f) =>
      match fdalloc (s.ofile p) with
      | none => some (s.goto p (.ret none))
      | some fd' => some ((s.setFd p fd' (some f)).goto p (.filedup f fd'))
  | .close fd =>
    match argfd (s.ofile p) fd with
    | none => some (s.goto p (.ret none))
    | some (i,f) => some ((s.setFd p i none).goto p (.fileclose f (.ret (some 0))))
  | .pipe => some (s.goto p .pipeAlloc)
  | .fork => some (s.goto p .forkAlloc)
  | .exit => if p = initproc then none else some (s.goto p (.exitLoop 0))

/-- Where `fileclose` returns to. -/
def resume (s : Sys) (p : Slot) : Cont → Sys
  | .ret v => s.goto p (.ret v)
  | .close f v => s.goto p (.fileclose f (.ret v))
  | .exit fd => (s.setFd p fd none).goto p (.exitLoop (fd+1))

/-- `pipeclose` up to the release of `pi->lock`. -/
def Pipe.close (pi : Pipe) (writable : Bool) : Pipe :=
  if writable then { pi with writeopen := false } else { pi with readopen := false }

def Pipe.dead (pi : Pipe) : Bool := !pi.readopen && !pi.writeopen

/-- The two files that `pipealloc` fills in. -/
def readEnd (v : File) (pi : ℕ) : File :=
  { v with type := .pipe, readable := true, writable := false, pipe := pi }
def writeEnd (v : File) (pi : ℕ) : File :=
  { v with type := .pipe, readable := false, writable := true, pipe := pi }

/-- The file that `sys_open` fills in. -/
def openFile (v : File) (o : Opened) : File :=
  { v with
    type := if o.device then .device else .inode
    ip := o.ip
    readable := o.omode &&& O_WRONLY = 0
    writable := o.omode &&& O_WRONLY ≠ 0 || o.omode &&& O_RDWR ≠ 0 }

/-- The next step of process `p`. The outcome of an allocation or a copy is `r`: a page, a slot of
the process table or any number, or `none` if it fails. -/
def run (s : Sys) (p : Slot) (r : Option ℕ) : Option Sys :=
  match s.pc p with
  | .user => none
  | .ret _ => some (s.goto p .user)
  | .fileclose f k =>
    let v := s.file f
    if v.ref < 1 then some { s with panic := some .fileclose }
    else if v.ref-1 > 0 then some (resume (s.setFile f { v with ref := v.ref-1 }) p k)
    else some ((s.setFile f { v with ref := 0, type := .none }).goto p
      (.closed { v with ref := 0 } k))
  | .closed ff k =>
    match ff.type with
    | .pipe =>
      match s.pipe ff.pipe with
      | none => some { s with panic := some .pipeclose }
      | some pi =>
        let t := s.setPipe ff.pipe (some (pi.close ff.writable))
        if (pi.close ff.writable).dead then some (t.goto p (.kfree ff.pipe k))
        else some (resume t p k)
    -- iput, with no effect on files and pipes
    | .inode | .device => some (resume s p k)
    | .none => some (resume s p k)
  | .kfree pi k =>
    match s.pipe pi with
    | none => some { s with panic := some .kfree }
    | some v => some (resume ({ s with freed := s.freed++[v.id] }.setPipe pi none) p k)
  | .filedup f fd =>
    let v := s.file f
    if v.ref < 1 then some { s with panic := some .filedup }
    else some ((s.setFile f { v with ref := v.ref+1 }).goto p (.ret (some fd)))
  | .openAlloc o =>
    match filealloc s.file with
    | none => some (s.goto p (.ret none))
    | some f => some ((s.setFile f { s.file f with ref := 1 }).goto p (.openFd o f))
  | .openFd o f =>
    match fdalloc (s.ofile p) with
    | none => some (s.goto p (.fileclose f (.ret none)))
    | some fd => some ((s.setFd p fd (some f)).goto p (.openSet o f fd))
  | .openSet o f fd => some ((s.setFile f (openFile (s.file f) o)).goto p (.ret (some fd)))
  | .pipeAlloc =>
    match filealloc s.file with
    | none => some (s.goto p (.ret none))
    | some rf => some ((s.setFile rf { s.file rf with ref := 1 }).goto p (.pipeAlloc1 rf))
  | .pipeAlloc1 rf =>
    match filealloc s.file with
    | none => some (s.goto p (.fileclose rf (.ret none)))
    | some wf => some ((s.setFile wf { s.file wf with ref := 1 }).goto p (.pipeKalloc rf wf))
  | .pipeKalloc rf wf =>
    match r with
    | none => some (s.goto p (.fileclose rf (.close wf none)))
    | some pi =>
      -- kalloc never returns a page that is in use
      if s.pipe pi = none then
        let t := s.setPipe pi (some { readopen := true, writeopen := true, id := s.made })
        let t := t.setFile rf (readEnd (t.file rf) pi)
        let t := t.setFile wf (writeEnd (t.file wf) pi)
        some ({ t with made := s.made+1 }.goto p (.pipeFd rf wf))
      else none
  | .pipeFd rf wf =>
    match fdalloc (s.ofile p) with
    | none => some (s.goto p (.fileclose rf (.close wf none)))
    | some fd0 =>
      let t := s.setFd p fd0 (some rf)
      match fdalloc (t.ofile p) with
      | none => some ((t.setFd p fd0 none).goto p (.fileclose rf (.close wf none)))
      | some fd1 => some ((t.setFd p fd1 (some wf)).goto p (.pipeCopyout rf wf fd0 fd1))
  | .pipeCopyout rf wf fd0 fd1 =>
    match r with
    | none =>
      some (((s.setFd p fd0 none).setFd p fd1 none).goto p (.fileclose rf (.close wf none)))
    | some _ => some (s.goto p (.ret (some 0)))
  | .forkAlloc =>
    match r with
    | none => some (s.goto p (.ret none))
    | some n =>
      if h : n < NPROC then
        if s.stage ⟨n,h⟩ = .unused then
          some ((s.setStage ⟨n,h⟩ .used).goto p (.forkCopy ⟨n,h⟩))
        else none
      else none
  | .forkCopy np =>
    match r with
    | none => some ((s.setStage np .unused).goto p (.ret none))
    | some _ => some (s.goto p (.forkDup np 0))
  | .forkDup np i =>
    if h : i < NOFILE then
      match s.ofile p ⟨i,h⟩ with
      | none => some (s.goto p (.forkDup np (i+1)))
      | some f =>
        let v := s.file f
        if v.ref < 1 then some { s with panic := some .filedup }
        else some (((s.setFile f { v with ref := v.ref+1 }).setFd np ⟨i,h⟩ (some f)).goto p
          (.forkDup np (i+1)))
    -- the pid, for which the slot stands
    else some ((s.setStage np .alive).goto p (.ret (some np)))
  | .exitLoop i =>
    if h : i < NOFILE then
      match s.ofile p ⟨i,h⟩ with
      | none => some (s.goto p (.exitLoop (i+1)))
      | some f => some (s.goto p (.fileclose f (.exit ⟨i,h⟩)))
    else some ((s.setStage p .zombie).goto p .user)

/-- `reap` is the end of a `wait` that finds the zombie. -/
inductive Event
  | call (p : Slot) (c : Call)
  | run (p : Slot) (r : Option ℕ)
  | reap (q : Slot)
  deriving DecidableEq

def step (s : Sys) (e : Event) : Option Sys :=
  if s.panic ≠ none then none
  else match e with
  | .call p c =>
    if s.stage p = .alive ∧ s.pc p = .user then
      enter { s with saved := update s.saved p (s.ofile p) } p c
    else none
  | .run p r => run s p r
  | .reap q => if s.stage q = .zombie then some (s.setStage q .unused) else none

/-- Only `initproc` is there, with no file open. -/
def boot : Sys where
  file _ :=
    { type := .none, ref := 0, readable := false, writable := false, pipe := 0, ip := 0 }
  pipe _ := none
  ofile _ _ := none
  stage p := if p = initproc then .alive else .unused
  pc _ := .user
  panic := none
  saved _ _ := none
  made := 0
  freed := []

lemma argfd_eq_some {o : Fd → Option FileIdx} {fd : ℤ} {i : Fd} {f : FileIdx}
    (h : argfd o fd = some (i,f)) : o i = some f := by
  unfold argfd at h
  split at h
  · obtain ⟨g,hg,he⟩ := map_eq_some_iff.mp h
    obtain ⟨rfl,rfl⟩ := Prod.mk.inj he
    exact hg
  · cases h

lemma fdalloc_eq_some {o : Fd → Option FileIdx} {fd : Fd} (h : fdalloc o = some fd) :
    o fd = none := by
  simpa using List.find?_some h

lemma filealloc_eq_some {file : FileIdx → File} {f : FileIdx} (h : filealloc file = some f) :
    (file f).ref = 0 := by
  simpa using List.find?_some h

/-- The moves of a process that touch nothing but its own position. -/
inductive Hop (o : Fd → Option FileIdx) : Pc → Pc → Prop
  | ret {v} : Hop o (.ret v) .user
  | openNone {a} : Hop o (.openAlloc a) (.ret none)
  | openFdNone {a f} : Hop o (.openFd a f) (.fileclose f (.ret none))
  | pipeNone : Hop o .pipeAlloc (.ret none)
  | pipe1None {rf} : Hop o (.pipeAlloc1 rf) (.fileclose rf (.ret none))
  | kallocNone {rf wf} : Hop o (.pipeKalloc rf wf) (.fileclose rf (.close wf none))
  | pipeFdNone {rf wf} : Hop o (.pipeFd rf wf) (.fileclose rf (.close wf none))
  | copyout {rf wf fd0 fd1} : Hop o (.pipeCopyout rf wf fd0 fd1) (.ret (some 0))
  | forkNone : Hop o .forkAlloc (.ret none)
  | forkCopy {np} : Hop o (.forkCopy np) (.forkDup np 0)
  | forkSkip {np i} (h : i < NOFILE) (hn : o ⟨i,h⟩ = none) :
      Hop o (.forkDup np i) (.forkDup np (i+1))
  | exitSkip {i} (h : i < NOFILE) (hn : o ⟨i,h⟩ = none) : Hop o (.exitLoop i) (.exitLoop (i+1))
  | exitClose {i f} (h : i < NOFILE) (hf : o ⟨i,h⟩ = some f) :
      Hop o (.exitLoop i) (.fileclose f (.exit ⟨i,h⟩))

/-- What a step of process `p` can do. -/
inductive Trans (s : Sys) (p : Slot) : Sys → Prop
  | hop {q} (h : Hop (s.ofile p) (s.pc p) q) : Trans s p (s.goto p q)
  | closeMore {f k} (hc : s.pc p = .fileclose f k) (h : 1 < (s.file f).ref) :
      Trans s p (resume (s.setFile f { s.file f with ref := (s.file f).ref-1 }) p k)
  | closeLast {f k} (hc : s.pc p = .fileclose f k) (h : (s.file f).ref = 1) :
      Trans s p ((s.setFile f { s.file f with ref := 0, type := .none }).goto p
        (.closed { s.file f with ref := 0 } k))
  | closeBad {f k} (hc : s.pc p = .fileclose f k) (h : (s.file f).ref = 0) :
      Trans s p { s with panic := some .fileclose }
  | closedOther {ff k} (hc : s.pc p = .closed ff k) (h : ff.type ≠ .pipe) :
      Trans s p (resume s p k)
  | pipeclose {ff k pi} (hc : s.pc p = .closed ff k) (h : ff.type = .pipe)
      (hp : s.pipe ff.pipe = some pi) (hd : (pi.close ff.writable).dead = false) :
      Trans s p (resume (s.setPipe ff.pipe (some (pi.close ff.writable))) p k)
  | pipecloseDead {ff k pi} (hc : s.pc p = .closed ff k) (h : ff.type = .pipe)
      (hp : s.pipe ff.pipe = some pi) (hd : (pi.close ff.writable).dead = true) :
      Trans s p ((s.setPipe ff.pipe (some (pi.close ff.writable))).goto p (.kfree ff.pipe k))
  | pipecloseBad {ff k} (hc : s.pc p = .closed ff k) (h : ff.type = .pipe)
      (hp : s.pipe ff.pipe = none) : Trans s p { s with panic := some .pipeclose }
  | kfree {pi k v} (hc : s.pc p = .kfree pi k) (hp : s.pipe pi = some v) :
      Trans s p (resume ({ s with freed := s.freed++[v.id] }.setPipe pi none) p k)
  | kfreeBad {pi k} (hc : s.pc p = .kfree pi k) (hp : s.pipe pi = none) :
      Trans s p { s with panic := some .kfree }
  | filedup {f fd} (hc : s.pc p = .filedup f fd) (h : 1 ≤ (s.file f).ref) :
      Trans s p ((s.setFile f { s.file f with ref := (s.file f).ref+1 }).goto p (.ret (some fd)))
  | filedupBad {f fd} (hc : s.pc p = .filedup f fd) (h : (s.file f).ref = 0) :
      Trans s p { s with panic := some .filedup }
  | openAlloc {o f} (hc : s.pc p = .openAlloc o) (h : (s.file f).ref = 0) :
      Trans s p ((s.setFile f { s.file f with ref := 1 }).goto p (.openFd o f))
  | openFd {o f fd} (hc : s.pc p = .openFd o f) (h : s.ofile p fd = none) :
      Trans s p ((s.setFd p fd (some f)).goto p (.openSet o f fd))
  | openSet {o f fd} (hc : s.pc p = .openSet o f fd) :
      Trans s p ((s.setFile f (openFile (s.file f) o)).goto p (.ret (some fd)))
  | pipeAlloc {f} (hc : s.pc p = .pipeAlloc) (h : (s.file f).ref = 0) :
      Trans s p ((s.setFile f { s.file f with ref := 1 }).goto p (.pipeAlloc1 f))
  | pipeAlloc1 {rf f} (hc : s.pc p = .pipeAlloc1 rf) (h : (s.file f).ref = 0) :
      Trans s p ((s.setFile f { s.file f with ref := 1 }).goto p (.pipeKalloc rf f))
  | pipeKalloc {rf wf pi} (hc : s.pc p = .pipeKalloc rf wf) (h : s.pipe pi = none) :
      Trans s p ({ (((s.setPipe pi (some { readopen := true, writeopen := true, id := s.made })).setFile
        rf (readEnd (s.file rf) pi)).setFile
        wf (writeEnd ((s.setFile rf (readEnd (s.file rf) pi)).file wf) pi)) with
          made := s.made+1 }.goto p (.pipeFd rf wf))
  | pipeFd {rf wf fd0 fd1} (hc : s.pc p = .pipeFd rf wf) (h0 : s.ofile p fd0 = none)
      (h1 : s.ofile p fd1 = none) (hne : fd1 ≠ fd0) :
      Trans s p (((s.setFd p fd0 (some rf)).setFd p fd1 (some wf)).goto p
        (.pipeCopyout rf wf fd0 fd1))
  | copyoutNone {rf wf fd0 fd1} (hc : s.pc p = .pipeCopyout rf wf fd0 fd1) :
      Trans s p (((s.setFd p fd0 none).setFd p fd1 none).goto p (.fileclose rf (.close wf none)))
  | forkAlloc {np} (hc : s.pc p = .forkAlloc) (h : s.stage np = .unused) :
      Trans s p ((s.setStage np .used).goto p (.forkCopy np))
  | forkCopyNone {np} (hc : s.pc p = .forkCopy np) :
      Trans s p ((s.setStage np .unused).goto p (.ret none))
  | forkDup {np f} {i : Fd} (hc : s.pc p = .forkDup np i) (hf : s.ofile p i = some f)
      (h : 1 ≤ (s.file f).ref) :
      Trans s p (((s.setFile f { s.file f with ref := (s.file f).ref+1 }).setFd np i (some f)).goto p
        (.forkDup np (i+1)))
  | forkDupBad {np f} {i : Fd} (hc : s.pc p = .forkDup np i) (hf : s.ofile p i = some f)
      (h : (s.file f).ref = 0) : Trans s p { s with panic := some .filedup }
  | forkDone {np i} (hc : s.pc p = .forkDup np i) (h : NOFILE ≤ i) :
      Trans s p ((s.setStage np .alive).goto p (.ret (some np)))
  | exitDone {i} (hc : s.pc p = .exitLoop i) (h : NOFILE ≤ i) :
      Trans s p ((s.setStage p .zombie).goto p .user)

lemma run_trans {s t : Sys} {p : Slot} {r : Option ℕ} (h : run s p r = some t) : Trans s p t := by
  unfold run at h
  cases hc : s.pc p with
  | user => simp [hc] at h
  | ret v =>
    simp only [hc,some_inj] at h
    exact h ▸ .hop (hc ▸ .ret)
  | fileclose f k =>
    simp only [hc] at h
    split_ifs at h with h₁ h₂ <;> rw [some_inj] at h <;> subst h
    · exact .closeBad hc (by omega)
    · exact .closeMore hc (by omega)
    · exact .closeLast hc (by omega)
  | closed ff k =>
    simp only [hc] at h
    cases ht : ff.type with
    | pipe =>
      simp only [ht] at h
      cases hp : s.pipe ff.pipe with
      | none =>
        simp only [hp,some_inj] at h
        exact h ▸ .pipecloseBad hc ht hp
      | some pi =>
        simp only [hp] at h
        cases hd : (pi.close ff.writable).dead with
        | true =>
          simp only [hd,if_true,some_inj] at h
          exact h ▸ .pipecloseDead hc ht hp hd
        | false =>
          simp only [hd,Bool.false_eq_true,if_false,some_inj] at h
          exact h ▸ .pipeclose hc ht hp hd
    | _ =>
      simp only [ht,some_inj] at h
      exact h ▸ .closedOther hc (by simp [ht])
  | kfree pi k =>
    simp only [hc] at h
    split at h <;> cases h
    · exact .kfreeBad hc ‹_›
    · exact .kfree hc ‹_›
  | filedup f fd =>
    simp only [hc] at h
    split_ifs at h with h₁ <;> rw [some_inj] at h <;> subst h
    · exact .filedupBad hc (by omega)
    · exact .filedup hc (by omega)
  | openAlloc o =>
    simp only [hc] at h
    split at h <;> cases h
    · exact .hop (hc ▸ .openNone)
    · exact .openAlloc hc (filealloc_eq_some ‹_›)
  | openFd o f =>
    simp only [hc] at h
    split at h <;> cases h
    · exact .hop (hc ▸ .openFdNone)
    · exact .openFd hc (fdalloc_eq_some ‹_›)
  | openSet o f fd =>
    simp only [hc,some_inj] at h
    exact h ▸ .openSet hc
  | pipeAlloc =>
    simp only [hc] at h
    split at h <;> cases h
    · exact .hop (hc ▸ .pipeNone)
    · exact .pipeAlloc hc (filealloc_eq_some ‹_›)
  | pipeAlloc1 rf =>
    simp only [hc] at h
    split at h <;> cases h
    · exact .hop (hc ▸ .pipe1None)
    · exact .pipeAlloc1 hc (filealloc_eq_some ‹_›)
  | pipeKalloc rf wf =>
    simp only [hc] at h
    cases r with
    | none =>
      simp only [some_inj] at h
      exact h ▸ .hop (hc ▸ .kallocNone)
    | some pi =>
      simp only [ite_none_right_eq_some,some_inj] at h
      exact h.2 ▸ .pipeKalloc hc h.1
  | pipeFd rf wf =>
    simp only [hc] at h
    cases hf : fdalloc (s.ofile p) with
    | none =>
      simp only [hf,some_inj] at h
      exact h ▸ .hop (hc ▸ .pipeFdNone)
    | some fd0 =>
      have h0 := fdalloc_eq_some hf
      simp only [hf] at h
      cases hf1 : fdalloc ((s.setFd p fd0 (some rf)).ofile p) with
      | none =>
        simp only [hf1,some_inj] at h
        -- the descriptor taken first is given back
        have hs : (s.setFd p fd0 (some rf)).setFd p fd0 none = s := by
          simp only [Sys.setFd,update_self,update_idem,←h0,
            update_eq_self]
        rw [hs] at h
        exact h ▸ .hop (hc ▸ .pipeFdNone)
      | some fd1 =>
        simp only [hf1,some_inj] at h
        have h1 := fdalloc_eq_some hf1
        have hne : fd1 ≠ fd0 := by
          rintro rfl
          simp at h1
        exact h ▸ .pipeFd hc h0 (by simpa [hne] using h1) hne
  | pipeCopyout rf wf fd0 fd1 =>
    simp only [hc] at h
    cases r <;> cases h
    · exact .copyoutNone hc
    · exact .hop (hc ▸ .copyout)
  | forkAlloc =>
    simp only [hc] at h
    cases r with
    | none =>
      simp only [some_inj] at h
      exact h ▸ .hop (hc ▸ .forkNone)
    | some n =>
      simp only at h
      split_ifs at h with h₁ h₂
      rw [some_inj] at h
      exact h ▸ .forkAlloc hc h₂
  | forkCopy np =>
    simp only [hc] at h
    cases r <;> cases h
    · exact .forkCopyNone hc
    · exact .hop (hc ▸ .forkCopy)
  | forkDup np i =>
    simp only [hc] at h
    by_cases hi : i < NOFILE
    · simp only [hi,dif_pos] at h
      cases hf : s.ofile p ⟨i,hi⟩ with
      | none =>
        simp only [hf,some_inj] at h
        exact h ▸ .hop (hc ▸ .forkSkip hi hf)
      | some f =>
        simp only [hf] at h
        split_ifs at h with h₁ <;> rw [some_inj] at h <;> subst h
        · exact .forkDupBad (i := ⟨i,hi⟩) hc hf (by omega)
        · exact .forkDup (i := ⟨i,hi⟩) hc hf (by omega)
    · rw [dif_neg hi,some_inj] at h
      exact h ▸ .forkDone hc (by omega)
  | exitLoop i =>
    simp only [hc] at h
    by_cases hi : i < NOFILE
    · simp only [hi,dif_pos] at h
      cases hf : s.ofile p ⟨i,hi⟩ with
      | none =>
        simp only [hf,some_inj] at h
        exact h ▸ .hop (hc ▸ .exitSkip hi hf)
      | some f =>
        simp only [hf,some_inj] at h
        exact h ▸ .hop (hc ▸ .exitClose hi hf)
    · rw [dif_neg hi,some_inj] at h
      exact h ▸ .exitDone hc (by omega)

/-- Where a system call starts that touches nothing at first. -/
inductive First : Pc → Prop
  | ret : First (.ret none)
  | openAlloc {o} : First (.openAlloc o)
  | pipeAlloc : First .pipeAlloc
  | forkAlloc : First .forkAlloc
  | exitLoop : First (.exitLoop 0)

/-- What the entry into a system call can do. -/
inductive Enter (s : Sys) (p : Slot) : Sys → Prop
  | go {q} (h : First q) : Enter s p (s.goto p q)
  | dup {f fd i} (hi : s.ofile p i = some f) (h : s.ofile p fd = none) :
      Enter s p ((s.setFd p fd (some f)).goto p (.filedup f fd))
  | close {f i} (hi : s.ofile p i = some f) :
      Enter s p ((s.setFd p i none).goto p (.fileclose f (.ret (some 0))))

lemma enter_trans {s t : Sys} {p : Slot} {c : Call} (h : enter s p c = some t) : Enter s p t := by
  cases c with
  | «open» o =>
    cases o with
    | none => exact some_inj.mp h ▸ .go .ret
    | some o => exact some_inj.mp h ▸ .go .openAlloc
  | dup fd =>
    simp only [enter] at h
    cases ha : argfd (s.ofile p) fd with
    | none =>
      simp only [ha,some_inj] at h
      exact h ▸ .go .ret
    | some x =>
      cases hf : fdalloc (s.ofile p) with
      | none =>
        simp only [ha,hf,some_inj] at h
        exact h ▸ .go .ret
      | some fd' =>
        simp only [ha,hf,some_inj] at h
        exact h ▸ .dup (argfd_eq_some ha) (fdalloc_eq_some hf)
  | close fd =>
    simp only [enter] at h
    split at h <;> cases h
    · exact .go .ret
    · exact .close (argfd_eq_some ‹_›)
  | pipe => exact some_inj.mp h ▸ .go .pipeAlloc
  | fork => exact some_inj.mp h ▸ .go .forkAlloc
  | exit =>
    simp only [enter,ite_none_left_eq_some,some_inj] at h
    exact h.2 ▸ .go .exitLoop

end Xv6.Ftable
