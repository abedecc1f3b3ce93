import Xv6.Fs.Data
import Xv6.Fs.Itable
import Xv6.Lib.Prog

/-! The kernel's file system as shared state, and the atomic actions its system calls are made of:
the steps on the inode table, and what a process does to an inode it has locked. -/
namespace Xv6.Fs
open Function (update)

open Itable (Table Scan)

abbrev Slot := Fin NINODE

/-- The kinds of `struct file`; pipes have a model of their own. -/
inductive FdKind
  | none
  | inode
  | device
  deriving DecidableEq

/-- `struct file` without the offset. While `owned` is set the file has the reference to its inode
that process `owner` got; otherwise a process is at work with the inode. -/
structure File where
  kind : FdKind
  ref : ℕ
  readable : Bool
  writable : Bool
  ip : Slot
  major : ℤ
  owner : Fin NPROC
  owned : Bool

/-- What a process has of the file system. `leaving` is set while `iput(p->cwd)` is under way. -/
structure Proc where
  cwd : Option Slot
  leaving : Bool
  ofile : Fin NOFILE → Option (Fin NFILE)

structure State where
  table : Table
  store : Store
  file : Fin NFILE → File
  proc : Fin NPROC → Proc

/-- Why an action does not complete: the process has to sleep, the kernel panics, or the process
has no such reference (which no system call ever tries). -/
inductive Stop
  | sleep
  | panic (msg : String)
  | stray
  deriving DecidableEq

abbrev M := StateT State (Except Stop)

namespace State

def dinode (s : State) (inum : ℕ) : Dinode := s.table.disk ROOTDEV inum

end State

def liftData {α : Type} : Except String α → M α
  | .ok a => pure a
  | .error m => throw (.panic m)

variable (sb : Superblock) (p : Fin NPROC)

/-- A step of process `p` with entry `i` of the inode table. -/
def entryOp (i : Slot) (o : Itable.Op) : M Unit := fun s =>
  match (s.table.inode i).op (s.table.dinode i) p.val o with
  | some (n,k,none) => .ok ((),{ s with table := s.table.put i n k })
  | some (_,_,some m) => .error (.panic m)
  | none => .error (match o with
    | .acquiresleep | .iput => .sleep
    | _ => .stray)

/-- `iget(ROOTDEV, inum)`. -/
def iget (inum : ℕ) (new : Option ℕ) : M Slot := fun s =>
  let t := s.table.iget p.val ROOTDEV inum (new.map (p.val,·))
  match s.table.cached ROOTDEV inum,s.table.empty with
  | some i,_ => .ok (i,{ s with table := t })
  | none,some i => .ok (i,{ s with table := t })
  | none,none => .error (.panic "iget: no inodes")

def ilock (i : Slot) : M Unit := do
  entryOp p i .ilock
  entryOp p i .acquiresleep
  entryOp p i .load

/-- Run a function of `fs.c` on the fields of a locked inode and the disk. -/
def onData {α : Type} (i : Slot) (f : Data Store → Except String (α×Data Store)) : M α := do
  let s ← get
  if (p.val,.hold) ∉ (s.table.inode i).refs then throw .stray
  let (a,x) ← liftData (f ⟨(s.table.inode i).d,s.store⟩)
  entryOp p i (.modify x.d)
  modify fun s => { s with store := x.st }
  return a

def iupdate (i : Slot) : M Unit := entryOp p i .iupdate

/-- Change the fields of a locked inode and write it back. -/
def setDinode (i : Slot) (f : Dinode → Dinode) : M Unit := do
  let s ← get
  entryOp p i (.modify (f (s.table.inode i).d))
  iupdate p i

/-- `iput` up to the release of `itable.lock`: whether the inode is to be freed. -/
def iputTest (i : Slot) : M Bool := do
  let s ← get
  entryOp p i .iput
  return (s.table.inode i).Last

/-- The part of `iput` that holds the sleep-lock and frees the inode. -/
def iputFree (i : Slot) : M Unit := do
  let s ← get
  if (p.val,.itrunc) ∉ (s.table.inode i).refs then throw .stray
  let x ← liftData (Data.itrunc ⟨(s.table.inode i).d,s.store⟩)
  entryOp p i .itrunc
  modify fun s => { s with store := x.st }
  entryOp p i .clear
  entryOp p i .update
  entryOp p i .invalid
  entryOp p i .release

/-- The loop over the entries of `dp`, and the `iget` of the inode found. -/
def dirlookup (dp : Slot) (name : List UInt8) : M (Option (Slot×ℕ)) := do
  let s ← get
  if (s.table.inode dp).d.type ≠ T_DIR then throw (.panic "dirlookup not DIR")
  match ← onData p dp fun x => sb.blocks.dirlookup name (x.rounds 0) 0 x with
  | none => return none
  | some (inum,off) => return some (← iget p inum none,off)

/-- `readi` into the kernel's memory: the return value and the bytes. -/
def readi (i : Slot) (off n : ℕ) : M (ℤ×List UInt8) := onData p i fun x => do
  let (r,got,y) ← sb.blocks.readi (fun _ _ => true) off n x
  return ((r,got),y)

/-- `writei` on a locked inode, whatever computes its arguments: it writes the inode back unless
it refuses the request. -/
def writeData (i : Slot) (f : Data Store → Except String (ℤ×Data Store)) : M ℤ := do
  let r ← onData p i f
  if r ≠ -1 then iupdate p i
  return r

def writei (i : Slot) (src : ℕ → ℕ → List UInt8×Bool) (off n : ℕ) : M ℤ :=
  writeData p i fun x => sb.blocks.writei src off n x

/-- `dirlink` after its check that the name is not there: whether it succeeds. -/
def dirwrite (dp : Slot) (name : List UInt8) (inum : ℕ) : M Bool := do
  let r ← writeData p dp fun x => sb.blocks.dirwrite x name inum
  return r = DIRENT

def isdirempty (dp : Slot) : M Bool :=
  onData p dp fun x => sb.blocks.isdirempty (x.rounds (2*DIRENT)) (2*DIRENT) x

/-- `sys_unlink`'s `writei` of an empty entry. -/
def erase (dp : Slot) (off : ℕ) : M Unit := do
  let r ← writeData p dp fun x => sb.blocks.writeEntry x .zero off
  if r ≠ DIRENT then throw (.panic "unlink: writei")

def itrunc (i : Slot) : M Unit := do
  onData p i fun x => do return ((),← x.itrunc)
  iupdate p i

/-- One round of the loop of `ialloc`, or the `iget` at its end. -/
def scan (c : Scan) : M (Scan⊕Option Slot) := do
  let s ← get
  if c ∉ s.table.scans then throw .stray
  if c.found then
    modify fun s => { s with table := { s.table with scans := s.table.scans.erase c } }
    return .inr (some (← iget p c.inum (some c.type)))
  set { s with table := s.table.scan sb.ninodes c }
  if c.inum < sb.ninodes then
    if (s.dinode c.inum).type = 0 then return .inl { c with found := true }
    else return .inl { c with inum := c.inum+1 }
  else return .inr none

/-- `filealloc`: the first unused file. -/
def filealloc : M (Option (Fin NFILE)) := do
  let s ← get
  match (List.finRange NFILE).find? fun f => (s.file f).ref = 0 with
  | some f =>
    set { s with file := update s.file f { s.file f with ref := 1 } }
    return some f
  | none => return none

def setProc (v : Proc) : M Unit := modify fun s => { s with proc := update s.proc p v }

/-- `fdalloc`: the first free descriptor of the process. -/
def fdalloc (f : Fin NFILE) : M (Option (Fin NOFILE)) := do
  let s ← get
  match (List.finRange NOFILE).find? fun fd => ((s.proc p).ofile fd).isNone with
  | some fd =>
    setProc p { s.proc p with ofile := update (s.proc p).ofile fd (some f) }
    return some fd
  | none => return none

/-- `fileclose` up to its `iput`: the inode whose reference the process now has to put. -/
def fileclose (f : Fin NFILE) : M (Option Slot) := do
  let s ← get
  let v := s.file f
  if v.ref < 1 then throw (.panic "fileclose")
  if v.ref-1 > 0 then
    set { s with file := update s.file f { v with ref := v.ref-1 } }
    return none
  set { s with file := update s.file f { v with ref := 0, kind := .none, owned := false } }
  if v.kind = .none then return none
  if !v.owned then throw .stray
  entryOp v.owner v.ip (.pass p.val)
  return some v.ip

/-- `sys_open` fills in the file. -/
def openFile (f : Fin NFILE) (i : Slot) (omode : ℕ) : M Unit := modify fun s =>
  let d := (s.table.inode i).d
  { s with file := update s.file f { s.file f with
      kind := if d.type = T_DEVICE then .device else .inode
      major := if d.type = T_DEVICE then d.major else (s.file f).major
      ip := i
      readable := omode &&& O_WRONLY = 0
      writable := omode &&& O_WRONLY ≠ 0 || omode &&& O_RDWR ≠ 0
      owner := p
      owned := false } }

/-- `iunlock` by a process that leaves its reference to the file. -/
def unlockFile (f : Fin NFILE) (i : Slot) : M Unit := do
  entryOp p i .iunlock
  modify fun s =>
    { s with file := update s.file f { s.file f with owner := p, owned := true } }

/-- `ilock(f->ip)` by a process that works with an open file. -/
def lockFile (f : Fin NFILE) : M Slot := do
  let s ← get
  let v := s.file f
  if !v.owned then throw .sleep
  entryOp v.owner v.ip (.pass p.val)
  ilock p v.ip
  modify fun s => { s with file := update s.file f { s.file f with owned := false } }
  return v.ip

/-- `idup(myproc()->cwd)`. -/
def idupCwd : M Slot := do
  let s ← get
  match (s.proc p).cwd with
  | some i =>
    entryOp p i .idup
    return i
  | none => throw .stray

/-- The process is about to put the reference to its current directory. -/
def leaveCwd : M Slot := do
  let s ← get
  match (s.proc p).cwd with
  | some i =>
    setProc p { s.proc p with leaving := true }
    return i
  | none => throw .stray

def setCwd (i : Option Slot) : M Unit := do
  let s ← get
  setProc p { s.proc p with cwd := i, leaving := false }

/-- What `fork` does to the file system: the child shares the open files and gets a reference to
the current directory. -/
def fork (q : Fin NPROC) : M Unit := do
  let s ← get
  match (s.proc p).cwd,(s.proc q).cwd with
  | some i,none =>
    entryOp p i .idup
    entryOp p i (.pass q.val)
    setProc q ⟨some i,false,(s.proc p).ofile⟩
    let more (f : Fin NFILE) : ℕ :=
      (List.finRange NOFILE).countP fun fd => (s.proc p).ofile fd = some f
    modify fun s =>
      { s with file := fun f => { s.file f with ref := (s.file f).ref+more f } }
  | _,_ => throw .stray

end Xv6.Fs
