import Xv6.Fs.DirMap
import Xv6.Fs.Reads
import Xv6.Lib.Solo

/-! A system call that runs without interference, seen from the process: the inodes and the blocks
on disk, the references it has got so far, and those that it found. What each action asks of this
view and leaves there is the description from which the calls are verified. -/
namespace Xv6.Fs
open Function (update)

open Itable (Stage Ref Scan)
open Lib (Traced)

namespace Logged
variable (sb : DiskSb)

def iupdate (k : ℕ) : Logged Unit := logWrite (sb.IBLOCK k)

/-- `writei` with its `iupdate`, whatever computes its arguments. -/
def writeData (k : ℕ) (f : Logged (ℤ×Data Store)) : Logged (ℤ×Data Store) := do
  let (r,y) ← f
  if r ≠ -1 then iupdate sb k
  return (r,y)

/-- `itrunc` with its `iupdate`. -/
def truncate (k : ℕ) (x : Data Store) : Logged (Data Store) := do
  let y ← itrunc sb x
  iupdate sb k
  return y

/-- The freeing part of `iput`, which writes the inode a second time, with type 0. -/
def release (k : ℕ) (x : Data Store) : Logged (Data Store) := do
  let y ← truncate sb k x
  iupdate sb k
  return ⟨x.d.freed,y.st⟩

/-- The blocks that an action passes to `log_write`. -/
def act (s : State) : Act → List ℕ
  | .iputFree i => (release sb (s.table.inode i).inum (s.data i)).trace
  | .dirlookup dp name =>
    if (s.table.inode dp).d.type ≠ T_DIR then []
    else (sb.logged.dirlookup name ((s.data dp).rounds 0) 0 (s.data dp)).trace
  | .dirwrite dp name inum =>
    (writeData sb (s.table.inode dp).inum (sb.logged.dirwrite (s.data dp) name inum)).trace
  | .isdirempty i => (sb.logged.isdirempty ((s.data i).rounds (2*DIRENT)) (2*DIRENT) (s.data i)).trace
  | .erase dp off =>
    (writeData sb (s.table.inode dp).inum (sb.logged.writeEntry (s.data dp) .zero off)).trace
  | .addNlink i _ | .clearNlink i | .setup i _ _ => [sb.IBLOCK (s.table.inode i).inum]
  | .itrunc i => (truncate sb (s.table.inode i).inum (s.data i)).trace
  | .readi i off n => (sb.logged.readi (fun _ _ => true) off n (s.data i)).trace
  | .writei i src off n =>
    (writeData sb (s.table.inode i).inum (sb.logged.writei src off n (s.data i))).trace
  | .scan c =>
    if c.found = false ∧ c.inum < sb.ninodes ∧ (s.dinode c.inum).type = 0 then [sb.IBLOCK c.inum]
    else []
  | _ => []

end Logged

/-- How far the call is with a reference that it has got. After `iunlock` the entry in the table is
known to be valid; `freeing` and `dropping` are the two parts of an `iput` that frees the inode. -/
inductive Mode
  | fresh
  | seen
  | locked
  | freeing
  | dropping
  deriving DecidableEq

def Mode.stage : Mode → Stage
  | fresh | seen => .idle
  | locked => .hold
  | freeing => .itrunc
  | dropping => .drop

structure Held where
  slot : Slot
  inum : ℕ
  mode : Mode
  deriving DecidableEq

/-- `held` are the references that the call has got and still has, `others` all other ones, and
`name` tells the inodes of these. -/
structure View where
  inode : ℕ → Dinode
  store : Store
  held : List Held
  others : Slot → List Ref
  name : Slot → ℕ
  scans : List Scan
  file : Fin NFILE → File
  proc : Fin NPROC → Proc
  log : List ℕ

namespace View

def data (v : View) (k : ℕ) : Data Store := ⟨v.inode k,v.store⟩

def files (v : View) : Files := ⟨v.inode,v.store⟩

/-- The entries of the table stand for different inodes. -/
structure Wf (v : View) : Prop where
  held : ∀ g ∈ v.held, ∀ h ∈ v.held, g.slot = h.slot ↔ g.inum = h.inum
  other : ∀ h ∈ v.held, ∀ i, v.others i ≠ [] → (h.slot = i ↔ h.inum = v.name i)
  name : ∀ i j, v.others i ≠ [] → v.others j ≠ [] → v.name i = v.name j → i = j

/-- No entry of the table is free. -/
def TableFull (v : View) : Prop := ∀ i, v.others i ≠ [] ∨ ∃ h ∈ v.held, h.slot = i

/-- The call has the only reference to an entry. -/
def Sole (v : View) (i : Slot) : Prop := v.others i = [] ∧ v.held.countP (·.slot = i) = 1

instance (v : View) (i : Slot) : Decidable (v.Sole i) := inferInstanceAs (Decidable (_ ∧ _))

/-- The call has locked an entry, or is about to free it. -/
def Locks (v : View) (i : Slot) : Prop := ∃ h ∈ v.held, h.slot = i ∧ h.mode.stage.locks

instance (v : View) (i : Slot) : Decidable (v.Locks i) := inferInstanceAs (Decidable (∃ h ∈ _, _))

def get (v : View) (i : Slot) (k : ℕ) : View := { v with held := ⟨i,k,.fresh⟩::v.held }

def drop (v : View) (h : Held) : View := { v with held := v.held.erase h }

def move (v : View) (h : Held) (m : Mode) : View :=
  { v with held := ⟨h.slot,h.inum,m⟩::v.held.erase h }

def emit (v : View) (l : List ℕ) : View := { v with log := v.log++l }

/-- A file has been written, and the blocks of `l` logged. -/
def write (v : View) (k : ℕ) (y : Data Store) (l : List ℕ) : View :=
  { v with inode := update v.inode k y.d, store := y.st, log := v.log++l }

/-- A reference found at the start is now one of the call. -/
def take (v : View) (i : Slot) (q : Fin NPROC) (m : Mode) : View :=
  { v with
    others := update v.others i ((v.others i).erase (q.val,.idle))
    held := ⟨i,v.name i,m⟩::v.held }

/-- A reference of the call is left behind. -/
def leave (v : View) (h : Held) (p : Fin NPROC) : View :=
  { v with
    others := update v.others h.slot ((p.val,.idle)::v.others h.slot)
    name := update v.name h.slot h.inum
    held := v.held.erase h }

end View

/-- The file that `sys_open` fills in. -/
def File.opened (w : File) (d : Dinode) (p : Fin NPROC) (i : Slot) (omode : ℕ) : File :=
  { w with
    kind := if d.type = T_DEVICE then .device else .inode
    major := if d.type = T_DEVICE then d.major else w.major
    ip := i
    readable := omode &&& O_WRONLY = 0
    writable := omode &&& O_WRONLY ≠ 0 || omode &&& O_RDWR ≠ 0
    owner := p
    owned := false }

namespace Solo
variable (sb : DiskSb) (p : Fin NPROC) (E : View → Stop → Prop)

/-- `iget`: it panics when the table is full, and otherwise any entry may be the one. -/
def Got (v : View) (k : ℕ) (P : Slot → View → Prop) : Prop :=
  (v.TableFull → E v (.panic "iget: no inodes")) ∧ ∀ i, (v.get i k).Wf → P i (v.get i k)

/-- A function has read a file. -/
def Read {α : Type} (v : View) (x : Except String (α×Data Store)) (P : α → Prop) : Prop :=
  match x with
  | .ok (a,_) => P a
  | .error m => E v (.panic m)

/-- A function has written to the file with inode `k`. -/
def Wrote {α : Type} (v : View) (k : ℕ) (x : Logged (α×Data Store)) (P : α → View → Prop) : Prop :=
  match x.result with
  | .ok (r,y) => Image sb (v.write k y x.trace).inode y.st →
      P r (v.write k y x.trace)
  | .error m => E (v.emit x.trace) (.panic m)

/-- The fields of a locked inode have been changed and written back. -/
def Set (v : View) (i : Slot) (f : Dinode → Dinode) (P : View → Prop) : Prop :=
  ∃ k, ⟨i,k,.locked⟩ ∈ v.held ∧
    (Image sb (update v.inode k (f (v.inode k))) v.store →
      P (v.write k ⟨f (v.inode k),v.store⟩ [sb.IBLOCK k]))

/-- What the actions ask and leave. `E` says which failures are allowed in which view. -/
def pre (a : Act) (v : View) (P : a.Ret → View → Prop) : Prop :=
  match a,P with
  | .iget k,P => Got E v k P
  | .idupCwd,P => ∃ i, (v.proc p).cwd = some i ∧ (p.val,.idle) ∈ v.others i ∧
      ((v.get i (v.name i)).Wf → P i (v.get i (v.name i)))
  | .ilock i,P => ∃ k m, ⟨i,k,m⟩ ∈ v.held ∧ m.stage = .idle ∧ (v.inode k).type ≠ 0 ∧
      if v.Locks i then E v .sleep else P () (v.move ⟨i,k,m⟩ .locked)
  | .iunlock i,P => ∃ k, ⟨i,k,.locked⟩ ∈ v.held ∧ P () (v.move ⟨i,k,.locked⟩ .seen)
  | .iputTest i,P => ∃ k m, ⟨i,k,m⟩ ∈ v.held ∧ m.stage = .idle ∧
      if v.Sole i ∧ (v.inode k).nlink = 0 then
        P true (v.move ⟨i,k,m⟩ .freeing) ∧ (m = .fresh → P false (v.drop ⟨i,k,m⟩))
      else P false (v.drop ⟨i,k,m⟩)
  | .iputFree i,P => ∃ k, ⟨i,k,.freeing⟩ ∈ v.held ∧ v.Sole i ∧
      Wrote sb E v k (do return ((),← Logged.release sb k (v.data k)))
        fun _ w => P () (w.move ⟨i,k,.freeing⟩ .dropping)
  | .iputDrop i,P => ∃ k, ⟨i,k,.dropping⟩ ∈ v.held ∧ P () (v.drop ⟨i,k,.dropping⟩)
  | .peek i,P => ∃ k, ⟨i,k,.locked⟩ ∈ v.held ∧ P (k,v.inode k) v
  | .dirlookup dp name,P => ∃ k, ⟨dp,k,.locked⟩ ∈ v.held ∧ (v.inode k).type = T_DIR ∧
      Read E v (sb.blocks.dirlookup name ((v.data k).rounds 0) 0 (v.data k)) fun
        | none => P none v
        | some (inum,off) => Got E v inum fun i => P (some (i,off))
  | .dirwrite dp name inum,P => ∃ k, ⟨dp,k,.locked⟩ ∈ v.held ∧
      Wrote sb E v k (Logged.writeData sb k (sb.logged.dirwrite (v.data k) name inum))
        fun r => P (r = DIRENT)
  | .isdirempty i,P => ∃ k, ⟨i,k,.locked⟩ ∈ v.held ∧
      Read E v (sb.blocks.isdirempty ((v.data k).rounds (2*DIRENT)) (2*DIRENT) (v.data k))
        fun b => P b v
  | .erase dp off,P => ∃ k, ⟨dp,k,.locked⟩ ∈ v.held ∧
      Wrote sb E v k (Logged.writeData sb k (sb.logged.writeEntry (v.data k) .zero off))
        fun r w => if r = DIRENT then P () w else E w (.panic "unlink: writei")
  | .addNlink i δ,P => Set sb v i (fun d => { d with nlink := toShort (d.nlink+δ) }) (P ())
  | .clearNlink i,P => Set sb v i (fun d => { d with nlink := 0 }) (P ())
  | .setup i major minor,P => Set sb v i
      (fun d => { d with major := toShort major, minor := toShort minor, nlink := 1 }) (P ())
  | .itrunc i,P => ∃ k, ⟨i,k,.locked⟩ ∈ v.held ∧
      Wrote sb E v k (do return ((),← Logged.truncate sb k (v.data k))) P
  | .readi i off n,P => ∃ k, ⟨i,k,.locked⟩ ∈ v.held ∧ ∀ r got,
      sb.blocks.readi (fun _ _ => true) off n (v.data k) = .ok (r,got,v.data k) →
      P (r,got) v
  | .writei i src off n,P => ∃ k, ⟨i,k,.locked⟩ ∈ v.held ∧
      Wrote sb E v k (Logged.writeData sb k (sb.logged.writei src off n (v.data k))) P
  | .ialloc type,P => P ⟨p.val,ROOTDEV,type,1,false⟩
      { v with scans := ⟨p.val,ROOTDEV,type,1,false⟩::v.scans }
  | .scan c,P => c ∈ v.scans ∧
      if c.found then
        Got E { v with scans := v.scans.erase c } c.inum fun i => P (.inr (some i))
      else if c.inum < sb.ninodes then
        if (v.inode c.inum).type = 0 then
          Image sb (update v.inode c.inum (.fresh c.type)) v.store →
          P (.inl { c with found := true })
            { v with
              inode := update v.inode c.inum (.fresh c.type)
              scans := { c with found := true }::v.scans.erase c
              log := v.log++[sb.IBLOCK c.inum] }
        else P (.inl { c with inum := c.inum+1 })
          { v with scans := { c with inum := c.inum+1 }::v.scans.erase c }
      else P (.inr none) { v with scans := v.scans.erase c }
  | .filealloc,P =>
      match (List.finRange NFILE).find? fun f => (v.file f).ref = 0 with
      | some f => P (some f) { v with file := update v.file f { v.file f with ref := 1 } }
      | none => P none v
  | .fdalloc f,P =>
      match (List.finRange NOFILE).find? fun fd => ((v.proc p).ofile fd).isNone with
      | some fd => P (some fd) { v with proc := update v.proc p { v.proc p with
          ofile := update (v.proc p).ofile fd (some f) } }
      | none => P none v
  | .fdget fd,P => P (((v.proc p).ofile fd).map fun f => (f,v.file f)) v
  | .fdclear fd,P => P () { v with proc := update v.proc p { v.proc p with
      ofile := update (v.proc p).ofile fd none } }
  | .fileclose f,P =>
      if (v.file f).ref < 1 then E v (.panic "fileclose")
      else if (v.file f).ref-1 > 0 then P none { v with
        file := update v.file f { v.file f with ref := (v.file f).ref-1 } }
      else if (v.file f).kind = .none then
        P none { v with file := update v.file f (v.file f).closed }
      else (v.file f).owned ∧ ((v.file f).owner.val,.idle) ∈ v.others (v.file f).ip ∧
        P (some (v.file f).ip) { v.take (v.file f).ip (v.file f).owner .fresh with
          file := update v.file f (v.file f).closed }
  | .openFile f i omode,P => ∃ k, ⟨i,k,.locked⟩ ∈ v.held ∧
      P () { v with file := update v.file f ((v.file f).opened (v.inode k) p i omode) }
  | .unlockFile f i,P => ∃ k, ⟨i,k,.locked⟩ ∈ v.held ∧
      P () { v.leave ⟨i,k,.locked⟩ p with
        file := update v.file f { v.file f with owner := p, owned := true } }
  | .lockFile f,P => (v.file f).owned ∧
      ((v.file f).owner.val,.idle) ∈ v.others (v.file f).ip ∧ ¬v.Locks (v.file f).ip ∧
      (v.inode (v.name (v.file f).ip)).type ≠ 0 ∧
      P (v.file f).ip { v.take (v.file f).ip (v.file f).owner .locked with
        file := update v.file f { v.file f with owned := false } }
  | .leaveCwd,P => ∃ i, (v.proc p).cwd = some i ∧ (p.val,.idle) ∈ v.others i ∧
      P i { v.take i p .fresh with
        proc := update v.proc p { v.proc p with leaving := true } }
  | .setCwd j,P => P () { v with
      proc := update v.proc p { v.proc p with cwd := j, leaving := false } }
  | .fork _,_ => False
  | .nlinkPanic,_ => E v (.panic "unlink: nlink < 1")

/-- The description of the actions of process `p`. -/
def spec : Lib.Spec Act Act.Ret View := ⟨pre sb p E⟩

end Solo
end Xv6.Fs
