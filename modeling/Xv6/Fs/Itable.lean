import Xv6.Fs.Layout
import Xv6.Lib.Transition

/-! The inode table of `fs.c`, shared by all processes. Each critical section of `itable.lock`,
each step on an inode's sleep-lock and each access to an on-disk inode under its buffer's lock is
one event, so that the window which `iput` leaves open while it frees an inode is visible. -/
namespace Xv6.Fs

namespace Itable

/-- What a process is doing with one of its references: it just has it, it is in `ilock` before
or after `acquiresleep` returned, it has the inode locked, or it is in the part of `iput` that
frees the inode, named by the statement to be executed next. -/
inductive Stage
  | idle
  | wait
  | load
  | hold
  | itrunc
  | clear
  | update
  | invalid
  | release
  | drop
  deriving DecidableEq

namespace Stage

/-- The stages at which the process has the inode's sleep-lock. -/
def locks : Stage → Bool
  | load | hold | itrunc | clear | update | invalid | release => true
  | idle | wait | drop => false

/-- The stages of an `iput` that has written type 0 to the disk and is still to drop its
reference. -/
def freed : Stage → Bool
  | invalid | release | drop => true
  | _ => false

/-- The stages of an `iput` that is freeing the inode and has not yet done so on disk. -/
def freeing : Stage → Bool
  | itrunc | clear | update => true
  | _ => false

/-- The stages before the owner of a new inode has seen it. -/
def unseen : Stage → Bool
  | idle | wait | load => true
  | _ => false

end Stage

abbrev Ref := Pid×Stage

/-- A `struct inode` of the table. `holder` and `waiters` are the sleep-lock: who has it, and how
many processes are in its `acquiresleep`. `refs` records the processes that use the entry, each
with a reference of its own or, for `shares` of them, with one of an open file that another process
has too; `new` is an `ialloc` whose caller has not locked the inode yet. -/
structure Entry where
  dev : ℕ
  inum : ℕ
  ref : ℕ
  holder : Option Pid
  waiters : ℕ
  valid : Bool
  d : Dinode
  refs : List Ref
  shares : ℕ
  new : Option (Pid×ℕ)

/-- The steps of a process that uses an entry. `share` is what `fork` does to the reference of an
open file, which another process may then use at the same time, and `unshare` what `fileclose` does
while others have the file open; with `pass` another process takes the reference over. -/
inductive Op
  | idup
  | ilock
  | acquiresleep
  | load
  | modify (d : Dinode)
  | iupdate
  | iunlock
  | iput
  | itrunc
  | clear
  | update
  | invalid
  | release
  | drop
  | pass (q : Pid)
  | share (q : Pid)
  | unshare
  deriving DecidableEq

/-- Whether the fields in memory differ from those last read or written, by the calls alone. -/
def Op.dirties : Op → Bool → Bool
  | modify _,_ | clear,_ => true
  | load,_ | iupdate,_ | itrunc,_ | update,_ => false
  | _,w => w

/-- What a step leaves: the entry, its on-disk inode, and the message of a panic. -/
abbrev Outcome := Entry×Dinode×Option String

namespace Entry
variable (n : Entry) (k : Dinode) (p : Pid)

/-- The process goes on to another stage with one of its references. -/
def move (g h : Stage) : Entry := { n with refs := (p,h)::n.refs.erase (p,g) }

/-- The process enters `acquiresleep`. -/
def enqueue : Entry := { n.move p .idle .wait with waiters := n.waiters+1 }

/-- `iput` finds that the reference to be dropped is the last one to an unlinked inode. -/
def Last : Prop := n.ref = 1 ∧ n.valid ∧ n.d.nlink = 0

instance : Decidable n.Last := inferInstanceAs (Decidable (_ ∧ _))

/-- One step of process `p` with the entry `n`, whose on-disk inode is `k`; `none` when the
process is not there, or sleeps. -/
def op : Op → Option Outcome
  | .idup =>
    if (p,.idle) ∈ n.refs ∨ (p,.hold) ∈ n.refs then
      some ({ n with ref := n.ref+1, refs := (p,.idle)::n.refs, new := none },k,none)
    else none
  | .ilock =>
    if (p,.idle) ∈ n.refs then
      if n.ref < 1 then some (n,k,some "ilock") else some (n.enqueue p,k,none)
    else none
  | .acquiresleep =>
    if (p,.wait) ∈ n.refs ∧ n.holder = none then
      some ({ n.move p .wait .load with holder := some p, waiters := n.waiters-1 },k,none)
    else none
  | .load =>
    if (p,.load) ∈ n.refs then
      if n.valid then some ({ n.move p .load .hold with new := none },k,none)
      else some ({ n.move p .load .hold with d := k, valid := true, new := none },k,
        if k.type = 0 then some "ilock: no type" else none)
    else none
  | .modify d => if (p,.hold) ∈ n.refs then some ({ n with d := d },k,none) else none
  | .iupdate => if (p,.hold) ∈ n.refs then some (n,n.d,none) else none
  | .iunlock =>
    if (p,.hold) ∈ n.refs then
      if n.holder ≠ some p ∨ n.ref < 1 then some (n,k,some "iunlock")
      else some ({ n.move p .hold .idle with holder := none },k,none)
    else none
  | .iput =>
    if (p,.idle) ∈ n.refs then
      if n.Last then
        if n.holder = none then
          some ({ n.move p .idle .itrunc with holder := some p, new := none },k,none)
        else none
      else some ({ n with ref := n.ref-1, refs := n.refs.erase (p,.idle), new := none },k,none)
    else none
  | .itrunc =>
    -- itrunc ends with an iupdate of its own
    if (p,.itrunc) ∈ n.refs then
      some ({ n.move p .itrunc .clear with d := n.d.trunc },n.d.trunc,none)
    else none
  | .clear =>
    if (p,.clear) ∈ n.refs then
      some ({ n.move p .clear .update with d := { n.d with type := 0 } },k,none)
    else none
  | .update => if (p,.update) ∈ n.refs then some (n.move p .update .invalid,n.d,none) else none
  | .invalid =>
    if (p,.invalid) ∈ n.refs then
      some ({ n.move p .invalid .release with valid := false },k,none)
    else none
  | .release =>
    if (p,.release) ∈ n.refs then
      some ({ n.move p .release .drop with holder := none },k,none)
    else none
  | .drop =>
    if (p,.drop) ∈ n.refs then
      some ({ n with ref := n.ref-1, refs := n.refs.erase (p,.drop) },k,none)
    else none
  | .pass q =>
    if (p,.idle) ∈ n.refs then
      some ({ n with refs := (q,.idle)::n.refs.erase (p,.idle), new := none },k,none)
    else none
  | .share q =>
    if (p,.idle) ∈ n.refs then
      some ({ n with refs := (q,.idle)::n.refs, shares := n.shares+1, new := none },k,none)
    else none
  | .unshare =>
    if (p,.idle) ∈ n.refs ∧ 0 < n.shares then
      some ({ n with refs := n.refs.erase (p,.idle), shares := n.shares-1, new := none },k,none)
    else none

end Entry

/-- A call of `ialloc` that has reached inode number `inum`, and whether it has allocated it. -/
structure Scan where
  pid : Pid
  dev : ℕ
  type : ℕ
  inum : ℕ
  found : Bool
  deriving DecidableEq

/-- The table and the on-disk inodes. `dirty` is history: the entries changed since the last
`iupdate` or `ilock`. -/
structure Table where
  disk : ℕ → ℕ → Dinode
  inode : Fin NINODE → Entry
  scans : List Scan
  panicked : Option String
  dirty : Fin NINODE → Bool

inductive Event
  | iget (p : Pid) (dev inum : ℕ)
  | op (p : Pid) (i : Fin NINODE) (o : Op)
  | ialloc (p : Pid) (dev type : ℕ)
  | scan (c : Scan)

namespace Table

/-- `iinit`: no entry is in use. -/
def init (disk : ℕ → ℕ → Dinode) : Table where
  disk := disk
  inode _ := ⟨0,0,0,none,0,false,.fresh 0,[],0,none⟩
  scans := []
  panicked := none
  dirty _ := false

variable (s : Table)

def Names (i : Fin NINODE) (dev inum : ℕ) : Prop :=
  0 < (s.inode i).ref ∧ (s.inode i).dev = dev ∧ (s.inode i).inum = inum

instance (i : Fin NINODE) (dev inum : ℕ) : Decidable (s.Names i dev inum) :=
  inferInstanceAs (Decidable (_ ∧ _))

/-- The on-disk inode of an entry. -/
def dinode (i : Fin NINODE) : Dinode := s.disk (s.inode i).dev (s.inode i).inum

def setDisk (dev inum : ℕ) (k : Dinode) : Table :=
  { s with disk := Function.update s.disk dev (Function.update (s.disk dev) inum k) }

def setInode (i : Fin NINODE) (n : Entry) : Table :=
  { s with inode := Function.update s.inode i n }

/-- The table after a step with an entry, which leaves the entry `n` and its on-disk inode `k`. -/
def put (i : Fin NINODE) (n : Entry) (k : Dinode) : Table :=
  (s.setInode i n).setDisk (s.inode i).dev (s.inode i).inum k

/-- The entry of an inode that is in the table. -/
def cached (dev inum : ℕ) : Option (Fin NINODE) :=
  (List.finRange NINODE).find? fun i => s.Names i dev inum

/-- The first empty entry. -/
def empty : Option (Fin NINODE) := (List.finRange NINODE).find? fun i => (s.inode i).ref = 0

/-- `iget`: share the entry of the inode, or take the first empty one. -/
def iget (p : Pid) (dev inum : ℕ) (new : Option (Pid×ℕ)) : Table :=
  match s.cached dev inum with
  | some i => s.setInode i { s.inode i with
      ref := (s.inode i).ref+1, refs := (p,.idle)::(s.inode i).refs, new := new }
  | none =>
    match s.empty with
    | some i => s.setInode i { s.inode i with
        dev := dev, inum := inum, ref := 1, valid := false, refs := [(p,.idle)], new := new }
    | none => { s with panicked := some "iget: no inodes" }

/-- One step of the loop of `ialloc`, and the `iget` at its end. -/
def scan (ninodes : ℕ) (c : Scan) : Table :=
  if c.found then
    ({ s with scans := s.scans.erase c } : Table).iget c.pid c.dev c.inum (some (c.pid,c.type))
  else if c.inum < ninodes then
    if (s.disk c.dev c.inum).type = 0 then
      ({ s with scans := { c with found := true }::s.scans.erase c } : Table).setDisk
        c.dev c.inum (.fresh c.type)
    else { s with scans := { c with inum := c.inum+1 }::s.scans.erase c }
  else { s with scans := s.scans.erase c }

/-- The whole table under the steps of any number of processes; after a panic nothing runs. -/
def step (ninodes : ℕ) (e : Event) : Option Table :=
  if s.panicked.isSome then none
  else match e with
    | .iget p dev inum => some (s.iget p dev inum none)
    | .op p i o =>
      ((s.inode i).op (s.dinode i) p o).map fun (n,k,m) => { s.put i n k with
        panicked := m, dirty := Function.update s.dirty i (o.dirties (s.dirty i)) }
    | .ialloc p dev type => some { s with scans := ⟨p,dev,type,1,false⟩::s.scans }
    | .scan c => if c ∈ s.scans then some (s.scan ninodes c) else none

end Table

/-- The inode protocol of `fs.c`'s comment: an inode keeps a type while it is in use, and who has
changed it under the lock calls `iupdate` before the lock is released. A reference is put when
nobody shares it any more. -/
def Follows (s : Table) : Event → Prop
  | .ialloc _ _ type => type ≠ 0
  | .op _ _ (.modify d) => d.type ≠ 0
  | .op _ i .iunlock => s.dirty i = false
  | .op _ i .iput => (s.inode i).ref = 1 → (s.inode i).shares = 0
  | _ => True

instance (s : Table) (e : Event) : Decidable (Follows s e) :=
  match e with
  | .ialloc _ _ _ => inferInstanceAs (Decidable (_ ≠ _))
  | .op _ _ (.modify _) => inferInstanceAs (Decidable (_ ≠ _))
  | .op _ _ .iunlock => inferInstanceAs (Decidable (_ = _))
  | .op _ _ .iput => inferInstanceAs (Decidable (_ → _))
  | .iget _ _ _ | .scan _ => isTrue trivial
  | .op _ _ .idup | .op _ _ .ilock | .op _ _ .acquiresleep | .op _ _ .load | .op _ _ .iupdate
  | .op _ _ .itrunc | .op _ _ .clear | .op _ _ .update | .op _ _ .invalid | .op _ _ .release
  | .op _ _ .drop | .op _ _ (.pass _) | .op _ _ (.share _) | .op _ _ .unshare => isTrue trivial

/-- A lookup names an allocated inode that has a link, and no reference is dropped while an
`iput` that has freed the entry's inode still has its own reference to drop. -/
def Orderly (s : Table) : Event → Prop
  | .iget _ dev inum => (s.disk dev inum).type ≠ 0 ∧ (s.disk dev inum).nlink ≠ 0
  | .op _ i .iput => ∀ r ∈ (s.inode i).refs, r.2.freed = false
  | _ => True

instance (s : Table) (e : Event) : Decidable (Orderly s e) :=
  match e with
  | .iget _ _ _ => inferInstanceAs (Decidable (_ ∧ _))
  | .op _ _ .iput => inferInstanceAs (Decidable (∀ _ ∈ _, _))
  | .ialloc _ _ _ | .scan _ => isTrue trivial
  | .op _ _ .idup | .op _ _ .ilock | .op _ _ .acquiresleep | .op _ _ .load | .op _ _ .iupdate
  | .op _ _ (.modify _) | .op _ _ .iunlock | .op _ _ .itrunc | .op _ _ .clear | .op _ _ .update
  | .op _ _ .invalid | .op _ _ .release | .op _ _ .drop | .op _ _ (.pass _) | .op _ _ (.share _)
  | .op _ _ .unshare => isTrue trivial

end Itable
end Xv6.Fs
