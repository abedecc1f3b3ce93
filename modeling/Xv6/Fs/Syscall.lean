import Xv6.Fs.Kernel

/-! The file-system system calls of `sysfile.c` as programs over the actions of the kernel.
The calls are divided into their transactions. These only delay when the blocks reach the disk, so
that they are no steps of the system. -/
namespace Xv6.Fs

open Itable (Scan)

/-- An atomic action of a process. -/
inductive Act
  | iget (inum : ℕ)
  | idupCwd
  | ilock (i : Slot)
  | iunlock (i : Slot)
  | iputTest (i : Slot)
  | iputFree (i : Slot)
  | iputDrop (i : Slot)
  | peek (i : Slot)
  | dirlookup (dp : Slot) (name : List UInt8)
  | dirwrite (dp : Slot) (name : List UInt8) (inum : ℕ)
  | isdirempty (i : Slot)
  | erase (dp : Slot) (off : ℕ)
  | addNlink (i : Slot) (δ : ℤ)
  | clearNlink (i : Slot)
  | setup (i : Slot) (major minor : ℤ)
  | itrunc (i : Slot)
  | readi (i : Slot) (off n : ℕ)
  | writei (i : Slot) (src : ℕ → ℕ → List UInt8×Bool) (off n : ℕ)
  | ialloc (type : ℕ)
  | scan (c : Scan)
  | filealloc
  | fdalloc (f : Fin NFILE)
  | fdget (fd : Fin NOFILE)
  | fdclear (fd : Fin NOFILE)
  | fileclose (f : Fin NFILE)
  | openFile (f : Fin NFILE) (i : Slot) (omode : ℕ)
  | unlockFile (f : Fin NFILE) (i : Slot)
  | lockFile (f : Fin NFILE)
  | leaveCwd
  | setCwd (i : Option Slot)
  | fork (q : Fin NPROC)
  | nlinkPanic

/-- What an action returns to the process. -/
abbrev Act.Ret : Act → Type
  | .iget _ | .idupCwd | .leaveCwd | .lockFile _ => Slot
  | .iputTest _ | .dirwrite _ _ _ | .isdirempty _ => Bool
  | .peek _ => ℕ×Dinode
  | .dirlookup _ _ => Option (Slot×ℕ)
  | .readi _ _ _ => ℤ×List UInt8
  | .writei _ _ _ _ => ℤ
  | .ialloc _ => Scan
  | .scan _ => Scan⊕Option Slot
  | .filealloc => Option (Fin NFILE)
  | .fdalloc _ => Option (Fin NOFILE)
  | .fdget _ => Option (Fin NFILE×File)
  | .fileclose _ => Option Slot
  | _ => Unit

variable (sb : Superblock)

/-- The effect of an action of process `p`. -/
def eval (p : Fin NPROC) : (a : Act) → M a.Ret
  | .iget inum => iget p inum none
  | .idupCwd => idupCwd p
  | .ilock i => ilock p i
  | .iunlock i => entryOp p i .iunlock
  | .iputTest i => iputTest p i
  | .iputFree i => iputFree p i
  | .iputDrop i => entryOp p i .drop
  | .peek i => do
    let s ← get
    return ((s.table.inode i).inum,(s.table.inode i).d)
  | .dirlookup dp name => dirlookup sb p dp name
  | .dirwrite dp name inum => dirwrite sb p dp name inum
  | .isdirempty i => isdirempty sb p i
  | .erase dp off => erase sb p dp off
  | .addNlink i δ => setDinode p i fun d => { d with nlink := toShort (d.nlink+δ) }
  | .clearNlink i => setDinode p i fun d => { d with nlink := 0 }
  | .setup i major minor => setDinode p i fun d =>
      { d with major := toShort major, minor := toShort minor, nlink := 1 }
  | .itrunc i => itrunc p i
  | .readi i off n => readi sb p i off n
  | .writei i src off n => writei sb p i src off n
  | .ialloc type => do
    let c : Scan := ⟨p.val,ROOTDEV,type,1,false⟩
    modify fun s => { s with table := { s.table with scans := c::s.table.scans } }
    return c
  | .scan c => scan sb p c
  | .filealloc => filealloc
  | .fdalloc f => fdalloc p f
  | .fdget fd => do
    let s ← get
    return ((s.proc p).ofile fd).map fun f => (f,s.file f)
  | .fdclear fd => do
    let s ← get
    setProc p { s.proc p with ofile := Function.update (s.proc p).ofile fd none }
  | .fileclose f => fileclose p f
  | .openFile f i omode => openFile p f i omode
  | .unlockFile f i => unlockFile p f i
  | .lockFile f => lockFile p f
  | .leaveCwd => leaveCwd p
  | .setCwd i => setCwd p i
  | .fork q => fork p q
  | .nlinkPanic => throw (.panic "unlink: nlink < 1")

/-- Code of the kernel that ends with a value in `α`. -/
abbrev Code := Lib.Prog Act Act.Ret

def perform (a : Act) : Code a.Ret := Lib.Prog.perform a

def iput (i : Slot) : Code Unit := do
  if ← perform (.iputTest i) then
    perform (.iputFree i)
    perform (.iputDrop i)

def iunlockput (i : Slot) : Code Unit := do
  perform (.iunlock i)
  iput i

/-- The loop of `ialloc`; the argument bounds the number of rounds. -/
def iallocLoop : ℕ → Scan → Code (Option Slot)
  | 0,_ => return none
  | fuel+1,c => do
    match ← perform (.scan c) with
    | .inl c => iallocLoop fuel c
    | .inr r => return r

def ialloc (type : ℕ) : Code (Option Slot) := do
  iallocLoop (sb.ninodes+2) (← perform (.ialloc type))

/-- `dirlink`: whether the entry has been written. -/
def dirlink (dp : Slot) (name : List UInt8) (inum : ℕ) : Code Bool := do
  match ← perform (.dirlookup dp name) with
  | some (ip,_) =>
    iput ip
    return false
  | none => perform (.dirwrite dp name inum)

def slash : UInt8 := 47

/-- `skipelem`: the rest of the path and its first element, cut to `DIRSIZ` bytes. -/
def skipelem (path : List UInt8) : Option (List UInt8×List UInt8) :=
  let path := path.dropWhile (· = slash)
  if path = [] then none
  else some ((path.dropWhile (· ≠ slash)).dropWhile (· = slash),
    (path.takeWhile (· ≠ slash)).take DIRSIZ)

/-- The loop of `namex`, with `ip` the inode reached; the first argument bounds the number of
elements left in the path. -/
def namexLoop (nameiparent : Bool) :
    ℕ → Slot → List UInt8 → List UInt8 → Code (Option (Slot×List UInt8))
  | 0,ip,_,_ => do
    iput ip
    return none
  | fuel+1,ip,path,name =>
    match skipelem path with
    | none =>
      if nameiparent then do
        iput ip
        return none
      else return some (ip,name)
    | some (path,name) => do
      perform (.ilock ip)
      if (← perform (.peek ip)).2.type ≠ T_DIR then
        iunlockput ip
        return none
      if nameiparent && path.isEmpty then
        perform (.iunlock ip)
        return some (ip,name)
      match ← perform (.dirlookup ip name) with
      | none =>
        iunlockput ip
        return none
      | some (next,_) =>
        iunlockput ip
        namexLoop nameiparent fuel next path name

def namex (nameiparent : Bool) (path : List UInt8) : Code (Option (Slot×List UInt8)) := do
  let ip ← if path.head? = some slash then perform (.iget ROOTINO) else perform .idupCwd
  namexLoop nameiparent (path.length+1) ip path []

def namei (path : List UInt8) : Code (Option Slot) := do
  return (← namex false path).map (·.1)

def nameiparent (path : List UInt8) : Code (Option (Slot×List UInt8)) := namex true path

/-- The names of the first two entries of a directory. -/
def dot : List UInt8 := [46]
def dotdot : List UInt8 := [46,46]

/-- `create`'s entries for a new inode: those of a new directory, and the one in `dp`. -/
def createEntries (dp ip : Slot) (name : List UInt8) (type : ℕ) : Code Bool := do
  let inum := (← perform (.peek ip)).1
  if type = T_DIR then
    if !(← dirlink ip dot inum) then return false
    if !(← dirlink ip dotdot (← perform (.peek dp)).1) then return false
  dirlink dp name inum

/-- `create`: the new (or existing) inode, locked. -/
def create (path : List UInt8) (type : ℕ) (major minor : ℤ) : Code (Option Slot) := do
  match ← nameiparent path with
  | none => return none
  | some (dp,name) =>
    perform (.ilock dp)
    match ← perform (.dirlookup dp name) with
    | some (ip,_) =>
      iunlockput dp
      perform (.ilock ip)
      let d := (← perform (.peek ip)).2
      if type = T_FILE ∧ (d.type = T_FILE ∨ d.type = T_DEVICE) then return some ip
      iunlockput ip
      return none
    | none =>
      match ← ialloc sb type with
      | none =>
        iunlockput dp
        return none
      | some ip =>
        perform (.ilock ip)
        perform (.setup ip major minor)
        if ← createEntries dp ip name type then
          if type = T_DIR then perform (.addNlink dp 1)
          iunlockput dp
          return some ip
        else
          perform (.clearNlink ip)
          iunlockput ip
          iunlockput dp
          return none

/-- `argstr(n, buf, MAXPATH)`: the string at the user's address, if it ends in time. -/
def argstr (path : List UInt8) : Option (List UInt8) :=
  let s := path.takeWhile (· ≠ 0)
  if s.length < MAXPATH then some s else none

/-- The label `bad` of `sys_link`. -/
def linkBad (ip : Slot) : Code ℤ := do
  perform (.ilock ip)
  perform (.addNlink ip (-1))
  iunlockput ip
  return -1

def sysLink (old new : List UInt8) : Code ℤ := do
  match argstr old,argstr new with
  | some old,some new =>
    match ← namei old with
    | none => return -1
    | some ip =>
      perform (.ilock ip)
      let (inum,d) ← perform (.peek ip)
      if d.type = T_DIR then
        iunlockput ip
        return -1
      perform (.addNlink ip 1)
      perform (.iunlock ip)
      match ← nameiparent new with
      | none => linkBad ip
      | some (dp,name) =>
        perform (.ilock dp)
        -- both inodes are on the root device
        if ← dirlink dp name inum then
          iunlockput dp
          iput ip
          return 0
        else
          iunlockput dp
          linkBad ip
  | _,_ => return -1

/-- `ip->type == T_DIR && !isdirempty(ip)`. -/
def isBusy (ip : Slot) (d : Dinode) : Code Bool := do
  if d.type = T_DIR then return !(← perform (.isdirempty ip))
  return false

def sysUnlink (path : List UInt8) : Code ℤ := do
  match argstr path with
  | none => return -1
  | some path =>
    match ← nameiparent path with
    | none => return -1
    | some (dp,name) =>
      perform (.ilock dp)
      if namecmp name dot = 0 ∨ namecmp name dotdot = 0 then
        iunlockput dp
        return -1
      match ← perform (.dirlookup dp name) with
      | none =>
        iunlockput dp
        return -1
      | some (ip,off) =>
        perform (.ilock ip)
        let d := (← perform (.peek ip)).2
        if d.nlink < 1 then perform .nlinkPanic
        if ← isBusy ip d then
          iunlockput ip
          iunlockput dp
          return -1
        perform (.erase dp off)
        if d.type = T_DIR then perform (.addNlink dp (-1))
        iunlockput dp
        perform (.addNlink ip (-1))
        iunlockput ip
        return 0

/-- `sys_open` once the inode is found and locked. -/
def openInode (ip : Slot) (omode : ℕ) : Code ℤ := do
  let d := (← perform (.peek ip)).2
  if d.type = T_DEVICE ∧ (d.major < 0 ∨ d.major ≥ NDEV) then
    iunlockput ip
    return -1
  match ← perform .filealloc with
  | none =>
    iunlockput ip
    return -1
  | some f =>
    match ← perform (.fdalloc f) with
    | none =>
      -- the file has no kind yet, so closing it puts no inode
      let _ ← perform (.fileclose f)
      iunlockput ip
      return -1
    | some fd =>
      perform (.openFile f ip omode)
      if omode &&& O_TRUNC ≠ 0 ∧ d.type = T_FILE then perform (.itrunc ip)
      perform (.unlockFile f ip)
      return fd.val

def sysOpen (path : List UInt8) (omode : ℕ) : Code ℤ := do
  match argstr path with
  | none => return -1
  | some path =>
    if omode &&& O_CREATE ≠ 0 then
      match ← create sb path T_FILE 0 0 with
      | none => return -1
      | some ip => openInode ip omode
    else
      match ← namei path with
      | none => return -1
      | some ip =>
        perform (.ilock ip)
        let d := (← perform (.peek ip)).2
        if d.type = T_DIR ∧ omode ≠ O_RDONLY then
          iunlockput ip
          return -1
        openInode ip omode

/-- `sys_mkdir` and `sys_mknod`: create the inode and put it. -/
def sysCreate (path : List UInt8) (type : ℕ) (major minor : ℤ) : Code ℤ := do
  match argstr path with
  | none => return -1
  | some path =>
    match ← create sb path type major minor with
    | none => return -1
    | some ip =>
      iunlockput ip
      return 0

def sysMkdir (path : List UInt8) : Code ℤ := sysCreate sb path T_DIR 0 0

def sysMknod (path : List UInt8) (major minor : ℤ) : Code ℤ :=
  sysCreate sb path T_DEVICE major minor

def sysChdir (path : List UInt8) : Code ℤ := do
  match argstr path with
  | none => return -1
  | some path =>
    match ← namei path with
    | none => return -1
    | some ip =>
      perform (.ilock ip)
      if (← perform (.peek ip)).2.type ≠ T_DIR then
        iunlockput ip
        return -1
      perform (.iunlock ip)
      iput (← perform .leaveCwd)
      perform (.setCwd (some ip))
      return 0

/-- The system calls of a process. -/
inductive Call
  | open (path : List UInt8) (omode : ℕ)
  | mkdir (path : List UInt8)
  | mknod (path : List UInt8) (major minor : ℤ)
  | link (old new : List UInt8)
  | unlink (path : List UInt8)
  | chdir (path : List UInt8)
  | close (fd : ℕ)
  | exit
  | fork (q : Fin NPROC)
  | write (fd : ℕ) (src : ℕ → ℕ → List UInt8×Bool) (off n : ℕ)

/-- A part of a system call: an action outside of any transaction, or the code between a `begin_op`
and its `end_op`. -/
inductive Part
  | act (a : Act)
  | op (x : Code ℤ)

abbrev Part.Ret : Part → Type
  | .act a => a.Ret
  | .op _ => ℤ

/-- System calls, divided into parts. -/
abbrev Parts := Lib.Prog Part Part.Ret

namespace Parts

def outside (a : Act) : Parts a.Ret := Lib.Prog.perform (Part.act a)

def transaction (x : Code ℤ) : Parts ℤ := Lib.Prog.perform (Part.op x)

/-- `fileclose`. -/
def closeFile (f : Fin NFILE) : Parts Unit := do
  match ← outside (.fileclose f) with
  | none => return ()
  | some ip =>
    let _ ← transaction (do iput ip; return 0)

def sysClose (fd : ℕ) : Parts ℤ := do
  if h : fd < NOFILE then
    match ← outside (.fdget ⟨fd,h⟩) with
    | none => return -1
    | some (f,_) =>
      outside (.fdclear ⟨fd,h⟩)
      closeFile f
      return 0
  else return -1

/-- `exit`'s loop over the open files. -/
def closeAll : List (Fin NOFILE) → Parts Unit
  | [] => return ()
  | fd::fds => do
    match ← outside (.fdget fd) with
    | none => closeAll fds
    | some (f,_) =>
      closeFile f
      outside (.fdclear fd)
      closeAll fds

/-- `exit` as far as the file system is concerned. -/
def exit : Parts ℤ := do
  closeAll (List.finRange NOFILE)
  let ip ← outside .leaveCwd
  let _ ← transaction (do iput ip; return 0)
  outside (.setCwd none)
  return 0

/-- `int max = ((MAXOPBLOCKS-1-1-2) / 2) * BSIZE`. -/
def chunk : ℕ := (MAXOPBLOCKS-1-1-2)/2*BSIZE

/-- One round of the loop of `filewrite`. -/
def writeChunk (f : Fin NFILE) (src : ℕ → ℕ → List UInt8×Bool) (off n1 : ℕ) : Code ℤ := do
  let ip ← perform (.lockFile f)
  let r ← perform (.writei ip src off n1)
  perform (.unlockFile f ip)
  return r

/-- The loop of `filewrite`, with `i` bytes written and `f->off` at `off`; the first argument bounds
the number of rounds. -/
def filewriteLoop (f : Fin NFILE) (src : ℕ → ℕ → List UInt8×Bool) (n : ℕ) : ℕ → ℕ → ℕ → Parts ℤ
  | 0,_,_ => return -1
  | fuel+1,i,off => do
    if i < n then
      let n1 := min (n-i) chunk
      let r ← transaction (writeChunk f (fun tot m => src (i+tot) m) off n1)
      if r ≠ n1 then return -1
      filewriteLoop f src n fuel (i+n1) (off+n1)
    else return n

/-- `sys_write` to a file, with `f->off` at `off`. -/
def sysWrite (fd : ℕ) (src : ℕ → ℕ → List UInt8×Bool) (off n : ℕ) : Parts ℤ := do
  if h : fd < NOFILE then
    match ← outside (.fdget ⟨fd,h⟩) with
    | none => return -1
    | some (f,v) =>
      if !v.writable ∨ v.kind ≠ .inode then return -1
      filewriteLoop f src n (n+1) 0 off
  else return -1

def call : Call → Parts ℤ
  -- these three fetch their paths before `begin_op`
  | .open path omode =>
    if (argstr path).isSome then transaction (sysOpen sb path omode) else return -1
  | .link old new =>
    if (argstr old).isSome ∧ (argstr new).isSome then transaction (sysLink old new) else return -1
  | .unlink path => if (argstr path).isSome then transaction (sysUnlink path) else return -1
  | .mkdir path => transaction (sysMkdir sb path)
  | .mknod path major minor => transaction (sysMknod sb path major minor)
  | .chdir path => transaction (sysChdir path)
  | .close fd => sysClose fd
  | .exit => exit
  | .fork q => do
    outside (.fork q)
    return 0
  | .write fd src off n => sysWrite fd src off n

/-- The code of a call, without the marks of its transactions. -/
def flat {α : Type} : Parts α → Code α
  | .ret x => .ret x
  | .act (.act a) k => .act a fun r => flat (k r)
  | .act (.op x) k => x >>= fun r => flat (k r)

end Parts

def code (c : Call) : Code ℤ := (Parts.call sb c).flat

/-- The file system with, for each process, the rest of the system call it is executing. -/
abbrev Sys := Lib.Pool (Fin NPROC) Act Act.Ret ℤ State

abbrev Event := Lib.PoolEvent (Fin NPROC) Call

/-- The steps of the system: a process that exists calls the kernel, performs an action of the
call, or returns from it. -/
def step (c : Sys) (e : Event) : Option Sys :=
  c.step (fun p s => (s.proc p).cwd.isSome) (fun _ => code sb) (eval sb) e

def slot0 : Slot := ⟨0,NINODE_pos⟩
def proc0 : Fin NPROC := ⟨0,NPROC_pos⟩

/-- After `userinit`: there is one process, whose current directory is the root. -/
def boot (disk : ℕ → Dinode) (st : Store) : Sys where
  state :=
    { table :=
        { Itable.Table.init fun _ => disk with
          inode := Function.update (Itable.Table.init fun _ => disk).inode slot0
            ⟨ROOTDEV,ROOTINO,1,none,0,false,.fresh 0,[(proc0.val,.idle)],0,none⟩ }
      store := st
      file := fun _ => ⟨.none,0,false,false,slot0,0,proc0,false⟩
      proc := Function.update (fun _ => ⟨none,false,fun _ => none⟩) proc0
        ⟨some slot0,false,fun _ => none⟩ }
  thread _ := none

end Xv6.Fs
