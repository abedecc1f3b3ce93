import Xv6.Fs.Layout

/-! The blocks of a file: `balloc`, `bfree`, `bmap`, `itrunc`, `readi` and `writei` of `fs.c`, as
functions of a locked inode's fields and of the blocks of the disk. The code is written once, for
whatever presents the blocks to it. -/
namespace Xv6.Fs

/-- The free bitmap, a bit for each block, and the blocks as the buffer cache presents them. -/
structure Store where
  bitmap : ℕ → Bool
  block : ℕ → Block

/-- The fields of a locked inode together with the disk: what the functions below work on. -/
structure Data (σ : Type) where
  d : Dinode
  st : σ

/-- What the code of a file does to the blocks: `balloc`, `bread`, a store to `bp->data`, `log_write`,
and the panics. -/
structure Blocks (m : Type → Type) (σ : Type) where
  balloc : σ → m (ℕ×σ)
  bread : ℕ → σ → m (Block×σ)
  store : ℕ → Block → σ → m σ
  logWrite : ℕ → σ → m σ
  panic {α : Type} : String → m α

namespace Data

/-- The first `NDIRECT` pointers of an inode. -/
def directs (d : Dinode) : List ℕ := (List.finRange NDIRECT).map fun j => d.addrs j.castSucc

/-- The pointers in an indirect block. -/
def indirects (b : Block) : List ℕ := (List.range NINDIRECT).map b.word

/-- The bytes `data + off` up to `data + off + m` of a block. -/
def bytes (b : Block) (off m : ℕ) : List UInt8 := (List.range m).map fun i => b.byte (off+i)

/-- A block after `l` has been copied to `data + off`. -/
def overwrite (b : Block) (off : ℕ) (l : List UInt8) : Block :=
  fun i => if off ≤ i.val then l.getD (i.val-off) (b i) else b i

/-- A kernel buffer as the source of a copy, which then succeeds. -/
def kernel (l : List UInt8) (tot m : ℕ) : List UInt8×Bool := ((l.drop tot).take m,true)

/-- How often a loop `for(; off < size; off += sizeof(de))` runs from offset `off`. -/
def rounds {σ : Type} (x : Data σ) (off : ℕ) : ℕ := (x.d.size-off+(DIRENT-1))/DIRENT

end Data

namespace Blocks
variable {m : Type → Type} [Monad m] {σ : Type} (B : Blocks m σ)

/-- The pointer `ip->addrs[j]`, allocated if there is none; 0 when out of disk space. -/
def addr (x : Data σ) (j : Fin (NDIRECT+1)) : m (ℕ×Data σ) :=
  if x.d.addrs j = 0 then do
    let (b,st) ← B.balloc x.st
    if b = 0 then return (0,⟨x.d,st⟩) else return (b,⟨x.d.setAddr j b,st⟩)
  else return (x.d.addrs j,x)

/-- The entry `a[j]` of the indirect block `ind`, allocated if there is none. -/
def entry (x : Data σ) (ind j : ℕ) : m (ℕ×Data σ) := do
  let (v,st) ← B.bread ind x.st
  if v.word j = 0 then do
    let (b,st) ← B.balloc st
    if b = 0 then return (0,⟨x.d,st⟩)
    else do
      let st ← B.store ind (v.setWord j b) st
      let st ← B.logWrite ind st
      return (b,⟨x.d,st⟩)
  else return (v.word j,⟨x.d,st⟩)

/-- `bmap`: the disk block of block `bn` of the file, which is allocated if there is none. -/
def bmap (x : Data σ) (bn : ℕ) : m (ℕ×Data σ) :=
  if h : bn < NDIRECT then B.addr x ⟨bn,Nat.lt_succ_of_lt h⟩
  else if bn-NDIRECT < NINDIRECT then do
    let (ind,x) ← B.addr x (Fin.last NDIRECT)
    if ind = 0 then return (0,x) else B.entry x ind (bn-NDIRECT)
  else B.panic "bmap: out of range"

/-- The loop of `readi`: the bytes read so far, and whether the copies succeeded. `out tot m` is
whether `either_copyout` of `m` bytes to `dst + tot` succeeds. -/
def readLoop (out : ℕ → ℕ → Bool) (n : ℕ) :
    ℕ → ℕ → List UInt8 → Data σ → m (Bool×List UInt8×Data σ)
  | 0,_,got,x => return (true,got,x)
  | fuel+1,off,got,x =>
    if got.length < n then do
      let (a,x) ← B.bmap x (off/BSIZE)
      if a = 0 then return (true,got,x)
      else do
        let (v,st) ← B.bread a x.st
        let m := min (n-got.length) (BSIZE-off%BSIZE)
        if out got.length m then
          readLoop out n fuel (off+m) (got++Data.bytes v (off%BSIZE) m) ⟨x.d,st⟩
        else return (false,got,⟨x.d,st⟩)
    else return (true,got,x)

/-- `readi`: the return value and the bytes that arrived at `dst`. -/
def readi (out : ℕ → ℕ → Bool) (off n : ℕ) (x : Data σ) : m (ℤ×List UInt8×Data σ) :=
  if off > x.d.size ∨ (off+n)%2^32 < off then return (0,[],x)
  else do
    let n := if off+n > x.d.size then x.d.size-off else n
    let (ok,got,x) ← B.readLoop out n n off [] x
    return (if ok then got.length else -1,got,x)

/-- The loop of `writei`: `tot` and `off` when it ends. `src tot m` is what `either_copyin` of `m`
bytes from `src + tot` has put into the buffer, and whether it succeeded. -/
def writeLoop (src : ℕ → ℕ → List UInt8×Bool) (n : ℕ) :
    ℕ → ℕ → ℕ → Data σ → m (ℕ×ℕ×Data σ)
  | 0,tot,off,x => return (tot,off,x)
  | fuel+1,tot,off,x =>
    if tot < n then do
      let (a,x) ← B.bmap x (off/BSIZE)
      if a = 0 then return (tot,off,x)
      else do
        let (v,st) ← B.bread a x.st
        let m := min (n-tot) (BSIZE-off%BSIZE)
        let (l,ok) := src tot m
        let st ← B.store a (Data.overwrite v (off%BSIZE) l) st
        -- a copy that fails leaves the loop before log_write, and what it has stored in the buffer
        if ok then do
          let st ← B.logWrite a st
          writeLoop src n fuel (tot+m) (off+m) ⟨x.d,st⟩
        else return (tot,off,⟨x.d,st⟩)
    else return (tot,off,x)

/-- `writei` up to its `iupdate`. -/
def writei (src : ℕ → ℕ → List UInt8×Bool) (off n : ℕ) (x : Data σ) : m (ℤ×Data σ) :=
  if off > x.d.size ∨ (off+n)%2^32 < off then return (-1,x)
  else if off+n > MAXFILE*BSIZE then return (-1,x)
  else do
    let (tot,off,x) ← B.writeLoop src n n 0 off x
    return (tot,⟨{ x.d with size := max x.d.size off },x.st⟩)

/-- `itrunc`'s loops: free the blocks whose pointers are not zero. -/
def freeAll (bfree : ℕ → σ → m σ) : List ℕ → σ → m σ
  | [],st => return st
  | b::bs,st => if b = 0 then freeAll bfree bs st else do freeAll bfree bs (← bfree b st)

/-- `itrunc` up to its `iupdate`. -/
def itrunc (bread : ℕ → σ → m (Block×σ)) (bfree : ℕ → σ → m σ) (x : Data σ) : m (Data σ) := do
  let st ← freeAll bfree (Data.directs x.d) x.st
  let ind := x.d.addrs (Fin.last NDIRECT)
  if ind = 0 then return ⟨x.d.trunc,st⟩
  else do
    let (v,st) ← bread ind st
    let st ← freeAll bfree (Data.indirects v) st
    let st ← bfree ind st
    return ⟨x.d.trunc,st⟩

/-- The `readi` of one directory entry, which all the loops over a directory do. -/
def readEntry (x : Data σ) (off : ℕ) (msg : String) : m (Dirent×Data σ) := do
  let (r,l,x) ← B.readi (fun _ _ => true) off DIRENT x
  if r = DIRENT then return (.decode l,x) else B.panic msg

/-- A loop over the entries of a directory, from offset `off` for the given number of entries:
`stop` says whether it ends at an entry, and `last` what it leaves when it runs to the end. -/
def entryLoop {β : Type} (msg : String) (stop : Dirent → ℕ → Option β) (last : ℕ → β) :
    ℕ → ℕ → Data σ → m (β×Data σ)
  | 0,off,x => return (last off,x)
  | left+1,off,x => do
    let (e,x) ← B.readEntry x off msg
    match stop e off with
    | some b => return (b,x)
    | none => entryLoop msg stop last left (off+DIRENT) x

/-- The loop of `dirlookup`: the inode number and the offset of the entry found. -/
def dirlookup (name : List UInt8) : ℕ → ℕ → Data σ → m (Option (ℕ×ℕ)×Data σ) :=
  B.entryLoop "dirlookup read"
    (fun e off => if e.inum ≠ 0 ∧ namecmp name e.name = 0 then some (some (e.inum,off)) else none)
    fun _ => none

/-- `dirlink`'s search for an empty entry: the offset at which the loop ends. -/
def dirfree : ℕ → ℕ → Data σ → m (ℕ×Data σ) :=
  B.entryLoop "dirlink read" (fun e off => if e.inum = 0 then some off else none) id

/-- The loop of `isdirempty`. -/
def isdirempty : ℕ → ℕ → Data σ → m (Bool×Data σ) :=
  B.entryLoop "isdirempty: readi" (fun e _ => if e.inum ≠ 0 then some false else none)
    fun _ => true

/-- `writei` of an entry at `off`. -/
def writeEntry (x : Data σ) (e : Dirent) (off : ℕ) : m (ℤ×Data σ) :=
  B.writei (Data.kernel e.encode) off DIRENT x

/-- `dirlink` after its check that the name is not there: the result of its `writei`. -/
def dirwrite (x : Data σ) (name : List UInt8) (inum : ℕ) : m (ℤ×Data σ) := do
  let (off,x) ← B.dirfree (x.rounds 0) 0 x
  B.writeEntry x ⟨inum,strncpy DIRSIZ name⟩ off

end Blocks

/-! ### On the blocks themselves -/

namespace Store
variable (sb : Superblock) (st : Store)

def setBlock (b : ℕ) (v : Block) : Store := { st with block := Function.update st.block b v }

/-- `balloc`: mark the first free block and zero it; 0 when there is none. -/
def balloc : ℕ×Store :=
  match (List.range sb.size).find? fun b => !st.bitmap b with
  | some b => (b,({ st with bitmap := Function.update st.bitmap b true } : Store).setBlock b
      fun _ => 0)
  | none => (0,st)

def bfree (b : ℕ) (st : Store) : Except String Store :=
  if st.bitmap b then .ok { st with bitmap := Function.update st.bitmap b false }
  else .error "freeing free block"

end Store

/-- The blocks of the disk. -/
@[simps bread store logWrite panic]
def Superblock.blocks (sb : Superblock) : Blocks (Except String) Store where
  balloc st := .ok (st.balloc sb)
  bread b st := .ok (st.block b,st)
  store b v st := .ok (st.setBlock b v)
  logWrite _ st := .ok st
  panic := .error

def Data.itrunc (x : Data Store) : Except String (Data Store) :=
  Blocks.itrunc (fun b st => .ok (st.block b,st)) Store.bfree x

end Xv6.Fs
