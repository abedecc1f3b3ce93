import Xv6.Lib.Bytes
import Xv6.Lib.Prog
import Xv6.Proc.Table

/-! The machine under the memory system: physical memory by pages, `kalloc` and the fields of
`struct proc` that say where a process has its page table. A step of a process is one action; the
accesses to pages it owns and to its own `struct proc` are private, so that it does not matter
how finely they are cut. -/
namespace Xv6.Vm
open Xv6.Lib
open Process (Slot)

/-- Arithmetic on `uint64` and `uint`. -/
abbrev u64 (x : ℕ) : ℕ := x%2^64

/-- The `int` in the lower half of a register. -/
def toInt (x : ℕ) : ℤ := (x : ℤ).bmod (2^32)

/-- `x + n` for a `uint64` and an `int`. -/
def addInt (x : ℕ) (n : ℤ) : ℕ := ((x+n)%2^64).toNat

abbrev PGSIZE : ℕ := 4096
abbrev KERNBASE : ℕ := 0x80000000
abbrev PHYSTOP : ℕ := KERNBASE+128*1024*1024
/-- One bit less than Sv39 allows. -/
abbrev MAXVA : ℕ := 2^38

def PGROUNDUP (sz : ℕ) : ℕ := u64 (sz+PGSIZE-1)/PGSIZE*PGSIZE
def PGROUNDDOWN (a : ℕ) : ℕ := a/PGSIZE*PGSIZE

abbrev PTE_V : ℕ := 1
abbrev PTE_R : ℕ := 2
abbrev PTE_W : ℕ := 4
abbrev PTE_U : ℕ := 16

def PA2PTE (pa : ℕ) : ℕ := (pa >>> 12) <<< 10
def PTE2PA (pte : ℕ) : ℕ := u64 ((pte >>> 10) <<< 12)
def PTE_FLAGS (pte : ℕ) : ℕ := pte &&& 0x3FF

/-- `PX(level, va)`. -/
def PX (level va : ℕ) : ℕ := (va >>> (12+9*level)) &&& 0x1FF

/-- The bytes of a page by offset. -/
abbrev Page := ℕ → UInt8

/-- Physical memory: the page at each page address. -/
abbrev Mem := ℕ → Page

namespace Mem

/-- The bytes at `pa`, which do not cross the end of the page. -/
def read (m : Mem) (pa n : ℕ) : List UInt8 := slice (m (PGROUNDDOWN pa)) (pa%PGSIZE) n

def write (m : Mem) (pa : ℕ) (bs : List UInt8) : Mem :=
  Function.update m (PGROUNDDOWN pa) (patch (m (PGROUNDDOWN pa)) (pa%PGSIZE) bs)

def memset (m : Mem) (pa : ℕ) (c : UInt8) : Mem := Function.update m pa fun _ => c

end Mem

/-- `struct proc`, of which only the page table is looked at; a null pointer is 0. -/
structure Proc where
  pagetable : ℕ
  deriving DecidableEq

/-- `luck` decides whether the next `kalloc` is allowed to succeed. -/
structure Kernel where
  mem : Mem
  freelist : List ℕ
  luck : ℕ → Bool
  kallocs : ℕ
  proc : Slot → Proc

inductive Panic
  | walk
  -- a loop that goes on for ever, or a table that is not one
  | stuck
  deriving DecidableEq

/-- Why an action is not taken: the kernel stops with a message, or the process has to wait. -/
inductive Stop
  | panic (m : Panic)
  | sleep
  deriving DecidableEq

inductive Act
  | kalloc
  | read (pa n : ℕ)
  | write (pa : ℕ) (bs : List UInt8)
  | memset (pa : ℕ) (c : UInt8)
  | getProc (p : Slot)
  | panic (m : Panic)

abbrev Act.Answer : Act → Type
  | kalloc => ℕ
  | read _ _ => List UInt8
  | getProc _ => Proc
  | panic _ => Empty
  | write _ _ | memset _ _ => Unit

namespace Kernel

@[simps -fullyApplied] def setMem (s : Kernel) (m : Mem) : Kernel := { s with mem := m }

/-- `kalloc`: the first page of the list, filled with junk. -/
def kalloc (s : Kernel) : ℕ×Kernel :=
  match s.freelist with
  | [] => (0,{ s with kallocs := s.kallocs+1 })
  | pa::l =>
    if s.luck s.kallocs then
      (pa,{ s with kallocs := s.kallocs+1, freelist := l, mem := s.mem.memset pa 5 })
    else (0,{ s with kallocs := s.kallocs+1 })

end Kernel

/-- One action. -/
def eval : (a : Act) → Kernel → Except Stop (a.Answer×Kernel)
  | .kalloc,s => .ok s.kalloc
  | .read pa n,s => .ok (s.mem.read pa n,s)
  | .write pa bs,s => .ok ((),s.setMem (s.mem.write pa bs))
  | .memset pa c,s => .ok ((),s.setMem (s.mem.memset pa c))
  | .getProc q,s => .ok (s.proc q,s)
  | .panic m,_ => .error (.panic m)

end Xv6.Vm
