import Xv6.Vm.Machine

/-! The functions of `vm.c` that look up and change page tables and copy between the kernel and the
user, as programs over the actions of the machine. A `return -1` is `false` or `none`. -/
namespace Xv6.Vm
open Xv6.Lib
open Process (Slot)

abbrev Code (α : Type) := Prog Act Act.Answer α

section Primitives

/-- One action of the machine. -/
abbrev act (a : Act) : Code a.Answer := Prog.perform a

def panic {α : Type} (m : Panic) : Code α := Prog.act (.panic m) fun r => nomatch r
def kalloc : Code ℕ := act .kalloc
def memset (pa : ℕ) (c : UInt8) : Code Unit := act (.memset pa c)
def read (pa n : ℕ) : Code (List UInt8) := act (.read pa n)
def write (pa : ℕ) (bs : List UInt8) : Code Unit := act (.write pa bs)

/-- A `uint64` in memory. -/
def load (pa : ℕ) : Code ℕ := do
  let bs ← read pa 8
  return num bs
def store (pa v : ℕ) : Code Unit := write pa (bytes 8 v)

def getProc (p : Slot) : Code Proc := act (.getProc p)

end Primitives

section PageTables

/-- The loop of `walk` from a level down. -/
def walkFrom : ℕ → ℕ → ℕ → Bool → Code ℕ
  | 0,pagetable,va,_ => pure (pagetable+8*PX 0 va)
  | level+1,pagetable,va,alloc => do
    let pte ← load (pagetable+8*PX (level+1) va)
    if pte &&& PTE_V ≠ 0 then walkFrom level (PTE2PA pte) va alloc
    else if !alloc then pure 0
    else do
      let pa ← kalloc
      if pa = 0 then pure 0
      else do
        memset pa 0
        store (pagetable+8*PX (level+1) va) (PA2PTE pa ||| PTE_V)
        walkFrom level pa va alloc

/-- `walk`: the address of the entry, or 0. -/
def walk (pagetable va : ℕ) (alloc : Bool) : Code ℕ :=
  if MAXVA ≤ va then panic .walk else walkFrom 2 pagetable va alloc

def walkaddr (pagetable va : ℕ) : Code ℕ :=
  if MAXVA ≤ va then pure 0
  else do
    let pte ← walk pagetable va false
    if pte = 0 then pure 0
    else do
      let v ← load pte
      if v &&& PTE_V = 0 then pure 0
      else if v &&& PTE_U = 0 then pure 0
      else pure (PTE2PA v)

end PageTables

section Copying

def copyoutFrom (pagetable : ℕ) : ℕ → ℕ → List UInt8 → Code Bool
  | 0,_,src => if 0 < src.length then panic .stuck else pure true
  | n+1,dstva,src =>
    if 0 < src.length then
      let va0 := PGROUNDDOWN dstva
      if MAXVA ≤ va0 then pure false
      else do
        let pte ← walk pagetable va0 false
        if pte = 0 then pure false
        else do
          let v ← load pte
          if v &&& PTE_V = 0 ∨ v &&& PTE_U = 0 ∨ v &&& PTE_W = 0 then pure false
          else do
            let k := min (PGSIZE-(dstva-va0)) src.length
            write (PTE2PA v+(dstva-va0)) (src.take k)
            copyoutFrom pagetable n (u64 (va0+PGSIZE)) (src.drop k)
    else pure true

/-- `copyout`; each round copies at least one byte. -/
def copyout (pagetable dstva : ℕ) (src : List UInt8) : Code Bool :=
  copyoutFrom pagetable src.length dstva src

def copyinFrom (pagetable : ℕ) : ℕ → ℕ → ℕ → Code (Option (List UInt8))
  | 0,_,len => if 0 < len then panic .stuck else pure (some [])
  | n+1,srcva,len =>
    if 0 < len then
      let va0 := PGROUNDDOWN srcva
      do
        let pa0 ← walkaddr pagetable va0
        if pa0 = 0 then pure none
        else do
          let k := min (PGSIZE-(srcva-va0)) len
          let bs ← read (pa0+(srcva-va0)) k
          let rest ← copyinFrom pagetable n (u64 (va0+PGSIZE)) (len-k)
          return rest.map (bs++·)
    else pure (some [])

def copyin (pagetable srcva len : ℕ) : Code (Option (List UInt8)) :=
  copyinFrom pagetable len srcva len

def copyinstrFrom (pagetable : ℕ) : ℕ → ℕ → ℕ → Code (Option (List UInt8))
  | 0,_,max => if 0 < max then panic .stuck else pure none
  | n+1,srcva,max =>
    if 0 < max then
      let va0 := PGROUNDDOWN srcva
      do
        let pa0 ← walkaddr pagetable va0
        if pa0 = 0 then pure none
        else do
          let k := min (PGSIZE-(srcva-va0)) max
          let bs ← read (pa0+(srcva-va0)) k
          let got := bs.takeWhile (· ≠ 0)
          if got.length < k then return some got
          else do
            let rest ← copyinstrFrom pagetable n (u64 (va0+PGSIZE)) (max-k)
            return rest.map (got++·)
    else pure none

/-- `copyinstr`: the string without its terminator, which is shorter than `max`. -/
def copyinstr (pagetable srcva max : ℕ) : Code (Option (List UInt8)) :=
  copyinstrFrom pagetable max srcva max

end Copying

end Xv6.Vm
