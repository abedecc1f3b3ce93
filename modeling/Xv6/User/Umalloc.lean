import Xv6.Lib.Bytes
import Xv6.Lib.Path
import Xv6.Lib.Transition

/-! The memory allocator of user programs, `umalloc.c`. Memory is a function from addresses to
bytes; a header is a pointer in 8 bytes and a size in 4, at the start of a block of 16-byte units.
Pointers are added to modulo 2^64 and sizes modulo 2^32. -/
namespace Xv6.Umalloc
open Lib

/-- `sizeof(Header)`. -/
def HEADER : ℕ := 16

/-- Where the program's static `base` lies. -/
structure Program where
  base : ℕ
  base_pos : 0 < base
  base_lt : base+HEADER < 2^64

/-- The memory and the static `freep`; besides, what `morecore` got from `sbrk` so far, last first: the
address and the number of units that it wrote there. -/
structure Heap where
  mem : ℕ → UInt8
  freep : ℕ
  cores : List (ℕ×ℕ)

namespace Heap
variable (h : Heap)

/-- `p->s.ptr` -/
def ptr (p : ℕ) : ℕ := num (slice h.mem p 8)

/-- `p->s.size` -/
def size (p : ℕ) : ℕ := num (slice h.mem (p+8) 4)

@[simps freep cores]
def setPtr (p v : ℕ) : Heap := { h with mem := patch h.mem p (bytes 8 v) }

@[simps freep cores]
def setSize (p n : ℕ) : Heap := { h with mem := patch h.mem (p+8) (bytes 4 n) }

@[simps freep cores]
def setFreep (p : ℕ) : Heap := { h with freep := p }

/-- The units obtained from `sbrk`. -/
def units : ℕ := (h.cores.map Prod.snd).sum

end Heap

/-- `p + n` for a header pointer `p`. -/
def plus (p n : ℕ) : ℕ := (p+HEADER*n)%2^64

/-- The search loop of `free`. -/
def freeLoop (h : Heap) (bp : ℕ) : ℕ → ℕ → Option ℕ
  | 0,_ => none
  | n+1,p =>
    if bp > p ∧ bp < h.ptr p then some p
    else if p ≥ h.ptr p ∧ (bp > p ∨ bp < h.ptr p) then some p
    else freeLoop h bp n (h.ptr p)

/-- Join the block to its upper neighbour, or link it to that. -/
def joinNext (h : Heap) (bp p : ℕ) : Heap :=
  if plus bp (h.size bp) = h.ptr p then
    let h := h.setSize bp (h.size bp+h.size (h.ptr p))
    h.setPtr bp (h.ptr (h.ptr p))
  else h.setPtr bp (h.ptr p)

/-- Join the block to its lower neighbour, or link that to it. -/
def joinPrev (h : Heap) (bp p : ℕ) : Heap :=
  if plus p (h.size p) = bp then
    let h := h.setSize p (h.size p+h.size bp)
    h.setPtr p (h.ptr bp)
  else h.setPtr p bp

/-- `free`; its loop goes round at most `n` times. -/
def free (n : ℕ) (h : Heap) (ap : ℕ) : Option Heap := do
  let bp := (ap+(2^64-HEADER))%2^64
  let p ← freeLoop h bp n h.freep
  let h := joinNext h bp p
  let h := joinPrev h bp p
  return h.setFreep p

/-- The units `morecore` asks for. -/
def coreUnits (nu : ℕ) : ℕ := if nu < 4096 then 4096 else nu

/-- `hp` as `sbrk` gave it, with its header. -/
def Heap.grow (h : Heap) (hp nu : ℕ) : Heap :=
  { h with cores := (hp,coreUnits nu)::h.cores }.setSize hp (coreUnits nu)

/-- The system under the allocator, whose state is of type `σ`: what `sbrk` answers to a number of
bytes, none if it fails, and whether a header can be written at an address. -/
structure Kernel (σ : Type) where
  sbrk : σ → ℕ → Option ℕ×σ
  mapped : σ → ℕ → Bool

section
variable {σ : Type} (P : Program) (K : Kernel σ)

/-- `morecore`. A page fault ends the process. -/
def morecore (n : ℕ) (h : Heap) (nu : ℕ) (x : σ) : Option (Heap×ℕ×σ) :=
  match K.sbrk x (HEADER*coreUnits nu) with
  | (none,x) => some (h,0,x)
  | (some hp,x) =>
    if K.mapped x hp then do
      let h := h.grow hp nu
      let h ← free n h (plus hp 1)
      return (h,h.freep,x)
    else none

/-- `malloc` takes `nunits` units off the block after `prevp`, which is large enough. -/
def take (h : Heap) (nunits prevp p : ℕ) : Heap×ℕ :=
  if h.size p = nunits then ((h.setPtr prevp (h.ptr p)).setFreep prevp,plus p 1)
  else
    let h := h.setSize p (h.size p-nunits)
    let p := plus p (h.size p)
    let h := h.setSize p nunits
    (h.setFreep prevp,plus p 1)

/-- The loop of `malloc`. -/
def mallocLoop (n nunits : ℕ) : ℕ → Heap → ℕ → ℕ → σ → Option (Heap×ℕ×σ)
  | 0,_,_,_,_ => none
  | k+1,h,prevp,p,x =>
    if h.size p ≥ nunits then
      let (h,p) := take h nunits prevp p
      some (h,p,x)
    else if p = h.freep then do
      let (h,p,x) ← morecore K n h nunits x
      if p = 0 then return (h,0,x) else mallocLoop n nunits k h p (h.ptr p) x
    else mallocLoop n nunits k h p (h.ptr p) x

/-- The units of a request, its header included. -/
def nunits (nbytes : ℕ) : ℕ := ((nbytes+HEADER-1)/HEADER+1)%2^32

/-- The first call of `malloc` makes the free list. -/
def ready (h : Heap) : Heap :=
  if h.freep = 0 then ((h.setFreep P.base).setPtr P.base P.base).setSize P.base 0 else h

def malloc (n : ℕ) (h : Heap) (nbytes : ℕ) (x : σ) : Option (Heap×ℕ×σ) :=
  let h := ready P h
  mallocLoop K n (nunits nbytes) n h h.freep (h.ptr h.freep) x

end

/-! ### The program that uses the allocator -/

/-- The heap and the blocks in use: the pointer that `malloc` returned and the bytes asked for. -/
structure State where
  heap : Heap
  live : List (ℕ×ℕ)

inductive Event
  /-- `malloc(nbytes)`, with the answers of `sbrk`. -/
  | malloc (nbytes : ℕ) (brks : List ℕ)
  | free (ap : ℕ)
  /-- The program writes a byte. -/
  | write (a : ℕ) (v : UInt8)

/-- An `sbrk` whose answers are listed, and which fails when there are no more. -/
def answers : Kernel (List ℕ) :=
  { sbrk := fun brks _ => (brks.head?,brks.tail), mapped := fun _ _ => true }

/-- How often a loop may go round. -/
def Heap.rounds (h : Heap) : ℕ := 2*h.units+4

section
variable (P : Program)

def step (s : State) : Event → Option State
  | .malloc nbytes brks => do
    let (h,p,_) ← malloc P answers s.heap.rounds s.heap nbytes brks
    return { heap := h, live := if p = 0 then s.live else (p,nbytes)::s.live }
  | .free ap => do
    let h ← free s.heap.rounds s.heap ap
    return { heap := h, live := s.live.filter (·.1 ≠ ap) }
  | .write a v => some { s with heap := { s.heap with mem := Function.update s.heap.mem a v } }

/-- The memory that `sbrk` has given ends here. -/
def top : List (ℕ×ℕ) → ℕ
  | [] => P.base+HEADER
  | (p,u)::_ => p+HEADER*u

/-- The answers of `sbrk` to requests of `u` units: each is memory above all that went before. -/
def Fresh (u : ℕ) : ℕ → List ℕ → Prop
  | _,[] => True
  | a,p::brks => a ≤ p ∧ p+HEADER*u < 2^64 ∧ Fresh u (p+HEADER*u) brks

/-- What the program may do: ask for memory whose size in bytes, rounded up, is a positive int, free
what it was given and write where it may. -/
def Allowed (s : State) : Event → Prop
  | .malloc nbytes brks => nbytes < 2^32 ∧ HEADER*nunits nbytes < 2^31 ∧
      Fresh (coreUnits (nunits nbytes)) (top P s.heap.cores) brks
  | .free ap => ∃ n, (ap,n) ∈ s.live
  | .write a _ => ∃ x ∈ s.live, x.1 ≤ a ∧ a < x.1+x.2

/-- All in all `sbrk` gives fewer than 2^32 units. -/
def Bounded (s : State) : Event → Prop
  | .malloc nbytes brks => brks ≠ [] → s.heap.units+coreUnits (nunits nbytes) < 2^32
  | .free _ | .write _ _ => True

def init (mem : ℕ → UInt8) : State := { heap := { mem := mem, freep := 0, cores := [] }, live := [] }

end

/-! ### What the heap looks like -/

/-- The address `x` lies in the block whose header is at `a`. -/
def Heap.Block (h : Heap) (a x : ℕ) : Prop := a ≤ x ∧ x < a+HEADER*h.size a

/-- The address `x` lies in memory from `sbrk`. -/
def Heap.Obtained (h : Heap) (x : ℕ) : Prop := ∃ c ∈ h.cores, c.1 ≤ x ∧ x < c.1+HEADER*c.2

/-- The blocks do not overlap. -/
def Heap.Apart (h : Heap) (a b : ℕ) : Prop := ∀ x, ¬(h.Block a x ∧ h.Block b x)

/-- The header of a block in use. -/
def header (x : ℕ×ℕ) : ℕ := x.1-HEADER

/-- The heap with the free blocks `u++v`: the list from `freep` on is `u`, then `base`, then `v`. -/
structure Sound (P : Program) (s : State) (u v : List ℕ) : Prop where
  /-- One cycle, which goes through `base`. -/
  cycle : Path s.heap.ptr s.heap.freep (u++P.base::v) s.heap.freep
  /-- From `base` on the addresses ascend, so there is one wraparound in the cycle. -/
  ascending : (P.base::(v++u)).Pairwise (· < ·)
  free_apart : (u++v).Pairwise s.heap.Apart
  not_adjacent : ∀ a ∈ u++v, ∀ b ∈ u++v, a+HEADER*s.heap.size a ≠ b
  obtained : ∀ a ∈ u++v, ∀ x, s.heap.Block a x → s.heap.Obtained x
  live_obtained : ∀ y ∈ s.live, ∀ x, s.heap.Block (header y) x → s.heap.Obtained x
  live_apart : (s.live.map header).Pairwise s.heap.Apart
  live_free : ∀ y ∈ s.live, ∀ a ∈ u++v, s.heap.Apart (header y) a
  /-- After its header, at the pointer, the block has room for the bytes asked for. -/
  usable : ∀ y ∈ s.live, HEADER ≤ y.1 ∧ HEADER+y.2 ≤ HEADER*s.heap.size (header y)
  total : ((u++v).map s.heap.size).sum+(s.live.map fun y => s.heap.size (header y)).sum =
    s.heap.units

/-- Before the first `malloc` there is no free list. -/
def Empty (s : State) : Prop := s.heap.freep = 0 ∧ s.heap.cores = [] ∧ s.live = []

end Xv6.Umalloc
