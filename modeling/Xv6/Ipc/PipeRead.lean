import Xv6.Ipc.Pipe
import Xv6.Vm.UserCopy

/-! `piperead` with the user memory that it copies to. The pipe's lock is held from the test of the
first loop on; a call that has to sleep starts again with the pipe it finds when it wakes up. -/
namespace Xv6.Ipc
open Lib UInt32 Pipe
open Vm (Kernel Stop u64 MAXVA copyout eval)
open Process (Slot)

namespace Pipe
variable (pi : Pipe)

-- pi->data[pi->nread % PIPESIZE]
def front : UInt8 := pi.data (slotOf pi.nread.toNat)

-- pi->nread++
def pop : Pipe := { pi with nread := pi.nread+1 }

/-- The number of bytes in the pipe. -/
def avail : ℕ := (pi.nwrite-pi.nread).toNat

/-- The next `k` bytes of a pipe. -/
def upcoming : ℕ → Pipe → List UInt8
  | 0,_ => []
  | k+1,pi => pi.front::upcoming k pi.pop

end Pipe

/-- The copy loop of `piperead` from `i` on, which goes round at most `k` times more. -/
def copyLoop (pagetable addr : ℕ) : ℕ → ℕ → Pipe → Kernel → Except Stop (ℕ×Pipe×Kernel)
  | 0,i,pi,s => .ok (i,pi,s)
  | k+1,i,pi,s =>
    if pi.nread = pi.nwrite then .ok (i,pi,s)
    else
      match (copyout pagetable (u64 (addr+i)) [pi.front]).run eval s with
      | .ok (true,t) => copyLoop pagetable addr k (i+1) pi.pop t
      | .ok (false,t) => .ok (i,pi.pop,t)
      | .error e => .error e

def piperead (p : Slot) (killed : Bool) (pi : Pipe) (addr : ℕ) (n : ℤ) (s : Kernel) :
    Except Stop (ℤ×Pipe×Kernel) :=
  if pi.nread = pi.nwrite ∧ pi.writeopen then
    if killed then .ok (-1,pi,s) else .error .sleep
  else do
    let (i,pi,s) ← copyLoop (s.proc p).pagetable addr n.toNat 0 pi s
    return (i,pi,s)

/-- The bytes have been copied out one by one to `addr+i` and the following addresses. -/
inductive Stored (pagetable addr : ℕ) : ℕ → List UInt8 → Kernel → Kernel → Prop
  | nil (i s) : Stored pagetable addr i [] s s
  | cons {i b bs s t u} (h : (copyout pagetable (u64 (addr+i)) [b]).run eval s = .ok (true,t))
      (tail : Stored pagetable addr (i+1) bs t u) : Stored pagetable addr i (b::bs) s u

/-- The call has taken out of the pipe the bytes that it returned, and they are in user memory. -/
structure Consumed (pagetable addr : ℕ) (pi : Pipe) (s : Kernel) (r : ℤ) (pi' : Pipe)
    (s' : Kernel) : Prop where
  pipe : pi' = { pi with nread := pi'.nread }
  removed : (pi'.nread-pi.nread).toNat = r.toNat
  stored : Stored pagetable addr 0 (pi.upcoming r.toNat) s s'
  wrote : s.mem.NoZero pagetable → s.mem.Disjoint pagetable →
    Vm.Wrote s.mem s'.mem pagetable addr (pi.upcoming r.toNat)

/-! ### The bytes in the pipe -/

section
variable {pi : Pipe} {j k : ℕ}

lemma avail_pop (h : pi.nread ≠ pi.nwrite) : pi.pop.avail+1 = pi.avail := by
  have h₁ := pi.nread.toNat_lt
  have h₂ := pi.nwrite.toNat_lt
  have hne : pi.nread.toNat ≠ pi.nwrite.toNat := fun he => h (UInt32.toNat_inj.mp he)
  rw [Pipe.avail,Pipe.avail,Pipe.pop,UInt32.toNat_sub,UInt32.toNat_sub,UInt32.toNat_add]
  simp only [reduceToNat]
  omega

lemma avail_of_empty (h : pi.nread = pi.nwrite) : pi.avail = 0 := by
  rw [Pipe.avail,h,UInt32.sub_self]
  rfl

lemma avail_lt : pi.avail < 2^32 := toNat_lt _

lemma pop_iterate (j : ℕ) (pi : Pipe) :
    Pipe.pop^[j] pi = { pi with nread := pi.nread+UInt32.ofNat j } := by
  induction j generalizing pi with
  | zero => simp
  | succ j ih =>
    rw [Function.iterate_succ_apply,ih,pop]
    simp only [mk.injEq,true_and,and_true]
    rw [UInt32.ofNat_add,UInt32.add_assoc,UInt32.add_comm 1]
    rfl

lemma removed_pop_iterate (hj : j < 2^32) : ((Pipe.pop^[j] pi).nread-pi.nread).toNat = j := by
  have h₁ := pi.nread.toNat_lt
  rw [pop_iterate,UInt32.toNat_sub,UInt32.toNat_add,UInt32.toNat_ofNat']
  omega

lemma upcoming_add (j k : ℕ) (pi : Pipe) :
    pi.upcoming (j+k) = pi.upcoming j++(Pipe.pop^[j] pi).upcoming k := by
  induction j generalizing pi with
  | zero => simp [upcoming]
  | succ j ih =>
    rw [Nat.succ_add,upcoming,ih,upcoming,Function.iterate_succ_apply]
    rfl

@[simp] lemma upcoming_length (j : ℕ) (pi : Pipe) : (pi.upcoming j).length = j := by
  induction j generalizing pi with
  | zero => rfl
  | succ j ih => rw [upcoming,List.length_cons,ih]

end

/-! ### The bytes in user memory -/

section
variable {pagetable addr i : ℕ} {s t u : Kernel} {b : UInt8}
  {bs cs : List UInt8}

namespace Stored

lemma tail_of_append (h : Stored pagetable addr i bs s t)
    (h' : Stored pagetable addr i (bs++cs) s u) :
    Stored pagetable addr (i+bs.length) cs t u := by
  induction h with
  | nil => exact h'
  | cons hb _ ih =>
    cases h' with
    | cons hb' h' =>
      rw [hb] at hb'
      obtain ⟨-,rfl⟩ := Prod.mk.inj (Except.ok.inj hb')
      rw [List.length_cons,Nat.add_comm _ 1,← Nat.add_assoc]
      exact ih h'

lemma wrote (h : Stored pagetable addr i bs s t) (hi : addr+i < 2^64)
    (hz : s.mem.NoZero pagetable) (hd : s.mem.Disjoint pagetable) :
    Vm.Wrote s.mem t.mem pagetable (addr+i) bs := by
  induction h with
  | nil => exact .nil
  | @cons i b bs s t u hb _ ih =>
    obtain ⟨m',k,hrun,hc⟩ := Vm.run_copyoutFrom (u64 (addr+i)) [b] 1
      (hd.offTables ..) hz le_rfl
    rw [Vm.copyout,List.length_singleton,hrun] at hb
    obtain ⟨hk,rfl⟩ := Prod.mk.inj (Except.ok.inj hb)
    obtain rfl := of_decide_eq_true hk
    have hw := hc.wrote (hd.distinct _ _)
    rw [List.take_length,show u64 (addr+i) = addr+i from Nat.mod_eq_of_lt hi] at hw
    -- the byte was stored below `MAXVA`, so the next address is no other modulo 2^64
    obtain ⟨x,hx,-⟩ := hw.stored 0 Nat.one_pos
    have hlt := (Vm.Mem.addr_eq_some.mp hx).1
    have htail := ih (by simp only [MAXVA] at hlt; omega) (hz.congr hc.tables)
      (hd.congr hc.tables)
    exact hw.append (hd.distinct _ _) hc.tables htail

lemma of_writable (hz : s.mem.NoZero pagetable) (hd : s.mem.Disjoint pagetable)
    (h : ∀ j < bs.length, (s.mem.addr pagetable (addr+(i+j)) Vm.UserWritable).isSome) :
    ∃ t, Stored pagetable addr i bs s t := by
  induction bs generalizing i s with
  | nil => exact ⟨s,.nil i s⟩
  | cons b bs ih =>
    have hb := h 0 (by simp)
    obtain ⟨x,hx⟩ := Option.isSome_iff_exists.mp hb
    have hlt := (Vm.Mem.addr_eq_some.mp hx).1
    have hu : u64 (addr+i) = addr+i :=
      Nat.mod_eq_of_lt (by simp only [MAXVA] at hlt; omega)
    obtain ⟨m',k,hrun,hc⟩ := Vm.run_copyoutFrom (u64 (addr+i)) [b] 1
      (hd.offTables ..) hz le_rfl
    have hk : k = [b].length := hc.eq_length_iff.mpr fun j hj => by
      obtain rfl := Nat.lt_one_iff.mp hj
      rw [hu]
      exact hb
    obtain ⟨t,ht⟩ := ih (i := i+1) (s := s.setMem m') (hz.congr hc.tables) (hd.congr hc.tables)
      fun j hj => by
        have := h (j+1) (by simpa using hj)
        rwa [show (s.setMem m').mem = m' from rfl,hc.tables.addr,Nat.add_assoc i,Nat.add_comm 1]
    exact ⟨t,.cons (by rw [Vm.copyout,List.length_singleton,hrun,decide_eq_true hk]) ht⟩

end Stored
end

/-! ### The copy loop -/

section
variable (pagetable addr : ℕ)

/-- The loop ends when it has copied what it should, or at the first byte that cannot be copied; it
has then removed this byte. -/
lemma copyLoop_cases (k i : ℕ) (pi : Pipe) (s : Kernel) : ∃ j t, j ≤ min k pi.avail ∧
    Stored pagetable addr i (pi.upcoming j) s t ∧
    (j = min k pi.avail ∧ copyLoop pagetable addr k i pi s = .ok (i+j,Pipe.pop^[j] pi,t) ∨
      j < min k pi.avail ∧ ∃ t',
        (copyout pagetable (u64 (addr+(i+j))) [(Pipe.pop^[j] pi).front]).run eval t
          = .ok (false,t') ∧
        copyLoop pagetable addr k i pi s = .ok (i+j,Pipe.pop^[j+1] pi,t')) := by
  induction k generalizing i pi s with
  | zero => exact ⟨0,s,Nat.zero_le _,.nil i s,.inl ⟨by simp,rfl⟩⟩
  | succ k ih =>
    rw [copyLoop]
    by_cases he : pi.nread = pi.nwrite
    · rw [if_pos he,avail_of_empty he]
      exact ⟨0,s,le_rfl,.nil i s,.inl ⟨rfl,rfl⟩⟩
    · have hav := avail_pop he
      obtain ⟨ok,t,hrun⟩ := Vm.run_copyout_one s pagetable (u64 (addr+i)) pi.front
      rw [if_neg he,hrun]
      cases ok with
      | false => exact ⟨0,s,Nat.zero_le _,.nil i s,.inr ⟨by omega,t,hrun,rfl⟩⟩
      | true =>
        obtain ⟨j,u,hj,hst,h⟩ := ih (i+1) pi.pop t
        refine ⟨j+1,u,by omega,.cons hrun hst,?_⟩
        rw [Nat.add_right_comm,Nat.add_assoc] at h
        exact h.imp (fun h => ⟨by omega,h.2⟩) fun h => ⟨by omega,h.2⟩

end

lemma piperead_returns (p : Slot) (killed : Bool) (pi : Pipe) (addr : ℕ) (n : ℤ)
    (s : Kernel) (h : ¬(pi.nread = pi.nwrite ∧ pi.writeopen)) :
    ∃ r, piperead p killed pi addr n s = .ok r := by
  rw [piperead,if_neg h]
  obtain ⟨j,t,-,-,⟨-,hrun⟩ | ⟨-,t',-,hrun⟩⟩ :=
    copyLoop_cases (s.proc p).pagetable addr n.toNat 0 pi s <;>
  · rw [hrun]
    exact ⟨_,rfl⟩

/-- A call of `piperead` that does not go to sleep consumes exactly the bytes that it returns if and
only if it can copy out all the bytes that the pipe has for it. -/
theorem piperead_consumes_iff (p : Slot) (killed : Bool) (pi : Pipe) (addr : ℕ)
    (n : ℤ) (s : Kernel) (ha : addr < 2^64)
    (hs : piperead p killed pi addr n s ≠ .error .sleep) :
    (∃ r pi' s', piperead p killed pi addr n s = .ok (r,pi',s') ∧
      Consumed (s.proc p).pagetable addr pi s r pi' s') ↔
    ∃ t, Stored (s.proc p).pagetable addr 0 (pi.upcoming (min n.toNat pi.avail)) s t := by
  rw [piperead] at *
  split_ifs at * with hw hk
  · rw [avail_of_empty hw.1,Nat.min_zero]
    refine iff_of_true ⟨-1,pi,s,rfl,rfl,?_,.nil 0 s,fun _ _ => .nil⟩ ⟨s,.nil 0 s⟩
    rw [UInt32.sub_self]
    rfl
  · exact absurd rfl hs
  · obtain ⟨j,t,hj,hst,h⟩ := copyLoop_cases (s.proc p).pagetable addr n.toNat 0 pi s
    have hlt : pi.avail < 2^32 := avail_lt
    rw [Nat.zero_add] at h
    obtain ⟨rfl,hrun⟩ | ⟨hjlt,t',hfail,hrun⟩ := h <;> rw [hrun]
    · refine iff_of_true ⟨_,_,_,rfl,?_,?_,hst,fun hz hd => hst.wrote ha hz hd⟩ ⟨t,hst⟩
      · rw [pop_iterate]
      · rw [removed_pop_iterate (by omega),Int.toNat_natCast]
    · refine iff_of_false ?_ ?_
      · rintro ⟨r,pi',s',heq,hc⟩
        obtain ⟨rfl,hpi,rfl⟩ := by simpa only [Prod.mk.injEq] using Except.ok.inj heq
        subst hpi
        have := hc.removed
        rw [removed_pop_iterate (by omega)] at this
        simp at this
      · rintro ⟨u,hu⟩
        obtain ⟨m,hm⟩ : ∃ m, min n.toNat pi.avail = j+(m+1) := 
          ⟨min n.toNat pi.avail-j-1,by omega⟩
        rw [hm,upcoming_add] at hu
        have htail := hst.tail_of_append hu
        rw [upcoming_length,Nat.zero_add] at htail
        cases htail with
        | cons hb _ =>
          rw [hfail] at hb
          cases hb

/-- A machine whose processes have the table at `rootPage`. -/
def userMachine (m : Vm.Mem) : Kernel :=
  { Vm.machine m with proc := fun _ => ⟨Vm.rootPage⟩ }

/-- A pipe with two bytes. -/
def shortPipe : Pipe := { pipealloc fun _ => 7 with nwrite := 2 }

/-- Five bytes are asked for, and the two that are there go to two pages. -/
theorem piperead_consumes_two : ∃ r pi' s',
    piperead Process.initproc false shortPipe 4095 5
      (userMachine (Vm.twoMem (Vm.dataPage+Vm.PGSIZE))) = .ok (r,pi',s') ∧
    Consumed Vm.rootPage 4095 shortPipe
      (userMachine (Vm.twoMem (Vm.dataPage+Vm.PGSIZE))) r pi' s' := by
  refine (piperead_consumes_iff Process.initproc false shortPipe 4095 5
    (userMachine (Vm.twoMem (Vm.dataPage+Vm.PGSIZE))) (by norm_num) ?_).mpr
    (Stored.of_writable Vm.twoMem_noZero Vm.twoMem_disjoint ?_)
  · obtain ⟨r,hr⟩ := piperead_returns Process.initproc false shortPipe 4095 5
      (userMachine (Vm.twoMem (Vm.dataPage+Vm.PGSIZE))) (by decide)
    rw [hr]
    exact nofun
  · decide +kernel

/-- A call that returns 0 and has removed a byte, which it could not copy to an address above the
user's range. -/
theorem piperead_loses_byte :
    piperead Process.initproc false { shortPipe with nwrite := 1 } MAXVA 1
      (userMachine Vm.zeroMem) = .ok (0,{ shortPipe with nread := 1, nwrite := 1 },
        userMachine Vm.zeroMem) := by
  rw [piperead,if_neg (by decide)]
  rfl

end Xv6.Ipc
