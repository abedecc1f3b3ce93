import Xv6.Fs.Dir
import Xv6.Fs.Syscall
import Xv6.Fs.ItableProtocol

/-! What each atomic action of the kernel does to the inode table, the disk and the open files
when it completes: one inversion lemma for each action. -/
namespace Xv6.Fs
open Function (update update_self update_of_ne)

open Itable (Entry Op Ref Stage Scan Table)

section Monad
variable {α β : Type} {x : M α} {f : α → M β} {s t u : State} {a : α} {b : β} {e : Stop}

lemma bind_ok : (x >>= f) s = .ok (b,u) ↔ ∃ a t, x s = .ok (a,t) ∧ f a t = .ok (b,u) := by
  simp only [bind,StateT.bind,Except.bind]
  constructor
  · intro h
    split at h
    · cases h
    · rename_i r hr
      exact ⟨r.1,r.2,hr,h⟩
  · rintro ⟨a,t,hx,hf⟩
    rw [hx]
    exact hf

lemma bind_error : (x >>= f) s = .error e ↔
    x s = .error e ∨ ∃ a t, x s = .ok (a,t) ∧ f a t = .error e := by
  simp only [bind,StateT.bind,Except.bind]
  constructor
  · intro h
    split at h
    · rename_i e' he
      cases h
      exact .inl he
    · rename_i r hr
      exact .inr ⟨r.1,r.2,hr,h⟩
  · rintro (hx | ⟨a,t,hx,hf⟩)
    · rw [hx]
    · rw [hx]
      exact hf

lemma pure_ok {a' : α} : (pure a : M α) s = .ok (a',t) ↔ a = a' ∧ s = t := by
  change Except.ok (a,s) = _ ↔ _
  rw [Except.ok.injEq,Prod.mk.injEq]

lemma get_ok {a : State} : (get : M State) s = .ok (a,t) ↔ s = a ∧ s = t := by
  simp only [get,getThe,MonadStateOf.get,StateT.get,pure,Except.pure,Except.ok.injEq,
    Prod.mk.injEq]

lemma set_ok {c : PUnit} : (set u : M PUnit) s = .ok (c,t) ↔ t = u := by
  change Except.ok (c,u) = _ ↔ _
  rw [Except.ok.injEq,Prod.mk.injEq,eq_self,true_and]
  exact eq_comm

lemma modify_ok {f : State → State} {c : PUnit} :
    (modify f : M PUnit) s = .ok (c,t) ↔ t = f s := by
  simp only [modify,modifyGet,MonadStateOf.modifyGet,StateT.modifyGet,pure,Except.pure,
    Except.ok.injEq,Prod.mk.injEq,true_and]
  exact eq_comm

lemma throw_ok : ¬(throw e : M α) s = .ok (a,t) := fun h => nomatch h

lemma liftData_ok {x : Except String α} : liftData x s = .ok (a,t) ↔ x = .ok a ∧ s = t := by
  cases x with
  | ok c => rw [liftData,pure_ok,Except.ok.injEq]
  | error m => simp [liftData,throw_ok]

end Monad

/-- The state after a step with entry `i`, which leaves the entry `n` and its on-disk inode `k`. -/
@[simps -fullyApplied store file proc]
def State.put (s : State) (i : Slot) (n : Entry) (k : Dinode) : State :=
  { s with table := s.table.put i n k }

namespace State
variable (s : State) (i : Slot) (n n' : Entry) (k k' : Dinode)

@[simp] lemma put_inode : (s.put i n k).table.inode i = n := update_self _ _ _

@[simp] lemma put_inode_ne {j : Slot} (h : j ≠ i) :
    (s.put i n k).table.inode j = s.table.inode j := update_of_ne h _ _

@[simp] lemma put_scans : (s.put i n k).table.scans = s.table.scans := rfl

variable {s i n k}

lemma put_dinode (hd : n.dev = (s.table.inode i).dev) (hi : n.inum = (s.table.inode i).inum) :
    (s.put i n k).table.dinode i = k := by
  simp [State.put,Table.put,Table.dinode,Table.setInode,Table.setDisk,hd,hi]

lemma put_put (hd : n.dev = (s.table.inode i).dev) (hi : n.inum = (s.table.inode i).inum) :
    (s.put i n k).put i n' k' = s.put i n' k' := by
  simp [State.put,Table.put,Table.setInode,Table.setDisk,hd,hi]

end State

lemma State.put_self (s : State) (i : Slot) :
    s.put i (s.table.inode i) (s.table.dinode i) = s := by
  simp [State.put,Table.put,Table.setInode,Table.setDisk,Table.dinode]

variable {p : Fin NPROC} {i : Slot} {s t : State} {o : Op} {n n' : Entry} {k k' : Dinode} {u : Unit}

lemma entryOp_ok : entryOp p i o s = .ok (u,t) ↔ ∃ n k,
    (s.table.inode i).op (s.table.dinode i) p.val o = some (n,k,none) ∧ t = s.put i n k := by
  unfold entryOp
  constructor
  · intro h
    split at h
    · rename_i n k hn
      cases h
      exact ⟨n,k,hn,rfl⟩
    · cases h
    · cases h
  · rintro ⟨n,k,hn,rfl⟩
    rw [hn]
    rfl

/-- The entry that `ilock` leaves. -/
def lockedEntry (n : Entry) (k : Dinode) (p : Fin NPROC) : Entry :=
  { n with
    holder := some p.val
    valid := true
    d := if n.valid then n.d else k
    refs := (p.val,.hold)::n.refs.erase (p.val,.idle)
    new := none }

lemma op_put {m : Option String}
    (h : (s.table.inode i).op (s.table.dinode i) p.val o = some (n,k,m)) :
    (s.put i n k).table.dinode i = k ∧ ∀ n' k', (s.put i n k).put i n' k' = s.put i n' k' := by
  obtain ⟨hd,hi⟩ := Entry.op_names (Entry.op_cases h)
  exact ⟨State.put_dinode hd hi,fun n' k' => State.put_put n' k' hd hi⟩

lemma ilock_ok (h : ilock p i s = .ok (u,t)) :
    (p.val,.idle) ∈ (s.table.inode i).refs ∧ (s.table.inode i).holder = none ∧
      ((s.table.inode i).valid = false → (s.table.dinode i).type ≠ 0) ∧
      t = s.put i (lockedEntry (s.table.inode i) (s.table.dinode i) p) (s.table.dinode i) := by
  simp only [ilock,bind_ok,entryOp_ok] at h
  obtain ⟨_,_,⟨n₁,k₁,h₁,rfl⟩,_,_,⟨n₂,k₂,h₂,rfl⟩,n₃,k₃,h₃,rfl⟩ := h
  obtain ⟨e₁,f₁⟩ := op_put h₁
  obtain ⟨e₂,f₂⟩ := op_put h₂
  rw [State.put_inode,e₂] at h₃
  rw [State.put_inode,e₁] at h₂
  rw [f₂,f₁]
  generalize s.table.inode i = n at h₁ ⊢
  generalize s.table.dinode i = k at h₁ ⊢
  simp only [Entry.op,Option.ite_none_right_eq_some] at h₁ h₂ h₃
  obtain ⟨hidle,h₁⟩ := h₁
  obtain ⟨⟨_,hhold⟩,h₂⟩ := h₂
  obtain ⟨_,h₃⟩ := h₃
  split at h₁
  · cases h₁
  · cases h₁
    cases h₂
    refine ⟨hidle,hhold,?_⟩
    split at h₃
    · rename_i hv
      cases h₃
      have hv' : n.valid = true := hv
      simp [lockedEntry,Entry.move,Entry.enqueue,hv']
    · rename_i hv
      have hv' : n.valid = false := Bool.eq_false_iff.mpr hv
      simp only [Option.some.injEq,Prod.mk.injEq,ite_eq_right_iff,reduceCtorEq,imp_false] at h₃
      obtain ⟨rfl,rfl,hty⟩ := h₃
      exact ⟨fun _ => hty,by simp [lockedEntry,Entry.move,Entry.enqueue,hv']⟩

/-- The state after a process has changed a locked inode and, if `k` is the changed inode too,
has written it back. -/
def State.change (s : State) (i : Slot) (d k : Dinode) (st : Store) : State :=
  { s.put i { s.table.inode i with d := d } k with store := st }

lemma State.change_put (d k : Dinode) (st : Store) (n : Entry) (k' : Dinode) :
    (s.change i d k st).put i n k' = { s.put i n k' with store := st } := by
  rw [← State.put_put (s := s) (i := i) (n := { s.table.inode i with d := d }) (k := k) n k' rfl rfl]
  rfl

lemma State.change_inode (d k : Dinode) (st : Store) :
    (s.change i d k st).table.inode i = { s.table.inode i with d := d } := State.put_inode ..

lemma onData_ok {α : Type} {f : Data Store → Except String (α×Data Store)} {a : α}
    (h : onData p i f s = .ok (a,t)) : (p.val,.hold) ∈ (s.table.inode i).refs ∧
      ∃ x, f ⟨(s.table.inode i).d,s.store⟩ = .ok (a,x) ∧
        t = s.change i x.d (s.table.dinode i) x.st := by
  simp only [onData,bind_ok,get_ok] at h
  obtain ⟨_,_,⟨rfl,rfl⟩,h⟩ := h
  split at h
  · exact absurd h (by simp [throw_ok,bind_ok])
  simp only [bind_ok,liftData_ok,entryOp_ok,modify_ok,pure_ok] at h
  obtain ⟨⟨b,x⟩,_,⟨hf,rfl⟩,_,_,⟨n,k,ho,rfl⟩,_,_,rfl,rfl,rfl⟩ := h
  simp only [Entry.op,Option.ite_none_right_eq_some] at ho
  obtain ⟨hm,ho⟩ := ho
  cases ho
  exact ⟨hm,x,hf,rfl⟩

lemma writeData_ok {f : Data Store → Except String (ℤ×Data Store)} {r : ℤ}
    (h : writeData p i f s = .ok (r,t)) : (p.val,.hold) ∈ (s.table.inode i).refs ∧
      ∃ x, f ⟨(s.table.inode i).d,s.store⟩ = .ok (r,x) ∧
        t = s.change i x.d (if r = -1 then s.table.dinode i else x.d) x.st := by
  simp only [writeData,bind_ok] at h
  obtain ⟨r',u,hr,hu⟩ := h
  obtain ⟨hm,x,hf,rfl⟩ := onData_ok hr
  refine ⟨hm,?_⟩
  split at hu
  · rename_i hne
    simp only [iupdate,bind_ok,entryOp_ok,pure_ok] at hu
    obtain ⟨_,_,⟨n,k,ho,rfl⟩,rfl,rfl⟩ := hu
    refine ⟨x,hf,?_⟩
    rw [if_neg hne]
    rw [State.change_inode] at ho
    simp only [Entry.op,Option.ite_none_right_eq_some] at ho
    obtain ⟨_,ho⟩ := ho
    cases ho
    exact State.change_put ..
  · rename_i he
    obtain ⟨rfl,rfl⟩ := pure_ok.mp hu
    exact ⟨x,hf,by rw [if_pos (not_not.mp he)]⟩

lemma setDinode_ok {f : Dinode → Dinode} (h : setDinode p i f s = .ok (u,t)) :
    (p.val,.hold) ∈ (s.table.inode i).refs ∧
      t = s.change i (f (s.table.inode i).d) (f (s.table.inode i).d) s.store := by
  simp only [setDinode,iupdate,bind_ok,get_ok,entryOp_ok] at h
  obtain ⟨_,_,⟨rfl,rfl⟩,_,_,⟨n₁,k₁,h₁,rfl⟩,n₂,k₂,h₂,rfl⟩ := h
  obtain ⟨e₁,f₁⟩ := op_put h₁
  rw [State.put_inode,e₁] at h₂
  rw [f₁]
  simp only [Entry.op,Option.ite_none_right_eq_some] at h₁ h₂
  obtain ⟨hm,h₁⟩ := h₁
  obtain ⟨_,h₂⟩ := h₂
  cases h₁
  cases h₂
  exact ⟨hm,rfl⟩

lemma itrunc_ok (h : itrunc p i s = .ok (u,t)) : (p.val,.hold) ∈ (s.table.inode i).refs ∧
      ∃ x, Data.itrunc ⟨(s.table.inode i).d,s.store⟩ = .ok x ∧ t = s.change i x.d x.d x.st := by
  simp only [itrunc,iupdate,bind_ok,entryOp_ok] at h
  obtain ⟨_,_,hd,n,k,ho,rfl⟩ := h
  obtain ⟨hm,x,hx,rfl⟩ := onData_ok hd
  refine ⟨hm,x,?_,?_⟩
  · simp only [bind,Except.bind,pure,Except.pure] at hx
    split at hx
    · cases hx
    · rename_i y hy
      cases hx
      exact hy
  · rw [State.change_inode] at ho
    simp only [Entry.op,Option.ite_none_right_eq_some] at ho
    obtain ⟨_,ho⟩ := ho
    cases ho
    exact State.change_put ..

/-- `iput` finds the last reference to an unlinked inode, or drops a reference. -/
lemma iputTest_ok {b : Bool} (h : iputTest p i s = .ok (b,t)) :
    (p.val,.idle) ∈ (s.table.inode i).refs ∧
      ((b = true ∧ (s.table.inode i).Last ∧ (s.table.inode i).holder = none ∧
          t = s.put i { (s.table.inode i).move p.val .idle .itrunc with
            holder := some p.val, new := none } (s.table.dinode i)) ∨
        (b = false ∧ ¬(s.table.inode i).Last ∧
          t = s.put i { s.table.inode i with
            ref := (s.table.inode i).ref-1
            refs := (s.table.inode i).refs.erase (p.val,.idle)
            new := none } (s.table.dinode i))) := by
  simp only [iputTest,bind_ok,get_ok,entryOp_ok,pure_ok] at h
  obtain ⟨_,_,⟨rfl,rfl⟩,_,_,⟨n,k,ho,rfl⟩,rfl,rfl⟩ := h
  simp only [Entry.op,Option.ite_none_right_eq_some] at ho
  obtain ⟨hm,ho⟩ := ho
  refine ⟨hm,?_⟩
  split at ho
  · rename_i hlast
    obtain ⟨hl,ho⟩ := Option.ite_none_right_eq_some.mp ho
    cases ho
    exact .inl ⟨decide_eq_true hlast,hlast,hl,rfl⟩
  · rename_i hlast
    cases ho
    exact .inr ⟨decide_eq_false hlast,hlast,rfl⟩

/-- The inode as `iput` leaves it on disk. -/
def Dinode.freed (d : Dinode) : Dinode := { d.trunc with type := 0 }

/-- The entry that the freeing part of `iput` leaves. -/
def freedEntry (n : Entry) (p : Fin NPROC) : Entry :=
  { n with
    holder := none
    valid := false
    d := n.d.freed
    refs := (p.val,.drop)::n.refs.erase (p.val,.itrunc) }

lemma op_free {n₁ n₂ n₃ n₄ n₅ : Entry} {k₁ k₂ k₃ k₄ k₅ : Dinode}
    (h₁ : n.op k p.val .itrunc = some (n₁,k₁,none)) (h₂ : n₁.op k₁ p.val .clear = some (n₂,k₂,none))
    (h₃ : n₂.op k₂ p.val .update = some (n₃,k₃,none))
    (h₄ : n₃.op k₃ p.val .invalid = some (n₄,k₄,none))
    (h₅ : n₄.op k₄ p.val .release = some (n₅,k₅,none)) :
    (p.val,.itrunc) ∈ n.refs ∧ n₅ = freedEntry n p ∧ k₅ = n.d.freed := by
  simp only [Entry.op,Option.ite_none_right_eq_some,Option.some.injEq,Prod.mk.injEq] at h₁
  obtain ⟨hm,rfl,rfl,-⟩ := h₁
  simp only [Entry.op,Option.ite_none_right_eq_some,Option.some.injEq,Prod.mk.injEq] at h₂
  obtain ⟨-,rfl,rfl,-⟩ := h₂
  simp only [Entry.op,Option.ite_none_right_eq_some,Option.some.injEq,Prod.mk.injEq] at h₃
  obtain ⟨-,rfl,rfl,-⟩ := h₃
  simp only [Entry.op,Option.ite_none_right_eq_some,Option.some.injEq,Prod.mk.injEq] at h₄
  obtain ⟨-,rfl,rfl,-⟩ := h₄
  simp only [Entry.op,Option.ite_none_right_eq_some,Option.some.injEq,Prod.mk.injEq] at h₅
  obtain ⟨-,rfl,rfl,-⟩ := h₅
  refine ⟨hm,?_,rfl⟩
  simp only [freedEntry,Entry.move,List.erase_cons_head,Dinode.freed]

lemma iputFree_ok (h : iputFree p i s = .ok (u,t)) : (p.val,.itrunc) ∈ (s.table.inode i).refs ∧
      ∃ x, Data.itrunc ⟨(s.table.inode i).d,s.store⟩ = .ok x ∧
        t = { s.put i (freedEntry (s.table.inode i) p) (s.table.inode i).d.freed with
          store := x.st } := by
  simp only [iputFree,bind_ok,get_ok] at h
  obtain ⟨_,_,⟨rfl,rfl⟩,h⟩ := h
  split at h
  · exact absurd h (by simp [throw_ok,bind_ok])
  simp only [bind_ok,liftData_ok,entryOp_ok,modify_ok] at h
  obtain ⟨x,_,⟨hx,rfl⟩,_,_,⟨n₁,k₁,h₁,rfl⟩,_,_,rfl,_,_,⟨n₂,k₂,h₂,rfl⟩,_,_,
    ⟨n₃,k₃,h₃,rfl⟩,_,_,⟨n₄,k₄,h₄,rfl⟩,n₅,k₅,h₅,rfl⟩ := h
  obtain ⟨e₁,f₁⟩ := op_put h₁
  obtain ⟨e₂,f₂⟩ := op_put h₂
  obtain ⟨e₃,f₃⟩ := op_put h₃
  obtain ⟨e₄,f₄⟩ := op_put h₄
  rw [State.put_inode,e₄] at h₅
  rw [State.put_inode,e₃] at h₄
  rw [State.put_inode,e₂] at h₃
  have h₂' : n₁.op k₁ p.val .clear = some (n₂,k₂,none) := by
    have hn : (s.put i n₁ k₁).table.inode i = n₁ := State.put_inode ..
    rw [← hn,← e₁]
    exact h₂
  obtain ⟨hm,hn,hk⟩ := op_free h₁ h₂' h₃ h₄ h₅
  refine ⟨hm,x,hx,?_⟩
  rw [f₄,f₃,f₂,← hn,← hk,← f₁ n₅ k₅]
  rfl

/-- `iget` shares the entry of the inode, or takes one that is not in use. -/
lemma iget_ok {inum : ℕ} {new : Option ℕ} (h : iget p inum new s = .ok (i,t)) :
    (s.table.Names i ROOTDEV inum ∧
      t = { s with table := s.table.setInode i { s.table.inode i with
        ref := (s.table.inode i).ref+1
        refs := (p.val,.idle)::(s.table.inode i).refs
        new := new.map (p.val,·) } }) ∨
    ((∀ j, ¬s.table.Names j ROOTDEV inum) ∧ (s.table.inode i).ref = 0 ∧
      t = { s with table := s.table.setInode i { s.table.inode i with
        dev := ROOTDEV
        inum := inum
        ref := 1
        valid := false
        refs := [(p.val,.idle)]
        new := new.map (p.val,·) } }) := by
  unfold iget at h
  cases hc : s.table.cached ROOTDEV inum with
  | some j =>
    rw [hc] at h
    simp only [Table.iget,hc,Except.ok.injEq,Prod.mk.injEq] at h
    obtain ⟨rfl,rfl⟩ := h
    exact .inl ⟨Table.names_of_cached _ hc,rfl⟩
  | none =>
    cases he : s.table.empty with
    | some j =>
      rw [hc,he] at h
      simp only [Table.iget,hc,he,Except.ok.injEq,Prod.mk.injEq] at h
      obtain ⟨rfl,rfl⟩ := h
      exact .inr ⟨Table.not_names_of_cached _ hc,Table.ref_of_empty _ he,rfl⟩
    | none =>
      rw [hc,he] at h
      cases h

variable {sb : Superblock}

lemma dirlookup_ok {name : List UInt8} {r : Option (Slot×ℕ)} (h : dirlookup sb p i name s = .ok (r,t)) :
    (s.table.inode i).d.type = T_DIR ∧ (p.val,.hold) ∈ (s.table.inode i).refs ∧
      ∃ o x, sb.blocks.dirlookup name (Data.rounds ⟨(s.table.inode i).d,s.store⟩ 0) 0
        ⟨(s.table.inode i).d,s.store⟩ = .ok (o,x) ∧
      match o,r with
      | none,none => t = s.change i x.d (s.table.dinode i) x.st
      | some (inum,off),some (j,off') => off' = off ∧
        iget p inum none (s.change i x.d (s.table.dinode i) x.st) = .ok (j,t)
      | _,_ => False := by
  simp only [dirlookup,bind_ok,get_ok] at h
  obtain ⟨_,_,⟨rfl,rfl⟩,h⟩ := h
  split at h
  · exact absurd h (by simp [throw_ok,bind_ok])
  · rename_i hty
    simp only [bind_ok] at h
    obtain ⟨o,u,hd,h⟩ := h
    obtain ⟨hm,x,hx,rfl⟩ := onData_ok hd
    refine ⟨not_not.mp hty,hm,o,x,hx,?_⟩
    split at h
    · obtain ⟨rfl,rfl⟩ := pure_ok.mp h
      rfl
    · obtain ⟨j,u,hi,hp⟩ := bind_ok.mp h
      obtain ⟨rfl,rfl⟩ := pure_ok.mp hp
      exact ⟨rfl,hi⟩

/-- One round of `ialloc`'s loop: it gets the inode it has allocated, allocates one, passes one
over, or gives up. -/
lemma scan_ok {c : Scan} {r : Scan⊕Option Slot} (h : scan sb p c s = .ok (r,t)) :
    c ∈ s.table.scans ∧
    ((c.found ∧ ∃ i, r = .inr (some i) ∧ iget p c.inum (some c.type)
        { s with table := { s.table with scans := s.table.scans.erase c } } = .ok (i,t)) ∨
      (c.found = false ∧ c.inum < sb.ninodes ∧ (s.dinode c.inum).type = 0 ∧
        r = .inl { c with found := true } ∧ t = { s with table := s.table.scan sb.ninodes c }) ∨
      (c.found = false ∧ c.inum < sb.ninodes ∧ (s.dinode c.inum).type ≠ 0 ∧
        r = .inl { c with inum := c.inum+1 } ∧
        t = { s with table := s.table.scan sb.ninodes c }) ∨
      (c.found = false ∧ sb.ninodes ≤ c.inum ∧ r = .inr none ∧
        t = { s with table := s.table.scan sb.ninodes c })) := by
  simp only [scan,bind_ok,get_ok] at h
  obtain ⟨_,_,⟨rfl,rfl⟩,h⟩ := h
  split at h
  · exact absurd h (by simp [throw_ok,bind_ok])
  · rename_i hc
    refine ⟨not_not.mp hc,?_⟩
    split at h
    · rename_i hf
      simp only [bind_ok,modify_ok,pure_ok] at h
      obtain ⟨_,_,rfl,i,_,hi,rfl,rfl⟩ := h
      exact .inl ⟨hf,i,rfl,hi⟩
    · rename_i hf
      have hf' : c.found = false := Bool.eq_false_iff.mpr hf
      simp only [bind_ok,set_ok] at h
      obtain ⟨_,_,rfl,h⟩ := h
      split at h
      · rename_i hlt
        split at h
        · obtain ⟨rfl,rfl⟩ := pure_ok.mp h
          exact .inr (.inl ⟨hf',hlt,‹_›,rfl,rfl⟩)
        · obtain ⟨rfl,rfl⟩ := pure_ok.mp h
          exact .inr (.inr (.inl ⟨hf',hlt,‹_›,rfl,rfl⟩))
      · obtain ⟨rfl,rfl⟩ := pure_ok.mp h
        exact .inr (.inr (.inr ⟨hf',by omega,rfl,rfl⟩))

/-- The entry after process `q` has got the reference of process `p`. -/
def passedEntry (n : Entry) (p q : Fin NPROC) : Entry :=
  { n with refs := (q.val,.idle)::n.refs.erase (p.val,.idle), new := none }

lemma pass_ok {q : Fin NPROC} (h : entryOp p i (.pass q.val) s = .ok (u,t)) :
    (p.val,.idle) ∈ (s.table.inode i).refs ∧
      t = s.put i (passedEntry (s.table.inode i) p q) (s.table.dinode i) := by
  obtain ⟨n,k,ho,rfl⟩ := entryOp_ok.mp h
  simp only [Entry.op,Option.ite_none_right_eq_some,Option.some.injEq,Prod.mk.injEq] at ho
  obtain ⟨hm,rfl,rfl,-⟩ := ho
  exact ⟨hm,rfl⟩

variable {f : Fin NFILE}

/-- `ilock` of an open file's inode by the process that gets the file's reference. -/
lemma lockFile_ok (h : lockFile p f s = .ok (i,t)) : i = (s.file f).ip ∧ (s.file f).owned ∧
      ((s.file f).owner.val,.idle) ∈ (s.table.inode i).refs ∧
      (s.table.inode i).holder = none ∧
      ((s.table.inode i).valid = false → (s.table.dinode i).type ≠ 0) ∧
      t = { s.put i (lockedEntry (passedEntry (s.table.inode i) (s.file f).owner p)
          (s.table.dinode i) p) (s.table.dinode i) with
        file := update s.file f { s.file f with owned := false } } := by
  simp only [lockFile,bind_ok,get_ok] at h
  obtain ⟨_,_,⟨rfl,rfl⟩,h⟩ := h
  split at h
  · exact absurd h (by simp [throw_ok,bind_ok])
  · rename_i ho
    simp only [bind_ok,modify_ok,pure_ok] at h
    obtain ⟨_,_,hp,_,_,hl,_,_,rfl,rfl,rfl⟩ := h
    obtain ⟨hm,rfl⟩ := pass_ok hp
    obtain ⟨-,h₂,h₃,rfl⟩ := ilock_ok hl
    have hd := State.put_dinode (s := s) (i := (s.file f).ip)
      (n := passedEntry (s.table.inode (s.file f).ip) (s.file f).owner p)
      (k := s.table.dinode (s.file f).ip) rfl rfl
    have hput := State.put_put (s := s) (i := (s.file f).ip)
      (n := passedEntry (s.table.inode (s.file f).ip) (s.file f).owner p)
      (k := s.table.dinode (s.file f).ip)
    rw [State.put_inode] at h₂ h₃
    rw [hd] at h₃
    refine ⟨rfl,by simpa using ho,hm,h₂,h₃,?_⟩
    rw [State.put_inode,hd,hput _ _ rfl rfl]
    rfl

lemma unlockFile_ok (h : unlockFile p f i s = .ok (u,t)) : ∃ v, entryOp p i .iunlock s = .ok (u,v) ∧
      t = { v with file := update v.file f { v.file f with owner := p, owned := true } } := by
  simp only [unlockFile,bind_ok,modify_ok] at h
  obtain ⟨_,v,h,rfl⟩ := h
  exact ⟨v,h,rfl⟩

/-- A file after its last `fileclose`. -/
def File.closed (v : File) : File := { v with ref := 0, kind := .none, owned := false }

/-- `fileclose` drops one reference to the file, or closes it and gets the inode's reference. -/
lemma fileclose_ok {r : Option Slot} (h : fileclose p f s = .ok (r,t)) :
    (2 ≤ (s.file f).ref ∧ r = none ∧
      t = { s with file := update s.file f { s.file f with ref := (s.file f).ref-1 } }) ∨
    ((s.file f).ref = 1 ∧ (s.file f).kind = .none ∧ r = none ∧
      t = { s with file := update s.file f (s.file f).closed }) ∨
    ((s.file f).ref = 1 ∧ (s.file f).kind ≠ .none ∧ (s.file f).owned ∧ r = some (s.file f).ip ∧
      ((s.file f).owner.val,.idle) ∈ (s.table.inode (s.file f).ip).refs ∧
      t = { s.put (s.file f).ip (passedEntry (s.table.inode (s.file f).ip) (s.file f).owner p)
          (s.table.dinode (s.file f).ip) with
        file := update s.file f (s.file f).closed }) := by
  simp only [fileclose,bind_ok,get_ok] at h
  obtain ⟨_,_,⟨rfl,rfl⟩,h⟩ := h
  split at h
  · exact absurd h (by simp [throw_ok,bind_ok])
  · rename_i hpos
    split at h
    · simp only [bind_ok,set_ok,pure_ok] at h
      obtain ⟨_,_,rfl,rfl,rfl⟩ := h
      exact .inl ⟨by omega,rfl,rfl⟩
    · rename_i hone
      have href : (s.file f).ref = 1 := by omega
      simp only [bind_ok,set_ok] at h
      obtain ⟨_,_,rfl,h⟩ := h
      split at h
      · obtain ⟨rfl,rfl⟩ := pure_ok.mp h
        exact .inr (.inl ⟨href,‹_›,rfl,rfl⟩)
      · rename_i hk
        split at h
        · exact absurd h (by simp [throw_ok,bind_ok])
        · rename_i ho
          simp only [bind_ok,pure_ok] at h
          obtain ⟨_,_,hp,rfl,rfl⟩ := h
          obtain ⟨hm,rfl⟩ := pass_ok hp
          exact .inr (.inr ⟨href,hk,by simpa using ho,rfl,hm,rfl⟩)

/-- The entry after process `p` has got one more reference. -/
def sharedEntry (n : Entry) (p : Fin NPROC) : Entry :=
  { n with ref := n.ref+1, refs := (p.val,.idle)::n.refs, new := none }

lemma idup_ok (h : entryOp p i .idup s = .ok (u,t)) : (s.table.inode i).refs ≠ [] ∧
      t = s.put i (sharedEntry (s.table.inode i) p) (s.table.dinode i) := by
  obtain ⟨n,k,ho,rfl⟩ := entryOp_ok.mp h
  simp only [Entry.op,Option.ite_none_right_eq_some,Option.some.injEq,Prod.mk.injEq] at ho
  obtain ⟨hm,rfl,rfl,-⟩ := ho
  exact ⟨hm.elim List.ne_nil_of_mem List.ne_nil_of_mem,rfl⟩

lemma idupCwd_ok (h : idupCwd p s = .ok (i,t)) : (s.proc p).cwd = some i ∧
    (s.table.inode i).refs ≠ [] ∧
      t = s.put i (sharedEntry (s.table.inode i) p) (s.table.dinode i) := by
  simp only [idupCwd,bind_ok,get_ok] at h
  obtain ⟨_,_,⟨rfl,rfl⟩,h⟩ := h
  cases hj : (s.proc p).cwd with
  | some j =>
    simp only [hj,bind_ok,pure_ok] at h
    obtain ⟨_,_,hd,rfl,rfl⟩ := h
    obtain ⟨hne,rfl⟩ := idup_ok hd
    exact ⟨rfl,hne,rfl⟩
  | none =>
    simp only [hj] at h
    exact absurd h throw_ok

/-- How many descriptors of a process refer to a file. -/
def Proc.fds (v : Proc) (f : Fin NFILE) : ℕ :=
  (List.finRange NOFILE).countP fun fd => v.ofile fd = some f

lemma fork_ok {q : Fin NPROC} (h : fork p q s = .ok (u,t)) : ∃ i,
    (s.proc p).cwd = some i ∧ (s.proc q).cwd = none ∧ (s.table.inode i).refs ≠ [] ∧
      t = { s.put i (sharedEntry (s.table.inode i) q) (s.table.dinode i) with
        proc := update s.proc q ⟨some i,false,(s.proc p).ofile⟩
        file := fun f => { s.file f with ref := (s.file f).ref+(s.proc p).fds f } } := by
  simp only [fork,bind_ok,get_ok] at h
  obtain ⟨_,_,⟨rfl,rfl⟩,h⟩ := h
  cases hi : (s.proc p).cwd with
  | none =>
    simp only [hi] at h
    exact absurd h throw_ok
  | some i =>
    cases hq : (s.proc q).cwd with
    | some j =>
      simp only [hi,hq] at h
      exact absurd h throw_ok
    | none =>
    simp only [hi,hq,bind_ok,setProc,modify_ok] at h
    obtain ⟨_,_,hd,_,_,hp,_,_,rfl,rfl⟩ := h
    obtain ⟨hne,rfl⟩ := idup_ok hd
    obtain ⟨-,rfl⟩ := pass_ok hp
    refine ⟨i,rfl,rfl,hne,?_⟩
    have hd' := State.put_dinode (s := s) (i := i) (n := sharedEntry (s.table.inode i) p)
      (k := s.table.dinode i) rfl rfl
    have hput := State.put_put (s := s) (i := i) (n := sharedEntry (s.table.inode i) p)
      (k := s.table.dinode i)
    have hn : passedEntry (sharedEntry (s.table.inode i) p) p q =
        sharedEntry (s.table.inode i) q := by simp [passedEntry,sharedEntry]
    rw [State.put_inode,hd',hn,hput _ _ rfl rfl]
    rfl

lemma leaveCwd_ok (h : leaveCwd p s = .ok (i,t)) : (s.proc p).cwd = some i ∧
    t = { s with proc := update s.proc p { s.proc p with leaving := true } } := by
  simp only [leaveCwd,bind_ok,get_ok] at h
  obtain ⟨_,_,⟨rfl,rfl⟩,h⟩ := h
  cases hj : (s.proc p).cwd with
  | some j =>
    simp only [hj,bind_ok,setProc,modify_ok,pure_ok] at h
    obtain ⟨_,_,rfl,rfl,rfl⟩ := h
    exact ⟨rfl,by simp only [hj]⟩
  | none =>
    simp only [hj] at h
    exact absurd h throw_ok

lemma setCwd_ok {j : Option Slot} (h : setCwd p j s = .ok (u,t)) :
    t = { s with proc := update s.proc p { s.proc p with cwd := j, leaving := false } } := by
  simp only [setCwd,bind_ok,get_ok,setProc,modify_ok] at h
  obtain ⟨_,_,⟨rfl,rfl⟩,rfl⟩ := h
  rfl

lemma filealloc_ok {r : Option (Fin NFILE)} (h : filealloc s = .ok (r,t)) :
    (r = none ∧ t = s) ∨ ∃ f, r = some f ∧ (s.file f).ref = 0 ∧
      t = { s with file := update s.file f { s.file f with ref := 1 } } := by
  simp only [filealloc,bind_ok,get_ok] at h
  obtain ⟨_,_,⟨rfl,rfl⟩,h⟩ := h
  cases hf : (List.finRange NFILE).find? fun f => (s.file f).ref = 0 with
  | some f =>
    simp only [hf,bind_ok,set_ok,pure_ok] at h
    obtain ⟨_,_,rfl,rfl,rfl⟩ := h
    exact .inr ⟨f,rfl,by simpa using List.find?_some hf,rfl⟩
  | none =>
    simp only [hf,pure_ok] at h
    exact .inl ⟨h.1.symm,h.2.symm⟩

lemma fdalloc_ok {r : Option (Fin NOFILE)} (h : fdalloc p f s = .ok (r,t)) :
    (r = none ∧ t = s) ∨ ∃ fd, r = some fd ∧ (s.proc p).ofile fd = none ∧
      t = { s with proc := update s.proc p { s.proc p with
        ofile := update (s.proc p).ofile fd (some f) } } := by
  simp only [fdalloc,bind_ok,get_ok] at h
  obtain ⟨_,_,⟨rfl,rfl⟩,h⟩ := h
  cases hf : (List.finRange NOFILE).find? fun fd => ((s.proc p).ofile fd).isNone with
  | some fd =>
    simp only [hf,bind_ok,setProc,modify_ok,pure_ok] at h
    obtain ⟨_,_,rfl,rfl,rfl⟩ := h
    exact .inr ⟨fd,rfl,by simpa using List.find?_some hf,rfl⟩
  | none =>
    simp only [hf,pure_ok] at h
    exact .inl ⟨h.1.symm,h.2.symm⟩

end Xv6.Fs
