import Xv6.Fs.Base

/-! Block ownership over whole runs: any processes making any file-system calls, from a
well-formed image without holes. -/
namespace Xv6.Fs

open Itable (Entry Table)

/-- `x` does not end in `bfree`'s panic. -/
def Calm {α : Type} (x : Except Stop (α×State)) : Prop :=
  x ≠ .error (.panic "freeing free block")

namespace Calm
variable {α β : Type} {x : M α} {f : α → M β} {s t : State} {p : Fin NPROC} {i : Slot}
  {sb : Superblock}

lemma ok {r : α×State} : Calm (.ok r : Except Stop (α×State)) := fun h => nomatch h

lemma panic {m : String} (h : m ≠ "freeing free block") :
    Calm (.error (.panic m) : Except Stop (α×State)) := fun he => by
  cases he
  exact h rfl

lemma bind (hx : Calm (x s)) (hf : ∀ a t, x s = .ok (a,t) → Calm (f a t)) :
    Calm ((x >>= f) s) := by
  intro he
  rcases bind_error.mp he with h | ⟨a,t,h₁,h₂⟩
  · exact hx h
  · exact hf a t h₁ h₂

lemma entryOp (o : Itable.Op) : Calm (entryOp p i o s) := by
  unfold Fs.entryOp
  split
  · exact ok
  · rename_i n k m hm
    refine panic ?_
    have hs := Entry.op_cases hm
    generalize hsome : some m = msg at hs
    cases hs <;> try cases hsome
    all_goals try decide
    split at hsome
    · cases hsome
      decide
    · cases hsome
  · intro he
    split at he <;> cases he

lemma iget (inum : ℕ) (new : Option ℕ) : Calm (iget p inum new s) := by
  unfold Fs.iget
  dsimp only
  split
  · exact ok
  · exact ok
  · exact panic (by decide)

lemma throw {e : Stop} (h : e ≠ .panic "freeing free block") :
    Calm ((MonadExcept.throw e : M α) s) := fun he => h (Except.error.inj he)

lemma throw_bind {e : Stop} (h : e ≠ .panic "freeing free block") :
    Calm (((MonadExcept.throw e : M α) >>= f) s) := bind (throw h) fun _ _ h => absurd h throw_ok

lemma get {g : State → M α} (h : Calm (g s s)) : Calm (((MonadState.get : M State) >>= g) s) := h

lemma liftData {r : Except String α} (h : r ≠ .error "freeing free block") :
    Calm (liftData r s) := by
  cases r with
  | ok a => exact ok
  | error m => exact panic fun hm => h (congrArg _ hm)

lemma onData {g : Data Store → Except String (α×Data Store)}
    (h : (p.val,.hold) ∈ (s.table.inode i).refs →
      g ⟨(s.table.inode i).d,s.store⟩ ≠ .error "freeing free block") :
    Calm (onData p i g s) := by
  refine get ?_
  split
  · exact throw_bind (by decide)
  · rename_i hm
    refine bind (liftData (h (not_not.mp hm))) fun a t ha => ?_
    exact bind (entryOp _) fun _ _ _ => bind ok fun _ _ _ => ok

lemma ilock : Calm (ilock p i s) :=
  bind (entryOp _) fun _ _ _ => bind (entryOp _) fun _ _ _ => entryOp _

lemma writeData {g : Data Store → Except String (ℤ×Data Store)}
    (h : (p.val,.hold) ∈ (s.table.inode i).refs →
      g ⟨(s.table.inode i).d,s.store⟩ ≠ .error "freeing free block") :
    Calm (writeData p i g s) := by
  refine bind (onData h) fun r t _ => ?_
  split
  · exact bind (entryOp _) fun _ _ _ => ok
  · exact ok

/-- No action of any process ends in `bfree`'s panic. -/
lemma eval (h : Base sb s) (a : Act) : Calm (eval sb p a s) := by
  have hwrite {i : Slot} (src : ℕ → ℕ → List UInt8×Bool) (off n : ℕ)
      (hm : (p.val,.hold) ∈ (s.table.inode i).refs) :
      sb.blocks.writei src off n ⟨(s.table.inode i).d,s.store⟩ ≠ .error "freeing free block" := by
    obtain ⟨r,y,hy,-⟩ := Data.writei_spec src off n (h.owned hm rfl) (h.full_locked hm rfl)
    rw [hy]
    nofun
  have hloop {i : Slot} {β : Type} {msg : String} (stop : Dirent → ℕ → Option β) (last : ℕ → β)
      (left off : ℕ) (hmsg : msg ≠ "freeing free block")
      (hm : (p.val,.hold) ∈ (s.table.inode i).refs) :
      sb.blocks.entryLoop msg stop last left off ⟨(s.table.inode i).d,s.store⟩ ≠
        .error "freeing free block" := by
    rcases Data.entryLoop_or sb (h.full_locked hm rfl) msg stop last left off with ⟨b,hb⟩ | hb
    · rw [hb]
      nofun
    · rw [hb]
      exact fun he => hmsg (Except.error.inj he)
  have htrunc {i : Slot} {r : Itable.Ref} (hr : r ∈ (s.table.inode i).refs) (hl : r.2.locks) :
      Data.itrunc ⟨(s.table.inode i).d,s.store⟩ ≠ .error "freeing free block" := by
    obtain ⟨st,hst,-⟩ := Data.itrunc_spec (h.owned hr hl)
    rw [hst]
    nofun
  cases a with
  | iget inum => exact iget inum none
  | idupCwd =>
    refine get ?_
    cases (s.proc p).cwd with
    | some i => exact bind (entryOp _) fun _ _ _ => ok
    | none => exact throw (by decide)
  | ilock i => exact ilock
  | iunlock i => exact entryOp _
  | iputTest i => exact get (bind (entryOp _) fun _ _ _ => ok)
  | iputFree i =>
    refine get ?_
    split
    · exact throw_bind (by decide)
    · rename_i hm
      refine bind (liftData (htrunc (not_not.mp hm) rfl)) fun _ _ _ => bind (entryOp _) fun _ _ _ => ?_
      exact bind ok fun _ _ _ => bind (entryOp _) fun _ _ _ => bind (entryOp _) fun _ _ _ =>
        bind (entryOp _) fun _ _ _ => entryOp _
  | iputDrop i => exact entryOp _
  | peek i => exact get ok
  | dirlookup dp name =>
    refine get ?_
    split
    · exact throw_bind (by decide)
    · refine bind (onData (hloop _ _ _ _ (by decide))) fun o t _ => ?_
      cases o with
      | none => exact ok
      | some r => exact bind (iget _ _) fun _ _ _ => ok
  | dirwrite dp name inum =>
    refine bind (writeData fun hm => ?_) fun _ _ _ => ok
    rcases Base.dirwrite_or (h.owned hm rfl) (h.full_locked hm rfl) name inum with ⟨r,y,hw,-⟩ | hw
    · rw [hw]
      nofun
    · rw [hw]
      exact fun he => absurd (Except.error.inj he) (by decide)
  | isdirempty i => exact onData (hloop _ _ _ _ (by decide))
  | erase dp off =>
    refine bind (writeData (hwrite _ off DIRENT)) fun r t _ => ?_
    split
    · exact throw (by decide)
    · exact ok
  | addNlink i δ | clearNlink i | setup i major minor =>
    exact get (bind (entryOp _) fun _ _ _ => entryOp _)
  | itrunc i =>
    refine bind (onData fun hm he => ?_) fun _ _ _ => entryOp _
    cases hx : Data.itrunc ⟨(s.table.inode i).d,s.store⟩ with
    | ok x => simp [hx,Bind.bind,Except.bind,Pure.pure,Except.pure] at he
    | error m =>
      simp only [hx,Bind.bind,Except.bind] at he
      exact htrunc hm rfl (hx.trans (congrArg _ (Except.error.inj he)))
  | readi i off n =>
    simp only [Fs.eval,readi]
    refine onData fun hm he => ?_
    obtain ⟨r,l,hr⟩ := Data.readi_ok sb (h.full_locked hm rfl) (fun _ _ => true) off n
    rw [hr] at he
    cases he
  | writei i src off n => exact writeData (hwrite src off n)
  | ialloc type => exact bind ok fun _ _ _ => ok
  | scan c =>
    refine get ?_
    split
    · exact throw_bind (by decide)
    · split
      · exact bind ok fun _ _ _ => bind (iget _ _) fun _ _ _ => ok
      · refine bind ok fun _ _ _ => ?_
        split
        · split
          · exact ok
          · exact ok
        · exact ok
  | filealloc =>
    refine get ?_
    cases (List.finRange NFILE).find? fun f => (s.file f).ref = 0 with
    | some f => exact bind ok fun _ _ _ => ok
    | none => exact ok
  | fdalloc f =>
    refine get ?_
    cases (List.finRange NOFILE).find? fun fd => ((s.proc p).ofile fd).isNone with
    | some f => exact bind ok fun _ _ _ => ok
    | none => exact ok
  | fdget fd => exact get ok
  | fdclear fd => exact get ok
  | fileclose f =>
    refine get ?_
    dsimp only
    split
    · exact throw_bind (by decide)
    · split
      · exact bind ok fun _ _ _ => ok
      · refine bind ok fun _ _ _ => ?_
        split
        · exact ok
        · split
          · exact throw_bind (by decide)
          · exact bind (entryOp _) fun _ _ _ => ok
  | openFile f i omode => exact ok
  | unlockFile f i => exact bind (entryOp _) fun _ _ _ => ok
  | lockFile f =>
    refine get ?_
    dsimp only
    split
    · exact throw_bind (by decide)
    · exact bind (entryOp _) fun _ _ _ => bind ilock fun _ _ _ => bind ok fun _ _ _ => ok
  | leaveCwd =>
    refine get ?_
    cases (s.proc p).cwd with
    | some i => exact bind ok fun _ _ _ => ok
    | none => exact throw (by decide)
  | setCwd j => exact get ok
  | fork q =>
    refine get ?_
    cases (s.proc p).cwd with
    | none => exact throw (by decide)
    | some i =>
      cases (s.proc q).cwd with
      | some j => exact throw (by decide)
      | none =>
        exact bind (entryOp _) fun _ _ _ => bind (entryOp _) fun _ _ _ => bind ok fun _ _ _ => ok
  | nlinkPanic => exact throw (by decide)

end Calm
/-- A well-formed image without holes. -/
structure Image (sb : Superblock) (disk : ℕ → Dinode) (st : Store) : Prop where
  own : Own sb disk st
  full : ∀ k, (disk k).type ≠ 0 → Data.Full ⟨disk k,st⟩

lemma Base.boot {sb : Superblock} {disk : ℕ → Dinode} {st : Store} (h : Image sb disk st) :
    Base sb (boot disk st).state := by
  have hin : (Fs.boot disk st).state.table.inode =
    Function.update (Table.init fun _ => disk).inode slot0
      ⟨ROOTDEV,ROOTINO,1,none,0,false,.fresh 0,[(proc0.val,.idle)],0,none⟩ := rfl
  have hself : (Fs.boot disk st).state.table.inode slot0 =
      ⟨ROOTDEV,ROOTINO,1,none,0,false,.fresh 0,[(proc0.val,.idle)],0,none⟩ := by
    rw [hin,Function.update_self]
  have hother : ∀ i, i ≠ slot0 → ((Fs.boot disk st).state.table.inode i).refs = [] := by
    intro i hi
    rw [hin,Function.update_of_ne hi]
    rfl
  have hused : ∀ i, ((Fs.boot disk st).state.table.inode i).refs ≠ [] → i = slot0 :=
    fun i hi => by_contra fun hne => hi (hother i hne)
  refine ⟨fun i => ?_,fun i hi => ?_,fun i j hi hj _ => (hused i hi).trans (hused j hj).symm,
    fun c hc => (List.not_mem_nil hc).elim,h.own,h.full⟩
  · by_cases hi : i = slot0
    · subst hi
      rw [hself]
      refine ⟨rfl,rfl,fun r hr hl => ?_,fun _ hv => nomatch hv⟩
      rw [List.mem_singleton] at hr
      subst hr
      cases hl
    · rw [hin,Function.update_of_ne hi]
      exact ⟨rfl,rfl,fun r hr => (List.not_mem_nil hr).elim,fun hne => absurd rfl hne⟩
  · rw [hused i hi,hself]

lemma Base.runs {sb : Superblock} {b c : Sys} {C : Sys → Event → Prop} {es : List Event}
    (h : Base sb b.state) (hr : Lib.Runs (step sb) C b es c) : Base sb c.state := by
  refine hr.invariant (I := fun c => Base sb c.state) (fun c e d hc _ hd => ?_) h
  rcases Lib.Pool.step_cases hd with ⟨_,_,_,_,_,rfl⟩ | ⟨_,_,_,_,_,_,_,ha,rfl⟩ | ⟨_,_,_,_,rfl⟩
  · exact hc
  · exact hc.eval ha
  · exact hc

/-- What `itrunc` does to the bitmap, in `iput` or in `sys_open`. -/
lemma Base.returned {sb : Superblock} {s t : State} (h : Base sb s) {p : Fin NPROC} {i : Slot}
    {u : Unit} (ha : Fs.iputFree p i s = .ok (u,t) ∨ Fs.itrunc p i s = .ok (u,t)) (b : ℕ) :
    t.store.bitmap b = true ↔ s.store.bitmap b = true ∧
      (b = 0 ∨ ∀ pos, s.store.ptr (s.dinode (s.table.inode i).inum) pos ≠ b) := by
  obtain ⟨r,x,hr,hl,hx,hst⟩ : ∃ r x, r ∈ (s.table.inode i).refs ∧ r.2.locks ∧
      Data.itrunc ⟨(s.table.inode i).d,s.store⟩ = .ok x ∧ t.store = x.st := by
    rcases ha with ha | ha
    · obtain ⟨hm,x,hx,rfl⟩ := iputFree_ok ha
      exact ⟨_,x,hm,rfl,hx,rfl⟩
    · obtain ⟨hm,x,hx,rfl⟩ := itrunc_ok ha
      exact ⟨_,x,hm,rfl,hx,rfl⟩
  obtain ⟨st,hst',-,hbm⟩ := Data.itrunc_spec (h.owned hr hl)
  rw [hst'] at hx
  obtain rfl := Except.ok.inj hx
  rw [hst,(h.locked hr hl).1]
  exact hbm b

/-- In every state of every run, whatever fails on the way, the marked data blocks are exactly
those of the inodes in use, each owned once; `bfree` never finds a free block, and `itrunc`
returns exactly the blocks of its inode. -/
theorem block_ownership (sb : Superblock) (disk : ℕ → Dinode) (st : Store) (h : Image sb disk st)
    (es : List Event) (c : Sys)
    (hr : Lib.Runs (step sb) (fun _ _ => True) (boot disk st) es c) :
    Own sb c.state.dinode c.state.store ∧
    (∀ p a, eval sb p a c.state ≠ .error (.panic "freeing free block")) ∧
    ∀ p i t, eval sb p (.iputFree i) c.state = .ok ((),t) ∨
        eval sb p (.itrunc i) c.state = .ok ((),t) →
      ∀ b, t.store.bitmap b = true ↔ c.state.store.bitmap b = true ∧
        (b = 0 ∨ ∀ pos, c.state.store.ptr (c.state.dinode (c.state.table.inode i).inum) pos ≠ b) := by
  have hb := (Base.boot h).runs hr
  exact ⟨hb.own,fun p a => Calm.eval hb a,fun p i t ht b => hb.returned ht b⟩

/-- A small image: a root directory in block 10 and nineteen free blocks. -/
def smallSb : Superblock := ⟨30,20,10⟩

def smallDisk (k : ℕ) : Dinode :=
  if k = ROOTINO then ⟨T_DIR,0,0,1,32,fun j => if j = 0 then 10 else 0⟩ else .fresh 0

def smallStore : Store where
  bitmap b := b < 11
  block b := if b = 10 then fun i => match i.val with
      | 0 => 1 | 2 => 46 | 16 => 1 | 18 => 46 | 19 => 46 | _ => 0
    else fun _ => 0

/-- It has room on any disk whose data start at block 10. -/
lemma image_small {sb : Superblock} (hd : sb.dataStart = 10) (hs : 10 < sb.size)
    (hmax : sb.size ≤ 2^32) : Image sb smallDisk smallStore := by
  have hroot : ∀ k, (smallDisk k).type ≠ 0 → k = ROOTINO := by
    intro k hk
    by_contra hne
    exact hk (by rw [smallDisk,if_neg hne]; rfl)
  have hptr : ∀ p, smallStore.ptr (smallDisk ROOTINO) p ≠ 0 →
      p = .addr 0 ∧ smallStore.ptr (smallDisk ROOTINO) p = 10 := by
    intro p hp
    cases p with
    | addr j =>
      by_cases hj : j = 0
      · subst hj
        exact ⟨rfl,rfl⟩
      · exact absurd (by simp [Store.ptr,smallDisk,hj]) hp
    | entry j =>
      have hind : (smallDisk ROOTINO).ind = 0 := by decide
      exact absurd (by rw [Store.ptr,if_pos hind]) hp
  refine ⟨⟨hmax,by omega,fun b hb => decide_eq_true (by omega : b < 11),fun k p hk hp => ?_,
    fun k p k' p' hk hk' hp he => ?_,fun b hb _ hm => ?_⟩,fun k hk => ?_⟩
  · obtain rfl := hroot k hk
    rw [(hptr p hp).2]
    exact ⟨hd.le,hs,rfl⟩
  · obtain rfl := hroot k hk
    obtain rfl := hroot k' hk'
    exact ⟨rfl,(hptr p hp).1.trans (hptr p' (he ▸ hp)).1.symm⟩
  · have hm' : b < 11 := of_decide_eq_true hm
    exact ⟨ROOTINO,.addr 0,by decide,(show 10 = b by omega)⟩
  · obtain rfl := hroot k hk
    refine ⟨by decide,fun bn hbn => ?_⟩
    have hb' : bn*1024 < 32 := hbn
    obtain rfl : bn = 0 := by omega
    decide

lemma small_image : Image smallSb smallDisk smallStore :=
  image_small rfl (by decide) (by decide)

/-- A whole system call, which performs `n` actions. -/
def wholeCall (p : Fin NPROC) (x : Call) (n : ℕ) : List Event :=
  .call p x::(List.replicate n (.step p)++[.done p])

theorem block_ownership_mkdir : ∃ c : Sys, Own smallSb c.state.dinode c.state.store ∧
    c.state.store.bitmap 11 = true := by
  obtain ⟨c,hr,hb⟩ := Lib.Runs.exists_of_execIf (step smallSb) (fun _ _ => True)
    (boot smallDisk smallStore) (wholeCall proc0 (.mkdir [47,97]) 25)
    (fun c => c.state.store.bitmap 11 = true) (by decide +kernel)
  exact ⟨c,(block_ownership smallSb smallDisk smallStore small_image _ c hr).1,hb⟩

end Xv6.Fs
