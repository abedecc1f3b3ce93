import Xv6.Fs.Itable

/-! What each step of a process with an inode table entry keeps. `Entry.OK` ties an entry, its
on-disk inode and the references to it together; `Entry.Live` adds that the inode stays allocated
while it is referenced, which depends on what lookups name. -/
namespace Xv6.Fs.Itable
open List

namespace Entry

/-- Every way in which a process can take a step with an entry. -/
inductive OpStep (n : Entry) (k : Dinode) (p : Pid) : Op → Entry → Dinode → Option String → Prop
  | idup (h : (p,.idle) ∈ n.refs ∨ (p,.hold) ∈ n.refs) : OpStep n k p .idup
      { n with ref := n.ref+1, refs := (p,.idle)::n.refs, new := none } k none
  | ilockPanic (h : (p,.idle) ∈ n.refs) (hr : n.ref < 1) : OpStep n k p .ilock n k (some "ilock")
  | ilock (h : (p,.idle) ∈ n.refs) : OpStep n k p .ilock (n.enqueue p) k none
  | acquiresleep (h : (p,.wait) ∈ n.refs) (hl : n.holder = none) : OpStep n k p .acquiresleep
      { n.move p .wait .load with holder := some p, waiters := n.waiters-1 } k none
  | loaded (h : (p,.load) ∈ n.refs) (hv : n.valid = true) :
      OpStep n k p .load { n.move p .load .hold with new := none } k none
  | load (h : (p,.load) ∈ n.refs) (hv : n.valid = false) : OpStep n k p .load
      { n.move p .load .hold with d := k, valid := true, new := none } k
      (if k.type = 0 then some "ilock: no type" else none)
  | modify (d : Dinode) (h : (p,.hold) ∈ n.refs) : OpStep n k p (.modify d) { n with d := d } k none
  | iupdate (h : (p,.hold) ∈ n.refs) : OpStep n k p .iupdate n n.d none
  | iunlockPanic (h : (p,.hold) ∈ n.refs) (hr : n.holder ≠ some p ∨ n.ref < 1) :
      OpStep n k p .iunlock n k (some "iunlock")
  | iunlock (h : (p,.hold) ∈ n.refs) :
      OpStep n k p .iunlock { n.move p .hold .idle with holder := none } k none
  | iputLast (h : (p,.idle) ∈ n.refs) (hlast : n.Last) (hl : n.holder = none) : OpStep n k p .iput
      { n.move p .idle .itrunc with holder := some p, new := none } k none
  | iput (h : (p,.idle) ∈ n.refs) (hlast : ¬n.Last) : OpStep n k p .iput
      { n with ref := n.ref-1, refs := n.refs.erase (p,.idle), new := none } k none
  | itrunc (h : (p,.itrunc) ∈ n.refs) :
      OpStep n k p .itrunc { n.move p .itrunc .clear with d := n.d.trunc } n.d.trunc none
  | clear (h : (p,.clear) ∈ n.refs) : OpStep n k p .clear
      { n.move p .clear .update with d := { n.d with type := 0 } } k none
  | update (h : (p,.update) ∈ n.refs) : OpStep n k p .update (n.move p .update .invalid) n.d none
  | invalid (h : (p,.invalid) ∈ n.refs) :
      OpStep n k p .invalid { n.move p .invalid .release with valid := false } k none
  | release (h : (p,.release) ∈ n.refs) :
      OpStep n k p .release { n.move p .release .drop with holder := none } k none
  | drop (h : (p,.drop) ∈ n.refs) : OpStep n k p .drop
      { n with ref := n.ref-1, refs := n.refs.erase (p,.drop) } k none
  | pass (q : Pid) (h : (p,.idle) ∈ n.refs) : OpStep n k p (.pass q)
      { n with refs := (q,.idle)::n.refs.erase (p,.idle), new := none } k none
  | share (q : Pid) (h : (p,.idle) ∈ n.refs) : OpStep n k p (.share q)
      { n with refs := (q,.idle)::n.refs, shares := n.shares+1, new := none } k none
  | unshare (h : (p,.idle) ∈ n.refs) (hn : 0 < n.shares) : OpStep n k p .unshare
      { n with refs := n.refs.erase (p,.idle), shares := n.shares-1, new := none } k none

variable {n n' : Entry} {k k' : Dinode} {p : Pid} {o : Op} {m : Option String}

lemma op_cases (h : n.op k p o = some (n',k',m)) : OpStep n k p o n' k' m := by
  cases o <;> simp only [op,Option.ite_none_right_eq_some] at h <;> obtain ⟨hm,h⟩ := h
  case idup => cases h; exact .idup hm
  case ilock =>
    split at h <;> cases h
    · exact .ilockPanic hm ‹_›
    · exact .ilock hm
  case acquiresleep => cases h; exact .acquiresleep hm.1 hm.2
  case load =>
    split at h <;> cases h
    · exact .loaded hm ‹_›
    · exact .load hm (Bool.eq_false_iff.mpr ‹_›)
  case modify d => cases h; exact .modify d hm
  case iupdate => cases h; exact .iupdate hm
  case iunlock =>
    split at h <;> cases h
    · exact .iunlockPanic hm ‹_›
    · exact .iunlock hm
  case iput =>
    split at h
    · obtain ⟨hl,h⟩ := Option.ite_none_right_eq_some.mp h
      cases h
      exact .iputLast hm ‹_› hl
    · cases h; exact .iput hm ‹_›
  case itrunc => cases h; exact .itrunc hm
  case clear => cases h; exact .clear hm
  case update => cases h; exact .update hm
  case invalid => cases h; exact .invalid hm
  case release => cases h; exact .release hm
  case drop => cases h; exact .drop hm
  case pass q => cases h; exact .pass q hm
  case share q => cases h; exact .share q hm
  case unshare => cases h; exact .unshare hm.1 hm.2

/-- The entry has one reference, and one process has it. -/
def Sole (n : Entry) : Prop := n.ref = 1 ∧ n.shares = 0

/-- What holds of a reference to the entry `n`, by what its process is doing with it. -/
def RefOK (n : Entry) (k : Dinode) : Ref → Prop
  | (_,.idle) | (_,.wait) | (_,.drop) => True
  | (p,.load) => n.holder = some p ∧ (n.valid → k.type ≠ 0 ∧ n.d = k)
  | (p,.hold) => n.holder = some p ∧ k.type ≠ 0 ∧ n.valid ∧ n.d.type ≠ 0
  | (p,.itrunc) | (p,.clear) =>
    n.holder = some p ∧ k.type ≠ 0 ∧ n.Sole ∧ n.valid ∧ n.d.nlink = 0 ∧ n.d = k
  | (p,.update) => n.holder = some p ∧ k.type ≠ 0 ∧ n.Sole ∧ n.valid ∧ n.d.nlink = 0 ∧
    k.nlink = 0 ∧ n.d.type = 0
  | (p,.invalid) => n.holder = some p
  | (p,.release) => n.holder = some p ∧ n.valid = false

/-- The sleep-lock excludes: beside a reference that has it no other one does. -/
lemma sole_of_locked {n : Entry}
    (h : n.refs.countP (·.2.locks) = if n.holder.isSome then 1 else 0) {a : Ref} (ha : a ∈ n.refs)
    (hl : a.2.locks) : ∀ r ∈ n.refs.erase a, r.2.locks = false := by
  intro r hr
  by_contra hc
  rw [(perm_cons_erase ha).countP_eq,countP_cons,if_pos hl] at h
  have h₂ : 0 < (n.refs.erase a).countP (·.2.locks) :=
    countP_pos_iff.mpr ⟨r,hr,by simpa using hc⟩
  split at h <;> omega

/-- What holds of an entry `n` whose on-disk inode is `k`. A reference that an `iput` is about to
drop is not shared. -/
structure OK (n : Entry) (k : Dinode) : Prop where
  ref_eq : n.ref+n.shares = n.refs.length
  waits : n.waiters = n.refs.countP (·.2 = .wait)
  shared : n.shares = 0 ∨ n.shares < n.refs.countP (!·.2.freed)
  locked : n.refs.countP (·.2.locks) = if n.holder.isSome then 1 else 0
  each : ∀ r ∈ n.refs, n.RefOK k r
  synced : n.refs ≠ [] → n.valid → n.holder = none → k.type ≠ 0 ∧ n.d = k
  dropping : ∀ r ∈ n.refs, r.2 = .drop → n.valid → ∃ q ∈ n.refs, q.2.freed = false

/-- The inode is allocated while it is referenced, and a new one is as `ialloc` left it until its
owner has locked it. -/
structure Live (n : Entry) (k : Dinode) : Prop where
  type_ne : ∀ r ∈ n.refs, r.2.freed = false → k.type ≠ 0
  fresh : ∀ q ty, n.new = some (q,ty) → k = .fresh ty ∧ ty ≠ 0 ∧
    (∃ r ∈ n.refs, r.2.freed = false) ∧ ∀ r ∈ n.refs, r.2.freed = false → r.2.unseen

namespace RefOK
variable {r : Ref}

lemma holder_eq (h : n.RefOK k r) (hl : r.2.locks) : n.holder = some r.1 := by
  obtain ⟨p,g⟩ := r
  cases g <;> first | exact h | exact h.1 | cases hl

lemma of_freeing (h : n.RefOK k r) (hf : r.2.freeing) :
    k.type ≠ 0 ∧ n.Sole ∧ n.valid ∧ n.d.nlink = 0 ∧ k.nlink = 0 := by
  obtain ⟨p,g⟩ := r
  cases g <;> cases hf
  case update => exact ⟨h.2.1,h.2.2.1,h.2.2.2.1,h.2.2.2.2.1,h.2.2.2.2.2.1⟩
  all_goals
    obtain ⟨_,ht,hr,hv,hn,hk⟩ := h
    exact ⟨ht,hr,hv,hn,hk ▸ hn⟩

lemma of_unlocked (hl : r.2.locks = false) : n.RefOK k r := by
  obtain ⟨p,g⟩ := r
  cases g <;> trivial

lemma of_same (h : n.RefOK k r) (hh : n'.holder = n.holder) (hv : n'.valid = n.valid)
    (hd : n'.d = n.d) (hr : r.2.freeing → n.Sole → n'.Sole) : n'.RefOK k r := by
  obtain ⟨p,g⟩ := r
  cases g <;> simp only [RefOK,hh,hv,hd] at h ⊢ <;>
    first | exact h | exact ⟨h.1,h.2.1,hr rfl h.2.2.1,h.2.2.2⟩

end RefOK

section Refs
variable {l : List Ref} {a b : Ref}

lemma length_move (h : a ∈ l) : (b::l.erase a).length = l.length := by
  have hpos := length_pos_of_mem h
  rw [length_cons,length_erase_of_mem h]
  omega

lemma countP_erase_of_mem (h : a ∈ l) (f : Ref → Bool) :
    (l.erase a).countP f+(if f a then 1 else 0) = l.countP f :=
  ((perm_cons_erase h).countP_eq f).symm ▸ countP_cons.symm

lemma countP_move (h : a ∈ l) (f : Ref → Bool) :
    (b::l.erase a).countP f+(if f a then 1 else 0) = l.countP f+if f b then 1 else 0 := by
  have hc := countP_erase_of_mem h f
  rw [countP_cons]
  omega

lemma forall_move {P : Ref → Prop} (hb : P b) (hl : ∀ r ∈ l.erase a, P r) :
    ∀ r ∈ b::l.erase a, P r := forall_mem_cons.mpr ⟨hb,hl⟩

end Refs

namespace OK

variable (h : n.OK k)
include h

lemma of_ref_zero (hr : n.ref = 0) : n.refs = [] ∧ n.shares = 0 := by
  have hl := h.ref_eq
  have hc : n.refs.countP (!·.2.freed) ≤ n.refs.length := countP_le_length
  have hs : n.shares = 0 := by
    rcases h.shared with hs | hs <;> omega
  exact ⟨eq_nil_of_length_eq_zero (by omega),hs⟩

lemma ref_pos {r : Ref} (hr : r ∈ n.refs) : 0 < n.ref := by
  refine Nat.pos_of_ne_zero fun h0 => ?_
  simp [(h.of_ref_zero h0).1] at hr

lemma unlocked (hl : n.holder = none) : ∀ r ∈ n.refs, r.2.locks = false := by
  intro r hr
  by_contra hc
  have := (h.each r hr).holder_eq (by simpa using hc)
  simp [hl] at this

lemma rest {a : Ref} (ha : a ∈ n.refs) (hl : a.2.locks) : ∀ r ∈ n.refs.erase a, n'.RefOK k' r :=
  fun r hr => .of_unlocked (sole_of_locked h.locked ha hl r hr)

/-- The holder of the sleep-lock and those who wait for it all use the entry. -/
lemma users_le : (if n.holder.isSome then 1 else 0)+n.waiters ≤ n.ref+n.shares := by
  have hlen := n.refs.length_eq_countP_add_countP (p := (·.2 = .wait))
  have hle : n.refs.countP (·.2.locks) ≤ n.refs.countP fun r => ¬decide (r.2 = .wait) := by
    refine countP_mono_left fun r _ hr => ?_
    obtain ⟨q,g⟩ := r
    cases g <;> first | rfl | cases hr
  rw [← h.locked,h.waits,h.ref_eq,hlen]
  omega

/-- A process that is freeing the inode has the only reference. -/
lemma alone {a : Ref} (ha : a ∈ n.refs) (hr : n.Sole) : n.refs = [a] := by
  have hl : n.refs.length = 1 := by
    rw [← h.ref_eq,hr.1,hr.2]
  obtain ⟨b,hb⟩ := length_eq_one_iff.mp hl
  rw [hb,mem_singleton] at ha
  rw [hb,ha]

lemma not_freeing {a : Ref} (ha : a ∈ n.refs) (hf : a.2.freeing = false) :
    ∀ r ∈ n.refs, r.2.freeing = false := by
  intro r hr
  by_contra hc
  have hfree := (h.each r hr).of_freeing (by simpa using hc)
  rw [h.alone hr hfree.2.1,mem_singleton] at ha
  exact hc (ha ▸ hf)

/-- Nobody else uses the entry whose last reference an `iput` that has freed it is about to drop. -/
lemma alone_of_drop (hm : (p,.drop) ∈ n.refs) (hr : n.ref = 1) : n.refs = [(p,.drop)] := by
  refine h.alone hm ⟨hr,h.shared.resolve_right fun hs => ?_⟩
  have hl := h.ref_eq
  have hc := countP_erase_of_mem hm (!·.2.freed)
  have hle := (n.refs.erase (p,.drop)).countP_le_length (p := (!·.2.freed))
  rw [if_neg (by simp [Stage.freed])] at hc
  rw [length_erase_of_mem hm] at hle
  omega

lemma move {q : Pid} {g g' : Stage} (hm : (p,g) ∈ n.refs)
    (hrefs : n'.refs = (q,g')::n.refs.erase (p,g)) (href : n'.ref = n.ref)
    (hshares : n'.shares = n.shares)
    (hwait : n'.waiters+(if g = .wait then 1 else 0) = n.waiters+if g' = .wait then 1 else 0)
    (hlock : (if n'.holder.isSome then 1 else 0)+(if g.locks then 1 else 0) =
      (if n.holder.isSome then 1 else 0)+if g'.locks then 1 else 0)
    (hhead : n'.RefOK k' (q,g')) (hrest : ∀ r ∈ n.refs.erase (p,g), n'.RefOK k' r)
    (hsync : n'.valid → n'.holder = none → k'.type ≠ 0 ∧ n'.d = k')
    (hdrop : g'.freed = false ∨ g.freed ∧ n'.valid = false ∨ g' = .invalid ∧ n.Sole) :
    n'.OK k' where
  ref_eq := by rw [hrefs,href,hshares,length_move hm,h.ref_eq]
  waits := by
    have hc := countP_move (b := (q,g')) hm (·.2 = .wait)
    have hw := h.waits
    rw [hrefs]
    simp only [decide_eq_true_eq] at hc
    omega
  shared := by
    have hc := countP_move (b := (q,g')) hm (!·.2.freed)
    have hs := h.shared
    rw [hrefs,hshares]
    rcases hdrop with hf | hf | ⟨-,hf⟩
    · simp only [hf] at hc
      grind
    · simp only [hf.1] at hc
      grind
    · exact .inl hf.2
  locked := by
    have hc := countP_move (b := (q,g')) hm (·.2.locks)
    have hl := h.locked
    rw [hrefs]
    dsimp only at hc
    omega
  each := by
    rw [hrefs]
    exact forall_move hhead hrest
  synced _ := hsync
  dropping r hr hd hv := by
    rcases hdrop with hf | hf | ⟨rfl,hf⟩
    · exact ⟨(q,g'),by simp [hrefs],hf⟩
    · simp [hf.2] at hv
    · rw [hrefs,h.alone hm hf,erase_cons_head,mem_singleton] at hr
      subst hr
      cases hd

lemma change (hm : (p,.hold) ∈ n.refs) {d : Dinode} (hd : d.type ≠ 0)
    (hk : k'.type ≠ 0) : ({ n with d := d } : Entry).OK k' where
  ref_eq := h.ref_eq
  waits := h.waits
  shared := h.shared
  locked := h.locked
  each r hr := by
    obtain ⟨hl,_,hv,_⟩ := h.each _ hm
    by_cases he : r = (p,.hold)
    · subst he
      exact ⟨hl,hk,hv,hd⟩
    · exact h.rest hm rfl r ((mem_erase_of_ne he).mpr hr)
  synced _ _ hl := by
    have hl' := (h.each _ hm).holder_eq rfl
    exact nomatch hl'.symm.trans hl
  dropping := h.dropping

lemma erase {g : Stage} (hm : (p,g) ∈ n.refs) (hl : g.locks = false) (hg : g ≠ .wait) {r x w}
    (href : r+x+1 = n.ref+n.shares)
    (hshared : x = 0 ∨ x < (n.refs.erase (p,g)).countP (!·.2.freed))
    (hdrop : ∀ r ∈ n.refs, r.2 = .drop → n.valid → ∃ q ∈ n.refs.erase (p,g), q.2.freed = false) :
    ({ n with ref := r, refs := n.refs.erase (p,g), shares := x, new := w } : Entry).OK k where
  ref_eq := by
    have hlen := h.ref_eq
    show r+x = (n.refs.erase (p,g)).length
    rw [length_erase_of_mem hm]
    omega
  waits := by
    have hc := countP_erase_of_mem hm (·.2 = .wait)
    rw [if_neg (by simp [hg])] at hc
    exact h.waits.trans hc.symm
  shared := hshared
  locked := by
    have hc := countP_erase_of_mem hm (·.2.locks)
    rw [if_neg (by simp [hl])] at hc
    exact hc.trans h.locked
  each r hr := by
    have hf := h.not_freeing hm (by cases g <;> first | rfl | cases hl) r (mem_of_mem_erase hr)
    exact (h.each r (mem_of_mem_erase hr)).of_same rfl rfl rfl (by simp [hf])
  synced _ := h.synced (ne_nil_of_mem hm)
  dropping r hr := hdrop r (mem_of_mem_erase hr)

lemma cons (hf : ∀ r ∈ n.refs, r.2.freeing = false) (hne : n.refs ≠ []) {r x w}
    (href : r+x = n.ref+n.shares+1) (hx : x = n.shares ∨ x = n.shares+1 ∧ ∃ r ∈ n.refs, !r.2.freed) :
    ({ n with ref := r, refs := (p,.idle)::n.refs, shares := x, new := w } : Entry).OK k where
  ref_eq := href.trans (congrArg (·+1) h.ref_eq)
  waits := by
    rw [countP_cons,if_neg (by simp)]
    exact h.waits
  shared := by
    have hs := h.shared
    show x = 0 ∨ x < _
    rw [countP_cons,if_pos (by rfl)]
    rcases hx with rfl | ⟨rfl,hx⟩
    · omega
    · have hpos := countP_pos_iff.mpr hx
      omega
  locked := by
    rw [countP_cons,if_neg (by simp [Stage.locks])]
    exact h.locked
  each := forall_mem_cons.mpr ⟨trivial,fun r hr =>
    (h.each r hr).of_same rfl rfl rfl (by simp [hf r hr])⟩
  synced _ := h.synced hne
  dropping _ _ _ _ := ⟨(p,.idle),mem_cons_self,rfl⟩

lemma of_unused (hr : n.ref = 0) : n.OK k' := by
  have hnil := (h.of_ref_zero hr).1
  exact ⟨h.ref_eq,h.waits,h.shared,h.locked,by simp [hnil],by simp [hnil],h.dropping⟩

/-- `ialloc` takes over an inode; an `iput` that has freed it may still be about. -/
lemma reuse (hk : k.type = 0) (k' : Dinode) : n.OK k' where
  ref_eq := h.ref_eq
  waits := h.waits
  shared := h.shared
  locked := h.locked
  each r hr := by
    have hr' := h.each r hr
    obtain ⟨q,g⟩ := r
    cases g with
    | idle | wait | drop => trivial
    | load => exact ⟨hr'.1,fun hv => absurd hk (hr'.2 hv).1⟩
    | hold | itrunc | clear | update => exact absurd hk hr'.2.1
    | invalid | release => exact hr'
  synced hne hv hl := absurd hk (h.synced hne hv hl).1
  dropping := h.dropping

lemma recycle (hr : n.ref = 0) (p : Pid) (dev inum : ℕ) (w : Option (Pid×ℕ)) (k' : Dinode) :
    ({ n with dev := dev, inum := inum, ref := 1, valid := false, refs := [(p,.idle)], new := w } :
      Entry).OK k' where
  ref_eq := by
    show 1+n.shares = 1
    rw [(h.of_ref_zero hr).2]
  waits := by
    have hw := h.waits
    rw [(h.of_ref_zero hr).1] at hw
    exact hw
  shared := .inl (h.of_ref_zero hr).2
  locked := by
    have hl := h.locked
    rw [(h.of_ref_zero hr).1] at hl
    exact hl
  each := by simp [Entry.RefOK]
  synced _ hv := nomatch hv
  dropping _ _ _ hv := nomatch hv

end OK

/-- The conditions on a step with an entry: the inode protocol, and that no reference is dropped
while an `iput` that has freed the inode is still to drop its own. -/
def Allowed (n : Entry) (k : Dinode) : Op → Prop
  | .modify d => d.type ≠ 0
  | .iunlock => n.d = k
  | .iput => (∀ r ∈ n.refs, r.2.freed = false) ∧ (n.ref = 1 → n.shares = 0)
  | _ => True

lemma op_ok (h : n.OK k) (ha : n.Allowed k o) (hs : OpStep n k p o n' k' none) : n'.OK k' := by
  generalize hcalm : (none : Option String) = m at hs
  cases hs with
  | idup hm =>
    obtain ⟨g,hg,hf⟩ : ∃ g, (p,g) ∈ n.refs ∧ g.freeing = false :=
      hm.elim (fun hm => ⟨_,hm,rfl⟩) fun hm => ⟨_,hm,rfl⟩
    exact h.cons (h.not_freeing hg hf) (ne_nil_of_mem hg) (by omega) (.inl rfl)
  | ilockPanic => exact h
  | ilock hm | pass q hm =>
    refine h.move hm rfl rfl rfl rfl rfl trivial (fun r hr => ?_)
      (h.synced (ne_nil_of_mem hm)) (.inl rfl)
    exact (h.each r (mem_of_mem_erase hr)).of_same rfl rfl rfl fun _ => id
  | acquiresleep hm hl =>
    have hpos : 0 < n.waiters := h.waits ▸ countP_pos_iff.mpr ⟨_,hm,by simp⟩
    exact h.move hm rfl rfl rfl (Nat.sub_add_cancel hpos) (by simp [hl,Stage.locks])
      ⟨rfl,fun hv => h.synced (ne_nil_of_mem hm) hv hl⟩
      (fun r hr => .of_unlocked (h.unlocked hl r (mem_of_mem_erase hr)))
      (fun _ hc => nomatch hc) (.inl rfl)
  | loaded hm hv =>
    obtain ⟨hl,hd⟩ := h.each _ hm
    obtain ⟨hk,hd⟩ := hd hv
    exact h.move hm rfl rfl rfl rfl rfl ⟨hl,hk,hv,hd ▸ hk⟩ (h.rest hm rfl)
      (fun _ hc => by simp [Entry.move,hl] at hc) (.inl rfl)
  | load hload hv =>
    obtain ⟨hl,_⟩ := h.each _ hload
    have hk : k.type ≠ 0 := fun h0 => by simp [h0] at hcalm
    exact h.move hload rfl rfl rfl rfl rfl ⟨hl,hk,rfl,hk⟩
      (h.rest hload rfl)
      (fun _ _ => ⟨hk,rfl⟩) (.inl rfl)
  | modify d hm => exact h.change hm ha (h.each _ hm).2.1
  | iupdate hm =>
    have hd := (h.each _ hm).2.2.2
    exact h.change hm hd hd
  | iunlockPanic => exact h
  | iunlock hm =>
    obtain ⟨hl,hk,hv,hd⟩ := h.each _ hm
    exact h.move hm rfl rfl rfl rfl (by simp [hl,Stage.locks]) trivial
      (h.rest hm rfl) (fun _ _ => ⟨hk,ha⟩) (.inl rfl)
  | iputLast hm hlast hl =>
    obtain ⟨hr,hv,hn⟩ := hlast
    have hr := And.intro hr (ha.2 hr)
    obtain ⟨hk,hd⟩ := h.synced (ne_nil_of_mem hm) hv hl
    exact h.move hm rfl rfl rfl rfl (by simp [hl,Stage.locks]) ⟨rfl,hk,hr,hv,hn,hd⟩
      (fun r hr => .of_unlocked (h.unlocked hl r (mem_of_mem_erase hr)))
      (fun _ hc => nomatch hc) (.inl rfl)
  | iput hm =>
    have hpos := h.ref_pos hm
    have hc : (n.refs.erase (p,.idle)).countP (!·.2.freed) = (n.refs.erase (p,.idle)).length :=
      countP_eq_length.mpr fun r hr => by simp [ha.1 r (mem_of_mem_erase hr)]
    have hlen := h.ref_eq
    rw [length_erase_of_mem hm] at hc
    exact h.erase hm rfl (by simp) (by omega) (by have := ha.2; omega)
      fun r hr hd => absurd (ha.1 r hr) (by simp [hd,Stage.freed])
  | itrunc hm =>
    obtain ⟨hl,hk,hr,hv,hn,rfl⟩ := h.each _ hm
    exact h.move hm rfl rfl rfl rfl rfl ⟨hl,hk,hr,hv,hn,rfl⟩
      (h.rest hm rfl) (fun _ _ => ⟨hk,rfl⟩) (.inl rfl)
  | clear hm =>
    obtain ⟨hl,hk,hr,hv,hn,rfl⟩ := h.each _ hm
    exact h.move hm rfl rfl rfl rfl rfl ⟨hl,hk,hr,hv,hn,hn,rfl⟩
      (h.rest hm rfl)
      (fun _ hc => by simp [Entry.move,hl] at hc) (.inl rfl)
  | update hm =>
    obtain ⟨hl,_,hr,_⟩ := h.each _ hm
    have hrest : n.refs.erase (p,.update) = [] := by simp [h.alone hm hr]
    exact h.move hm rfl rfl rfl rfl rfl hl (by simp [hrest])
      (fun _ hc => by simp [Entry.move,hl] at hc) (.inr (.inr ⟨rfl,hr⟩))
  | invalid hm =>
    have hl : n.holder = some p := h.each _ hm
    exact h.move hm rfl rfl rfl rfl rfl ⟨hl,rfl⟩ (h.rest hm rfl)
      (fun hc => nomatch hc) (.inr (.inl ⟨rfl,rfl⟩))
  | release hm =>
    obtain ⟨hl,hv⟩ := h.each _ hm
    exact h.move hm rfl rfl rfl rfl (by simp [hl,Stage.locks]) trivial
      (h.rest hm rfl)
      (fun hc => by simp [Entry.move,hv] at hc) (.inr (.inl ⟨rfl,hv⟩))
  | drop hm =>
    have hpos := h.ref_pos hm
    have hc := countP_erase_of_mem hm (!·.2.freed)
    rw [if_neg (by simp [Stage.freed])] at hc
    refine h.erase hm rfl (by simp) (by omega) (by have := h.shared; omega) fun r hr hd hv => ?_
    obtain ⟨q,hq,hqf⟩ := h.dropping r hr hd hv
    exact ⟨q,(mem_erase_of_ne fun he => by simp [he,Stage.freed] at hqf).mpr hq,hqf⟩
  | share q hm =>
    exact h.cons (h.not_freeing hm rfl) (ne_nil_of_mem hm) (by omega) (.inr ⟨rfl,_,hm,rfl⟩)
  | unshare hm hn =>
    have hc := countP_erase_of_mem hm (!·.2.freed)
    rw [if_pos (by rfl)] at hc
    have hlt := h.shared.resolve_left hn.ne'
    refine h.erase hm rfl (by simp) (by omega) (by omega) fun _ _ _ _ => ?_
    have hpos : 0 < (n.refs.erase (p,.idle)).countP (!·.2.freed) := by omega
    obtain ⟨q,hq,hf⟩ := countP_pos_iff.mp hpos
    exact ⟨q,hq,by simpa using hf⟩

lemma op_names (hs : OpStep n k p o n' k' m) : n'.dev = n.dev ∧ n'.inum = n.inum := by
  cases hs <;> exact ⟨rfl,rfl⟩

lemma op_mem (hs : OpStep n k p o n' k' m) : ∃ g, (p,g) ∈ n.refs := by
  cases hs with
  | idup hm => exact hm.elim (⟨_,·⟩) (⟨_,·⟩)
  | _ => exact ⟨_,‹_›⟩

/-- Type 0 is written only by the owner of the last reference, to an unlinked inode. -/
lemma op_freed (h : n.OK k) (hs : OpStep n k p o n' k' m) (hk : k.type ≠ 0) (hk' : k'.type = 0) :
    n.refs = [(p,.update)] ∧ n.ref = 1 ∧ n.valid ∧ n.d.nlink = 0 ∧
      n' = n.move p .update .invalid := by
  cases hs with
  | iupdate hm => exact ((h.each _ hm).2.2.2 hk').elim
  | itrunc hm =>
    have hd := (h.each _ hm).2.2.2.2.2
    exact (hk (hd ▸ hk')).elim
  | update hm =>
    obtain ⟨_,_,hr,hv,hn,_⟩ := h.each _ hm
    exact ⟨h.alone hm hr,hr.1,hv,hn,rfl⟩
  | _ => exact (hk hk').elim

/-- What the holder of the lock has in memory is on disk as long as it has not changed it. -/
lemma op_clean {w : Bool} (h : n.OK k) (hs : OpStep n k p o n' k' m)
    (hw : ∀ q, (q,.hold) ∈ n.refs → w = false → n.d = k) {q : Pid} (hq : (q,.hold) ∈ n'.refs)
    (hd : o.dirties w = false) : n'.d = k' := by
  have hmem {g g' : Stage} {r : Pid} (hg : g' ≠ .hold)
      (hq : (q,.hold) ∈ (r,g')::n.refs.erase (p,g)) : (q,.hold) ∈ n.refs := by
    rcases mem_cons.mp hq with he | hq
    · exact absurd (congrArg Prod.snd he).symm hg
    · exact mem_of_mem_erase hq
  cases hs with
  | modify | clear => cases hd
  | iupdate | load | itrunc | update => rfl
  | loaded hm hv => exact ((h.each _ hm).2 hv).2
  | ilockPanic | iunlockPanic => exact hw q hq hd
  | idup | share => exact hw q ((mem_cons.mp hq).resolve_left (by simp)) hd
  | iput | drop | unshare => exact hw q (mem_of_mem_erase hq) hd
  | ilock | acquiresleep | iunlock | iputLast | invalid | release | pass =>
    exact hw q (hmem (by simp) hq) hd

/-- The last reference to an unlinked inode that has been locked is not dropped just so. -/
lemma op_dropped (h : n.OK k) (hs : OpStep n k p o n' k' m) (hr : 0 < n.ref) (hr' : n'.ref = 0)
    (hv : n.valid) : n.d.nlink ≠ 0 := by
  cases hs with
  | iput hm hlast =>
    intro hn
    have h1 : n.ref = 1 := by dsimp only at hr'; omega
    exact hlast ⟨h1,hv,hn⟩
  | drop hm =>
    have h1 : n.ref = 1 := by dsimp only at hr'; omega
    obtain ⟨q,hq,hqf⟩ := h.dropping _ hm rfl hv
    rw [h.alone_of_drop hm h1,mem_singleton] at hq
    simp [hq,Stage.freed] at hqf
  | idup => dsimp only at hr'; omega
  | _ => exact absurd hr' (Nat.pos_iff_ne_zero.mp hr)

/-- References of finished frees let go without touching the inode. -/
lemma op_allFreed (hall : ∀ r ∈ n.refs, r.2.freed) (hs : OpStep n k p o n' k' m) :
    (∀ r ∈ n'.refs, r.2.freed) ∧ k' = k := by
  have hrest : ∀ a, ∀ r ∈ n.refs.erase a, r.2.freed :=
    fun a r hr => hall r (mem_of_mem_erase hr)
  cases hs with
  | idup hm => rcases hm with hm | hm <;> cases hall _ hm
  | invalid hm => exact ⟨forall_move rfl (hrest _),rfl⟩
  | release hm => exact ⟨forall_move rfl (hrest _),rfl⟩
  | drop hm => exact ⟨hrest _,rfl⟩
  | _ => cases hall _ ‹_›

namespace Live

lemma not_new (h : n.Live k) {a : Ref} (ha : a ∈ n.refs) (hf : a.2.freed = false)
    (hu : a.2.unseen = false) : n.new = none := by
  cases hn : n.new with
  | none => rfl
  | some x =>
    have := (h.fresh x.1 x.2 hn).2.2.2 a ha hf
    simp [hu] at this

lemma old (hk : ∀ r ∈ n.refs, r.2.freed = false → k.type ≠ 0) (hn : n.new = none) : n.Live k :=
  ⟨hk,fun _ _ hq => nomatch hn.symm.trans hq⟩

/-- The references that were there still find the inode allocated. -/
lemma type_move (h : n.Live k) {q : Pid} {g g' : Stage} (hm : (p,g) ∈ n.refs)
    (hg : g'.freed = false → g.freed = false) (hk : k.type ≠ 0 → k'.type ≠ 0) :
    ∀ r ∈ (q,g')::n.refs.erase (p,g), r.2.freed = false → k'.type ≠ 0 :=
  forall_move (fun hf => hk (h.type_ne _ hm (hg hf)))
    fun r hr hf => hk (h.type_ne r (mem_of_mem_erase hr) hf)

/-- A reference to a new inode, or one of a finished free, goes on to its next stage. -/
lemma move_new (h : n.Live k) {g g' : Stage} (hm : (p,g) ∈ n.refs)
    (hrefs : n'.refs = (p,g')::n.refs.erase (p,g)) (hnew : n'.new = n.new)
    (hg : g.freed = false ∧ g'.unseen ∨ g.freed ∧ g'.freed) : n'.Live k where
  type_ne := by
    rw [hrefs]
    refine h.type_move hm (fun hf => ?_) id
    rcases hg with hg | hg
    · exact hg.1
    · simp [hg.2] at hf
  fresh q ty hq := by
    obtain ⟨hk,hty,⟨r,hr,hrf⟩,hall⟩ := h.fresh q ty (hnew ▸ hq)
    have hrest : ∀ x ∈ n.refs.erase (p,g), x.2.freed = false → x.2.unseen :=
      fun x hx => hall x (mem_of_mem_erase hx)
    rw [hrefs]
    rcases hg with ⟨_,hu⟩ | ⟨hg,hg'⟩
    · exact ⟨hk,hty,⟨(p,g'),mem_cons_self,by cases g' <;> first | rfl | cases hu⟩,
        forall_move (fun _ => hu) hrest⟩
    · -- the owner's reference is another one
      have hne : r ≠ (p,g) := fun he => by simp [he,hg] at hrf
      exact ⟨hk,hty,⟨r,mem_cons_of_mem _ ((mem_erase_of_ne hne).mpr hr),hrf⟩,
        forall_move (fun hf => by simp [hg'] at hf) hrest⟩

lemma drop (h : n.Live k) :
    ({ n with ref := n.ref-1, refs := n.refs.erase (p,.drop) } : Entry).Live k where
  type_ne r hr := h.type_ne r (mem_of_mem_erase hr)
  fresh q ty hq := by
    obtain ⟨hk,hty,⟨r,hr,hrf⟩,hall⟩ := h.fresh q ty hq
    have hne : r ≠ (p,.drop) := fun he => by simp [he,Stage.freed] at hrf
    exact ⟨hk,hty,⟨r,(mem_erase_of_ne hne).mpr hr,hrf⟩,
      fun x hx => hall x (mem_of_mem_erase hx)⟩

lemma cons (h : n.Live k) (hk : k.type ≠ 0) {r x w}
    (hw : ∀ q ty, w = some (q,ty) → k = .fresh ty ∧ ∀ r ∈ n.refs, r.2.freed) :
    ({ n with ref := r, refs := (p,.idle)::n.refs, shares := x, new := w } : Entry).Live k where
  type_ne := forall_mem_cons.mpr ⟨fun _ => hk,h.type_ne⟩
  fresh q ty hq := by
    obtain ⟨hf,hall⟩ := hw q ty hq
    refine ⟨hf,fun h0 => hk (by rw [hf,h0]; rfl),⟨(p,.idle),mem_cons_self,rfl⟩,?_⟩
    refine forall_mem_cons.mpr ⟨fun _ => rfl,fun r hr hfr => ?_⟩
    simp [hall r hr] at hfr

lemma recycle {dev inum : ℕ} (hk : k.type ≠ 0) {w : Option (Pid×ℕ)}
    (hw : ∀ q ty, w = some (q,ty) → k = .fresh ty) :
    ({ n with dev := dev, inum := inum, ref := 1, valid := false, refs := [(p,.idle)], new := w } :
      Entry).Live k where
  type_ne _ _ _ := hk
  fresh q ty hq := by
    have hf := hw q ty hq
    exact ⟨hf,fun h0 => hk (by rw [hf,h0]; rfl),⟨_,mem_singleton_self _,rfl⟩,
      by simp [Stage.unseen]⟩

lemma of_unused (h : n.Live k) (hnil : n.refs = []) : n.Live k' := by
  refine old (by simp [hnil]) ?_
  cases hn : n.new with
  | none => rfl
  | some x =>
    obtain ⟨r,hr,_⟩ := (h.fresh x.1 x.2 hn).2.2.1
    simp [hnil] at hr

lemma allFreed (h : n.Live k) (hk : k.type = 0) : ∀ r ∈ n.refs, r.2.freed := by
  intro r hr
  by_contra hc
  exact h.type_ne r hr (by simpa using hc) hk

lemma reuse (h : n.Live k) (hk : k.type = 0) (k' : Dinode) : n.Live k' := by
  have hall := h.allFreed hk
  refine old (fun r hr hf => by simp [hall r hr] at hf) ?_
  cases hn : n.new with
  | none => rfl
  | some x =>
    obtain ⟨r,hr,hf⟩ := (h.fresh x.1 x.2 hn).2.2.1
    simp [hall r hr] at hf

end Live

lemma op_live (h : n.OK k) (hv : n.Live k) (hs : OpStep n k p o n' k' m) : n'.Live k' := by
  have hrest : ∀ a, ∀ r ∈ n.refs.erase a, r.2.freed = false → k.type ≠ 0 :=
    fun a r hr => hv.type_ne r (mem_of_mem_erase hr)
  cases hs with
  | idup hm =>
    have hk : k.type ≠ 0 := hm.elim (fun hm => hv.type_ne _ hm rfl) fun hm => hv.type_ne _ hm rfl
    exact hv.cons hk fun _ _ hn => nomatch hn
  | ilockPanic | iunlockPanic => exact hv
  | ilock hm => exact hv.move_new hm rfl rfl (.inl ⟨rfl,rfl⟩)
  | acquiresleep hm => exact hv.move_new hm rfl rfl (.inl ⟨rfl,rfl⟩)
  | loaded hm | load hm | iputLast hm | pass q hm => exact .old (hv.type_move hm id id) rfl
  | modify d hm => exact .old hv.type_ne (hv.not_new hm rfl rfl)
  | iupdate hm =>
    have hd := (h.each _ hm).2.2.2
    exact .old (fun _ _ _ => hd) (hv.not_new hm rfl rfl)
  | iunlock hm => exact .old (hv.type_move hm id id) (hv.not_new hm rfl rfl)
  | share q hm => exact hv.cons (hv.type_ne _ hm rfl) fun _ _ hn => nomatch hn
  | iput | unshare => exact .old (hrest _) rfl
  | itrunc hm =>
    obtain rfl := (h.each _ hm).2.2.2.2.2
    exact .old (hv.type_move hm id id) (hv.not_new hm rfl rfl)
  | clear hm => exact .old (hv.type_move hm id id) (hv.not_new hm rfl rfl)
  | update hm =>
    refine .old (fun r hr hf => ?_) (hv.not_new hm rfl rfl)
    have hone := h.alone hm (h.each _ hm).2.2.1
    simp only [Entry.move,hone,erase_cons_head,mem_singleton] at hr
    simp [hr,Stage.freed] at hf
  | invalid hm => exact hv.move_new hm rfl rfl (.inr ⟨rfl,rfl⟩)
  | release hm => exact hv.move_new hm rfl rfl (.inr ⟨rfl,rfl⟩)
  | drop => exact hv.drop

/-- None of the panics of `ilock` and `iunlock` is reached. -/
lemma op_calm (h : n.OK k) (hv : n.Live k) (hs : OpStep n k p o n' k' m) : m = none := by
  cases hs with
  | ilockPanic hm hr =>
    have := h.ref_pos hm
    omega
  | load hm => exact if_neg (hv.type_ne _ hm rfl)
  | iunlockPanic hm hr =>
    have := h.ref_pos hm
    have hl := (h.each _ hm).1
    exact (hr.elim (· hl) (by omega)).elim
  | _ => rfl

/-- The first `ilock` of a new inode reads what `ialloc` wrote. -/
lemma op_load_new (h : n.OK k) (hv : n.Live k) {ty : ℕ} (hn : n.new = some (p,ty))
    (hs : OpStep n k p .load n' k' m) : n'.d = .fresh ty := by
  have hk := (hv.fresh p ty hn).1
  cases hs with
  | loaded hm hval => exact ((h.each _ hm).2 hval).2.trans hk
  | load => exact hk

end Entry
end Xv6.Fs.Itable
