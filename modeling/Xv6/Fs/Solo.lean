import Xv6.Fs.View

/-! The actions of a process that runs alone follow their description: they do what `Fs.Action` says,
and none of them fails unless the description allows it. -/
namespace Xv6.Fs
open List State

open Itable (Entry Op Ref Stage Scan Table)
open Lib (Traced)

section Exists
variable {p : Fin NPROC} {i : Slot} {s : State} {n : Entry} {k : Dinode} {o : Op}

/-! An action that has what it needs completes. -/

lemma entryOp_eq (h : (s.table.inode i).op (s.table.dinode i) p.val o = some (n,k,none)) :
    entryOp p i o s = .ok ((),s.put i n k) := entryOp_ok.mpr ⟨n,k,h,rfl⟩

lemma entryOp_put {n' : Entry} {k' : Dinode} {st : Store} (hd : n.dev = (s.table.inode i).dev)
    (hi : n.inum = (s.table.inode i).inum) (h : n.op k p.val o = some (n',k',none)) :
    entryOp p i o { s.put i n k with store := st } =
      .ok ((),{ s.put i n' k' with store := st }) := by
  have hn : ({ s.put i n k with store := st } : State).table.inode i = n := put_inode ..
  have hk : ({ s.put i n k with store := st } : State).table.dinode i = k := put_dinode hd hi
  rw [entryOp_eq (by rw [hn,hk]; exact h)]
  have := congrArg (fun t : State => { t with store := st }) (put_put n' k' hd hi (k := k))
  exact congrArg (fun t => Except.ok ((),t)) this

lemma load_exists (hm : (p.val,.load) ∈ n.refs) (hty : n.valid = false → k.type ≠ 0) :
    ∃ n', n.op k p.val .load = some (n',k,none) := by
  simp only [Entry.op,if_pos hm]
  by_cases hv : n.valid
  · exact ⟨_,by rw [if_pos hv]⟩
  · exact ⟨_,by rw [if_neg hv,if_neg (hty (Bool.eq_false_iff.mpr hv))]⟩

lemma ilock_exists (hm : (p.val,.idle) ∈ (s.table.inode i).refs) (href : 1 ≤ (s.table.inode i).ref)
    (hn : (s.table.inode i).holder = none)
    (hty : (s.table.inode i).valid = false → (s.table.dinode i).type ≠ 0) :
    ∃ t, ilock p i s = .ok ((),t) := by
  have h₁ : (s.table.inode i).op (s.table.dinode i) p.val .ilock =
      some ((s.table.inode i).enqueue p.val,s.table.dinode i,none) := by
    simp only [Entry.op,if_pos hm,if_neg (Nat.not_lt.mpr href)]
  have h₂ : ((s.table.inode i).enqueue p.val).op (s.table.dinode i) p.val .acquiresleep =
      some ({ ((s.table.inode i).enqueue p.val).move p.val .wait .load with
        holder := some p.val, waiters := (s.table.inode i).waiters },s.table.dinode i,none) :=
    if_pos ⟨mem_cons_self,hn⟩
  obtain ⟨n,h₃⟩ := load_exists (n := { ((s.table.inode i).enqueue p.val).move p.val .wait .load with
    holder := some p.val, waiters := (s.table.inode i).waiters }) (k := s.table.dinode i)
    mem_cons_self hty
  exact ⟨_,bind_ok.mpr ⟨(),_,entryOp_eq h₁,bind_ok.mpr ⟨(),_,entryOp_put rfl rfl h₂,
    entryOp_put rfl rfl h₃⟩⟩⟩

/-- `ilock` of an inode that the process has locked already. -/
lemma ilock_sleeps (hm : (p.val,.idle) ∈ (s.table.inode i).refs) (href : 1 ≤ (s.table.inode i).ref)
    (hn : (s.table.inode i).holder ≠ none) : ilock p i s = .error .sleep := by
  have h₁ : (s.table.inode i).op (s.table.dinode i) p.val .ilock =
      some ((s.table.inode i).enqueue p.val,s.table.dinode i,none) := by
    simp only [Entry.op,if_pos hm,if_neg (Nat.not_lt.mpr href)]
  refine bind_error.mpr (.inr ⟨(),_,entryOp_eq h₁,bind_error.mpr (.inl ?_)⟩)
  have h₂ : ((s.put i ((s.table.inode i).enqueue p.val) (s.table.dinode i)).table.inode i).op
      ((s.put i ((s.table.inode i).enqueue p.val) (s.table.dinode i)).table.dinode i) p.val
      .acquiresleep = none := by
    rw [put_inode]
    exact if_neg fun h => hn h.2
  rw [entryOp,h₂]

lemma iunlock_exists (hm : (p.val,.hold) ∈ (s.table.inode i).refs)
    (href : 1 ≤ (s.table.inode i).ref) (hn : (s.table.inode i).holder = some p.val) :
    entryOp p i .iunlock s = .ok ((),s.put i
      { (s.table.inode i).move p.val .hold .idle with holder := none } (s.table.dinode i)) := by
  refine entryOp_eq ?_
  simp only [Entry.op,if_pos hm]
  rw [if_neg]
  rintro (h | h)
  · exact h hn
  · omega

lemma iputTest_exists (hm : (p.val,.idle) ∈ (s.table.inode i).refs)
    (hn : (s.table.inode i).Last → (s.table.inode i).holder = none) :
    ∃ b t, iputTest p i s = .ok (b,t) := by
  by_cases hl : (s.table.inode i).Last
  · refine ⟨_,_,bind_ok.mpr ⟨s,s,rfl,bind_ok.mpr ⟨(),_,entryOp_eq (n :=
      { (s.table.inode i).move p.val .idle .itrunc with holder := some p.val, new := none })
      (k := s.table.dinode i) ?_,rfl⟩⟩⟩
    simp only [Entry.op,if_pos hm,if_pos hl,if_pos (hn hl)]
  · refine ⟨_,_,bind_ok.mpr ⟨s,s,rfl,bind_ok.mpr ⟨(),_,entryOp_eq (n :=
      { s.table.inode i with
        ref := (s.table.inode i).ref-1
        refs := (s.table.inode i).refs.erase (p.val,.idle)
        new := none }) (k := s.table.dinode i) ?_,rfl⟩⟩⟩
    simp only [Entry.op,if_pos hm,if_neg hl]

lemma iputFree_exists {x : Data Store} (hm : (p.val,.itrunc) ∈ (s.table.inode i).refs)
    (hx : Data.itrunc ⟨(s.table.inode i).d,s.store⟩ = .ok x) : ∃ t, iputFree p i s = .ok ((),t) := by
  have h₁ : (s.table.inode i).op (s.table.dinode i) p.val .itrunc = some
      ({ (s.table.inode i).move p.val .itrunc .clear with d := (s.table.inode i).d.trunc },
        (s.table.inode i).d.trunc,none) := if_pos hm
  refine Exists.imp (fun t ht => bind_ok.mpr ⟨s,s,rfl,ht⟩) ?_
  rw [if_neg (not_not.mpr hm)]
  refine ⟨_,bind_ok.mpr ⟨x,s,liftData_ok.mpr ⟨hx,rfl⟩,bind_ok.mpr ⟨(),_,entryOp_eq h₁,
    bind_ok.mpr ⟨(),_,modify_ok.mpr rfl,bind_ok.mpr ⟨(),_,entryOp_put rfl rfl
      (if_pos mem_cons_self),bind_ok.mpr ⟨(),_,entryOp_put rfl rfl
      (if_pos mem_cons_self),bind_ok.mpr ⟨(),_,entryOp_put rfl rfl
      (if_pos mem_cons_self),entryOp_put rfl rfl (if_pos mem_cons_self)⟩⟩⟩⟩⟩⟩⟩

lemma drop_exists (hm : (p.val,.drop) ∈ (s.table.inode i).refs) :
    entryOp p i .drop s = .ok ((),s.put i { s.table.inode i with
      ref := (s.table.inode i).ref-1
      refs := (s.table.inode i).refs.erase (p.val,.drop) } (s.table.dinode i)) :=
  entryOp_eq (if_pos hm)

variable (hm : (p.val,.hold) ∈ (s.table.inode i).refs)
include hm

lemma onData_exists {α : Type} {f : Data Store → Except String (α×Data Store)} {a : α} {x : Data Store}
    (hx : f ⟨(s.table.inode i).d,s.store⟩ = .ok (a,x)) :
    onData p i f s = .ok (a,s.change i x.d (s.table.dinode i) x.st) := by
  refine bind_ok.mpr ⟨s,s,rfl,?_⟩
  rw [if_neg (not_not.mpr hm)]
  exact bind_ok.mpr ⟨(a,x),s,liftData_ok.mpr ⟨hx,rfl⟩,bind_ok.mpr ⟨(),_,entryOp_eq (if_pos hm),
    bind_ok.mpr ⟨(),_,modify_ok.mpr rfl,rfl⟩⟩⟩

lemma onData_error {α : Type} {f : Data Store → Except String (α×Data Store)} {m : String}
    (hx : f ⟨(s.table.inode i).d,s.store⟩ = .error m) : onData p i f s = .error (.panic m) := by
  refine bind_error.mpr (.inr ⟨s,s,rfl,?_⟩)
  rw [if_neg (not_not.mpr hm)]
  exact bind_error.mpr (.inl (by rw [hx]; rfl))

lemma iupdate_change {d : Dinode} {st : Store} :
    iupdate p i (s.change i d (s.table.dinode i) st) = .ok ((),s.change i d d st) :=
  entryOp_put rfl rfl (if_pos hm)

lemma writeData_exists {f : Data Store → Except String (ℤ×Data Store)} {r : ℤ} {x : Data Store}
    (hx : f ⟨(s.table.inode i).d,s.store⟩ = .ok (r,x)) : writeData p i f s =
      .ok (r,s.change i x.d (if r = -1 then s.table.dinode i else x.d) x.st) := by
  refine bind_ok.mpr ⟨r,_,onData_exists hm hx,?_⟩
  by_cases hr : r = -1
  · rw [if_neg (not_not.mpr hr),if_pos hr]
    rfl
  · rw [if_pos hr,if_neg hr]
    exact bind_ok.mpr ⟨(),_,iupdate_change hm,rfl⟩

lemma setDinode_exists {f : Dinode → Dinode} : ∃ t, setDinode p i f s = .ok ((),t) :=
  ⟨_,bind_ok.mpr ⟨s,s,rfl,bind_ok.mpr ⟨(),_,entryOp_eq (if_pos hm),
    entryOp_put rfl rfl (if_pos hm)⟩⟩⟩

lemma itrunc_exists {x : Data Store}
    (hx : Data.itrunc ⟨(s.table.inode i).d,s.store⟩ = .ok x) : ∃ t, itrunc p i s = .ok ((),t) :=
  ⟨_,bind_ok.mpr ⟨(),_,onData_exists (a := ()) (x := x) hm (by rw [hx]; rfl),iupdate_change hm⟩⟩

end Exists

/-- The references of the call to one entry. -/
def mine (hs : List Held) (i : Slot) : List Held := hs.filter (·.slot = i)

section Mine
variable {hs : List Held} {h : Held} {i : Slot}

lemma mem_mine : h ∈ mine hs i ↔ h ∈ hs ∧ h.slot = i := by simp [mine]

lemma mine_cons_self (h : Held) (hs : List Held) : mine (h::hs) h.slot = h::mine hs h.slot :=
  filter_cons_of_pos (by simp)

lemma mine_cons_ne (hne : i ≠ h.slot) : mine (h::hs) i = mine hs i :=
  filter_cons_of_neg (by simpa using hne.symm)

lemma mine_erase_self (hm : h ∈ hs) :
    (mine hs h.slot).Perm (h::mine (hs.erase h) h.slot) := by
  rw [← mine_cons_self]
  exact (perm_cons_erase hm).filter _

lemma mine_erase_ne (hm : h ∈ hs) (hne : i ≠ h.slot) : (mine (hs.erase h) i).Perm (mine hs i) := by
  rw [← mine_cons_ne hne]
  exact ((perm_cons_erase hm).filter _).symm

end Mine

/-- An entry of the table with references `hs` of the call and other references `os`. -/
structure Fits (p : Fin NPROC) (hs : List Held) (os : List Ref) (k : ℕ) (n : Entry) : Prop where
  refs : n.refs.Perm (hs.map (fun h => (p.val,h.mode.stage))++os)
  inum : ∀ h ∈ hs, n.inum = h.inum
  name : os ≠ [] → n.inum = k
  seen : ∀ h ∈ hs, h.mode = .seen → n.valid

lemma Fits.perm {p : Fin NPROC} {hs hs' : List Held} {os : List Ref} {k : ℕ} {n : Entry}
    (h : Fits p hs os k n) (hp : hs'.Perm hs) : Fits p hs' os k n where
  refs := h.refs.trans ((hp.map _).append_right os).symm
  inum g hg := h.inum g (hp.mem_iff.mp hg)
  name := h.name
  seen g hg := h.seen g (hp.mem_iff.mp hg)

/-- The view agrees with the state. -/
structure Good (sb : DiskSb) (p : Fin NPROC) (v : View) (s : State) : Prop where
  base : Base sb s
  inode : s.dinode = v.inode
  store : s.store = v.store
  scans : s.table.scans = v.scans
  file : s.file = v.file
  proc : s.proc = v.proc
  slot : ∀ i, Fits p (mine v.held i) (v.others i) (v.name i) (s.table.inode i)
  idle : ∀ i, ∀ r ∈ v.others i, r.2 = .idle

namespace Good
variable {sb : DiskSb} {p : Fin NPROC} {v w : View} {s t : State} {h : Held} {i : Slot} {k : ℕ}

variable (hg : Good sb p v s)
include hg

lemma image : Image sb v.inode v.store := by
  refine ⟨?_,fun k hk => ?_⟩
  · rw [← hg.inode,← hg.store]
    exact hg.base.own
  · rw [← hg.inode] at hk
    rw [← hg.inode,← hg.store]
    exact hg.base.full k hk

lemma mem (hm : h ∈ v.held) : (p.val,h.mode.stage) ∈ (s.table.inode h.slot).refs := by
  rw [(hg.slot h.slot).refs.mem_iff]
  exact mem_append_left _ (mem_map.mpr ⟨h,mem_mine.mpr ⟨hm,rfl⟩,rfl⟩)

lemma other_mem {r : Ref} (hr : r ∈ v.others i) : r ∈ (s.table.inode i).refs := by
  rw [(hg.slot i).refs.mem_iff]
  exact mem_append_right _ hr

lemma inum (hm : h ∈ v.held) : (s.table.inode h.slot).inum = h.inum :=
  (hg.slot h.slot).inum h (mem_mine.mpr ⟨hm,rfl⟩)

lemma used : (s.table.inode i).refs ≠ [] ↔ v.others i ≠ [] ∨ ∃ h ∈ v.held, h.slot = i := by
  constructor
  · intro hne
    by_contra hc
    rw [not_or,not_not] at hc
    have hmine : mine v.held i = [] := by
      rw [eq_nil_iff_forall_not_mem]
      intro h hh
      exact hc.2 ⟨h,mem_mine.mp hh⟩
    have := (hg.slot i).refs
    rw [hmine,hc.1] at this
    exact hne (perm_nil.mp this)
  · rintro (ho | ⟨h,hm,rfl⟩)
    · obtain ⟨r,hr⟩ := exists_mem_of_ne_nil _ ho
      exact ne_nil_of_mem (hg.other_mem hr)
    · exact ne_nil_of_mem (hg.mem hm)

lemma ref_pos (hm : h ∈ v.held) : 1 ≤ (s.table.inode h.slot).ref := by
  rw [(hg.base.sync h.slot).ref_eq]
  exact length_pos_of_mem (hg.mem hm)

lemma dinode (hm : h ∈ v.held) : s.table.dinode h.slot = v.inode h.inum := by
  rw [hg.base.dinode_eq (ne_nil_of_mem (hg.mem hm)),hg.inode,hg.inum hm]

lemma locked (hm : h ∈ v.held) (hl : h.mode.stage.locks) :
    s.data h.slot = v.data h.inum ∧ (v.inode h.inum).type ≠ 0 := by
  obtain ⟨hd,hty⟩ := hg.base.locked (hg.mem hm) hl
  rw [hg.inode,hg.inum hm] at hd
  rw [data,View.data,hd,hg.store]
  exact ⟨rfl,hty⟩

lemma holder : (s.table.inode i).holder = none ↔ ¬v.Locks i := by
  have hsync := hg.base.sync i
  constructor
  · rintro hn ⟨h,hm,rfl,hl⟩
    have := (hsync.held _ (hg.mem hm) hl).1
    rw [hn] at this
    cases this
  · intro hn
    have hzero : (s.table.inode i).refs.countP (·.2.locks) = 0 := by
      rw [countP_eq_zero]
      intro r hr
      rw [(hg.slot i).refs.mem_iff,mem_append] at hr
      rcases hr with hr | hr
      · obtain ⟨h,hh,rfl⟩ := mem_map.mp hr
        obtain ⟨hm,hs⟩ := mem_mine.mp hh
        exact fun hl => hn ⟨h,hm,hs,hl⟩
      · rw [hg.idle i r hr]
        exact nofun
    have hlock := hsync.locked
    rw [hzero] at hlock
    cases hc : (s.table.inode i).holder with
    | none => rfl
    | some q => simp [hc] at hlock

lemma sole (hm : h ∈ v.held) : (s.table.inode h.slot).ref = 1 ↔ v.Sole h.slot := by
  have hpos : 0 < (mine v.held h.slot).length :=
    length_pos_of_mem (mem_mine.mpr ⟨hm,rfl⟩)
  have hcount : v.held.countP (·.slot = h.slot) = (mine v.held h.slot).length :=
    countP_eq_length_filter
  rw [(hg.base.sync h.slot).ref_eq,(hg.slot h.slot).refs.length_eq,length_append,
    length_map,View.Sole,hcount,← length_eq_zero_iff]
  omega

lemma wf : v.Wf where
  held g hg' h hh := by
    constructor
    · intro he
      rw [← hg.inum hg',← hg.inum hh,he]
    · intro he
      refine hg.base.unique _ _ (ne_nil_of_mem (hg.mem hg')) (ne_nil_of_mem (hg.mem hh)) ?_
      rw [hg.inum hg',hg.inum hh,he]
  other h hh i hi := by
    have hne : (s.table.inode i).refs ≠ [] := hg.used.mpr (.inl hi)
    constructor
    · rintro rfl
      rw [← hg.inum hh,(hg.slot h.slot).name hi]
    · intro he
      refine hg.base.unique _ _ (ne_nil_of_mem (hg.mem hh)) hne ?_
      rw [hg.inum hh,(hg.slot i).name hi,he]
  name i j hi hj he := by
    refine hg.base.unique i j (hg.used.mpr (.inl hi)) (hg.used.mpr (.inl hj)) ?_
    rw [(hg.slot i).name hi,(hg.slot j).name hj,he]

lemma of_slot (i : Slot) (hb : Base sb t) (hinode : t.dinode = w.inode) (hstore : t.store = w.store)
    (hscans : t.table.scans = w.scans) (hfile : t.file = w.file) (hproc : t.proc = w.proc)
    (hi : Fits p (mine w.held i) (w.others i) (w.name i) (t.table.inode i))
    (hidle : ∀ r ∈ w.others i, r.2 = .idle)
    (hj : ∀ j, j ≠ i → t.table.inode j = s.table.inode j ∧ (mine w.held j).Perm (mine v.held j) ∧
      w.others j = v.others j ∧ w.name j = v.name j) : Good sb p w t := by
  refine ⟨hb,hinode,hstore,hscans,hfile,hproc,fun j => ?_,fun j => ?_⟩
  · by_cases hji : j = i
    · rw [hji]
      exact hi
    · obtain ⟨h₁,h₂,h₃,h₄⟩ := hj j hji
      rw [h₁,h₃,h₄]
      exact (hg.slot j).perm h₂
  · by_cases hji : j = i
    · rw [hji]
      exact hidle
    · rw [(hj j hji).2.2.1]
      exact hg.idle j

/-- What is left of an entry's references without one of the call. -/
lemma erase_refs (hm : h ∈ v.held) : ((s.table.inode h.slot).refs.erase (p.val,h.mode.stage)).Perm
      ((mine (v.held.erase h) h.slot).map (fun g => (p.val,g.mode.stage))++v.others h.slot) := by
  have hp := ((hg.slot h.slot).refs.trans
    (((mine_erase_self hm).map fun g => (p.val,g.mode.stage)).append_right (v.others h.slot))).erase
      (p.val,h.mode.stage)
  rwa [map_cons,cons_append,erase_cons_head] at hp

/-- A step with an entry that replaces a reference of the call by `hs`. -/
lemma step (hm : h ∈ v.held) (hs : List Held) {n : Entry} {d : Dinode}
    {st : Store} (hb : Base sb { s.put h.slot n d with store := st })
    (hnum : n.inum = (s.table.inode h.slot).inum)
    (hslot : ∀ g ∈ hs, g.slot = h.slot ∧ g.inum = h.inum)
    (hrefs : n.refs = hs.map (fun g => (p.val,g.mode.stage))++
      (s.table.inode h.slot).refs.erase (p.val,h.mode.stage))
    (hseen : ∀ g ∈ hs++mine (v.held.erase h) h.slot, g.mode = .seen → n.valid)
    (h₁ : w.inode = Function.update v.inode h.inum d) (h₂ : w.store = st)
    (h₃ : w.held = hs++v.held.erase h) (h₄ : w.others = v.others) (h₅ : w.name = v.name)
    (h₆ : w.scans = v.scans) (h₇ : w.file = v.file) (h₈ : w.proc = v.proc) :
    Good sb p w { s.put h.slot n d with store := st } := by
  have hself : mine hs h.slot = hs := by
    rw [mine,filter_eq_self]
    intro g hg'
    simpa using (hslot g hg').1
  have happ : ∀ j, mine w.held j = mine hs j++mine (v.held.erase h) j := by
    intro j
    rw [h₃,mine,filter_append]
    rfl
  have hdin : ({ s.put h.slot n d with store := st } : State).dinode = w.inode := by
    rw [h₁,← hg.inode,← hg.inum hm]
    exact hg.base.put_dinode (ne_nil_of_mem (hg.mem hm)) n d
  refine hg.of_slot h.slot hb hdin h₂.symm ?_ ?_ ?_ ?_ ?_ fun j hj => ⟨put_inode_ne _ _ _ _ hj,
    ?_,by rw [h₄],by rw [h₅]⟩
  · rw [h₆]
    exact hg.scans
  · rw [h₇]
    exact hg.file
  · rw [h₈]
    exact hg.proc
  · have hn : ({ s.put h.slot n d with store := st } : State).table.inode h.slot = n :=
      put_inode ..
    rw [hn,happ,hself,h₄,h₅]
    refine ⟨?_,fun g hg' => ?_,fun ho => hnum.trans ((hg.slot h.slot).name ho),hseen⟩
    · rw [hrefs,map_append,append_assoc]
      exact (hg.erase_refs hm).append_left _
    · rw [hnum,hg.inum hm]
      rcases mem_append.mp hg' with hg' | hg'
      · exact (hslot g hg').2.symm
      · obtain ⟨hg₁,hg₂⟩ := mem_mine.mp hg'
        rw [← hg.inum hm,← hg.inum (mem_of_mem_erase hg₁),hg₂]
  · rw [h₄]
    exact hg.idle h.slot
  · have hnil : mine hs j = [] := by
      rw [mine,filter_eq_nil_iff]
      intro g hg'
      rw [(hslot g hg').1]
      simpa using hj.symm
    rw [happ,hnil]
    exact mine_erase_ne hm hj

/-- The call has changed an inode that it has locked, and written it back. -/
lemma change (hm : h ∈ v.held) {d : Dinode} {st : Store} (hb : Base sb (s.change h.slot d d st))
    (h₁ : w.inode = Function.update v.inode h.inum d) (h₂ : w.store = st) (h₃ : w.held = v.held)
    (h₄ : w.others = v.others) (h₅ : w.name = v.name) (h₆ : w.scans = v.scans)
    (h₇ : w.file = v.file) (h₈ : w.proc = v.proc) : Good sb p w (s.change h.slot d d st) := by
  have hdin : (s.change h.slot d d st).dinode = w.inode := by
    rw [h₁,← hg.inode,← hg.inum hm]
    exact hg.base.put_dinode (ne_nil_of_mem (hg.mem hm)) _ d
  refine hg.of_slot h.slot hb hdin h₂.symm (by rw [h₆]; exact hg.scans) (by rw [h₇]; exact hg.file)
    (by rw [h₈]; exact hg.proc) ?_ (by rw [h₄]; exact hg.idle h.slot) fun j hj =>
      ⟨put_inode_ne _ _ _ _ hj,by rw [h₃],by rw [h₄],by rw [h₅]⟩
  have hi := hg.slot h.slot
  rw [change_inode,h₃,h₄,h₅]
  exact ⟨hi.refs,hi.inum,hi.name,hi.seen⟩

lemma seen_erase {n : Entry} (hv : n.valid = (s.table.inode h.slot).valid) :
    ∀ g ∈ mine (v.held.erase h) h.slot, g.mode = .seen → n.valid := by
  intro g hg' hm
  rw [hv]
  obtain ⟨h₁,h₂⟩ := mem_mine.mp hg'
  exact (hg.slot h.slot).seen g (mem_mine.mpr ⟨mem_of_mem_erase h₁,h₂⟩) hm

lemma iget (k : ℕ) (new : Option ℕ) :
    (v.TableFull ∧ Fs.iget p k new s = .error (.panic "iget: no inodes")) ∨
      ∃ i t, Fs.iget p k new s = .ok (i,t) ∧ Good sb p (v.get i k) t := by
  have hok : ∀ {i t}, Fs.iget p k new s = .ok (i,t) → Good sb p (v.get i k) t := by
    intro i t ht
    have hb := hg.base.iget ht
    have hother : ∀ j, j ≠ i → (mine (v.get i k).held j).Perm (mine v.held j) ∧
        (v.get i k).others j = v.others j ∧ (v.get i k).name j = v.name j := by
      intro j hj
      rw [View.get,mine_cons_ne (h := ⟨i,k,.fresh⟩) hj]
      exact ⟨.refl _,rfl,rfl⟩
    have hmine : mine (v.get i k).held i = ⟨i,k,.fresh⟩::mine v.held i :=
      mine_cons_self ⟨i,k,.fresh⟩ v.held
    rcases iget_ok ht with ⟨hn,rfl⟩ | ⟨hn,h0,rfl⟩
    · refine hg.of_slot i hb hg.inode hg.store hg.scans hg.file hg.proc ?_ (hg.idle i)
        fun j hj => ⟨Function.update_of_ne hj _ _,hother j hj⟩
      rw [hmine,show (s.table.setInode i _).inode i = _ from Function.update_self _ _ _]
      refine ⟨(hg.slot i).refs.cons _,?_,(hg.slot i).name,?_⟩
      · exact forall_mem_cons.mpr ⟨hn.2.2,(hg.slot i).inum⟩
      · exact forall_mem_cons.mpr ⟨nofun,(hg.slot i).seen⟩
    · have hrefs : (s.table.inode i).refs = [] := by
        rw [← length_eq_zero_iff,← (hg.base.sync i).ref_eq]
        exact h0
      have hunused := mt hg.used.mpr (not_not.mpr hrefs)
      rw [not_or,not_not] at hunused
      have hnil : mine v.held i = [] := by
        rw [eq_nil_iff_forall_not_mem]
        intro g hg'
        exact hunused.2 ⟨g,mem_mine.mp hg'⟩
      refine hg.of_slot i hb hg.inode hg.store hg.scans hg.file hg.proc ?_ (hg.idle i)
        fun j hj => ⟨Function.update_of_ne hj _ _,hother j hj⟩
      rw [hmine,hnil,show (s.table.setInode i _).inode i = _ from Function.update_self _ _ _,
        show (v.get i k).others i = [] from hunused.1]
      refine ⟨.refl _,?_,nofun,?_⟩
      · exact forall_mem_singleton.mpr rfl
      · exact forall_mem_singleton.mpr nofun
  cases hc : s.table.cached ROOTDEV k with
  | some i => exact .inr ⟨i,_,by rw [Fs.iget,hc],hok (by rw [Fs.iget,hc])⟩
  | none =>
    cases he : s.table.empty with
    | some i => exact .inr ⟨i,_,by rw [Fs.iget,hc,he],hok (by rw [Fs.iget,hc,he])⟩
    | none =>
      refine .inl ⟨fun i => hg.used.mp fun hrefs => ?_,by rw [Fs.iget,hc,he]⟩
      have h0 := find?_eq_none.mp he i (mem_finRange i)
      rw [(hg.base.sync i).ref_eq,hrefs] at h0
      exact h0 rfl

end Good
end Xv6.Fs
