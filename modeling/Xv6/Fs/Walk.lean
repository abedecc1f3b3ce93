import Xv6.Fs.Rules

/-! Path resolution. `skipelem` takes a path apart at its slashes, and `namex` looks the elements up
one after another, with the inode it has reached locked only while it looks. -/
namespace Xv6.Fs
open List Option View Files

open Itable (Ref)
open Lib.Prog (wp_act wp_bind wp_ite)

/-! ### The elements of a path -/

/-- The parts of a path between its slashes that are not empty, cut to `DIRSIZ` bytes. -/
def comps (path : List UInt8) : List (List UInt8) :=
  ((path.splitOn slash).filter (· ≠ [])).map (·.take DIRSIZ)

/-- What `skipelem` returns when it is called until it returns 0; the first argument bounds the
number of calls. -/
def elems : ℕ → List UInt8 → List (List UInt8)
  | 0,_ => []
  | fuel+1,path =>
    match skipelem path with
    | none => []
    | some (rest,elem) => elem::elems fuel rest

lemma comps_nil : comps [] = [] := rfl

lemma comps_slash (path : List UInt8) : comps (slash::path) = comps path := by
  have h : (slash::path).splitOn slash = []::path.splitOn slash := by
    simp [splitOn,splitOnP_cons_eq_if_modifyHead]
  rw [comps,h]
  rfl

lemma comps_dropWhile (path : List UInt8) :
    comps (path.dropWhile (· = slash)) = comps path := by
  induction path with
  | nil => rfl
  | cons a path ih =>
    by_cases ha : a = slash
    · rw [dropWhile_cons_of_pos (by simpa using ha),ih,ha,comps_slash]
    · rw [dropWhile_cons_of_neg (by simpa using ha)]

lemma comps_append {a : List UInt8} (ha : a ≠ []) (hs : ∀ c ∈ a, c ≠ slash) (rest : List UInt8)
    (hrest : rest = [] ∨ rest.head? = some slash) :
    comps (a++rest) = a.take DIRSIZ::comps rest := by
  have hsep : ∀ c ∈ a, (c == slash) = false := by
    intro c hc
    simpa using hs c hc
  cases rest with
  | nil =>
    rw [append_nil,comps,splitOn,splitOnP_eq_singleton hsep]
    simp [ha,comps_nil]
  | cons b rest =>
    obtain rfl : b = slash := by
      rcases hrest with h | h
      · cases h
      · exact some.inj h
    rw [comps_slash,comps,splitOn,
      splitOnP_append_cons_of_forall_mem hsep slash (by simp) rest]
    simp [ha,comps,splitOn]

lemma comps_cons {a : UInt8} (ha : a ≠ slash) (tail : List UInt8) :
    comps (a::tail) = ((a::tail).takeWhile (· ≠ slash)).take DIRSIZ::
      comps ((a::tail).dropWhile (· ≠ slash)) := by
  have happ := takeWhile_append_dropWhile (p := fun c : UInt8 => decide (c ≠ slash))
    (l := a::tail)
  have hne : (a::tail).takeWhile (· ≠ slash) ≠ [] := by
    rw [takeWhile_cons_of_pos (by simpa using ha)]
    exact cons_ne_nil _ _
  have hmem : ∀ c ∈ (a::tail).takeWhile (· ≠ slash), c ≠ slash := by
    intro c hc
    simpa using mem_takeWhile_imp hc
  have hrest : (a::tail).dropWhile (· ≠ slash) = [] ∨
      ((a::tail).dropWhile (· ≠ slash)).head? = some slash := by
    have hhead := head?_dropWhile_not (fun c : UInt8 => decide (c ≠ slash)) (a::tail)
    cases hd : (a::tail).dropWhile (· ≠ slash) with
    | nil => exact .inl rfl
    | cons b rest =>
      rw [hd] at hhead
      exact .inr (by simpa using hhead)
  have hcomps := comps_append hne hmem _ hrest
  rwa [happ] at hcomps

lemma head_dropWhile (path : List UInt8) : path.dropWhile (· = slash) = [] ∨
    ∃ a rest, a ≠ slash ∧ path.dropWhile (· = slash) = a::rest := by
  have h := head?_dropWhile_not (fun c : UInt8 => decide (c = slash)) path
  cases hd : path.dropWhile (· = slash) with
  | nil => exact .inl rfl
  | cons a rest =>
    rw [hd] at h
    exact .inr ⟨a,rest,by simpa using h,rfl⟩

/-- `skipelem` finds the first element; the rest of the path is empty or begins with an element. -/
lemma skipelem_cases (path : List UInt8) : (skipelem path = none ∧ comps path = []) ∨
    ∃ rest elem, skipelem path = some (rest,elem) ∧ comps path = elem::comps rest ∧
      rest.length < path.length ∧ (rest = [] ↔ comps rest = []) := by
  rw [← comps_dropWhile path]
  rcases head_dropWhile path with h | ⟨a,tail,ha,h⟩
  · left
    rw [skipelem,h]
    exact ⟨rfl,rfl⟩
  · right
    refine ⟨_,_,by rw [skipelem,h]; exact if_neg (cons_ne_nil _ _),?_,?_,?_⟩
    · rw [h,comps_dropWhile]
      exact comps_cons ha tail
    · have hlen : (a::tail).length ≤ path.length := by
        rw [← h]
        exact (dropWhile_sublist _).length_le
      have h₁ : ((a::tail).dropWhile (· ≠ slash)).length ≤ tail.length := by
        rw [dropWhile_cons_of_pos (by simpa using ha)]
        exact (dropWhile_sublist _).length_le
      have h₂ := (dropWhile_sublist (fun c : UInt8 => decide (c = slash))
        (l := (a::tail).dropWhile (· ≠ slash))).length_le
      simp only [length_cons] at hlen
      omega
    · refine ⟨fun hnil => by rw [hnil]; rfl,fun hnil => ?_⟩
      rcases head_dropWhile ((a::tail).dropWhile (· ≠ slash)) with hd | ⟨b,rest,hb,hd⟩
      · exact hd
      · rw [hd,comps_cons hb] at hnil
        cases hnil

/-- Iterating `skipelem` yields the elements of the path, and then ends. -/
lemma elems_eq (fuel : ℕ) (path : List UInt8) (h : path.length < fuel) :
    elems fuel path = comps path := by
  induction fuel generalizing path with
  | zero => omega
  | succ fuel ih =>
    rw [elems]
    rcases skipelem_cases path with ⟨hs,hc⟩ | ⟨rest,elem,hs,hc,hlt,-⟩
    · rw [hs,hc]
    · rw [hs,hc]
      dsimp only
      rw [ih rest (by omega)]

namespace Files
variable (s : Files)

/-- The inode reached by looking up the names one after another, each in a directory. -/
def walk : ℕ → List (List UInt8) → Option ℕ
  | k,[] => some k
  | k,name::rest =>
    if (s.inode k).type = T_DIR then (s.dirMap k (cut name)).bind fun i => walk i rest else none

/-- The directory that all names but the last lead to, with the last one. -/
def parent (k : ℕ) (names : List (List UInt8)) : Option (ℕ×List UInt8) :=
  names.getLast?.bind fun name => (s.walk k names.dropLast).bind fun dp =>
    if (s.inode dp).type = T_DIR then some (dp,name) else none

/-- What `namex` finds; `name` is what the caller's buffer holds already. -/
def namex (nameiparent : Bool) (k : ℕ) (names : List (List UInt8)) (name : List UInt8) :
    Option (ℕ×List UInt8) :=
  if nameiparent then s.parent k names else (s.walk k names).map fun i => (i,names.getLastD name)

variable {s} {k i : ℕ} {name elem : List UInt8} {names : List (List UInt8)} {np : Bool}

lemma walk_append (l names : List (List UInt8)) :
    s.walk k (l++names) = (s.walk k l).bind fun i => s.walk i names := by
  induction l generalizing k with
  | nil => rfl
  | cons elem l ih =>
    rw [cons_append,walk,walk]
    split
    · cases s.dirMap k (cut elem) with
      | none => rfl
      | some i => exact ih
    · rfl

lemma parent_eq_some : s.parent k names = some (i,name) ↔ names.getLast? = some name ∧
    s.walk k names.dropLast = some i ∧ (s.inode i).type = T_DIR := by
  simp only [parent,bind_eq_some_iff,ite_none_right_eq_some,some.injEq,
    Prod.mk.injEq]
  constructor
  · rintro ⟨_,hlast,_,hwalk,hty,rfl,rfl⟩
    exact ⟨hlast,hwalk,hty⟩
  · rintro ⟨hlast,hwalk,hty⟩
    exact ⟨_,hlast,_,hwalk,hty,rfl,rfl⟩

/-- The inode that the whole path names is the one that its last name has in the parent. -/
lemma parent_lookup (h : s.parent k names = some (i,name)) :
    s.dirMap i (cut name) = s.walk k names := by
  obtain ⟨hlast,hwalk,hty⟩ := parent_eq_some.mp h
  rw [← dropLast_append_getLast? name hlast,walk_append,hwalk,bind_some,walk,if_pos hty]
  cases s.dirMap i (cut name) <;> rfl

lemma namex_nil : s.namex np k [] name = if np then none else some (k,name) := by
  cases np <;> rfl

lemma namex_cons : s.namex np k (elem::names) name =
    if (s.inode k).type ≠ T_DIR then none
    else if np && names.isEmpty then some (k,elem)
    else (s.dirMap k (cut elem)).bind fun i => s.namex np i names elem := by
  cases np with
  | false =>
    rw [namex,if_neg Bool.false_ne_true,walk,Bool.false_and,if_neg Bool.false_ne_true]
    by_cases hty : (s.inode k).type = T_DIR
    · rw [if_pos hty,if_neg (not_not.mpr hty)]
      cases s.dirMap k (cut elem) with
      | none => rfl
      | some i =>
        rw [bind_some,bind_some,namex,if_neg Bool.false_ne_true,getLastD_cons]
    · rw [if_neg hty,if_pos hty]
      rfl
  | true =>
    rw [namex,if_pos rfl,Bool.true_and]
    cases names with
    | nil => exact (ite_not ..).symm
    | cons b l =>
      have hlast : (elem::b::l).getLast? = some (l.getLast?.getD b) := by
        rw [getLast?_cons_cons,getLast?_cons]
      rw [if_neg (c := (b::l).isEmpty = true) Bool.false_ne_true,parent,hlast,bind_some,
        dropLast_cons_cons,walk]
      by_cases hty : (s.inode k).type = T_DIR
      · rw [if_pos hty,if_neg (not_not.mpr hty)]
        cases s.dirMap k (cut elem) with
        | none => rfl
        | some i =>
          rw [bind_some,bind_some,namex,if_pos rfl,parent,getLast?_cons]
          rfl
      · rw [if_neg hty,if_pos hty]
        rfl

end Files

/-- A directory tree: the entries of the directories and the references that the call finds are for
inodes that are in use and stay. -/
structure View.Tree (v : View) : Prop where
  root : v.Kept ROOTINO
  dirs : v.files.Directories
  named : ∀ k name i, (v.inode k).type = T_DIR → v.files.dirMap k name = some i → v.Kept i
  found : ∀ i, v.others i ≠ [] → (v.inode (v.name i)).type ≠ 0

/-- The current directory of process `p` is one of the references that the call finds. -/
def View.HasCwd (v : View) (p : Fin NPROC) : Prop :=
  ∃ i, (v.proc p).cwd = some i ∧ (p.val,.idle) ∈ v.others i

/-- Where the walk along a path begins. -/
def View.start (v : View) (p : Fin NPROC) (path : List UInt8) : ℕ :=
  if path.head? = some slash then ROOTINO else ((v.proc p).cwd.map v.name).getD 0

namespace Solo
variable {sb : DiskSb} {p : Fin NPROC} {E : View → Stop → Prop} {v : View} {ip : Slot} {k : ℕ}
variable {m : Mode} {np : Bool}

/-- What is left to show after `namex`: for the inode found, a reference to it is new, and nothing
else has changed. -/
def Found (v : View) (o : Option (ℕ×List UInt8)) (Q : Option (Slot×List UInt8) → View → Prop) :
    Prop :=
  match o with
  | none => Q none v
  | some (k,name) => ∀ i m, m.stage = .idle → (v.hold ⟨i,k,m⟩).Wf → v.Kept k →
      Q (some (i,name)) (v.hold ⟨i,k,m⟩)

/-- `iget` may fail while the call has at most one more reference than in `v`. -/
def MayFill (E : View → Stop → Prop) (v : View) : Prop :=
  ∀ w, w.others = v.others → (w.held = v.held ∨ ∃ g, w.held = g::v.held) → w.TableFull →
    E w (.panic "iget: no inodes")

variable {Q : Option (Slot×List UInt8) → View → Prop} {path : List UInt8}

lemma wp_namexLoop (ht : v.Tree) (hu : v.Unlocked) (hE : MayFill E v) (fuel : ℕ)
    {name : List UInt8} (hfuel : path.length < fuel) (hw : (v.hold ⟨ip,k,m⟩).Wf)
    (hm : m.stage = .idle) (hk : v.Kept k) (hQ : Found v (v.files.namex np k (comps path) name) Q) :
    (namexLoop np fuel ip path name).Wp (spec sb p E) (v.hold ⟨ip,k,m⟩) Q := by
  induction fuel generalizing ip k m path name with
  | zero => omega
  | succ fuel ih =>
    rw [namexLoop]
    rcases skipelem_cases path with ⟨hs,hc⟩ | ⟨rest,elem,hs,hc,hlt,hnil⟩
    · rw [hs]
      rw [hc,namex_nil] at hQ
      cases np with
      | false => exact hQ ip m hm hw hk
      | true =>
        refine wp_bind (wp_iput_keep mem_hold hm (View.Kept.not_last hk hw) ?_)
        rw [hold_drop]
        exact hQ
    · rw [hs]
      rw [hc,namex_cons] at hQ
      refine wp_ilock hu hm hk.1 (wp_act ⟨k,mem_hold,?_⟩)
      refine wp_ite (fun hty => wp_putback hk hw.hold_mode ?_) fun hty => ?_
      · rwa [if_pos (by exact hty)] at hQ
      rw [if_neg (by exact hty)] at hQ
      have hempty : rest.isEmpty = (comps rest).isEmpty := by
        rw [Bool.eq_iff_iff,List.isEmpty_iff,List.isEmpty_iff]
        exact hnil
      rw [hempty]
      refine wp_ite (fun hlast => ?_) fun hlast => ?_
      · rw [if_pos hlast] at hQ
        refine wp_act ⟨k,mem_hold,?_⟩
        rw [hold_move]
        exact hQ ip .seen rfl hw.hold_mode hk
      rw [if_neg hlast] at hQ
      have hdir : (v.inode k).type = T_DIR := not_not.mp hty
      refine wp_dirlookup mem_hold hdir (ht.dirs k hdir) (fun hnone => wp_putback hk hw.hold_mode ?_)
        fun i j hsome hslot => ⟨hE _ rfl (.inr ⟨_,rfl⟩),fun next hnext => ?_⟩
      · have : v.files.dirMap k (cut elem) = none := hnone
        rwa [this] at hQ
      · have hi : v.files.dirMap k (cut elem) = some i := hsome
        rw [hi,bind_some] at hQ
        refine wp_putback_below hk hnext (by simp) ?_
        exact ih (by omega) hnext.swap.tail rfl (ht.named k _ i hdir hi) hQ

lemma wp_namex (ht : v.Tree) (hu : v.Unlocked) (hE : MayFill E v) (hcwd : v.HasCwd p)
    (hQ : Found v (v.files.namex np (v.start p path) (comps path) []) Q) :
    (namex np path).Wp (spec sb p E) v Q := by
  obtain ⟨i,hi,hmem⟩ := hcwd
  unfold namex
  refine wp_ite (fun hroot => ?_) fun hrel => ?_
  · rw [start,if_pos hroot] at hQ
    refine wp_act ⟨hE v rfl (.inl rfl),fun j hj => ?_⟩
    exact wp_namexLoop ht hu hE _ (Nat.lt_succ_self _) hj rfl ht.root hQ
  · rw [start,if_neg hrel,hi] at hQ
    refine wp_act ⟨i,hi,hmem,fun hi' => ?_⟩
    have hne : v.others i ≠ [] := ne_nil_of_mem hmem
    exact wp_namexLoop ht hu hE _ (Nat.lt_succ_self _) hi' rfl
      ⟨ht.found i hne,.inr (.inl ⟨i,hne,rfl⟩)⟩ hQ

lemma wp_namei {Q : Option Slot → View → Prop} (ht : v.Tree)
    (hu : v.Unlocked) (hE : MayFill E v) (hcwd : v.HasCwd p)
    (hnone : v.files.walk (v.start p path) (comps path) = none → Q none v)
    (hsome : ∀ k i m, v.files.walk (v.start p path) (comps path) = some k → m.stage = .idle →
      (v.hold ⟨i,k,m⟩).Wf → v.Kept k → Q (some i) (v.hold ⟨i,k,m⟩)) :
    (namei path).Wp (spec sb p E) v Q := by
  refine wp_bind (wp_namex ht hu hE hcwd ?_)
  rw [Files.namex,if_neg Bool.false_ne_true]
  cases hw : v.files.walk (v.start p path) (comps path) with
  | none => exact hnone hw
  | some k => exact fun i m => hsome k i m hw

lemma wp_nameiparent (ht : v.Tree) (hu : v.Unlocked) (hE : MayFill E v) (hcwd : v.HasCwd p)
    (hnone : v.files.parent (v.start p path) (comps path) = none → Q none v)
    (hsome : ∀ d name i m, v.files.parent (v.start p path) (comps path) = some (d,name) →
      m.stage = .idle → (v.hold ⟨i,d,m⟩).Wf → v.Kept d → Q (some (i,name)) (v.hold ⟨i,d,m⟩)) :
    (nameiparent path).Wp (spec sb p E) v Q := by
  refine wp_namex ht hu hE hcwd ?_
  rw [Files.namex,if_pos rfl]
  cases hp : v.files.parent (v.start p path) (comps path) with
  | none => exact hnone hp
  | some r => exact fun i m => hsome r.1 r.2 i m hp

end Solo

/-- Nothing has changed from `s` to `t`, except that there is one more reference to the entry that
is returned. No inode is locked. -/
structure Same (s t : State) (o : Option Slot) : Prop where
  dinode : t.dinode = s.dinode
  store : t.store = s.store
  file : t.file = s.file
  proc : t.proc = s.proc
  ref : ∀ i, (t.table.inode i).ref = (s.table.inode i).ref+if o = some i then 1 else 0
  inum : ∀ i, 0 < (s.table.inode i).ref → (t.table.inode i).inum = (s.table.inode i).inum
  unlocked : ∀ i, (t.table.inode i).holder = none

/-- At most one entry of the inode table is free. -/
def State.TableShort (s : State) : Prop :=
  ∀ i j, (s.table.inode i).ref = 0 → (s.table.inode j).ref = 0 → i = j

section
variable {sb : DiskSb} {p : Fin NPROC} {s t : State}

lemma Same.none (h : Quiet sb p s) (ht : Good sb p s.view t) : Same s t none where
  dinode := ht.inode
  store := ht.store
  file := ht.file
  proc := ht.proc
  ref i := by
    rw [ht.ref_eq,h.good.ref_eq]
    rfl
  inum i hi := (ht.slot i).name (h.refs_ne.mpr hi)
  unlocked := ht.unlocked fun _ hg => nomatch hg

lemma Same.some {i : Slot} {k : ℕ} {m : Mode} (h : Quiet sb p s) (hm : m.stage = .idle)
    (ht : Good sb p (s.view.hold ⟨i,k,m⟩) t) : Same s t (some i) where
  dinode := ht.inode
  store := ht.store
  file := ht.file
  proc := ht.proc
  ref j := by
    rw [ht.ref_eq,h.good.ref_eq]
    by_cases hj : j = i
    · subst hj
      rw [if_pos rfl,hold,mine_cons_self (h := ⟨j,k,m⟩)]
      exact Nat.add_right_comm ..
    · rw [if_neg (fun he => hj (some.inj he).symm),hold,mine_cons_ne hj]
      rfl
  inum j hj := (ht.slot j).name (h.refs_ne.mpr hj)
  unlocked := by
    refine ht.unlocked (forall_mem_cons.mpr ⟨?_,fun _ hg => absurd hg not_mem_nil⟩)
    rw [hm]
    rfl

lemma Quiet.namex_good (h : Quiet sb p s) (ht : s.view.Tree) (np : Bool) (path : List UInt8) :
    ((namex np path).run (eval sb p) s = .error (.panic "iget: no inodes") ∧
      s.TableShort) ∨
    (∃ t, (namex np path).run (eval sb p) s = .ok (none,t) ∧ Good sb p s.view t ∧
      s.view.files.namex np (s.view.start p path) (comps path) [] = none) ∨
    ∃ i k m name t, (namex np path).run (eval sb p) s = .ok (some (i,name),t) ∧
      m.stage = .idle ∧ (s.view.hold ⟨i,k,m⟩).Wf ∧ s.view.Kept k ∧
      Good sb p (s.view.hold ⟨i,k,m⟩) t ∧
      s.view.files.namex np (s.view.start p path) (comps path) [] = some (k,name) := by
  let E (w : View) (e : Stop) : Prop := e = .panic "iget: no inodes" ∧ s.TableShort
  have hE : Solo.MayFill E s.view := by
    intro w ho hh hfull
    refine ⟨rfl,fun i j hi hj => ?_⟩
    have hslot : ∀ i, (s.table.inode i).ref = 0 → ∃ g ∈ w.held, g.slot = i := by
      intro i hi
      refine (hfull i).resolve_left fun hne => ?_
      rw [ho] at hne
      exact absurd hi (h.refs_ne.mp hne).ne'
    obtain ⟨a,ha,rfl⟩ := hslot i hi
    obtain ⟨b,hb,rfl⟩ := hslot j hj
    rcases hh with hh | ⟨g,hh⟩
    · rw [hh] at ha
      cases ha
    · rw [hh] at ha hb
      rw [mem_singleton.mp ha,mem_singleton.mp hb]
  have hx : (Fs.namex np path).Wp (Solo.spec sb p E) s.view fun o w =>
      (o = none ∧ w = s.view ∧
        s.view.files.namex np (s.view.start p path) (comps path) [] = none) ∨
      ∃ i k m name, o = some (i,name) ∧ w = s.view.hold ⟨i,k,m⟩ ∧ m.stage = .idle ∧
        (s.view.hold ⟨i,k,m⟩).Wf ∧ s.view.Kept k ∧
        s.view.files.namex np (s.view.start p path) (comps path) [] = some (k,name) := by
    refine Solo.wp_namex ht (fun _ hg => nomatch hg) hE h.cwd ?_
    cases hf : s.view.files.namex np (s.view.start p path) (comps path) [] with
    | none => exact .inl ⟨rfl,rfl,rfl⟩
    | some r => exact fun i m hm hw hk => .inr ⟨i,r.1,m,r.2,rfl,rfl,hm,hw,hk,rfl⟩
  rcases Solo.run h.good hx with ⟨e,w,he,rfl,hs⟩ | ⟨o,t,w,ho,hg,hw⟩
  · exact .inl ⟨he,hs⟩
  · rcases hw with ⟨rfl,rfl,hnone⟩ | ⟨i,k,m,name,rfl,rfl,hm,hw,hk,hsome⟩
    · exact .inr (.inl ⟨t,ho,hg,hnone⟩)
    · exact .inr (.inr ⟨i,k,m,name,t,ho,hm,hw,hk,hg,hsome⟩)

lemma Quiet.namex (h : Quiet sb p s) (ht : s.view.Tree) (np : Bool) (path : List UInt8) :
    ((namex np path).run (eval sb p) s = .error (.panic "iget: no inodes") ∧
      s.TableShort) ∨
    ∃ o t, (namex np path).run (eval sb p) s = .ok (o,t) ∧
      Same s t (o.map Prod.fst) ∧ o.map (fun r => ((t.table.inode r.1).inum,r.2)) =
        s.view.files.namex np (s.view.start p path) (comps path) [] := by
  rcases h.namex_good ht np path with he | ⟨t,ho,hg,hnone⟩ | ⟨i,k,m,name,t,ho,hm,-,-,hg,hsome⟩
  · exact .inl he
  · exact .inr ⟨none,t,ho,Same.none h hg,hnone.symm⟩
  · refine .inr ⟨some (i,name),t,ho,Same.some h hm hg,?_⟩
    rw [hsome,map_some,hg.inum mem_hold]

end

/-- Path resolution, for every path, in every directory tree. -/
theorem path_resolution (sb : DiskSb) (p : Fin NPROC) (s : State) (h : Quiet sb p s)
    (ht : s.view.Tree) (path : List UInt8) :
    (∀ fuel, path.length < fuel → elems fuel path = comps path) ∧
    (((namei path).run (eval sb p) s = .error (.panic "iget: no inodes") ∧
        s.TableShort) ∨
      ∃ o t, (namei path).run (eval sb p) s = .ok (o,t) ∧ Same s t o ∧
        o.map (fun i => (t.table.inode i).inum) =
          s.view.files.walk (s.view.start p path) (comps path)) ∧
    (((nameiparent path).run (eval sb p) s = .error (.panic "iget: no inodes") ∧
        s.TableShort) ∨
      ∃ o t, (nameiparent path).run (eval sb p) s = .ok (o,t) ∧
        Same s t (o.map Prod.fst) ∧
        o.map (fun r => ((t.table.inode r.1).inum,r.2)) =
          s.view.files.parent (s.view.start p path) (comps path) ∧
        ∀ i name, o = some (i,name) → ∃ r,
          s.view.files.dirlookup sb (t.table.inode i).inum name =
            .ok (r,s.view.files) ∧
          r.map Prod.fst = s.view.files.walk (s.view.start p path) (comps path)) := by
  refine ⟨fun fuel hfuel => elems_eq fuel path hfuel,?_,?_⟩
  · rcases h.namex ht false path with ⟨he,hs⟩ | ⟨o,t,ho,hsame,hwalk⟩
    · exact .inl ⟨by rw [namei,Lib.Prog.run_bind,he]; rfl,hs⟩
    · refine .inr ⟨o.map Prod.fst,t,by rw [namei,Lib.Prog.run_bind,ho]; rfl,hsame,?_⟩
      have hmap := congrArg (Option.map Prod.fst) hwalk
      rw [Files.namex,if_neg Bool.false_ne_true,Option.map_map,Option.map_map] at hmap
      rw [Option.map_map]
      exact hmap.trans (map_id' ..)
  · rcases h.namex ht true path with ⟨he,hs⟩ | ⟨o,t,ho,hsame,hparent⟩
    · exact .inl ⟨he,hs⟩
    · refine .inr ⟨o,t,ho,hsame,hparent,?_⟩
      rintro i name rfl
      have hp : s.view.files.parent (s.view.start p path) (comps path) =
          some ((t.table.inode i).inum,name) := hparent.symm
      obtain ⟨r,hr,hmap,-⟩ := dirlookup_map h.good.image ht.dirs (parent_eq_some.mp hp).2.2 name
      exact ⟨r,hr,hmap.trans (parent_lookup hp)⟩

lemma boot_refs (disk : ℕ → Dinode) (st : Store) (i : Slot) :
    (i = slot0 ∧ ((boot disk st).state.table.inode i).refs = [(proc0.val,.idle)]) ∨
      ((boot disk st).state.table.inode i).refs = [] := by
  by_cases hi : i = slot0
  · subst hi
    exact .inl ⟨rfl,rfl⟩
  · right
    dsimp only [boot]
    rw [Function.update_of_ne hi]
    rfl

lemma boot_cwd (disk : ℕ → Dinode) (st : Store) {p : Fin NPROC} {i : Slot}
    (h : ((boot disk st).state.proc p).cwd = some i) : p = proc0 ∧ i = slot0 := by
  by_cases hp : p = proc0
  · subst hp
    exact ⟨rfl,(some.inj h).symm⟩
  · dsimp only [boot] at h
    rw [Function.update_of_ne hp] at h
    cases h

lemma Quiet.boot {sb : DiskSb} {disk : ℕ → Dinode} {st : Store}
    (h : Image sb disk st) : Quiet sb proc0 (boot disk st).state where
  base := Base.boot h
  idle i r hr := by
    rcases boot_refs disk st i with ⟨-,hi⟩ | hi
    · rw [hi] at hr
      obtain rfl := mem_singleton.mp hr
      rfl
    · rw [hi] at hr
      cases hr
  scans := rfl
  cwd := ⟨slot0,rfl,mem_singleton.mpr rfl⟩

lemma small_tree : (boot smallDisk smallStore).state.view.Tree where
  root := ⟨by decide,.inl (by decide)⟩
  dirs := small_directories
  named k name i hk hi := by
    have hroot : k = ROOTINO := by
      by_contra hne
      have hk' : (smallDisk k).type = T_DIR := hk
      rw [smallDisk,if_neg hne] at hk'
      exact absurd hk' (by decide)
    subst hroot
    have hlook : Lib.Slots.lookup [some ([46],ROOTINO),some ([46,46],ROOTINO)] name = some i := by
      rw [← small_slots]
      exact hi
    obtain ⟨o,ho,hoi⟩ := exists_of_findSome?_eq_some hlook
    have hi : i = ROOTINO := by
      rcases mem_pair.mp ho with rfl | rfl
      all_goals
        rw [bind_some] at hoi
        split at hoi <;> cases hoi
        rfl
    subst hi
    exact ⟨by decide,.inl (by decide)⟩
  found i hi := by
    rcases boot_refs smallDisk smallStore i with ⟨rfl,-⟩ | hnil
    · decide
    · exact absurd hnil hi

lemma small_fits (k : ℕ) : ((boot smallDisk smallStore).state.dinode k).Fits := by
  show (smallDisk k).Fits
  unfold smallDisk
  split
  · exact ⟨by decide,by decide,by decide,by decide,by decide,by decide⟩
  · exact ⟨by decide,by decide,by decide,by decide,by decide,by decide⟩

/-- The path `/..` on the small image. -/
theorem path_resolution_small : ∃ o t,
    (namei [47,46,46]).run (eval smallSb proc0) (boot smallDisk smallStore).state = .ok (o,t) ∧
    Same (boot smallDisk smallStore).state t o ∧
    o.map (fun i => (t.table.inode i).inum) = some ROOTINO := by
  rcases (path_resolution smallDiskSb proc0 (boot smallDisk smallStore).state
    (.boot small_image) small_tree [47,46,46]).2.1 with ⟨-,hs⟩ | ⟨o,t,ho,hsame,hwalk⟩
  · exact absurd (hs ⟨1,by decide⟩ ⟨2,by decide⟩ rfl rfl) (by decide)
  · refine ⟨o,t,ho,hsame,hwalk.trans ?_⟩
    decide +kernel

end Xv6.Fs
