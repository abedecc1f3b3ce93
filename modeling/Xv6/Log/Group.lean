import Xv6.Log.Pins
import Xv6.Log.Crash

/-! Group commit: each transaction on disk holds whole operations, with the contents their
blocks had when the last operation of the group ended. -/
namespace Xv6.Log
open Xv6.Bio Xv6.Lib
open Function (update update_self update_of_ne update_eq_self_iff)

/-- How processes use buffers: they leave the log area alone and modify a block either inside
an operation, or directly when it is not part of the current group. -/
def Uses (L : Layout) (s : Sys) : Event → Prop
  | .buffer p (.store b _) => ¬L.Area b ∧ (s.pc p = .inOp ∨ b ∉ s.lh.blocks)
  | .buffer _ (.bwrite b) => ¬L.Area b
  | .logWrite _ b => ¬L.Area b ∧ b < 2^32
  | _ => True

instance (L : Layout) (s : Sys) : (e : Event) → Decidable (Uses L s e)
  | .buffer p (.store b _) =>
    inferInstanceAs (Decidable (¬L.Area b ∧ (s.pc p = .inOp ∨ b ∉ s.lh.blocks)))
  | .buffer _ (.bwrite b) => inferInstanceAs (Decidable ¬L.Area b)
  | .logWrite _ b => inferInstanceAs (Decidable (¬L.Area b ∧ b < 2^32))
  | .buffer _ (.bget _) | .buffer _ (.lock _) | .buffer _ (.fill _) | .buffer _ (.memmove _ _)
  | .buffer _ (.putHead _) | .buffer _ (.bunpin _) | .buffer _ (.unlock _) | .buffer _ (.drop _)
  | .beginOp _ | .beginTest _ | .wake _ | .endOp _ | .commit _ => isTrue trivial

lemma Uses.logs {L : Layout} {s : Sys} : {e : Event} → Uses L s e → Logs L e
  | .logWrite _ _,h => h
  | .buffer _ _,_ | .beginOp _,_ | .beginTest _,_ | .wake _,_ | .endOp _,_ | .commit _,_ => trivial

section Invariant
variable (L : Layout) (s : Sys)

/-- Data block `u` of the log holds what the logged block `u` held when the group was closed. -/
def Copied (u : ℕ) : Prop :=
  s.cache.content (L.start+u+1) = s.snap (s.lh.block u) ∧
  s.cache.disk (L.start+u+1) = s.snap (s.lh.block u)

/-- The transaction on disk is the group `g`: the blocks logged by its operations, as they were
when it was closed. -/
structure IsGroup (L : Layout) (d snap : Disk) (hist : List Rec) (g : ℕ) : Prop where
  lt_size : (head L d).n < L.size
  sound : ∀ w ∈ installs L d, w.2 = snap w.1 ∧ ∃ r ∈ hist, r.epoch = g ∧ r.block = w.1
  complete : ∀ r ∈ hist, r.epoch = g → (r.block,snap r.block) ∈ installs L d

def Recorded : Prop := IsGroup L s.cache.disk s.snap s.hist s.group

def HeadReady (q : Pid) : Prop :=
  s.cache.Holds q L.start ∧ ∃ hb, s.cache.content L.start = s.lh.fill hb

/-- What holds before step `k` of a phase of the commit done by `q`. The steps that count are
the copy and the write: 6 and 7 in a loop body, 3 and 4 in `write_head`. -/
def At (q : Pid) : Phase → ℕ → Prop
  | .log t,k => (∀ u < t, Copied L s u) ∧
      (k = 7 → s.cache.Holds q (L.start+t+1) ∧
        s.cache.content (L.start+t+1) = s.snap (s.lh.block t)) ∧
      (7 < k → Copied L s t) ∧ (head L s.cache.disk).n = 0
  | .head,k => (∀ u < s.lh.n, Copied L s u) ∧ (k = 4 → HeadReady L s q) ∧
      (k ≤ 4 → (head L s.cache.disk).n = 0) ∧ (4 < k → Recorded L s)
  | .install _,_ => (∀ u < s.lh.n, Copied L s u) ∧ Recorded L s
  | .erase,k => (k = 4 → HeadReady L s q) ∧
      (k ≤ 4 → Recorded L s) ∧ (4 < k → (head L s.cache.disk).n = 0)

structure Inv : Prop extends Pins L s where
  snapped : s.committing = true → ∀ b, 0 < s.pins b → s.cache.content b = s.snap b
  place : ∀ q ph k, s.pc q = .commit ph k → At L s q ph k
  clear : (∀ q ph k, s.pc q ≠ .commit ph k) → (head L s.cache.disk).n = 0
  panicked : s.panicked ≠ some "log.committing"

end Invariant

section Drift
variable {L : Layout} {s t : Sys} {p q : Pid}

/-- What a step on buffers may do to the blocks `commit` relies on. -/
structure Drift (L : Layout) (s t : Sys) (q : Pid) : Prop where
  ctl : t.toCtl = s.toCtl
  snap : t.snap = s.snap
  pins : t.pins = s.pins
  disk : ∀ x, L.Area x → t.cache.disk x = s.cache.disk x
  content : ∀ x, L.Area x ∨ 0 < s.pins x → t.cache.content x = s.cache.content x ∨
    t.cache.content x = s.cache.disk x ∧ s.pins x = 0 ∧ ¬s.cache.Holds q x

namespace Drift

section
variable (d : Drift L s t q)
include d

lemma lh : t.lh = s.lh := congrArg Ctl.lh d.ctl

lemma copied {u : ℕ} (hu : L.Area (L.start+u+1)) (h : Copied L s u) : Copied L t u := by
  unfold Copied at h ⊢
  rw [d.disk _ hu,d.snap,d.lh]
  refine ⟨?_,h.2⟩
  rcases d.content _ (.inl hu) with hc | ⟨hc,-,-⟩
  · rw [hc,h.1]
  · rw [hc,h.2]

lemma head_eq : head L t.cache.disk = head L s.cache.disk := by
  unfold head
  rw [d.disk _ (area_start L)]

lemma recorded (h : Recorded L s) : Recorded L t := by
  have hn := h.lt_size
  have hi : installs L t.cache.disk = installs L s.cache.disk := by
    unfold installs
    rw [d.head_eq]
    apply List.map_congr_left
    intro u hu
    have := List.mem_range.mp hu
    rw [d.disk _ ⟨by omega,by omega⟩]
  have hhist : t.hist = s.hist := congrArg Ctl.hist d.ctl
  have hgroup : t.group = s.group := congrArg Ctl.group d.ctl
  refine ⟨by rw [d.head_eq]; exact hn,?_,?_⟩
  · rw [hi,hhist,hgroup,d.snap]
    exact h.sound
  · rw [hi,hhist,hgroup,d.snap]
    exact h.complete

lemma headReady (hh : ∀ x, s.cache.Holds q x → t.cache.Holds q x)
    (h : HeadReady L s q) : HeadReady L t q := by
  obtain ⟨hq,hb,he⟩ := h
  refine ⟨hh _ hq,hb,?_⟩
  rw [d.lh,← he]
  rcases d.content _ (.inl (area_start L)) with hc | ⟨-,-,hno⟩
  · exact hc
  · exact absurd hq hno

end

lemma logArea (hc : s.toCtl.OK L) {u : ℕ} (hu : u < s.lh.n) : L.Area (L.start+u+1) := by
  have : s.lh.n < L.size := hc.lt_size
  exact ⟨by omega,by omega⟩

lemma place (d : Drift L s t q) (hh : ∀ x, s.cache.Holds q x → t.cache.Holds q x)
    (hc : s.toCtl.OK L) {ph : Phase} {k : ℕ} (hok : ph.OK s.lh.n s.group s.epoch)
    (h : At L s q ph k) : At L t q ph k := by
  cases ph with
  | log tail =>
    obtain ⟨h₁,h₂,h₃,h₄⟩ := h
    have htail : L.Area (L.start+tail+1) := logArea hc hok.1
    refine ⟨?_,?_,fun hk => d.copied htail (h₃ hk),by rw [d.head_eq]; exact h₄⟩
    · intro u hu
      exact d.copied (logArea hc (hu.trans hok.1)) (h₁ u hu)
    · intro hk
      obtain ⟨hq,he⟩ := h₂ hk
      refine ⟨hh _ hq,?_⟩
      rw [d.snap,d.lh,← he]
      rcases d.content _ (.inl htail) with hc | ⟨-,-,hno⟩
      · exact hc
      · exact absurd hq hno
  | head =>
    obtain ⟨h₁,h₂,h₃,h₄⟩ := h
    refine ⟨?_,fun hk => d.headReady hh (h₂ hk),?_,fun hk => d.recorded (h₄ hk)⟩
    · intro u hu
      rw [d.lh] at hu
      exact d.copied (logArea hc hu) (h₁ u hu)
    · intro hk
      rw [d.head_eq]
      exact h₃ hk
  | install tail =>
    refine ⟨?_,d.recorded h.2⟩
    intro u hu
    rw [d.lh] at hu
    exact d.copied (logArea hc hu) (h.1 u hu)
  | erase =>
    obtain ⟨h₁,h₂,h₃⟩ := h
    refine ⟨fun hk => d.headReady hh (h₁ hk),fun hk => d.recorded (h₂ hk),?_⟩
    intro hk
    rw [d.head_eq]
    exact h₃ hk

end Drift
end Drift

/-- A step other than the copy and the write of a phase. -/
def Phase.idle : Phase → ℕ → Prop
  | .log _,k => k ≠ 6 ∧ k ≠ 7
  | .head,k | .erase,k => k ≠ 3 ∧ k ≠ 4
  | .install _,_ => True

section Micro
variable {L : Layout} {s t : Sys} {p q : Pid} {m : Micro}

lemma Drift.next (d : Drift L s t q) (hc : s.toCtl.OK L) {ph : Phase} {k : ℕ}
    (hok : ph.OK s.lh.n s.group s.epoch) (hk : ph.idle k) (h : At L s q ph k) :
    At L t q ph (k+1) := by
  cases ph with
  | log tail =>
    obtain ⟨h₁,-,h₃,h₄⟩ := h
    have htail : L.Area (L.start+tail+1) := Drift.logArea hc hok.1
    obtain ⟨hk₆,hk₇⟩ := hk
    refine ⟨?_,fun e => absurd e (by omega),?_,by rw [d.head_eq]; exact h₄⟩
    · intro u hu
      exact d.copied (Drift.logArea hc (hu.trans hok.1)) (h₁ u hu)
    · intro hlt
      exact d.copied htail (h₃ (by omega))
  | head =>
    obtain ⟨h₁,-,h₃,h₄⟩ := h
    obtain ⟨hk₃,hk₄⟩ := hk
    refine ⟨?_,fun e => absurd e (by omega),?_,?_⟩
    · intro u hu
      rw [d.lh] at hu
      exact d.copied (Drift.logArea hc hu) (h₁ u hu)
    · intro hle
      rw [d.head_eq]
      exact h₃ (by omega)
    · intro hlt
      exact d.recorded (h₄ (by omega))
  | install tail =>
    refine ⟨?_,d.recorded h.2⟩
    intro u hu
    rw [d.lh] at hu
    exact d.copied (Drift.logArea hc hu) (h.1 u hu)
  | erase =>
    obtain ⟨-,h₂,h₃⟩ := h
    obtain ⟨hk₃,hk₄⟩ := hk
    refine ⟨fun e => absurd e (by omega),?_,?_⟩
    · intro hle
      exact d.recorded (h₂ (by omega))
    · intro hlt
      rw [d.head_eq]
      exact h₃ (by omega)

lemma mild_drift (hw : WF s.pins s.cache) (hm : m.mild) (h : s.micro p m = some t) (q : Pid) :
    Drift L s t q := by
  obtain ⟨c,pan,rfl,-,hd,he,-,-⟩ := mild_spec hw hm h
  refine ⟨rfl,rfl,rfl,fun x _ => congrFun hd x,?_⟩
  intro x _
  rcases he x with h | ⟨h,h₀,hno⟩
  · exact .inl h
  · exact .inr ⟨h,h₀,hno q⟩

end Micro

section Client
variable {L : Layout} {s t : Sys} {p q : Pid} {m : Micro}

lemma Inv.buffer (h : Inv L s) (hpins' : Pins L t) (hctl : t.toCtl = s.toCtl)
    (hpins : t.pins = s.pins) (hsnap : t.snap = s.snap)
    (hdisk : ∀ x, L.Area x → t.cache.disk x = s.cache.disk x)
    (hd : s.committing = true → ∀ q, Drift L s t q)
    (hh : ∀ q x, (s.pc q).inCommit → s.cache.Holds q x → t.cache.Holds q x)
    (hpan : t.panicked ≠ some "log.committing") : Inv L t := by
  have hpc : t.pc = s.pc := congrArg Ctl.pc hctl
  refine ⟨hpins',?_,?_,?_,hpan⟩
  · intro hc b hb
    have hc' : s.committing = true := (congrArg Ctl.committing hctl).symm.trans hc
    rw [hpins] at hb
    rw [hsnap,← h.snapped hc' b hb]
    rcases (hd hc' 0).content b (.inr hb) with he | ⟨-,h₀,-⟩
    · exact he
    · omega
  · intro q ph k hq
    rw [hpc] at hq
    have hin : (s.pc q).inCommit := by simp [hq,Pc.inCommit]
    exact (hd (h.committing hq) q).place (fun x => hh q x hin) h.ctl (h.phase_ok hq)
      (h.place q ph k hq)
  · intro hno
    rw [hpc] at hno
    unfold head
    rw [hdisk _ (area_start L)]
    exact h.clear hno

lemma client_mild (h : Inv L s) (hp : s.pc p = .out ∨ s.pc p = .inOp) (hm : m.mild)
    (hpins : Pins L t) (ht : s.micro p m = some t) : Inv L t := by
  have hd := mild_drift (L := L) h.wf hm ht
  obtain ⟨c,pan,rfl,-,hdisk,-,hpan,hh⟩ := mild_spec h.wf hm ht
  refine h.buffer hpins rfl rfl rfl (fun x _ => congrFun hdisk x) (fun _ => hd) ?_ ?_
  · intro q x hq hx
    exact (hh q x (ne_of_inCommit hp hq)).mpr hx
  · rcases hpan with rfl | rfl
    · exact h.panicked
    · simp

lemma client_store (h : Inv L s) {b : ℕ} {v : Block}
    (hu : ¬L.Area b ∧ (s.pc p = .inOp ∨ b ∉ s.lh.blocks)) (hpins : Pins L t)
    (ht : s.store p b v = some t) : Inv L t := by
  obtain ⟨c,rfl,-,hdisk,hcont,-,hh⟩ := store_effect h.wf ht
  refine h.buffer hpins rfl rfl rfl (fun x _ => congrFun hdisk x) ?_ (fun q x _ => (hh q x).mpr)
    h.panicked
  intro hcom q
  refine ⟨rfl,rfl,rfl,fun x _ => congrFun hdisk x,?_⟩
  intro x hx
  left
  -- nobody is inside an operation now, so the block is not one that `commit` deals with
  have hb : b ∉ s.lh.blocks := hu.2.resolve_left (h.ctl.not_inOp hcom p)
  have hxb : x ≠ b := by
    rintro rfl
    rcases hx with hx | hx
    · exact hu.1 hx
    · exact hb (h.pinned_mem hx)
  change c.content x = _
  rw [hcont,update_of_ne hxb]

lemma client_bwrite (h : Inv L s) {b : ℕ} (hu : ¬L.Area b) (hpins : Pins L t)
    (ht : s.micro p (.bwrite b) = some t) : Inv L t := by
  obtain ⟨c,rfl,-,hdisk,hcont,-,hh⟩ := bwrite_effect h.wf ht
  have hd (x : ℕ) (hx : L.Area x) : c.disk x = s.cache.disk x := by
    rw [hdisk,update_of_ne]
    rintro rfl
    exact hu hx
  exact h.buffer hpins rfl rfl rfl hd (fun _ q => ⟨rfl,rfl,rfl,hd,fun x _ => .inl (hcont x)⟩)
    (fun q x _ => (hh q x).mpr) h.panicked

/-- Any step of a process on its own buffers. -/
theorem client_inv (h : Inv L s) (hp : s.pc p = .out ∨ s.pc p = .inOp) (hm : m.client)
    (hu : Uses L s (.buffer p m)) (hpins : Pins L t) (ht : s.micro p m = some t) : Inv L t := by
  cases m with
  | store b v => exact client_store h hu hpins ht
  | bwrite b => exact client_bwrite h hu hpins ht
  | bget b | lock b | fill b | unlock b | drop b => exact client_mild h hp rfl hpins ht
  | memmove dst src | putHead b | bunpin b => cases hm

end Client

section Committer
variable {L : Layout} {s t : Sys} {p : Pid} {m : Micro} {k : ℕ}

/-- A step of `commit` on buffers, put together. -/
lemma Inv.commitMicro (h : Inv L s) {ph : Phase} (hp : s.pc p = .commit ph k)
    (hpins : Pins L (t.setPc p (.commit ph (k+1)))) (hctl : t.toCtl = s.toCtl)
    (hsnap : t.snap = s.snap) (hle : ∀ b, 0 < t.pins b → 0 < s.pins b)
    (hcont : ∀ b, 0 < s.pins b → t.cache.content b = s.cache.content b)
    (hat : At L t p ph (k+1)) (hpan : t.panicked ≠ some "log.committing") :
    Inv L (t.setPc p (.commit ph (k+1))) := by
  refine ⟨hpins,?_,?_,?_,hpan⟩
  · intro _ b hb
    have hb' := hle b hb
    exact (hcont b hb').trans ((h.snapped (h.committing hp) b hb').trans (congrFun hsnap b).symm)
  · intro q ph' k' hq
    have hq' : (s.setPc p (.commit ph (k+1))).pc q = .commit ph' k' := by
      rw [← setPc_ctl hctl]; exact hq
    cases h.only_setPc hp _ q (by rw [hq']; rfl)
    rw [s.setPc_self] at hq'
    cases hq'
    cases ph <;> exact hat
  · intro hno
    exact absurd (t.setPc_self p _) (hno p ph (k+1))

lemma commit_mild (h : Inv L s) {ph : Phase} (hp : s.pc p = .commit ph k)
    (hidle : ph.idle k) (hm : m.mild) (hpins : Pins L (t.setPc p (.commit ph (k+1))))
    (ht : s.micro p m = some t) : Inv L (t.setPc p (.commit ph (k+1))) := by
  have hat := (mild_drift h.wf hm ht p).next h.ctl (h.phase_ok hp) hidle (h.place p ph k hp)
  obtain ⟨c,pan,rfl,-,-,he,hpan,-⟩ := mild_spec h.wf hm ht
  refine h.commitMicro hp hpins rfl rfl (fun _ => id) ?_ hat ?_
  · intro b hb
    rcases he b with he | ⟨-,h₀,-⟩
    · exact he
    · omega
  · rcases hpan with rfl | rfl
    · exact h.panicked
    · simp

variable {tail : ℕ}

/-- `memmove(to->data, from->data, BSIZE)` in `write_log`. -/
lemma commit_copy (h : Inv L s) (hp : s.pc p = .commit (.log tail) 6)
    (hpins : Pins L (t.setPc p (.commit (.log tail) 7)))
    (ht : s.micro p (.memmove (L.start+tail+1) (s.lh.block tail)) = some t) :
    Inv L (t.setPc p (.commit (.log tail) 7)) := by
  obtain ⟨c,rfl,-,hdisk,hcont,hq,hh⟩ := store_effect h.wf (memmove_effect h.wf ht)
  have hok := h.phase_ok hp
  have harea : L.Area (L.start+tail+1) := Drift.logArea h.ctl hok.1
  have hsrc := h.snapped (h.committing hp) _ (h.entry_pinned hp hok.1 (by simp))
  obtain ⟨h₁,-,-,h₄⟩ := h.place p _ _ hp
  refine h.commitMicro hp hpins rfl rfl (fun _ => id) ?_ ⟨?_,?_,fun e => absurd e (by omega),?_⟩
    h.panicked
  · intro b hb
    change c.content b = _
    rw [hcont,update_of_ne (h.pinned_ne hb harea)]
  · intro u hu
    refine ⟨?_,?_⟩
    · change c.content _ = _
      rw [hcont,update_of_ne (by omega)]
      exact (h₁ u hu).1
    · change c.disk _ = _
      rw [hdisk]
      exact (h₁ u hu).2
  · intro _
    refine ⟨(hh _ _).mpr hq,?_⟩
    change c.content _ = _
    rw [hcont,update_self]
    exact hsrc
  · change (head L c.disk).n = 0
    rw [hdisk]
    exact h₄

/-- `bwrite(to)` in `write_log`. -/
lemma commit_logWrite (h : Inv L s) (hp : s.pc p = .commit (.log tail) 7)
    (hpins : Pins L (t.setPc p (.commit (.log tail) 8)))
    (ht : s.micro p (.bwrite (L.start+tail+1)) = some t) :
    Inv L (t.setPc p (.commit (.log tail) 8)) := by
  obtain ⟨c,rfl,-,hdisk,hcont,-,-⟩ := bwrite_effect h.wf ht
  obtain ⟨h₁,h₂,-,h₄⟩ := h.place p _ _ hp
  obtain ⟨-,hsrc⟩ := h₂ rfl
  refine h.commitMicro hp hpins rfl rfl (fun _ => id) (fun b _ => hcont b)
    ⟨?_,fun e => absurd e (by omega),?_,?_⟩ h.panicked
  · intro u hu
    refine ⟨(hcont _).trans (h₁ u hu).1,?_⟩
    change c.disk _ = _
    rw [hdisk,update_of_ne (by omega)]
    exact (h₁ u hu).2
  · intro _
    refine ⟨(hcont _).trans hsrc,?_⟩
    change c.disk _ = _
    rw [hdisk,update_self]
    exact hsrc
  · change (head L c.disk).n = 0
    unfold head
    rw [hdisk,update_of_ne (by omega)]
    exact h₄

/-- The assignments of `write_head` to the header block. -/
lemma commit_putHead (h : Inv L s) {ph : Phase} (hph : ph = .head ∨ ph = .erase)
    (hp : s.pc p = .commit ph 3) (hpins : Pins L (t.setPc p (.commit ph 4)))
    (ht : s.micro p (.putHead L.start) = some t) :
    Inv L (t.setPc p (.commit ph 4)) := by
  obtain ⟨c,rfl,-,hdisk,hcont,hq,hh⟩ := store_effect h.wf (putHead_effect h.wf ht)
  have hplace := h.place p _ _ hp
  have hready (x : _) (y : _) : HeadReady L { s with cache := c, dirty := x, last := y } p := by
    refine ⟨(hh _ _).mpr hq,s.cache.content L.start,?_⟩
    change c.content _ = _
    rw [hcont,update_self]
  have hrec (x : _) (y : _) (hr : Recorded L s) :
      Recorded L { s with cache := c, dirty := x, last := y } := by
    unfold Recorded
    simp only [hdisk]
    exact hr
  refine h.commitMicro hp hpins rfl rfl (fun _ => id) ?_ ?_ h.panicked
  · intro b hb
    change c.content b = _
    rw [hcont,update_of_ne (h.pinned_ne hb (area_start L))]
  · rcases hph with rfl | rfl
    · obtain ⟨h₁,-,h₃,-⟩ := hplace
      refine ⟨?_,fun _ => hready _ _,fun _ => ?_,fun e => absurd e (by omega)⟩
      · intro u hu
        refine ⟨?_,?_⟩
        · change c.content _ = _
          rw [hcont,update_of_ne (by omega)]
          exact (h₁ u hu).1
        · change c.disk _ = _
          rw [hdisk]
          exact (h₁ u hu).2
      · change (head L c.disk).n = 0
        rw [hdisk]
        exact h₃ (by omega)
    · obtain ⟨-,h₂,-⟩ := hplace
      exact ⟨fun _ => hready _ _,fun _ => hrec _ _ (h₂ (by omega)),fun e => absurd e (by omega)⟩

lemma fits_of_ok {c : Ctl} (h : c.OK L) : c.lh.Fits L where
  le_logsize := h.le_logsize
  lt_size := h.lt_size
  entry_lt i hi := (h.entries _ (mem_blocks.mpr ⟨i,hi,rfl⟩)).1
  outside i hi := (h.entries _ (mem_blocks.mpr ⟨i,hi,rfl⟩)).2

/-- With the log blocks in place, writing the header records the group. -/
lemma isGroup_of_head {c : Ctl} (h : c.OK L) (hg : c.group = c.epoch) {d : Disk} {snap : Disk}
    {hb : Block} (hhead : d L.start = c.lh.fill hb)
    (hdata : ∀ u < c.lh.n, d (L.start+u+1) = snap (c.lh.block u)) :
    IsGroup L d snap c.hist c.group := by
  obtain ⟨hn,hblk⟩ := read_fill (fits_of_ok h) hb
  rw [← hhead] at hn hblk
  have hi : installs L d = (List.range c.lh.n).map fun u => (c.lh.block u,snap (c.lh.block u)) := by
    unfold installs head
    rw [hn]
    apply List.map_congr_left
    intro u hu
    have hu := List.mem_range.mp hu
    rw [hblk u hu,hdata u hu]
  refine ⟨by unfold head; rw [hn]; exact h.lt_size,?_,?_⟩
  · intro w hw
    rw [hi] at hw
    obtain ⟨u,hu,rfl⟩ := List.mem_map.mp hw
    refine ⟨rfl,?_⟩
    rw [hg]
    exact h.recorded _ (mem_blocks.mpr ⟨u,List.mem_range.mp hu,rfl⟩)
  · intro r hr he
    obtain ⟨u,hu,hub⟩ := mem_blocks.mp (h.logged r hr (he.trans hg))
    rw [hi]
    exact List.mem_map.mpr ⟨u,List.mem_range.mpr hu,by rw [hub]⟩

/-- `bwrite(buf)` in the first `write_head`: the commit point. -/
lemma commit_headWrite (h : Inv L s) (hp : s.pc p = .commit .head 4)
    (hpins : Pins L (t.setPc p (.commit .head 5)))
    (ht : s.micro p (.bwrite L.start) = some t) : Inv L (t.setPc p (.commit .head 5)) := by
  obtain ⟨c,rfl,-,hdisk,hcont,-,-⟩ := bwrite_effect h.wf ht
  obtain ⟨h₁,h₂,-,-⟩ := h.place p _ _ hp
  obtain ⟨-,hb,hfill⟩ := h₂ rfl
  have hok := h.phase_ok hp
  have hdata (u : ℕ) (hu : u < s.lh.n) : c.disk (L.start+u+1) = s.snap (s.lh.block u) := by
    rw [hdisk,update_of_ne (by omega)]
    exact (h₁ u hu).2
  refine h.commitMicro hp hpins rfl rfl (fun _ => id) (fun b _ => hcont b)
    ⟨?_,fun e => absurd e (by omega),fun e => absurd e (by omega),fun _ => ?_⟩ h.panicked
  · intro u hu
    exact ⟨(hcont _).trans (h₁ u hu).1,hdata u hu⟩
  · have hhead : c.disk L.start = s.lh.fill hb := by rw [hdisk,update_self,hfill]
    exact isGroup_of_head h.ctl hok.2 hhead hdata

/-- `bwrite(buf)` in the second `write_head`: the transaction is erased. -/
lemma commit_eraseWrite (h : Inv L s) (hp : s.pc p = .commit .erase 4)
    (hpins : Pins L (t.setPc p (.commit .erase 5)))
    (ht : s.micro p (.bwrite L.start) = some t) : Inv L (t.setPc p (.commit .erase 5)) := by
  obtain ⟨c,rfl,-,hdisk,hcont,-,-⟩ := bwrite_effect h.wf ht
  obtain ⟨h₁,-,-⟩ := h.place p _ _ hp
  obtain ⟨-,hb,hfill⟩ := h₁ rfl
  have hok := h.phase_ok hp
  refine h.commitMicro hp hpins rfl rfl (fun _ => id) (fun b _ => hcont b)
    ⟨fun e => absurd e (by omega),fun e => absurd e (by omega),fun _ => ?_⟩ h.panicked
  change (head L c.disk).n = 0
  unfold head
  rw [hdisk,update_self,hfill]
  exact read_fill_zero _ _ hok.1

/-- Installing a block copies the contents it has in the cache anyway. -/
theorem install_content (h : Inv L s) (hp : s.pc p = .commit (.install tail) 6)
    (ht : s.micro p (.memmove (s.lh.block tail) (L.start+tail+1)) = some t) :
    t.cache.content = s.cache.content := by
  obtain ⟨c,rfl,-,-,hcont,-,-⟩ := store_effect h.wf (memmove_effect h.wf ht)
  have hok := h.phase_ok hp
  obtain ⟨h₁,-⟩ := h.place p _ _ hp
  change c.content = _
  rw [hcont,(h₁ tail hok.1).1,update_eq_self_iff]
  exact (h.snapped (h.committing hp) _ (h.entry_pinned hp hok.1 (by simp))).symm

lemma commit_install (h : Inv L s) (hp : s.pc p = .commit (.install tail) 6)
    (hpins : Pins L (t.setPc p (.commit (.install tail) 7)))
    (ht : s.micro p (.memmove (s.lh.block tail) (L.start+tail+1)) = some t) :
    Inv L (t.setPc p (.commit (.install tail) 7)) := by
  have hsame := install_content h hp ht
  obtain ⟨c,rfl,-,hdisk,-,-,-⟩ := store_effect h.wf (memmove_effect h.wf ht)
  obtain ⟨h₁,h₂⟩ := h.place p _ _ hp
  refine h.commitMicro hp hpins rfl rfl (fun _ => id) (fun b _ => congrFun hsame b) ⟨?_,?_⟩
    h.panicked
  · intro u hu
    refine ⟨(congrFun hsame _).trans (h₁ u hu).1,?_⟩
    change c.disk _ = _
    rw [hdisk]
    exact (h₁ u hu).2
  · change IsGroup L c.disk _ _ _
    rw [hdisk]
    exact h₂

lemma IsGroup.setBlock {d snap : Disk} {hist : List Rec} {g : ℕ} (h : IsGroup L d snap hist g)
    {b : ℕ} (hb : ¬L.Area b) (v : Block) : IsGroup L (update d b v) snap hist g := by
  have hn := h.lt_size
  have hhead : head L (update d b v) = head L d := by
    unfold head
    rw [update_of_ne]
    rintro rfl
    exact hb (area_start L)
  have hi : installs L (update d b v) = installs L d := by
    unfold installs
    rw [hhead]
    apply List.map_congr_left
    intro u hu
    have := List.mem_range.mp hu
    rw [update_of_ne]
    rintro rfl
    exact hb ⟨by omega,by omega⟩
  exact ⟨by rw [hhead]; exact hn,by rw [hi]; exact h.sound,by rw [hi]; exact h.complete⟩

lemma commit_installWrite (h : Inv L s) (hp : s.pc p = .commit (.install tail) 7)
    (hpins : Pins L (t.setPc p (.commit (.install tail) 8)))
    (ht : s.micro p (.bwrite (s.lh.block tail)) = some t) :
    Inv L (t.setPc p (.commit (.install tail) 8)) := by
  obtain ⟨c,rfl,-,hdisk,hcont,-,-⟩ := bwrite_effect h.wf ht
  have hok := h.phase_ok hp
  obtain ⟨h₁,h₂⟩ := h.place p _ _ hp
  refine h.commitMicro hp hpins rfl rfl (fun _ => id) (fun b _ => hcont b) ⟨?_,?_⟩ h.panicked
  · intro u hu
    refine ⟨(hcont _).trans (h₁ u hu).1,?_⟩
    change c.disk _ = _
    rw [hdisk,update_of_ne (h.entry_ne hok.1 (Drift.logArea h.ctl hu)).symm]
    exact (h₁ u hu).2
  · change IsGroup L c.disk _ _ _
    rw [hdisk]
    exact IsGroup.setBlock h₂ (h.ctl.entries _ (mem_blocks.mpr ⟨tail,hok.1,rfl⟩)).2 _

/-- `bunpin(dbuf)` in `install_trans`. -/
lemma commit_bunpin (h : Inv L s) (hp : s.pc p = .commit (.install tail) 8)
    (hpins : Pins L (t.setPc p (.commit (.install tail) 9)))
    (ht : s.micro p (.bunpin (s.lh.block tail)) = some t) :
    Inv L (t.setPc p (.commit (.install tail) 9)) := by
  obtain ⟨c,rfl,-,hs⟩ := bunpin_effect h.wf (h.entry_pinned hp (h.phase_ok hp).1 (by simp)) ht
  obtain ⟨h₁,h₂⟩ := h.place p _ _ hp
  refine h.commitMicro hp hpins rfl rfl ?_ (fun b _ => hs.content b) ⟨?_,?_⟩ h.panicked
  · intro b hb
    by_cases e : b = s.lh.block tail
    · subst e
      simp only [update_self] at hb
      omega
    · simpa [update_of_ne e] using hb
  · intro u hu
    refine ⟨(hs.content _).trans (h₁ u hu).1,?_⟩
    change c.disk _ = _
    rw [hs.disk]
    exact (h₁ u hu).2
  · change IsGroup L c.disk _ _ _
    rw [hs.disk]
    exact h₂

/-- Any step of `commit` on buffers. -/
theorem commitMicro_inv (h : Inv L s) {ph : Phase} (hp : s.pc p = .commit ph k)
    (hpins : Pins L (t.setPc p (.commit ph (k+1)))) (hm : (ph.steps L s.lh)[k]? = some m)
    (ht : s.micro p m = some t) : Inv L (t.setPc p (.commit ph (k+1))) := by
  cases ph with
  | log tail =>
    rcases steps_log hm with ⟨rfl,rfl⟩ | ⟨rfl,rfl⟩ | ⟨hk₆,hk₇,hm⟩
    · exact commit_copy h hp hpins ht
    · exact commit_logWrite h hp hpins ht
    · exact commit_mild h hp ⟨hk₆,hk₇⟩ hm hpins ht
  | head =>
    rcases steps_head (.inl rfl) hm with ⟨rfl,rfl⟩ | ⟨rfl,rfl⟩ | ⟨hk₃,hk₄,hm⟩
    · exact commit_putHead h (.inl rfl) hp hpins ht
    · exact commit_headWrite h hp hpins ht
    · exact commit_mild h hp ⟨hk₃,hk₄⟩ hm hpins ht
  | install tail =>
    rcases steps_install hm with ⟨rfl,rfl⟩ | ⟨rfl,rfl⟩ | ⟨rfl,rfl⟩ | ⟨-,hm⟩
    · exact commit_install h hp hpins ht
    · exact commit_installWrite h hp hpins ht
    · exact commit_bunpin h hp hpins ht
    · exact commit_mild h hp trivial hm hpins ht
  | erase =>
    rcases steps_head (.inr rfl) hm with ⟨rfl,rfl⟩ | ⟨rfl,rfl⟩ | ⟨hk₃,hk₄,hm⟩
    · exact commit_putHead h (.inr rfl) hp hpins ht
    · exact commit_eraseWrite h hp hpins ht
    · exact commit_mild h hp ⟨hk₃,hk₄⟩ hm hpins ht

lemma Inv.jump (h : Inv L s) (hin : (s.pc p).inCommit) {pc' : Pc} (hpins : Pins L (s.setPc p pc'))
    (hplace : ∀ ph k, pc' = .commit ph k → At L s p ph k)
    (hclear : (∀ ph k, pc' ≠ .commit ph k) → (head L s.cache.disk).n = 0) :
    Inv L (s.setPc p pc') := by
  refine ⟨hpins,h.snapped,?_,?_,h.panicked⟩
  · intro q ph k hq
    by_cases hqp : q = p
    · subst hqp
      have hq' : pc' = .commit ph k := by rw [← hq,s.setPc_self]
      have hat := hplace ph k hq'
      cases ph <;> exact hat
    · rw [s.setPc_of_ne hqp] at hq
      exact absurd (h.ctl.unique q p (by simp [hq,Pc.inCommit]) hin) hqp
  · intro hno
    apply hclear
    rintro ph k rfl
    exact hno p ph k (s.setPc_self ..)

lemma enter_inv (h : Inv L s) (hp : s.pc p = .enter)
    (hpins : Pins L (s.setPc p (if 0 < s.lh.n then .commit (.log 0) 0 else .finish))) :
    Inv L (s.setPc p (if 0 < s.lh.n then .commit (.log 0) 0 else .finish)) := by
  have hno := h.not_commit (.inl hp)
  refine h.jump (by simp [hp,Pc.inCommit]) hpins ?_ (fun _ => h.clear hno)
  intro ph k e
  split_ifs at e
  cases e
  exact ⟨fun u hu => absurd hu (Nat.not_lt_zero u),fun e => absurd e (by omega),
    fun e => absurd e (by omega),h.clear hno⟩

lemma advance_inv (h : Inv L s) {ph : Phase} (hp : s.pc p = .commit ph k)
    (hpins : Pins L (s.advance p ph)) (hdone : (ph.steps L s.lh)[k]? = none) :
    Inv L (s.advance p ph) := by
  have hk := le_of_done hdone
  have hok := h.phase_ok hp
  have hat := h.place p ph k hp
  have hin : (s.pc p).inCommit := by simp [hp,Pc.inCommit]
  unfold Sys.advance at hpins ⊢
  cases ph with
  | log tail =>
    obtain ⟨h₁,-,h₃,h₄⟩ := hat
    have hcopied (u : ℕ) (hu : u < tail+1) : Copied L s u := by
      rcases Nat.lt_succ_iff_lt_or_eq.mp hu with hu | rfl
      · exact h₁ u hu
      · exact h₃ (by simp only at hk; omega)
    by_cases ht : tail+1 < s.lh.n
    · simp only [Phase.next,ht,if_true] at hpins ⊢
      refine h.jump hin hpins ?_ (fun hno => absurd rfl (hno _ _))
      intro ph' k' e
      cases e
      exact ⟨hcopied,fun e => absurd e (by omega),fun e => absurd e (by omega),h₄⟩
    · simp only [Phase.next,ht,if_false] at hpins ⊢
      refine h.jump hin hpins ?_ (fun hno => absurd rfl (hno _ _))
      intro ph' k' e
      cases e
      exact ⟨fun u hu => hcopied u (by omega),fun e => absurd e (by omega),fun _ => h₄,
        fun e => absurd e (by omega)⟩
  | head =>
    obtain ⟨h₁,-,-,h₄⟩ := hat
    have hn : 0 < s.lh.n := hok.1
    simp only [Phase.next,hn,if_true] at hpins ⊢
    refine h.jump hin hpins ?_ (fun hno => absurd rfl (hno _ _))
    intro ph' k' e
    cases e
    exact ⟨h₁,h₄ (by simp only at hk; omega)⟩
  | install tail =>
    by_cases ht : tail+1 < s.lh.n
    · simp only [Phase.next,ht,if_true] at hpins ⊢
      refine h.jump hin hpins ?_ (fun hno => absurd rfl (hno _ _))
      intro ph' k' e
      cases e
      exact hat
    · simp only [Phase.next,ht,if_false] at hpins ⊢
      refine ⟨hpins,fun _ => h.snapped (h.committing hp),?_,?_,h.panicked⟩
      · intro q ph' k' hq
        replace hq : (s.setPc p (.commit .erase 0)).pc q = .commit ph' k' := hq
        cases h.only_setPc hp _ q (by rw [hq]; rfl)
        rw [s.setPc_self] at hq
        cases hq
        exact ⟨fun e => absurd e (by omega),fun _ => hat.2,fun e => absurd e (by omega)⟩
      · intro hno
        exact absurd (s.setPc_self p _) (hno p .erase 0)
  | erase =>
    obtain ⟨-,-,h₃⟩ := hat
    exact h.jump hin hpins (fun ph' k' e => by cases e) (fun _ => h₃ (by simp only at hk; omega))

end Committer

section Rest
variable {L : Layout} {s t : Sys} {p : Pid}

section
variable (h : Inv L s)
include h

lemma Inv.outside (hpins : Pins L t) (hcache : t.cache = s.cache)
    (hp : t.pins = s.pins) (hsnap : t.snap = s.snap) (hlh : t.lh = s.lh) (hhist : t.hist = s.hist)
    (hgroup : t.group = s.group) (hcom : t.committing = s.committing)
    (hpc : ∀ q ph k, t.pc q = .commit ph k ↔ s.pc q = .commit ph k)
    (hpan : t.panicked = s.panicked) : Inv L t := by
  refine ⟨hpins,?_,?_,?_,?_⟩
  · rw [hcom,hcache,hp,hsnap]
    exact h.snapped
  · intro q ph k hq
    have hat := h.place q ph k ((hpc q ph k).mp hq)
    cases ph <;> unfold At Copied HeadReady Recorded at * <;>
      rw [hcache,hsnap,hlh] at * <;> simp only [hhist,hgroup] at * <;> exact hat
  · intro hno
    rw [hcache]
    exact h.clear fun q ph k hq => hno q ph k ((hpc q ph k).mpr hq)
  · rw [hpan]
    exact h.panicked

lemma move_inv {pc pc' : Pc} (hp : s.pc p = pc) (hpc : ∀ ph k, pc ≠ .commit ph k)
    (hpc' : ∀ ph k, pc' ≠ .commit ph k) (hpins : Pins L (s.setPc p pc')) : Inv L (s.setPc p pc') :=
  h.outside hpins rfl rfl rfl rfl rfl rfl rfl (commit_setPc hp hpc hpc') rfl

lemma beginTest_inv (hp : s.pc p = .begin false) (hpins : Pins L (s.beginTest p)) :
    Inv L (s.beginTest p) := by
  refine h.outside hpins ?_ ?_ ?_ ?_ ?_ ?_ ?_ (beginTest_commit hp) ?_ <;>
    (unfold Sys.beginTest; split_ifs <;> rfl)

lemma endOp_inv (hp : s.pc p = .inOp) (hpins : Pins L (s.endOp p)) : Inv L (s.endOp p) := by
  have hno := h.no_commit hp
  have hc : ¬s.committing = true := by simp [h.ctl.not_committing hp]
  have hno' (q : Pid) (ph : Phase) (k : ℕ) : (s.endOp p).pc q ≠ .commit ph k := by
    rw [ne_eq,endOp_commit hp]
    exact hno q ph k
  have hcache : (s.endOp p).cache = s.cache := by
    unfold Sys.endOp
    dsimp only
    split_ifs <;> rfl
  refine ⟨hpins,?_,fun q ph k hq => absurd hq (hno' q ph k),fun _ => hcache ▸ h.clear hno,?_⟩
  · -- the contents are noted when the group is closed
    unfold Sys.endOp
    dsimp only
    split_ifs
    · intro _ b _; rfl
    · exact fun hc' => absurd hc' hc
  · unfold Sys.endOp
    dsimp only
    split_ifs
    · exact h.panicked
    · exact h.panicked

lemma logWrite_inv {b : ℕ} (hp : s.pc p = .inOp) (hpins : Pins L t)
    (ht : s.logWrite L p b = some t) : Inv L t := by
  have hno := h.no_commit hp
  have hc : ¬s.committing = true := by simp [h.ctl.not_committing hp]
  obtain ⟨-,⟨-,rfl⟩ | ⟨-,⟨-,rfl⟩ | ⟨-,c,hpin,rfl⟩⟩⟩ :=
    logWrite_cases ht (h.ctl.outstanding_pos hp)
  · exact ⟨hpins,h.snapped,fun q ph k hq => absurd hq (hno q ph k),h.clear,by simp [Sys.panic]⟩
  · exact ⟨hpins,h.snapped,fun q ph k hq => absurd hq (hno q ph k),h.clear,h.panicked⟩
  · obtain ⟨-,hs⟩ := bpin_spec h.wf hpin
    refine ⟨hpins,fun hc' => absurd hc' hc,fun q ph k hq => absurd hq (hno q ph k),?_,h.panicked⟩
    intro hno
    change (head L c.disk).n = 0
    rw [hs.disk]
    exact h.clear hno

lemma endCommit_inv (hp : s.pc p = .finish) (hpins : Pins L (s.endCommit p)) :
    Inv L (s.endCommit p) := by
  have hno := h.not_commit (.inr hp)
  refine ⟨hpins,(fun hc => nomatch hc),?_,fun _ => h.clear hno,h.panicked⟩
  intro q ph k hq
  exact absurd ((commit_wake hp (by simp) q ph k).mp hq) (hno q ph k)

/-- One step keeps the invariant. -/
theorem step_inv {e : Event} (hu : Uses L s e) (ht : step L s e = some t) : Inv L t := by
  have hpins := step_pins h.toPins hu.logs ht
  cases step_cases ht with
  | buffer hp hm ht => exact client_inv h hp hm hu hpins ht
  | logWrite hp ht => exact logWrite_inv h hp hpins ht
  | beginOp hp => exact move_inv h hp (by simp) (by simp) hpins
  | beginTest hp => exact beginTest_inv h hp hpins
  | wake hp => exact move_inv h hp (by simp) (by simp) hpins
  | endOp hp => exact endOp_inv h hp hpins
  | enter hp => exact enter_inv h hp hpins
  | micro hp hm hmic => exact commitMicro_inv h hp hpins hm hmic
  | advance hp hm => exact advance_inv h hp hpins hm
  | finish hp => exact endCommit_inv h hp hpins

end

lemma init_inv {d : Disk} (hd : (head L d).n = 0) : Inv L (Sys.init d) where
  toPins := init_pins d
  snapped h := by cases h
  place q ph k hq := by cases hq
  clear _ := hd
  panicked := by simp [Sys.init]

theorem run_inv {d : Disk} {es : List Event} (hd : (head L d).n = 0)
    (h : Runs (step L) (Uses L) (Sys.init d) es s) : Inv L s :=
  h.invariant (fun _ _ _ hi hu ht => step_inv hi hu ht) (init_inv hd)

end Rest

section Main
variable {L : Layout} {s t : Sys} {q : Pid}

lemma enterOp_step {e : Event} (ht : step L s e = some t) (hq : s.pc q ≠ .inOp)
    (hq' : t.pc q = .inOp) : s.committing = false := by
  have hset (p : Pid) (pc' : Pc) (hpc : pc' ≠ .inOp) (he : (s.setPc p pc').pc q = .inOp) : False := by
    by_cases h : q = p
    · subst h; rw [s.setPc_self] at he; exact hpc he
    · rw [s.setPc_of_ne h] at he; exact hq he
  have hwake (p : Pid) (he : update (fun r => (s.pc r).wake) p .out q = .inOp) : False := by
    by_cases h : q = p
    · subst h; simp at he
    · simp only [update_of_ne h] at he
      exact hq ((Ctl.OK.wake_inOp _).mp he)
  cases step_cases ht with
  | buffer _ _ ht => exact absurd ((congrFun (congrArg Ctl.pc (micro_ctl ht)) q).symm.trans hq') hq
  | logWrite _ ht => exact absurd ((congrFun (logWrite_pc ht) q).symm.trans hq') hq
  | @beginOp p _ => exact (hset p _ (by simp) hq').elim
  | @beginTest p _ =>
    unfold Sys.beginTest at hq'
    split_ifs at hq' with hc
    · exact (hset p _ (by simp) hq').elim
    · exact (hset p _ (by simp) hq').elim
    · simpa using hc
  | @wake p _ => exact (hset p _ (by simp) hq').elim
  | @endOp p _ =>
    unfold Sys.endOp at hq'
    dsimp only at hq'
    split_ifs at hq'
    · exact absurd hq' hq
    · exact (hset p .enter (by simp) hq').elim
    · exact (hwake p hq').elim
  | @enter p _ => exact (hset p _ (by split_ifs <;> simp) hq').elim
  | @micro p ph k m u _ _ hmic =>
    refine (hset p (.commit ph (k+1)) (by simp) ?_).elim
    unfold Sys.setPc at hq' ⊢
    rwa [show u.pc = s.pc from congrArg Ctl.pc (micro_ctl hmic)] at hq'
  | @advance p ph k _ _ =>
    unfold Sys.advance at hq'
    split at hq' <;> exact (hset p _ (by simp) hq').elim
  | @finish p _ => exact (hwake p hq').elim

/-- Group commit never exposes part of an operation. -/
theorem group_commit {d : Disk} {es : List Event} (hd : (head L d).n = 0)
    (h : Runs (step L) (Uses L) (Sys.init d) es s) :
    (∀ p, (s.pc p).inCommit → s.outstanding = 0 ∧ s.committing = true) ∧
    (∀ e t q, step L s e = some t → s.pc q ≠ .inOp → t.pc q = .inOp →
      ∀ p, (s.pc p).inCommit = false) ∧
    s.panicked ≠ some "log.committing" ∧ s.lh.blocks.Nodup ∧
    (∀ r ∈ s.hist, r.epoch = s.epoch → r.block ∈ s.lh.blocks) ∧
    (0 < (head L s.cache.disk).n → (∀ p, s.pc p ≠ .inOp) ∧
      (∀ w ∈ installs L s.cache.disk, w.2 = s.snap w.1 ∧
        ∃ r ∈ s.hist, r.epoch = s.group ∧ r.block = w.1) ∧
      ∀ o, (∀ r ∈ s.hist, r.op = o → r.epoch = s.group ∧
          (r.block,s.snap r.block) ∈ installs L s.cache.disk) ∨
        ∀ r ∈ s.hist, r.op = o → r.epoch ≠ s.group) := by
  have hi := run_inv hd h
  refine ⟨?_,?_,hi.panicked,hi.ctl.nodup,hi.ctl.logged,?_⟩
  · intro p hp
    have hc := hi.ctl.committer.mpr ⟨p,hp⟩
    exact ⟨hi.ctl.idle hc,hc⟩
  · intro e t q ht hq hq' p
    exact hi.ctl.inCommit_false (enterOp_step ht hq hq') p
  · intro hn
    -- a transaction is on disk only while some process is in `commit`
    have hex : ∃ q ph k, s.pc q = .commit ph k := by
      by_contra hno
      push Not at hno
      have := hi.clear hno
      omega
    obtain ⟨q,ph,k,hq⟩ := hex
    have hrec : Recorded L s := by
      have hat := hi.place q ph k hq
      cases ph with
      | log tail => exact absurd hat.2.2.2 hn.ne'
      | head => exact hat.2.2.2 (by by_contra hk; exact hn.ne' (hat.2.2.1 (by omega)))
      | install tail => exact hat.2
      | erase => exact hat.2.1 (by by_contra hk; exact hn.ne' (hat.2.2 (by omega)))
    refine ⟨hi.ctl.not_inOp (hi.committing hq),hrec.sound,?_⟩
    intro o
    by_cases ho : ∃ r ∈ s.hist, r.op = o ∧ r.epoch = s.group
    · left
      obtain ⟨r₀,hr₀,hop₀,he₀⟩ := ho
      intro r hr hop
      have he : r.epoch = s.group := (hi.ctl.whole r hr r₀ hr₀ (hop.trans hop₀.symm)).trans he₀
      exact ⟨he,hrec.complete r hr he⟩
    · right
      intro r hr hop he
      exact ho ⟨r,hr,hop,he⟩

/-- One process logs one block, and its `end_op` gets as far as the commit point. -/
def oneOp : List Event :=
  [.beginOp 0,.beginTest 0,.buffer 0 (.bget 100),.buffer 0 (.lock 100),.buffer 0 (.fill 100),
   .buffer 0 (.store 100 fun _ => 7),.logWrite 0 100,.buffer 0 (.unlock 100),
   .buffer 0 (.drop 100),.endOp 0]++List.replicate 19 (.commit 0)

theorem group_commit_oneOp : ∃ s, Runs (step mkfsLog) (Uses mkfsLog) (Sys.init fun _ _ => 0) oneOp s ∧
    0 < (head mkfsLog s.cache.disk).n ∧ (∀ p, s.pc p ≠ .inOp) ∧
    ∀ w ∈ installs mkfsLog s.cache.disk, w.2 = s.snap w.1 := by
  obtain ⟨s,hs,hn⟩ := Runs.exists_of_execIf (step mkfsLog) (Uses mkfsLog) (Sys.init fun _ _ => 0)
    oneOp (fun s => 0 < (head mkfsLog s.cache.disk).n) (by decide +kernel)
  obtain ⟨-,-,-,-,-,hg⟩ := group_commit (by decide) hs
  exact ⟨s,hs,hn,(hg hn).1,fun w hw => ((hg hn).2.1 w hw).1⟩

end Main

end Xv6.Log
