import Xv6.Disk.Block

/-! The buffer cache of `bio.c`. Each critical section of `bcache.lock` and each step on a
buffer's sleep-lock is one operation; a process names the buffer it uses by block number. -/
namespace Xv6.Bio
open Option List
open Function (update update_self update_of_ne update_eq_self)

/-- `struct buf` without its list pointers. `holder` is the sleep-lock: who has it. -/
structure Buf where
  dev : ℕ
  blockno : ℕ
  valid : Bool
  refcnt : ℕ
  holder : Option Pid
  data : Block

/-- How far a process is with a buffer: in `acquiresleep`, holding the lock, or in `brelse`
between `releasesleep` and the decrement of `refcnt`. -/
inductive Stage
  | wait
  | hold
  | rel
  deriving DecidableEq

structure Use where
  pid : Pid
  slot : Fin NBUF
  stage : Stage
  deriving DecidableEq

/-- The cache together with the disk; `lru` lists the buffers from `head.next` to `head.prev`. -/
structure Cache where
  disk : Disk
  buf : Fin NBUF → Buf
  lru : List (Fin NBUF)
  uses : List Use

namespace Cache

/-- `binit`: each buffer is inserted at the head of the list. -/
def init (d : Disk) : Cache where
  disk := d
  buf _ := ⟨0,0,false,0,none,fun _ => 0⟩
  lru := (List.finRange NBUF).reverse
  uses := []

variable (c : Cache)

/-- Every call of `bread` in the kernel is for the root device. -/
def Names (i : Fin NBUF) (b : ℕ) : Prop := (c.buf i).dev = ROOTDEV ∧ (c.buf i).blockno = b

instance (i : Fin NBUF) (b : ℕ) : Decidable (c.Names i b) := inferInstanceAs (Decidable (_ ∧ _))

def slotOf (b : ℕ) : Option (Fin NBUF) := c.lru.find? fun i => c.Names i b

def victim : Option (Fin NBUF) := c.lru.reverse.find? fun i => (c.buf i).refcnt = 0

def setBuf (i : Fin NBUF) (v : Buf) : Cache := { c with buf := update c.buf i v }

def setUses (us : List Use) : Cache := { c with uses := us }

/-- `bget` up to its call of `acquiresleep`; `none` is `panic("bget: no buffers")`. -/
def bget (p : Pid) (b : ℕ) : Option Cache :=
  match c.slotOf b with
  | some i => some ((c.setBuf i { c.buf i with refcnt := (c.buf i).refcnt+1 }).setUses
      (⟨p,i,.wait⟩::c.uses))
  | none => c.victim.map fun i =>
      (c.setBuf i { c.buf i with dev := ROOTDEV, blockno := b, valid := false, refcnt := 1 }).setUses
        (⟨p,i,.wait⟩::c.uses)

/-- The buffer of block `b`, if `p` is at the given stage with it. -/
def useOf (p : Pid) (b : ℕ) (g : Stage) : Option (Fin NBUF) :=
  (c.slotOf b).filter fun i => ⟨p,i,g⟩ ∈ c.uses

def acquiresleep (p : Pid) (b : ℕ) : Option Cache :=
  ((c.useOf p b .wait).filter fun i => (c.buf i).holder = none).map fun i =>
    (c.setBuf i { c.buf i with holder := some p }).setUses
      (⟨p,i,.hold⟩::c.uses.erase ⟨p,i,.wait⟩)

/-- The rest of `bread`: read the block unless the buffer is valid. -/
def fill (p : Pid) (b : ℕ) : Option Cache :=
  (c.useOf p b .hold).map fun i =>
    if (c.buf i).valid then c
    else c.setBuf i { c.buf i with data := c.disk (c.buf i).blockno, valid := true }

/-- The buffer of block `b`, if a `bread` of `p` has returned it and `p` still has it. -/
def ready (p : Pid) (b : ℕ) : Option (Fin NBUF) :=
  (c.useOf p b .hold).filter fun i => (c.buf i).valid

def store (p : Pid) (b : ℕ) (v : Block) : Option Cache :=
  (c.ready p b).map fun i => c.setBuf i { c.buf i with data := v }

def bwrite (p : Pid) (b : ℕ) : Option Cache :=
  (c.ready p b).map fun i =>
    { c with disk := update c.disk (c.buf i).blockno (c.buf i).data }

/-- The first half of `brelse`. -/
def releasesleep (p : Pid) (b : ℕ) : Option Cache :=
  (c.useOf p b .hold).map fun i =>
    (c.setBuf i { c.buf i with holder := none }).setUses (⟨p,i,.rel⟩::c.uses.erase ⟨p,i,.hold⟩)

/-- The second half of `brelse`: a buffer nobody refers to becomes the most recently used. -/
def drop (p : Pid) (b : ℕ) : Option Cache :=
  (c.useOf p b .rel).map fun i =>
    let d := (c.setBuf i { c.buf i with refcnt := (c.buf i).refcnt-1 }).setUses
      (c.uses.erase ⟨p,i,.rel⟩)
    if (c.buf i).refcnt-1 = 0 then { d with lru := i::c.lru.erase i } else d

def bpin (b : ℕ) : Option Cache :=
  (c.slotOf b).map fun i => c.setBuf i { c.buf i with refcnt := (c.buf i).refcnt+1 }

def bunpin (b : ℕ) : Option Cache :=
  (c.slotOf b).map fun i => c.setBuf i { c.buf i with refcnt := (c.buf i).refcnt-1 }

/-- What a `bread` of block `b` returns, or would return. -/
def content (b : ℕ) : Block :=
  match c.slotOf b with
  | some i => if (c.buf i).valid then (c.buf i).data else c.disk b
  | none => c.disk b

/-- `p` is between `acquiresleep` and `releasesleep` of the buffer of block `b`. -/
def Holds (p : Pid) (b : ℕ) : Prop := ∃ i, c.Names i b ∧ ⟨p,i,.hold⟩ ∈ c.uses

/-- The references processes have to a buffer. -/
def usesOf (i : Fin NBUF) : ℕ := c.uses.countP fun u => u.slot = i

end Cache

/-- The invariant of the cache, relative to the number `pin b` of pins on each block. -/
structure WF (pin : ℕ → ℕ) (c : Cache) : Prop where
  mem_lru : ∀ i, i ∈ c.lru
  nodup_lru : c.lru.Nodup
  key_inj : ∀ i j b, c.Names i b → c.Names j b → i = j
  used : ∀ i, 0 < (c.buf i).refcnt → (c.buf i).dev = ROOTDEV
  valid : ∀ i, (c.buf i).valid → (c.buf i).dev = ROOTDEV
  holder : ∀ i p, (c.buf i).holder = some p ↔ ⟨p,i,.hold⟩ ∈ c.uses
  once : ∀ i p, c.uses.count ⟨p,i,.hold⟩ ≤ 1
  refcnt : ∀ i, (c.buf i).refcnt =
    c.usesOf i+if (c.buf i).dev = ROOTDEV then pin (c.buf i).blockno else 0
  cached : ∀ b, 0 < pin b → ∃ i, c.Names i b


/-- Nothing a process could see has changed. -/
structure Same (c d : Cache) : Prop where
  disk : d.disk = c.disk
  content : ∀ b, d.content b = c.content b
  holds : ∀ p b, d.Holds p b ↔ c.Holds p b

section Slots
variable {pin : ℕ → ℕ} {c : Cache} {p q : Pid} {i j : Fin NBUF} {b : ℕ}

lemma names_of_slotOf (h : c.slotOf b = some i) : c.Names i b := by
  simpa using List.find?_some h

lemma WF.slotOf_iff (h : WF pin c) : c.slotOf b = some i ↔ c.Names i b := by
  constructor
  · exact names_of_slotOf
  · intro hi
    cases hs : c.slotOf b with
    | none => simpa using List.find?_eq_none.mp hs i (h.mem_lru i) (by simpa using hi)
    | some j => rw [h.key_inj i j b hi (names_of_slotOf hs)]

lemma WF.slotOf_none (h : WF pin c) : c.slotOf b = none ↔ ∀ i, ¬c.Names i b := by
  rw [eq_none_iff_forall_ne_some]
  simp only [ne_eq,h.slotOf_iff]

lemma WF.content_of_names (h : WF pin c) (hi : c.Names i b) :
    c.content b = if (c.buf i).valid then (c.buf i).data else c.disk b := by
  unfold Cache.content
  rw [h.slotOf_iff.mpr hi]

lemma WF.content_of_not (h : WF pin c) (hb : ∀ i, ¬c.Names i b) : c.content b = c.disk b := by
  unfold Cache.content
  rw [h.slotOf_none.mpr hb]

/-- The sleep-lock excludes. -/
theorem WF.holds_unique (h : WF pin c) (hp : c.Holds p b) (hq : c.Holds q b) : p = q := by
  obtain ⟨i,hi,hpi⟩ := hp
  obtain ⟨j,hj,hqj⟩ := hq
  cases h.key_inj i j b hi hj
  have h₁ := (h.holder i p).mpr hpi
  rw [(h.holder i q).mpr hqj] at h₁
  exact (Option.some.inj h₁).symm

lemma useOf_some {g : Stage} (hi : c.useOf p b g = some i) :
    c.Names i b ∧ ⟨p,i,g⟩ ∈ c.uses := by
  obtain ⟨hs,hu⟩ := filter_eq_some_iff.mp hi
  exact ⟨names_of_slotOf hs,by simpa using hu⟩

lemma ready_some (hi : c.ready p b = some i) :
    c.Names i b ∧ ⟨p,i,.hold⟩ ∈ c.uses ∧ (c.buf i).valid := by
  obtain ⟨hs,hv⟩ := filter_eq_some_iff.mp hi
  obtain ⟨hn,hu⟩ := useOf_some hs
  exact ⟨hn,hu,by simpa using hv⟩

lemma holds_of_ready (hi : c.ready p b = some i) : c.Holds p b :=
  ⟨i,(ready_some hi).1,(ready_some hi).2.1⟩

lemma WF.content_of_ready (h : WF pin c) (hi : c.ready p b = some i) :
    c.content b = (c.buf i).data := by
  obtain ⟨hn,-,hv⟩ := ready_some hi
  rw [h.content_of_names hn,if_pos hv]

/-- A block with no reference and no pin is the only kind `bget` recycles. -/
lemma WF.unused (h : WF pin c) (hi : c.Names i b) (h₀ : (c.buf i).refcnt = 0) :
    pin b = 0 ∧ ∀ q, ¬c.Holds q b := by
  have hr := h.refcnt i
  rw [if_pos hi.1,hi.2,h₀] at hr
  refine ⟨by omega,?_⟩
  rintro q ⟨j,hj,hq⟩
  cases h.key_inj i j b hi hj
  have : 0 < c.usesOf i := countP_pos_iff.mpr ⟨_,hq,by simp⟩
  omega

end Slots

section Update
variable {pin pin' : ℕ → ℕ} {c : Cache} {p q : Pid} {i : Fin NBUF} {b : ℕ} {v : Buf}
  (us : List Use)

/-- An update of a buffer that leaves it the buffer of the same block. -/
def Keeps (c : Cache) (i : Fin NBUF) (v : Buf) : Prop :=
  v.dev = (c.buf i).dev ∧ v.blockno = (c.buf i).blockno

lemma Keeps.names (h : Keeps c i v) (j : Fin NBUF) (x : ℕ) :
    ((c.setBuf i v).setUses us).Names j x ↔ c.Names j x := by
  unfold Cache.Names Cache.setUses Cache.setBuf
  by_cases hj : j = i
  · subst hj; simp [h.1,h.2]
  · simp [update_of_ne hj]

lemma Keeps.slotOf (h : Keeps c i v) (x : ℕ) :
    ((c.setBuf i v).setUses us).slotOf x = c.slotOf x := by
  unfold Cache.slotOf
  simp only [h.names us]
  rfl

lemma Keeps.holds (h : Keeps c i v) (q : Pid) (x : ℕ) :
    ((c.setBuf i v).setUses us).Holds q x ↔ ∃ j, c.Names j x ∧ ⟨q,j,.hold⟩ ∈ us := by
  unfold Cache.Holds
  simp only [h.names us]
  rfl

lemma Keeps.content (h : Keeps c i v) (hw : WF pin c) (hi : c.Names i b) (x : ℕ) :
    ((c.setBuf i v).setUses us).content x =
      if x = b then (if v.valid then v.data else c.disk b) else c.content x := by
  unfold Cache.content
  rw [h.slotOf us]
  by_cases hx : x = b
  · subst hx
    rw [hw.slotOf_iff.mpr hi]
    simp [Cache.setUses,Cache.setBuf]
  · rw [if_neg hx]
    cases hs : c.slotOf x with
    | none => rfl
    | some j =>
      have hj : j ≠ i := by
        rintro rfl
        exact hx ((names_of_slotOf hs).2.symm.trans hi.2)
      simp [Cache.setUses,Cache.setBuf,update_of_ne hj]

/-- An update that keeps the buffer's contents as seen by `bread`. -/
lemma Keeps.content_same (h : Keeps c i v) (hw : WF pin c) (hi : c.Names i b)
    (hv : v.valid = (c.buf i).valid) (hd : v.data = (c.buf i).data) (x : ℕ) :
    ((c.setBuf i v).setUses us).content x = c.content x := by
  rw [h.content us hw hi]
  by_cases hx : x = b
  · rw [if_pos hx,hv,hd,hx,hw.content_of_names hi]
  · rw [if_neg hx]

/-- The invariant after a change of one buffer and of the uses of that buffer only. -/
lemma WF.change (h : WF pin c) (hi : c.Names i b) (hk : Keeps c i v)
    (huses : ∀ j, j ≠ i → us.countP (fun u => u.slot = j) = c.usesOf j)
    (hcount : ∀ j, j ≠ i → ∀ q, us.count ⟨q,j,.hold⟩ = c.uses.count ⟨q,j,.hold⟩)
    (hholder : ∀ q, v.holder = some q ↔ ⟨q,i,.hold⟩ ∈ us)
    (honce : ∀ q, us.count ⟨q,i,.hold⟩ ≤ 1) (hpin : ∀ x, x ≠ b → pin' x = pin x)
    (href : v.refcnt = us.countP (fun u => u.slot = i)+pin' b) :
    WF pin' ((c.setBuf i v).setUses us) := by
  have hdev : v.dev = ROOTDEV := hk.1.trans hi.1
  have hno : v.blockno = b := hk.2.trans hi.2
  have hbuf (j : Fin NBUF) (hj : j ≠ i) : ((c.setBuf i v).setUses us).buf j = c.buf j :=
    update_of_ne hj _ _
  have hbufi : ((c.setBuf i v).setUses us).buf i = v := update_self ..
  refine ⟨h.mem_lru,h.nodup_lru,?_,?_,?_,?_,?_,?_,?_⟩
  · intro j k x hj hk'
    exact h.key_inj j k x ((hk.names us j x).mp hj) ((hk.names us k x).mp hk')
  · intro j hj
    by_cases e : j = i
    · subst e; rw [hbufi]; exact hdev
    · rw [hbuf j e] at hj ⊢; exact h.used j hj
  · intro j hj
    by_cases e : j = i
    · subst e; rw [hbufi]; exact hdev
    · rw [hbuf j e] at hj ⊢; exact h.valid j hj
  · intro j q
    by_cases e : j = i
    · subst e; rw [hbufi]; exact hholder q
    · rw [hbuf j e,h.holder]
      change _ ↔ _ ∈ us
      rw [← count_pos_iff,← count_pos_iff,hcount j e]
  · intro j q
    by_cases e : j = i
    · subst e; exact honce q
    · exact (hcount j e q).le.trans (h.once j q)
  · intro j
    by_cases e : j = i
    · subst e; rw [hbufi,if_pos hdev,hno]; exact href
    · rw [hbuf j e,h.refcnt j]
      change _ = us.countP _+_
      rw [huses j e]
      by_cases hd : (c.buf j).dev = ROOTDEV
      · have hne : (c.buf j).blockno ≠ b := fun hb => e (h.key_inj j i b ⟨hd,hb⟩ hi)
        rw [if_pos hd,if_pos hd,hpin _ hne]
      · rw [if_neg hd,if_neg hd]
  · intro x hx
    by_cases e : x = b
    · exact ⟨i,(hk.names us i x).mpr (e ▸ hi)⟩
    · rw [hpin x e] at hx
      obtain ⟨j,hj⟩ := h.cached x hx
      exact ⟨j,(hk.names us j x).mpr hj⟩

end Update

section Operations
variable {pin : ℕ → ℕ} {c d : Cache} {p : Pid} {b : ℕ}

/-- What a step may do to the contents: a block nobody refers to may fall back to the disk. -/
def Evicts (pin : ℕ → ℕ) (c d : Cache) : Prop :=
  ∀ x, d.content x = c.content x ∨
    d.content x = c.disk x ∧ pin x = 0 ∧ ∀ q, ¬c.Holds q x

lemma Same.refl (c : Cache) : Same c c := ⟨rfl,fun _ => rfl,fun _ _ => Iff.rfl⟩

variable {i : Fin NBUF}

lemma bget_hit (h : WF pin c) (hi : c.Names i b) :
    let d := (c.setBuf i { c.buf i with refcnt := (c.buf i).refcnt+1 }).setUses
      (⟨p,i,.wait⟩::c.uses)
    WF pin d ∧ Same c d := by
  intro d
  have hk : Keeps c i { c.buf i with refcnt := (c.buf i).refcnt+1 } := ⟨rfl,rfl⟩
  refine ⟨?_,rfl,hk.content_same _ h hi rfl rfl,?_⟩
  · refine h.change _ hi hk ?_ ?_ ?_ ?_ (fun _ _ => rfl) ?_
    · intro j hj
      simp [Cache.usesOf,Ne.symm hj]
    · intro j hj q
      simp
    · intro q
      simpa using h.holder i q
    · intro q
      simpa using h.once i q
    · have hr := h.refcnt i
      rw [if_pos hi.1,hi.2,Cache.usesOf] at hr
      simp [hr]
      omega
  · intro q x
    rw [hk.holds _]
    simp [Cache.Holds]

lemma names_recycle (c : Cache) (i j : Fin NBUF) (v : Buf) (us : List Use) (x : ℕ)
    (hv : v.dev = ROOTDEV) : ((c.setBuf i v).setUses us).Names j x ↔
      if j = i then x = v.blockno else c.Names j x := by
  unfold Cache.Names Cache.setUses Cache.setBuf
  by_cases hj : j = i
  · subst hj; simp [hv,eq_comm]
  · simp [hj]

lemma WF.no_uses (h : WF pin c) (h₀ : (c.buf i).refcnt = 0) {u : Use}
    (hu : u ∈ c.uses) : u.slot ≠ i := by
  rintro rfl
  have hr := h.refcnt u.slot
  have : 0 < c.usesOf u.slot := countP_pos_iff.mpr ⟨_,hu,by simp⟩
  omega

lemma bget_miss (h : WF pin c) (hb : ∀ j, ¬c.Names j b) (h₀ : (c.buf i).refcnt = 0) :
    let d := (c.setBuf i { c.buf i with dev := ROOTDEV, blockno := b, valid := false, refcnt := 1
      }).setUses (⟨p,i,.wait⟩::c.uses)
    WF pin d ∧ d.disk = c.disk ∧ (∀ q x, d.Holds q x ↔ c.Holds q x) ∧ Evicts pin c d := by
  intro d
  have hn (j : Fin NBUF) (x : ℕ) : d.Names j x ↔ if j = i then x = b else c.Names j x :=
    names_recycle c i j _ _ x rfl
  have hbuf (j : Fin NBUF) (hj : j ≠ i) : d.buf j = c.buf j := update_of_ne hj _ _
  have hbufi : d.buf i = { c.buf i with dev := ROOTDEV, blockno := b, valid := false, refcnt := 1 } :=
    update_self ..
  have hpin : pin b = 0 := by
    by_contra hp
    obtain ⟨j,hj⟩ := h.cached b (Nat.pos_of_ne_zero hp)
    exact hb j hj
  have hw : WF pin d := by
    refine ⟨h.mem_lru,h.nodup_lru,?_,?_,?_,?_,?_,?_,?_⟩
    · intro j k x hj hk
      rw [hn] at hj hk
      split_ifs at hj hk with e e'
      · exact e.trans e'.symm
      · subst hj; exact absurd hk (hb k)
      · subst hk; exact absurd hj (hb j)
      · exact h.key_inj j k x hj hk
    · intro j hj
      by_cases e : j = i
      · subst e; rw [hbufi]
      · rw [hbuf j e] at hj ⊢; exact h.used j hj
    · intro j hj
      by_cases e : j = i
      · subst e; rw [hbufi]
      · rw [hbuf j e] at hj ⊢; exact h.valid j hj
    · intro j q
      have hd : (d.buf j).holder = (c.buf j).holder := by
        by_cases e : j = i
        · subst e; rw [hbufi]
        · rw [hbuf j e]
      rw [hd,h.holder]
      simp [d,Cache.setUses]
    · intro j q
      have := h.once j q
      simpa [d,Cache.setUses] using this
    · intro j
      by_cases e : j = i
      · subst e
        have hr := h.refcnt j
        rw [h₀] at hr
        have hu : c.uses.countP (fun u => u.slot = j) = 0 := by
          change c.usesOf j = 0
          omega
        rw [hbufi]
        simp [d,Cache.usesOf,Cache.setUses,hu,hpin]
      · rw [hbuf j e,h.refcnt j]
        simp [d,Cache.usesOf,Cache.setUses,Ne.symm e]
    · intro x hx
      obtain ⟨j,hj⟩ := h.cached x hx
      refine ⟨j,(hn j x).mpr ?_⟩
      have hji : j ≠ i := by
        rintro rfl
        have := (h.unused hj h₀).1
        omega
      rw [if_neg hji]
      exact hj
  refine ⟨hw,rfl,?_,?_⟩
  · intro q x
    unfold Cache.Holds
    constructor
    · rintro ⟨j,hj,hq⟩
      have hq' : (⟨q,j,.hold⟩ : Use) ∈ c.uses := by simpa [d,Cache.setUses] using hq
      rw [hn,if_neg (h.no_uses h₀ hq')] at hj
      exact ⟨j,hj,hq'⟩
    · rintro ⟨j,hj,hq⟩
      refine ⟨j,(hn j x).mpr ?_,mem_cons_of_mem _ hq⟩
      rw [if_neg (h.no_uses h₀ hq)]
      exact hj
  · intro x
    by_cases hx : x = b
    · -- the new buffer is not valid yet, and before no buffer was for `b`
      subst hx
      left
      rw [hw.content_of_names ((hn i x).mpr (by simp)),h.content_of_not hb,hbufi]
      rfl
    · by_cases hi : c.Names i x
      · right
        refine ⟨?_,h.unused hi h₀⟩
        apply hw.content_of_not
        intro j hj
        rw [hn] at hj
        split_ifs at hj with e
        · exact hx hj
        · exact e (h.key_inj j i x hj hi)
      · left
        by_cases hc : ∃ j, c.Names j x
        · obtain ⟨j,hj⟩ := hc
          have hji : j ≠ i := by rintro rfl; exact hi hj
          have hj' : d.Names j x := (hn j x).mpr (by rw [if_neg hji]; exact hj)
          rw [hw.content_of_names hj',h.content_of_names hj,hbuf j hji]
          rfl
        · rw [h.content_of_not (fun j hj => hc ⟨j,hj⟩)]
          apply hw.content_of_not
          intro j hj
          rw [hn] at hj
          split_ifs at hj with e
          · exact hx hj
          · exact hc ⟨j,hj⟩

/-- `bget` gives no one the lock, and at most it evicts a block nobody refers to. -/
theorem bget_spec (h : WF pin c) (hd : c.bget p b = some d) :
    WF pin d ∧ d.disk = c.disk ∧ (∀ q x, d.Holds q x ↔ c.Holds q x) ∧ Evicts pin c d := by
  unfold Cache.bget at hd
  cases hs : c.slotOf b with
  | some i =>
    rw [hs] at hd
    cases hd
    obtain ⟨hw,hsame⟩ := bget_hit (p := p) h (names_of_slotOf hs)
    exact ⟨hw,rfl,hsame.holds,fun x => .inl (hsame.content x)⟩
  | none =>
    rw [hs] at hd
    obtain ⟨i,hi,rfl⟩ := map_eq_some_iff.mp hd
    exact bget_miss h (h.slotOf_none.mp hs) (by simpa using List.find?_some hi)

lemma WF.refcnt_names (h : WF pin c) (hi : c.Names i b) :
    (c.buf i).refcnt = c.uses.countP (fun u => u.slot = i)+pin b := by
  have hr := h.refcnt i
  rwa [if_pos hi.1,hi.2] at hr

lemma count_hold_erase (us : List Use) (i : Fin NBUF) {g : Stage} (hg : g ≠ .hold) (q : Pid)
    (j : Fin NBUF) : (us.erase ⟨p,i,g⟩).count ⟨q,j,.hold⟩ = us.count ⟨q,j,.hold⟩ := by
  rw [count_erase_of_ne]
  rintro e
  cases e
  exact hg rfl

lemma countP_slot_erase {us : List Use} {u : Use} (hu : u ∈ us) (j : Fin NBUF) :
    (us.erase u).countP (fun w => w.slot = j)+(if u.slot = j then 1 else 0) =
      us.countP (fun w => w.slot = j) := by
  have h := (perm_cons_erase hu).countP_eq (fun w : Use => decide (w.slot = j))
  rw [h,countP_cons]
  simp

section
variable (h : WF pin c)
include h

theorem acquiresleep_spec (hd : c.acquiresleep p b = some d) :
    WF pin d ∧ d.disk = c.disk ∧ (∀ x, d.content x = c.content x) ∧ (∀ q, ¬c.Holds q b) ∧
    ∀ q x, d.Holds q x ↔ c.Holds q x ∨ q = p ∧ x = b := by
  obtain ⟨i,hi,rfl⟩ := map_eq_some_iff.mp hd
  obtain ⟨hu,hfree⟩ := filter_eq_some_iff.mp hi
  obtain ⟨hn,hw⟩ := useOf_some hu
  replace hfree : (c.buf i).holder = none := by simpa using hfree
  have hk : Keeps c i { c.buf i with holder := some p } := ⟨rfl,rfl⟩
  have hno (q : Pid) : (⟨q,i,.hold⟩ : Use) ∉ c.uses := by
    rw [← h.holder,hfree]
    simp
  have hcnt (q : Pid) : c.uses.count ⟨q,i,.hold⟩ = 0 := count_eq_zero.mpr (hno q)
  have hmem (q : Pid) (j : Fin NBUF) : (⟨q,j,.hold⟩ : Use) ∈ c.uses.erase ⟨p,i,.wait⟩ ↔
      ⟨q,j,.hold⟩ ∈ c.uses := mem_erase_of_ne (by simp)
  refine ⟨?_,rfl,hk.content_same _ h hn rfl rfl,?_,?_⟩
  · refine h.change _ hn hk ?_ ?_ ?_ ?_ (fun _ _ => rfl) ?_
    · intro j hj
      have := countP_slot_erase hw j
      simp only [Ne.symm hj,if_false] at this
      simpa [Ne.symm hj,Cache.usesOf] using this
    · intro j hj q
      rw [count_cons_of_ne (by simp [Ne.symm hj]),count_hold_erase _ _ (by simp)]
    · intro q
      simp [hmem,hno,eq_comm]
    · intro q
      rw [count_cons,count_hold_erase _ _ (by simp),hcnt]
      split_ifs <;> simp
    · have := countP_slot_erase hw i
      simp only [if_true] at this
      rw [countP_cons_of_pos (by simp),this]
      exact h.refcnt_names hn
  · rintro q ⟨j,hj,hq⟩
    cases h.key_inj i j b hn hj
    exact hno q hq
  · intro q x
    rw [hk.holds _]
    simp only [mem_cons,hmem]
    constructor
    · rintro ⟨j,hj,e | hq⟩
      · cases e
        exact .inr ⟨rfl,hj.2.symm.trans hn.2⟩
      · exact .inl ⟨j,hj,hq⟩
    · rintro (⟨j,hj,hq⟩ | ⟨rfl,rfl⟩)
      · exact ⟨j,hj,.inr hq⟩
      · exact ⟨i,hn,.inl rfl⟩

lemma WF.setData (hi : c.Names i b) (v : Block) :
    WF pin (c.setBuf i { c.buf i with data := v, valid := true }) ∧
    (∀ q x, (c.setBuf i { c.buf i with data := v, valid := true }).Holds q x ↔ c.Holds q x) ∧
    (c.setBuf i { c.buf i with data := v, valid := true }).content =
      update c.content b v := by
  have hk : Keeps c i { c.buf i with data := v, valid := true } := ⟨rfl,rfl⟩
  refine ⟨?_,?_,?_⟩
  · exact h.change c.uses hi hk (fun _ _ => rfl) (fun _ _ _ => rfl) (h.holder i)
      (h.once i) (fun _ _ => rfl) (h.refcnt_names hi)
  · exact hk.holds c.uses
  · funext x
    refine (hk.content c.uses h hi x).trans ?_
    by_cases hx : x = b
    · subst hx; simp
    · simp [hx]

theorem fill_spec (hd : c.fill p b = some d) : WF pin d ∧ Same c d := by
  obtain ⟨i,hi,rfl⟩ := map_eq_some_iff.mp hd
  obtain ⟨hn,-⟩ := useOf_some hi
  by_cases hv : (c.buf i).valid
  · rw [if_pos hv]
    exact ⟨h,.refl c⟩
  · rw [if_neg hv,hn.2]
    obtain ⟨hw,hh,hc⟩ := h.setData hn (c.disk b)
    refine ⟨hw,rfl,?_,hh⟩
    have hb : c.content b = c.disk b := by rw [h.content_of_names hn,if_neg hv]
    intro x
    rw [hc,← hb,update_eq_self]

theorem store_spec {v : Block} (hd : c.store p b v = some d) :
    WF pin d ∧ d.disk = c.disk ∧ d.content = update c.content b v ∧ c.Holds p b ∧
    ∀ q x, d.Holds q x ↔ c.Holds q x := by
  obtain ⟨i,hi,rfl⟩ := map_eq_some_iff.mp hd
  obtain ⟨hn,-,hv⟩ := ready_some hi
  obtain ⟨hw,hh,hc⟩ := h.setData hn v
  rw [← hv] at hw hh hc
  exact ⟨hw,rfl,hc,holds_of_ready hi,hh⟩

theorem bwrite_spec (hd : c.bwrite p b = some d) :
    WF pin d ∧ d.disk = update c.disk b (c.content b) ∧
    (∀ x, d.content x = c.content x) ∧ c.Holds p b ∧ ∀ q x, d.Holds q x ↔ c.Holds q x := by
  obtain ⟨i,hi,rfl⟩ := map_eq_some_iff.mp hd
  obtain ⟨hn,-,hv⟩ := ready_some hi
  refine ⟨?_,?_,?_,holds_of_ready hi,fun q x => Iff.rfl⟩
  · exact ⟨h.mem_lru,h.nodup_lru,h.key_inj,h.used,h.valid,h.holder,h.once,h.refcnt,h.cached⟩
  · rw [h.content_of_ready hi,hn.2]
  · intro x
    have hs : ∀ D, Cache.slotOf { c with disk := D } x = c.slotOf x := fun _ => rfl
    unfold Cache.content
    rw [hs]
    cases hx : c.slotOf x with
    | none =>
      have : x ≠ (c.buf i).blockno := by
        rintro rfl
        exact h.slotOf_none.mp hx i ⟨hn.1,rfl⟩
      simp [update_of_ne this]
    | some j =>
      by_cases hvj : (c.buf j).valid
      · simp [hvj]
      · have : x ≠ (c.buf i).blockno := by
          rintro rfl
          cases h.key_inj i j _ ⟨hn.1,rfl⟩ (names_of_slotOf hx)
          exact hvj hv
        simp [hvj,update_of_ne this]

theorem releasesleep_spec (hd : c.releasesleep p b = some d) :
    WF pin d ∧ d.disk = c.disk ∧ (∀ x, d.content x = c.content x) ∧ c.Holds p b ∧
    ∀ q x, d.Holds q x ↔ c.Holds q x ∧ x ≠ b := by
  obtain ⟨i,hi,rfl⟩ := map_eq_some_iff.mp hd
  obtain ⟨hn,hu⟩ := useOf_some hi
  have hk : Keeps c i { c.buf i with holder := none } := ⟨rfl,rfl⟩
  have hp := (h.holder i p).mpr hu
  have hgone (q : Pid) : (c.uses.erase ⟨p,i,.hold⟩).count ⟨q,i,.hold⟩ = 0 := by
    by_cases hq : q = p
    · subst hq
      have := h.once i q
      rw [count_erase_self]
      omega
    · rw [count_erase_of_ne (by simp [hq]),count_eq_zero,← h.holder,hp]
      simp [Ne.symm hq]
  have hmem (q : Pid) (j : Fin NBUF) : (⟨q,j,.hold⟩ : Use) ∈
      (⟨p,i,.rel⟩::c.uses.erase ⟨p,i,.hold⟩ : List Use) ↔ ⟨q,j,.hold⟩ ∈ c.uses ∧ j ≠ i := by
    rw [mem_cons,← count_pos_iff (l := c.uses.erase _)]
    by_cases hj : j = i
    · subst hj
      simp [hgone q]
    · rw [count_erase_of_ne (by simp [hj]),count_pos_iff]
      simp [hj]
  refine ⟨?_,rfl,hk.content_same _ h hn rfl rfl,⟨i,hn,hu⟩,?_⟩
  · refine h.change _ hn hk ?_ ?_ ?_ ?_ (fun _ _ => rfl) ?_
    · intro j hj
      have := countP_slot_erase hu j
      simp only [Ne.symm hj,if_false] at this
      simpa [Ne.symm hj,Cache.usesOf] using this
    · intro j hj q
      rw [count_cons_of_ne (by simp),count_erase_of_ne (by simp [hj])]
    · intro q
      simp [hmem]
    · intro q
      rw [count_cons_of_ne (by simp),hgone]
      omega
    · have := countP_slot_erase hu i
      simp only [if_true] at this
      rw [countP_cons_of_pos (by simp),this]
      exact h.refcnt_names hn
  · intro q x
    rw [hk.holds _]
    simp only [hmem]
    constructor
    · rintro ⟨j,hj,hq,hji⟩
      refine ⟨⟨j,hj,hq⟩,?_⟩
      rintro rfl
      exact hji (h.key_inj j i x hj hn)
    · rintro ⟨⟨j,hj,hq⟩,hx⟩
      refine ⟨j,hj,hq,?_⟩
      rintro rfl
      exact hx (hj.2.symm.trans hn.2)

/-- The order of the list does not matter to anything but the choice of a buffer to recycle. -/
lemma WF.setLru {l : List (Fin NBUF)} (hm : ∀ i, i ∈ l) (hl : l.Nodup) :
    WF pin { c with lru := l } ∧ Same c { c with lru := l } := by
  have hw : WF pin { c with lru := l } :=
    ⟨hm,hl,h.key_inj,h.used,h.valid,h.holder,h.once,h.refcnt,h.cached⟩
  refine ⟨hw,rfl,?_,fun _ _ => Iff.rfl⟩
  intro x
  by_cases hx : ∃ i, c.Names i x
  · obtain ⟨i,hi⟩ := hx
    rw [h.content_of_names hi]
    exact hw.content_of_names hi
  · rw [h.content_of_not fun i hi => hx ⟨i,hi⟩]
    exact hw.content_of_not fun i hi => hx ⟨i,hi⟩

end

lemma Same.trans {e : Cache} (h : Same c d) (h' : Same d e) : Same c e :=
  ⟨h'.disk.trans h.disk,fun x => (h'.content x).trans (h.content x),
    fun q x => (h'.holds q x).trans (h.holds q x)⟩

theorem drop_spec (h : WF pin c) (hd : c.drop p b = some d) : WF pin d ∧ Same c d := by
  obtain ⟨i,hi,rfl⟩ := map_eq_some_iff.mp hd
  obtain ⟨hn,hu⟩ := useOf_some hi
  have hk : Keeps c i { c.buf i with refcnt := (c.buf i).refcnt-1 } := ⟨rfl,rfl⟩
  have hmem (q : Pid) (j : Fin NBUF) : (⟨q,j,.hold⟩ : Use) ∈ c.uses.erase ⟨p,i,.rel⟩ ↔
      ⟨q,j,.hold⟩ ∈ c.uses := mem_erase_of_ne (by simp)
  have hw : WF pin ((c.setBuf i { c.buf i with refcnt := (c.buf i).refcnt-1 }).setUses
      (c.uses.erase ⟨p,i,.rel⟩)) := by
    refine h.change _ hn hk ?_ ?_ ?_ ?_ (fun _ _ => rfl) ?_
    · intro j hj
      have := countP_slot_erase hu j
      simpa [Ne.symm hj,Cache.usesOf] using this
    · intro j hj q
      exact count_hold_erase _ _ (by simp) _ _
    · intro q
      rw [hmem]
      exact h.holder i q
    · intro q
      rw [count_hold_erase _ _ (by simp)]
      exact h.once i q
    · have h₁ := countP_slot_erase hu i
      have h₂ := h.refcnt_names hn
      simp only [if_true] at h₁
      simp only
      omega
  have hs : Same c ((c.setBuf i { c.buf i with refcnt := (c.buf i).refcnt-1 }).setUses
      (c.uses.erase ⟨p,i,.rel⟩)) := by
    refine ⟨rfl,hk.content_same _ h hn rfl rfl,?_⟩
    intro q x
    rw [hk.holds _]
    simp only [hmem]
    rfl
  simp only
  split_ifs
  · obtain ⟨hw',hs'⟩ := hw.setLru (l := i::c.lru.erase i)
      (fun j => by
        by_cases hj : j = i
        · simp [hj]
        · exact mem_cons_of_mem _ ((mem_erase_of_ne hj).mpr (h.mem_lru j)))
      (nodup_cons.mpr ⟨h.nodup_lru.not_mem_erase,h.nodup_lru.erase i⟩)
    exact ⟨hw',hs.trans hs'⟩
  · exact ⟨hw,hs⟩

lemma WF.setRefcnt (h : WF pin c) (hi : c.Names i b) {n m : ℕ}
    (hn : n = c.uses.countP (fun u => u.slot = i)+m) :
    WF (update pin b m) (c.setBuf i { c.buf i with refcnt := n }) ∧
    Same c (c.setBuf i { c.buf i with refcnt := n }) := by
  have hk : Keeps c i { c.buf i with refcnt := n } := ⟨rfl,rfl⟩
  refine ⟨?_,rfl,hk.content_same c.uses h hi rfl rfl,hk.holds c.uses⟩
  refine h.change c.uses hi hk (fun _ _ => rfl) (fun _ _ _ => rfl) (h.holder i) (h.once i) ?_ ?_
  · intro x hx
    exact update_of_ne hx _ _
  · simpa using hn

theorem bpin_spec (h : WF pin c) (hd : c.bpin b = some d) :
    WF (update pin b (pin b+1)) d ∧ Same c d := by
  obtain ⟨i,hi,rfl⟩ := map_eq_some_iff.mp hd
  have hn := names_of_slotOf hi
  have := h.refcnt_names hn
  exact h.setRefcnt hn (by omega)

theorem bunpin_spec (h : WF pin c) (hpos : 0 < pin b) (hd : c.bunpin b = some d) :
    WF (update pin b (pin b-1)) d ∧ Same c d := by
  obtain ⟨i,hi,rfl⟩ := map_eq_some_iff.mp hd
  have hn := names_of_slotOf hi
  have := h.refcnt_names hn
  exact h.setRefcnt hn (by omega)

theorem init_wf (d : Disk) : WF (fun _ => 0) (Cache.init d) where
  mem_lru i := by simp [Cache.init]
  nodup_lru := nodup_reverse.mpr (nodup_finRange NBUF)
  key_inj i j b h := absurd h.1 (by simp [Cache.init,ROOTDEV])
  used i h := absurd h (by simp [Cache.init])
  valid i h := absurd h (by simp [Cache.init])
  holder i p := by simp [Cache.init]
  once i p := by simp [Cache.init]
  refcnt i := by simp [Cache.init,Cache.usesOf,ROOTDEV]
  cached b h := absurd h (by simp)

lemma init_content (d : Disk) (b : ℕ) : (Cache.init d).content b = d b :=
  (init_wf d).content_of_not fun i h => absurd h.1 (by simp [Cache.init,ROOTDEV])

end Operations

end Xv6.Bio
