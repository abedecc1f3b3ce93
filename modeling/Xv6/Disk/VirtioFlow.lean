import Xv6.Disk.VirtioChains

/-! The requests on their way. A head is made visible in the avail ring, taken by the device,
carried out, reported in the used ring, seen by the interrupt handler and freed by the thread that
waits for it, and at each moment it is at exactly one of these places. -/
namespace Xv6.Virtio
open Xv6.Lib List
open Function (update update_self update_of_ne)

/-- A phase in which the device has carried out the request. -/
def Phase.served : Phase → Bool
  | busy true | used | seen => true
  | _ => false

/-- A phase in which the device has reported the request. -/
def Phase.closed : Phase → Bool
  | used | seen => true
  | _ => false

/-- The heads in the phase `g` are those on a list, each once. -/
structure Lists (f : ℕ → Phase) (g : Phase) (l : List ℕ) : Prop where
  nodup : l.Nodup
  mem : ∀ i, f i = g ↔ i ∈ l

/-- What holds of a request that the device can see. -/
structure Sys.Request (s : Sys) (c : Call) (x : Idx) (k : ℕ) : Prop where
  head : s.heads[k]? = some x.i0
  waits : s.phase x.i0 = .queued → s.taken ≤ k
  job : ∀ j ∈ s.jobs, j.head = x.i0 → j.ticket = k
  flag : s.bdisk c.b = true ↔ s.phase x.i0 ≠ .seen
  served : (s.phase x.i0).served = true → (s.disk.info x.i0).status = 0 ∧
    { ticket := k, out := c.write, sector := c.sector, b := c.b } ∈ s.log
  finished : (s.phase x.i0).closed = true → k ∈ s.finished

structure Flow (s : Sys) : Prop where
  avail : Lib.Ring.Holds NUM (2^16) s.disk.avail.ring s.lastAvail.toNat s.disk.avail.idx.toNat
    s.heads s.taken
  used : Lib.Ring.Holds NUM (2^16) s.disk.used.ring s.disk.usedIdx.toNat s.disk.used.idx.toNat
    s.reported s.seen
  ready : ∀ p c x, s.pc p = .publish c x →
    s.disk.avail.ring (s.disk.avail.idx.toNat%NUM) = x.i0
  armed : ∀ p c x, s.pc p = .ring c x ∨ s.pc p = .publish c x → s.bdisk c.b = true
  pending : ∀ p, s.pc p = .intrBody → s.seen < s.reported.length
  live : ∀ h, s.phase h ≠ .idle ↔ ∃ p c x k, (s.pc p).live? = some (c,x,k) ∧ x.i0 = h
  queued : Lists s.phase .queued (s.heads.drop s.taken)
  busy : ∀ h d, s.phase h = .busy d ↔ ∃ j ∈ s.jobs, j.head = h ∧ j.done = d
  busyOnce : (s.jobs.map Job.head).Nodup
  reported : Lists s.phase .used (s.reported.drop s.seen)
  request : ∀ p c x k, (s.pc p).live? = some (c,x,k) → s.Request c x k

/-- The transfers: one for each request at most. -/
structure Ledger (s : Sys) : Prop where
  once : (s.log.map Transfer.ticket).Nodup
  old : ∀ e ∈ s.log, e.ticket < s.taken
  jobs : ∀ j ∈ s.jobs, j.ticket < s.taken
  jobsOnce : (s.jobs.map Job.ticket).Nodup
  undone : ∀ j ∈ s.jobs, j.done = false → j.ticket ∉ s.log.map Transfer.ticket

lemma Job.after_head (j i : Job) : (j.after i).head = i.head := by
  by_cases h : i = j <;> simp [after,h]

lemma Job.after_ticket (j i : Job) : (j.after i).ticket = i.ticket := by
  by_cases h : i = j <;> simp [after,h]

lemma Pc.chain_of_live {q : Pc} {c : Call} {x : Idx} {k : ℕ} (h : q.live? = some (c,x,k)) :
    q.chain? = some (c,x) ∧ q.formatted = true := by
  cases q <;> simp_all [live?,chain?,formatted]

lemma Pc.call_of_chain {q : Pc} {c : Call} {x : Idx} (h : q.chain? = some (c,x)) :
    q.call? = some c := by
  cases q <;> simp_all [chain?,call?]

lemma length_lt_of_nodup {l : List ℕ} {a n : ℕ} (hl : l.Nodup) (ha : a < n)
    (h : ∀ i ∈ l, i < n ∧ i ≠ a) : l.length < n := by
  have hsub : l.toFinset ⊆ (Finset.range n).erase a := by
    intro i hi
    have := h i (mem_toFinset.mp hi)
    exact Finset.mem_erase.mpr ⟨this.2,Finset.mem_range.mpr this.1⟩
  have hcard := Finset.card_le_card hsub
  rw [toFinset_card_of_nodup hl,Finset.card_erase_of_mem (Finset.mem_range.mpr ha),
    Finset.card_range] at hcard
  omega

/-- What the phase `g` of the head `a` has in common with the one before holds of every head. -/
lemma update_iff {P : Phase → Prop} {f : ℕ → Phase} {a i : ℕ} {g : Phase} (h : P g ↔ P (f a)) :
    P (update f a g i) ↔ P (f i) := by
  by_cases hi : i = a
  · rw [hi,update_self,h]
  · rw [update_of_ne hi]

namespace Lists
variable {f : ℕ → Phase} {g g' : Phase} {l : List ℕ} {a : ℕ}

lemma keep (h : Lists f g l) (ha : f a ≠ g) (hg : g' ≠ g) : Lists (update f a g') g l :=
  ⟨h.nodup,fun i => (update_iff (P := (· = g)) (iff_of_false hg ha)).trans (h.mem i)⟩

lemma push (h : Lists f g l) (ha : f a ≠ g) : Lists (update f a g) g (l++[a]) := by
  refine ⟨nodup_append.mpr ⟨h.nodup,nodup_singleton _,?_⟩,fun i => ?_⟩
  · rintro b hb _ hc rfl
    exact ha (mem_singleton.mp hc ▸ (h.mem b).mpr hb)
  · by_cases hi : i = a <;> simp [hi,h.mem i]

lemma pop (h : Lists f g (a::l)) (hg : g' ≠ g) : Lists (update f a g') g l := by
  obtain ⟨ha,hl⟩ := nodup_cons.mp h.nodup
  refine ⟨hl,fun i => ?_⟩
  by_cases hi : i = a
  · simp [hi,hg,ha]
  · simp [hi,h.mem i]

end Lists

section
variable {s t : Sys} {c : Call} {x : Idx} {k : ℕ}

/-- A request that stays in its phase. -/
lemma Sys.Request.keep (h : s.Request c x k) (hheads : s.heads <+: t.heads)
    (hphase : t.phase x.i0 = s.phase x.i0)
    (htaken : s.phase x.i0 = .queued → s.taken ≤ k → t.taken ≤ k)
    (hjobs : ∀ j ∈ t.jobs, j.head = x.i0 → ∃ i ∈ s.jobs, i.head = j.head ∧ i.ticket = j.ticket)
    (hflag : t.bdisk c.b = s.bdisk c.b)
    (hstatus : (t.disk.info x.i0).status = (s.disk.info x.i0).status) (hlog : s.log ⊆ t.log)
    (hfin : s.finished ⊆ t.finished) : t.Request c x k := by
  refine ⟨?_,?_,fun j hj he => ?_,?_,?_,?_⟩
  · obtain ⟨l,hl⟩ := hheads
    rw [← hl,getElem?_append_left (List.getElem?_eq_some_iff.mp h.head).1,h.head]
  · rw [hphase]
    exact fun hq => htaken hq (h.waits hq)
  · obtain ⟨i,hi,hh,ht⟩ := hjobs j hj he
    exact ht.symm.trans (h.job i hi (hh.trans he))
  · rw [hphase,hflag]
    exact h.flag
  · rw [hphase,hstatus]
    exact fun hs => (h.served hs).imp_right fun hm => hlog hm
  · rw [hphase]
    exact fun hs => hfin (h.finished hs)

end

namespace Flow
variable {s t : Sys} {p q : Pid} {c : Call} {x : Idx} {k : ℕ}

lemma lt_num (h : Flow s) (hch : Chains s) {i : ℕ} (hi : s.phase i ≠ .idle) : i < NUM := by
  obtain ⟨p,c,x,k,hp,rfl⟩ := (h.live i).mp hi
  exact ((hch.chain p c x (Pc.chain_of_live hp).1).2 x.i0 (by simp [Idx.list])).1

/-- A request that is not visible yet has a head of its own. -/
lemma ne_of_chain (h : Flow s) (hch : Chains s) (hp : (s.pc p).chain? = some (c,x))
    (hl : (s.pc p).live? = none) {i : ℕ} (hi : s.phase i ≠ .idle) : i ∉ x.list := by
  obtain ⟨q,c',x',k,hq,rfl⟩ := (h.live i).mp hi
  have hqp : q ≠ p := by
    rintro rfl
    rw [hl] at hq
    cases hq
  exact hch.not_mem hqp (Pc.chain_of_live hq).1 hp (by simp [Idx.list])

/-- Two requests have different heads and different buffers. -/
lemma ne_of_chains (hch : Chains s) {c' : Call} {x' : Idx} (hne : q ≠ p)
    (hq : (s.pc q).chain? = some (c',x')) (hp : (s.pc p).chain? = some (c,x)) :
    x'.i0 ≠ x.i0 ∧ c'.b ≠ c.b := by
  constructor
  · intro he
    exact hch.not_mem (i := x'.i0) hne hq hp (by simp [Idx.list]) (by simp [Idx.list,he])
  · intro he
    have h₁ := hch.bufs q c' (Pc.call_of_chain hq)
    rw [he,hch.bufs p c (Pc.call_of_chain hp)] at h₁
    exact hne (Option.some_inj.mp h₁).symm

/-- The head tells which request it is. -/
lemma live_unique (hch : Chains s) {c' : Call} {x' : Idx} {k' : ℕ}
    (hq : (s.pc q).live? = some (c',x',k')) (hp : (s.pc p).live? = some (c,x,k))
    (he : x'.i0 = x.i0) : c' = c ∧ x' = x ∧ k' = k := by
  have hqp : q = p := by
    by_contra hqp
    exact (ne_of_chains hch hqp (Pc.chain_of_live hq).1 (Pc.chain_of_live hp).1).1 he
  subst hqp
  simpa [hp,eq_comm] using hq

/-- The avail ring has room for one more head. -/
lemma room (h : Flow s) (hch : Chains s) (hp : (s.pc p).chain? = some (c,x))
    (hl : (s.pc p).live? = none) : s.heads.length-s.taken < NUM := by
  rw [←length_drop]
  refine length_lt_of_nodup h.queued.nodup
    ((hch.chain p c x hp).2 x.i0 (by simp [Idx.list])).1 ?_
  intro i hi
  have hne : s.phase i ≠ .idle := by
    rw [(h.queued.mem i).mpr hi]
    simp
  refine ⟨h.lt_num hch hne,?_⟩
  rintro rfl
  exact h.ne_of_chain hch hp hl hne (by simp [Idx.list])

lemma live_goto {r : Pc} (hr : r.live? = (s.pc p).live?) (q : Pid) :
    (update s.pc p r q).live? = (s.pc q).live? := by
  by_cases hqp : q = p
  · rw [hqp,update_self,hr]
  · rw [update_of_ne hqp]

lemma of_same (h : Flow s) (hpub : ∀ p c x, t.pc p = .publish c x →
      t.disk.avail.ring (t.disk.avail.idx.toNat%NUM) = x.i0)
    (harm : ∀ p c x, t.pc p = .ring c x ∨ t.pc p = .publish c x → t.bdisk c.b = true)
    (hpend : ∀ p, t.pc p = .intrBody → t.seen < t.reported.length)
    (hlive : ∀ p, (t.pc p).live? = (s.pc p).live?)
    (hav : Lib.Ring.Holds NUM (2^16) t.disk.avail.ring t.lastAvail.toNat t.disk.avail.idx.toNat
      s.heads s.taken)
    (hus : t.disk.used = s.disk.used) (hui : t.disk.usedIdx = s.disk.usedIdx)
    (hst : ∀ p c x k, (s.pc p).live? = some (c,x,k) →
      (t.disk.info x.i0).status = (s.disk.info x.i0).status ∧ t.bdisk c.b = s.bdisk c.b)
    (hrest : t.jobs = s.jobs ∧ t.heads = s.heads ∧ t.taken = s.taken ∧
      t.reported = s.reported ∧ t.seen = s.seen ∧ t.phase = s.phase ∧ t.log = s.log ∧
      t.finished = s.finished) :
    Flow t := by
  obtain ⟨h₂,h₃,h₄,h₅,h₆,h₇,h₈,h₉⟩ := hrest
  constructor
  case avail => rw [h₃,h₄]; exact hav
  case used => rw [hus,hui,h₅,h₆]; exact h.used
  case ready => exact hpub
  case armed => exact harm
  case pending => exact hpend
  case live => simpa only [hlive,h₇] using h.live
  case queued => rw [h₃,h₄,h₇]; exact h.queued
  case busy => rw [h₂,h₇]; exact h.busy
  case busyOnce => rw [h₂]; exact h.busyOnce
  case reported => rw [h₅,h₆,h₇]; exact h.reported
  case request =>
    intro p c x k hp
    rw [hlive] at hp
    exact (h.request p c x k hp).keep (by rw [h₃]) (by rw [h₇]) (by rw [h₄]; exact fun _ => id)
      (by rw [h₂]; exact fun j hj _ => ⟨j,hj,rfl,rfl⟩) (hst p c x k hp).2 (hst p c x k hp).1
      (by rw [h₈]; exact fun _ => id) (by rw [h₉]; exact fun _ => id)

lemma move {r : Pc} (h : Flow s) (hpc : t.pc = update s.pc p r)
    (hr : r.live? = (s.pc p).live?) (hpub : ∀ c x, r ≠ .ring c x ∧ r ≠ .publish c x)
    (hintr : r = .intrBody → s.seen < s.reported.length)
    (hdisk : t.disk = s.disk) (hb : t.bdisk = s.bdisk)
    (hrest : t.lastAvail = s.lastAvail ∧ t.jobs = s.jobs ∧ t.heads = s.heads ∧
      t.taken = s.taken ∧ t.reported = s.reported ∧ t.seen = s.seen ∧ t.phase = s.phase ∧
      t.log = s.log ∧ t.finished = s.finished) : Flow t := by
  have hself : t.pc p = r := by rw [hpc,update_self]
  have hother : ∀ q, q ≠ p → t.pc q = s.pc q := fun q hq => by
    rw [hpc,update_of_ne hq]
  refine h.of_same ?_ ?_ ?_ ?_ ?_ (by rw [hdisk]) (by rw [hdisk])
    (fun _ _ _ _ _ => ⟨by rw [hdisk],by rw [hb]⟩) hrest.2
  · intro q c x hq
    rw [hdisk]
    have hqp : q ≠ p := by
      rintro rfl
      exact (hpub c x).2 (hself.symm.trans hq)
    exact h.ready q c x (hother q hqp ▸ hq)
  · intro q c x hq
    rw [hb]
    have hqp : q ≠ p := by
      rintro rfl
      rw [hself] at hq
      exact hq.elim (hpub c x).1 (hpub c x).2
    exact h.armed q c x (hother q hqp ▸ hq)
  · intro q hq
    rw [hrest.2.2.2.2.1,hrest.2.2.2.2.2.1]
    by_cases hqp : q = p
    · exact hintr (hself.symm.trans (hqp ▸ hq))
    · exact h.pending q (hother q hqp ▸ hq)
  · rw [hpc]
    exact live_goto hr
  · rw [hdisk,hrest.1]
    exact h.avail

lemma wakeFree (h : Flow s) : Flow s.wakeFree := by
  refine h.of_same (t := s.wakeFree) ?_ ?_ ?_ ?_ h.avail rfl rfl (fun _ _ _ _ _ => ⟨rfl,rfl⟩)
    ⟨rfl,rfl,rfl,rfl,rfl,rfl,rfl,rfl⟩
  · intro p c x hp
    exact h.ready p c x (by simpa [Sys.wakeFree] using hp)
  · intro p c x hp
    apply h.armed p c x
    cases hq : s.pc p <;> simp_all [Sys.wakeFree,Pc.wakeFree]
  · intro p hp
    apply h.pending p
    cases hq : s.pc p <;> simp_all [Sys.wakeFree,Pc.wakeFree]
  · intro p
    simp [Sys.wakeFree]

lemma wakeBuf (h : Flow s) (b : ℕ) : Flow (s.wakeBuf b) := by
  have hne : ∀ p q, (s.wakeBuf b).pc p = q → (∀ c x k, q ≠ .wantTest c x k) → s.pc p = q := by
    intro p q hp hq
    simp only [Sys.wakeBuf] at hp
    cases hpc : s.pc p with
    | sleepDisk c x k =>
      rw [hpc] at hp
      obtain hw | hw := Pc.wakeBuf_sleepDisk b c x k
      · exact absurd (hp.symm.trans hw) (hq c x k)
      · exact hw.symm.trans hp
    | _ => rwa [hpc] at hp
  refine h.of_same (t := s.wakeBuf b) ?_ ?_ ?_ ?_ h.avail rfl rfl (fun _ _ _ _ _ => ⟨rfl,rfl⟩)
    ⟨rfl,rfl,rfl,rfl,rfl,rfl,rfl,rfl⟩
  · intro p c x hp
    exact h.ready p c x (hne p _ hp (by simp))
  · intro p c x hp
    exact h.armed p c x (hp.imp (fun hp => hne p _ hp (by simp)) (fun hp => hne p _ hp (by simp)))
  · intro p hp
    exact h.pending p (hne p _ hp (by simp))
  · intro p
    simp [Sys.wakeBuf]

/-- The lock keeps the others from the positions before a request is visible: only `p`, which holds
it, can be at one after it moves on to `r`. -/
lemma held (hch : Chains s) (hp : (s.pc p).holds = true) {r r' : Pc} (hr : r'.holds = true)
    (hq : update s.pc p r q = r') : q = p ∧ r = r' := by
  by_cases hqp : q = p
  · subst hqp
    exact ⟨rfl,by rwa [update_self] at hq⟩
  · rw [update_of_ne hqp] at hq
    have h₁ := (hch.lock q).mp (by rw [hq,hr])
    rw [(hch.lock p).mp hp] at h₁
    exact absurd (Option.some_inj.mp h₁).symm hqp

section
variable (h : Flow s)
include h

section
variable (hch : Chains s)
include hch

lemma formatted (hc : s.pc p = .format c x) : Flow ({ s with
      disk := formatDisk s.disk c x
      bdisk := update s.bdisk c.b true }.goto p (.ring c x)) := by
  have hp : (s.pc p).holds = true := by rw [hc]; rfl
  have hnone : (s.pc p).live? = none := by rw [hc]; rfl
  refine h.of_same ?_ ?_ ?_ (live_goto hnone.symm) h.avail rfl rfl ?_
    ⟨rfl,rfl,rfl,rfl,rfl,rfl,rfl,rfl⟩
  · intro q c' x' hq
    cases (held hch hp rfl hq).2
  · rintro q c' x' (hq | hq) <;> cases (held hch hp rfl hq).2
    simp [Sys.goto]
  · intro q hq
    cases (held hch hp rfl hq).2
  · intro q c' x' k hq
    have hqp : q ≠ p := by
      rintro rfl
      rw [hnone] at hq
      cases hq
    obtain ⟨hi,hb⟩ := ne_of_chains (c := c) (x := x) hch hqp (Pc.chain_of_live hq).1 (by rw [hc]; rfl)
    simp [Sys.goto,formatDisk,hi,hb]

/-- The head is stored in the avail ring, where no head waits for the device. -/
lemma stored (hc : s.pc p = .ring c x) : Flow ({ s with
      disk := { s.disk with avail := { s.disk.avail with
        ring := update s.disk.avail.ring (s.disk.avail.idx.toNat%NUM) x.i0 } } }.goto p
      (.publish c x)) := by
  have hp : (s.pc p).holds = true := by rw [hc]; rfl
  refine h.of_same ?_ ?_ ?_ (live_goto (by rw [hc]; rfl)) ?_ rfl rfl (fun _ _ _ _ _ => ⟨rfl,rfl⟩)
    ⟨rfl,rfl,rfl,rfl,rfl,rfl,rfl,rfl⟩
  · intro q c' x' hq
    cases (held hch hp rfl hq).2
    simp [Sys.goto]
  · rintro q c' x' (hq | hq) <;> cases (held hch hp rfl hq).2
    exact h.armed p c x (.inl hc)
  · intro q hq
    cases (held hch hp rfl hq).2
  · exact h.avail.store (by decide) (h.room hch (by rw [hc]; rfl) (by rw [hc]; rfl)) x.i0

lemma published (hc : s.pc p = .publish c x) : Flow ({ s with
      disk := { s.disk with avail := { s.disk.avail with idx := s.disk.avail.idx+1 } }
      heads := s.heads++[x.i0]
      phase := update s.phase x.i0 .queued }.goto p (.test c x s.heads.length)) := by
  have hp : (s.pc p).holds = true := by rw [hc]; rfl
  have hchain : (s.pc p).chain? = some (c,x) := by rw [hc]; rfl
  have hnone : (s.pc p).live? = none := by rw [hc]; rfl
  have hidle : s.phase x.i0 = .idle := by
    by_contra hne
    exact h.ne_of_chain hch hchain hnone hne (by simp [Idx.list])
  have hle := h.avail.taken_le
  have hdrop : (s.heads++[x.i0]).drop s.taken = s.heads.drop s.taken++[x.i0] :=
    drop_append_of_le_length hle
  have hnew : ∀ q c' x' k, (update s.pc p (.test c x s.heads.length) q).live? =
      some (c',x',k) → q = p ∧ c' = c ∧ x' = x ∧ k = s.heads.length ∨
        x'.i0 ≠ x.i0 ∧ (s.pc q).live? = some (c',x',k) := by
    intro q c' x' k hq
    by_cases hqp : q = p
    · left
      subst hqp
      obtain ⟨rfl,rfl,rfl⟩ : c = c' ∧ x = x' ∧ s.heads.length = k := by
        simpa [Pc.live?] using hq
      exact ⟨rfl,rfl,rfl,rfl⟩
    · right
      rw [update_of_ne hqp] at hq
      exact ⟨(ne_of_chains hch hqp (Pc.chain_of_live hq).1 hchain).1,hq⟩
  constructor
  case avail =>
    have := h.avail.advance (by decide) (h.room hch hchain hnone)
    rw [h.ready p c x hc] at this
    simpa [Sys.goto,UInt16.toNat_add] using this
  case used => exact h.used
  case ready =>
    intro q c' x' hq
    cases (held hch hp rfl hq).2
  case armed => rintro q c' x' (hq | hq) <;> cases (held hch hp rfl hq).2
  case pending =>
    intro q hq
    cases (held hch hp rfl hq).2
  case live =>
    intro i
    by_cases hi : i = x.i0
    · subst hi
      refine iff_of_true (by simp [Sys.goto]) ⟨p,c,x,s.heads.length,by simp [Sys.goto,Pc.live?],rfl⟩
    · simp only [Sys.goto,update_of_ne hi,h.live i]
      constructor
      · rintro ⟨q,c',x',k,hq,rfl⟩
        have hqp : q ≠ p := by
          rintro rfl
          rw [hnone] at hq
          cases hq
        exact ⟨q,c',x',k,by rwa [update_of_ne hqp],rfl⟩
      · rintro ⟨q,c',x',k,hq,rfl⟩
        obtain ⟨-,-,rfl,-⟩ | ⟨-,hq⟩ := hnew q c' x' k hq
        · exact absurd rfl hi
        · exact ⟨q,c',x',k,hq,rfl⟩
  case queued => exact hdrop ▸ h.queued.push (by simp [hidle])
  case busy => exact fun i d => (update_iff (P := (· = .busy d)) (by simp [hidle])).trans (h.busy i d)
  case busyOnce => exact h.busyOnce
  case reported => exact h.reported.keep (by simp [hidle]) (by simp)
  case request =>
    intro q c' x' k hq
    obtain ⟨-,rfl,rfl,rfl⟩ | ⟨hne,hq⟩ := hnew q c' x' k hq
    · refine ⟨by simp [Sys.goto],fun _ => hle,fun j hj he => ?_,
        iff_of_true (h.armed p c' x' (.inr hc)) (by simp [Sys.goto]),
        by simp [Sys.goto,Phase.served],by simp [Sys.goto,Phase.closed]⟩
      have := (h.busy x'.i0 j.done).mpr ⟨j,hj,he,rfl⟩
      rw [hidle] at this
      cases this
    · exact (h.request q c' x' k hq).keep (prefix_append _ _) (update_of_ne hne _ _) (fun _ => id)
        (fun j hj _ => ⟨j,hj,rfl,rfl⟩) rfl rfl (fun _ => id) fun _ => id

lemma finish {info : ℕ → Info} {desc : ℕ → Desc} {free : ℕ → Bool} (hc : s.pc p = .test c x k) (hb : s.bdisk c.b = false)
    (hinfo : ∀ i, i ≠ x.i0 → info i = s.disk.info i) : Flow ({ s with
      pc := fun p => (s.pc p).wakeFree
      phase := update s.phase x.i0 .idle
      disk := { s.disk with info := info, desc := desc, free := free } }.release.goto p .out) := by
  have hp : (s.pc p).holds = true := by rw [hc]; rfl
  have hlp : (s.pc p).live? = some (c,x,k) := by rw [hc]; rfl
  have hseen : s.phase x.i0 = .seen := by
    by_contra hne
    rw [(h.request p c x k hlp).flag.mpr hne] at hb
    cases hb
  have hother : ∀ q c' x' k', (update (fun p => (s.pc p).wakeFree) p .out q).live? =
      some (c',x',k') → (s.pc q).live? = some (c',x',k') ∧ x'.i0 ≠ x.i0 := by
    intro q c' x' k' hq
    by_cases hqp : q = p
    · simp [hqp,Pc.live?] at hq
    · have hq' : (s.pc q).live? = some (c',x',k') := by simpa [hqp] using hq
      exact ⟨hq',(ne_of_chains hch hqp (Pc.chain_of_live hq').1 (Pc.chain_of_live hlp).1).1⟩
  have hw := h.wakeFree
  have hpos : ∀ q r, update (fun p => (s.pc p).wakeFree) p .out q = r → r ≠ .out →
      s.wakeFree.pc q = r := by
    intro q r hq hr
    by_cases hqp : q = p
    · subst hqp
      rw [update_self] at hq
      exact absurd hq.symm hr
    · rwa [update_of_ne hqp] at hq
  constructor
  case avail => exact h.avail
  case used => exact h.used
  case ready =>
    intro q c' x' hq
    exact hw.ready q c' x' (hpos q _ hq (by simp))
  case armed =>
    intro q c' x' hq
    exact hw.armed q c' x' (hq.imp (fun hq => hpos q _ hq (by simp)) (fun hq => hpos q _ hq (by simp)))
  case pending =>
    intro q hq
    exact hw.pending q (hpos q _ hq (by simp))
  case live =>
    intro i
    by_cases hi : i = x.i0
    · subst hi
      simp only [Sys.goto,Sys.release,update_self,ne_eq,not_true_eq_false,false_iff]
      rintro ⟨q,c',x',k',hq,he⟩
      exact (hother q c' x' k' hq).2 he
    · simp only [Sys.goto,Sys.release,update_of_ne hi,h.live i]
      constructor
      · rintro ⟨q,c',x',k',hq,rfl⟩
        have hqp : q ≠ p := by
          rintro rfl
          obtain ⟨-,rfl,-⟩ : c = c' ∧ x = x' ∧ k = k' := by simpa [hlp] using hq
          exact hi rfl
        exact ⟨q,c',x',k',by simpa [hqp] using hq,rfl⟩
      · rintro ⟨q,c',x',k',hq,rfl⟩
        exact ⟨q,c',x',k',(hother q c' x' k' hq).1,rfl⟩
  case queued => exact h.queued.keep (by simp [hseen]) (by simp)
  case busy => exact fun i d => (update_iff (P := (· = .busy d)) (by simp [hseen])).trans (h.busy i d)
  case busyOnce => exact h.busyOnce
  case reported => exact h.reported.keep (by simp [hseen]) (by simp)
  case request =>
    intro q c' x' k' hq
    obtain ⟨hq,hne⟩ := hother q c' x' k' hq
    exact (h.request q c' x' k' hq).keep (prefix_refl _) (update_of_ne hne _ _) (fun _ => id)
      (fun j hj _ => ⟨j,hj,rfl,rfl⟩) rfl (by simp [Sys.goto,Sys.release,hinfo _ hne]) (fun _ => id)
      fun _ => id

/-- What the handler finds at the front of the used ring: a request that is served, with the
buffer of the call it belongs to. -/
lemma front (hlt : s.seen < s.reported.length) : ∃ p c x k, (s.pc p).live? = some (c,x,k) ∧
      s.disk.used.ring (s.disk.usedIdx.toNat%NUM) = x.i0 ∧ s.phase x.i0 = .used ∧
      s.reported.drop s.seen = x.i0::s.reported.drop (s.seen+1) ∧
      (s.disk.info x.i0).status = 0 ∧ (s.disk.info x.i0).b = some c.b := by
  have hfront := h.used.front (by decide) hlt
  obtain ⟨hlt',hget⟩ := List.getElem?_eq_some_iff.mp hfront
  have hdrop := drop_eq_getElem_cons hlt
  rw [hget] at hdrop
  have hused := (h.reported.mem _).mpr (by rw [hdrop]; exact mem_cons_self)
  obtain ⟨p,c,x,k,hp,he⟩ := (h.live _).mp (by rw [hused]; simp)
  rw [←he] at hdrop hused
  have hserved := (h.request p c x k hp).served (by rw [hused]; rfl)
  have hfmt := hch.format p c x (Pc.chain_of_live hp).1 (Pc.chain_of_live hp).2
  exact ⟨p,c,x,k,hp,he.symm,hused,hdrop,hserved.1,hfmt.buf⟩

lemma seen {q : Pid} (hc : s.pc p = .intrBody)
    (hq : (s.pc q).live? = some (c,x,k)) (hused : s.phase x.i0 = .used)
    (hlt : s.seen < s.reported.length)
    (hdrop : s.reported.drop s.seen = x.i0::s.reported.drop (s.seen+1)) : Flow ({ s with
      bdisk := update s.bdisk c.b false
      disk := { s.disk with usedIdx := s.disk.usedIdx+1 }
      seen := s.seen+1
      phase := update s.phase x.i0 .seen }.goto p .intrTest) := by
  have hp : (s.pc p).holds = true := by rw [hc]; rfl
  have hlive := live_goto (p := p) (r := .intrTest) (by rw [hc]; rfl)
  constructor
  case avail => exact h.avail
  case used => simpa [Sys.goto,UInt16.toNat_add] using h.used.pop hlt
  case ready =>
    intro r c' x' hr
    cases (held hch hp rfl hr).2
  case armed => rintro r c' x' (hr | hr) <;> cases (held hch hp rfl hr).2
  case pending =>
    intro r hr
    cases (held hch hp rfl hr).2
  case live =>
    intro i
    simp only [Sys.goto,hlive,←h.live i]
    exact update_iff (P := (· ≠ .idle)) (by simp [hused])
  case queued => exact h.queued.keep (by simp [hused]) (by simp)
  case busy => exact fun i d => (update_iff (P := (· = .busy d)) (by simp [hused])).trans (h.busy i d)
  case busyOnce => exact h.busyOnce
  case reported => exact (hdrop ▸ h.reported).pop (by simp)
  case request =>
    intro r c' x' k' hr
    simp only [Sys.goto,hlive] at hr
    have hr' := h.request r c' x' k' hr
    by_cases hi : x'.i0 = x.i0
    · obtain ⟨rfl,rfl,rfl⟩ := live_unique hch hr hq hi
      exact ⟨hr'.head,by simp [Sys.goto],hr'.job,by simp [Sys.goto],
        fun _ => hr'.served (by rw [hused]; rfl),fun _ => hr'.finished (by rw [hused]; rfl)⟩
    · have hrq : r ≠ q := by
        rintro rfl
        obtain ⟨-,rfl,-⟩ : c = c' ∧ x = x' ∧ k = k' := by simpa [hq] using hr
        exact hi rfl
      have hb := (ne_of_chains hch hrq (Pc.chain_of_live hr).1 (Pc.chain_of_live hq).1).2
      exact hr'.keep (prefix_refl _) (update_of_ne hi _ _) (fun _ => id)
        (fun j hj _ => ⟨j,hj,rfl,rfl⟩) (update_of_ne hb _ _) rfl (fun _ => id) fun _ => id

end

lemma taken (hne : s.lastAvail ≠ s.disk.avail.idx) : Flow { s with
      lastAvail := s.lastAvail+1
      jobs := s.jobs++[
        { ticket := s.taken, head := s.disk.avail.ring (s.lastAvail.toNat%NUM), done := false }]
      taken := s.taken+1
      phase := update s.phase (s.disk.avail.ring (s.lastAvail.toNat%NUM))
        (.busy false) } := by
  have hlt : s.taken < s.heads.length := by
    have hle := h.avail.taken_le
    by_contra hge
    exact hne (UInt16.toNat_inj.mp ((h.avail.empty_iff (by decide)).mpr (by omega)))
  have hfront := h.avail.front (by decide) hlt
  generalize s.disk.avail.ring (s.lastAvail.toNat%NUM) = head at hfront ⊢
  obtain ⟨_,hget⟩ := List.getElem?_eq_some_iff.mp hfront
  have hdrop := drop_eq_getElem_cons hlt
  rw [hget] at hdrop
  have hwait := hdrop ▸ h.queued
  have hqueued : s.phase head = .queued := (hwait.mem head).mpr mem_cons_self
  have hjob : head ∉ s.jobs.map Job.head := by
    intro hmem
    obtain ⟨j,hj,he⟩ := mem_map.mp hmem
    have := (h.busy head j.done).mpr ⟨j,hj,he,rfl⟩
    rw [hqueued] at this
    cases this
  constructor
  case avail => simpa [UInt16.toNat_add] using h.avail.pop hlt
  case used => exact h.used
  case ready => exact h.ready
  case armed => exact h.armed
  case pending => exact h.pending
  case live => exact fun i => (update_iff (P := (· ≠ .idle)) (by simp [hqueued])).trans (h.live i)
  case queued => exact hwait.pop (by simp)
  case busy =>
    intro i d
    simp only [mem_append,mem_singleton]
    by_cases hi : i = head
    · subst hi
      simp only [update_self,Phase.busy.injEq]
      constructor
      · rintro rfl
        exact ⟨_,.inr rfl,rfl,rfl⟩
      · rintro ⟨j,hj | rfl,he,hd⟩
        · exact absurd (mem_map.mpr ⟨j,hj,he⟩) hjob
        · exact hd
    · rw [update_of_ne hi,h.busy i d]
      constructor
      · rintro ⟨j,hj,he⟩
        exact ⟨j,.inl hj,he⟩
      · rintro ⟨j,hj | rfl,he⟩
        · exact ⟨j,hj,he⟩
        · exact absurd he.1.symm hi
  case busyOnce =>
    rw [map_append,nodup_append]
    refine ⟨h.busyOnce,nodup_singleton _,?_⟩
    rintro a ha b hb rfl
    obtain rfl : head = a := by simpa [eq_comm] using hb
    exact hjob ha
  case reported => exact h.reported.keep (by simp [hqueued]) (by simp)
  case request =>
    intro p c x k hp
    have hr := h.request p c x k hp
    obtain ⟨hk,hget'⟩ := List.getElem?_eq_some_iff.mp hr.head
    by_cases hi : x.i0 = head
    · -- the position of a waiting head is determined by the head
      have hpos : k = s.taken := by
        by_contra hkt
        have hle := hr.waits (by rw [hi,hqueued])
        apply (nodup_cons.mp hwait.nodup).1
        rw [← hi,← hget']
        exact mem_drop_iff_getElem.mpr ⟨k-(s.taken+1),by omega,by congr 1; omega⟩
      refine ⟨hr.head,by simp [hi],fun j hj he => ?_,hr.flag.trans (by simp [hi,hqueued]),
        by simp [hi,Phase.served],by simp [hi,Phase.closed]⟩
      obtain hj | hj := mem_append.mp hj
      · exact hr.job j hj he
      · rw [mem_singleton.mp hj,hpos]
    · refine hr.keep (prefix_refl _) (update_of_ne hi _ _) (fun _ hle => ?_) (fun j hj he => ?_) rfl rfl
        (fun _ => id) fun _ => id
      · have : k ≠ s.taken := by
          rintro rfl
          exact hi (hget'.symm.trans hget)
        show s.taken+1 ≤ k
        omega
      · obtain hj | hj := mem_append.mp hj
        · exact ⟨j,hj,rfl,rfl⟩
        · rw [mem_singleton.mp hj] at he
          exact absurd he.symm hi

/-- The request that a job of the device stands for. -/
lemma job_live {j : Job} (hj : j ∈ s.jobs) :
    s.phase j.head = .busy j.done ∧ ∃ p c x k, (s.pc p).live? = some (c,x,k) ∧ x.i0 = j.head ∧
      k = j.ticket := by
  have hbusy := (h.busy j.head j.done).mpr ⟨j,hj,rfl,rfl⟩
  obtain ⟨p,c,x,k,hp,he⟩ := (h.live j.head).mp (by rw [hbusy]; simp)
  exact ⟨hbusy,p,c,x,k,hp,he,((h.request p c x k hp).job j hj he.symm).symm⟩

lemma eq_of_head {j j' : Job} (hj : j ∈ s.jobs) (hj' : j' ∈ s.jobs)
    (he : j'.head = j.head) : j' = j :=
  inj_on_of_nodup_map h.busyOnce hj' hj he

end

/-- The chain of a request on its way reads as the call it belongs to. -/
lemma readChain_eq {d : Disk} (hf : Formatted d c x) :
    readChain d x.i0 = some ({ out := c.write, sector := c.sector },c.b,x.i0) := by
  have hnext : ∀ b : Bool, ((if b then 0 else VRING_DESC_F_WRITE) ||| VRING_DESC_F_NEXT) &&&
      VRING_DESC_F_NEXT ≠ 0 := by decide
  have hlast : VRING_DESC_F_WRITE &&& VRING_DESC_F_NEXT = 0 := by decide
  have hfirst : VRING_DESC_F_NEXT &&& VRING_DESC_F_NEXT ≠ 0 := by decide
  unfold readChain
  simp only [hf.first,hf.second,hf.third,hf.op]
  rw [if_pos ⟨hfirst,hnext c.write,hlast⟩]

lemma transferred {j : Job} (h : Flow s) (hch : Chains s) (hj : j ∈ s.jobs) (hd : j.done = false)
    (hp : (s.pc p).live? = some (c,x,k)) (he : x.i0 = j.head) (hk : k = j.ticket) :
    Flow { s with
      disk := { s.disk with
        info := update s.disk.info x.i0 { s.disk.info x.i0 with status := 0 } }
      jobs := s.jobs.map j.after
      phase := update s.phase j.head (.busy true)
      log := s.log++[{ ticket := j.ticket, out := c.write, sector := c.sector, b := c.b }] } := by
  have hbusy : s.phase j.head = .busy false := hd ▸ (h.job_live hj).1
  constructor
  case avail => exact h.avail
  case used => exact h.used
  case ready => exact h.ready
  case armed => exact h.armed
  case pending => exact h.pending
  case live => exact fun i => (update_iff (P := (· ≠ .idle)) (by simp [hbusy])).trans (h.live i)
  case queued => exact h.queued.keep (by simp [hbusy]) (by simp)
  case busy =>
    intro i d
    simp only [mem_map]
    by_cases hi : i = j.head
    · subst hi
      simp only [update_self,Phase.busy.injEq]
      constructor
      · rintro rfl
        exact ⟨_,⟨j,hj,rfl⟩,j.after_head j,by simp [Job.after]⟩
      · rintro ⟨_,⟨j',hj',rfl⟩,hh,hdone⟩
        rw [Job.after_head] at hh
        rw [h.eq_of_head hj hj' hh] at hdone
        simpa [Job.after] using hdone
    · rw [update_of_ne hi,h.busy i d]
      constructor
      · rintro ⟨j',hj',hh,hdone⟩
        have hne : j' ≠ j := by
          rintro rfl
          exact hi hh.symm
        exact ⟨j',⟨j',hj',by simp [Job.after,hne]⟩,hh,hdone⟩
      · rintro ⟨_,⟨j',hj',rfl⟩,hh,hdone⟩
        rw [Job.after_head] at hh
        have hne : j' ≠ j := by
          rintro rfl
          exact hi hh.symm
        rw [Job.after,if_neg hne] at hdone
        exact ⟨j',hj',hh,hdone⟩
  case busyOnce =>
    rw [map_map,show Job.head ∘ j.after = Job.head from funext j.after_head]
    exact h.busyOnce
  case reported => exact h.reported.keep (by simp [hbusy]) (by simp)
  case request =>
    intro q c' x' k' hq
    have hr := h.request q c' x' k' hq
    have hjobs : ∀ i ∈ s.jobs.map j.after, ∃ i' ∈ s.jobs, i'.head = i.head ∧
        i'.ticket = i.ticket := by
      intro i hi
      obtain ⟨i',hi',rfl⟩ := mem_map.mp hi
      exact ⟨i',hi',(j.after_head i').symm,(j.after_ticket i').symm⟩
    by_cases hi : x'.i0 = j.head
    · obtain ⟨rfl,rfl,rfl⟩ := live_unique hch hq hp (hi.trans he.symm)
      refine ⟨hr.head,by simp [hi],fun i hi' hh => ?_,hr.flag.trans (by simp [hi,hbusy]),
        fun _ => ⟨by simp,by simp [hk]⟩,by simp [hi,Phase.closed]⟩
      obtain ⟨i',hi',h₁,h₂⟩ := hjobs i hi'
      exact h₂.symm.trans (hr.job i' hi' (h₁.trans hh))
    · have hne : x'.i0 ≠ x.i0 := by rwa [he]
      exact hr.keep (prefix_refl _) (update_of_ne hi _ _) (fun _ => id) (fun i hi _ => hjobs i hi) rfl
        (by simp [hne]) (subset_append_left _ _) fun _ => id

lemma completed {j : Job} (h : Flow s) (hch : Chains s) (hj : j ∈ s.jobs) (hd : j.done = true) :
    Flow { s with
      disk := { s.disk with used :=
        { idx := s.disk.used.idx+1
          ring := update s.disk.used.ring (s.disk.used.idx.toNat%NUM) j.head } }
      jobs := s.jobs.erase j
      reported := s.reported++[j.head]
      phase := update s.phase j.head .used
      finished := s.finished++[j.ticket] } := by
  have hbusy : s.phase j.head = .busy true := hd ▸ (h.job_live hj).1
  have hnot : j.head ∉ s.reported.drop s.seen := by
    rw [← h.reported.mem,hbusy]
    simp
  have hle := h.used.taken_le
  have hdrop : (s.reported++[j.head]).drop s.seen = s.reported.drop s.seen++[j.head] :=
    drop_append_of_le_length hle
  have hjobs : s.jobs.Nodup := List.Nodup.of_map _ h.busyOnce
  have hmem : ∀ j', j' ∈ s.jobs.erase j ↔ j' ≠ j ∧ j' ∈ s.jobs := fun j' => hjobs.mem_erase_iff
  have hroom : s.reported.length-s.seen < NUM := by
    rw [←length_drop]
    refine length_lt_of_nodup h.reported.nodup (h.lt_num hch (i := j.head) (by rw [hbusy]; simp)) ?_
    intro i hi
    refine ⟨h.lt_num hch (by rw [(h.reported.mem i).mpr hi]; simp),?_⟩
    rintro rfl
    exact hnot hi
  constructor
  case avail => exact h.avail
  case used => simpa [UInt16.toNat_add] using h.used.push (by decide) hroom j.head
  case ready => exact h.ready
  case armed => exact h.armed
  case pending =>
    intro p hp
    simpa using (h.pending p hp).trans (Nat.lt_succ_self _)
  case live => exact fun i => (update_iff (P := (· ≠ .idle)) (by simp [hbusy])).trans (h.live i)
  case queued => exact h.queued.keep (by simp [hbusy]) (by simp)
  case busy =>
    intro i d
    simp only [hmem]
    by_cases hi : i = j.head
    · subst hi
      simp only [update_self,reduceCtorEq,false_iff]
      rintro ⟨j',⟨hne,hj'⟩,hh,-⟩
      exact hne (h.eq_of_head hj hj' hh)
    · rw [update_of_ne hi,h.busy i d]
      constructor
      · rintro ⟨j',hj',hh,hdone⟩
        refine ⟨j',⟨?_,hj'⟩,hh,hdone⟩
        rintro rfl
        exact hi hh.symm
      · rintro ⟨j',⟨-,hj'⟩,hh⟩
        exact ⟨j',hj',hh⟩
  case busyOnce => exact h.busyOnce.sublist (erase_sublist.map _)
  case reported => exact hdrop ▸ h.reported.push (by simp [hbusy])
  case request =>
    intro q c' x' k' hq
    have hr := h.request q c' x' k' hq
    have hjobs : ∀ i ∈ s.jobs.erase j, i ∈ s.jobs := fun i hi => ((hmem i).mp hi).2
    by_cases hi : x'.i0 = j.head
    · exact ⟨hr.head,by simp [hi],fun i hi => hr.job i (hjobs i hi),
        hr.flag.trans (by simp [hi,hbusy]),fun _ => hr.served (by rw [hi,hbusy]; rfl),
        fun _ => by simp [hr.job j hj hi.symm]⟩
    · exact hr.keep (prefix_refl _) (update_of_ne hi _ _) (fun _ => id)
        (fun i hi _ => ⟨i,hjobs i hi,rfl,rfl⟩) rfl rfl (fun _ => id) (subset_append_left _ _)

end Flow
end Xv6.Virtio
