import Xv6.Disk.VirtioFlow

/-! The request protocol as a whole: every step of a thread, of the handler or of the device keeps
the descriptors, the rings and the record of transfers in order, so no run reaches a panic and
`virtio_disk_rw` returns only when its own request is done. -/
namespace Xv6.Virtio
open Xv6.Lib List Option Pc
open Function (update update_self update_of_ne)

namespace Ledger
variable {s t : Sys}

lemma of_same (h : Ledger s) (hl : t.log = s.log) (hj : t.jobs = s.jobs)
    (ht : t.taken = s.taken) : Ledger t := by
  constructor
  case once => rw [hl]; exact h.once
  case old => rw [hl,ht]; exact h.old
  case jobs => rw [hj,ht]; exact h.jobs
  case jobsOnce => rw [hj]; exact h.jobsOnce
  case undone => rw [hj,hl]; exact h.undone

/-- The device takes a head; its position is a new one. -/
lemma taken (h : Ledger s) {j : Job} (hj : j.ticket = s.taken) (hl : t.log = s.log)
    (hjobs : t.jobs = s.jobs++[j]) (ht : t.taken = s.taken+1) : Ledger t := by
  constructor
  case once => rw [hl]; exact h.once
  case old =>
    rw [hl,ht]
    intro e he
    exact (h.old e he).trans (Nat.lt_succ_self _)
  case jobs =>
    rw [hjobs,ht]
    intro i hi
    obtain hi | hi := mem_append.mp hi
    · exact (h.jobs i hi).trans (Nat.lt_succ_self _)
    · rw [mem_singleton.mp hi,hj]
      exact Nat.lt_succ_self _
  case jobsOnce =>
    rw [hjobs,map_append]
    refine nodup_append.mpr ⟨h.jobsOnce,nodup_singleton _,?_⟩
    rintro k hk k' hk' rfl
    obtain ⟨i,hi,rfl⟩ := mem_map.mp hk
    have hlt := h.jobs i hi
    have he : i.ticket = j.ticket := by simpa using hk'
    omega
  case undone =>
    rw [hjobs,hl]
    intro i hi hd
    obtain hi | hi := mem_append.mp hi
    · exact h.undone i hi hd
    · rw [mem_singleton.mp hi,hj]
      intro hm
      obtain ⟨e,he,hte⟩ := mem_map.mp hm
      have := h.old e he
      omega

/-- The device carries out a request, the first time for this position. -/
lemma transferred (h : Ledger s) {j : Job} {e : Transfer} (hj : j ∈ s.jobs) (hd : j.done = false)
    (he : e.ticket = j.ticket) (hl : t.log = s.log++[e]) (hjobs : t.jobs = s.jobs.map j.after)
    (ht : t.taken = s.taken) : Ledger t := by
  have hmap : t.jobs.map Job.ticket = s.jobs.map Job.ticket := by
    rw [hjobs,List.map_map,show Job.ticket ∘ j.after = Job.ticket from funext j.after_ticket]
  constructor
  case once =>
    rw [hl,map_append]
    refine nodup_append.mpr ⟨h.once,nodup_singleton _,?_⟩
    rintro k hk k' hk' rfl
    rw [map_singleton,mem_singleton,he] at hk'
    exact h.undone j hj hd (hk' ▸ hk)
  case old =>
    rw [hl,ht]
    intro e' he'
    obtain he' | he' := mem_append.mp he'
    · exact h.old e' he'
    · rw [mem_singleton.mp he',he]
      exact h.jobs j hj
  case jobs =>
    rw [hjobs,ht]
    intro i hi
    obtain ⟨i',hi',rfl⟩ := mem_map.mp hi
    rw [Job.after_ticket]
    exact h.jobs i' hi'
  case jobsOnce => rw [hmap]; exact h.jobsOnce
  case undone =>
    rw [hjobs,hl]
    intro i hi hdi
    obtain ⟨i',hi',rfl⟩ := mem_map.mp hi
    have hne : i' ≠ j := by
      rintro rfl
      simp [Job.after] at hdi
    rw [Job.after,if_neg hne] at hdi ⊢
    rw [map_append,mem_append,not_or]
    refine ⟨h.undone i' hi' hdi,?_⟩
    rw [map_singleton,mem_singleton,he]
    intro heq
    exact hne (inj_on_of_nodup_map h.jobsOnce hi' hj heq)

lemma completed (h : Ledger s) {j : Job} (hl : t.log = s.log) (hjobs : t.jobs = s.jobs.erase j)
    (ht : t.taken = s.taken) : Ledger t := by
  constructor
  case once => rw [hl]; exact h.once
  case old => rw [hl,ht]; exact h.old
  case jobs =>
    rw [hjobs,ht]
    exact fun i hi => h.jobs i (mem_of_mem_erase hi)
  case jobsOnce =>
    rw [hjobs]
    exact h.jobsOnce.sublist (erase_sublist.map _)
  case undone =>
    rw [hjobs,hl]
    exact fun i hi => h.undone i (mem_of_mem_erase hi)

end Ledger

structure Inv (s : Sys) : Prop where
  calm : s.panic = none
  chains : Chains s
  flow : Flow s
  ledger : Ledger s

lemma inv_boot : Inv boot where
  calm := rfl
  chains :=
    { lock := by simp [boot,holds]
      bufs := by simp [boot,call?]
      chain := by simp [boot,chain?]
      apart := by simp [boot,chain?]
      cover := by
        intro i hi hf
        simp [boot,hi] at hf
      format := by simp [boot,chain?] }
  flow :=
    { avail := Ring.holds_empty _ _ _
      used := Ring.holds_empty _ _ _
      ready := by simp [boot]
      armed := by simp [boot]
      pending := by simp [boot]
      live := by simp [boot,live?]
      queued := ⟨nodup_nil,by simp [boot]⟩
      busy := by simp [boot]
      busyOnce := by simp [boot]
      reported := ⟨nodup_nil,by simp [boot]⟩
      request := by simp [boot,live?] }
  ledger :=
    { once := by simp [boot]
      old := by simp [boot]
      jobs := by simp [boot]
      jobsOnce := by simp [boot]
      undone := by simp [boot] }

/-- Position `r` comes after `k` in a call, with the same descriptors and no request sent. -/
structure Follows (k r : Pc) : Prop where
  call : r.call? = k.call? ∨ r.call? = none
  chain : r.chain? = k.chain?
  formatted : r.formatted = true → k.formatted = true
  live : r.live? = k.live?
  silent : ∀ c x, r ≠ .ring c x ∧ r ≠ .publish c x

namespace Inv
variable {s t : Sys} {p : Pid} {c : Call} {x : Idx} {k : ℕ}

variable (h : Inv s)
include h

lemma move {r : Pc} {l : Option Pid}
    (hl : ∀ q, q ≠ p → (l = some q ↔ s.lock = some q)) (hr : r.holds = true ↔ l = some p)
    (hf : Follows (s.pc p) r) (hintr : r = .intrBody → s.seen < s.reported.length) : Inv ({ s with lock := l }.goto p r) where
  calm := h.calm
  chains := h.chains.move rfl hl hr rfl hf.call hf.chain hf.formatted rfl (fun _ _ => ⟨rfl,rfl,rfl⟩)
  flow := h.flow.move rfl hf.live hf.silent hintr rfl rfl ⟨rfl,rfl,rfl,rfl,rfl,rfl,rfl,rfl,rfl⟩
  ledger := h.ledger.of_same rfl rfl rfl

lemma stay {r : Pc} (hr : r.holds = (s.pc p).holds)
    (hf : Follows (s.pc p) r) (hintr : r = .intrBody → s.seen < s.reported.length) : Inv (s.goto p r) :=
  h.move (l := s.lock) (fun _ _ => Iff.rfl) (hr ▸ h.chains.lock p) hf hintr

/-- Thread `p` takes the lock on its way from `want`, `wantTest` or `intrWant`. -/
lemma acquire {r : Pc} (hl : s.lock = none) (hr : r.holds = true) (hf : Follows (s.pc p) r)
    (hintr : r ≠ .intrBody) : Inv ({ s with lock := some p }.goto p r) := by
  refine h.move ?_ (by simp [hr]) hf fun he => absurd he hintr
  intro q hq
  simp [hl,Ne.symm hq]

lemma release {r : Pc} (hp : (s.pc p).holds = true) (hr : r.holds = false)
    (hf : Follows (s.pc p) r) (hintr : r ≠ .intrBody) : Inv (s.release.goto p r) := by
  have hlock := (h.chains.lock p).mp hp
  refine h.move ?_ (by simp [hr]) hf fun he => absurd he hintr
  intro q hq
  simp [hlock,Ne.symm hq]

lemma alloc_fail (hc : s.pc p = .alloc c) (ht : alloc3Desc s = (none,t)) :
    Inv (t.release.goto p (.sleepFree c)) := by
  have hchains := h.chains.alloc_fail hc ht
  obtain ⟨-,desc,pc,rfl,-,hpc⟩ := alloc3Desc_none ht
  have hpcp : pc p = .alloc c := by
    obtain rfl | rfl := hpc
    · exact hc
    · simp [hc,wakeFree]
  have hflow : Flow { s with pc := pc, disk := { s.disk with desc := desc } } := by
    have hs : Flow { s with disk := { s.disk with desc := desc } } :=
      h.flow.of_same h.flow.ready h.flow.armed h.flow.pending (fun _ => rfl) h.flow.avail rfl rfl
        (fun _ _ _ _ _ => ⟨rfl,rfl⟩) ⟨rfl,rfl,rfl,rfl,rfl,rfl,rfl,rfl⟩
    obtain rfl | rfl := hpc
    · exact hs
    · exact hs.wakeFree
  refine ⟨h.calm,hchains,?_,h.ledger.of_same rfl rfl rfl⟩
  refine hflow.move rfl ?_ (by simp) (by simp) rfl rfl ⟨rfl,rfl,rfl,rfl,rfl,rfl,rfl,rfl,rfl⟩
  simp [hpcp,live?]

lemma alloc (hc : s.pc p = .alloc c) (ht : alloc3Desc s = (some x,t)) :
    Inv (t.goto p (.format c x)) := by
  have hchains := h.chains.alloc hc ht
  obtain ⟨-,-,rfl⟩ := alloc3Desc_some ht
  refine ⟨h.calm,hchains,?_,h.ledger.of_same rfl rfl rfl⟩
  have hs : Flow { s with disk := { s.disk with
      free := fun i => if i ∈ x.list then false else s.disk.free i } } :=
    h.flow.of_same h.flow.ready h.flow.armed h.flow.pending (fun _ => rfl) h.flow.avail rfl rfl
      (fun _ _ _ _ _ => ⟨rfl,rfl⟩) ⟨rfl,rfl,rfl,rfl,rfl,rfl,rfl,rfl⟩
  refine hs.move rfl ?_ (by simp) (by simp) rfl rfl ⟨rfl,rfl,rfl,rfl,rfl,rfl,rfl,rfl,rfl⟩
  simp [hc,live?]

lemma stored (hc : s.pc p = .ring c x) : Inv ({ s with
      disk := { s.disk with avail := { s.disk.avail with
        ring := update s.disk.avail.ring (s.disk.avail.idx.toNat%NUM) x.i0 } } }.goto p
      (.publish c x)) where
  calm := h.calm
  chains := h.chains.move rfl (fun _ _ => Iff.rfl)
    (by simpa [holds,hc,Sys.goto] using h.chains.lock p) rfl
    (.inl (by simp [hc,call?])) (by simp [hc,chain?]) (by simp [hc,formatted]) rfl
    (fun _ _ => ⟨rfl,rfl,rfl⟩)
  flow := h.flow.stored h.chains hc
  ledger := h.ledger.of_same rfl rfl rfl

lemma published (hc : s.pc p = .publish c x) : Inv ({ s with
      disk := { s.disk with avail := { s.disk.avail with idx := s.disk.avail.idx+1 } }
      heads := s.heads++[x.i0]
      phase := update s.phase x.i0 .queued }.goto p (.test c x s.heads.length)) where
  calm := h.calm
  chains := h.chains.move rfl (fun _ _ => Iff.rfl)
    (by simpa [holds,hc,Sys.goto] using h.chains.lock p) rfl
    (.inl (by simp [hc,call?])) (by simp [hc,chain?]) (by simp [hc,formatted]) rfl
    (fun _ _ => ⟨rfl,rfl,rfl⟩)
  flow := h.flow.published h.chains hc
  ledger := h.ledger.of_same rfl rfl rfl

/-- `free_chain` gives the three descriptors of the request back, without a panic. -/
lemma finish (hc : s.pc p = .test c x k) (hb : s.bdisk c.b = false) :
    Inv ((freeChain (NUM+1) { s with
      disk := { s.disk with
        info := update s.disk.info x.i0 { s.disk.info x.i0 with b := none } }
      phase := update s.phase x.i0 .idle } x.i0).release.goto p .out) := by
  have hchain : (s.pc p).chain? = some (c,x) := by rw [hc]; rfl
  obtain ⟨hnodup,hfree⟩ := h.chains.chain p c x hchain
  have hf := h.chains.format p c x hchain (by rw [hc]; rfl)
  have hinfo : ∀ i, i ≠ x.i0 →
      update s.disk.info x.i0 { s.disk.info x.i0 with b := none } i = s.disk.info i :=
    fun i hi => update_of_ne hi _ _
  rw [freeChain_eq (s := { s with
    disk := { s.disk with
      info := update s.disk.info x.i0 { s.disk.info x.i0 with b := none } }
    phase := update s.phase x.i0 .idle }) hnodup hfree hf rfl h.calm]
  exact ⟨h.calm,h.chains.finish hc hinfo,h.flow.finish h.chains hc hb hinfo,
    h.ledger.of_same rfl rfl rfl⟩

/-- The handler takes one entry of the used ring: it panics neither on the status nor on the
buffer. -/
lemma seen (hc : s.pc p = .intrBody) : ∃ q c x k, (s.pc q).live? = some (c,x,k) ∧
      s.disk.used.ring (s.disk.usedIdx.toNat%NUM) = x.i0 ∧
      (s.disk.info x.i0).status = 0 ∧ (s.disk.info x.i0).b = some c.b ∧ k ∈ s.finished ∧
      Inv (({ s with
        bdisk := update s.bdisk c.b false
        disk := { s.disk with usedIdx := s.disk.usedIdx+1 }
        seen := s.seen+1
        phase := update s.phase x.i0 .seen }.wakeBuf c.b).goto p .intrTest) := by
  have hlt := h.flow.pending p hc
  obtain ⟨q,c,x,k,hq,hring,hused,hdrop,hstatus,hbuf⟩ := h.flow.front h.chains hlt
  have hcomm : ∀ u : Sys, (u.wakeBuf c.b).goto p .intrTest = (u.goto p .intrTest).wakeBuf c.b := by
    intro u
    simp only [Sys.goto,Sys.wakeBuf]
    congr 1
    funext r
    by_cases hr : r = p
    · simp [hr,wakeBuf]
    · simp [hr]
  have hfin := (h.flow.request q c x k hq).finished (by rw [hused]; rfl)
  refine ⟨q,c,x,k,hq,hring,hstatus,hbuf,hfin,h.calm,?_,?_,h.ledger.of_same rfl rfl rfl⟩
  · rw [hcomm]
    apply Chains.wakeBuf
    exact h.chains.move rfl (fun _ _ => Iff.rfl)
      (by simpa [holds,hc,Sys.goto] using h.chains.lock p) rfl
      (.inr rfl) (by simp [hc,chain?]) (by simp [formatted]) rfl (fun _ _ => ⟨rfl,rfl,rfl⟩)
  · rw [hcomm]
    exact (h.flow.seen h.chains hc hq hused hlt hdrop).wakeBuf c.b

lemma run (ht : run s p = some t) : Inv t := by
  unfold Virtio.run at ht
  cases hc : s.pc p with
  | out => simp [hc] at ht
  | sleepFree c => simp [hc] at ht
  | sleepDisk c x k => simp [hc] at ht
  | want c | intrWant =>
    simp only [hc,ite_none_right_eq_some,some_inj] at ht
    obtain ⟨hl,rfl⟩ := ht
    exact h.acquire hl rfl (hc ▸ ⟨.inl rfl,rfl,nofun,rfl,by simp⟩) (by simp)
  | alloc c =>
    simp only [hc] at ht
    cases hu : alloc3Desc s with
    | mk o u =>
      rw [hu] at ht
      cases o with
      | none => exact some_inj.mp ht ▸ h.alloc_fail hc hu
      | some x => exact some_inj.mp ht ▸ h.alloc hc hu
  | format c x =>
    simp only [hc,some_inj] at ht
    subst ht
    exact ⟨h.calm,h.chains.formatted hc _,h.flow.formatted h.chains hc,
      h.ledger.of_same rfl rfl rfl⟩
  | ring c x =>
    simp only [hc,some_inj] at ht
    exact ht ▸ h.stored hc
  | publish c x =>
    simp only [hc,some_inj] at ht
    exact ht ▸ h.published hc
  | test c x k =>
    simp only [hc] at ht
    cases hb : s.bdisk c.b with
    | true =>
      simp only [hb,if_true,some_inj] at ht
      subst ht
      exact h.release (by rw [hc]; rfl) rfl (hc ▸ ⟨.inl rfl,rfl,fun _ => rfl,rfl,by simp⟩) (by simp)
    | false =>
      simp only [hb,Bool.false_eq_true,if_false,some_inj] at ht
      exact ht ▸ h.finish hc hb
  | wantTest c x k =>
    simp only [hc,ite_none_right_eq_some,some_inj] at ht
    obtain ⟨hl,rfl⟩ := ht
    exact h.acquire hl rfl (hc ▸ ⟨.inl rfl,rfl,fun _ => rfl,rfl,by simp⟩) (by simp)
  | intrTest =>
    simp only [hc] at ht
    by_cases hne : s.disk.usedIdx ≠ s.disk.used.idx
    · rw [if_pos hne,some_inj] at ht
      subst ht
      refine h.stay (by rw [hc]; rfl) (hc ▸ ⟨.inr rfl,rfl,nofun,rfl,by simp⟩) fun _ => ?_
      have hle := h.flow.used.taken_le
      by_contra hge
      exact hne (UInt16.toNat_inj.mp ((h.flow.used.empty_iff (by decide)).mpr (by omega)))
    · rw [if_neg hne,some_inj] at ht
      subst ht
      exact h.release (by rw [hc]; rfl) rfl (hc ▸ ⟨.inr rfl,rfl,nofun,rfl,by simp⟩) (by simp)
  | intrBody =>
    obtain ⟨q,c,x,k,-,hring,hstatus,hbuf,-,hinv⟩ := h.seen hc
    simp only [hc,hring,hstatus,hbuf,ne_eq,not_true_eq_false,if_false,some_inj] at ht
    exact ht ▸ hinv

lemma taken (ht : take s = some t) : Inv t := by
  simp only [take,ite_none_right_eq_some,some_inj] at ht
  obtain ⟨hne,rfl⟩ := ht
  exact ⟨h.calm,h.chains.of_same h.chains.lock h.chains.bufs (fun _ => rfl) (fun _ => id) rfl
    (fun _ _ => ⟨rfl,rfl,rfl⟩),h.flow.taken hne,h.ledger.taken rfl rfl rfl rfl⟩

lemma transferred {j : Job} (ht : transfer s j = some t) : Inv t := by
  simp only [transfer,ite_none_right_eq_some] at ht
  obtain ⟨⟨hj,hd⟩,ht⟩ := ht
  obtain ⟨-,p,c,x,k,hp,he,hk⟩ := h.flow.job_live hj
  have hf := h.chains.format p c x (chain_of_live hp).1 (chain_of_live hp).2
  have hread := Flow.readChain_eq hf
  have hflow := h.flow.transferred h.chains hj hd hp he hk
  rw [he] at hread hflow
  simp only [hread,some_inj] at ht
  subst ht
  refine ⟨h.calm,?_,hflow,h.ledger.transferred hj hd rfl rfl rfl rfl⟩
  refine h.chains.of_same h.chains.lock h.chains.bufs (fun _ => rfl) (fun _ => id) rfl ?_
  intro i _
  refine ⟨rfl,rfl,?_⟩
  by_cases hi : i = j.head
  · simp [hi]
  · simp [hi]

lemma completed {j : Job} (ht : complete s j = some t) : Inv t := by
  simp only [complete,ite_none_right_eq_some,some_inj] at ht
  obtain ⟨⟨hj,hd⟩,rfl⟩ := ht
  exact ⟨h.calm,h.chains.of_same h.chains.lock h.chains.bufs (fun _ => rfl) (fun _ => id) rfl
    (fun _ _ => ⟨rfl,rfl,rfl⟩),h.flow.completed h.chains hj hd,
    h.ledger.completed rfl rfl rfl⟩

lemma relock {l : ℕ → Option Pid}
    (hl : ∀ p c, (s.pc p).call? = some c → l c.b = some p) : Inv { s with buflock := l } :=
  ⟨h.calm,h.chains.of_same h.chains.lock hl (fun _ => rfl) (fun _ => id) rfl
    (fun _ _ => ⟨rfl,rfl,rfl⟩),
    h.flow.of_same h.flow.ready h.flow.armed h.flow.pending (fun _ => rfl) h.flow.avail rfl rfl
      (fun _ _ _ _ _ => ⟨rfl,rfl⟩) ⟨rfl,rfl,rfl,rfl,rfl,rfl,rfl,rfl⟩,
    h.ledger.of_same rfl rfl rfl⟩

lemma call (hc : s.pc p = .out) (hb : s.buflock c.b = some p) : Inv (s.goto p (.want c)) := by
  have hother : ∀ q, q ≠ p → (s.goto p (.want c)).pc q = s.pc q := fun q hq =>
    update_of_ne hq _ _
  have hself : (s.goto p (.want c)).pc p = .want c := update_self ..
  refine ⟨h.calm,?_,?_,h.ledger.of_same rfl rfl rfl⟩
  · refine h.chains.of_same ?_ ?_ ?_ ?_ rfl (fun _ _ => ⟨rfl,rfl,rfl⟩)
    · refine h.chains.lock_of (p := p) (fun q hq => by rw [hother q hq]) (fun _ _ => Iff.rfl) ?_
      have hlock := h.chains.lock p
      rw [hc] at hlock
      rw [hself]
      exact hlock
    · intro q c' hq
      by_cases hqp : q = p
      · rw [hqp,hself] at hq
        cases hq
        exact hqp ▸ hb
      · exact h.chains.bufs q c' (hother q hqp ▸ hq)
    · intro q
      by_cases hqp : q = p
      · rw [hqp,hself,hc]
        rfl
      · rw [hother q hqp]
    · intro q
      by_cases hqp : q = p
      · rw [hqp,hself]
        simp [formatted]
      · rw [hother q hqp]
        exact id
  · exact h.flow.move rfl (by rw [hc]; rfl) (by simp) (by simp) rfl rfl
      ⟨rfl,rfl,rfl,rfl,rfl,rfl,rfl,rfl,rfl⟩

lemma step {e : Event} (ht : step s e = some t) : Inv t := by
  unfold Virtio.step at ht
  rw [if_neg (by simp [h.calm])] at ht
  cases e with
  | acquiresleep p b =>
    simp only [ite_none_right_eq_some,some_inj] at ht
    obtain ⟨⟨-,hb⟩,rfl⟩ := ht
    refine h.relock ?_
    intro q c hq
    have hl := h.chains.bufs q c hq
    have hne : c.b ≠ b := by
      rintro rfl
      rw [hb] at hl
      cases hl
    rw [update_of_ne hne,hl]
  | releasesleep p b =>
    simp only [ite_none_right_eq_some,some_inj] at ht
    obtain ⟨⟨hc,hb⟩,rfl⟩ := ht
    refine h.relock ?_
    intro q c hq
    have hl := h.chains.bufs q c hq
    have hne : c.b ≠ b := by
      rintro rfl
      rw [hb,some_inj] at hl
      rw [←hl,hc] at hq
      cases hq
    rw [update_of_ne hne,hl]
  | rw p b write blockno =>
    simp only [ite_none_right_eq_some,some_inj] at ht
    obtain ⟨⟨hc,hb⟩,rfl⟩ := ht
    exact h.call hc hb
  | intr p =>
    simp only [ite_none_right_eq_some,some_inj] at ht
    obtain ⟨hc,rfl⟩ := ht
    exact h.stay (by rw [hc]; rfl) (hc ▸ ⟨.inr rfl,rfl,nofun,rfl,by simp⟩) (by simp)
  | kill p =>
    cases hc : s.pc p with
    | sleepFree c =>
      simp only [hc,some_inj] at ht
      subst ht
      exact h.stay (by rw [hc]; rfl) (hc ▸ ⟨.inl rfl,rfl,nofun,rfl,by simp⟩) (by simp)
    | sleepDisk c x k =>
      simp only [hc,some_inj] at ht
      subst ht
      exact h.stay (by rw [hc]; rfl) (hc ▸ ⟨.inl rfl,rfl,fun _ => rfl,rfl,by simp⟩) (by simp)
    | _ => simp [hc] at ht
  | run p => exact h.run ht
  | take => exact h.taken ht
  | transfer j => exact h.transferred ht
  | complete j => exact h.completed ht

/-- `virtio_disk_rw` returns only when the handler has seen its own request. -/
lemma returned (hc : s.pc p = .test c x k) (ht : Virtio.step s (.run p) = some t)
    (hout : t.pc p = .out) :
    { ticket := k, out := c.write, sector := c.sector, b := c.b } ∈ s.log ∧ k ∈ s.finished := by
  have hlive : (s.pc p).live? = some (c,x,k) := by rw [hc]; rfl
  have hseen : s.phase x.i0 = .seen := by
    by_contra hne
    have hb := (h.flow.request p c x k hlive).flag.mpr hne
    simp only [Virtio.step,h.calm,Virtio.run,hc,hb,ne_eq,not_true_eq_false,if_false,if_true,
      some_inj] at ht
    subst ht
    simp [Sys.goto] at hout
  exact ⟨((h.flow.request p c x k hlive).served (by rw [hseen]; rfl)).2,
    (h.flow.request p c x k hlive).finished (by rw [hseen]; rfl)⟩

end Inv

lemma inv_runs {es : List Event} {s : Sys} (h : Runs step (fun _ _ => True) boot es s) : Inv s :=
  h.invariant (fun _ _ _ hs _ ht => hs.step ht) inv_boot

/-- In every run there is no panic. The descriptors are divided between the free ones and chains
of three for calls in progress. A visible head stays in its slot until the device takes it, and the
next store goes to another slot. The handler finds the buffer of the request that the device has
reported, a failing `alloc3_desc` frees what it took, and a call returns only when its own
transfer, the only one for its position, is done and reported. -/
theorem virtio_request_protocol {es : List Event} {s : Sys}
    (h : Runs step (fun _ _ => True) boot es s) :
    s.panic = none ∧
    (∀ p c x, (s.pc p).chain? = some (c,x) →
      x.list.Nodup ∧ ∀ i ∈ x.list, i < NUM ∧ s.disk.free i = false) ∧
    (∀ p q c x c' x', p ≠ q → (s.pc p).chain? = some (c,x) → (s.pc q).chain? = some (c',x') →
      ∀ i ∈ x.list, i ∉ x'.list) ∧
    (∀ i, i < NUM → s.disk.free i = false → ∃ p c x, (s.pc p).chain? = some (c,x) ∧ i ∈ x.list) ∧
    (∀ k, s.taken ≤ k → k < s.heads.length →
      s.heads[k]? = some (s.disk.avail.ring (k%NUM)) ∧
      ∀ p c x, s.pc p = .ring c x → k%NUM ≠ s.disk.avail.idx.toNat%NUM) ∧
    (∀ p, s.pc p = .intrBody → ∃ q c x k, (s.pc q).live? = some (c,x,k) ∧ k ∈ s.finished ∧
      s.disk.used.ring (s.disk.usedIdx.toNat%NUM) = x.i0 ∧ (s.disk.info x.i0).b = some c.b) ∧
    (∀ t, alloc3Desc s = (none,t) → t.disk.free = s.disk.free) ∧
    (∀ p c x k t, s.pc p = .test c x k → step s (.run p) = some t → t.pc p = .out →
      { ticket := k, out := c.write, sector := c.sector, b := c.b } ∈ s.log ∧ k ∈ s.finished) ∧
    (s.log.map Transfer.ticket).Nodup := by
  have hi := inv_runs h
  refine ⟨hi.calm,hi.chains.chain,hi.chains.apart,hi.chains.cover,?_,?_,?_,?_,hi.ledger.once⟩
  · intro k hk hlt
    refine ⟨hi.flow.avail.slots k hk hlt,?_⟩
    intro p c x hc
    exact hi.flow.avail.slot_free (by decide) (hi.flow.room hi.chains (p := p) (by rw [hc]; rfl)
      (by rw [hc]; rfl)) hk hlt
  · intro p hc
    obtain ⟨q,c,x,k,hq,hring,-,hbuf,hk,-⟩ := hi.seen hc
    exact ⟨q,c,x,k,hq,hk,hring,hbuf⟩
  · intro t ht
    exact (alloc3Desc_none ht).1
  · intro p c x k t hc ht hout
    exact hi.returned hc ht hout

/-- Process 1 reads block 7 into buffer 3 and has been woken up by the handler. -/
def oneRead : List Event :=
  [Event.acquiresleep 1 3,.rw 1 3 false 7]++List.replicate 6 (Event.run 1)++
    [Event.take,.transfer { ticket := 0, head := 0, done := false },
      .complete { ticket := 0, head := 0, done := true },.intr 2]++
    List.replicate 4 (Event.run 2)++[Event.run 1]

theorem virtio_request_protocol_oneRead : ∃ s t, Runs step (fun _ _ => True) boot oneRead s ∧
    step s (.run 1) = some t ∧ t.pc 1 = .out ∧
    { ticket := 0, out := false, sector := 14, b := 3 } ∈ s.log ∧ 0 ∈ s.finished := by
  obtain ⟨s,h,hc,hs⟩ := Runs.exists_of_execIf step (fun _ _ => True) boot oneRead
    (fun s => s.pc 1 = .test { b := 3, write := false, sector := 14 } ⟨0,1,2⟩ 0 ∧
      (step s (.run 1)).map (fun t => t.pc 1) = some .out) (by decide +kernel)
  obtain ⟨t,ht,hout⟩ := map_eq_some_iff.mp hs
  obtain ⟨-,-,-,-,-,-,-,hret,-⟩ := virtio_request_protocol h
  exact ⟨s,t,h,ht,hout,hret 1 _ _ _ t hc ht hout⟩

end Xv6.Virtio
