import Xv6.Log.System
import Xv6.Lib.Transition

/-! What `begin_op`, `log_write`, `end_op` and `commit` keep true of `struct log`, whatever
happens to the buffers meanwhile. -/
namespace Xv6.Log
open Xv6.Bio Xv6.Lib List Option
open Function (update update_self update_of_ne update_eq_self_iff)

section Slot
variable {lh : LogHeader} {b : ℕ}

lemma mem_blocks : b ∈ lh.blocks ↔ ∃ i < lh.n, lh.block i = b := by
  simp [LogHeader.blocks]

/-- The search of `log_write` ends at the block's entry, or behind the last one. -/
lemma logSlot_cases (lh : LogHeader) (b : ℕ) :
    (Sys.logSlot lh b = lh.n ∧ b ∉ lh.blocks) ∨
    (Sys.logSlot lh b < lh.n ∧ lh.block (Sys.logSlot lh b) = b) := by
  unfold Sys.logSlot
  cases hf : (List.range lh.n).find? fun i => lh.block i = b with
  | none =>
    refine .inl ⟨rfl,?_⟩
    rw [mem_blocks]
    rintro ⟨i,hi,hb⟩
    simpa [hb] using List.find?_eq_none.mp hf i (mem_range.mpr hi)
  | some i =>
    have hi := mem_range.mp (mem_of_find?_eq_some hf)
    exact .inr ⟨hi,by simpa using List.find?_some hf⟩

lemma blocks_append (lh : LogHeader) (b : ℕ) :
    LogHeader.blocks ⟨lh.n+1,update lh.block lh.n b⟩ = lh.blocks++[b] := by
  unfold LogHeader.blocks
  rw [range_succ,map_append]
  congr 1
  · apply map_congr_left
    intro i hi
    exact update_of_ne (mem_range.mp hi).ne _ _
  · simp

end Slot

@[simp] lemma Sys.setPc_self (s : Sys) (p : Pid) (pc : Pc) : (s.setPc p pc).pc p = pc :=
  update_self ..

lemma Sys.setPc_of_ne (s : Sys) {p q : Pid} (h : q ≠ p) (pc : Pc) :
    (s.setPc p pc).pc q = s.pc q := update_of_ne h _ _

/-- What is known of the length of the log, the group being committed and the number of
finished groups in each phase of `commit`. -/
def Phase.OK (n g e : ℕ) : Phase → Prop
  | log t | install t => t < n ∧ g = e
  | head => 0 < n ∧ g = e
  | erase => n = 0 ∧ g+1 = e

/-- The same for each place in `end_op` after `committing` is set. -/
def Pc.OK (n g e : ℕ) : Pc → Prop
  | enter => g = e
  | commit ph _ => ph.OK n g e
  | finish => n = 0
  | _ => True

/-- The invariant of the control state. -/
structure Ctl.OK (L : Layout) (c : Ctl) : Prop where
  le_logsize : c.lh.n ≤ LOGSIZE
  lt_size : c.lh.n < L.size
  entries : ∀ b ∈ c.lh.blocks, b < 2^32 ∧ ¬L.Area b
  nodup : c.lh.blocks.Nodup
  logged : ∀ r ∈ c.hist, r.epoch = c.epoch → r.block ∈ c.lh.blocks
  recorded : ∀ b ∈ c.lh.blocks, ∃ r ∈ c.hist, r.epoch = c.epoch ∧ r.block = b
  ops : ∃ S : Finset Pid, (∀ p, p ∈ S ↔ c.pc p = .inOp) ∧ S.card = c.outstanding
  committer : c.committing = true ↔ ∃ p, (c.pc p).inCommit
  unique : ∀ p q, (c.pc p).inCommit → (c.pc q).inCommit → p = q
  idle : c.committing = true → c.outstanding = 0
  epoch_le : ∀ r ∈ c.hist, r.epoch ≤ c.epoch
  op_lt : ∀ p, c.pc p = .inOp → c.op p < c.nextOp
  rec_lt : ∀ r ∈ c.hist, r.op < c.nextOp
  closed : ∀ r ∈ c.hist, r.epoch < c.epoch → ∀ p, c.pc p = .inOp → c.op p ≠ r.op
  whole : ∀ r ∈ c.hist, ∀ r' ∈ c.hist, r.op = r'.op → r.epoch = r'.epoch
  phase : ∀ p, (c.pc p).OK c.lh.n c.group c.epoch

namespace Ctl.OK
variable {L : Layout} {c : Ctl} {p q : Pid}

/-- No process is inside an operation while another is in `commit`. -/
theorem not_inOp (h : c.OK L) (hc : c.committing = true) (q : Pid) : c.pc q ≠ .inOp := by
  obtain ⟨S,hS,hcard⟩ := h.ops
  rw [h.idle hc] at hcard
  intro hq
  simpa [Finset.card_eq_zero.mp hcard] using (hS q).mpr hq

lemma outstanding_pos (h : c.OK L) (hp : c.pc p = .inOp) : 0 < c.outstanding := by
  obtain ⟨S,hS,hcard⟩ := h.ops
  rw [← hcard]
  exact Finset.card_pos.mpr ⟨p,(hS p).mpr hp⟩

lemma not_committing (h : c.OK L) (hp : c.pc p = .inOp) : c.committing = false := by
  cases hc : c.committing with
  | false => rfl
  | true => exact absurd hp (h.not_inOp hc p)

lemma inCommit_false (h : c.OK L) (hc : c.committing = false) (q : Pid) :
    (c.pc q).inCommit = false := by
  cases hq : (c.pc q).inCommit with
  | false => rfl
  | true => exact absurd (h.committer.mpr ⟨q,hq⟩) (by simp [hc])

lemma inCommit_other (h : c.OK L) (hp : (c.pc p).inCommit) (hq : q ≠ p) :
    (c.pc q).inCommit = false := by
  cases hcq : (c.pc q).inCommit with
  | false => rfl
  | true => exact absurd (h.unique q p hcq hp) hq

/-- An operation in progress has written to the present group only. -/
lemma epoch_eq (h : c.OK L) (hp : c.pc p = .inOp) {r : Rec} (hr : r ∈ c.hist)
    (hop : r.op = c.op p) : r.epoch = c.epoch := by
  by_contra hne
  have := h.epoch_le r hr
  exact h.closed r hr (by omega) p hp hop.symm

lemma ok_of_not_inCommit {pc : Pc} (h : pc.inCommit = false) (n g e : ℕ) : pc.OK n g e := by
  cases pc <;> simp_all [Pc.OK,Pc.inCommit]

lemma move (h : c.OK L) {pc' : Pc} (hop : c.pc p = .inOp ↔ pc' = .inOp)
    (hcm : pc'.inCommit = (c.pc p).inCommit) (hok : pc'.OK c.lh.n c.group c.epoch) :
    Ctl.OK L { c with pc := update c.pc p pc' } := by
  have hin (q : Pid) : update c.pc p pc' q = .inOp ↔ c.pc q = .inOp := by
    by_cases hq : q = p
    · subst hq; simp [hop]
    · simp [update_of_ne hq]
  have hcom (q : Pid) : (update c.pc p pc' q).inCommit = (c.pc q).inCommit := by
    by_cases hq : q = p
    · subst hq; simp [hcm]
    · simp [update_of_ne hq]
  refine { h with ops := ?_, committer := ?_, unique := ?_, op_lt := ?_, closed := ?_, phase := ?_ }
  · obtain ⟨S,hS,hcard⟩ := h.ops
    exact ⟨S,fun q => (hS q).trans (hin q).symm,hcard⟩
  · simp only [hcom]
    exact h.committer
  · intro q r hq hr
    simp only [hcom] at hq hr
    exact h.unique q r hq hr
  · intro q hq
    exact h.op_lt q ((hin q).mp hq)
  · intro r hr he q hq
    exact h.closed r hr he q ((hin q).mp hq)
  · intro q
    by_cases hq : q = p
    · subst hq; simpa using hok
    · simpa [update_of_ne hq] using h.phase q

lemma wake_inOp (pc : Pc) : pc.wake = .inOp ↔ pc = .inOp := by cases pc <;> simp [Pc.wake]

lemma wake_inCommit (pc : Pc) : pc.wake.inCommit = pc.inCommit := by cases pc <;> rfl

lemma wake_ok (pc : Pc) (n g e : ℕ) : pc.wake.OK n g e ↔ pc.OK n g e := by cases pc <;> rfl

variable (h : c.OK L)
include h

lemma wakeAll : Ctl.OK L { c with pc := fun q => (c.pc q).wake } := by
  refine { h with ops := ?_, committer := ?_, unique := ?_, op_lt := ?_, closed := ?_, phase := ?_ }
  · obtain ⟨S,hS,hcard⟩ := h.ops
    exact ⟨S,fun q => (hS q).trans (wake_inOp _).symm,hcard⟩
  · simp only [wake_inCommit]
    exact h.committer
  · intro q r hq hr
    simp only [wake_inCommit] at hq hr
    exact h.unique q r hq hr
  · intro q hq
    exact h.op_lt q ((wake_inOp _).mp hq)
  · intro r hr he q hq
    exact h.closed r hr he q ((wake_inOp _).mp hq)
  · intro q
    exact (wake_ok _ _ _ _).mpr (h.phase q)

lemma enterOp (hp : c.pc p = .begin false) (hc : c.committing = false) : Ctl.OK L { c with
      pc := update c.pc p .inOp
      outstanding := c.outstanding+1
      op := update c.op p c.nextOp
      nextOp := c.nextOp+1 } := by
  have hcom (q : Pid) : (update c.pc p .inOp q).inCommit = false := by
    by_cases hq : q = p
    · subst hq; simp [Pc.inCommit]
    · simp [update_of_ne hq,h.inCommit_false hc]
  refine { h with ops := ?_, committer := ?_, unique := ?_, idle := ?_, op_lt := ?_, rec_lt := ?_, closed := ?_, phase := ?_ }
  · obtain ⟨S,hS,hcard⟩ := h.ops
    have hpS : p ∉ S := by simp [hS,hp]
    refine ⟨insert p S,?_,by rw [Finset.card_insert_of_notMem hpS,hcard]⟩
    intro q
    by_cases hq : q = p
    · subst hq; simp
    · simp [hq,hS]
  · simp [hc,hcom]
  · intro q r hq
    simp [hcom] at hq
  · intro hc'
    simp [hc] at hc'
  · intro q hq
    by_cases e : q = p
    · subst e; simp
    · simp only [update_of_ne e] at hq ⊢
      exact (h.op_lt q hq).trans (Nat.lt_succ_self _)
  · intro r hr
    exact (h.rec_lt r hr).trans (Nat.lt_succ_self _)
  · intro r hr he q hq
    by_cases e : q = p
    · subst e
      simpa using (h.rec_lt r hr).ne'
    · simp only [update_of_ne e] at hq ⊢
      exact h.closed r hr he q hq
  · intro q
    by_cases hq : q = p
    · subst hq; simp [Pc.OK]
    · simpa [update_of_ne hq] using h.phase q

lemma leave_ops (hp : c.pc p = .inOp) {pc' : Pc} (hpc : pc' ≠ .inOp) :
    ∃ S : Finset Pid, (∀ q, q ∈ S ↔ update c.pc p pc' q = .inOp) ∧
      S.card = c.outstanding-1 := by
  obtain ⟨S,hS,hcard⟩ := h.ops
  refine ⟨S.erase p,?_,by rw [Finset.card_erase_of_mem ((hS p).mpr hp),hcard]⟩
  intro q
  by_cases hq : q = p
  · subst hq; simp [hpc]
  · simp [hq,hS]

/-- `end_op` of the last operation in progress closes the group. -/
lemma close (hp : c.pc p = .inOp) (hlast : c.outstanding-1 = 0) : Ctl.OK L { c with
      outstanding := c.outstanding-1
      pc := update c.pc p .enter
      committing := true
      group := c.epoch } := by
  have hc := h.not_committing hp
  have hno (q : Pid) (hq : q ≠ p) : (update c.pc p .enter q).inCommit = false := by
    rw [update_of_ne hq]
    exact h.inCommit_false hc q
  have hops := h.leave_ops hp (show Pc.enter ≠ .inOp by simp)
  have hnone (q : Pid) : update c.pc p .enter q ≠ .inOp := by
    obtain ⟨S,hS,hcard⟩ := hops
    rw [hlast,Finset.card_eq_zero] at hcard
    intro hq
    simpa [hcard] using (hS q).mpr hq
  refine { h with ops := hops, committer := ?_, unique := ?_, idle := fun _ => hlast, op_lt := ?_, closed := ?_, phase := ?_ }
  · simp only [true_iff]
    exact ⟨p,by simp [Pc.inCommit]⟩
  · have hp' (q : Pid) (hq : (update c.pc p .enter q).inCommit) : q = p := by
      by_contra e
      rw [hno q e] at hq
      cases hq
    intro q r hq hr
    exact (hp' q hq).trans (hp' r hr).symm
  · intro q hq
    exact absurd hq (hnone q)
  · intro r hr he q hq
    exact absurd hq (hnone q)
  · intro q
    by_cases hq : q = p
    · subst hq; simp [Pc.OK]
    · exact ok_of_not_inCommit (hno q hq) _ _ _

lemma leave (hp : c.pc p = .inOp) : Ctl.OK L { c with
      outstanding := c.outstanding-1
      pc := update c.pc p .out } := by
  have hc := h.not_committing hp
  have hcom (q : Pid) : (update c.pc p .out q).inCommit = (c.pc q).inCommit := by
    by_cases hq : q = p
    · subst hq; simp [hp,Pc.inCommit]
    · simp [update_of_ne hq]
  have hin (q : Pid) (hq : update c.pc p .out q = .inOp) : c.pc q = .inOp := by
    by_cases e : q = p
    · subst e; exact hp
    · simpa [update_of_ne e] using hq
  refine { h with ops := h.leave_ops hp (by simp), committer := ?_, unique := ?_, idle := ?_, op_lt := ?_, closed := ?_, phase := ?_ }
  · simp only [hcom]
    exact h.committer
  · intro q r hq hr
    simp only [hcom] at hq hr
    exact h.unique q r hq hr
  · intro hc'
    simp [hc] at hc'
  · intro q hq
    exact h.op_lt q (hin q hq)
  · intro r hr he q hq
    exact h.closed r hr he q (hin q hq)
  · intro q
    by_cases hq : q = p
    · subst hq; simp [Pc.OK]
    · simpa [update_of_ne hq] using h.phase q

/-- `log_write` records its call; the block is in the header afterwards. -/
lemma addRec (hp : c.pc p = .inOp) {lh : LogHeader} {b : ℕ}
    (hle : lh.n ≤ LOGSIZE) (hlt : lh.n < L.size)
    (hent : ∀ x ∈ lh.blocks, x < 2^32 ∧ ¬L.Area x) (hnd : lh.blocks.Nodup)
    (hmem : ∀ x, x ∈ lh.blocks ↔ x ∈ c.lh.blocks ∨ x = b) :
    Ctl.OK L { c with lh := lh, hist := ⟨c.op p,c.epoch,b⟩::c.hist } := by
  have hc := h.not_committing hp
  refine { h with
    le_logsize := hle, lt_size := hlt, entries := hent, nodup := hnd
    logged := ?_, recorded := ?_, epoch_le := ?_, rec_lt := ?_, closed := ?_, whole := ?_, phase := ?_ }
  · intro r hr he
    rw [hmem]
    rcases mem_cons.mp hr with rfl | hr
    · exact .inr rfl
    · exact .inl (h.logged r hr he)
  · intro x hx
    rcases (hmem x).mp hx with hx | rfl
    · obtain ⟨r,hr,he⟩ := h.recorded x hx
      exact ⟨r,mem_cons_of_mem _ hr,he⟩
    · exact ⟨_,mem_cons_self,rfl,rfl⟩
  · intro r hr
    rcases mem_cons.mp hr with rfl | hr
    · exact le_rfl
    · exact h.epoch_le r hr
  · intro r hr
    rcases mem_cons.mp hr with rfl | hr
    · exact h.op_lt p hp
    · exact h.rec_lt r hr
  · intro r hr he
    rcases mem_cons.mp hr with rfl | hr
    · exact absurd he (lt_irrefl _)
    · exact h.closed r hr he
  · intro r hr r' hr' hop
    rcases mem_cons.mp hr with rfl | hr <;> rcases mem_cons.mp hr' with rfl | hr'
    · rfl
    · exact (h.epoch_eq hp hr' hop.symm).symm
    · exact h.epoch_eq hp hr hop
    · exact h.whole r hr r' hr' hop
  · intro q
    exact ok_of_not_inCommit (h.inCommit_false hc q) _ _ _

lemma clear {ph : Phase} {k : ℕ} (hp : c.pc p = .commit ph k) (hg : c.group = c.epoch) :
    Ctl.OK L { c with
      pc := update c.pc p (.commit .erase 0)
      lh := { c.lh with n := 0 }
      epoch := c.epoch+1 } := by
  have hc : c.committing = true := h.committer.mpr ⟨p,by simp [hp,Pc.inCommit]⟩
  have hblocks : LogHeader.blocks { c.lh with n := 0 } = [] := by simp [LogHeader.blocks]
  have hin (q : Pid) : update c.pc p (.commit .erase 0) q ≠ .inOp := by
    by_cases hq : q = p
    · subst hq; simp
    · rw [update_of_ne hq]; exact h.not_inOp hc q
  have hcom (q : Pid) : (update c.pc p (.commit .erase 0) q).inCommit =
      (c.pc q).inCommit := by
    by_cases hq : q = p
    · subst hq; simp [hp,Pc.inCommit]
    · simp [update_of_ne hq]
  refine { h with
    le_logsize := Nat.zero_le _, lt_size := L.size_pos
    entries := ?_, nodup := ?_, logged := ?_, recorded := ?_, ops := ?_, committer := ?_
    unique := ?_, epoch_le := ?_, op_lt := ?_, closed := ?_, phase := ?_ }
  · simp [hblocks]
  · simp [hblocks]
  · intro r hr he
    have := h.epoch_le r hr
    simp only at he
    omega
  · simp [hblocks]
  · refine ⟨∅,?_,by simp [h.idle hc]⟩
    intro q
    simp [hin q]
  · simp only [hcom]
    exact h.committer
  · intro q r hq hr
    simp only [hcom] at hq hr
    exact h.unique q r hq hr
  · intro r hr
    exact (h.epoch_le r hr).trans (Nat.le_succ _)
  · intro q hq
    exact absurd hq (hin q)
  · intro r hr he q hq
    exact absurd hq (hin q)
  · intro q
    by_cases hq : q = p
    · subst hq; simp [Pc.OK,Phase.OK,hg]
    · apply ok_of_not_inCommit
      rw [hcom]
      exact h.inCommit_other (by simp [hp,Pc.inCommit]) hq

lemma finish (hp : c.pc p = .finish) :
    Ctl.OK L { c with committing := false, pc := update c.pc p .out } := by
  have hcp : (c.pc p).inCommit = true := by simp [hp,Pc.inCommit]
  have hcom (q : Pid) : (update c.pc p .out q).inCommit = false := by
    by_cases hq : q = p
    · subst hq; simp [Pc.inCommit]
    · rw [update_of_ne hq]
      exact h.inCommit_other hcp hq
  have hin (q : Pid) : update c.pc p .out q = .inOp ↔ c.pc q = .inOp := by
    by_cases hq : q = p
    · subst hq; simp [hp]
    · simp [update_of_ne hq]
  refine { h with ops := ?_, committer := ?_, unique := ?_, idle := ?_, op_lt := ?_, closed := ?_, phase := ?_ }
  · obtain ⟨S,hS,hcard⟩ := h.ops
    exact ⟨S,fun q => (hS q).trans (hin q).symm,hcard⟩
  · simp [hcom]
  · intro q r hq
    simp [hcom] at hq
  · intro hc
    cases hc
  · intro q hq
    exact h.op_lt q ((hin q).mp hq)
  · intro r hr he q hq
    exact h.closed r hr he q ((hin q).mp hq)
  · intro q
    by_cases hq : q = p
    · subst hq; simp [Pc.OK]
    · simpa [update_of_ne hq] using h.phase q

end Ctl.OK

/-- Only blocks outside the log area are passed to `log_write`; block numbers are `uint`s. -/
def Logs (L : Layout) : Event → Prop
  | .logWrite _ b => ¬L.Area b ∧ b < 2^32
  | _ => True

instance (L : Layout) : (e : Event) → Decidable (Logs L e)
  | .logWrite _ b => inferInstanceAs (Decidable (¬L.Area b ∧ b < 2^32))
  | .buffer _ _ | .beginOp _ | .beginTest _ | .wake _ | .endOp _ | .commit _ => isTrue trivial

lemma store_ctl {s t : Sys} {p : Pid} {b : ℕ} {v : Block} (h : s.store p b v = some t) :
    t.toCtl = s.toCtl := by
  obtain ⟨c,-,rfl⟩ := map_eq_some_iff.mp h
  rfl

lemma micro_ctl {s t : Sys} {p : Pid} {m : Micro} (h : s.micro p m = some t) :
    t.toCtl = s.toCtl := by
  cases m with
  | bget b =>
    cases h
    cases s.cache.bget p b <;> rfl
  | memmove dst src | putHead b =>
    obtain ⟨i,-,h⟩ := bind_eq_some_iff.mp h
    exact store_ctl h
  | bunpin b =>
    obtain ⟨i,-,h⟩ := bind_eq_some_iff.mp h
    obtain ⟨c,-,rfl⟩ := map_eq_some_iff.mp h
    rfl
  | lock b | fill b | store b v | bwrite b | unlock b | drop b =>
    obtain ⟨c,-,rfl⟩ := map_eq_some_iff.mp h
    rfl

lemma logWrite_pc {L : Layout} {s t : Sys} {p : Pid} {b : ℕ} (h : s.logWrite L p b = some t) :
    t.pc = s.pc := by
  obtain ⟨i,-,h⟩ := bind_eq_some_iff.mp h
  dsimp only at h
  split_ifs at h
  · cases h; rfl
  · cases h; rfl
  · obtain ⟨c,-,rfl⟩ := map_eq_some_iff.mp h
    rfl
  · cases h; rfl

lemma logWrite_cases {L : Layout} {s t : Sys} {p : Pid} {b : ℕ} (h : s.logWrite L p b = some t)
    (hout : 0 < s.outstanding) : (∃ i, s.cache.ready p b = some i) ∧
    ((LOGSIZE ≤ s.lh.n ∨ L.size-1 ≤ s.lh.n) ∧ t = s.panic "too big a transaction" ∨
    (s.lh.n < LOGSIZE ∧ s.lh.n+1 < L.size) ∧
      (b ∈ s.lh.blocks ∧ t = { s with
        hist := ⟨s.op p,s.epoch,b⟩::s.hist
        dirty := update s.dirty b false } ∨
      b ∉ s.lh.blocks ∧ ∃ c, s.cache.bpin b = some c ∧ t = { s with
        lh := ⟨s.lh.n+1,update s.lh.block s.lh.n b⟩
        hist := ⟨s.op p,s.epoch,b⟩::s.hist
        dirty := update s.dirty b false
        cache := c
        pins := update s.pins b (s.pins b+1) })) := by
  obtain ⟨i,hi,h⟩ := bind_eq_some_iff.mp h
  refine ⟨⟨i,hi⟩,?_⟩
  by_cases hfull : LOGSIZE ≤ s.lh.n ∨ L.size-1 ≤ s.lh.n
  · rw [if_pos hfull] at h
    cases h
    exact .inl ⟨hfull,rfl⟩
  rw [if_neg hfull,if_neg (by omega)] at h
  refine .inr ⟨by omega,?_⟩
  rcases logSlot_cases s.lh b with ⟨he,hb⟩ | ⟨hlt,hb⟩
  · right
    simp only [he,if_true] at h
    obtain ⟨c,hc,rfl⟩ := map_eq_some_iff.mp h
    exact ⟨hb,c,hc,rfl⟩
  · left
    have hsame : update s.lh.block (Sys.logSlot s.lh b) b = s.lh.block :=
      update_eq_self_iff.mpr hb.symm
    simp only [hlt.ne,if_false,hsame] at h
    cases h
    exact ⟨mem_blocks.mpr ⟨_,hlt,hb⟩,rfl⟩

section Steps
variable {L : Layout} {s t : Sys} {p : Pid}

section
variable (h : s.toCtl.OK L)
include h

lemma logWrite_ok {b : ℕ} (hp : s.pc p = .inOp) (hb : ¬L.Area b ∧ b < 2^32)
    (ht : s.logWrite L p b = some t) : t.toCtl.OK L := by
  obtain ⟨-,⟨-,rfl⟩ | ⟨hn,⟨hmem,rfl⟩ | ⟨hmem,c,-,rfl⟩⟩⟩ := logWrite_cases ht (h.outstanding_pos hp)
  · exact h
  · refine h.addRec hp h.le_logsize h.lt_size h.entries h.nodup ?_
    intro x
    constructor
    · exact .inl
    · rintro (hx | rfl)
      · exact hx
      · exact hmem
  · have happ := blocks_append s.lh b
    refine h.addRec hp hn.1 hn.2 ?_ ?_ ?_
    · intro x hx
      rw [happ,mem_append,mem_singleton] at hx
      rcases hx with hx | rfl
      · exact h.entries x hx
      · exact ⟨hb.2,hb.1⟩
    · rw [happ]
      refine List.Nodup.append h.nodup (nodup_singleton b) ?_
      intro x hx hxb
      rw [mem_singleton] at hxb
      exact hmem (hxb ▸ hx)
    · intro x
      rw [happ,mem_append,mem_singleton]

lemma endOp_ok (hp : s.pc p = .inOp) : (s.endOp p).toCtl.OK L := by
  have hc : ¬s.committing = true := by simp [h.not_committing hp]
  unfold Sys.endOp
  rw [if_neg hc]
  by_cases hlast : s.outstanding-1 = 0
  · rw [if_pos hlast]
    exact h.close hp hlast
  · rw [if_neg hlast]
    exact h.wakeAll.leave (show (s.pc p).wake = .inOp by rw [hp]; rfl)

lemma advance_ok {ph : Phase} {k : ℕ} (hp : s.pc p = .commit ph k) :
    (s.advance p ph).toCtl.OK L := by
  have hph : (s.pc p).OK s.lh.n s.group s.epoch := h.phase p
  rw [hp] at hph
  have hmove (pc' : Pc) (hc : pc'.inCommit = true) (hok : pc'.OK s.lh.n s.group s.epoch) :
      (s.setPc p pc').toCtl.OK L := by
    refine h.move ?_ (by rw [hp,hc]; rfl) hok
    rw [hp]
    cases pc' <;> simp_all [Pc.inCommit]
  unfold Sys.advance
  cases ph with
  | log tail =>
    by_cases ht : tail+1 < s.lh.n
    · simp only [Phase.next,ht,if_true]
      exact hmove _ rfl ⟨ht,hph.2⟩
    · simp only [Phase.next,ht,if_false]
      exact hmove _ rfl ⟨(Nat.zero_le _).trans_lt hph.1,hph.2⟩
  | head =>
    have hn : 0 < s.lh.n := hph.1
    simp only [Phase.next,hn,if_true]
    exact hmove _ rfl hph
  | install tail =>
    by_cases ht : tail+1 < s.lh.n
    · simp only [Phase.next,ht,if_true]
      exact hmove _ rfl ⟨ht,hph.2⟩
    · simp only [Phase.next,ht,if_false]
      exact h.clear hp hph.2
  | erase => exact hmove _ rfl hph.1

lemma beginTest_ok (hp : s.pc p = .begin false) : (s.beginTest p).toCtl.OK L := by
  have hsleep : (s.setPc p (.begin true)).toCtl.OK L :=
    h.move (by simp [hp]) (by rw [hp]; rfl) trivial
  unfold Sys.beginTest
  split_ifs with hc hfull
  · exact hsleep
  · exact hsleep
  · exact h.enterOp hp (by simpa using hc)

/-- One step keeps the invariant of the control state. -/
theorem step_ctl {e : Event} (hu : Logs L e) (ht : step L s e = some t) : t.toCtl.OK L := by
  cases step_cases ht with
  | buffer _ _ ht => exact (micro_ctl ht).symm ▸ h
  | logWrite hp ht => exact logWrite_ok h hp hu ht
  | beginOp hp => exact h.move (by simp [hp]) (by rw [hp]; rfl) trivial
  | beginTest hp => exact beginTest_ok h hp
  | wake hp => exact h.move (by simp [hp]) (by rw [hp]; rfl) trivial
  | endOp hp => exact endOp_ok h hp
  | @enter p hp =>
    have hph : (s.pc p).OK s.lh.n s.group s.epoch := h.phase p
    rw [hp] at hph
    by_cases hn : 0 < s.lh.n
    · rw [if_pos hn]
      exact h.move (by simp [hp]) (by rw [hp]; rfl) ⟨hn,hph⟩
    · rw [if_neg hn]
      exact h.move (by simp [hp]) (by rw [hp]; rfl) (Nat.eq_zero_of_not_pos hn)
  | @micro p ph k m u hp _ hmic =>
    have hph : (s.pc p).OK s.lh.n s.group s.epoch := h.phase p
    rw [hp] at hph
    have hmv : Ctl.OK L (s.setPc p (.commit ph (k+1))).toCtl :=
      h.move (by simp [hp]) (by rw [hp]; rfl) hph
    change Ctl.OK L { u.toCtl with pc := update u.toCtl.pc p (.commit ph (k+1)) }
    rw [micro_ctl hmic]
    exact hmv
  | advance hp _ => exact advance_ok h hp
  | @finish p hp => exact h.wakeAll.finish (show (s.pc p).wake = .finish by rw [hp]; rfl)

end

lemma init_ctl (d : Disk) : (Sys.init d).toCtl.OK L where
  le_logsize := Nat.zero_le _
  lt_size := L.size_pos
  entries b hb := by cases hb
  nodup := nodup_nil
  logged r hr := by cases hr
  recorded b hb := by cases hb
  ops := ⟨∅,by simp [Sys.init],rfl⟩
  committer := by simp [Sys.init,Pc.inCommit]
  unique p q hp := by cases hp
  idle h := by cases h
  epoch_le r hr := by cases hr
  op_lt p hp := by cases hp
  rec_lt r hr := by cases hr
  closed r hr := by cases hr
  whole r hr := by cases hr
  phase p := trivial

end Steps

end Xv6.Log
