import Xv6.Log.Control

/-! The reservation of `begin_op`: whom it lets sleep, and what it leaves of the log. `begin_op`
reserves `MAXOPBLOCKS` for each operation out of `LOGSIZE`, but a log of `LOGSIZE` blocks has one
block less for data, and `log_write` refuses a full log even for a block that is in it. -/
namespace Xv6.Log
open Xv6.Bio Xv6.Lib

section Waits
variable {L : Layout} {s t : Sys}

/-- A log without operations is empty, and who sleeps in `begin_op` has a reason to. -/
structure Ctl.Waits (c : Ctl) : Prop where
  idle : c.outstanding = 0 → c.committing = false → c.lh.n = 0
  asleep : ∀ p, c.pc p = .begin true →
    c.committing = true ∨ LOGSIZE < c.lh.n+(c.outstanding+1)*MAXOPBLOCKS

lemma Ctl.Waits.of_committing {c : Ctl} (hc : c.committing = true) : c.Waits :=
  ⟨fun _ h => absurd (hc.symm.trans h) (by simp),fun _ _ => .inl hc⟩

lemma Ctl.Waits.step {e : Event} (hw : s.toCtl.Waits) (h : s.toCtl.OK L)
    (ht : step L s e = some t) : t.toCtl.Waits := by
  have hmove {f : Pid → Pc} {p q : Pid} {pc : Pc} (hpc : pc ≠ .begin true)
      (hq : Function.update f p pc q = .begin true) : f q = .begin true := by
    by_cases hqp : q = p
    · simp [hqp,hpc] at hq
    · rwa [Function.update_of_ne hqp] at hq
  have hwake {p q : Pid} (hq : Function.update (fun q => (s.pc q).wake) p .out q = .begin true) :
      False := by
    have := hmove (by simp) hq
    cases hp : s.pc q <;> simp [Pc.wake,hp] at this
  have hc {p : Pid} (hp : (s.pc p).inCommit) : s.committing = true := h.committer.mpr ⟨p,hp⟩
  cases step_cases ht with
  | buffer _ _ ht => exact (micro_ctl ht).symm ▸ hw
  | logWrite hp ht =>
    have ho := h.outstanding_pos hp
    rcases (logWrite_cases ht ho).2 with ⟨-,rfl⟩ | ⟨-,⟨-,rfl⟩ | ⟨-,c,-,rfl⟩⟩
    · exact hw
    · exact ⟨hw.idle,hw.asleep⟩
    · refine ⟨fun h0 => absurd h0 ho.ne',fun q hq => (hw.asleep q hq).imp_right fun hlt => ?_⟩
      exact hlt.trans_le (Nat.add_le_add_right (Nat.le_succ _) _)
  | beginOp | wake => exact ⟨hw.idle,fun q hq => hw.asleep q (hmove (by simp) hq)⟩
  | beginTest =>
    unfold Sys.beginTest
    split_ifs with hc hn
    · exact .of_committing hc
    · exact ⟨hw.idle,fun _ _ => .inr hn⟩
    · refine ⟨fun h0 => absurd h0 (Nat.succ_ne_zero _),fun q hq => ?_⟩
      refine (hw.asleep q (hmove (by simp) hq)).imp_right fun hlt => hlt.trans_le ?_
      exact Nat.add_le_add_left (Nat.mul_le_mul_right _ (Nat.le_succ _)) _
  | endOp hp =>
    unfold Sys.endOp
    dsimp only
    split_ifs with hc h0
    · exact .of_committing hc
    · exact .of_committing rfl
    · exact ⟨fun h => absurd h h0,fun _ hq => (hwake hq).elim⟩
  | enter hp => exact .of_committing (hc (by rw [hp]; rfl))
  | micro hp _ hu =>
    exact .of_committing ((congrArg Ctl.committing (micro_ctl hu)).trans (hc (by rw [hp]; rfl)))
  | advance hp =>
    refine .of_committing ?_
    unfold Sys.advance
    split <;> exact hc (by rw [hp]; rfl)
  | @finish p hp =>
    have hn := h.phase p
    rw [hp] at hn
    exact ⟨fun _ _ => hn,fun q hq => (hwake (p := p) (q := q) hq).elim⟩

lemma init_waits (d : Disk) : (Sys.init d).toCtl.Waits := ⟨fun _ _ => rfl,fun _ h => by cases h⟩

lemma Runs.waits {d : Disk} {es : List Event}
    (h : Runs (step L) (fun _ e => Logs L e) (Sys.init d) es s) : s.toCtl.OK L ∧ s.toCtl.Waits :=
  h.invariant_and (I := fun s => s.toCtl.OK L) (J := fun s => s.toCtl.Waits)
    (fun _ _ _ hi hc ht => step_ctl hi hc ht) (fun _ _ _ hi hw _ ht => hw.step hi ht)
    ⟨init_ctl d,init_waits d⟩

/-- An empty log has room for an operation, so that somebody sleeps only beside others. -/
lemma Ctl.Waits.busy {c : Ctl} (hw : c.Waits) {p : Pid} (hp : c.pc p = .begin true) :
    c.committing = true ∨
      0 < c.outstanding ∧ LOGSIZE < c.lh.n+(c.outstanding+1)*MAXOPBLOCKS := by
  refine or_iff_not_imp_left.mpr fun hc => ?_
  have hlt := (hw.asleep p hp).resolve_left hc
  refine ⟨Nat.pos_of_ne_zero fun h0 => ?_,hlt⟩
  rw [hw.idle h0 (Bool.eq_false_iff.mpr hc),h0] at hlt
  exact absurd hlt (by decide)

lemma Ctl.OK.exists_inOp {c : Ctl} (h : c.OK L) (ho : 0 < c.outstanding) :
    ∃ q, c.pc q = .inOp := by
  obtain ⟨S,hS,hcard⟩ := h.ops
  rw [← hcard,Finset.card_pos] at ho
  exact ho.imp fun q => (hS q).mp

/-- `begin_op` does not sleep without need: somebody commits, or somebody is inside an operation
and there is no room for one more. -/
theorem begin_op_waits {d : Disk} {es : List Event}
    (h : Runs (step L) (fun _ e => Logs L e) (Sys.init d) es s) (p : Pid)
    (hp : s.pc p = .begin true) : (∃ q, (s.pc q).inCommit) ∨
      (∃ q, s.pc q = .inOp) ∧ LOGSIZE < s.lh.n+(s.outstanding+1)*MAXOPBLOCKS := by
  obtain ⟨hi,hw⟩ := Runs.waits h
  exact (hw.busy hp).imp hi.committer.mp fun hb => ⟨hi.exists_inOp hb.1,hb.2⟩

/-- What `struct log` says while a process sleeps in `begin_op`, and that the operation or the
commit in progress wakes the sleepers when it ends. -/
theorem begin_op_sleepers {d : Disk} {es : List Event}
    (h : Runs (step L) (fun _ e => Logs L e) (Sys.init d) es s) (p : Pid)
    (hp : s.pc p = .begin true) :
    (s.committing = true ∨
      0 < s.outstanding ∧ LOGSIZE < s.lh.n+(s.outstanding+1)*MAXOPBLOCKS) ∧
    (∃ q, (s.pc q).inCommit ∨ s.pc q = .inOp) ∧
    (∀ q t, step L s (.endOp q) = some t → t.pc p = .begin false ∨ (t.pc q).inCommit) ∧
    ∀ q t, s.pc q = .finish → step L s (.commit q) = some t → t.pc p = .begin false := by
  obtain ⟨hi,hw⟩ := Runs.waits h
  have hbusy := hw.busy hp
  have hwoken {q : Pid} (hqp : p ≠ q) :
      Function.update (fun q => (s.pc q).wake) q .out p = .begin false := by
    rw [Function.update_of_ne hqp,hp]
    rfl
  refine ⟨hbusy,?_,fun q t ht => ?_,fun q t hq ht => ?_⟩
  · rcases hbusy with hc | ho
    · exact (hi.committer.mp hc).imp fun _ => .inl
    · exact (hi.exists_inOp ho.1).imp fun _ => .inr
  · cases step_cases ht with
    | endOp hq =>
      have hqp : p ≠ q := by
        rintro rfl
        simp [hp] at hq
      unfold Sys.endOp
      rw [if_neg (by simp [hi.not_committing hq])]
      split_ifs
      · exact .inr (by simp [Sys.setPc,Pc.inCommit])
      · exact .inl (hwoken hqp)
  · cases step_cases ht with
    | finish =>
      refine hwoken ?_
      rintro rfl
      simp [hp] at hq
    | enter h' | micro h' | advance h' => simp [hq] at h'

end Waits

/-- Four processes call `begin_op`, and the last one has to wait. -/
def fourBegin : List Event := (List.range 4).flatMap fun p => [.beginOp p,.beginTest p]

lemma fourBegin_run : ∃ s, Runs (step mkfsLog) (fun _ e => Logs mkfsLog e)
      (Sys.init fun _ _ => 0) fourBegin s ∧ s.pc 3 = .begin true :=
  Runs.exists_of_execIf (step mkfsLog) (fun _ e => Logs mkfsLog e)
    (Sys.init fun _ _ => 0) fourBegin (fun s => s.pc 3 = .begin true) (by decide +kernel)

theorem begin_op_waits_four : ∃ s, Runs (step mkfsLog) (fun _ e => Logs mkfsLog e)
      (Sys.init fun _ _ => 0) ((List.range 4).flatMap fun p => [.beginOp p,.beginTest p]) s ∧
    s.pc 3 = .begin true ∧ ((∃ q, (s.pc q).inCommit) ∨ ∃ q, s.pc q = .inOp) := by
  obtain ⟨s,h,hp⟩ := fourBegin_run
  exact ⟨s,h,hp,(begin_op_waits h 3 hp).imp_right And.left⟩

theorem begin_op_sleepers_four : ∃ s, Runs (step mkfsLog) (fun _ e => Logs mkfsLog e)
      (Sys.init fun _ _ => 0) fourBegin s ∧ s.pc 3 = .begin true ∧
    (s.committing = true ∨
      0 < s.outstanding ∧ LOGSIZE < s.lh.n+(s.outstanding+1)*MAXOPBLOCKS) := by
  obtain ⟨s,h,hp⟩ := fourBegin_run
  exact ⟨s,h,hp,(begin_op_sleepers h 3 hp).1⟩

/-- The distinct blocks one operation has passed to `log_write`. -/
def Ctl.opBlocks (c : Ctl) (o : ℕ) : Finset ℕ :=
  ((c.hist.filter fun r => r.op = o).map Rec.block).toFinset

/-- Each operation passes at most `k` distinct blocks to `log_write`. -/
def Reserved (k : ℕ) (s : Sys) : Event → Prop
  | .logWrite p b => (insert b (s.opBlocks (s.op p))).card ≤ k
  | _ => True

instance (k : ℕ) (s : Sys) : (e : Event) → Decidable (Reserved k s e)
  | .logWrite p b => inferInstanceAs (Decidable ((insert b (s.opBlocks (s.op p))).card ≤ k))
  | .buffer _ _ | .beginOp _ | .beginTest _ | .wake _ | .endOp _ | .commit _ => isTrue trivial

/-- The log has room for all that any operations in progress may still log. `begin_op` counts
`MAXOPBLOCKS` for each of them, and where it counts for two or more there is room left over. -/
def Ctl.Reserve (k : ℕ) (c : Ctl) : Prop :=
  ∀ S : Finset Pid, (∀ p ∈ S, c.pc p = .inOp) →
    c.lh.n+∑ p ∈ S, (k-(c.opBlocks (c.op p)).card)+2*(MAXOPBLOCKS-k) ≤ LOGSIZE

namespace Ctl
variable {L : Layout} {c c' : Ctl} {k : ℕ} {p : Pid} {b : ℕ}

lemma opBlocks_cons (c : Ctl) (lh : LogHeader) (r : Rec) (o : ℕ) :
    opBlocks { c with lh := lh, hist := r::c.hist } o =
      if r.op = o then insert r.block (c.opBlocks o) else c.opBlocks o := by
  unfold opBlocks
  split_ifs with h <;> simp [h]

lemma subset_opBlocks_cons (c : Ctl) (lh : LogHeader) (r : Rec) (o : ℕ) :
    c.opBlocks o ⊆ opBlocks { c with lh := lh, hist := r::c.hist } o := by
  rw [opBlocks_cons]
  split_ifs
  · exact Finset.subset_insert ..
  · exact Finset.Subset.refl _

lemma OK.mem_blocks (h : c.OK L) (hp : c.pc p = .inOp) (hb : b ∈ c.opBlocks (c.op p)) :
    b ∈ c.lh.blocks := by
  simp only [opBlocks,List.mem_toFinset,List.mem_map,List.mem_filter,decide_eq_true_eq] at hb
  obtain ⟨r,⟨hr,hop⟩,rfl⟩ := hb
  exact h.logged r hr (h.epoch_eq hp hr hop)

namespace Reserve

lemma mono (h : c.Reserve k) (hpc : ∀ q, c'.pc q = .inOp → c.pc q = .inOp)
    (hn : c'.lh.n ≤ c.lh.n) (hop : c'.op = c.op) (hb : ∀ o, c.opBlocks o ⊆ c'.opBlocks o) :
    c'.Reserve k := by
  intro S hS
  refine le_trans ?_ (h S fun q hq => hpc q (hS q hq))
  rw [hop]
  gcongr with q
  exact hb _

/-- The test of `begin_op` makes the reserve. -/
lemma admitted (h : c.OK L) (hk : k ≤ MAXOPBLOCKS) (hidle : c.outstanding = 0 → c.lh.n = 0)
    (hn : c.lh.n+(c.outstanding+1)*MAXOPBLOCKS ≤ LOGSIZE) (hlh : c'.lh = c.lh)
    (hpc : ∀ q, c'.pc q = .inOp → q = p ∨ c.pc q = .inOp) : c'.Reserve k := by
  intro S hS
  obtain ⟨T,hT,hcard⟩ := h.ops
  have hsub : S ⊆ insert p T := by
    intro q hq
    rw [Finset.mem_insert,hT]
    exact hpc q (hS q hq)
  have hS : S.card ≤ c.outstanding+1 := by
    rw [← hcard]
    exact (Finset.card_le_card hsub).trans (Finset.card_insert_le _ _)
  have hsum : ∑ q ∈ S, (k-(c'.opBlocks (c'.op q)).card) ≤ (c.outstanding+1)*k :=
    calc _ ≤ S.card*k := Finset.sum_le_card_nsmul _ _ _ fun _ _ => Nat.sub_le _ _
      _ ≤ _ := Nat.mul_le_mul_right _ hS
  rw [hlh]
  rcases Nat.eq_zero_or_pos c.outstanding with h0 | h0
  · rw [hidle h0]
    rw [h0] at hsum
    simp only [LOGSIZE]
    omega
  · have h2 : 2*(MAXOPBLOCKS-k) ≤ (c.outstanding+1)*(MAXOPBLOCKS-k) :=
      Nat.mul_le_mul_right _ (by omega)
    have hadd : (c.outstanding+1)*k+(c.outstanding+1)*(MAXOPBLOCKS-k) =
        (c.outstanding+1)*MAXOPBLOCKS := by rw [← Nat.mul_add,Nat.add_sub_cancel' hk]
    omega

/-- A block that joins the header comes out of the reserve of its operation. -/
lemma log (hr : c.Reserve k) (h : c.OK L) (hp : c.pc p = .inOp) (hb : b ∉ c.lh.blocks)
    (hk : (insert b (c.opBlocks (c.op p))).card ≤ k) {e : ℕ} {f : ℕ → ℕ} :
    Reserve k { c with lh := ⟨c.lh.n+1,f⟩, hist := ⟨c.op p,e,b⟩::c.hist } := by
  intro S hS
  have hlt : ∑ q ∈ S,
      (k-(opBlocks { c with lh := ⟨c.lh.n+1,f⟩, hist := ⟨c.op p,e,b⟩::c.hist } (c.op q)).card) <
      ∑ q ∈ insert p S, (k-(c.opBlocks (c.op q)).card) := by
    refine (Finset.sum_le_sum_of_subset (Finset.subset_insert p S)).trans_lt
      (Finset.sum_lt_sum (fun q _ => ?_) ⟨p,Finset.mem_insert_self p S,?_⟩)
    · exact Nat.sub_le_sub_left (Finset.card_le_card (subset_opBlocks_cons ..)) _
    · have hnew : b ∉ c.opBlocks (c.op p) := fun hm => hb (h.mem_blocks hp hm)
      rw [opBlocks_cons,if_pos rfl]
      rw [Finset.card_insert_of_notMem hnew] at hk ⊢
      omega
  have := hr (insert p S) fun q hq => by
    rcases Finset.mem_insert.mp hq with rfl | hq
    · exact hp
    · exact hS q hq
  dsimp only
  omega

end Reserve
end Ctl

section Capacity
variable {L : Layout} {s t : Sys} {e : Event} {k : ℕ}

lemma Ctl.Reserve.step (hk : k ≤ MAXOPBLOCKS) (hr : s.toCtl.Reserve k) (h : s.toCtl.OK L)
    (hw : s.toCtl.Waits) (hc : Reserved k s e) (ht : step L s e = some t) :
    t.toCtl.Reserve k := by
  have hmove {f : Pid → Pc} {p q : Pid} {pc : Pc} (hpc : pc ≠ .inOp)
      (hq : Function.update f p pc q = .inOp) : f q = .inOp := by
    by_cases hqp : q = p
    · simp [hqp,hpc] at hq
    · rwa [Function.update_of_ne hqp] at hq
  have hwoken {p q : Pid} (hq : Function.update (fun q => (s.pc q).wake) p .out q = .inOp) :
      s.pc q = .inOp := (Ctl.OK.wake_inOp _).mp (hmove (by simp) hq)
  have hset {u : Ctl} (hu : u.Reserve k) {p : Pid} {pc : Pc} (hpc : pc ≠ .inOp) :
      Ctl.Reserve k { u with pc := Function.update u.pc p pc } :=
    hu.mono (fun q hq => hmove hpc hq) le_rfl rfl fun _ => Finset.Subset.refl _
  cases step_cases ht with
  | buffer _ _ ht => exact (micro_ctl ht).symm ▸ hr
  | @logWrite p b _ hp ht =>
    obtain ⟨-,⟨-,rfl⟩ | ⟨-,⟨-,rfl⟩ | ⟨hb,c,-,rfl⟩⟩⟩ := logWrite_cases ht (h.outstanding_pos hp)
    · exact hr
    · exact hr.mono (fun _ hq => hq) le_rfl rfl (Ctl.subset_opBlocks_cons s.toCtl s.lh _)
    · exact hr.log h hp hb hc
  | beginOp | wake => exact hset hr (by simp)
  | @beginTest p hp =>
    unfold Sys.beginTest
    split_ifs with hcm hn
    · exact hset hr (by simp)
    · exact hset hr (by simp)
    · refine .admitted (p := p) h hk (hw.idle · (Bool.eq_false_iff.mpr hcm)) (Nat.not_lt.mp hn) rfl ?_
      intro q hq
      by_cases hqp : q = p
      · exact .inl hqp
      · exact .inr (by simpa [Sys.setPc,hqp] using hq)
  | endOp =>
    unfold Sys.endOp
    dsimp only
    split_ifs
    · exact hr
    · exact hset hr (by simp)
    · exact hr.mono (fun q hq => hwoken hq) le_rfl rfl fun _ => Finset.Subset.refl _
  | enter => exact hset hr (by split <;> simp)
  | micro _ _ hu =>
    have hu' := micro_ctl hu
    exact hset (hu'.symm ▸ hr) (by simp)
  | advance =>
    unfold Sys.advance
    split
    · exact hr.mono (fun q hq => hmove (by simp) hq) (Nat.zero_le _) rfl fun _ =>
        Finset.Subset.refl _
    · exact hset hr (by simp)
    · exact hset hr (by simp)
  | finish =>
    exact hr.mono (fun q hq => hwoken hq) le_rfl rfl fun _ => Finset.Subset.refl _

lemma init_reserve (hk : k ≤ MAXOPBLOCKS) (d : Disk) : (Sys.init d).toCtl.Reserve k :=
  fun S hS => by
    have : S = ∅ := Finset.eq_empty_of_forall_notMem fun p hp => by cases hS p hp
    subst this
    simp only [Sys.init,Finset.sum_empty,LOGSIZE]
    omega

lemma micro_panicked {p : Pid} {m : Micro} (h : s.micro p m = some t) :
    t.panicked = s.panicked ∨ t.panicked = some "bget: no buffers" := by
  cases m with
  | bget b =>
    cases h
    cases s.cache.bget p b
    · exact .inr rfl
    · exact .inl rfl
  | memmove dst src | putHead b | bunpin b =>
    obtain ⟨i,-,h⟩ := Option.bind_eq_some_iff.mp h
    obtain ⟨c,-,rfl⟩ := Option.map_eq_some_iff.mp h
    exact .inl rfl
  | lock b | fill b | store b v | bwrite b | unlock b | drop b =>
    obtain ⟨c,-,rfl⟩ := Option.map_eq_some_iff.mp h
    exact .inl rfl

lemma running_of_step (ht : step L s e = some t) : s.panicked = none := by
  unfold step at ht
  by_contra hne
  simp [hne] at ht

lemma step_panicked (hL : L.size = LOGSIZE) (h : s.toCtl.OK L) (hn : s.lh.n+1 < LOGSIZE)
    (ht : step L s e = some t) : t.panicked ≠ some "too big a transaction" := by
  have hs := running_of_step ht
  have hmicro {p : Pid} {m : Micro} {u : Sys} (hu : s.micro p m = some u) :
      u.panicked ≠ some "too big a transaction" := by
    rcases micro_panicked hu with e | e
    · simp [e,hs]
    · simp [e]
  cases step_cases ht with
  | buffer _ _ ht => exact hmicro ht
  | logWrite hp ht =>
    obtain ⟨-,⟨hfull,-⟩ | ⟨-,⟨-,rfl⟩ | ⟨-,c,-,rfl⟩⟩⟩ := logWrite_cases ht (h.outstanding_pos hp)
    · rw [hL] at hfull
      omega
    · simp [hs]
    · simp [hs]
  | beginOp | wake | enter | finish => simp [Sys.setPc,Sys.endCommit,hs]
  | beginTest =>
    unfold Sys.beginTest
    split_ifs <;> simp [Sys.setPc,hs]
  | endOp =>
    unfold Sys.endOp
    dsimp only
    split_ifs <;> simp [Sys.setPc,Sys.panic,hs]
  | @micro p ph k m u _ _ hu => exact hmicro (p := p) (m := m) (u := u) hu
  | advance =>
    unfold Sys.advance
    split <;> simp [Sys.setPc,hs]

/-- Operations of at most `k` distinct blocks each, for any `k` up to `MAXOPBLOCKS`: the log has
room for all that those in progress may still log, as `begin_op` means it, and `log.lh.n` stays
within the data blocks. For `k` below `MAXOPBLOCKS` no call of `log_write` panics. -/
theorem log_capacity (hL : L.size = LOGSIZE) (hk : k ≤ MAXOPBLOCKS) {d : Disk} {es : List Event}
    (h : Runs (step L) (fun s e => Logs L e ∧ Reserved k s e) (Sys.init d) es s) :
    (k < MAXOPBLOCKS → s.panicked ≠ some "too big a transaction") ∧ s.lh.n ≤ L.size-1 ∧
    ∀ S : Finset Pid, (∀ p ∈ S, s.pc p = .inOp) →
      s.lh.n+∑ p ∈ S, (k-(s.opBlocks (s.op p)).card)+2*(MAXOPBLOCKS-k) ≤ LOGSIZE := by
  obtain ⟨⟨hi,-,hr⟩,hpan⟩ := h.invariant_and
    (I := fun s => s.toCtl.OK L ∧ s.toCtl.Waits ∧ s.toCtl.Reserve k)
    (J := fun s => k < MAXOPBLOCKS → s.panicked ≠ some "too big a transaction")
    (fun _ _ _ hi hc ht =>
      ⟨step_ctl hi.1 hc.1 ht,hi.2.1.step hi.1 ht,hi.2.2.step hk hi.1 hi.2.1 hc.2 ht⟩)
    (fun s _ _ hi _ _ ht hlt => by
      have hn := hi.2.2 ∅ (by simp)
      rw [Finset.sum_empty] at hn
      exact step_panicked hL hi.1 (by omega) ht)
    ⟨⟨init_ctl d,init_waits d,init_reserve hk d⟩,fun _ => by simp [Sys.init]⟩
  have hlt : s.lh.n < L.size := hi.lt_size
  exact ⟨hpan,by omega,hr⟩

/-- `bread`, `log_write` and `brelse` of one block. -/
def logBlock (p : Pid) (b : ℕ) : List Event :=
  [.buffer p (.bget b),.buffer p (.lock b),.buffer p (.fill b),.logWrite p b,
   .buffer p (.unlock b),.buffer p (.drop b)]

/-- Three operations are admitted and log `k` blocks each. -/
def threeOps (k : ℕ) : List Event :=
  ((List.range 3).flatMap fun p => [.beginOp p,.beginTest p])++
  (List.range (3*k-1)).flatMap (fun i => logBlock (i/k) (100+i))++
  (logBlock 2 (99+3*k)).take 4

theorem log_capacity_nine : ∃ s, Runs (step mkfsLog)
      (fun s e => Logs mkfsLog e ∧ Reserved 9 s e) (Sys.init fun _ _ => 0) (threeOps 9) s ∧
    s.lh.n = 27 ∧ s.panicked ≠ some "too big a transaction" := by
  obtain ⟨s,hs,hn⟩ := Runs.exists_of_execIf (step mkfsLog)
    (fun s e => Logs mkfsLog e ∧ Reserved 9 s e) (Sys.init fun _ _ => 0) (threeOps 9)
    (fun s => s.lh.n = 27) (by decide +kernel)
  exact ⟨s,hs,hn,(log_capacity rfl (by decide) hs).1 (by decide)⟩

/-- With ten blocks each the last of thirty makes `log_write` panic. -/
theorem log_overflow : mkfsLog.size = LOGSIZE ∧ ∃ s, Runs (step mkfsLog)
      (fun s e => Logs mkfsLog e ∧ Reserved MAXOPBLOCKS s e) (Sys.init fun _ _ => 0)
      (threeOps MAXOPBLOCKS) s ∧ s.panicked = some "too big a transaction" := by
  refine ⟨rfl,?_⟩
  exact Runs.exists_of_execIf (step mkfsLog)
    (fun s e => Logs mkfsLog e ∧ Reserved MAXOPBLOCKS s e) (Sys.init fun _ _ => 0)
    (threeOps MAXOPBLOCKS) (fun s => s.panicked = some "too big a transaction")
    (by decide +kernel)

end Capacity
end Xv6.Log
