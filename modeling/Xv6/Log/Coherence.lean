import Xv6.Log.Group

/-! No update is lost between the buffer cache and the log: a buffer may differ from the disk
only while it is locked or pinned, so recycling it loses nothing. -/
namespace Xv6.Log
open Xv6.Bio Xv6.Lib
open Function (update update_self update_of_ne)

/-- A modified buffer is passed to `log_write` or `bwrite` before `brelse`. -/
def Written (s : Sys) : Event → Prop
  | .buffer _ (.unlock b) => s.dirty b = false
  | _ => True

instance (s : Sys) : (e : Event) → Decidable (Written s e)
  | .buffer _ (.unlock b) => inferInstanceAs (Decidable (s.dirty b = false))
  | .buffer _ (.bget _) | .buffer _ (.lock _) | .buffer _ (.fill _) | .buffer _ (.store _ _)
  | .buffer _ (.memmove _ _) | .buffer _ (.putHead _) | .buffer _ (.bwrite _)
  | .buffer _ (.bunpin _) | .buffer _ (.drop _)
  | .logWrite _ _ | .beginOp _ | .beginTest _ | .wake _ | .endOp _ | .commit _ => isTrue trivial

/-- What `bread` relies on. -/
structure Fresh (s : Sys) : Prop where
  held : ∀ b, s.dirty b = true → ∃ q, s.cache.Holds q b
  clean : ∀ b, s.dirty b = false → s.cache.content b = s.cache.disk b ∨ 0 < s.pins b
  stored : ∀ b, s.cache.content b = s.last b

section Fresh
variable {s t : Sys} {p q : Pid} {m : Micro} {b : ℕ}

/-- A block that falls back to its contents on disk had no others. -/
lemma Fresh.evict (h : Fresh s) {c : Cache} (he : Evicts s.pins s.cache c) (x : ℕ) :
    c.content x = s.cache.content x := by
  rcases he x with he | ⟨he,hpin,hno⟩
  · exact he
  · cases hd : s.dirty x with
    | true =>
      obtain ⟨q,hq⟩ := h.held x hd
      exact absurd hq (hno q)
    | false =>
      rcases h.clean x hd with hc | hc
      · rw [he,hc]
      · omega

lemma mild_fresh (h : Fresh s) (hw : WF s.pins s.cache) (hm : m.mild)
    (hun : ∀ b, m = .unlock b → s.dirty b = false) (ht : s.micro p m = some t) : Fresh t := by
  have hkeep (x : ℕ) (hx : s.dirty x = true) (q : Pid) (hq : s.cache.Holds q x) :
      t.cache.Holds q x := by
    refine mild_keeps hw hm hq ?_ ht
    rintro rfl
    simp [hun x rfl] at hx
  obtain ⟨c,pan,rfl,-,hdisk,he,-,-⟩ := mild_spec hw hm ht
  have hcont := h.evict he
  refine ⟨?_,?_,fun b => (hcont b).trans (h.stored b)⟩
  · intro x hx
    obtain ⟨q,hq⟩ := h.held x hx
    exact ⟨q,hkeep x hx q hq⟩
  · intro x hx
    change c.content x = c.disk x ∨ _
    rw [hcont,hdisk]
    exact h.clean x hx

lemma store_fresh (h : Fresh s) (hw : WF s.pins s.cache) {v : Block} (ht : s.store p b v = some t) :
    Fresh t := by
  obtain ⟨c,rfl,-,hdisk,hcont,hp,hh⟩ := store_effect hw ht
  refine ⟨?_,?_,?_⟩
  · intro x hx
    by_cases hb : x = b
    · subst hb; exact ⟨p,(hh p x).mpr hp⟩
    · simp only [update_of_ne hb] at hx
      obtain ⟨q,hq⟩ := h.held x hx
      exact ⟨q,(hh q x).mpr hq⟩
  · intro x hx
    by_cases hb : x = b
    · subst hb; simp at hx
    · simp only [update_of_ne hb] at hx
      change c.content x = c.disk x ∨ _
      rw [hcont,update_of_ne hb,hdisk]
      exact h.clean x hx
  · intro x
    change c.content x = _
    rw [hcont]
    by_cases hb : x = b
    · subst hb; simp
    · simp only [update_of_ne hb]
      exact h.stored x

lemma bwrite_fresh (h : Fresh s) (hw : WF s.pins s.cache) (ht : s.micro p (.bwrite b) = some t) :
    Fresh t := by
  obtain ⟨c,rfl,-,hdisk,hcont,-,hh⟩ := bwrite_effect hw ht
  refine ⟨?_,?_,fun x => (hcont x).trans (h.stored x)⟩
  · intro x hx
    by_cases hb : x = b
    · subst hb; simp at hx
    · simp only [update_of_ne hb] at hx
      obtain ⟨q,hq⟩ := h.held x hx
      exact ⟨q,(hh q x).mpr hq⟩
  · intro x hx
    change c.content x = c.disk x ∨ _
    rw [hcont,hdisk]
    by_cases hb : x = b
    · subst hb; simp
    · simp only [update_of_ne hb] at hx ⊢
      exact h.clean x hx

lemma bunpin_fresh (h : Fresh s) (hw : WF s.pins s.cache) (hpos : 0 < s.pins b)
    (hsync : s.cache.content b = s.cache.disk b) (ht : s.micro p (.bunpin b) = some t) :
    Fresh t := by
  obtain ⟨c,rfl,-,hs⟩ := bunpin_effect hw hpos ht
  refine ⟨?_,?_,fun x => (hs.content x).trans (h.stored x)⟩
  · intro x hx
    obtain ⟨q,hq⟩ := h.held x hx
    exact ⟨q,(hs.holds q x).mpr hq⟩
  · intro x hx
    change c.content x = c.disk x ∨ _
    rw [hs.content,hs.disk]
    by_cases hb : x = b
    · subst hb; exact .inl hsync
    · simp only [update_of_ne hb]
      exact h.clean x hx

/-- A step on buffers keeps every block fresh, provided no modified buffer is released and no
buffer that differs from the disk is unpinned. -/
theorem micro_fresh (h : Fresh s) (hw : WF s.pins s.cache)
    (hun : ∀ b, m = .unlock b → s.dirty b = false)
    (hbun : ∀ b, m = .bunpin b → 0 < s.pins b ∧ s.cache.content b = s.cache.disk b)
    (ht : s.micro p m = some t) : Fresh t := by
  cases m with
  | store b v => exact store_fresh h hw ht
  | memmove dst src => exact store_fresh h hw (memmove_effect hw ht)
  | putHead b => exact store_fresh h hw (putHead_effect hw ht)
  | bwrite b => exact bwrite_fresh h hw ht
  | bunpin b => exact bunpin_fresh h hw (hbun b rfl).1 (hbun b rfl).2 ht
  | bget b | lock b | fill b | unlock b | drop b => exact mild_fresh h hw rfl hun ht

end Fresh

/-- The buffers a piece of code has locked, and those it has stored to and not written yet. -/
structure Hand where
  locked : List ℕ
  changed : List ℕ

def Hand.after (h : Hand) : Micro → Hand
  | .lock b => { h with locked := b::h.locked }
  | .unlock b => { h with locked := h.locked.filter (· ≠ b) }
  | .store b _ | .memmove b _ | .putHead b => { h with changed := b::h.changed }
  | .bwrite b => { h with changed := h.changed.filter (· ≠ b) }
  | _ => h

/-- The hand of `commit` before step `k` of a phase. -/
def hand (L : Layout) (lh : LogHeader) (ph : Phase) (k : ℕ) : Hand :=
  ((ph.steps L lh).take k).foldl Hand.after ⟨[],[]⟩

section Hand
variable {L : Layout} {lh : LogHeader} {ph : Phase} {k : ℕ} {m : Micro}

lemma hand_succ (h : (ph.steps L lh)[k]? = some m) :
    hand L lh ph (k+1) = (hand L lh ph k).after m := by
  unfold hand
  rw [List.take_add_one,h,List.foldl_append]
  rfl

lemma hand_log (L : Layout) (lh : LogHeader) (tail k : ℕ) : hand L lh (.log tail) k =
    ([Micro.bget (L.start+tail+1),.lock (L.start+tail+1),.fill (L.start+tail+1),
      .bget (lh.block tail),.lock (lh.block tail),.fill (lh.block tail),
      .memmove (L.start+tail+1) (lh.block tail),.bwrite (L.start+tail+1),
      .unlock (lh.block tail),.drop (lh.block tail),.unlock (L.start+tail+1),
      .drop (L.start+tail+1)].take k).foldl Hand.after ⟨[],[]⟩ := rfl

lemma hand_install (L : Layout) (lh : LogHeader) (tail k : ℕ) : hand L lh (.install tail) k =
    ([Micro.bget (L.start+tail+1),.lock (L.start+tail+1),.fill (L.start+tail+1),
      .bget (lh.block tail),.lock (lh.block tail),.fill (lh.block tail),
      .memmove (lh.block tail) (L.start+tail+1),.bwrite (lh.block tail),.bunpin (lh.block tail),
      .unlock (L.start+tail+1),.drop (L.start+tail+1),.unlock (lh.block tail),
      .drop (lh.block tail)].take k).foldl Hand.after ⟨[],[]⟩ := rfl

/-- `commit` releases only buffers that it holds and has written. -/
lemma unlock_clean {b : ℕ} (hne : ∀ t, ph = .log t ∨ ph = .install t → lh.block t ≠ L.start+t+1)
    (h : (ph.steps L lh)[k]? = some (.unlock b)) :
    b ∈ (hand L lh ph k).locked ∧ b ∉ (hand L lh ph k).changed := by
  cases ph with
  | log tail =>
    have hne := hne tail (.inl rfl)
    rw [hand_log]
    change [Micro.bget _,.lock _,.fill _,.bget _,.lock _,.fill _,.memmove _ _,.bwrite _,.unlock _,
      .drop _,.unlock _,.drop _][k]? = some _ at h
    rcases k with _|_|_|_|_|_|_|_|_|_|_|_|k <;> simp at h <;> subst h <;>
      simp [Hand.after,hne.symm]
  | install tail =>
    have hne := hne tail (.inr rfl)
    rw [hand_install]
    change [Micro.bget _,.lock _,.fill _,.bget _,.lock _,.fill _,.memmove _ _,.bwrite _,.bunpin _,
      .unlock _,.drop _,.unlock _,.drop _][k]? = some _ at h
    rcases k with _|_|_|_|_|_|_|_|_|_|_|_|_|k <;> simp at h <;> subst h <;>
      simp [Hand.after,hne]
  | head | erase =>
    change [Micro.bget _,.lock _,.fill _,.putHead _,.bwrite _,.unlock _,.drop _][k]? = some _ at h
    rcases k with _|_|_|_|_|_|_|k <;> simp at h
    subst h
    simp [hand,Phase.steps,Phase.code,writeHead,Stmt.micro,Hand.after]

end Hand

/-- The invariant. The committer's hand is what its code says, and a block that is about to be
unpinned has just been written. -/
structure Coh (L : Layout) (s : Sys) : Prop extends Pins L s, Fresh s where
  tidy : ∀ q ph k, s.pc q = .commit ph k → ∀ b ∈ (hand L s.lh ph k).locked,
    s.cache.Holds q b ∧ (b ∉ (hand L s.lh ph k).changed → s.dirty b = false)
  synced : ∀ q tail, s.pc q = .commit (.install tail) 8 → s.cache.Holds q (s.lh.block tail) ∧
    s.cache.content (s.lh.block tail) = s.cache.disk (s.lh.block tail)

section Steps
variable {L : Layout} {s t : Sys} {p q : Pid} {m : Micro} {x k : ℕ}

lemma micro_other (h : Fresh s) (hw : WF s.pins s.cache)
    (hbun : ∀ b, m = .bunpin b → 0 < s.pins b) (hq : q ≠ p) (hx : s.cache.Holds q x)
    (ht : s.micro p m = some t) : t.cache.Holds q x ∧ t.cache.content x = s.cache.content x ∧
      t.cache.disk x = s.cache.disk x ∧ t.dirty x = s.dirty x := by
  have hne {b : ℕ} (hb : s.cache.Holds p b) : x ≠ b := by
    rintro rfl
    exact hq (hw.holds_unique hx hb)
  have hstore {b : ℕ} {v : Block} (ht : s.store p b v = some t) : t.cache.Holds q x ∧
      t.cache.content x = s.cache.content x ∧ t.cache.disk x = s.cache.disk x ∧
      t.dirty x = s.dirty x := by
    obtain ⟨c,rfl,-,hdisk,hcont,hp,hh⟩ := store_effect hw ht
    refine ⟨(hh q x).mpr hx,?_,congrFun hdisk x,update_of_ne (hne hp) _ _⟩
    change c.content x = _
    rw [hcont,update_of_ne (hne hp)]
  cases m with
  | store b v => exact hstore ht
  | memmove dst src => exact hstore (memmove_effect hw ht)
  | putHead b => exact hstore (putHead_effect hw ht)
  | bwrite b =>
    obtain ⟨c,rfl,-,hdisk,hcont,hp,hh⟩ := bwrite_effect hw ht
    refine ⟨(hh q x).mpr hx,hcont x,?_,update_of_ne (hne hp) _ _⟩
    change c.disk x = _
    rw [hdisk,update_of_ne (hne hp)]
  | bunpin b =>
    obtain ⟨c,rfl,-,hs⟩ := bunpin_effect hw (hbun b rfl) ht
    exact ⟨(hs.holds q x).mpr hx,hs.content x,congrFun hs.disk x,rfl⟩
  | bget b | lock b | fill b | unlock b | drop b =>
    obtain ⟨c,pan,rfl,-,hdisk,he,-,hh⟩ := mild_spec hw rfl ht
    exact ⟨(hh q x hq).mpr hx,h.evict he x,congrFun hdisk x,rfl⟩

/-- Any step of a process on its own buffers. -/
theorem client_coh (h : Coh L s) (hp : s.pc p = .out ∨ s.pc p = .inOp) (hm : m.client)
    (hu : Written s (.buffer p m)) (hpins : Pins L t) (ht : s.micro p m = some t) : Coh L t := by
  have hbun (b : ℕ) : m ≠ .bunpin b := by rintro rfl; cases hm
  have hctl := micro_ctl ht
  have hpc : t.pc = s.pc := congrArg Ctl.pc hctl
  have hlh : t.lh = s.lh := congrArg Ctl.lh hctl
  have hother (q : Pid) (x : ℕ) (hq : (s.pc q).inCommit) (hx : s.cache.Holds q x) :=
    micro_other h.toFresh h.wf (fun b e => absurd e (hbun b)) (ne_of_inCommit hp hq) hx ht
  have hfresh : Fresh t := micro_fresh h.toFresh h.wf (by rintro b rfl; exact hu)
    (fun b e => absurd e (hbun b)) ht
  refine ⟨hpins,hfresh,?_,?_⟩
  · intro q ph k hq b hb
    rw [hpc] at hq
    rw [hlh] at hb ⊢
    obtain ⟨h₁,h₂⟩ := h.tidy q ph k hq b hb
    obtain ⟨h₃,-,-,h₄⟩ := hother q b (by simp [hq,Pc.inCommit]) h₁
    exact ⟨h₃,fun hc => h₄.trans (h₂ hc)⟩
  · intro q tail hq
    rw [hpc] at hq
    rw [hlh]
    obtain ⟨h₁,h₂⟩ := h.synced q tail hq
    obtain ⟨h₃,h₄,h₅,-⟩ := hother q _ (by simp [hq,Pc.inCommit]) h₁
    exact ⟨h₃,by rw [h₄,h₅,h₂]⟩

lemma own_tidy (h : Fresh s) (hw : WF s.pins s.cache) {hd : Hand}
    (hbun : ∀ b, m = .bunpin b → 0 < s.pins b)
    (htidy : ∀ b ∈ hd.locked, s.cache.Holds p b ∧ (b ∉ hd.changed → s.dirty b = false))
    (ht : s.micro p m = some t) : ∀ b ∈ (hd.after m).locked,
      t.cache.Holds p b ∧ (b ∉ (hd.after m).changed → t.dirty b = false) := by
  have hstore {b : ℕ} {v : Block} (ht : s.store p b v = some t) : ∀ x ∈ hd.locked,
      t.cache.Holds p x ∧ (x ∉ b::hd.changed → t.dirty x = false) := by
    obtain ⟨c,rfl,-,-,-,-,hh⟩ := store_effect hw ht
    intro x hx
    obtain ⟨h₁,h₂⟩ := htidy x hx
    refine ⟨(hh p x).mpr h₁,?_⟩
    intro hc
    rw [List.mem_cons,not_or] at hc
    exact (update_of_ne hc.1 _ _).trans (h₂ hc.2)
  intro x hx
  cases m with
  | store b v => exact hstore ht x hx
  | memmove dst src => exact hstore (memmove_effect hw ht) x hx
  | putHead b => exact hstore (putHead_effect hw ht) x hx
  | bwrite b =>
    obtain ⟨c,rfl,-,-,-,-,hh⟩ := bwrite_effect hw ht
    obtain ⟨h₁,h₂⟩ := htidy x hx
    refine ⟨(hh p x).mpr h₁,?_⟩
    intro hc
    by_cases hb : x = b
    · subst hb; exact update_self ..
    · simp only [Hand.after,List.mem_filter,hb,not_false_eq_true,decide_true,and_true,ne_eq] at hc
      exact (update_of_ne hb _ _).trans (h₂ hc)
  | bunpin b =>
    obtain ⟨c,rfl,-,hs⟩ := bunpin_effect hw (hbun b rfl) ht
    obtain ⟨h₁,h₂⟩ := htidy x hx
    exact ⟨(hs.holds p x).mpr h₁,h₂⟩
  | lock b =>
    obtain ⟨c,hc,rfl⟩ := Option.map_eq_some_iff.mp ht
    obtain ⟨-,-,-,hno,hh⟩ := acquiresleep_spec hw hc
    rcases List.mem_cons.mp hx with rfl | hx
    · refine ⟨(hh p x).mpr (.inr ⟨rfl,rfl⟩),fun _ => ?_⟩
      -- nobody held it, so nobody has modified it
      cases hd : s.dirty x with
      | false => rfl
      | true =>
        obtain ⟨q,hq⟩ := h.held x hd
        exact absurd hq (hno q)
    · obtain ⟨h₁,h₂⟩ := htidy x hx
      exact ⟨(hh p x).mpr (.inl h₁),h₂⟩
  | unlock b =>
    obtain ⟨hx,hb⟩ := List.mem_filter.mp hx
    obtain ⟨h₁,h₂⟩ := htidy x hx
    refine ⟨mild_keeps hw rfl h₁ ?_ ht,?_⟩
    · rintro ⟨⟩
      simp at hb
    · obtain ⟨c,pan,rfl,-⟩ := mild_spec hw rfl ht
      exact h₂
  | bget b | fill b | drop b =>
    obtain ⟨h₁,h₂⟩ := htidy x hx
    refine ⟨mild_keeps hw rfl h₁ (by simp) ht,?_⟩
    obtain ⟨c,pan,rfl,-⟩ := mild_spec hw rfl ht
    exact h₂

/-- Any step of `commit` on buffers. -/
theorem commitMicro_coh (h : Coh L s) {ph : Phase} (hp : s.pc p = .commit ph k)
    (hpins : Pins L (t.setPc p (.commit ph (k+1)))) (hm : (ph.steps L s.lh)[k]? = some m)
    (ht : s.micro p m = some t) : Coh L (t.setPc p (.commit ph (k+1))) := by
  have hctl := micro_ctl ht
  have hlh : t.lh = s.lh := congrArg Ctl.lh hctl
  have hok := h.phase_ok hp
  have hne (u : ℕ) (hu : ph = .log u ∨ ph = .install u) : s.lh.block u ≠ L.start+u+1 := by
    have hlt : u < s.lh.n := by rcases hu with rfl | rfl <;> exact hok.1
    have hn : s.lh.n < L.size := h.ctl.lt_size
    exact h.entry_ne hlt ⟨by omega,by omega⟩
  have hbun (b : ℕ) (e : m = .bunpin b) : 0 < s.pins b ∧ s.cache.content b = s.cache.disk b := by
    subst e
    cases ph with
    | install tail =>
      rcases steps_install hm with ⟨-,e⟩ | ⟨-,e⟩ | ⟨rfl,e⟩ | ⟨-,e⟩ <;> cases e
      exact ⟨h.entry_pinned hp hok.1 (by simp),(h.synced p tail hp).2⟩
    | log tail => rcases steps_log hm with ⟨-,e⟩ | ⟨-,e⟩ | ⟨-,-,e⟩ <;> cases e
    | head => rcases steps_head (.inl rfl) hm with ⟨-,e⟩ | ⟨-,e⟩ | ⟨-,-,e⟩ <;> cases e
    | erase => rcases steps_head (.inr rfl) hm with ⟨-,e⟩ | ⟨-,e⟩ | ⟨-,-,e⟩ <;> cases e
  have hun (b : ℕ) (e : m = .unlock b) : s.dirty b = false := by
    subst e
    obtain ⟨hl,hc⟩ := unlock_clean hne hm
    exact (h.tidy p ph k hp b hl).2 hc
  have hfresh : Fresh t := micro_fresh h.toFresh h.wf hun hbun ht
  have htidy := own_tidy h.toFresh h.wf (fun b e => (hbun b e).1) (h.tidy p ph k hp) ht
  have hpc (q : Pid) (ph' : Phase) (k' : ℕ)
      (hq : (t.setPc p (.commit ph (k+1))).pc q = .commit ph' k') :
      q = p ∧ ph' = ph ∧ k' = k+1 := by
    have hq' : (s.setPc p (.commit ph (k+1))).pc q = .commit ph' k' := by
      rw [← setPc_ctl hctl]; exact hq
    cases h.only_setPc hp _ q (by rw [hq']; rfl)
    rw [s.setPc_self] at hq'
    cases hq'
    exact ⟨rfl,rfl,rfl⟩
  refine ⟨hpins,⟨hfresh.held,hfresh.clean,hfresh.stored⟩,?_,?_⟩
  · intro q ph' k' hq b hb
    obtain ⟨rfl,rfl,rfl⟩ := hpc q ph' k' hq
    change b ∈ (hand L t.lh ph' (k+1)).locked at hb
    change _ ∧ (b ∉ (hand L t.lh ph' (k+1)).changed → _)
    rw [hlh,hand_succ hm] at hb ⊢
    exact htidy b hb
  · intro q tail hq
    obtain ⟨rfl,rfl,hk⟩ := hpc q _ _ hq
    -- the step before unpinning is the write of the block
    have hk : k = 7 := by omega
    subst hk
    rcases steps_install hm with ⟨e,-⟩ | ⟨-,rfl⟩ | ⟨e,-⟩ | ⟨-,e⟩
    · omega
    · obtain ⟨c,rfl,-,hdisk,hcont,hq,hh⟩ := bwrite_effect h.wf ht
      refine ⟨(hh _ _).mpr hq,?_⟩
      change c.content (s.lh.block tail) = c.disk (s.lh.block tail)
      rw [hcont,hdisk,update_self]
    · omega
    · simp [Phase.steps,Phase.code,installBody,Stmt.micro] at hm
      subst hm
      cases e

/-- A step that touches no buffer: `commit` stays where it is or starts a new piece of code. -/
lemma Coh.control (h : Coh L s) (hpins : Pins L t) (hcache : t.cache = s.cache)
    (hp : t.pins = s.pins) (hdirty : t.dirty = s.dirty) (hlast : t.last = s.last)
    (hpc : ∀ q ph k, t.pc q = .commit ph k → k = 0 ∨ s.pc q = .commit ph k ∧ t.lh = s.lh) :
    Coh L t := by
  refine ⟨hpins,⟨?_,?_,?_⟩,?_,?_⟩
  · rw [hdirty,hcache]
    exact h.held
  · rw [hdirty,hcache,hp]
    exact h.clean
  · rw [hcache,hlast]
    exact h.stored
  · intro q ph k hq b hb
    rcases hpc q ph k hq with rfl | ⟨hq',hlh⟩
    · cases hb
    · rw [hlh] at hb ⊢
      rw [hcache,hdirty]
      exact h.tidy q ph k hq' b hb
  · intro q tail hq
    rcases hpc q _ _ hq with hk | ⟨hq',hlh⟩
    · omega
    · rw [hcache,hlh]
      exact h.synced q tail hq'

lemma advance_coh (h : Coh L s) {ph : Phase} (hp : s.pc p = .commit ph k)
    (hpins : Pins L (s.advance p ph)) : Coh L (s.advance p ph) := by
  have hpc (pc' : Pc) (hk : ∀ ph' k', pc' = .commit ph' k' → k' = 0) (q : Pid) (ph' : Phase)
      (k' : ℕ) (hq : (s.setPc p pc').pc q = .commit ph' k') :
      k' = 0 ∨ s.pc q = .commit ph' k' := by
    by_cases hqp : q = p
    · subst hqp
      rw [s.setPc_self] at hq
      exact .inl (hk _ _ hq)
    · rw [s.setPc_of_ne hqp] at hq
      exact .inr hq
  -- the other processes are not in `commit`, so that the header may change
  have hzero (q : Pid) (ph' : Phase) (k' : ℕ)
      (hq : (s.setPc p (.commit .erase 0)).pc q = .commit ph' k') : k' = 0 := by
    cases h.only_setPc hp _ q (by rw [hq]; rfl)
    rw [s.setPc_self] at hq
    cases hq
    rfl
  unfold Sys.advance at hpins ⊢
  split at hpins
  · exact h.control hpins rfl rfl rfl rfl fun q ph' k' hq => .inl (hzero q ph' k' hq)
  · refine h.control hpins rfl rfl rfl rfl fun q ph' k' hq => ?_
    exact (hpc _ (by rintro _ _ ⟨⟩; rfl) q ph' k' hq).imp_right fun e => ⟨e,rfl⟩
  · refine h.control hpins rfl rfl rfl rfl fun q ph' k' hq => ?_
    exact (hpc _ (by rintro _ _ ⟨⟩) q ph' k' hq).imp_right fun e => ⟨e,rfl⟩

lemma logWrite_coh (h : Coh L s) {b : ℕ} (hp : s.pc p = .inOp) (hpins : Pins L t)
    (ht : s.logWrite L p b = some t) : Coh L t := by
  have hno := h.no_commit hp
  have htidy {u : Sys} (hu : u.pc = s.pc) (q : Pid) (ph : Phase) (k : ℕ)
      (hq : u.pc q = .commit ph k) : False := hno q ph k (hu ▸ hq)
  have hheld (x : ℕ) (hx : update s.dirty b false x = true) : s.dirty x = true := by
    by_cases hb : x = b
    · subst hb; simp at hx
    · rwa [update_of_ne hb] at hx
  obtain ⟨-,⟨-,rfl⟩ | ⟨-,⟨hmem,rfl⟩ | ⟨hmem,c,hpin,rfl⟩⟩⟩ :=
    logWrite_cases ht (h.ctl.outstanding_pos hp)
  · exact ⟨hpins,⟨h.held,h.clean,h.stored⟩,fun q ph k hq => (htidy rfl q ph k hq).elim,
      fun q tail hq => (htidy rfl q _ _ hq).elim⟩
  · refine ⟨hpins,⟨fun x hx => h.held x (hheld x hx),?_,h.stored⟩,
      fun q ph k hq => (htidy rfl q ph k hq).elim,fun q tail hq => (htidy rfl q _ _ hq).elim⟩
    intro x hx
    by_cases hb : x = b
    · subst hb
      exact .inr ((h.pinned x).mpr ((pinned_iff_mem hno x).mpr hmem))
    · simp only [update_of_ne hb] at hx
      exact h.clean x hx
  · obtain ⟨-,hs⟩ := bpin_spec h.wf hpin
    refine ⟨hpins,⟨?_,?_,fun x => (hs.content x).trans (h.stored x)⟩,
      fun q ph k hq => (htidy rfl q ph k hq).elim,fun q tail hq => (htidy rfl q _ _ hq).elim⟩
    · intro x hx
      obtain ⟨q,hq⟩ := h.held x (hheld x hx)
      exact ⟨q,(hs.holds q x).mpr hq⟩
    · intro x hx
      change c.content x = c.disk x ∨ _
      rw [hs.content,hs.disk]
      by_cases hb : x = b
      · subst hb; right; simp
      · simp only [update_of_ne hb] at hx ⊢
        exact h.clean x hx

/-- One step loses no update. -/
theorem step_coh {e : Event} (h : Coh L s) (hl : Logs L e) (hu : Written s e)
    (ht : step L s e = some t) : Coh L t := by
  have hpins := step_pins h.toPins hl ht
  have hmove {pc pc' : Pc} {p : Pid} (hp : s.pc p = pc) (hpc : ∀ ph k, pc ≠ .commit ph k)
      (hpc' : ∀ ph k, pc' ≠ .commit ph k) (q : Pid) (ph : Phase) (k : ℕ)
      (hq : (s.setPc p pc').pc q = .commit ph k) :
      k = 0 ∨ s.pc q = .commit ph k ∧ (s.setPc p pc').lh = s.lh :=
    .inr ⟨(commit_setPc hp hpc hpc' q ph k).mp hq,rfl⟩
  cases step_cases ht with
  | buffer hp hm ht => exact client_coh h hp hm hu hpins ht
  | logWrite hp ht => exact logWrite_coh h hp hpins ht
  | beginOp hp | wake hp => exact h.control hpins rfl rfl rfl rfl (hmove hp (by simp) (by simp))
  | @beginTest p hp =>
    refine h.control hpins ?_ ?_ ?_ ?_ fun q ph k hq =>
      .inr ⟨(beginTest_commit hp q ph k).mp hq,?_⟩ <;> (unfold Sys.beginTest; split_ifs <;> rfl)
  | @endOp p hp =>
    refine h.control hpins ?_ ?_ ?_ ?_ fun q ph k hq =>
      .inr ⟨(endOp_commit hp q ph k).mp hq,?_⟩ <;> (unfold Sys.endOp; dsimp only; split_ifs <;> rfl)
  | @enter p hp =>
    refine h.control hpins rfl rfl rfl rfl fun q ph k hq => ?_
    by_cases hqp : q = p
    · subst hqp
      rw [s.setPc_self] at hq
      split_ifs at hq
      cases hq
      exact .inl rfl
    · rw [s.setPc_of_ne hqp] at hq
      exact .inr ⟨hq,rfl⟩
  | micro hp hm hmic => exact commitMicro_coh h hp hpins hm hmic
  | advance hp hm => exact advance_coh h hp hpins
  | finish hp =>
    exact h.control hpins rfl rfl rfl rfl fun q ph k hq =>
      .inr ⟨(commit_wake hp (by simp) q ph k).mp hq,rfl⟩

lemma init_coh (d : Disk) : Coh L (Sys.init d) where
  toPins := init_pins d
  held b hb := by cases hb
  clean b _ := .inl (init_content d b)
  stored b := init_content d b
  tidy q ph k hq := by cases hq
  synced q tail hq := by cases hq

end Steps

/-- Buffer cache and log lose no update: an unreferenced buffer agrees with the disk, so that
what `bget` recycles has nothing unwritten in it, and `bread` returns what was last stored. -/
theorem no_lost_update {L : Layout} {d : Disk} {es : List Event} {s : Sys}
    (h : Runs (step L) (fun s e => Logs L e ∧ Written s e) (Sys.init d) es s) :
    (∀ i, (s.cache.buf i).valid → (s.cache.buf i).refcnt = 0 →
      (s.cache.buf i).data = s.cache.disk (s.cache.buf i).blockno) ∧
    (∀ i, s.cache.victim = some i → (s.cache.buf i).valid →
      s.dirty (s.cache.buf i).blockno = false ∧
      (s.cache.buf i).data = s.cache.disk (s.cache.buf i).blockno) ∧
    ∀ p b i, s.cache.ready p b = some i → (s.cache.buf i).data = s.last b := by
  have hc : Coh L s := h.invariant (fun _ _ _ hi hc ht => step_coh hi hc.1 hc.2 ht) (init_coh d)
  have hfree (i : Fin NBUF) (hv : (s.cache.buf i).valid) (h₀ : (s.cache.buf i).refcnt = 0) :
      s.dirty (s.cache.buf i).blockno = false ∧
      (s.cache.buf i).data = s.cache.disk (s.cache.buf i).blockno := by
    have hn : s.cache.Names i (s.cache.buf i).blockno := ⟨hc.wf.valid i hv,rfl⟩
    obtain ⟨hpin,hno⟩ := hc.wf.unused hn h₀
    have hdirty : s.dirty (s.cache.buf i).blockno = false := by
      cases hd : s.dirty (s.cache.buf i).blockno with
      | false => rfl
      | true =>
        obtain ⟨q,hq⟩ := hc.held _ hd
        exact absurd hq (hno q)
    refine ⟨hdirty,?_⟩
    rcases hc.clean _ hdirty with he | he
    · rwa [hc.wf.content_of_names hn,if_pos hv] at he
    · omega
  refine ⟨fun i hv h₀ => (hfree i hv h₀).2,?_,?_⟩
  · intro i hi hv
    exact hfree i hv (by simpa using List.find?_some hi)
  · intro p b i hi
    rw [← hc.wf.content_of_ready hi]
    exact hc.stored b

/-- An operation reads a block, modifies it, logs and releases it; its commit copies the block to
the log, writes the header, installs the block and erases the header. -/
def writeBlock : List Event :=
  [.beginOp 0,.beginTest 0,.buffer 0 (.bget 100),.buffer 0 (.lock 100),.buffer 0 (.fill 100),
   .buffer 0 (.store 100 fun _ => 7),.logWrite 0 100,.buffer 0 (.unlock 100),
   .buffer 0 (.drop 100),.endOp 0]++List.replicate 45 (.commit 0)

theorem no_lost_update_writeBlock : ∃ s i, Runs (step mkfsLog)
      (fun s e => Logs mkfsLog e ∧ Written s e) (Sys.init fun _ _ => 0) writeBlock s ∧
    (s.cache.buf i).valid = true ∧ (s.cache.buf i).refcnt = 0 ∧
    (s.cache.buf i).data.byte 0 = 7 ∧
    (s.cache.buf i).data = s.cache.disk (s.cache.buf i).blockno := by
  obtain ⟨s,hs,hv,h₀,hd⟩ := Runs.exists_of_execIf (step mkfsLog)
    (fun s e => Logs mkfsLog e ∧ Written s e) (Sys.init fun _ _ => 0) writeBlock
    (fun s => (s.cache.buf ⟨0,by decide⟩).valid = true ∧ (s.cache.buf ⟨0,by decide⟩).refcnt = 0 ∧
      (s.cache.buf ⟨0,by decide⟩).data.byte 0 = 7) (by decide +kernel)
  exact ⟨s,⟨0,by decide⟩,hs,hv,h₀,hd,(no_lost_update hs).1 _ hv h₀⟩

/-- What a process outside `log.c` leaves in block `b`, where `v` was before. -/
def clientStore (b : ℕ) (v : Block) : Event → Block
  | .buffer _ (.store c w) => if c = b then w else v
  | _ => v

section Client
variable {L : Layout} {s t : Sys} {p : Pid} {m : Micro} {b : ℕ}

lemma mild_content (h : Fresh s) (hw : WF s.pins s.cache) (hm : m.mild)
    (ht : s.micro p m = some t) : t.cache.content b = s.cache.content b := by
  obtain ⟨_,_,rfl,-,-,he,-,-⟩ := mild_spec hw hm ht
  exact h.evict he b

lemma client_content (h : Fresh s) (hw : WF s.pins s.cache) (hm : m.client)
    (ht : s.micro p m = some t) :
    t.cache.content b = clientStore b (s.cache.content b) (.buffer p m) := by
  cases m with
  | store c v =>
    obtain ⟨_,rfl,-,-,hcont,-,-⟩ := store_effect hw ht
    exact (congrFun hcont b).trans (by simp [clientStore,Function.update_apply,eq_comm])
  | bwrite c =>
    obtain ⟨_,rfl,-,-,hcont,-,-⟩ := bwrite_effect hw ht
    exact hcont b
  | memmove dst src | putHead c | bunpin c => cases hm
  | bget c | lock c | fill c | unlock c | drop c => exact mild_content h hw rfl ht

/-- `commit` stores to the log area and, in `install_trans`, what the block holds already. -/
lemma commit_content (hi : Inv L s) (h : Fresh s) (hb : ¬L.Area b) {ph : Phase} {k : ℕ}
    (hp : s.pc p = .commit ph k) (hm : (ph.steps L s.lh)[k]? = some m)
    (ht : s.micro p m = some t) : t.cache.content b = s.cache.content b := by
  have harea {c : ℕ} {v : Block} (hc : L.Area c) (ht : s.store p c v = some t) :
      t.cache.content b = s.cache.content b := by
    obtain ⟨_,rfl,-,-,hcont,-,-⟩ := store_effect hi.wf ht
    refine (congrFun hcont b).trans (update_of_ne ?_ _ _)
    rintro rfl
    exact hb hc
  have hhead (hph : ph = .head ∨ ph = .erase) : t.cache.content b = s.cache.content b := by
    rcases steps_head hph hm with ⟨-,rfl⟩ | ⟨-,rfl⟩ | ⟨-,-,hm⟩
    · exact harea (area_start L) (putHead_effect hi.wf ht)
    · exact client_content h hi.wf rfl ht
    · exact mild_content h hi.wf hm ht
  cases ph with
  | log tail =>
    rcases steps_log hm with ⟨-,rfl⟩ | ⟨-,rfl⟩ | ⟨-,-,hm⟩
    · exact harea (Drift.logArea hi.ctl (hi.phase_ok hp).1) (memmove_effect hi.wf ht)
    · exact client_content h hi.wf rfl ht
    · exact mild_content h hi.wf hm ht
  | install tail =>
    rcases steps_install hm with ⟨rfl,rfl⟩ | ⟨-,rfl⟩ | ⟨rfl,rfl⟩ | ⟨-,hm⟩
    · exact congrFun (install_content hi hp ht) b
    · exact client_content h hi.wf rfl ht
    · have hpin := hi.entry_pinned hp (hi.phase_ok hp).1 (by simp)
      obtain ⟨_,rfl,-,hs⟩ := bunpin_effect hi.wf hpin ht
      exact hs.content b
    · exact mild_content h hi.wf hm ht
  | head => exact hhead (.inl rfl)
  | erase => exact hhead (.inr rfl)

lemma step_content (hi : Inv L s) (h : Fresh s) (hb : ¬L.Area b) {e : Event}
    (ht : step L s e = some t) : t.cache.content b = clientStore b (s.cache.content b) e := by
  cases step_cases ht with
  | buffer hp hm ht => exact client_content h hi.wf hm ht
  | logWrite hp ht =>
    obtain ⟨-,⟨-,rfl⟩ | ⟨-,⟨-,rfl⟩ | ⟨-,c,hpin,rfl⟩⟩⟩ :=
      logWrite_cases ht (hi.ctl.outstanding_pos hp)
    · rfl
    · rfl
    · exact (bpin_spec hi.wf hpin).2.content b
  | beginTest =>
    unfold Sys.beginTest
    split_ifs <;> rfl
  | endOp =>
    unfold Sys.endOp
    dsimp only
    split_ifs <;> rfl
  | micro hp hm hmic => exact (commit_content hi h hb hp hm hmic :)
  | advance =>
    unfold Sys.advance
    split <;> rfl
  | beginOp | wake | enter | finish => rfl

lemma run_content {es : List Event} (hi : Inv L s) (hc : Coh L s) (hb : ¬L.Area b)
    (h : Runs (step L) (fun s e => Uses L s e ∧ Written s e) s es t) :
    t.cache.content b = es.foldl (clientStore b) (s.cache.content b) := by
  induction h with
  | nil => rfl
  | cons cond hs _ ih =>
    rw [ih (step_inv hi cond.1 hs) (step_coh hc cond.1.logs cond.2 hs),
      step_content hi hc.toFresh hb hs,List.foldl_cons]

/-- What `bread` returns of a block outside the log area is what was stored there last outside
`log.c`: `commit` changes no such block. -/
theorem bread_client_store {d : Disk} {es : List Event} {i : Fin NBUF} (hd : (head L d).n = 0)
    (h : Runs (step L) (fun s e => Uses L s e ∧ Written s e) (Sys.init d) es s) (hb : ¬L.Area b)
    (hr : s.cache.ready p b = some i) :
    (s.cache.buf i).data = es.foldl (clientStore b) (d b) := by
  have hc : Coh L s :=
    h.invariant (fun _ _ _ hi hc ht => step_coh hi hc.1.logs hc.2 ht) (init_coh d)
  rw [← hc.wf.content_of_ready hr,run_content (init_inv hd) (init_coh d) hb h]
  exact congrArg (es.foldl (clientStore b)) (init_content d b)

end Client

end Xv6.Log
