import Xv6.Log.Control

/-! The buffers of logged blocks stay in the cache: `log_write` pins each block once and
`install_trans` unpins it, so that `refcnt` counts the references and the pins. -/
namespace Xv6.Log
open Xv6.Bio Xv6.Lib Option
open Function (update update_self update_of_ne)

/-- The logged blocks that `install_trans` has not unpinned yet. -/
def Pinned (s : Sys) (b : ℕ) : Prop :=
  ∃ u < s.lh.n, s.lh.block u = b ∧
    ∀ q t k, s.pc q = .commit (.install t) k → t < u ∨ u = t ∧ k ≤ 8

structure Pins (L : Layout) (s : Sys) : Prop where
  ctl : s.toCtl.OK L
  wf : WF s.pins s.cache
  pins_le : ∀ b, s.pins b ≤ 1
  pinned : ∀ b, 0 < s.pins b ↔ Pinned s b

section Micro
variable {L : Layout} {s t : Sys} {p : Pid} {m : Micro} {k : ℕ}

/-- The steps that change no contents. -/
def Micro.mild : Micro → Bool
  | bget _ | lock _ | fill _ | unlock _ | drop _ => true
  | _ => false

section
variable (hw : WF s.pins s.cache)
include hw

/-- What a mild step does: it may take or give up a lock, and evict an unused block. -/
lemma mild_spec (hm : m.mild) (h : s.micro p m = some t) :
    ∃ c pan, t = { s with cache := c, panicked := pan } ∧ WF s.pins c ∧
      c.disk = s.cache.disk ∧ Evicts s.pins s.cache c ∧
      (pan = s.panicked ∨ pan = some "bget: no buffers") ∧
      ∀ q x, q ≠ p → (c.Holds q x ↔ s.cache.Holds q x) := by
  cases m with
  | bget b =>
    unfold Sys.micro at h
    cases hb : s.cache.bget p b with
    | none =>
      simp only [hb] at h
      cases h
      exact ⟨s.cache,_,rfl,hw,rfl,fun x => .inl rfl,.inr rfl,fun _ _ _ => Iff.rfl⟩
    | some c =>
      simp only [hb] at h
      cases h
      obtain ⟨hw',hd,hh,he⟩ := bget_spec hw hb
      exact ⟨c,_,rfl,hw',hd,he,.inl rfl,fun q x _ => hh q x⟩
  | lock b =>
    obtain ⟨c,hc,rfl⟩ := map_eq_some_iff.mp h
    obtain ⟨hw',hd,he,-,hh⟩ := acquiresleep_spec hw hc
    refine ⟨c,_,rfl,hw',hd,fun x => .inl (he x),.inl rfl,?_⟩
    intro q x hq
    simp [hh,hq]
  | fill b =>
    obtain ⟨c,hc,rfl⟩ := map_eq_some_iff.mp h
    obtain ⟨hw',hs⟩ := fill_spec hw hc
    exact ⟨c,_,rfl,hw',hs.disk,fun x => .inl (hs.content x),.inl rfl,fun q x _ => hs.holds q x⟩
  | unlock b =>
    obtain ⟨c,hc,rfl⟩ := map_eq_some_iff.mp h
    obtain ⟨hw',hd,he,hp,hh⟩ := releasesleep_spec hw hc
    refine ⟨c,_,rfl,hw',hd,fun x => .inl (he x),.inl rfl,?_⟩
    intro q x hq
    rw [hh]
    refine ⟨And.left,fun hx => ⟨hx,?_⟩⟩
    rintro rfl
    exact hq (hw.holds_unique hx hp)
  | drop b =>
    obtain ⟨c,hc,rfl⟩ := map_eq_some_iff.mp h
    obtain ⟨hw',hs⟩ := drop_spec hw hc
    exact ⟨c,_,rfl,hw',hs.disk,fun x => .inl (hs.content x),.inl rfl,fun q x _ => hs.holds q x⟩
  | store b v | memmove dst src | putHead b | bwrite b | bunpin b => cases hm

lemma mild_keeps {q : Pid} {x : ℕ} (hm : m.mild)
    (hx : s.cache.Holds q x) (hne : m ≠ .unlock x) (h : s.micro p m = some t) :
    t.cache.Holds q x := by
  cases m with
  | bget b =>
    unfold Sys.micro at h
    cases hb : s.cache.bget p b with
    | none => simp only [hb] at h; cases h; exact hx
    | some c => simp only [hb] at h; cases h; exact ((bget_spec hw hb).2.2.1 q x).mpr hx
  | lock b =>
    obtain ⟨c,hc,rfl⟩ := map_eq_some_iff.mp h
    exact ((acquiresleep_spec hw hc).2.2.2.2 q x).mpr (.inl hx)
  | fill b =>
    obtain ⟨c,hc,rfl⟩ := map_eq_some_iff.mp h
    exact ((fill_spec hw hc).2.holds q x).mpr hx
  | unlock b =>
    obtain ⟨c,hc,rfl⟩ := map_eq_some_iff.mp h
    refine ((releasesleep_spec hw hc).2.2.2.2 q x).mpr ⟨hx,?_⟩
    rintro rfl
    exact hne rfl
  | drop b =>
    obtain ⟨c,hc,rfl⟩ := map_eq_some_iff.mp h
    exact ((drop_spec hw hc).2.holds q x).mpr hx
  | store b v | memmove dst src | putHead b | bwrite b | bunpin b => cases hm

lemma store_effect {b : ℕ} {v : Block} (h : s.store p b v = some t) : ∃ c, t = { s with
      cache := c
      dirty := update s.dirty b true
      last := update s.last b v } ∧
    WF s.pins c ∧ c.disk = s.cache.disk ∧ c.content = update s.cache.content b v ∧
    s.cache.Holds p b ∧ ∀ q x, c.Holds q x ↔ s.cache.Holds q x := by
  obtain ⟨c,hc,rfl⟩ := map_eq_some_iff.mp h
  exact ⟨c,rfl,store_spec hw hc⟩

lemma memmove_effect {dst src : ℕ} (h : s.micro p (.memmove dst src) = some t) :
    s.store p dst (s.cache.content src) = some t := by
  obtain ⟨i,hi,h⟩ := bind_eq_some_iff.mp h
  rwa [← hw.content_of_ready hi] at h

lemma putHead_effect {b : ℕ} (h : s.micro p (.putHead b) = some t) :
    s.store p b (s.lh.fill (s.cache.content b)) = some t := by
  obtain ⟨i,hi,h⟩ := bind_eq_some_iff.mp h
  rwa [← hw.content_of_ready hi] at h

lemma bwrite_effect {b : ℕ} (h : s.micro p (.bwrite b) = some t) :
    ∃ c, t = { s with cache := c, dirty := update s.dirty b false } ∧
    WF s.pins c ∧ c.disk = update s.cache.disk b (s.cache.content b) ∧
    (∀ x, c.content x = s.cache.content x) ∧ s.cache.Holds p b ∧
    ∀ q x, c.Holds q x ↔ s.cache.Holds q x := by
  obtain ⟨c,hc,rfl⟩ := map_eq_some_iff.mp h
  exact ⟨c,rfl,bwrite_spec hw hc⟩

lemma bunpin_effect {b : ℕ} (hb : 0 < s.pins b) (h : s.micro p (.bunpin b) = some t) :
    ∃ c, t = { s with cache := c, pins := update s.pins b (s.pins b-1) } ∧
    WF (update s.pins b (s.pins b-1)) c ∧ Same s.cache c := by
  obtain ⟨i,-,h⟩ := bind_eq_some_iff.mp h
  obtain ⟨c,hc,rfl⟩ := map_eq_some_iff.mp h
  exact ⟨c,rfl,bunpin_spec hw hb hc⟩

/-- No step but `bunpin` touches the pins. -/
lemma micro_wf (hm : ∀ b, m ≠ .bunpin b) (h : s.micro p m = some t) :
    t.pins = s.pins ∧ WF s.pins t.cache := by
  have hstore {b : ℕ} {v : Block} (h : s.store p b v = some t) :
      t.pins = s.pins ∧ WF s.pins t.cache := by
    obtain ⟨c,rfl,hw',-⟩ := store_effect hw h
    exact ⟨rfl,hw'⟩
  cases m with
  | store b v => exact hstore h
  | memmove dst src => exact hstore (memmove_effect hw h)
  | putHead b => exact hstore (putHead_effect hw h)
  | bwrite b =>
    obtain ⟨c,rfl,hw',-⟩ := bwrite_effect hw h
    exact ⟨rfl,hw'⟩
  | bunpin b => exact absurd rfl (hm b)
  | bget b | lock b | fill b | unlock b | drop b =>
    obtain ⟨c,pan,rfl,hw',-⟩ := mild_spec hw rfl h
    exact ⟨rfl,hw'⟩

end

variable {lh : LogHeader}

lemma steps_log {tail : ℕ} (h : ((Phase.log tail).steps L lh)[k]? = some m) :
    k = 6 ∧ m = .memmove (L.start+tail+1) (lh.block tail) ∨
    k = 7 ∧ m = .bwrite (L.start+tail+1) ∨ k ≠ 6 ∧ k ≠ 7 ∧ m.mild := by
  change [Micro.bget _,.lock _,.fill _,.bget _,.lock _,.fill _,.memmove _ _,.bwrite _,.unlock _,
    .drop _,.unlock _,.drop _][k]? = some m at h
  rcases k with _|_|_|_|_|_|_|_|_|_|_|_|k <;> simp at h <;> subst h <;>
    simp [Micro.mild]

lemma steps_head {ph : Phase} (hph : ph = .head ∨ ph = .erase) (h : (ph.steps L lh)[k]? = some m) :
    k = 3 ∧ m = .putHead L.start ∨ k = 4 ∧ m = .bwrite L.start ∨ k ≠ 3 ∧ k ≠ 4 ∧ m.mild := by
  have hs : ph.steps L lh = [.bget L.start,.lock L.start,.fill L.start,.putHead L.start,
      .bwrite L.start,.unlock L.start,.drop L.start] := by
    rcases hph with rfl | rfl <;> rfl
  rw [hs] at h
  rcases hph with rfl | rfl <;> rcases k with _|_|_|_|_|_|_|k <;> simp at h <;> subst h <;>
    simp [Micro.mild]

lemma steps_install {tail : ℕ} (h : ((Phase.install tail).steps L lh)[k]? = some m) :
    k = 6 ∧ m = .memmove (lh.block tail) (L.start+tail+1) ∨ k = 7 ∧ m = .bwrite (lh.block tail) ∨
    k = 8 ∧ m = .bunpin (lh.block tail) ∨ k ≠ 8 ∧ m.mild := by
  change [Micro.bget _,.lock _,.fill _,.bget _,.lock _,.fill _,.memmove _ _,.bwrite _,.bunpin _,
    .unlock _,.drop _,.unlock _,.drop _][k]? = some m at h
  rcases k with _|_|_|_|_|_|_|_|_|_|_|_|_|k <;> simp at h <;> subst h <;> simp [Micro.mild]

lemma le_of_done {ph : Phase} (h : (ph.steps L lh)[k]? = none) :
    (match ph with | .log _ => 12 | .install _ => 13 | _ => 7) ≤ k := by
  rw [List.getElem?_eq_none_iff] at h
  cases ph <;> exact h

end Micro

section Committer
variable {L : Layout} {s t : Sys} {p q : Pid} {m : Micro} {k : ℕ}

lemma pinned_iff_mem (hno : ∀ q ph k, s.pc q ≠ .commit ph k) (b : ℕ) :
    Pinned s b ↔ b ∈ s.lh.blocks := by
  rw [mem_blocks]
  unfold Pinned
  refine exists_congr fun u => and_congr_right fun _ => ?_
  exact ⟨And.left,fun he => ⟨he,fun q t k hq => absurd hq (hno q _ k)⟩⟩

lemma pinned_commit {ph : Phase} (hu : ∀ q, (s.pc q).inCommit → q = p)
    (hp : s.pc p = .commit ph k) (b : ℕ) : Pinned s b ↔
      ∃ u < s.lh.n, s.lh.block u = b ∧ ∀ t, ph = .install t → t < u ∨ u = t ∧ k ≤ 8 := by
  unfold Pinned
  refine exists_congr fun u => and_congr_right fun _ => and_congr_right fun _ => ?_
  constructor
  · rintro h t rfl
    exact h p t k hp
  · intro h q t k' hq
    cases hu q (by simp [hq,Pc.inCommit])
    rw [hp] at hq
    cases hq
    exact h t rfl

section
variable (h : Pins L s)
include h

lemma Pins.only {ph : Phase} (hp : s.pc p = .commit ph k) (q : Pid)
    (hq : (s.pc q).inCommit) : q = p := h.ctl.unique q p hq (by simp [hp,Pc.inCommit])

lemma Pins.only_setPc {ph : Phase} (hp : s.pc p = .commit ph k) (pc' : Pc) (q : Pid)
    (hq : ((s.setPc p pc').pc q).inCommit) : q = p := by
  by_contra hne
  rw [s.setPc_of_ne hne] at hq
  exact hne (h.only hp q hq)

lemma Pins.not_commit (hp : s.pc p = .enter ∨ s.pc p = .finish) (q : Pid)
    (ph : Phase) (k : ℕ) : s.pc q ≠ .commit ph k := by
  intro hq
  have hin : (s.pc p).inCommit := by rcases hp with hp | hp <;> simp [hp,Pc.inCommit]
  cases h.ctl.unique q p (by simp [hq,Pc.inCommit]) hin
  rw [hq] at hp
  simp at hp

lemma Pins.no_commit (hp : s.pc p = .inOp) (q : Pid) (ph : Phase) (k : ℕ) :
    s.pc q ≠ .commit ph k := by
  intro hq
  have := h.ctl.inCommit_false (h.ctl.not_committing hp) q
  rw [hq] at this
  cases this

lemma Pins.pinned_mem {b : ℕ} (hb : 0 < s.pins b) : b ∈ s.lh.blocks := by
  obtain ⟨u,hu,he,-⟩ := (h.pinned b).mp hb
  exact mem_blocks.mpr ⟨u,hu,he⟩

lemma Pins.committing {ph : Phase} (hp : s.pc p = .commit ph k) :
    s.committing = true := h.ctl.committer.mpr ⟨p,by simp [hp,Pc.inCommit]⟩

lemma Pins.phase_ok {ph : Phase} (hp : s.pc p = .commit ph k) : ph.OK s.lh.n s.group s.epoch := by
  have hok : (s.pc p).OK s.lh.n s.group s.epoch := h.ctl.phase p
  rwa [hp] at hok

lemma Pins.entry_pinned {ph : Phase} (hp : s.pc p = .commit ph k) {u : ℕ}
    (hu : u < s.lh.n) (hph : ∀ t, ph = .install t → t < u ∨ u = t ∧ k ≤ 8) :
    0 < s.pins (s.lh.block u) :=
  (h.pinned _).mpr ((pinned_commit (h.only hp) hp _).mpr ⟨u,hu,rfl,hph⟩)

lemma Pins.entry_ne {u v : ℕ} (hu : u < s.lh.n) (hv : L.Area v) : s.lh.block u ≠ v := by
  rintro rfl
  exact (h.ctl.entries _ (mem_blocks.mpr ⟨u,hu,rfl⟩)).2 hv

lemma Pins.pinned_ne {b v : ℕ} (hb : 0 < s.pins b) (hv : L.Area v) : b ≠ v := by
  obtain ⟨u,hu,rfl,-⟩ := (h.pinned b).mp hb
  exact h.entry_ne hu hv

end

lemma ne_of_inCommit (hp : s.pc p = .out ∨ s.pc p = .inOp) (hq : (s.pc q).inCommit) : q ≠ p := by
  rintro rfl
  rcases hp with hp | hp <;> simp [hp,Pc.inCommit] at hq

lemma client_pins (h : Pins L s) (hm : m.client) (ht : s.micro p m = some t) : Pins L t := by
  have hctl := micro_ctl ht
  obtain ⟨hpins,hw⟩ := micro_wf h.wf (by rintro b rfl; cases hm) ht
  refine ⟨hctl ▸ h.ctl,hpins ▸ hw,hpins ▸ h.pins_le,?_⟩
  intro b
  rw [hpins,h.pinned]
  unfold Pinned
  rw [hctl]

lemma setPc_ctl (h : t.toCtl = s.toCtl) (pc' : Pc) : (t.setPc p pc').toCtl = (s.setPc p pc').toCtl := by
  unfold Sys.setPc
  rw [h]

lemma pinned_ctl (h : t.toCtl = s.toCtl) (b : ℕ) : Pinned t b ↔ Pinned s b := by
  unfold Pinned
  rw [h]

/-- `bunpin(dbuf)` in `install_trans`. -/
lemma bunpin_pins (h : Pins L s) {tail : ℕ} (hp : s.pc p = .commit (.install tail) 8)
    (hctl : (t.setPc p (.commit (.install tail) 9)).toCtl.OK L)
    (ht : s.micro p (.bunpin (s.lh.block tail)) = some t) :
    Pins L (t.setPc p (.commit (.install tail) 9)) := by
  have hok := h.phase_ok hp
  have hpos := h.entry_pinned hp hok.1 (by simp)
  obtain ⟨c,rfl,hw,-⟩ := bunpin_effect h.wf hpos ht
  have hone : s.pins (s.lh.block tail)-1 = 0 := by
    have := h.pins_le (s.lh.block tail)
    omega
  have hinj (u : ℕ) (hu : u < s.lh.n) (e : s.lh.block u = s.lh.block tail) : u = tail :=
    List.inj_on_of_nodup_map h.ctl.nodup (List.mem_range.mpr hu) (List.mem_range.mpr hok.1) e
  refine ⟨hctl,hw,?_,?_⟩
  · intro b
    by_cases hb : b = s.lh.block tail
    · subst hb; simp [Sys.setPc,hone]
    · simpa [Sys.setPc,update_of_ne hb] using h.pins_le b
  · intro b
    change 0 < update s.pins _ _ b ↔ Pinned (s.setPc p (.commit (.install tail) 9)) b
    rw [pinned_commit (h.only_setPc hp _) (s.setPc_self ..)]
    by_cases hb : b = s.lh.block tail
    · subst hb
      simp only [update_self,hone,lt_self_iff_false,false_iff]
      rintro ⟨u,hu,e,hlt⟩
      have := hinj u hu e
      have := hlt tail rfl
      omega
    · rw [update_of_ne hb,h.pinned,pinned_commit (h.only hp) hp]
      refine exists_congr fun u => and_congr_right fun hu => and_congr_right fun e => ?_
      have hne : u ≠ tail := by
        rintro rfl
        exact hb e.symm
      refine forall_congr' fun t => forall_congr' fun ht => ?_
      cases ht
      omega

lemma commit_pins (h : Pins L s) {ph : Phase} (hp : s.pc p = .commit ph k)
    (hctl : (t.setPc p (.commit ph (k+1))).toCtl.OK L) (hm : ∀ b, m ≠ .bunpin b)
    (hk : ∀ t, ph = .install t → k ≠ 8) (ht : s.micro p m = some t) :
    Pins L (t.setPc p (.commit ph (k+1))) := by
  obtain ⟨hpins,hw⟩ := micro_wf h.wf hm ht
  refine ⟨hctl,hpins ▸ hw,hpins ▸ h.pins_le,?_⟩
  intro b
  rw [pinned_ctl (setPc_ctl (micro_ctl ht) _)]
  change 0 < t.pins b ↔ _
  rw [hpins,h.pinned,pinned_commit (h.only hp) hp,
    pinned_commit (h.only_setPc hp _) (s.setPc_self ..)]
  refine exists_congr fun u => and_congr_right fun _ => and_congr_right fun _ => ?_
  refine forall_congr' fun t => forall_congr' fun ht => ?_
  have := hk t ht
  omega

end Committer

section Step
variable {L : Layout} {s t : Sys} {p : Pid} {k : ℕ}

lemma Pins.same (h : Pins L s) (hctl : t.toCtl.OK L) (hcache : t.cache = s.cache)
    (hpins : t.pins = s.pins) (hpin : ∀ b, Pinned t b ↔ Pinned s b) : Pins L t :=
  ⟨hctl,by rw [hcache,hpins]; exact h.wf,hpins ▸ h.pins_le,
    fun b => by rw [hpins,h.pinned,hpin]⟩

lemma Pins.outside (h : Pins L s) (hctl : t.toCtl.OK L) (hcache : t.cache = s.cache)
    (hpins : t.pins = s.pins) (hlh : t.lh = s.lh)
    (hpc : ∀ q ph k, t.pc q = .commit ph k ↔ s.pc q = .commit ph k) : Pins L t := by
  refine h.same hctl hcache hpins ?_
  intro b
  unfold Pinned
  simp only [hlh,hpc]

lemma commit_setPc {pc pc' : Pc} (hp : s.pc p = pc) (hpc : ∀ ph k, pc ≠ .commit ph k)
    (hpc' : ∀ ph k, pc' ≠ .commit ph k) (q : Pid) (ph : Phase) (k : ℕ) :
    (s.setPc p pc').pc q = .commit ph k ↔ s.pc q = .commit ph k := by
  by_cases hq : q = p
  · subst hq
    rw [s.setPc_self,hp]
    exact ⟨fun h => absurd h (hpc' ph k),fun h => absurd h (hpc ph k)⟩
  · rw [s.setPc_of_ne hq]

lemma commit_wake {pc : Pc} (hp : s.pc p = pc) (hpc : ∀ ph k, pc ≠ .commit ph k) (q : Pid)
    (ph : Phase) (k : ℕ) : update (fun q => (s.pc q).wake) p .out q = .commit ph k ↔
      s.pc q = .commit ph k := by
  by_cases hq : q = p
  · subst hq
    simp only [update_self,reduceCtorEq,hp,false_iff]
    exact hpc ph k
  · simp only [update_of_ne hq]
    cases s.pc q <;> simp [Pc.wake]

lemma beginTest_commit (hp : s.pc p = .begin false) (q : Pid) (ph : Phase) (k : ℕ) :
    (s.beginTest p).pc q = .commit ph k ↔ s.pc q = .commit ph k := by
  unfold Sys.beginTest
  split_ifs <;> exact commit_setPc hp (by simp) (by simp) q ph k

lemma endOp_commit (hp : s.pc p = .inOp) (q : Pid) (ph : Phase) (k : ℕ) :
    (s.endOp p).pc q = .commit ph k ↔ s.pc q = .commit ph k := by
  unfold Sys.endOp
  dsimp only
  split_ifs
  · exact Iff.rfl
  · exact commit_setPc hp (by simp) (by simp) q ph k
  · exact commit_wake hp (by simp) q ph k

lemma advance_pins (h : Pins L s) {ph : Phase} (hp : s.pc p = .commit ph k)
    (hctl : (s.advance p ph).toCtl.OK L) (hdone : (ph.steps L s.lh)[k]? = none) :
    Pins L (s.advance p ph) := by
  have hk := le_of_done hdone
  have hok := h.phase_ok hp
  have hpin (ph' : Phase) (hpp : ∀ u < s.lh.n, (∀ t, ph' = .install t → t < u ∨ u = t ∧ 0 ≤ 8) ↔
      ∀ t, ph = .install t → t < u ∨ u = t ∧ k ≤ 8) (b : ℕ) :
      Pinned (s.setPc p (.commit ph' 0)) b ↔ Pinned s b := by
    rw [pinned_commit (h.only hp) hp,pinned_commit (h.only_setPc hp _) (s.setPc_self ..)]
    exact exists_congr fun u => and_congr_right fun hu => and_congr_right fun _ => hpp u hu
  unfold Sys.advance at hctl ⊢
  cases ph with
  | log tail =>
    by_cases ht : tail+1 < s.lh.n
    · simp only [Phase.next,ht,if_true] at hctl ⊢
      exact h.same hctl rfl rfl (hpin _ (by simp))
    · simp only [Phase.next,ht,if_false] at hctl ⊢
      exact h.same hctl rfl rfl (hpin _ (by simp))
  | head =>
    have hn : 0 < s.lh.n := hok.1
    simp only [Phase.next,hn,if_true] at hctl ⊢
    refine h.same hctl rfl rfl (hpin _ ?_)
    intro u hu
    simp only [reduceCtorEq,IsEmpty.forall_iff,implies_true,iff_true,Phase.install.injEq]
    rintro t rfl
    omega
  | install tail =>
    by_cases ht : tail+1 < s.lh.n
    · simp only [Phase.next,ht,if_true] at hctl ⊢
      refine h.same hctl rfl rfl (hpin _ ?_)
      intro u hu
      simp only [Phase.install.injEq,forall_eq']
      simp only at hk
      omega
    · simp only [Phase.next,ht,if_false] at hctl ⊢
      refine h.same hctl rfl rfl ?_
      intro b
      rw [pinned_commit (h.only hp) hp]
      constructor
      · rintro ⟨u,hu,-⟩
        exact absurd hu (Nat.not_lt_zero u)
      · rintro ⟨u,hu,-,hlt⟩
        have := hlt tail rfl
        simp only at hk
        omega
  | erase =>
    refine h.same hctl rfl rfl ?_
    intro b
    have hn : s.lh.n = 0 := hok.1
    unfold Pinned
    simp [hn,Sys.setPc,Phase.next]

lemma enter_pins (h : Pins L s) (hp : s.pc p = .enter)
    (hctl : (s.setPc p (if 0 < s.lh.n then .commit (.log 0) 0 else .finish)).toCtl.OK L) :
    Pins L (s.setPc p (if 0 < s.lh.n then .commit (.log 0) 0 else .finish)) := by
  have hno := h.not_commit (.inl hp)
  refine h.same hctl rfl rfl ?_
  intro b
  unfold Pinned
  refine exists_congr fun u => and_congr_right fun _ => and_congr_right fun _ => ?_
  refine ⟨fun _ q t k hq => absurd hq (hno q _ k),?_⟩
  intro _ q t k hq
  by_cases hqp : q = p
  · subst hqp
    rw [s.setPc_self] at hq
    split_ifs at hq
    cases hq
  · rw [s.setPc_of_ne hqp] at hq
    exact absurd hq (hno q _ k)

lemma logWrite_pins (h : Pins L s) {b : ℕ} (hp : s.pc p = .inOp) (hctl : t.toCtl.OK L)
    (ht : s.logWrite L p b = some t) : Pins L t := by
  have hno := h.no_commit hp
  obtain ⟨-,⟨-,rfl⟩ | ⟨-,⟨hmem,rfl⟩ | ⟨hmem,c,hpin,rfl⟩⟩⟩ :=
    logWrite_cases ht (h.ctl.outstanding_pos hp)
  · exact ⟨hctl,h.wf,h.pins_le,h.pinned⟩
  · exact ⟨hctl,h.wf,h.pins_le,h.pinned⟩
  · obtain ⟨hw,-⟩ := bpin_spec h.wf hpin
    have h₀ : s.pins b = 0 := by
      by_contra hne
      exact hmem (h.pinned_mem (Nat.pos_of_ne_zero hne))
    refine ⟨hctl,hw,?_,?_⟩
    · intro x
      by_cases hx : x = b
      · subst hx; simp [h₀]
      · simpa [update_of_ne hx] using h.pins_le x
    · intro x
      refine Iff.trans ?_ (pinned_iff_mem (by exact hno) x).symm
      change _ ↔ x ∈ LogHeader.blocks ⟨s.lh.n+1,update s.lh.block s.lh.n b⟩
      rw [blocks_append,List.mem_append,List.mem_singleton]
      by_cases hx : x = b
      · subst hx; simp
      · simp only [update_of_ne hx,hx,or_false]
        rw [h.pinned,pinned_iff_mem hno]

lemma commitMicro_pins (h : Pins L s) {m : Micro} {ph : Phase} (hp : s.pc p = .commit ph k)
    (hctl : (t.setPc p (.commit ph (k+1))).toCtl.OK L) (hm : (ph.steps L s.lh)[k]? = some m)
    (ht : s.micro p m = some t) : Pins L (t.setPc p (.commit ph (k+1))) := by
  have hmild (hm : m.mild) (b : ℕ) : m ≠ .bunpin b := by rintro rfl; cases hm
  cases ph with
  | log tail =>
    refine commit_pins h hp hctl ?_ (by simp) ht
    rcases steps_log hm with ⟨-,rfl⟩ | ⟨-,rfl⟩ | ⟨-,-,hm⟩
    · simp
    · simp
    · exact hmild hm
  | head =>
    refine commit_pins h hp hctl ?_ (by simp) ht
    rcases steps_head (.inl rfl) hm with ⟨-,rfl⟩ | ⟨-,rfl⟩ | ⟨-,-,hm⟩
    · simp
    · simp
    · exact hmild hm
  | install tail =>
    rcases steps_install hm with ⟨rfl,rfl⟩ | ⟨rfl,rfl⟩ | ⟨rfl,rfl⟩ | ⟨hk,hm⟩
    · exact commit_pins h hp hctl (by simp) (by simp) ht
    · exact commit_pins h hp hctl (by simp) (by simp) ht
    · exact bunpin_pins h hp hctl ht
    · exact commit_pins h hp hctl (hmild hm) (fun _ _ => hk) ht
  | erase =>
    refine commit_pins h hp hctl ?_ (by simp) ht
    rcases steps_head (.inr rfl) hm with ⟨-,rfl⟩ | ⟨-,rfl⟩ | ⟨-,-,hm⟩
    · simp
    · simp
    · exact hmild hm

/-- One step keeps the pins in order. -/
theorem step_pins {e : Event} (h : Pins L s) (hu : Logs L e) (ht : step L s e = some t) :
    Pins L t := by
  have hctl := step_ctl h.ctl hu ht
  cases step_cases ht with
  | buffer _ hm ht => exact client_pins h hm ht
  | logWrite hp ht => exact logWrite_pins h hp hctl ht
  | beginOp hp | wake hp => exact h.outside hctl rfl rfl rfl (commit_setPc hp (by simp) (by simp))
  | @beginTest p hp =>
    refine h.outside hctl ?_ ?_ ?_ (beginTest_commit hp) <;>
      (unfold Sys.beginTest; split_ifs <;> rfl)
  | @endOp p hp =>
    refine h.outside hctl ?_ ?_ ?_ (endOp_commit hp) <;>
      (unfold Sys.endOp; dsimp only; split_ifs <;> rfl)
  | enter hp => exact enter_pins h hp hctl
  | micro hp hm hmic => exact commitMicro_pins h hp hctl hm hmic
  | advance hp hm => exact advance_pins h hp hctl hm
  | finish hp => exact h.outside hctl rfl rfl rfl (commit_wake hp (by simp))

lemma init_pins (d : Disk) : Pins L (Sys.init d) where
  ctl := init_ctl d
  wf := init_wf d
  pins_le b := Nat.zero_le _
  pinned b := by simp [Pinned,Sys.init]

end Step

/-- The books of log and cache: `outstanding` counts the processes inside an operation, and there
is none during a commit; no block is logged twice or has two buffers; and `refcnt` counts the
references to a buffer and the pin of a logged block, which is not recycled before it is
installed. -/
theorem pinned_until_installed {L : Layout} {d : Disk} {es : List Event} {s : Sys}
    (h : Runs (step L) (fun _ e => Logs L e) (Sys.init d) es s) :
    {p | s.pc p = .inOp}.ncard = s.outstanding ∧ (s.committing = true → ∀ p, s.pc p ≠ .inOp) ∧
    s.lh.blocks.Nodup ∧ (∀ i j b, s.cache.Names i b → s.cache.Names j b → i = j) ∧
    (∀ i b, s.cache.Names i b → (Pinned s b → (s.cache.buf i).refcnt = s.cache.usesOf i+1) ∧
      (¬Pinned s b → (s.cache.buf i).refcnt = s.cache.usesOf i)) ∧
    ∀ b, Pinned s b → ∃ i, s.cache.Names i b ∧ s.cache.victim ≠ some i := by
  have hi : Pins L s := h.invariant (fun _ _ _ hi hc ht => step_pins hi hc ht) (init_pins d)
  have href (i b) (hn : s.cache.Names i b) :
      (s.cache.buf i).refcnt = s.cache.usesOf i+s.pins b := by
    rw [hi.wf.refcnt i,if_pos hn.1,hn.2]
  have hpin := hi.pinned
  refine ⟨?_,hi.ctl.not_inOp,hi.ctl.nodup,hi.wf.key_inj,fun i b hn => ⟨fun hb => ?_,fun hb => ?_⟩,
    fun b hb => ?_⟩
  · obtain ⟨S,hS,hcard⟩ := hi.ctl.ops
    rw [← hcard,← Set.ncard_coe_finset]
    exact congrArg Set.ncard (Set.ext fun p => (hS p).symm)
  · have := (hpin b).mpr hb
    have := hi.pins_le b
    rw [href i b hn]
    omega
  · rw [← hpin] at hb
    rw [href i b hn]
    omega
  · obtain ⟨i,hn⟩ := hi.wf.cached b ((hpin b).mpr hb)
    refine ⟨i,hn,fun hv => ?_⟩
    have h0 : (s.cache.buf i).refcnt = 0 := by simpa using List.find?_some hv
    have := (hpin b).mpr hb
    have := href i b hn
    omega

/-- A process logs a block and releases its buffer. -/
def logOne : List Event :=
  [.beginOp 0,.beginTest 0,.buffer 0 (.bget 100),.buffer 0 (.lock 100),.buffer 0 (.fill 100),
   .logWrite 0 100,.buffer 0 (.unlock 100),.buffer 0 (.drop 100)]

theorem pinned_until_installed_logOne : ∃ s, Runs (step mkfsLog) (fun _ e => Logs mkfsLog e)
    (Sys.init fun _ _ => 0) logOne s ∧ s.cache.uses = [] ∧ Pinned s 100 := by
  obtain ⟨s,h,hu,i,hn,hr⟩ := Runs.exists_of_execIf (step mkfsLog) (fun _ e => Logs mkfsLog e)
    (Sys.init fun _ _ => 0) logOne
    (fun s => s.cache.uses = [] ∧ ∃ i, s.cache.Names i 100 ∧ (s.cache.buf i).refcnt = 1)
    (by decide +kernel)
  refine ⟨s,h,hu,of_not_not fun hp => ?_⟩
  have := ((pinned_until_installed h).2.2.2.2.1 i 100 hn).2 hp
  simp [hr,Cache.usesOf,hu] at this

end Xv6.Log
