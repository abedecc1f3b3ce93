import Xv6.Ipc.PipeFifo

/-! Wakeups on a pipe. While `pi->lock` is free nobody sleeps on `&pi->nread` or `&pi->nwrite`
without reason, unless a writer was killed between two bytes: that exit of `pipewrite` is the one
without a `wakeup`. -/
namespace Xv6.Ipc
open Xv6.Lib

/-- The pipe has no room for another byte, as `pipewrite` tests it. -/
def Pipe.Full (pi : Pipe) : Prop := pi.nwrite = pi.nread+UInt32.ofNat PIPESIZE

/-- A reader has reason to sleep: the pipe is empty and may be written to, or a writer that has
the lock has stored bytes and is still to call `wakeup`. -/
def Sys.ReadWait (s : Sys) : Prop := s.pipe.writeopen = true ∧ (s.pipe.nread = s.pipe.nwrite ∨
  s.pipe.readopen = true ∧ ∃ q i m, 0 < i ∧ s.pc q = .atWrite i m)

/-- A writer has reason to sleep: the pipe is full and may be read from, or a reader that has the
lock is still to call `wakeup`. -/
def Sys.WriteWait (s : Sys) : Prop := s.pipe.readopen = true ∧
  (s.pipe.Full ∨ ∃ q j m, s.pc q = .atCopy j m)

/-- The value of `i` of a process in `pipewrite`. -/
def Pc.written : Pc → ℤ
  | wantWrite i _ | atWrite i _ | sleepWrite i _ => i
  | _ => 0

/-- Nobody sleeps without reason. -/
structure Awake (s : Sys) : Prop where
  readers : ∀ p n, s.pc p = .sleepRead n → s.ReadWait
  writers : ∀ p i n, s.pc p = .sleepWrite i n → s.WriteWait
  written : ∀ p, 0 ≤ (s.pc p).written

/-- No `pipewrite` finds its caller killed when it has stored bytes and the pipe is not empty. -/
def Announced (s : Sys) : Event → Prop
  | .writeIter p _ =>
    match s.pc p with
    | .atWrite i n => ¬(0 < i ∧ i < n ∧ s.killed p = true ∧ s.pipe.readopen = true ∧
        s.pipe.nread ≠ s.pipe.nwrite)
    | _ => True
  | _ => True

instance (s : Sys) (e : Event) : Decidable (Announced s e) := by
  unfold Announced
  split
  · split <;> infer_instance
  · infer_instance

lemma goto_pc_apply (s : Sys) (p q : Pid) (r : Pc) :
    (s.goto p r).pc q = if q = p then r else s.pc q := Function.update_apply _ _ _ _

variable {i n : ℤ}

lemma wakeRead_eq_sleepRead {q : Pc} : q.wakeRead ≠ .sleepRead n := by
  cases q <;> simp [Pc.wakeRead]

lemma wakeWrite_eq_sleepWrite {q : Pc} : q.wakeWrite ≠ .sleepWrite i n := by
  cases q <;> simp [Pc.wakeWrite]

lemma wakeWrite_eq_sleepRead {q : Pc} : q.wakeWrite = .sleepRead n ↔ q = .sleepRead n := by
  cases q <;> simp [Pc.wakeWrite]

lemma wakeRead_eq_sleepWrite {q : Pc} : q.wakeRead = .sleepWrite i n ↔ q = .sleepWrite i n := by
  cases q <;> simp [Pc.wakeRead]

namespace Awake
variable {s t : Sys} {p : Pid} {i n : ℤ}

lemma quiet (h : Awake s) (hl : ∀ p, (s.pc p).holds → s.lock = some p) (hfree : s.lock = none) :
    (∀ p n, s.pc p = .sleepRead n → s.pipe.nread = s.pipe.nwrite ∧ s.pipe.writeopen = true) ∧
      ∀ p i n, s.pc p = .sleepWrite i n → s.pipe.Full ∧ s.pipe.readopen = true := by
  have hnone : ∀ q, (s.pc q).holds = false := by
    intro q
    by_contra hq
    have := hl q (by simpa using hq)
    rw [hfree] at this
    cases this
  constructor
  · intro p n hp
    obtain ⟨hw,he | ⟨-,q,j,m,-,hq⟩⟩ := h.readers p n hp
    · exact ⟨he,hw⟩
    · have := hnone q
      rw [hq] at this
      cases this
  · intro p i n hp
    obtain ⟨hr,hf | ⟨q,j,m,hq⟩⟩ := h.writers p i n hp
    · exact ⟨hf,hr⟩
    · have := hnone q
      rw [hq] at this
      cases this

lemma excl (h : Inv s) {q : Pid} (hp : (s.pc p).holds) (hq : (s.pc q).holds) : q = p :=
  Option.some.inj ((h.lock q hq).symm.trans (h.lock p hp))

variable (h : Awake s)
include h

/-- Beside a reader or writer that has stored nothing, sleeping readers find the pipe empty. -/
lemma reader (hi : Inv s) (hp : (s.pc p).holds)
    (hnot : ∀ i n, s.pc p = .atWrite i n → 0 < i → s.pipe.readopen = true →
      s.pipe.nread = s.pipe.nwrite) {q : Pid} (hq : s.pc q = .sleepRead n) :
    s.pipe.writeopen = true ∧ s.pipe.nread = s.pipe.nwrite := by
  obtain ⟨hw,he | ⟨hr,x,j,m,hj,hx⟩⟩ := h.readers q n hq
  · exact ⟨hw,he⟩
  · obtain rfl := excl hi hp (q := x) (by rw [hx]; rfl)
    exact ⟨hw,hnot j m hx hj hr⟩

/-- Beside a writer, or a reader that has taken nothing, sleeping writers find the pipe full. -/
lemma writer (hi : Inv s) (hp : (s.pc p).holds) (hnot : ∀ i n, s.pc p ≠ .atCopy i n)
    {q : Pid} (hq : s.pc q = .sleepWrite i n) : s.pipe.readopen = true ∧ s.pipe.Full := by
  obtain ⟨hr,hf | ⟨x,j,m,hx⟩⟩ := h.writers q i n hq
  · exact ⟨hr,hf⟩
  · obtain rfl := excl hi hp (q := x) (by rw [hx]; rfl)
    exact absurd hx (hnot j m)

lemma move {r : Pc} (p : Pid) (hp : t.pc p = r) (hpc : ∀ q, q ≠ p →
      t.pc q = s.pc q ∨ t.pc q = (s.pc q).wakeRead ∨ t.pc q = (s.pc q).wakeWrite)
    (hi : 0 ≤ r.written)
    (hr : ∀ q n, q ≠ p → t.pc q = .sleepRead n → s.pc q = .sleepRead n → t.ReadWait)
    (hw : ∀ q i n, q ≠ p → t.pc q = .sleepWrite i n → s.pc q = .sleepWrite i n → t.WriteWait)
    (hrp : ∀ n, r = .sleepRead n → t.ReadWait) (hwp : ∀ i n, r = .sleepWrite i n → t.WriteWait) :
    Awake t where
  readers q n hq := by
    by_cases hne : q = p
    · exact hrp n (by rw [← hp,← hne,hq])
    · refine hr q n hne hq ?_
      rcases hpc q hne with he | he | he
      · exact he ▸ hq
      · exact absurd (he ▸ hq) wakeRead_eq_sleepRead
      · exact wakeWrite_eq_sleepRead.mp (he ▸ hq)
  writers q i n hq := by
    by_cases hne : q = p
    · exact hwp i n (by rw [← hp,← hne,hq])
    · refine hw q i n hne hq ?_
      rcases hpc q hne with he | he | he
      · exact he ▸ hq
      · exact wakeRead_eq_sleepWrite.mp (he ▸ hq)
      · exact absurd (he ▸ hq) wakeWrite_eq_sleepWrite
  written q := by
    by_cases hne : q = p
    · rwa [hne,hp]
    · have hs := h.written q
      rcases hpc q hne with he | he | he <;> rw [he]
      · exact hs
      · cases hq : s.pc q <;> rw [hq] at hs <;> exact hs
      · cases hq : s.pc q <;> rw [hq] at hs <;> exact hs

lemma pipewriteIter (hi : Inv s) (hp : s.pc p = .atWrite i n)
    (hc : ¬(0 < i ∧ i < n ∧ s.killed p = true ∧ s.pipe.readopen = true ∧
      s.pipe.nread ≠ s.pipe.nwrite)) (src : Option UInt8) : Awake (pipewriteIter s p src i n) := by
  have hh : (s.pc p).holds := by rw [hp]; rfl
  have hi0 : 0 ≤ i := by simpa [hp,Pc.written] using h.written p
  have hnc : ∀ i n, s.pc p ≠ .atCopy i n := by
    intro i' n' he
    rw [hp] at he
    cases he
  have hwriter : ∀ {q j m}, s.pc q = .sleepWrite j m → s.pipe.readopen = true ∧ s.pipe.Full :=
    fun hq => h.writer hi hh hnc hq
  -- an exit with a wakeup of the readers
  have hwake : ∀ r, (∀ m, r ≠ .sleepRead m) → (∀ j m, r = .sleepWrite j m →
      s.pipe.readopen = true ∧ s.pipe.Full) → 0 ≤ r.written →
      Awake (s.wakeupNread.goto p r).release := by
    intro r hr hw hr0
    refine h.move p (goto_pc _ p r) (fun q hq => .inr (.inl (goto_pc_ne _ _ hq))) hr0
      (fun q m hqp hq _ => ?_) (fun q j m _ _ hs => ⟨(hwriter hs).1,.inl (hwriter hs).2⟩)
      (fun m he => absurd he (hr m)) (fun j m he => ⟨(hw j m he).1,.inl (hw j m he).2⟩)
    exact absurd ((goto_pc_ne _ _ hqp).symm.trans hq) wakeRead_eq_sleepRead
  unfold Ipc.pipewriteIter
  split
  · rename_i hlt
    split
    · rename_i hexit
      -- the exit without a wakeup: the bytes in the pipe, if any, are announced
      refine h.move p (goto_pc _ p _) (fun q hq => .inl (goto_pc_ne _ _ hq)) le_rfl
        (fun q m _ _ hs => ?_) (fun q j m _ _ hs => ⟨(hwriter hs).1,.inl (hwriter hs).2⟩) nofun nofun
      obtain ⟨hw,he⟩ := h.reader hi hh (fun i' n' hp' hi' hr => by
        rw [hp] at hp'
        cases hp'
        by_contra hne
        rcases hexit with hro | hk
        · rw [hr] at hro
          cases hro
        · exact hc ⟨hi',hlt,hk,hr,hne⟩) hs
      exact ⟨hw,.inl he⟩
    · rename_i hopen
      have hro : s.pipe.readopen = true := by
        by_contra hro
        exact hopen (.inl (by simpa using hro))
      split
      · rename_i hfull
        exact hwake _ (fun m he => nomatch he) (fun j m _ => ⟨hro,hfull⟩) hi0
      · rename_i hfull
        cases src with
        | none => exact hwake _ (fun m he => nomatch he) (fun j m he => nomatch he) le_rfl
        | some ch =>
          refine h.move p (goto_pc _ p _) (fun q hq => .inl (goto_pc_ne _ _ hq))
            (Int.le_add_one hi0) (fun q m _ _ hs => ?_)
            (fun q j m _ _ hs => absurd (hwriter hs).2 hfull) nofun nofun
          exact ⟨(h.readers q m hs).1,.inr ⟨hro,p,i+1,n,by omega,goto_pc _ _ _⟩⟩
  · exact hwake _ (fun m he => nomatch he) (fun j m he => nomatch he) le_rfl

lemma pipereadTest (hi : Inv s) (hp : s.pc p = .atRead n) : Awake (pipereadTest s p n) := by
  have hh : (s.pc p).holds := by rw [hp]; rfl
  -- the pipe stays as it is, whatever the process does next
  have hkeep : ∀ (u : Sys) (r : Pc), u.pipe = s.pipe → u.pc = (s.goto p r).pc →
      (∀ m, r = .sleepRead m → s.pipe.writeopen = true ∧ s.pipe.nread = s.pipe.nwrite) →
      (∀ j m, r ≠ .sleepWrite j m) → 0 ≤ r.written → Awake u := by
    intro u r hu hpc hr hw hr0
    refine h.move p (by rw [hpc,goto_pc]) (fun q hq => .inl (by rw [hpc,goto_pc_ne _ _ hq])) hr0
      (fun q m _ _ hs => ?_) (fun q j m _ _ hs => ?_) (fun m he => ?_) fun j m he => absurd he (hw j m)
    · obtain ⟨h₁,h₂⟩ := h.reader hi hh (fun i' n' he => by rw [hp] at he; cases he) hs
      exact ⟨hu ▸ h₁,.inl (hu ▸ h₂)⟩
    · obtain ⟨h₁,h₂⟩ := h.writer hi hh (fun i' n' he => by rw [hp] at he; cases he) hs
      exact ⟨hu ▸ h₁,.inl (hu ▸ h₂)⟩
    · exact ⟨hu ▸ (hr m he).1,.inl (hu ▸ (hr m he).2)⟩
  unfold Ipc.pipereadTest
  split
  · rename_i he
    split
    · exact hkeep _ _ rfl rfl (fun m he => nomatch he) (fun j m he => nomatch he) le_rfl
    · exact hkeep _ _ rfl rfl (fun m _ => ⟨he.2,he.1⟩) (fun j m he => nomatch he) le_rfl
  · exact hkeep _ _ rfl rfl (fun m he => nomatch he) (fun j m he => nomatch he) le_rfl

lemma pipereadIter (hi : Inv s) (hp : s.pc p = .atCopy i n) (ok : Bool) :
    Awake (pipereadIter s p ok i n) := by
  have hh : (s.pc p).holds := by rw [hp]; rfl
  have hempty : ∀ {q m}, s.pc q = .sleepRead m →
      s.pipe.writeopen = true ∧ s.pipe.nread = s.pipe.nwrite :=
    fun hq => h.reader hi hh (fun i' n' he => by rw [hp] at he; cases he) hq
  -- an exit with a wakeup of the writers
  have hwake : ∀ (u : Sys) (r : ℤ), u.pc = s.pc → (∀ q m, s.pc q = .sleepRead m →
      u.pipe.writeopen = true ∧ u.pipe.nread = u.pipe.nwrite) →
      Awake (u.wakeupNwrite.goto p (.ret r)).release := by
    intro u r hu hr
    refine h.move p (goto_pc _ p _) (fun q hq => .inr (.inr ?_)) le_rfl
      (fun q m _ _ hs => ⟨(hr q m hs).1,.inl (hr q m hs).2⟩) (fun q j m hqp hq _ => ?_) nofun nofun
    · rw [← hu]
      exact goto_pc_ne _ _ hq
    · exact absurd ((goto_pc_ne _ _ hqp).symm.trans hq) wakeWrite_eq_sleepWrite
  unfold Ipc.pipereadIter
  split
  · split
    · exact hwake s i rfl fun q m hq => hempty hq
    · rename_i hne
      split
      · refine h.move p (goto_pc _ p _) (fun q hq => .inl (goto_pc_ne _ _ hq)) le_rfl
          (fun q m _ _ hs => absurd (hempty hs).2 hne) (fun q j m _ _ hs => ?_) nofun nofun
        exact ⟨(h.writers q j m hs).1,.inr ⟨p,i+1,n,goto_pc _ _ _⟩⟩
      · exact hwake s.fetch i rfl fun q m hq => absurd (hempty hq).2 hne
  · exact hwake s i rfl fun q m hq => hempty hq

lemma pipeclose (hi : Inv s) (hl : s.lock = none) (w : Bool) : Awake (pipeclose s w) := by
  obtain ⟨hr,hw⟩ := h.quiet hi.lock hl
  cases w with
  | true =>
    refine ⟨fun q m hq => absurd hq wakeRead_eq_sleepRead,fun q j m hq => ?_,fun q => ?_⟩
    · obtain ⟨h₁,h₂⟩ := hw q j m (wakeRead_eq_sleepWrite.mp hq)
      exact ⟨h₂,.inl h₁⟩
    · have hs := h.written q
      show 0 ≤ (s.pc q).wakeRead.written
      cases hq : s.pc q <;> rw [hq] at hs <;> exact hs
  | false =>
    refine ⟨fun q m hq => ?_,fun q j m hq => absurd hq wakeWrite_eq_sleepWrite,fun q => ?_⟩
    · obtain ⟨h₁,h₂⟩ := hr q m (wakeWrite_eq_sleepRead.mp hq)
      exact ⟨h₂,.inl h₁⟩
    · have hs := h.written q
      show 0 ≤ (s.pc q).wakeWrite.written
      cases hq : s.pc q <;> rw [hq] at hs <;> exact hs

/-- A process moves without touching the pipe; if it is in the middle of a loop it stays there. -/
lemma pass {r : Pc} (hpipe : t.pipe = s.pipe) (hpc : t.pc = (s.goto p r).pc)
    (hr : ∀ m, r ≠ .sleepRead m) (hw : ∀ j m, r ≠ .sleepWrite j m) (h0 : 0 ≤ r.written)
    (hstay : (s.pc p).holds → r = s.pc p) : Awake t := by
  have hself : t.pc p = r := by rw [hpc]; exact goto_pc s p r
  have hother : ∀ q, q ≠ p → t.pc q = s.pc q := fun q hq => by rw [hpc]; exact goto_pc_ne s r hq
  have hheld : ∀ q, (s.pc q).holds → t.pc q = s.pc q := by
    intro q hq
    by_cases hqp : q = p
    · subst hqp
      exact hself.trans (hstay hq)
    · exact hother q hqp
  refine h.move p hself (fun q hq => .inl (hother q hq)) h0 (fun q m _ _ hs => ?_)
    (fun q j m _ _ hs => ?_) (fun m he => absurd he (hr m)) fun j m he => absurd he (hw j m)
  · obtain ⟨h₁,h₂⟩ := h.readers q m hs
    refine ⟨hpipe ▸ h₁,?_⟩
    rcases h₂ with h₂ | ⟨h₂,x,i,m,hi,hx⟩
    · exact .inl (hpipe ▸ h₂)
    · exact .inr ⟨hpipe ▸ h₂,x,i,m,hi,(hheld x (by rw [hx]; rfl)).trans hx⟩
  · obtain ⟨h₁,h₂⟩ := h.writers q j m hs
    refine ⟨hpipe ▸ h₁,?_⟩
    rcases h₂ with h₂ | ⟨x,i,m,hx⟩
    · exact .inl (hpipe ▸ h₂)
    · exact .inr ⟨x,i,m,(hheld x (by rw [hx]; rfl)).trans hx⟩

end Awake

lemma wake_holds (q : Pc) (h : q.holds) : q.wakeRead.wakeWrite = q := by
  cases q <;> first | rfl | cases h

lemma outside_holds {q : Pc} (h : q.outside) : q.holds = false := by
  cases q <;> first | rfl | cases h

section Step
variable {s t : Sys} {e : Event} {p : Pid} {i n : ℤ} {src : Option UInt8} {ok : Bool}

theorem step_awake (hi : Inv s) (h : Awake s) (hc : Announced s e) (hs : step s e = some t) :
    Awake t := by
  cases trans_of_step hs with
  | write ho | read ho =>
    refine h.pass rfl rfl (fun m he => nomatch he) (fun j m he => nomatch he) le_rfl fun hh => ?_
    rw [outside_holds ho] at hh
    cases hh
  | @acquireWrite p i n hl hp =>
    have h0 := h.written p
    rw [hp] at h0
    refine h.pass rfl rfl (fun m he => nomatch he) (fun j m he => nomatch he) h0 fun hh => ?_
    rw [hp] at hh
    cases hh
  | acquireRead hl hp =>
    refine h.pass rfl rfl (fun m he => nomatch he) (fun j m he => nomatch he) le_rfl fun hh => ?_
    rw [hp] at hh
    cases hh
  | writeIter hp =>
    simp only [Announced,hp] at hc
    exact h.pipewriteIter hi hp hc _
  | readTest hp => exact h.pipereadTest hi hp
  | readIter hp => exact h.pipereadIter hi hp _
  | close hl => exact h.pipeclose hi hl _
  | @kill p =>
    refine h.pass (p := p) (r := (s.pc p).wakeRead.wakeWrite) rfl rfl (fun m he => ?_)
      (fun j m he => absurd he wakeWrite_eq_sleepWrite) ?_ (wake_holds _)
    · exact absurd (wakeWrite_eq_sleepRead.mp he) wakeRead_eq_sleepRead
    · have h0 := h.written p
      cases hp : s.pc p <;> rw [hp] at h0 <;> exact h0

lemma step_write (hs : step s (.write p n) = some t) : t = s.goto p (.wantWrite 0 n) := by
  cases trans_of_step hs
  rfl

lemma step_read (hs : step s (.read p n) = some t) : t = s.goto p (.wantRead n) := by
  cases trans_of_step hs
  rfl

lemma step_acquire_write (hs : step s (.acquire p) = some t) (hp : s.pc p = .wantWrite i n) :
    t = { s.goto p (.atWrite i n) with lock := some p } := by
  cases trans_of_step hs with
  | acquireWrite hl hq => cases hp.symm.trans hq; rfl
  | acquireRead hl hq => cases hp.symm.trans hq

lemma step_acquire_read (hs : step s (.acquire p) = some t) (hp : s.pc p = .wantRead n) :
    t = { s.goto p (.atRead n) with lock := some p } := by
  cases trans_of_step hs with
  | acquireWrite hl hq => cases hp.symm.trans hq
  | acquireRead hl hq => cases hp.symm.trans hq; rfl

lemma step_writeIter (hs : step s (.writeIter p src) = some t) (hp : s.pc p = .atWrite i n) :
    t = pipewriteIter s p src i n := by
  cases trans_of_step hs with
  | writeIter hq => cases hp.symm.trans hq; rfl

lemma step_readTest (hs : step s (.readTest p) = some t) (hp : s.pc p = .atRead n) :
    t = pipereadTest s p n := by
  cases trans_of_step hs with
  | readTest hq => cases hp.symm.trans hq; rfl

lemma step_readIter (hs : step s (.readIter p ok) = some t) (hp : s.pc p = .atCopy i n) :
    t = pipereadIter s p ok i n := by
  cases trans_of_step hs with
  | readIter hq => cases hp.symm.trans hq; rfl

lemma step_close {w : Bool} (hs : step s (.close w) = some t) : t = pipeclose s w := by
  cases trans_of_step hs
  rfl

lemma step_grows (hs : step s e = some t) : s.put <+: t.put ∧ s.got <+: t.got := by
  obtain ⟨hg,hp,-,-⟩ := step_frame hs
  constructor
  · by_cases he : ∃ p src, e = .writeIter p src
    · obtain ⟨p,src,rfl⟩ := he
      cases trans_of_step hs
      unfold pipewriteIter
      split_ifs
      · exact List.prefix_refl _
      · exact List.prefix_refl _
      · split
        · exact List.prefix_refl _
        · exact List.prefix_append _ _
      · exact List.prefix_refl _
    · rw [hp fun p src h => he ⟨p,src,h⟩]
  · by_cases he : ∃ p ok, e = .readIter p ok
    · obtain ⟨p,ok,rfl⟩ := he
      cases trans_of_step hs
      unfold pipereadIter
      split_ifs
      · exact List.prefix_refl _
      · exact List.prefix_append _ _
      · exact List.prefix_append _ _
      · exact List.prefix_refl _
    · rw [hg fun p ok h => he ⟨p,ok,h⟩]

lemma holder_stays {q : Pid} {r : Pc} (h : ∀ p, s.lock = some p → (s.pc p).holds)
    (hq : s.lock = some q) (hr : r.holds = true) : ((s.goto p r).pc q).holds := by
  rw [goto_pc_apply]
  split_ifs
  · exact hr
  · exact h q hq

lemma step_held (h : ∀ p, s.lock = some p → (s.pc p).holds)
    (hs : step s e = some t) : ∀ p, t.lock = some p → (t.pc p).holds := by
  intro q hq
  cases trans_of_step hs with
  | @write p n ho | @read p n ho =>
    have hne : q ≠ p := by
      rintro rfl
      have := h q hq
      rw [outside_holds ho] at this
      cases this
    rw [goto_pc_ne _ _ hne]
    exact h q hq
  | acquireWrite | acquireRead =>
    cases hq
    simp [Sys.goto,Pc.holds]
  | writeIter =>
    unfold pipewriteIter at hq ⊢
    split_ifs at hq ⊢
    · cases hq
    · cases hq
    · split at hq
      · cases hq
      · exact holder_stays (s := s) h hq rfl
    · cases hq
  | readTest =>
    unfold pipereadTest at hq ⊢
    split_ifs at hq ⊢
    · cases hq
    · cases hq
    · exact holder_stays (s := s) h hq rfl
  | readIter =>
    unfold pipereadIter at hq ⊢
    split_ifs at hq ⊢
    · cases hq
    · exact holder_stays (s := s) h hq rfl
    · cases hq
    · cases hq
  | @close w hl => cases w <;> exact absurd (hl.symm.trans hq) (by simp)
  | @kill p =>
    by_cases hne : q = p
    · subst hne
      have hh := h q hq
      simp [kill,Sys.goto,wake_holds _ hh,hh]
    · rw [kill,goto_pc_ne _ _ hne]
      exact h q hq

end Step

/-- Whenever `pi->lock` is free, no process sleeps on `&pi->nread` while there are bytes to read
or no writer is left, and none on `&pi->nwrite` while there is room or no reader is left. -/
def NoLostWakeup (s : Sys) : Prop := s.lock = none →
  (∀ p n, s.pc p = .sleepRead n → s.pipe.nread = s.pipe.nwrite ∧ s.pipe.writeopen = true) ∧
    ∀ p i n, s.pc p = .sleepWrite i n → s.pipe.Full ∧ s.pipe.readopen = true

/-- Any number of readers and writers, closes and kills, as long as no writer is found killed
between two bytes. -/
theorem pipe_wakeup (page : Fin PIPESIZE → UInt8) (killed : Pid → Bool) (es : List Event) (s : Sys)
    (h : Runs step Announced (init page killed) es s) : NoLostWakeup s := by
  have hinit : Awake (init page killed) :=
    ⟨(fun p n hp => nomatch hp),(fun p i n hp => nomatch hp),fun p => le_rfl⟩
  obtain ⟨hi,ha⟩ := h.invariant_and (I := Inv) (J := Awake)
    (fun s e t hi _ hs => step_inv hi hs) (fun s e t hi ha hc hs => step_awake hi ha hc hs)
    ⟨init_inv page killed,hinit⟩
  exact ha.quiet hi.lock

/-- A reader falls asleep, a writer of two bytes is killed after the first one. -/
def killedWriter : List Event :=
  [.read 1 10,.acquire 1,.readTest 1,.write 2 2,.acquire 2,.writeIter 2 (some 7)]

theorem pipe_wakeup_twoBytes : ∃ s, NoLostWakeup s ∧ s.lock = none ∧ s.pc 1 = .wantRead 10 := by
  obtain ⟨s,hr,hs⟩ := Runs.exists_of_execIf step Announced (init (fun _ => 0) fun _ => false)
    (killedWriter++[.writeIter 2 (some 8),.writeIter 2 none])
    (fun s => s.lock = none ∧ s.pc 1 = .wantRead 10) (by decide +kernel)
  exact ⟨s,pipe_wakeup _ _ _ s hr,hs⟩

/-- The reader then sleeps although a byte is there and the lock is free. -/
theorem pipe_wakeup_lost : ∃ s, Runs step (fun _ _ => True) (init (fun _ => 0) fun _ => false)
    (killedWriter++[.kill 2,.writeIter 2 none]) s ∧ s.lock = none ∧ s.pc 1 = .sleepRead 10 ∧
      s.pipe.nread ≠ s.pipe.nwrite ∧ ¬NoLostWakeup s := by
  obtain ⟨s,hr,hl,hp,hne⟩ := Runs.exists_of_execIf step (fun _ _ => True)
    (init (fun _ => 0) fun _ => false) (killedWriter++[.kill 2,.writeIter 2 none])
    (fun s => s.lock = none ∧ s.pc 1 = .sleepRead 10 ∧ s.pipe.nread ≠ s.pipe.nwrite)
    (by decide +kernel)
  exact ⟨s,hr,hl,hp,hne,fun h => hne ((h hl).1 1 10 hp).1⟩

end Xv6.Ipc
