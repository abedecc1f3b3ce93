import Xv6.Proc.Family

/-! Who reaps whom. The ghost history tells that a process is reaped once, after it has exited,
with its own pid and status, and by the process that made it or, if that one has exited, by
`initproc`. -/
namespace Xv6.Process
open Xv6.Lib List
open Function (update update_self update_of_ne)

def Record.id : Record → ℕ
  | exit i _ _ | reap _ i _ _ => i

def Record.reaped? : Record → Option ℕ
  | exit _ _ _ => none
  | reap _ i _ _ => some i

/-- The processes reaped so far, one entry for each return of `wait`. -/
def Sys.reaped (s : Sys) : List ℕ := s.log.filterMap Record.reaped?

def Sys.Exited (s : Sys) (i : ℕ) : Prop := ∃ pid st, Record.exit i pid st ∈ s.log

/-- The process is in the part of `exit` that holds `wait_lock`. -/
def Pc.exiting : Pc → Bool
  | reparent _ _ | reparentWake _ _ _ | exitWake _ _ | exitZombie _ => true
  | _ => false

lemma Pc.locked_of_exiting {c : Pc} (h : c.exiting = true) : c.locked = true := by
  cases c <;> first | rfl | cases h

/-- Process `a` may reap process `i`. -/
def Sys.Heir (s : Sys) (a i : ℕ) : Prop :=
  a = s.creator i ∨ a = (s.life initproc).id ∧ s.Exited (s.creator i)

structure History (s : Sys) : Prop where
  fresh : ∀ p, (s.proc p).state ≠ .unused → (s.life p).id < s.births
  unique : ∀ p q, (s.proc p).state ≠ .unused → (s.proc q).state ≠ .unused →
    (s.life p).id = (s.life q).id → p = q
  old : ∀ r ∈ s.log, r.id < s.births
  living : ∀ p, (s.proc p).state ≠ .unused → (s.proc p).state ≠ .zombie →
    ∀ r ∈ s.log, r.id ≠ (s.life p).id
  zombies : ∀ p, (s.proc p).state = .zombie →
    .exit (s.life p).id (s.proc p).pid (s.proc p).xstate ∈ s.log
  unreaped : ∀ p, (s.proc p).state ≠ .unused → (s.life p).id ∉ s.reaped
  once : s.reaped.Nodup
  reaps : ∀ a i pid st, .reap a i pid st ∈ s.log → .exit i pid st ∈ s.log ∧ s.Heir a i
  forked : ∀ p np pid, s.pc p = .forkLink np pid → s.creator (s.life np).id = (s.life p).id
  parents : ∀ p q, (s.proc p).parent = some q → (s.life q).id = s.creator (s.life p).id ∨
    q = initproc ∧ (s.Exited (s.creator (s.life p).id) ∨
      ∃ r, (s.life r).id = s.creator (s.life p).id ∧ (s.pc r).exiting = true)

lemma Sys.mem_reaped {s : Sys} {i : ℕ} :
    i ∈ s.reaped ↔ ∃ a pid st, Record.reap a i pid st ∈ s.log := by
  simp only [reaped,mem_filterMap]
  constructor
  · rintro ⟨r,hr,hi⟩
    cases r with
    | exit => cases hi
    | reap a j pid st =>
      obtain rfl := Option.some_inj.mp hi
      exact ⟨a,pid,st,hr⟩
  · rintro ⟨a,pid,st,h⟩
    exact ⟨_,h,rfl⟩

lemma Sys.Exited.of_log {s t : Sys} {i : ℕ} {new : List Record} (hl : t.log = s.log++new) :
    s.Exited i → t.Exited i := by
  rintro ⟨pid,st,hi⟩
  exact ⟨pid,st,hl ▸ mem_append_left _ hi⟩

namespace History
variable {s t : Sys} {p q : Slot} {c : Pc}

variable (h : History s)
include h

lemma of_log {new : List Record} (hid : ∀ x, (t.life x).id = (s.life x).id)
    (hb : t.births = s.births) (hcr : t.creator = s.creator) (hl : t.log = s.log++new)
    (hu : ∀ x, (t.proc x).state ≠ .unused → (s.proc x).state ≠ .unused ∧
      ((t.proc x).state ≠ .zombie → (s.proc x).state ≠ .zombie))
    (hnew : ∀ r ∈ new, r.id < s.births ∧ ∀ x, (t.proc x).state ≠ .unused →
      (t.proc x).state ≠ .zombie → r.id ≠ (s.life x).id) (hz : ∀ x, (t.proc x).state = .zombie →
      .exit (s.life x).id (t.proc x).pid (t.proc x).xstate ∈ s.log++new)
    (hun : ∀ x, (t.proc x).state ≠ .unused → (s.life x).id ∉ new.filterMap Record.reaped?)
    (ho : (s.reaped++new.filterMap Record.reaped?).Nodup)
    (hr : ∀ a i pid st, .reap a i pid st ∈ new → .exit i pid st ∈ s.log ∧ s.Heir a i)
    (hf : ∀ x np pid, t.pc x = .forkLink np pid → s.pc x = .forkLink np pid)
    (hpar : ∀ x y, (t.proc x).parent = some y → (s.life y).id = s.creator (s.life x).id ∨
      y = initproc ∧ (t.Exited (s.creator (s.life x).id) ∨
        ∃ r, (s.life r).id = s.creator (s.life x).id ∧ (t.pc r).exiting = true)) : History t := by
  have hreaped : t.reaped = s.reaped++new.filterMap Record.reaped? := by
    rw [Sys.reaped,hl,filterMap_append]
    rfl
  have hheir : ∀ a i, s.Heir a i → t.Heir a i := by
    intro a i hi
    unfold Sys.Heir at hi ⊢
    rw [hcr,hid]
    exact hi.imp_right (And.imp_right (.of_log hl))
  constructor
  case fresh =>
    intro x hx
    rw [hid,hb]
    exact h.fresh x (hu x hx).1
  case unique =>
    intro x y hx hy hxy
    rw [hid,hid] at hxy
    exact h.unique x y (hu x hx).1 (hu y hy).1 hxy
  case old =>
    rw [hl,hb]
    exact forall_mem_append.mpr ⟨h.old,fun r hr => (hnew r hr).1⟩
  case living =>
    intro x hx hxz
    rw [hid,hl]
    exact forall_mem_append.mpr ⟨h.living x (hu x hx).1 ((hu x hx).2 hxz),
      fun r hr => (hnew r hr).2 x hx hxz⟩
  case zombies =>
    intro x hx
    rw [hid,hl]
    exact hz x hx
  case unreaped =>
    intro x hx
    rw [hid,hreaped,mem_append,not_or]
    exact ⟨h.unreaped x (hu x hx).1,hun x hx⟩
  case once =>
    rw [hreaped]
    exact ho
  case reaps =>
    intro a i pid st hi
    rw [hl] at hi ⊢
    obtain ⟨h₁,h₂⟩ := (mem_append.mp hi).elim (h.reaps a i pid st) (hr a i pid st)
    exact ⟨mem_append_left _ h₁,hheir a i h₂⟩
  case forked =>
    intro x np pid hx
    rw [hcr,hid,hid]
    exact h.forked x np pid (hf x np pid hx)
  case parents =>
    intro x y hx
    simp only [hid,hcr]
    exact hpar x y hx

lemma of_same (hpar : ∀ x, (t.proc x).parent = (s.proc x).parent)
    (hu : ∀ x, (t.proc x).state = .unused ↔ (s.proc x).state = .unused)
    (hz : ∀ x, (t.proc x).state = .zombie → (s.proc x).state = .zombie ∧
      (t.proc x).pid = (s.proc x).pid ∧ (t.proc x).xstate = (s.proc x).xstate)
    (hz' : ∀ x, (s.proc x).state = .zombie → (t.proc x).state = .zombie)
    (hid : ∀ x, (t.life x).id = (s.life x).id) (hb : t.births = s.births)
    (hcr : t.creator = s.creator) (hl : t.log = s.log)
    (hf : ∀ x np pid, t.pc x = .forkLink np pid → s.pc x = .forkLink np pid)
    (he : ∀ x, (s.pc x).exiting = true → (t.pc x).exiting = true) : History t := by
  have hl' : t.log = s.log++[] := by rw [hl,append_nil]
  refine h.of_log hid hb hcr hl' (fun x hx => ⟨mt (hu x).mpr hx,mt (hz' x)⟩) (by simp) ?_ (by simp)
    (by simpa using h.once) (by simp) hf ?_
  · intro x hx
    obtain ⟨h₁,h₂,h₃⟩ := hz x hx
    rw [append_nil,h₂,h₃]
    exact h.zombies x h₁
  · intro x y hx
    refine (h.parents x y (hpar x ▸ hx)).imp_right (And.imp_right (Or.imp (.of_log hl') ?_))
    rintro ⟨r,hr,hrx⟩
    exact ⟨r,hr,he r hrx⟩

lemma goto (hf : ∀ np a, c ≠ .forkLink np a)
    (he : (s.pc p).exiting = true → c.exiting = true) : History (s.goto p c) := by
  refine h.of_same (t := s.goto p c) (fun _ => rfl) (fun _ => Iff.rfl) (fun _ hx => ⟨hx,rfl,rfl⟩)
    (fun _ hx => hx) (fun _ => rfl) rfl rfl rfl ?_ ?_
  · intro x np a hx
    by_cases hxp : x = p
    · exact absurd (by simpa [hxp] using hx) (hf np a)
    · simpa [hxp] using hx
  · intro x hx
    by_cases hxp : x = p
    · subst hxp
      simpa using he hx
    · simpa [hxp] using hx

/-- Changes of the state that neither make nor free a zombie, and of fields that the history
does not look at. -/
lemma of_state (hpc : t.pc = s.pc) (hid : ∀ x, (t.life x).id = (s.life x).id)
    (hb : t.births = s.births) (hcr : t.creator = s.creator) (hl : t.log = s.log)
    (hproc : ∀ x, (t.proc x).parent = (s.proc x).parent ∧
      (t.proc x).pid = (s.proc x).pid ∧ (t.proc x).xstate = (s.proc x).xstate ∧
      ((t.proc x).state = (s.proc x).state ∨ (t.proc x).state.up = true ∧
        ((s.proc x).state.up = true ∨ (s.proc x).state = .used))) : History t := by
  have hst : ∀ x st, st = .unused ∨ st = .zombie →
      ((t.proc x).state = st ↔ (s.proc x).state = st) := by
    intro x st hst
    obtain ⟨-,-,-,hx | ⟨ht,hs⟩⟩ := hproc x
    · rw [hx]
    · obtain rfl | rfl := hst <;> constructor <;> intro hx <;> simp [hx,PState.up] at ht hs
  refine h.of_same (fun x => (hproc x).1) (fun x => hst x _ (.inl rfl))
    (fun x hx => ⟨(hst x _ (.inr rfl)).mp hx,(hproc x).2.1,(hproc x).2.2.1⟩)
    (fun x hx => (hst x _ (.inr rfl)).mpr hx) hid hb hcr hl ?_ ?_
  · intro x np a hx
    rwa [hpc] at hx
  · intro x hx
    rwa [hpc]

lemma leave (he : (s.pc p).exiting = false) (r : Ret) : History (s.leave p r) := by
  have hs : History (s.goto p .user) := h.goto (by simp) (by simp [he])
  exact ⟨hs.fresh,hs.unique,hs.old,hs.living,hs.zombies,hs.unreaped,hs.once,hs.reaps,hs.forked,
    hs.parents⟩

lemma acquire (p : Slot) : History (s.acquire p) :=
  ⟨h.fresh,h.unique,h.old,h.living,h.zombies,h.unreaped,h.once,h.reaps,h.forked,h.parents⟩

lemma release : History s.release :=
  ⟨h.fresh,h.unique,h.old,h.living,h.zombies,h.unreaped,h.once,h.reaps,h.forked,h.parents⟩

lemma become {st : PState} (hst : st.up = true)
    (hp : (s.proc p).state.up = true ∨ (s.proc p).state = .used) : History (s.become p st) := by
  refine h.of_state (t := s.become p st) rfl (fun _ => rfl) rfl rfl rfl ?_
  intro x
  by_cases hx : x = p
  · simp [hx,hst,hp]
  · simp [hx]

lemma put {f : Proc → Proc} (hpar : ∀ r, (f r).parent = r.parent)
    (hpid : ∀ r, (f r).pid = r.pid) (hx : ∀ r, (f r).xstate = r.xstate)
    (hst : (f (s.proc p)).state = (s.proc p).state ∨
      (f (s.proc p)).state.up = true ∧ (s.proc p).state.up = true) : History (s.put p f) := by
  refine h.of_state (t := s.put p f) rfl (fun _ => rfl) rfl rfl rfl ?_
  intro x
  by_cases hxp : x = p
  · subst hxp
    simp only [Sys.put_proc,update_self]
    exact ⟨hpar _,hpid _,hx _,hst.imp_right (And.imp_right .inl)⟩
  · simp [hxp]

lemma wakeupAt (me q : Slot) (o : Option Chan) : History (wakeupAt s me q o) := by
  unfold Process.wakeupAt
  split
  · rename_i hq
    exact h.become rfl (.inl (by rw [hq.2.1]; rfl))
  · exact h

lemma strike (he : (s.pc p).exiting = false) (q : Slot) (pid : Int32) :
    History (strike s p q pid) := by
  have hs : History { s.put q (fun r => { r with
      killed := true
      state := if r.state = .sleeping then .runnable else r.state }) with
      life := if (s.proc q).state = .unused then s.life
        else update s.life q ((s.life q).struck (.kill pid)) } := by
    refine h.of_state (t := { s.put q (fun r => { r with
      killed := true
      state := if r.state = .sleeping then .runnable else r.state }) with
      life := if (s.proc q).state = .unused then s.life
        else update s.life q ((s.life q).struck (.kill pid)) }) rfl ?_ rfl rfl rfl ?_
    · intro x
      by_cases hu : (s.proc q).state = .unused
      · simp [hu]
      · by_cases hx : x = q <;> simp [hu,hx]
    · intro x
      by_cases hx : x = q
      · by_cases hq : (s.proc q).state = .sleeping <;> simp [hx,hq,PState.up]
      · simp [hx]
  exact hs.leave he _

lemma alloc {j : ℕ} (hfam : Family s) (hp : (s.proc p).state = .running)
    (hc : s.pc p = .forkScan j) (hn : (s.proc q).state = .unused) :
    History (allocproc s p q true) := by
  have hup : ∀ x, (s.proc x).state.up = true → x ≠ q := by
    rintro x hx rfl
    rw [hn] at hx
    cases hx
  have hpq : p ≠ q := hup p (by rw [hp]; rfl)
  have hlife : ∀ x, x ≠ q → (allocproc s p q true).life x = s.life x := by
    intro x hx
    simp [allocproc,hx]
  have hproc : ∀ x, x ≠ q → (allocproc s p q true).proc x = s.proc x := by
    intro x hx
    simp [allocproc,hx]
  have hid : ((allocproc s p q true).life q).id = s.births := by simp [allocproc]
  have hcr : ∀ i, i < s.births → (allocproc s p q true).creator i = s.creator i := by
    intro i hi
    simp [allocproc,hi.ne]
  have hinit : initproc ≠ q := hup _ hfam.init.1
  constructor
  case fresh =>
    intro x hx
    by_cases hxq : x = q
    · rw [hxq,hid]
      exact Nat.lt_succ_self _
    · rw [hlife x hxq]
      rw [hproc x hxq] at hx
      exact (h.fresh x hx).trans (Nat.lt_succ_self _)
  case unique =>
    intro x y hx hy hxy
    by_cases hxq : x = q
    · by_cases hyq : y = q
      · rw [hxq,hyq]
      · rw [hproc y hyq] at hy
        rw [hxq,hid,hlife y hyq] at hxy
        exact absurd (h.fresh y hy) (by omega)
    · rw [hproc x hxq] at hx
      by_cases hyq : y = q
      · rw [hyq,hid,hlife x hxq] at hxy
        exact absurd (h.fresh x hx) (by omega)
      · rw [hproc y hyq] at hy
        rw [hlife x hxq,hlife y hyq] at hxy
        exact h.unique x y hx hy hxy
  case old =>
    intro r hr
    exact (h.old r hr).trans (Nat.lt_succ_self _)
  case living =>
    intro x hx hz r hr
    by_cases hxq : x = q
    · rw [hxq,hid]
      exact (h.old r hr).ne
    · rw [hlife x hxq]
      rw [hproc x hxq] at hx hz
      exact h.living x hx hz r hr
  case zombies =>
    intro x hx
    by_cases hxq : x = q
    · simp [hxq,allocproc] at hx
    · rw [hlife x hxq,hproc x hxq]
      rw [hproc x hxq] at hx
      exact h.zombies x hx
  case unreaped =>
    intro x hx
    by_cases hxq : x = q
    · rw [hxq,hid]
      intro hmem
      obtain ⟨a,pid,st,hr⟩ := Sys.mem_reaped.mp hmem
      exact (h.old _ hr).ne rfl
    · rw [hlife x hxq]
      rw [hproc x hxq] at hx
      exact h.unreaped x hx
  case once => exact h.once
  case reaps =>
    intro a i pid st hr
    unfold Sys.Heir
    rw [hcr i (h.old _ hr),hlife initproc hinit]
    exact h.reaps a i pid st hr
  case forked =>
    intro x np pid hx
    by_cases hxp : x = p
    · obtain ⟨rfl,-⟩ : q = np ∧ _ := by simpa [hxp,allocproc] using hx
      rw [hid,hlife x (hxp ▸ hpq),hxp]
      simp [allocproc]
    · have hxs : s.pc x = .forkLink np pid := by simpa [hxp,allocproc] using hx
      have hused := hfam.used (.inl hxs)
      have hnq : np ≠ q := by
        rintro rfl
        rw [hn] at hused
        cases hused
      have hxq : x ≠ q := hup x ((hfam.up x).mp (by rw [hxs]; simp))
      rw [hlife np hnq,hlife x hxq,hcr _ (h.fresh np (by rw [hused]; simp))]
      exact h.forked x np pid hxs
  case parents =>
    intro x y hx
    have hxq : x ≠ q := by
      rintro rfl
      have : (s.proc x).parent = some y := by simpa [allocproc] using hx
      rw [hfam.unused x hn] at this
      cases this
    rw [hproc x hxq] at hx
    have hxu : (s.proc x).state ≠ .unused := by
      intro hu
      rw [hfam.unused x hu] at hx
      cases hx
    rw [hlife x hxq,hlife y (hup y (hfam.alive x y hx)),hcr _ (h.fresh x hxu)]
    refine (h.parents x y hx).imp_right (And.imp_right (Or.imp_right ?_))
    rintro ⟨r,hr,hre⟩
    have hrq : r ≠ q := hup r ((hfam.up r).mp (by rintro hd; rw [hd] at hre; cases hre))
    have hrp : r ≠ p := by
      rintro rfl
      rw [hc] at hre
      cases hre
    exact ⟨r,by rw [hlife r hrq,hr],by simpa [allocproc,hrp] using hre⟩

/-- A new `parent` that is entitled to reap. -/
lemma relink {y : Slot} (hq : (s.life q).id = s.creator (s.life y).id ∨
    q = initproc ∧ (s.Exited (s.creator (s.life y).id) ∨
      ∃ r, (s.life r).id = s.creator (s.life y).id ∧ (s.pc r).exiting = true)) :
    History (s.put y fun r => { r with parent := some q }) := by
  have hproc : ∀ x, ((s.put y fun r => { r with parent := some q }).proc x).state =
      (s.proc x).state ∧ ((s.put y fun r => { r with parent := some q }).proc x).pid =
      (s.proc x).pid ∧ ((s.put y fun r => { r with parent := some q }).proc x).xstate =
      (s.proc x).xstate := by
    intro x
    by_cases hx : x = y <;> simp [hx]
  refine h.of_log (fun _ => rfl) rfl rfl (append_nil _).symm ?_ (by simp) ?_ (by simp)
    (by simpa using h.once) (by simp) (fun _ _ _ hx => hx) ?_
  · intro x hx
    rw [(hproc x).1] at hx ⊢
    exact ⟨hx,fun hxz => hxz⟩
  · intro x hx
    rw [(hproc x).1] at hx
    rw [append_nil,(hproc x).2.1,(hproc x).2.2]
    exact h.zombies x hx
  · intro x z hx
    by_cases hxy : x = y
    · subst hxy
      obtain rfl : q = z := by simpa using hx
      exact hq
    · exact h.parents x z (by simpa [hxy] using hx)

/-- A process exits. Whoever it has left to `initproc` may now be reaped there. -/
lemma zombie {st : Int32} (hp : (s.proc p).state = .running) :
    History ((((s.put p fun q => { q with xstate := st, state := .zombie }).release).record
      (.exit (s.life p).id (s.proc p).pid st)).goto p .dead) := by
  generalize ht : (((s.put p fun q => { q with xstate := st, state := .zombie }).release).record
      (.exit (s.life p).id (s.proc p).pid st)).goto p .dead = t
  have hself : t.proc p = { s.proc p with xstate := st, state := .zombie } := by
    rw [←ht]
    exact update_self _ _ _
  have hother : ∀ x, x ≠ p → t.proc x = s.proc x := by
    intro x hx
    rw [←ht]
    exact update_of_ne hx _ _
  have hl : t.log = s.log++[.exit (s.life p).id (s.proc p).pid st] := by rw [←ht]; rfl
  have hpu : (s.proc p).state ≠ .unused := by simp [hp]
  have hne : ∀ x, (t.proc x).state ≠ .zombie → x ≠ p := by
    rintro x hx rfl
    rw [hself] at hx
    exact hx rfl
  refine h.of_log (fun _ => by rw [←ht]; rfl) (by rw [←ht]; rfl) (by rw [←ht]; rfl) hl ?_ ?_ ?_
    (by simp [Record.reaped?])
    ((append_nil _).symm ▸ h.once) (by simp) ?_ ?_
  · intro x hx
    by_cases hxp : x = p
    · rw [hxp]
      exact ⟨hpu,fun hz => absurd rfl (hne p hz)⟩
    · rw [hother x hxp] at hx ⊢
      exact ⟨hx,fun hz => hz⟩
  · refine forall_mem_singleton.mpr ⟨h.fresh p hpu,fun x hx hz he => hne x hz ?_⟩
    rw [hother x (hne x hz)] at hx
    exact (h.unique p x hpu hx he).symm
  · intro x hx
    rw [mem_append,mem_singleton]
    by_cases hxp : x = p
    · right
      rw [hxp,hself]
    · left
      rw [hother x hxp] at hx ⊢
      exact h.zombies x hx
  · intro x np pid hx
    by_cases hxp : x = p
    · simp [←ht,hxp] at hx
    · simpa [←ht,hxp] using hx
  · intro x y hx
    have hpar : (s.proc x).parent = some y := by
      by_cases hxp : x = p
      · rw [hxp,hself] at hx
        rw [hxp]
        exact hx
      · rwa [hother x hxp] at hx
    refine (h.parents x y hpar).imp_right (And.imp_right ?_)
    rintro (he | ⟨r,hr,hre⟩)
    · exact .inl (he.of_log hl)
    · by_cases hrp : r = p
      · left
        rw [←hr,hrp]
        exact ⟨(s.proc p).pid,st,by simp [hl]⟩
      · right
        exact ⟨r,hr,by simpa [←ht,hrp] using hre⟩

lemma reap {a : UInt64} {j : ℕ} {k : Bool} (hfam : Family s)
    (hp : (s.proc p).state = .running) (hc : s.pc p = .waitScan a j k)
    (hpar : (s.proc q).parent = some p) (hz : (s.proc q).state = .zombie) (v : Ret) :
    History ((((s.record (.reap (s.life p).id (s.life q).id (s.proc q).pid
      (s.proc q).xstate)).put q freeproc).release).leave p v) := by
  generalize ht : (((s.record (.reap (s.life p).id (s.life q).id (s.proc q).pid
      (s.proc q).xstate)).put q freeproc).release).leave p v = t
  have hself : t.proc q = freeproc (s.proc q) := by
    rw [←ht]
    exact update_self _ _ _
  have hother : ∀ x, x ≠ q → t.proc x = s.proc x := by
    intro x hx
    rw [←ht]
    exact update_of_ne hx _ _
  have hl : t.log = s.log++[.reap (s.life p).id (s.life q).id (s.proc q).pid
      (s.proc q).xstate] := by rw [←ht]; rfl
  have hqu : (s.proc q).state ≠ .unused := by simp [hz]
  have hne : ∀ x, (t.proc x).state ≠ .unused → x ≠ q := by
    rintro x hx rfl
    rw [hself] at hx
    exact hx rfl
  -- the creator of a child of `initproc` is no longer in exit: this process has the lock
  have hheir : s.Heir (s.life p).id (s.life q).id := by
    obtain he | ⟨rfl,he | ⟨r,-,hr⟩⟩ := h.parents q p hpar
    · exact .inl he
    · exact .inr ⟨rfl,he⟩
    · have hlock : s.waitLock = some initproc := (hfam.lock _).mp (by rw [hc]; rfl)
      have hrp : r ≠ initproc := by
        rintro rfl
        rw [hc] at hr
        cases hr
      have := hfam.unlocked (.inr hlock) hrp
      rw [Pc.locked_of_exiting hr] at this
      cases this
  refine h.of_log (fun _ => by rw [←ht]; rfl) (by rw [←ht]; rfl) (by rw [←ht]; rfl) hl ?_ ?_ ?_ ?_ ?_
    ?_ ?_ ?_
  · intro x hx
    have hs := hother x (hne x hx)
    rw [hs] at hx ⊢
    exact ⟨hx,fun hxz => hxz⟩
  · refine forall_mem_singleton.mpr ⟨h.fresh q hqu,fun x hx _ he => hne x hx ?_⟩
    rw [hother x (hne x hx)] at hx
    exact (h.unique q x hqu hx he).symm
  · intro x hx
    have hs := hother x (hne x (by rw [hx]; simp))
    rw [hs] at hx ⊢
    exact mem_append_left _ (h.zombies x hx)
  · intro x hx he
    refine hne x hx ?_
    rw [hother x (hne x hx)] at hx
    exact h.unique x q hx hqu (mem_singleton.mp he)
  · refine nodup_append.mpr ⟨h.once,nodup_singleton _,fun i hi j hj he => ?_⟩
    rw [he,mem_singleton.mp hj] at hi
    exact h.unreaped q hqu hi
  · intro b i pid st hr
    obtain ⟨rfl,rfl,rfl,rfl⟩ : _ ∧ _ ∧ _ ∧ _ := by simpa using hr
    exact ⟨h.zombies q hz,hheir⟩
  · intro x np pid hx
    by_cases hxp : x = p
    · simp [←ht,hxp] at hx
    · simpa [←ht,hxp] using hx
  · intro x y hx
    have hxq : x ≠ q := by
      rintro rfl
      rw [hself] at hx
      cases hx
    rw [hother x hxq] at hx
    refine (h.parents x y hx).imp_right (And.imp_right (Or.imp (.of_log hl) ?_))
    rintro ⟨r,hr,hre⟩
    have hrp : r ≠ p := by
      rintro rfl
      rw [hc] at hre
      cases hre
    exact ⟨r,hr,by simpa [←ht,hrp] using hre⟩

lemma ran {ok : Bool} (hfam : Family s) (hp : (s.proc p).state = .running) (ht : Ran s p ok t) :
    History t := by
  cases ht with
  | unblocked hc | woken hc =>
    exact goto (put h (fun _ => rfl) (fun _ => rfl) (fun _ => rfl) (.inl rfl)) (by simp)
      (by simp [hc,Pc.exiting])
  | forkNext hc | child hc | notChild hc | scanned hc | waitSleep hc
  | killNext hc => exact h.goto (by simp) (by simp [hc,Pc.exiting])
  | reparentNext hc | reparentDone hc | wakeInitDone hc | wakeParentDone hc =>
    exact h.goto (by simp) (fun _ => rfl)
  | forkFull hc | killNone hc => exact h.leave (by rw [hc]; rfl) _
  | alloc hc hn => exact h.alloc hfam hp hc hn
  | @allocFail np j hc hn =>
    have hs : History { s.put np freeproc with nextpid := s.nextpid+1 } := by
      refine h.of_same (t := { s.put np freeproc with nextpid := s.nextpid+1 }) ?_ ?_ ?_ ?_
        (fun _ => rfl) rfl rfl rfl (fun _ _ _ hx => hx) (fun _ hx => hx) <;>
        intro x <;> by_cases hx : x = np <;> simp [hx,freeproc,hn,hfam.unused np hn]
    exact hs.leave (by simp [hc,Pc.exiting]) _
  | @link np pid hc hl =>
    exact goto (h.relink (.inl (h.forked p np pid hc).symm)) (by simp) (by simp [hc,Pc.exiting])
  | @start np pid hc =>
    have hne : np ≠ p := by
      rintro rfl
      have := hfam.used (.inr hc)
      rw [hp] at this
      cases this
    have hd : (s.pc np).exiting = false := by
      have : s.pc np = .dead := by
        by_contra hx
        have := (hfam.up np).mp hx
        rw [hfam.used (.inr hc)] at this
        cases this
      rw [this]
      rfl
    refine leave (goto (h.become rfl (.inr (hfam.used (.inr hc)))) (by simp) (by simp [hd])) ?_ _
    simp [Ne.symm hne,hc,Pc.exiting]
  | exitLock hc hl | waitLock hc hl =>
    exact (h.acquire _).goto (by simp) (by simp [hc,Pc.exiting])
  | @adopt pp st hc hpp =>
    refine goto (h.relink (.inr ⟨rfl,.inr ⟨p,?_,by rw [hc]; rfl⟩⟩)) (by simp) (fun _ => rfl)
    exact (h.parents pp p hpp).resolve_right fun hx => (hfam.at_pc hc).1 hx.1
  | wakeInit hc | wakeParent hc => exact (h.wakeupAt _ _ _).goto (by simp) (fun _ => rfl)
  | zombie hc => exact h.zombie hp
  | copyoutFail hc | waitFail hc => exact h.release.leave (by simp [hc,Pc.exiting]) _
  | reap hc hpp hz => exact h.reap hfam hp hc hpp hz _
  | sleep hc =>
    exact goto (release (put h (fun _ => rfl) (fun _ => rfl) (fun _ => rfl)
      (.inr ⟨rfl,by rw [hp]; rfl⟩))) (by simp) (by simp [hc,Pc.exiting])
  | killHit hc hq => exact h.strike (by rw [hc]; rfl) _ _

lemma trans {e : Event} (hfam : Family s) (ht : Trans s e t) : History t := by
  cases ht with
  | schedule hp | yield hp hl | wakeup hp => exact h.become rfl (.inl (by rw [hp]; rfl))
  | @call e p c hp hu hc hi =>
    refine h.goto ?_ (by simp [hu,Pc.exiting])
    rintro np a rfl
    cases hc
  | @fault p hp =>
    refine h.of_state (t := { s.put p (fun q => { q with killed := true }) with
      life := update s.life p ((s.life p).struck .fault) }) rfl ?_ rfl rfl rfl ?_ <;>
      intro x <;> by_cases hx : x = p <;> simp [hx]
  | sleepOn hp hu =>
    exact goto (put h (fun _ => rfl) (fun _ => rfl) (fun _ => rfl)
      (.inr ⟨rfl,by rw [hp]; rfl⟩)) (by simp) (by simp [hu,Pc.exiting])
  | run hp ht => exact h.ran hfam hp ht

end History

lemma family_boot : Family boot where
  lock p := by
    by_cases hp : p = initproc <;> simp [boot,hp,Pc.locked]
  up p := by
    by_cases hp : p = initproc <;> simp [boot,hp,PState.up]
  rest p := by
    by_cases hp : p = initproc <;> simp [Sys.Rest,boot,hp]
  position p := by
    by_cases hp : p = initproc <;> simp [boot,hp,Sys.At]
  linkers p q np a b hp := by
    by_cases hi : p = initproc <;> simp [boot,hi] at hp
  init := by simp [boot,PState.up]
  unused p _ := by
    by_cases hp : p = initproc <;> simp [boot,hp]
  parents p hi h := by simp [boot,hi,PState.up] at h
  alive p q h := by
    by_cases hp : p = initproc <;> simp [boot,hp] at h
  sleepers p c _ h := by
    by_cases hp : c = initproc <;> simp [boot,hp] at h

lemma history_boot : History boot where
  fresh _ _ := by simp [boot]
  unique p q hp hq _ := by
    have hi : ∀ x, (boot.proc x).state ≠ .unused → x = initproc := by
      intro x hx
      by_contra hne
      simp [boot,hne] at hx
    rw [hi p hp,hi q hq]
  old := by simp [boot]
  living := by simp [boot]
  zombies p h := by
    by_cases hp : p = initproc <;> simp [boot,hp] at h
  unreaped := by simp [boot,Sys.reaped]
  once := by simp [boot,Sys.reaped]
  reaps := by simp [boot]
  forked p np a h := by
    by_cases hp : p = initproc <;> simp [boot,hp] at h
  parents p q h := by
    by_cases hp : p = initproc <;> simp [boot,hp] at h

lemma family_runs {C : Sys → Event → Prop} {s : Sys} {es : List Event}
    (h : Runs step C boot es s) : Family s ∧ History s :=
  h.invariant_and (fun _ _ _ hs _ ht => hs.trans (step_trans ht))
    (fun _ _ _ hf hh _ ht => hh.trans hf (step_trans ht)) ⟨family_boot,history_boot⟩

/-- The reasons for a `wait` of process `p` to return `-1`: no children, `killed`, or a failed
`copyout`, which leaves the zombie in place. -/
def WaitFailed (s t : Sys) (p : Slot) (ok : Bool) : Prop :=
  (∀ c, (s.proc c).parent ≠ some p) ∨ (s.proc p).killed = true ∨
    ∃ (z : Slot) (addr : _) (k : _), s.pc p = .waitScan addr z k ∧ addr ≠ 0 ∧ ok = false ∧
      t.proc z = s.proc z ∧ (t.proc z).state = .zombie ∧ (t.proc z).parent = some p

/-- `wait` of process `p` returns the pid of a zombie child. -/
def Reaps (s t : Sys) (p : Slot) (n : Int32) : Prop :=
  ∃ z, (s.proc z).parent = some p ∧ (s.proc z).state = .zombie ∧ (s.proc z).pid = n ∧
    t.log = s.log++[.reap (s.life p).id (s.life z).id n (s.proc z).xstate]

lemma wait_returns {s t : Sys} {p : Slot} {ok : Bool} (hf : Family s)
    (ht : Ran s p ok t) (hw : (s.pc p).inWait = true) (hu : t.pc p = .user) :
    (t.ret p = .fail → WaitFailed s t p ok) ∧ ∀ n, t.ret p = .val n → Reaps s t p n := by
  cases ht with
  | copyoutFail hc hpp hz ha hok =>
    refine ⟨fun _ => .inr (.inr ⟨_,_,_,hc,ha,hok,rfl,hz,hpp⟩),?_⟩
    simp
  | @reap z a k hc hpp hz =>
    refine ⟨by simp,?_⟩
    intro n hn
    obtain rfl : (s.proc z).pid = n := by simpa using hn
    exact ⟨z,hpp,hz,rfl,rfl⟩
  | @waitFail a k hc hk =>
    refine ⟨fun _ => ?_,by simp⟩
    obtain rfl | hk := hk
    · exact .inl fun c hcp => Bool.false_ne_true (hf.at_pc hc c hcp).2
    · exact .inr (.inl hk)
  | _ => simp_all [Pc.inWait]

lemma PState.up_or_zombie {st : PState} (h : st ∈ [PState.sleeping,.runnable,.running,.zombie]) :
    st.up = true ∨ st = .zombie := by
  cases st <;> simp [PState.up] at h ⊢

/-- The parent/child protocol. The first and the last clause are about the states in which
`wait_lock` is free; those about `wait` are about each of its returns. -/
theorem parent_child_protocol {es : List Event} {s : Sys}
    (h : Runs step (fun _ _ => True) boot es s) :
    (s.waitLock = none → ∀ p, p ≠ initproc →
      (s.proc p).state ∈ [PState.sleeping,.runnable,.running,.zombie] →
        ∃ q, (s.proc p).parent = some q ∧ (s.proc q).state ≠ .unused ∧
          (s.proc q).state ≠ .zombie) ∧
    s.reaped.Nodup ∧
    (∀ a i pid st, .reap a i pid st ∈ s.log → .exit i pid st ∈ s.log ∧ s.Heir a i) ∧
    (s.waitLock = none → ∀ p addr, s.pc p = .waitAsleep addr → (s.proc p).state = .sleeping →
      ∀ c, (s.proc c).parent = some p → (s.proc c).state ≠ .zombie) ∧
    ∀ p ok t, step s (.run p ok) = some t → (s.pc p).inWait = true → t.pc p = .user →
      (t.ret p = .fail → WaitFailed s t p ok) ∧ ∀ n, t.ret p = .val n → Reaps s t p n := by
  obtain ⟨hf,hh⟩ := family_runs h
  refine ⟨?_,hh.once,hh.reaps,?_,?_⟩
  · intro _ p hp hst
    obtain ⟨q,hq⟩ := Option.ne_none_iff_exists'.mp (hf.parents p hp (PState.up_or_zombie hst))
    have hup := hf.alive p q hq
    refine ⟨q,hq,?_,?_⟩ <;> intro hs <;> rw [hs] at hup <;> cases hup
  · intro hl p addr hp hs c hc hz
    exact hf.not_called (p := p) (.inl hl) (by simp [hp]) (hf.sleepers p c ⟨hs,addr,hp⟩ hc hz).2
  · intro p ok t ht hw hu
    exact wait_returns hf (step_ran ht) hw hu

/-- `initproc` forks one child and goes to sleep in `wait`; the child exits with status 7 and is
reaped. -/
def oneChild : List Event :=
  let child : Slot := ⟨1,one_lt_NPROC⟩
  [Event.schedule initproc,.fork initproc]++List.replicate 4 (Event.run initproc true)++
    [Event.wait initproc 0]++List.replicate 68 (Event.run initproc true)++
    [Event.schedule child,.exit child 7]++List.replicate 132 (Event.run child true)++
    [Event.schedule initproc]++List.replicate 4 (Event.run initproc true)

theorem parent_child_protocol_oneChild : ∃ s, Runs step (fun _ _ => True) boot oneChild s ∧
    s.log = [.exit 1 2 7,.reap 0 1 2 7] ∧ s.waitLock = none ∧ s.reaped.Nodup := by
  obtain ⟨s,h,hl,hw⟩ := Runs.exists_of_execIf step (fun _ _ => True) boot oneChild
    (fun s => s.log = [.exit 1 2 7,.reap 0 1 2 7] ∧ s.waitLock = none) (by decide +kernel)
  exact ⟨s,h,hl,hw,(parent_child_protocol h).2.1⟩

end Xv6.Process
