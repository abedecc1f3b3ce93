import Xv6.Proc.Table

/-! Parents and children. Everything that changes a `parent` field or turns a process into a
zombie does so under `wait_lock`, and a process that goes to sleep in `wait` has seen, under the
same lock, that it has no zombie child. -/
namespace Xv6.Process
open Xv6.Lib
open Function (update update_comm update_self update_apply update_of_ne update_eq_self)

/-- A process that can run, run again or is running. -/
def PState.up : PState → Bool
  | sleeping | runnable | running => true
  | _ => false

/-- Process `p` is SLEEPING in `wait`. -/
def Sys.AsleepInWait (s : Sys) (p : Slot) : Prop :=
  (s.proc p).state = .sleeping ∧ ∃ a, s.pc p = .waitAsleep a

/-- What a process knows at each position of its code. -/
def Sys.At (s : Sys) (p : Slot) : Pc → Prop
  | .forkLink np _ => (s.proc np).state = .used ∧ (s.proc np).parent = none
  | .forkRun np _ => (s.proc np).state = .used ∧ (s.proc np).parent = some p
  | .exitLock _ => p ≠ initproc
  | .reparent _ j => p ≠ initproc ∧ ∀ c : Slot, c.val < j → (s.proc c).parent ≠ some p
  | .reparentWake _ j _ => p ≠ initproc ∧ ∀ c : Slot, c.val < j+1 → (s.proc c).parent ≠ some p
  | .exitWake _ m => p ≠ initproc ∧ (∀ c, (s.proc c).parent ≠ some p) ∧
      ∀ q : Slot, q.val < m → (s.proc p).parent = some q → ¬s.AsleepInWait q
  | .exitZombie _ => p ≠ initproc ∧ (∀ c, (s.proc c).parent ≠ some p) ∧
      ∀ q, (s.proc p).parent = some q → ¬s.AsleepInWait q
  | .waitScan _ j k => ∀ c : Slot, c.val < j → (s.proc c).parent = some p →
      (s.proc c).state ≠ .zombie ∧ k = true
  | .waitTest _ k => ∀ c, (s.proc c).parent = some p → (s.proc c).state ≠ .zombie ∧ k = true
  | .waitSleep _ => ∀ c, (s.proc c).parent = some p → (s.proc c).state ≠ .zombie
  | _ => True

/-- A sleeper is inside `sleep` and `p->chan` is the channel it passed. -/
def Sys.Rest (s : Sys) (p : Slot) : Prop :=
  (s.proc p).state = .sleeping → match s.pc p with
    | .waitAsleep _ => (s.proc p).chan = some (.proc p)
    | .blocked n => (s.proc p).chan = some (.other n)
    | _ => False

/-- Somebody under `wait_lock` is about to wake up `initproc`. -/
def Sys.InitCalled (s : Sys) : Prop :=
  ∃ r st j m, s.pc r = .reparentWake st j m ∧ m ≤ initproc.val

structure Family (s : Sys) : Prop where
  lock : ∀ p, (s.pc p).locked = true ↔ s.waitLock = some p
  up : ∀ p, s.pc p ≠ .dead ↔ (s.proc p).state.up = true
  rest : ∀ p, s.Rest p
  position : ∀ p, s.At p (s.pc p)
  linkers : ∀ p q np a b, s.pc p = .forkLink np a → s.pc q = .forkLink np b → p = q
  init : (s.proc initproc).state.up = true ∧ (s.proc initproc).parent = none
  unused : ∀ p, (s.proc p).state = .unused → (s.proc p).parent = none
  parents : ∀ p, p ≠ initproc → (s.proc p).state.up = true ∨ (s.proc p).state = .zombie →
    (s.proc p).parent ≠ none
  alive : ∀ p q, (s.proc p).parent = some q → (s.proc q).state.up = true
  sleepers : ∀ p c, s.AsleepInWait p → (s.proc c).parent = some p → (s.proc c).state = .zombie →
    p = initproc ∧ s.InitCalled

namespace Sys.At
variable {s t : Sys} {r : Slot} {c : Pc}

/-- What a process knows survives what others do to the table, as long as they leave `parent`
alone, make no zombie and put nobody to sleep in `wait`. -/
lemma keep (h : s.At r c) (hpar : ∀ x, (t.proc x).parent = (s.proc x).parent)
    (hz : ∀ x, (t.proc x).state = .zombie → (s.proc x).state = .zombie)
    (hs : ∀ x, t.AsleepInWait x → s.AsleepInWait x)
    (hu : ∀ x a, c = .forkLink x a ∨ c = .forkRun x a → (t.proc x).state = .used) :
    t.At r c := by
  cases c with
  | forkLink np a => exact ⟨hu np a (.inl rfl),by rw [hpar,h.2]⟩
  | forkRun np a => exact ⟨hu np a (.inr rfl),by rw [hpar,h.2]⟩
  | reparent st j | reparentWake st j m => simpa only [Sys.At,hpar] using h
  | exitWake st m =>
    simp only [Sys.At,hpar] at h ⊢
    exact ⟨h.1,h.2.1,fun q hq hp => mt (hs q) (h.2.2 q hq hp)⟩
  | exitZombie st =>
    simp only [Sys.At,hpar] at h ⊢
    exact ⟨h.1,h.2.1,fun q hp => mt (hs q) (h.2.2 q hp)⟩
  | waitScan a j k =>
    simp only [Sys.At,hpar] at h ⊢
    exact fun x hx hp => ⟨mt (hz x) (h x hx hp).1,(h x hx hp).2⟩
  | waitTest a k =>
    simp only [Sys.At,hpar] at h ⊢
    exact fun x hp => ⟨mt (hz x) (h x hp).1,(h x hp).2⟩
  | waitSleep a =>
    simp only [Sys.At,hpar] at h ⊢
    exact fun x hp => mt (hz x) (h x hp)
  | exitLock st => exact h
  | dead | user | blocked | forkScan | waitLock | waitAsleep | killScan => trivial

lemma unlocked (h : s.At r c) (hc : c.locked = false)
    (hu : ∀ x a, c = .forkLink x a ∨ c = .forkRun x a →
      (t.proc x).state = (s.proc x).state ∧ (t.proc x).parent = (s.proc x).parent) : t.At r c := by
  cases c with
  | forkLink np a =>
    obtain ⟨h₁,h₂⟩ := hu np a (.inl rfl)
    simpa only [Sys.At,h₁,h₂] using h
  | forkRun np a =>
    obtain ⟨h₁,h₂⟩ := hu np a (.inr rfl)
    simpa only [Sys.At,h₁,h₂] using h
  | exitLock st => exact h
  | dead | user | blocked | forkScan | waitLock | waitAsleep | killScan => trivial
  | reparent | reparentWake | exitWake | exitZombie | waitScan | waitTest | waitSleep => cases hc

end Sys.At

/-- On its way to `c` process `p` leaves `wait_lock` as it is, gives it back or takes it. -/
def Sys.Locks (s t : Sys) (p : Slot) (c : Pc) : Prop :=
  t.waitLock = s.waitLock ∧ c.locked = (s.pc p).locked ∨
    t.waitLock = none ∧ c.locked = false ∧ (s.pc p).locked = true ∨
    t.waitLock = some p ∧ c.locked = true ∧ s.waitLock = none

namespace Family
variable {s t : Sys} {p q r y : Slot} {c : Pc} {P : Proc}

lemma at_pc (h : Family s) (hc : s.pc p = c) : s.At p c := hc ▸ h.position p

lemma ne_of_state {a b : PState} (hp : (s.proc p).state = a) (hq : (s.proc q).state = b)
    (hab : a ≠ b) : p ≠ q := by
  rintro rfl
  exact hab (hp.symm.trans hq)

lemma not_asleep (hp : (s.proc p).state = .running) : ¬s.AsleepInWait p :=
  fun h => ne_of_state hp h.1 nofun rfl

lemma unlocked (h : Family s) (hl : s.waitLock = none ∨ s.waitLock = some p) (hq : q ≠ p) :
    (s.pc q).locked = false := by
  by_contra hc
  have hw := (h.lock q).mp (by simpa using hc)
  obtain hl | hl := hl
  · rw [hl] at hw
    cases hw
  · rw [hl] at hw
    exact hq (Option.some_inj.mp hw).symm

lemma used {np : Slot} {a : Int32} (h : Family s)
    (hq : s.pc q = .forkLink np a ∨ s.pc q = .forkRun np a) : (s.proc np).state = .used := by
  have := h.position q
  obtain hq | hq := hq <;> rw [hq] at this <;> exact this.1

/-- Only the holder of `wait_lock` can be waking up `initproc`. -/
lemma not_called (h : Family s) (hl : s.waitLock = none ∨ s.waitLock = some p)
    (hc : ∀ st j m, s.pc p ≠ .reparentWake st j m) : ¬s.InitCalled := by
  rintro ⟨r,st,j,m,hr,-⟩
  have := h.unlocked (q := r) hl (by rintro rfl; exact hc st j m hr)
  rw [hr] at this
  cases this

lemma locks (h : Family s) (hpc : t.pc = update s.pc p c) (hl : s.Locks t p c) (x : Slot) :
    (t.pc x).locked = true ↔ t.waitLock = some x := by
  have hx := h.lock x
  have hp := h.lock p
  rw [hpc,update_apply]
  unfold Sys.Locks at hl
  split <;> grind

lemma asleep_of (hpc : t.pc = update s.pc p c)
    (hproc : t.proc = update s.proc y P)
    (hx : t.AsleepInWait r) (hs : r = p ∨ r = y → s.AsleepInWait r) : s.AsleepInWait r := by
  by_cases hpy : r = p ∨ r = y
  · exact hs hpy
  · rw [not_or] at hpy
    simpa only [Sys.AsleepInWait,hpc,hproc,update_of_ne hpy.1,
      update_of_ne hpy.2] using hx

section
variable (h : Family s)
include h

/-! Process `p` goes on to `c` and the slot `y` gets the contents `P`. -/
section
variable (hpc : t.pc = update s.pc p c) (hproc : t.proc = update s.proc y P) (hl : s.Locks t p c)
  (hd : ∀ x, x = p ∨ x = y → (t.pc x ≠ .dead ↔ (t.proc x).state.up = true))
  (hr : ∀ x, x = p ∨ x = y → t.Rest x)
include hpc hproc hl hd hr

lemma change (hat : t.At p c) (hats : ∀ x, x ≠ p → t.At x (s.pc x))
    (hf : ∀ np a, c = .forkLink np a → ∀ x, x ≠ p → ∀ b, s.pc x ≠ .forkLink np b)
    (hi : y = initproc → P.state.up = true ∧ P.parent = none)
    (hu : P.state = .unused → P.parent = none)
    (hpar : y ≠ initproc → P.state.up = true ∨ P.state = .zombie → P.parent ≠ none)
    (ha : ∀ q, P.parent = some q → (t.proc q).state.up = true)
    (hay : ∀ x, x ≠ y → (s.proc x).parent = some y → P.state.up = true)
    (hs : ∀ x k, t.AsleepInWait x → (t.proc k).parent = some x → (t.proc k).state = .zombie →
      x = initproc ∧ t.InitCalled) : Family t := by
  have hself : t.proc y = P := by rw [hproc,update_self]
  have hother : ∀ x, x ≠ y → t.proc x = s.proc x := by
    intro x hx
    rw [hproc,update_of_ne hx]
  have hpself : t.pc p = c := by rw [hpc,update_self]
  have hpother : ∀ x, x ≠ p → t.pc x = s.pc x := by
    intro x hx
    rw [hpc,update_of_ne hx]
  -- a fact about the slot `y` and one about every other
  have hall : ∀ {φ : Slot → Proc → Prop}, φ y P → (∀ x, x ≠ y → φ x (s.proc x)) →
      ∀ x, φ x (t.proc x) := by
    intro φ hy ho x
    by_cases hx : x = y
    · rw [hx,hself]
      exact hy
    · rw [hother x hx]
      exact ho x hx
  constructor
  case lock => exact h.locks hpc hl
  case up =>
    intro x
    by_cases hx : x = p ∨ x = y
    · exact hd x hx
    · rw [not_or] at hx
      rw [hpother x hx.1,hother x hx.2]
      exact h.up x
  case rest =>
    intro x
    by_cases hx : x = p ∨ x = y
    · exact hr x hx
    · rw [not_or] at hx
      unfold Sys.Rest
      rw [hpother x hx.1,hother x hx.2]
      exact h.rest x
  case position =>
    intro x
    by_cases hx : x = p
    · rw [hx,hpself]
      exact hat
    · rw [hpother x hx]
      exact hats x hx
  case linkers =>
    intro x z np a b hx hz
    by_cases hxp : x = p
    · subst hxp
      by_contra hne
      rw [hpother z (Ne.symm hne)] at hz
      exact hf np a (hpself.symm.trans hx) z (Ne.symm hne) b hz
    · rw [hpother x hxp] at hx
      by_cases hzp : z = p
      · subst hzp
        exact absurd hx (hf np b (hpself.symm.trans hz) x hxp a)
      · exact h.linkers x z np a b hx (hpother z hzp ▸ hz)
  case init =>
    exact hall (φ := fun x Q => x = initproc → Q.state.up = true ∧ Q.parent = none) hi
      (fun x _ hx => hx ▸ h.init) initproc rfl
  case unused => exact hall (φ := fun _ Q => Q.state = .unused → Q.parent = none) hu fun x _ => h.unused x
  case parents =>
    exact hall (φ := fun x Q => x ≠ initproc → Q.state.up = true ∨ Q.state = .zombie →
      Q.parent ≠ none) hpar fun x _ => h.parents x
  case alive =>
    refine hall (φ := fun _ Q => ∀ q, Q.parent = some q → (t.proc q).state.up = true) ha ?_
    intro x hx q hq
    exact hall (φ := fun z Q => z = q → Q.state.up = true) (fun he => hay x hx (he ▸ hq))
      (fun z _ he => he ▸ h.alive x q hq) q rfl
  case sleepers => exact hs

lemma steady
    (hat : t.At p c ∨ s.At p c ∧ ((s.proc y).state = .used → P.state = .used))
    (hf : ∀ np a, c = .forkLink np a → ∀ x, x ≠ p → ∀ b, s.pc x ≠ .forkLink np b)
    (hpar : P.parent = (s.proc y).parent) (hz : P.state = .zombie → (s.proc y).state = .zombie)
    (hu : P.state = .unused → (s.proc y).state = .unused)
    (hup : (s.proc y).state.up = true → P.state.up = true)
    (hborn : P.state.up = true → (s.proc y).state.up = true ∨ (s.proc y).parent ≠ none)
    (hmade : (s.proc y).state = .used → P.state = .used ∨
      ∀ x a, s.pc x ≠ .forkLink y a ∧ s.pc x ≠ .forkRun y a)
    (hs : ∀ x, x = p ∨ x = y → t.AsleepInWait x → s.AsleepInWait x)
    (hw : s.InitCalled → s.AsleepInWait initproc → t.InitCalled) : Family t := by
  have hasleep : ∀ x, t.AsleepInWait x → s.AsleepInWait x :=
    fun x hx => asleep_of hpc hproc hx fun he => hs x he hx
  have hself : t.proc y = P := by rw [hproc,update_self]
  have hother : ∀ x, x ≠ y → t.proc x = s.proc x := by
    intro x hx
    rw [hproc,update_of_ne hx]
  have hpars : ∀ x, (t.proc x).parent = (s.proc x).parent := by
    intro x
    by_cases hx : x = y
    · rw [hx,hself,hpar]
    · rw [hother x hx]
  have hzs : ∀ x, (t.proc x).state = .zombie → (s.proc x).state = .zombie := by
    intro x
    by_cases hx : x = y
    · rw [hx,hself]
      exact hz
    · rw [hother x hx]
      exact id
  have hups : ∀ x, (s.proc x).state.up = true → (t.proc x).state.up = true := by
    intro x
    by_cases hx : x = y
    · rw [hx,hself]
      exact hup
    · rw [hother x hx]
      exact id
  refine h.change hpc hproc hl hd hr ?_ ?_ hf ?_ ?_ ?_ ?_ ?_ ?_
  · obtain hat | ⟨hat,hst⟩ := hat
    · exact hat
    · apply hat.keep hpars hzs hasleep
      intro z a hz
      have hz : (s.proc z).state = .used := by
        obtain rfl | rfl := hz <;> exact hat.1
      by_cases hzy : z = y
      · rw [hzy,hself]
        exact hst (hzy ▸ hz)
      · rw [hother z hzy,hz]
  · intro x _
    apply (h.position x).keep hpars hzs hasleep
    intro z a hxz
    by_cases hzy : z = y
    · subst hzy
      rw [hself]
      exact (hmade (h.used hxz)).resolve_right fun hp => not_or.mpr (hp x a) hxz
    · rw [hother z hzy,h.used hxz]
  · rintro rfl
    exact ⟨hup h.init.1,hpar.trans h.init.2⟩
  · intro hx
    rw [hpar]
    exact h.unused y (hu hx)
  · intro hi hx
    rw [hpar]
    obtain hx | hx := hx
    · exact (hborn hx).elim (fun hx => h.parents y hi (.inl hx)) id
    · exact h.parents y hi (.inr (hz hx))
  · intro q hq
    exact hups q (h.alive y q (hpar ▸ hq))
  · intro x _ hx
    exact hup (h.alive x y hx)
  · intro x k hx hk hz
    obtain ⟨rfl,hcall⟩ := h.sleepers x k (hasleep x hx) (hpars k ▸ hk) (hzs k hz)
    exact ⟨rfl,hw hcall (hasleep _ hx)⟩

/-- A step made under `wait_lock`, or at once while it is free, on a slot `y` that nobody else is
making. -/
lemma guarded (hold : s.waitLock = none ∨ s.waitLock = some p)
    (hcall : ∀ st j m, s.pc p ≠ .reparentWake st j m) (hat : t.At p c) (hf : ∀ np a, c ≠ .forkLink np a)
    (hmade : ∀ x a, x ≠ p → ¬(s.pc x = .forkLink y a ∨ s.pc x = .forkRun y a))
    (hi : y = initproc → P.state.up = true ∧ P.parent = none)
    (hu : P.state = .unused → P.parent = none)
    (hpar : y ≠ initproc → P.state.up = true ∨ P.state = .zombie → P.parent ≠ none)
    (ha : ∀ q, P.parent = some q → (t.proc q).state.up = true)
    (hay : ∀ x, x ≠ y → (s.proc x).parent = some y → P.state.up = true)
    (hs : ∀ x, x = p ∨ x = y → t.AsleepInWait x → s.AsleepInWait x ∨
      ∀ k, (t.proc k).parent = some x → (t.proc k).state ≠ .zombie)
    (hy : ∀ x, s.AsleepInWait x → P.parent = some x → P.state = .zombie →
      x = initproc ∧ t.InitCalled) : Family t := by
  refine h.change hpc hproc hl hd hr hat ?_ (fun np a he => absurd he (hf np a)) hi hu hpar ha hay ?_
  · intro x hx
    apply (h.position x).unlocked (h.unlocked hold hx)
    intro z a hz
    have hzy : z ≠ y := by
      rintro rfl
      exact hmade x a hx hz
    rw [hproc,update_of_ne hzy]
    exact ⟨rfl,rfl⟩
  · intro x k hx hk hz
    have hxs : s.AsleepInWait x :=
      asleep_of hpc hproc hx fun he => (hs x he hx).resolve_right fun hn => hn k hk hz
    by_cases hky : k = y
    · rw [hproc,hky,update_self] at hk hz
      exact hy x hxs hk hz
    · rw [hproc,update_of_ne hky] at hk hz
      exact absurd (h.sleepers x k hxs hk hz).2 (h.not_called hold hcall)

end

/-- A slot changes, but not its `parent`; its process may wake up. -/
lemma of_state (hpc : t.pc = s.pc) (hl : t.waitLock = s.waitLock)
    (hproc : t.proc = update s.proc y P) (hpar : P.parent = (s.proc y).parent)
    (hst : P.state = (s.proc y).state ∧ (P.chan = (s.proc y).chan ∨ (s.proc y).state ≠ .sleeping) ∨
      (P.state = .runnable ∨ P.state = .running) ∧ (s.proc y).state.up = true) : Family t := by
  have hself : t.proc y = P := by rw [hproc,update_self]
  have hup : P.state.up = (s.proc y).state.up := by
    obtain ⟨h,-⟩ | ⟨h | h,hu⟩ := hst
    · rw [h]
    · rw [h,hu]; rfl
    · rw [h,hu]; rfl
  have hsleep : P.state = .sleeping → (s.proc y).state = .sleeping ∧ P.chan = (s.proc y).chan := by
    grind
  have hasleep : t.AsleepInWait y → s.AsleepInWait y := by
    rintro ⟨hs,a,ha⟩
    exact ⟨(hsleep (hself ▸ hs)).1,a,hpc ▸ ha⟩
  have hused : (s.proc y).state = .used → P.state = .used := by
    grind [PState.up]
  refine h.steady (p := y) (c := s.pc y) (by rw [hpc,update_eq_self]) hproc (.inl ⟨hl,rfl⟩)
    ?_ ?_ (.inr ⟨h.position y,hused⟩) ?_ hpar ?_ ?_ (fun hy => hup.trans hy)
    (fun hy => .inl (hup.symm.trans hy)) (fun hy => .inl (hused hy)) ?_ ?_
  · rintro x (rfl | rfl) <;> rw [hpc,hself,hup] <;> exact h.up x
  · rintro x (rfl | rfl) hx <;> rw [hself] at hx ⊢ <;> rw [hpc,(hsleep hx).2] <;>
      exact h.rest x (hsleep hx).1
  · intro np a hy x hx b hb
    exact hx (h.linkers x y np b a hb hy)
  · grind
  · grind
  · rintro x (rfl | rfl) <;> exact hasleep
  · simp only [Sys.InitCalled,hpc]
    exact fun hc _ => hc

lemma move (hp : (s.proc p).state = .running) (hproc : t.proc = s.proc)
    (hpc : t.pc = update s.pc p c) (hl : s.Locks t p c) (hd : c ≠ .dead)
    (hf : ∀ np a, c ≠ .forkLink np a) (hat : s.At p c)
    (hw : ∀ st j m, s.pc p = .reparentWake st j m → m ≤ initproc.val →
      s.AsleepInWait initproc → ∃ st j m, c = .reparentWake st j m ∧ m ≤ initproc.val) :
    Family t := by
  have hup : (s.proc p).state.up = true := by rw [hp]; rfl
  refine h.steady hpc (y := p) (P := s.proc p) (by rw [hproc,update_eq_self]) hl ?_ ?_
    (.inr ⟨hat,id⟩) (fun np a he => absurd he (hf np a)) rfl id id id .inl .inl ?_ ?_
  · rintro x (rfl | rfl) <;> rw [hpc,update_self,hproc] <;> exact iff_of_true hd hup
  · rintro x (rfl | rfl) hx <;> rw [hproc,hp] at hx <;> cases hx
  · rintro x (rfl | rfl) hx <;> exact absurd hx (not_asleep (hproc ▸ hp))
  · rintro ⟨r,st,j,m,hr,hm⟩ hi
    by_cases hrp : r = p
    · obtain ⟨st',j',m',hc,hm'⟩ := hw st j m (hrp ▸ hr) hm hi
      exact ⟨p,st',j',m',by rw [hpc,update_self,hc],hm'⟩
    · exact ⟨r,st,j,m,by rw [hpc,update_of_ne hrp,hr],hm⟩

lemma goto (hp : (s.proc p).state = .running) (hl : c.locked = (s.pc p).locked)
    (hd : c ≠ .dead) (hf : ∀ np a, c ≠ .forkLink np a) (hat : s.At p c)
    (hw : ∀ st j m, s.pc p = .reparentWake st j m → initproc.val < m) : Family (s.goto p c) := by
  refine h.move (t := s.goto p c) hp rfl rfl (.inl ⟨rfl,hl⟩) hd hf hat ?_
  intro st j m hc hm
  exact absurd (hw st j m hc) (not_lt.mpr hm)

lemma ret (f : Slot → Ret) : Family { s with ret := f } :=
  ⟨h.lock,h.up,h.rest,h.position,h.linkers,h.init,h.unused,h.parents,h.alive,h.sleepers⟩

lemma leave (hp : (s.proc p).state = .running) (hl : (s.pc p).locked = false)
    (r : Ret) : Family (s.leave p r) := by
  refine ret (h.goto (c := .user) hp (by rw [hl]; rfl) (by simp) (by simp) trivial ?_) _
  intro st j m hc
  rw [hc] at hl
  cases hl

lemma release_leave (hp : (s.proc p).state = .running)
    (hw : (s.pc p).inWait = true) (hl : (s.pc p).locked = true) (r : Ret) :
    Family (s.release.leave p r) := by
  refine ret (h.move (c := .user) (t := s.release.goto p .user) hp rfl rfl
    (.inr (.inl ⟨rfl,rfl,hl⟩)) (by simp) (by simp) trivial ?_) _
  intro st j m hc
  rw [hc] at hw
  cases hw

lemma acquire_goto (hp : (s.proc p).state = .running)
    (hfree : s.waitLock = none) (hc : c.locked = true) (hat : s.At p c) :
    Family ((s.acquire p).goto p c) := by
  refine h.move (t := (s.acquire p).goto p c) hp rfl rfl (.inr (.inr ⟨rfl,hc,hfree⟩)) ?_ ?_ hat ?_
  · rintro rfl
    cases hc
  · rintro np a rfl
    cases hc
  · intro st j m hc
    have := (h.lock p).mp (by rw [hc]; rfl)
    rw [hfree] at this
    cases this

lemma wakeupAt (me q : Slot) (c : Option Chan) : Family (wakeupAt s me q c) := by
  unfold Process.wakeupAt
  split
  · rename_i hq
    exact h.of_state (t := s.become q .runnable) rfl rfl rfl rfl (.inr ⟨.inl rfl,by rw [hq.2.1]; rfl⟩)
  · exact h

variable (hp : (s.proc p).state = .running)
include hp

lemma not_asleep_wakeupAt : ¬(Process.wakeupAt s p q (some (.proc q))).AsleepInWait q := by
  unfold Process.wakeupAt
  split
  · rintro ⟨hs,-⟩
    simp at hs
  · rename_i hq
    rintro ⟨hs,a,ha⟩
    refine hq ⟨ne_of_state hs hp nofun,hs,?_⟩
    have := h.rest q hs
    rwa [ha] at this

/-- `sleep(p, &wait_lock)` in `wait`. -/
lemma sleep {a : UInt64} (hc : s.pc p = .waitSleep a) :
    Family (((s.put p fun q => { q with chan := some (.proc p), state := .sleeping }).release).goto p
      (.waitAsleep a)) := by
  have hlock : s.waitLock = some p := (h.lock p).mp (by rw [hc]; rfl)
  have hup : (s.proc p).state.up = true := by rw [hp]; rfl
  refine h.guarded rfl rfl (.inr (.inl ⟨rfl,rfl,by rw [hc]; rfl⟩)) ?_ ?_ (.inr hlock)
    (by simp [hc]) trivial (by simp) (fun x b _ hx => ne_of_state (h.used hx) hp nofun rfl) ?_ (by simp)
    (fun hi _ => h.parents p hi (.inl hup)) ?_ (by simp [PState.up]) ?_ (by simp)
  · rintro x (rfl | rfl) <;> simp [PState.up]
  · rintro x (rfl | rfl) <;> simp [Sys.Rest]
  · rintro rfl
    exact ⟨rfl,h.init.2⟩
  · intro q hq
    by_cases hqp : q = p
    · simp [hqp,PState.up]
    · simpa [hqp] using h.alive p q hq
  · rintro x hx -
    obtain rfl : x = p := hx.elim id id
    refine .inr fun k => ?_
    by_cases hk : k = x
    · simp [hk]
    · simpa [hk] using h.at_pc hc k

/-- The last step of `exit`: the process becomes a zombie. -/
lemma zombie {st : Int32} (hc : s.pc p = .exitZombie st) (e : Record) :
    Family ((((s.put p fun q => { q with xstate := st, state := .zombie }).release).record
      e).goto p .dead) := by
  have hlock : s.waitLock = some p := (h.lock p).mp (by rw [hc]; rfl)
  have hup : (s.proc p).state.up = true := by rw [hp]; rfl
  obtain ⟨hinit,hkids,hawake⟩ := h.at_pc hc
  refine h.guarded rfl rfl (.inr (.inl ⟨rfl,rfl,by rw [hc]; rfl⟩)) ?_ ?_ (.inr hlock)
    (by simp [hc]) trivial (by simp) (fun x b _ hx => ne_of_state (h.used hx) hp nofun rfl)
    (fun hi => absurd hi hinit) (by simp) (fun hi _ => h.parents p hi (.inl hup)) ?_
    (fun x _ hx => absurd hx (hkids x)) ?_ (fun x hx hxp _ => absurd hx (hawake x hxp))
  · rintro x (rfl | rfl) <;> simp [PState.up]
  · rintro x (rfl | rfl) <;> simp [Sys.Rest]
  · intro q hq
    have hqp : q ≠ p := by
      rintro rfl
      exact hkids q hq
    simpa [hqp] using h.alive p q hq
  · rintro x (rfl | rfl) ⟨hx,-⟩ <;> simp at hx

/-- `reparent` gives a child to `initproc`, which may be asleep although the child is a zombie;
the loop of `wakeup(initproc)` is about to start. -/
lemma adopt {pp : Slot} {st : Int32}
    (hc : s.pc p = .reparent st pp.val) (hpp : (s.proc pp).parent = some p) :
    Family ((s.put pp fun q => { q with parent := some initproc }).goto p
      (.reparentWake st pp 0)) := by
  have hlock : s.waitLock = some p := (h.lock p).mp (by rw [hc]; rfl)
  have hat := h.at_pc hc
  have hstate : ∀ x, (((s.put pp fun q => { q with parent := some initproc }).goto p
      (.reparentWake st pp 0)).proc x).state = (s.proc x).state := by
    intro x
    by_cases hx : x = pp <;> simp [hx]
  refine h.guarded rfl rfl (.inl ⟨rfl,by rw [hc]; rfl⟩) ?_ ?_ (.inr hlock) (by simp [hc])
    ⟨hat.1,?_⟩ (by simp) ?_ ?_ ?_ (by simp) ?_ (fun x _ hx => h.alive x pp hx) ?_ ?_
  · intro x _
    rw [hstate,←h.up x]
    by_cases hx : x = p <;> simp [hx,hc]
  · intro x _
    by_cases hx : x = p
    · simp only [Sys.Rest,hstate,hx,hp,reduceCtorEq,false_implies]
    · have := h.rest x
      by_cases hxp : x = pp
      · subst hxp
        simpa [Sys.Rest,hx] using this
      · simpa [Sys.Rest,hx,hxp] using this
  · intro x hx
    by_cases hxp : x = pp
    · simpa [hxp] using Ne.symm hat.1
    · have hlt : x.val < pp.val := by
        have : x.val ≠ pp.val := fun he => hxp (Fin.ext he)
        omega
      simpa [hxp] using hat.2 x hlt
  · intro x b hx hy
    have := h.position x
    obtain hy | hy := hy <;> rw [hy] at this
    · rw [this.2] at hpp
      cases hpp
    · rw [this.2] at hpp
      exact hx (Option.some_inj.mp hpp)
  · rintro rfl
    rw [h.init.2] at hpp
    cases hpp
  · intro hu
    rw [h.unused pp hu] at hpp
    cases hpp
  · intro q hq
    rw [hstate,←Option.some_inj.mp hq]
    exact h.init.1
  · rintro x - ⟨hs,b,hb⟩
    rw [hstate] at hs
    exact .inl ⟨hs,b,by simpa [ne_of_state hs hp nofun] using hb⟩
  · intro x _ hx _
    exact ⟨(Option.some_inj.mp hx).symm,p,st,pp,0,by simp,Nat.zero_le _⟩

lemma reap {pp : Slot} {a : UInt64} {j : ℕ} {k : Bool} (hc : s.pc p = .waitScan a j k)
    (hz : (s.proc pp).state = .zombie) (e : Record) (r : Ret) :
    Family ((((s.record e).put pp freeproc).release).leave p r) := by
  have hlock : s.waitLock = some p := (h.lock p).mp (by rw [hc]; rfl)
  have hne : p ≠ pp := ne_of_state hp hz nofun
  have hdown : (s.proc pp).state.up ≠ true := by rw [hz]; decide
  refine ret (h.guarded (t := (((s.record e).put pp freeproc).release).goto p .user)
    rfl rfl (.inr (.inl ⟨rfl,rfl,by rw [hc]; rfl⟩)) ?_ ?_ (.inr hlock) (by simp [hc]) trivial
    (by simp) (fun x b _ hx => ne_of_state (h.used hx) hz nofun rfl)
    (fun hi => absurd h.init.1 (hi ▸ hdown)) (by simp [freeproc]) (by simp [freeproc,PState.up])
    (by simp [freeproc]) (fun x _ hx => absurd (h.alive x pp hx) hdown) ?_ (by simp [freeproc])) _
  · rintro x (rfl | rfl)
    · simp [hne,hp,PState.up]
    · simpa [Ne.symm hne,hz,PState.up,freeproc] using h.up x
  · rintro x (rfl | rfl)
    · simp [Sys.Rest,hne,hp]
    · simp [Sys.Rest,freeproc]
  · rintro x (rfl | rfl) ⟨hx,-⟩
    · simp [hne,hp] at hx
    · simp [freeproc] at hx

/-- `fork` sets `np->parent`. -/
lemma link {np : Slot} {pid : Int32} (hc : s.pc p = .forkLink np pid) (hl : s.waitLock = none) :
    Family ((s.put np fun q => { q with parent := some p }).goto p (.forkRun np pid)) := by
  obtain ⟨hused,hnone⟩ := h.at_pc hc
  have hne : p ≠ np := ne_of_state hp hused nofun
  have hdown : (s.proc np).state.up ≠ true := by rw [hused]; decide
  refine h.guarded (p := p) rfl rfl (.inl ⟨rfl,by rw [hc]; rfl⟩) ?_ ?_ (.inl hl) (by simp [hc])
    (by simp [Sys.At,hused]) (by simp) ?_ (fun hi => absurd h.init.1 (hi ▸ hdown)) (by simp [hused])
    (by simp) ?_ (fun x _ hx => absurd (h.alive x np hx) hdown) ?_ (by simp [hused])
  · rintro x (rfl | rfl)
    · simp [hne,hp,PState.up]
    · simpa [Ne.symm hne,hused,PState.up] using h.up x
  · rintro x (rfl | rfl)
    · simp [Sys.Rest,hne,hp]
    · simp [Sys.Rest,hused]
  · rintro x b hx (hy | hy)
    · exact hx (h.linkers x p np b pid hy hc)
    · have := (h.at_pc hy).2
      rw [hnone] at this
      cases this
  · intro q hq
    obtain rfl : p = q := Option.some_inj.mp hq
    simp [hne,hp,PState.up]
  · rintro x (rfl | rfl) ⟨hx,-⟩
    · simp [hne,hp] at hx
    · simp [hused] at hx

lemma alloc {np : Slot} {j : ℕ} (hc : s.pc p = .forkScan j) (hn : (s.proc np).state = .unused) :
    Family (allocproc s p np true) := by
  have hne : p ≠ np := ne_of_state hp hn nofun
  refine h.steady (t := allocproc s p np true) rfl rfl (.inl ⟨rfl,by rw [hc]; rfl⟩) ?_ ?_
    (.inl ⟨by simp [allocproc],by simp [allocproc,h.unused np hn]⟩) ?_ rfl (by simp) (by simp)
    (by simp [hn,PState.up]) (by simp [PState.up]) (by simp) ?_ ?_
  · rintro x (rfl | rfl)
    · simp [allocproc,hne,hp,PState.up]
    · simpa [allocproc,Ne.symm hne,hn,PState.up] using h.up x
  · rintro x (rfl | rfl)
    · simp [Sys.Rest,allocproc,hne,hp]
    · simp [Sys.Rest,allocproc]
  · intro x a hx y _ b hy
    obtain ⟨rfl,-⟩ : np = x ∧ _ := by simpa using hx
    exact ne_of_state (h.used (.inl hy)) hn nofun rfl
  · rintro x (rfl | rfl) ⟨hx,-⟩
    · simp [allocproc,hne,hp] at hx
    · simp [allocproc] at hx
  · rintro ⟨r,st,k,m,hr,hm⟩ -
    have hrp : r ≠ p := by
      rintro rfl
      rw [hc] at hr
      cases hr
    exact ⟨r,st,k,m,by simpa [allocproc,hrp] using hr,hm⟩

lemma start {np : Slot} {pid : Int32} (hc : s.pc p = .forkRun np pid) (r : Ret) :
    Family (((s.become np .runnable).goto np .user).leave p r) := by
  obtain ⟨hused,hparent⟩ := h.at_pc hc
  have hne : np ≠ p := ne_of_state hused hp nofun
  -- first the parent leaves the kernel: nobody is making the child any more
  have hs := h.goto (c := .user) hp (by rw [hc]; rfl) (by simp) (by simp) trivial (by simp [hc])
  have hpc : (((s.become np .runnable).goto np .user).goto p .user).pc =
      update (s.goto p .user).pc np .user := by
    simp only [Sys.goto]
    exact update_comm hne _ _ _
  have hdead : (s.goto p .user).pc np = .dead := by
    by_contra hd
    have := (hs.up np).mp hd
    rw [show ((s.goto p .user).proc np).state = .used from hused] at this
    cases this
  refine ret (hs.steady (t := ((s.become np .runnable).goto np .user).goto p .user) hpc rfl
    (.inl ⟨rfl,by rw [hdead]; rfl⟩) ?_ ?_ (.inl trivial) (by simp) rfl (by simp) (by simp)
    (by simp [hused,PState.up]) ?_ ?_ ?_ ?_) _
  · rintro x (rfl | rfl) <;> simp [hne,PState.up]
  · rintro x (rfl | rfl) <;> simp [Sys.Rest]
  · intro _
    simp [hparent]
  · refine fun _ => .inr fun x b => ?_
    constructor <;> intro hx
    · have : (s.proc np).parent = none := (hs.at_pc hx).2
      rw [hparent] at this
      cases this
    · have : (s.proc np).parent = some x := (hs.at_pc hx).2
      rw [hparent] at this
      obtain rfl := Option.some_inj.mp this
      simp at hx
  · rintro x (rfl | rfl) ⟨hx,-⟩ <;> simp at hx
  · rintro ⟨r,st,k,m,hr,hm⟩ -
    have hrn : r ≠ np := by
      rintro rfl
      rw [hdead] at hr
      cases hr
    exact ⟨r,st,k,m,by rw [hpc,update_of_ne hrn]; exact hr,hm⟩

lemma forget : Family (s.put p fun q => { q with chan := none }) :=
  h.of_state (t := s.put p fun q => { q with chan := none }) rfl rfl rfl rfl
    (.inl ⟨rfl,.inr (by simp [hp])⟩)

lemma sleepOn {n : ℕ} (hu : s.pc p = .user) :
    Family ((s.put p fun q => { q with chan := some (.other n), state := .sleeping }).goto p
      (.blocked n)) := by
  refine h.steady rfl rfl (.inl ⟨rfl,by rw [hu]; rfl⟩) ?_ ?_ (.inl trivial) (by simp) rfl (by simp)
    (by simp) (by simp [PState.up]) (fun _ => .inl (by rw [hp]; rfl)) (by simp [hp]) ?_ ?_
  · rintro x (rfl | rfl) <;> simp [PState.up]
  · rintro x (rfl | rfl) <;> simp [Sys.Rest]
  · rintro x (rfl | rfl) ⟨-,b,hb⟩ <;> simp at hb
  · rintro ⟨r,st,k,m,hr,hm⟩ -
    have hrp : r ≠ p := by
      rintro rfl
      rw [hu] at hr
      cases hr
    exact ⟨r,st,k,m,by simpa [hrp] using hr,hm⟩

lemma strike (hl : (s.pc p).locked = false) (q : Slot) (pid : Int32) :
    Family (strike s p q pid) := by
  have hs : Family { s.put q (fun r => { r with
      killed := true
      state := if r.state = .sleeping then .runnable else r.state }) with
      life := if (s.proc q).state = .unused then s.life
        else update s.life q ((s.life q).struck (.kill pid)) } := by
    refine h.of_state (y := q) (P := { s.proc q with
      killed := true
      state := if (s.proc q).state = .sleeping then .runnable else (s.proc q).state })
      rfl rfl rfl rfl ?_
    by_cases hq : (s.proc q).state = .sleeping <;> simp [hq,PState.up]
  refine hs.leave ?_ hl _
  by_cases hpq : p = q
  · subst hpq
    simp [hp]
  · simp [hpq,hp]

end

lemma wakeupAt_proc (o : Option Chan) :
    (Process.wakeupAt s p q o).proc p = s.proc p := by
  unfold Process.wakeupAt
  split
  · rename_i hq
    exact update_of_ne (Ne.symm hq.1) _ _
  · rfl

lemma wakeupAt_pc (o : Option Chan) : (Process.wakeupAt s p q o).pc = s.pc := by
  unfold Process.wakeupAt
  split <;> rfl

lemma wakeupAt_parent (o : Option Chan) (x : Slot) :
    ((Process.wakeupAt s p q o).proc x).parent = (s.proc x).parent := by
  unfold Process.wakeupAt
  split
  · by_cases hx : x = q <;> simp [hx]
  · rfl

lemma wakeInit {st : Int32} {j : ℕ} (h : Family s) (hp : (s.proc p).state = .running)
    (hc : s.pc p = .reparentWake st j q.val) :
    Family ((Process.wakeupAt s p q (some (.proc initproc))).goto p
      (.reparentWake st j (q+1))) := by
  have hw := h.wakeupAt p q (some (.proc initproc))
  have hpc : (Process.wakeupAt s p q (some (.proc initproc))).pc p = .reparentWake st j q.val := by
    rw [wakeupAt_pc,hc]
  refine hw.move (by rw [wakeupAt_proc,hp]) rfl rfl (.inl ⟨rfl,by rw [hpc]; rfl⟩) (by simp)
    (by simp) (hw.at_pc (c := .reparentWake st j q.val) hpc) ?_
  intro st' j' m hm hle hasleep
  obtain ⟨-,-,rfl⟩ : st = st' ∧ j = j' ∧ q.val = m := by simpa [hpc] using hm
  have hq : q ≠ initproc := by
    rintro rfl
    exact h.not_asleep_wakeupAt hp hasleep
  have : q.val ≠ initproc.val := fun he => hq (Fin.ext he)
  exact ⟨st,j,q.val+1,rfl,by omega⟩

lemma wakeParent {st : Int32} (h : Family s) (hp : (s.proc p).state = .running)
    (hc : s.pc p = .exitWake st q.val) :
    Family ((Process.wakeupAt s p q ((s.proc p).parent.map .proc)).goto p (.exitWake st (q+1))) := by
  have hw := h.wakeupAt p q ((s.proc p).parent.map .proc)
  have hpc : (Process.wakeupAt s p q ((s.proc p).parent.map .proc)).pc p = .exitWake st q.val := by
    rw [wakeupAt_pc,hc]
  obtain ⟨hi,hkids,hawake⟩ := hw.at_pc hpc
  refine hw.goto (by rw [wakeupAt_proc,hp]) (by rw [hpc]; rfl) (by simp) (by simp)
    ⟨hi,hkids,?_⟩ (by simp [hpc])
  intro x hx hxp
  obtain hlt | he := Nat.lt_succ_iff_lt_or_eq.mp hx
  · exact hawake x hlt hxp
  · obtain rfl := Fin.ext he
    rw [wakeupAt_parent] at hxp
    rw [hxp]
    exact h.not_asleep_wakeupAt hp

lemma ran {ok : Bool} (h : Family s) (hp : (s.proc p).state = .running) (ht : Ran s p ok t) :
    Family t := by
  cases ht with
  | unblocked hc | woken hc =>
    exact (h.forget hp).goto (by simpa using hp) (by simp [hc,Pc.locked]) (by simp) (by simp) trivial
      (by simp [hc])
  | forkNext hc | killNext hc =>
    exact h.goto hp (by rw [hc]; rfl) (by simp) (by simp) trivial (by simp [hc])
  | forkFull hc => exact h.leave hp (by rw [hc]; rfl) _
  | alloc hc hn => exact h.alloc hp hc hn
  | @allocFail np j hc hn =>
    have hs : Family { s.put np freeproc with nextpid := s.nextpid+1 } :=
      h.of_state (y := np) (P := freeproc (s.proc np)) rfl rfl rfl (h.unused np hn).symm
        (.inl ⟨hn.symm,.inr (by simp [hn])⟩)
    exact hs.leave (by simpa [ne_of_state hp hn nofun] using hp) (by simp [hc,Pc.locked]) _
  | link hc hl => exact h.link hp hc hl
  | start hc => exact h.start hp hc _
  | exitLock hc hl =>
    exact h.acquire_goto hp hl rfl ⟨h.at_pc hc,by simp⟩
  | adopt hc hpp => exact h.adopt hp hc hpp
  | @reparentNext pp st hc hpp =>
    have hat := h.at_pc hc
    refine h.goto hp (by rw [hc]; rfl) (by simp) (by simp) ⟨hat.1,?_⟩ (by simp [hc])
    intro x hx
    obtain hlt | he := Nat.lt_succ_iff_lt_or_eq.mp hx
    · exact hat.2 x hlt
    · rw [Fin.ext he]
      exact hpp
  | @reparentDone j st hc hj =>
    have hat := h.at_pc hc
    refine h.goto hp (by rw [hc]; rfl) (by simp) (by simp) ⟨hat.1,?_,by simp⟩ (by simp [hc])
    intro x
    exact hat.2 x (x.isLt.trans_le hj)
  | @wakeInit q j st hc => exact h.wakeInit hp hc
  | @wakeInitDone j m st hc hm =>
    have hat := h.at_pc hc
    refine h.goto hp (by rw [hc]; rfl) (by simp) (by simp) hat ?_
    intro st' j' m' hc'
    obtain ⟨-,-,rfl⟩ : st = st' ∧ j = j' ∧ m = m' := by simpa [hc] using hc'
    exact initproc.isLt.trans_le hm
  | wakeParent hc => exact h.wakeParent hp hc
  | @wakeParentDone m st hc hm =>
    have hat := h.at_pc hc
    refine h.goto hp (by rw [hc]; rfl) (by simp) (by simp) ⟨hat.1,hat.2.1,?_⟩ (by simp [hc])
    intro q hq
    exact hat.2.2 q (q.isLt.trans_le hm) hq
  | zombie hc => exact h.zombie hp hc _
  | waitLock hc hl => exact h.acquire_goto hp hl rfl (by simp [Sys.At])
  | copyoutFail hc hpp hz ha hok =>
    exact h.release_leave hp (by rw [hc]; rfl) (by rw [hc]; rfl) _
  | reap hc hpp hz => exact h.reap hp hc hz _ _
  | @child pp a k hc hz =>
    refine h.goto hp (by rw [hc]; rfl) (by simp) (by simp) ?_ (by simp [hc])
    intro x hx hxp
    obtain hlt | he := Nat.lt_succ_iff_lt_or_eq.mp hx
    · exact ⟨(h.at_pc hc x hlt hxp).1,rfl⟩
    · rw [Fin.ext he]
      exact ⟨hz,rfl⟩
  | @notChild pp a k hc hpp =>
    refine h.goto hp (by rw [hc]; rfl) (by simp) (by simp) ?_ (by simp [hc])
    intro x hx hxp
    obtain hlt | he := Nat.lt_succ_iff_lt_or_eq.mp hx
    · exact h.at_pc hc x hlt hxp
    · rw [Fin.ext he] at hxp
      exact absurd hxp hpp
  | @scanned a j k hc hj =>
    refine h.goto hp (by rw [hc]; rfl) (by simp) (by simp) ?_ (by simp [hc])
    intro x hxp
    exact h.at_pc hc x (x.isLt.trans_le hj) hxp
  | waitFail hc hk => exact h.release_leave hp (by rw [hc]; rfl) (by rw [hc]; rfl) _
  | @waitSleep a k hc =>
    refine h.goto hp (by rw [hc]; rfl) (by simp) (by simp) ?_ (by simp [hc])
    intro x hxp
    exact (h.at_pc hc x hxp).1
  | sleep hc => exact h.sleep hp hc
  | killHit hc hq => exact h.strike hp (by rw [hc]; rfl) _ _
  | killNone hc => exact h.leave hp (by rw [hc]; rfl) _

lemma trans {e : Event} (h : Family s) (ht : Trans s e t) : Family t := by
  cases ht with
  | @schedule p hp =>
    exact h.of_state (t := s.become p .running) rfl rfl rfl rfl (.inr ⟨.inr rfl,by rw [hp]; rfl⟩)
  | @yield p hp hl | @wakeup p n hp =>
    exact h.of_state (t := s.become p .runnable) rfl rfl rfl rfl (.inr ⟨.inl rfl,by rw [hp]; rfl⟩)
  | @call e p c hp hu hc hi =>
    refine h.goto hp ?_ ?_ ?_ ?_ (by simp [hu])
    · cases c <;> first | (rw [hu]; rfl) | cases hc
    · rintro rfl
      cases hc
    · rintro np a rfl
      cases hc
    · cases c <;> first | trivial | exact hi _ rfl
  | @fault p hp =>
    exact h.of_state (y := p) (P := { s.proc p with killed := true }) rfl rfl rfl rfl
      (.inl ⟨rfl,.inl rfl⟩)
  | sleepOn hp hu => exact h.sleepOn hp hu
  | run hp ht => exact h.ran hp ht

end Family
end Xv6.Process
