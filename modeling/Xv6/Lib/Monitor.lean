import Xv6.Lib.Transition

/-! A lock with `sleep` and `wakeup`. The code that the actors run is a parameter. `sleep` gives the
lock back and falls asleep in one step, and `wakeup` is one step of the holder: while an actor falls
asleep it has a lock of its own, which `wakeup` waits for. -/
namespace Xv6.Lib.Monitor
open Function (update update_self update_of_ne)

variable {ι κ χ σ β : Type}

/-- What an actor waits for: nothing, the lock, or a `wakeup`. -/
inductive Wait (χ : Type)
  | nothing
  | lock
  | asleep (chan : χ)
  deriving DecidableEq

def Wait.wake : Wait χ → Wait χ
  | asleep _ => lock
  | x => x

/-- What an actor's code does next; `d` is the new shared data and `k` the new position. -/
inductive Move (κ χ σ : Type)
  | acquire (k : κ)
  | go (d : σ) (k : κ)
  | release (d : σ) (k : κ)
  | sleep (chan : χ) (k : κ)
  | wakeup (chan : χ) (d : σ) (k : κ)

namespace Move

@[simp] def code : Move κ χ σ → κ
  | acquire k | go _ k | release _ k | sleep _ k | wakeup _ _ k => k

@[simp] def data (d : σ) : Move κ χ σ → σ
  | acquire _ | sleep _ _ => d
  | go d' _ | release d' _ | wakeup _ d' _ => d'

/-- The first step of a call is for the lock, and all others are made with it. -/
def start : Move κ χ σ → Bool
  | acquire _ => true
  | _ => false

end Move

structure State (ι κ χ σ : Type) where
  data : σ
  lock : Option ι
  wait : ι → Wait χ
  code : ι → κ

/-- What an actor does next, by an input from outside, its position and the shared data. -/
abbrev Code (ι κ χ σ β : Type) := ι → β → κ → σ → Option (Move κ χ σ)

/-- An actor's code goes on, or it gets the lock; or it is woken up for a reason of others, such as
that it has been killed. -/
inductive Event (ι β : Type)
  | act (a : ι) (i : β)
  | acquire (a : ι)
  | wake (a : ι)

variable [DecidableEq ι] [DecidableEq χ]

/-- The step of actor `a` that its code says. -/
def State.move (s : State ι κ χ σ) (a : ι) : Move κ χ σ → State ι κ χ σ
  | .acquire k => { s with wait := update s.wait a .lock, code := update s.code a k }
  | .go d k => { s with data := d, code := update s.code a k }
  | .release d k => { s with data := d, lock := none, code := update s.code a k }
  | .sleep chan k =>
    { s with
      lock := none
      wait := update s.wait a (.asleep chan)
      code := update s.code a k }
  | .wakeup chan d k =>
    { s with
      data := d
      wait := fun b => if s.wait b = .asleep chan then .lock else s.wait b
      code := update s.code a k }

def step (code : Code ι κ χ σ β) (s : State ι κ χ σ) : Event ι β → Option (State ι κ χ σ)
  | .act a i =>
    (code a i (s.code a) s.data).bind fun m =>
      if s.wait a = .nothing ∧ (s.lock = some a ↔ m.start = false) then some (s.move a m) else none
  | .acquire a =>
    if s.wait a = .lock ∧ s.lock = none then
      some { s with lock := some a, wait := update s.wait a .nothing }
    else none
  | .wake a => some { s with wait := update s.wait a (s.wait a).wake }

/-- Every actor asleep has the reason `W` to be so. -/
def Reasons (W : χ → κ → σ → Prop) (s : State ι κ χ σ) : Prop :=
  ∀ a chan, s.wait a = .asleep chan → W chan (s.code a) s.data

/-- What a move has to do for those asleep: `sleep` finds a reason, and the channel of `wakeup` is
that of all who lose theirs. -/
def Move.Keeps (W : χ → κ → σ → Prop) (d : σ) : Move κ χ σ → Prop
  | acquire _ => True
  | go d' _ | release d' _ => ∀ chan k, W chan k d → W chan k d'
  | sleep chan k => W chan k d
  | wakeup chan d' _ => ∀ c k, c ≠ chan → W c k d → W c k d'

section
variable {s t : State ι κ χ σ} {a : ι} {m : Move κ χ σ} {W : χ → κ → σ → Prop}
variable {code : Code ι κ χ σ β} {e : Event ι β}

lemma move_data : (s.move a m).data = m.data s.data := by cases m <;> rfl

lemma move_code : (s.move a m).code = update s.code a m.code := by cases m <;> rfl

/-- A step is a move of an actor's code, or it changes neither the data nor a position and puts
nobody to sleep. -/
theorem step_cases (h : step code s e = some t) :
    (∃ a i m, code a i (s.code a) s.data = some m ∧ s.wait a = .nothing ∧
      t = s.move a m) ∨
    t.data = s.data ∧ t.code = s.code ∧
      ∀ b chan, t.wait b = .asleep chan → s.wait b = .asleep chan := by
  cases e with
  | act a i =>
    obtain ⟨m,hm,h⟩ := Option.bind_eq_some_iff.mp h
    obtain ⟨ha,h⟩ := Option.ite_none_right_eq_some.mp h
    exact .inl ⟨a,i,m,hm,ha.1,(Option.some.inj h).symm⟩
  | acquire a =>
    obtain ⟨-,h⟩ := Option.ite_none_right_eq_some.mp h
    cases h
    refine .inr ⟨rfl,rfl,fun b chan hb => ?_⟩
    by_cases hba : b = a <;> simp_all
  | wake a =>
    cases h
    refine .inr ⟨rfl,rfl,fun b chan hb => ?_⟩
    by_cases hba : b = a
    · subst hba
      cases hw : s.wait b <;> simp [Wait.wake,hw] at hb
    · simp_all

lemma Reasons.move (h : Reasons W s) (ha : s.wait a = .nothing) (hk : m.Keeps W s.data) :
    Reasons W (s.move a m) := by
  intro b chan hb
  rw [move_data,move_code]
  by_cases hba : b = a
  · subst hba
    rw [update_self]
    cases m with
    | sleep c k =>
      obtain rfl : c = chan := by simpa [State.move] using hb
      exact hk
    | _ => simp [State.move,ha] at hb
  · rw [update_of_ne hba]
    cases m with
    | acquire k | sleep c k => exact h b chan (by simpa [State.move,hba] using hb)
    | go d k | release d k => exact hk chan _ (h b chan hb)
    | wakeup c d k =>
      simp only [State.move] at hb
      split_ifs at hb with hc
      refine hk chan _ ?_ (h b chan hb)
      rintro rfl
      exact hc hb

theorem Reasons.step (h : Reasons W s)
    (hcode : ∀ a i m, code a i (s.code a) s.data = some m → m.Keeps W s.data)
    (hs : Monitor.step code s e = some t) : Reasons W t := by
  rcases step_cases hs with ⟨a,i,m,hm,ha,rfl⟩ | ⟨hd,hc,hw⟩
  · exact h.move ha (hcode a i m hm)
  · intro b chan hb
    rw [hd,hc]
    exact h b chan (hw b chan hb)

end
end Xv6.Lib.Monitor
