import Mathlib.Tactic

/-! Programs made of atomic actions on a shared state, executed alone or interleaved with the
programs of other threads. Nothing here depends on a particular system. -/
namespace Xv6.Lib

/-- A program performs actions `a : A`, each with an answer in `R a`, and ends with a value. -/
inductive Prog (A : Type) (R : A → Type) (α : Type) where
  | ret (x : α)
  | act (a : A) (k : R a → Prog A R α)

namespace Prog
variable {A : Type} {R : A → Type} {α β : Type}

def bind : Prog A R α → (α → Prog A R β) → Prog A R β
  | ret x,f => f x
  | act a k,f => act a fun r => (k r).bind f

instance : Monad (Prog A R) where
  pure := ret
  bind := bind

/-- The program that performs one action. -/
def perform (a : A) : Prog A R (R a) := act a ret

variable {σ ε : Type} (eval : (a : A) → σ → Except ε (R a×σ))

/-- Run a program to its end with no other thread about. -/
def run : Prog A R α → σ → Except ε (α×σ)
  | ret x,s => .ok (x,s)
  | act a k,s =>
    match eval a s with
    | .ok (r,t) => (k r).run t
    | .error e => .error e

end Prog

/-- A shared state and, for each thread, the rest of the program it is executing, if any. -/
structure Pool (ι A : Type) (R : A → Type) (α σ : Type) where
  state : σ
  thread : ι → Option (Prog A R α)

/-- A thread begins to execute the code of a call, performs its next action, or returns. -/
inductive PoolEvent (ι C : Type)
  | call (p : ι) (c : C)
  | step (p : ι)
  | done (p : ι)

namespace Pool
variable {ι A C α σ ε : Type} {R : A → Type} [DecidableEq ι]

/-- A thread that is `ready` may begin a call when it is executing none. An action that fails (or
has to wait) is not taken; the thread stays where it is. -/
def step (ready : ι → σ → Bool) (code : ι → C → Prog A R α)
    (eval : ι → (a : A) → σ → Except ε (R a×σ)) (c : Pool ι A R α σ) :
    PoolEvent ι C → Option (Pool ι A R α σ)
  | .call p x =>
    match c.thread p with
    | none =>
      if ready p c.state then
        some { c with thread := Function.update c.thread p (some (code p x)) }
      else none
    | some _ => none
  | .step p =>
    match c.thread p with
    | some (.act a k) =>
      match eval p a c.state with
      | .ok (r,t) => some ⟨t,Function.update c.thread p (some (k r))⟩
      | .error _ => none
    | _ => none
  | .done p =>
    match c.thread p with
    | some (.ret _) => some { c with thread := Function.update c.thread p none }
    | _ => none

/-- Every step changes the state by an action of a thread, or not at all. -/
lemma step_cases {ready : ι → σ → Bool} {code : ι → C → Prog A R α}
    {eval : ι → (a : A) → σ → Except ε (R a×σ)} {c d : Pool ι A R α σ} {e : PoolEvent ι C}
    (h : c.step ready code eval e = some d) :
    (∃ p x, e = .call p x ∧ c.thread p = none ∧ ready p c.state ∧
      d = { c with thread := Function.update c.thread p (some (code p x)) }) ∨
    (∃ p a k r t, e = .step p ∧ c.thread p = some (.act a k) ∧ eval p a c.state = .ok (r,t) ∧
      d = ⟨t,Function.update c.thread p (some (k r))⟩) ∨
    (∃ p x, e = .done p ∧ c.thread p = some (.ret x) ∧
      d = { c with thread := Function.update c.thread p none }) := by
  cases e with
  | call p x =>
    simp only [step] at h
    split at h
    · rename_i hp
      obtain ⟨hr,h⟩ := Option.ite_none_right_eq_some.mp h
      cases h
      exact .inl ⟨p,x,rfl,hp,hr,rfl⟩
    · cases h
  | step p =>
    simp only [step] at h
    split at h
    · rename_i a k hp
      split at h
      · rename_i r t hr
        cases h
        exact .inr (.inl ⟨p,a,k,r,t,rfl,hp,hr,rfl⟩)
      · cases h
    · cases h
  | done p =>
    simp only [step] at h
    split at h
    · rename_i x hp
      cases h
      exact .inr (.inr ⟨p,x,rfl,hp,rfl⟩)
    · cases h

end Pool
end Xv6.Lib
