import Mathlib.Tactic

/-! Runs of a deterministic labelled step function under a side condition, with the
induction rules for state invariants. Nothing here depends on a particular system. -/
namespace Xv6.Lib

variable {σ ε : Type*}

/-- Execute a list of events; a disabled event stops the whole run. -/
def exec (step : σ → ε → Option σ) : σ → List ε → Option σ
  | s,[] => some s
  | s,e::es => (step s e).bind fun t => exec step t es

/-- The same for events that meet a condition on the state before the step. -/
def execIf (step : σ → ε → Option σ) (C : σ → ε → Prop) [∀ s e, Decidable (C s e)] :
    σ → List ε → Option σ
  | s,[] => some s
  | s,e::es => if C s e then (step s e).bind fun t => execIf step C t es else none

/-- A run all of whose steps meet the condition `C` on the state before the step. -/
inductive Runs (step : σ → ε → Option σ) (C : σ → ε → Prop) : σ → List ε → σ → Prop
  | nil (s) : Runs step C s [] s
  | cons {s e t es u} (cond : C s e) (h : step s e = some t) (tail : Runs step C t es u) :
      Runs step C s (e::es) u

namespace Runs
variable {step : σ → ε → Option σ} {C D : σ → ε → Prop} {s t u : σ} {e : ε} {es fs : List ε}

theorem mono (h : Runs step C s es t) (hd : ∀ s e, C s e → D s e) : Runs step D s es t := by
  induction h with
  | nil s => exact .nil s
  | cons cond hs _ ih => exact .cons (hd _ _ cond) hs ih

theorem append (h : Runs step C s es t) (hu : Runs step C t fs u) : Runs step C s (es++fs) u := by
  induction h with
  | nil s => exact hu
  | cons cond hs _ ih => exact .cons cond hs (ih hu)

theorem snoc (h : Runs step C s es t) (cond : C t e) (hs : step t e = some u) :
    Runs step C s (es++[e]) u :=
  h.append (.cons cond hs (.nil u))

/-- An invariant kept by every step that meets the condition holds at the end of a run. -/
theorem invariant {I : σ → Prop} (hstep : ∀ s e t, I s → C s e → step s e = some t → I t)
    (h : Runs step C s es t) (hi : I s) : I t := by
  induction h with
  | nil s => exact hi
  | cons cond hs _ ih => exact ih (hstep _ _ _ hi cond hs)

/-- A second invariant may be proved with the help of one already established. -/
theorem invariant_and {I J : σ → Prop} (hi : ∀ s e t, I s → C s e → step s e = some t → I t)
    (hj : ∀ s e t, I s → J s → C s e → step s e = some t → J t)
    (h : Runs step C s es t) (h₀ : I s ∧ J s) : I t ∧ J t :=
  h.invariant (I := fun s => I s ∧ J s)
    (fun s e t hs hc he => ⟨hi s e t hs.1 hc he,hj s e t hs.1 hs.2 hc he⟩) h₀

/-- The unconditioned runs are the successful executions. -/
theorem of_exec (h : exec step s es = some t) : Runs step (fun _ _ => True) s es t := by
  induction es generalizing s with
  | nil => cases h; exact .nil _
  | cons e es ih =>
    obtain ⟨u,hu,ht⟩ := Option.bind_eq_some_iff.mp h
    exact .cons trivial hu (ih ht)

theorem of_execIf [∀ s e, Decidable (C s e)] (h : execIf step C s es = some t) :
    Runs step C s es t := by
  induction es generalizing s with
  | nil => cases h; exact .nil _
  | cons e es ih =>
    obtain ⟨hc,h⟩ := Option.ite_none_right_eq_some.mp h
    obtain ⟨u,hu,ht⟩ := Option.bind_eq_some_iff.mp h
    exact .cons hc hu (ih ht)

/-- An execution that ends in a state with a decidable property gives a run to such a state. -/
theorem exists_of_execIf (step : σ → ε → Option σ) (C : σ → ε → Prop)
    [∀ s e, Decidable (C s e)] (s : σ) (es : List ε) (P : σ → Prop) [∀ t, Decidable (P t)]
    (h : (execIf step C s es).map (fun t => decide (P t)) = some true) :
    ∃ t, Runs step C s es t ∧ P t := by
  obtain ⟨t,ht,hp⟩ := Option.map_eq_some_iff.mp h
  exact ⟨t,of_execIf ht,of_decide_eq_true hp⟩

theorem exec_eq (h : Runs step C s es t) : exec step s es = some t := by
  induction h with
  | nil s => rfl
  | cons _ hs _ ih => simp only [exec,hs,Option.bind_some,ih]

/-- A decidable property of the state that a run ends in, by evaluation of the run. -/
theorem holds_of_exec (h : Runs step C s es t) (P : σ → Prop) [∀ t, Decidable (P t)]
    (hp : (exec step s es).map (fun t => decide (P t)) = some true) : P t := by
  rw [h.exec_eq,Option.map_some,Option.some_inj] at hp
  exact of_decide_eq_true hp

theorem uncons (h : Runs step C s (e::es) u) : ∃ t, step s e = some t ∧ Runs step C t es u := by
  cases h with
  | cons _ hs tail => exact ⟨_,hs,tail⟩

/-- Every prefix of a run is a run. -/
theorem split (h : Runs step C s (es++fs) u) : ∃ t, Runs step C s es t ∧ Runs step C t fs u := by
  induction es generalizing s with
  | nil => exact ⟨s,.nil s,h⟩
  | cons e es ih =>
    cases h with
    | cons cond hs tail =>
      obtain ⟨t,h₁,h₂⟩ := ih tail
      exact ⟨t,.cons cond hs h₁,h₂⟩

end Runs
end Xv6.Lib
