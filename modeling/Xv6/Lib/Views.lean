import Xv6.Lib.Prog

/-! A program logic for threads that share a state. A thread reasons about a view of its own, and an
action is described by what it asks of the view and what it leaves there. -/
namespace Xv6.Lib

/-- What an action asks of a view so that it leaves a value and a view as demanded. -/
structure Spec (A : Type) (R : A → Type) (V : Type) where
  pre : (a : A) → V → (R a → V → Prop) → Prop

namespace Prog
variable {A : Type} {R : A → Type} {V α β : Type}

/-- The program, started with view `v`, ends with a value and a view that satisfy `Q`. -/
def Wp (S : Spec A R V) : Prog A R α → V → (α → V → Prop) → Prop
  | ret x,v,Q => Q x v
  | act a k,v,Q => ∃ P, S.pre a v P ∧ ∀ r w, P r w → (k r).Wp S w Q

variable {S T : Spec A R V} {v : V} {P Q : α → V → Prop}

lemma Wp.mono {x : Prog A R α} (h : x.Wp S v P) (hq : ∀ y w, P y w → Q y w) : x.Wp S v Q := by
  induction x generalizing v with
  | ret y => exact hq y v h
  | act a k ih =>
    obtain ⟨P,hp,hk⟩ := h
    exact ⟨P,hp,fun r w hw => ih r (hk r w hw)⟩

variable {Q : β → V → Prop}

lemma Wp.bind {x : Prog A R α} {f : α → Prog A R β} (h : x.Wp S v P)
    (hf : ∀ y w, P y w → (f y).Wp S w Q) : (x >>= f).Wp S v Q := by
  change (Prog.bind x f).Wp S v Q
  induction x generalizing v with
  | ret y => exact hf y v h
  | act a k ih =>
    obtain ⟨P,hp,hk⟩ := h
    exact ⟨P,hp,fun r w hw => ih r (hk r w hw)⟩

lemma wp_bind {x : Prog A R α} {f : α → Prog A R β}
    (h : x.Wp S v fun y w => (f y).Wp S w Q) : (x >>= f).Wp S v Q := h.bind fun _ _ => id

lemma wp_act {a : A} {f : R a → Prog A R β}
    (h : S.pre a v fun r w => (f r).Wp S w Q) : (perform a >>= f).Wp S v Q :=
  ⟨_,h,fun _ _ => id⟩

lemma wp_perform {a : A} {Q : R a → V → Prop} (h : S.pre a v Q) : (perform a).Wp S v Q :=
  ⟨Q,h,fun _ _ => id⟩

end Prog
end Xv6.Lib
