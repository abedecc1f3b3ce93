import Xv6.Lib.Traced
import Xv6.Lib.Views

/-! Programs that run with no other thread about, with a trace of what their actions emit. What is
proved of a program over views holds of its run, if each action is proved to follow its
description. -/
namespace Xv6.Lib
namespace Prog
variable {A : Type} {R : A → Type} {α σ ε β V : Type}

lemma run_bind {γ : Type} (eval : (a : A) → σ → Except ε (R a×σ)) (x : Prog A R α)
    (f : α → Prog A R γ) (s : σ) :
    (x >>= f).run eval s = (x.run eval s).bind fun (r,t) => (f r).run eval t := by
  change (Prog.bind x f).run eval s = _
  induction x generalizing s with
  | ret y => rfl
  | act a k ih =>
    rw [Prog.bind,run,run]
    cases eval a s with
    | ok r => exact ih r.1 r.2
    | error e => rfl

variable {x : Prog A R α}

lemma run_bind_ok {γ : Type} {eval : (a : A) → σ → Except ε (R a×σ)} {s t : σ}
    {r : α} (h : x.run eval s = .ok (r,t)) (f : α → Prog A R γ) :
    (x >>= f).run eval s = (f r).run eval t := by
  rw [run_bind,h]
  rfl

/-- A run that returns `r` in a state with a decidable property, by evaluation. -/
lemma exists_of_run [DecidableEq α] (eval : (a : A) → σ → Except ε (R a×σ)) (x : Prog A R α) (s : σ)
    (r : α) (P : σ → Prop) [∀ t, Decidable (P t)]
    (h : (x.run eval s).toOption.any (fun y => y.1 = r ∧ P y.2) = true) :
    ∃ t, x.run eval s = .ok (r,t) ∧ P t := by
  cases hx : x.run eval s with
  | error e =>
    rw [hx] at h
    cases h
  | ok y =>
    rw [hx] at h
    obtain ⟨rfl,hp⟩ := of_decide_eq_true h
    exact ⟨y.2,rfl,hp⟩

/-- Whether a run fails with `e`. -/
def failsWith {β : Type*} [DecidableEq ε] (e : ε) : Except ε β → Bool
  | .error e' => e' = e
  | .ok _ => false

lemma eq_error_of_failsWith {β : Type*} [DecidableEq ε] {e : ε} {r : Except ε β}
    (h : failsWith e r = true) : r = .error e := by
  cases r with
  | error e' => rw [of_decide_eq_true h]
  | ok y => cases h

/-- Run a program to its end, or to the action that fails, and collect what its actions emit. -/
def traced (eval : (a : A) → σ → Traced β ε (R a×σ)) : Prog A R α → σ → Traced β ε (α×σ)
  | ret x,s => pure (x,s)
  | act a k,s => eval a s >>= fun (r,t) => (k r).traced eval t

lemma traced_result (eval : (a : A) → σ → Traced β ε (R a×σ)) (x : Prog A R α) (s : σ) :
    (x.traced eval s).result = x.run (fun a s => (eval a s).result) s := by
  induction x generalizing s with
  | ret y => rfl
  | act a k ih =>
    rw [traced,run,Traced.bind_result]
    cases h : (eval a s).result with
    | ok r => exact ih r.1 r.2
    | error e => rfl

/-- How a traced computation may end: it fails as `E` allows, or leaves a view as `Q` demands. The
views keep an account of the trace. -/
def Ends (good : V → σ → Prop) (log : V → List β) (E : V → ε → Prop) (Q : α → V → Prop) (v : V)
    (x : Traced β ε (α×σ)) : Prop :=
  (∃ e w, x.result = .error e ∧ E w e ∧ log w = log v++x.trace) ∨
    ∃ r t w, x.result = .ok (r,t) ∧ good w t ∧ Q r w ∧ log w = log v++x.trace

variable {good : V → σ → Prop} {log : V → List β} {E : V → ε → Prop} {S : Spec A R V}
variable {eval : (a : A) → σ → Traced β ε (R a×σ)} {Q : α → V → Prop}

lemma wp_ite {c : Prop} [Decidable c] {y : Prog A R α} {v : V}
    (hx : c → x.Wp S v Q) (hy : ¬c → y.Wp S v Q) : (if c then x else y).Wp S v Q := by
  split
  · exact hx ‹_›
  · exact hy ‹_›

lemma Wp.of_bind {γ : Type} {f : α → Prog A R γ} {v : V} {Q : γ → V → Prop}
    (h : (x >>= f).Wp S v Q) : x.Wp S v fun y w => (f y).Wp S w Q := by
  change (Prog.bind x f).Wp S v Q at h
  induction x generalizing v with
  | ret y => exact h
  | act a k ih =>
    obtain ⟨P,hp,hk⟩ := h
    exact ⟨P,hp,fun r w hw => ih r (hk r w hw)⟩

/-- If every action ends as it is described, so does every program. -/
theorem Wp.ends (sound : ∀ {a v s P}, good v s → S.pre a v P → Ends good log E P v (eval a s))
    {v : V} {s : σ} (hg : good v s) (hx : x.Wp S v Q) : Ends good log E Q v (x.traced eval s) := by
  induction x generalizing v s with
  | ret y => exact .inr ⟨y,s,v,rfl,hg,hx,(List.append_nil _).symm⟩
  | act a k ih =>
    obtain ⟨P,hp,hk⟩ := hx
    rw [traced]
    rcases sound hg hp with ⟨e,w,he,hw,hl⟩ | ⟨r,t,w,hr,ht,hw,hl⟩
    · exact .inl ⟨e,w,by rw [Traced.bind_of_error he],hw,by rw [Traced.bind_of_error he,hl]⟩
    · rw [Traced.bind_of_ok hr]
      rcases ih r ht (hk r w hw) with ⟨e,u,he,hu,hm⟩ | ⟨y,z,u,hy,hz,hu,hm⟩
      · exact .inl ⟨e,u,he,hu,by rw [hm,hl,List.append_assoc]⟩
      · exact .inr ⟨y,z,u,hy,hz,hu,by rw [hm,hl,List.append_assoc]⟩

/-- If every action emits only what `Φ` allows and, if it returns, leaves what is described, then a
program emits nothing else. -/
theorem Wp.emits {Φ : β → Prop} (sound : ∀ {a v s P}, good v s → S.pre a v P →
      (∀ b ∈ (eval a s).trace, Φ b) ∧
        ∀ r t, (eval a s).result = .ok (r,t) → ∃ w, good w t ∧ P r w)
    {v : V} {s : σ} (hg : good v s) (hx : x.Wp S v Q) : ∀ b ∈ (x.traced eval s).trace, Φ b := by
  induction x generalizing v s with
  | ret y => exact fun b hb => nomatch hb
  | act a k ih =>
    obtain ⟨P,hp,hk⟩ := hx
    obtain ⟨hb,hok⟩ := sound hg hp
    rw [traced]
    cases hr : (eval a s).result with
    | error e =>
      rw [Traced.bind_of_error hr]
      exact hb
    | ok r =>
      rw [Traced.bind_of_ok hr]
      obtain ⟨w,hw,hP⟩ := hok r.1 r.2 hr
      exact List.forall_mem_append.mpr ⟨hb,ih r.1 hw (hk _ w hP)⟩

end Prog
end Xv6.Lib
