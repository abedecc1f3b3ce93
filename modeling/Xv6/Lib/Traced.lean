import Mathlib.Data.Finset.Card

/-! Computations that leave a trace of what they have done, also when they fail, and bounds on the
number of distinct things in a trace. Nothing here depends on a particular system. -/
namespace Xv6.Lib

/-- A computation that emits values and then fails or returns. -/
structure Traced (β ε α : Type) where
  trace : List β
  result : Except ε α

namespace Traced
variable {β ε α γ : Type}

@[simps]
def emit (b : β) : Traced β ε Unit := ⟨[b],.ok ()⟩

@[simps]
def fail (e : ε) : Traced β ε α := ⟨[],.error e⟩

def bind (x : Traced β ε α) (f : α → Traced β ε γ) : Traced β ε γ :=
  match x.result with
  | .ok a => ⟨x.trace++(f a).trace,(f a).result⟩
  | .error e => ⟨x.trace,.error e⟩

instance : Monad (Traced β ε) where
  pure a := ⟨[],.ok a⟩
  bind := bind

variable {x : Traced β ε α} {f : α → Traced β ε γ} {a : α} {e : ε} {b : β}

@[simp] lemma pure_trace : (pure a : Traced β ε α).trace = [] := rfl
@[simp] lemma pure_result : (pure a : Traced β ε α).result = .ok a := rfl

@[simp] lemma bind_result : (x >>= f).result = x.result >>= fun a => (f a).result := by
  show (bind x f).result = _
  unfold bind
  cases x.result with
  | ok a => rfl
  | error e => rfl

lemma result_bind {y : Except ε α} {g : α → Except ε γ} (h : x.result = y)
    (hf : ∀ a, (f a).result = g a) : (x >>= f).result = y >>= g := by
  rw [bind_result,h]
  exact congrArg _ (funext hf)

lemma bind_of_ok (h : x.result = .ok a) :
    (x >>= f) = ⟨x.trace++(f a).trace,(f a).result⟩ := by
  show bind x f = _
  rw [bind,h]

lemma bind_of_error (h : x.result = .error e) : (x >>= f) = ⟨x.trace,.error e⟩ := by
  show bind x f = _
  rw [bind,h]

lemma bind_of_pure (h : x = pure a) : (x >>= f) = f a := by
  rw [bind_of_ok (a := a) (by rw [h]; rfl),h]
  rfl

end Traced

/-- Apart from those in `K`, at most `n` distinct values are in `l`. -/
def Few {β : Type} (K : Finset β) (n : ℕ) (l : List β) : Prop :=
  ∃ S : Finset β, S.card ≤ n ∧ ∀ b ∈ l, b ∈ K ∨ b ∈ S

namespace Few
variable {β ε α γ : Type} {K K' : Finset β} {n m : ℕ} {l l' : List β}

lemma nil : Few K n [] := ⟨∅,Nat.zero_le _,nofun⟩

lemma of_mem (h : ∀ b ∈ l, b ∈ K) : Few K n l := ⟨∅,Nat.zero_le _,fun b hb => .inl (h b hb)⟩

lemma mono (h : Few K n l) (hK : K ⊆ K') (hn : n ≤ m) : Few K' m l := by
  obtain ⟨S,hS,hl⟩ := h
  exact ⟨S,hS.trans hn,fun b hb => (hl b hb).imp_left fun h => hK h⟩

lemma le (h : Few K n l) (hn : n ≤ m) : Few K m l := h.mono (Finset.Subset.refl K) hn

variable [DecidableEq β]

lemma append (h : Few K n l) (h' : Few K m l') : Few K (n+m) (l++l') := by
  obtain ⟨S,hS,hl⟩ := h
  obtain ⟨T,hT,hl'⟩ := h'
  refine ⟨S ∪ T,(Finset.card_union_le S T).trans (Nat.add_le_add hS hT),fun b hb => ?_⟩
  rcases List.mem_append.mp hb with hb | hb
  · exact (hl b hb).imp_right fun h => Finset.mem_union_left T h
  · exact (hl' b hb).imp_right fun h => Finset.mem_union_right S h

lemma card_le (h : Few K n l) : l.toFinset.card ≤ K.card+n := by
  obtain ⟨S,hS,hl⟩ := h
  calc l.toFinset.card ≤ (K ∪ S).card := Finset.card_le_card fun b hb =>
        Finset.mem_union.mpr (hl b (List.mem_toFinset.mp hb))
    _ ≤ K.card+S.card := Finset.card_union_le K S
    _ ≤ K.card+n := Nat.add_le_add_left hS _

lemma bind {x : Traced β ε α} {f : α → Traced β ε γ} (h : Few K n x.trace)
    (hf : ∀ a, x.result = .ok a → Few K m (f a).trace) : Few K (n+m) (x >>= f).trace := by
  cases hx : x.result with
  | ok a =>
    rw [Traced.bind_of_ok hx]
    exact h.append (hf a hx)
  | error e =>
    rw [Traced.bind_of_error hx]
    exact h.le (Nat.le_add_right n m)

end Few
end Xv6.Lib
