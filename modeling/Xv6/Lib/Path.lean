import Mathlib.Tactic

/-! Linked lists in a memory that gives every node its successor. -/
namespace Xv6.Lib

variable {α : Type*} {next next' : α → α} {a b c : α} {l m : List α}

/-- From `a` on the nodes `l` are met in this order, and the one after them is `b`. -/
def Path (next : α → α) : α → List α → α → Prop
  | a,[],b => a = b
  | a,c::l,b => a = c ∧ Path next (next a) l b

namespace Path

@[simp] lemma nil_iff : Path next a [] b ↔ a = b := Iff.rfl

@[simp] lemma cons_iff : Path next a (c::l) b ↔ a = c ∧ Path next (next a) l b := Iff.rfl

lemma append_iff : Path next a (l++m) b ↔ ∃ c, Path next a l c ∧ Path next c m b := by
  induction l generalizing a with
  | nil => simp
  | cons d l ih => simp [ih,and_assoc]

lemma congr (h : Path next a l b) (hn : ∀ c ∈ l, next' c = next c) : Path next' a l b := by
  induction l generalizing a with
  | nil => exact h
  | cons d l ih =>
    obtain ⟨rfl,h⟩ := h
    refine ⟨rfl,?_⟩
    rw [hn a List.mem_cons_self]
    exact ih h fun c hc => hn c (List.mem_cons_of_mem _ hc)

lemma split (h : Path next a (l++c::m) b) : Path next a l c ∧ Path next (next c) m b := by
  obtain ⟨d,h₁,rfl,h₂⟩ := append_iff.mp h
  exact ⟨h₁,h₂⟩

lemma join (h₁ : Path next a l c) (h₂ : Path next (next c) m b) : Path next a (l++c::m) b :=
  append_iff.mpr ⟨c,h₁,rfl,h₂⟩

/-- The successor of a node on a path is the next node, or the end. -/
lemma next_eq (h : Path next a (l++c::m) b) : next c = m.head?.getD b := by
  cases m with
  | nil => exact h.split.2
  | cons d m => exact h.split.2.1

lemma next_last (h : Path next (next a) l b) : next (l.getLast?.getD a) = b := by
  induction l generalizing a with
  | nil => exact h
  | cons c l ih =>
    obtain ⟨rfl,h⟩ := h
    rw [List.getLast?_cons,Option.getD_some]
    exact ih h

/-- A set of nodes that is closed under successors is not left. -/
lemma mem_of_closed {S : Set α} (h : Path next a l b) (ha : a ∈ S) (hS : ∀ c ∈ S, next c ∈ S) :
    ∀ c ∈ l, c ∈ S := by
  induction l generalizing a with
  | nil => exact nofun
  | cons d l ih =>
    obtain ⟨rfl,h⟩ := h
    exact List.forall_mem_cons.mpr ⟨ha,ih h (hS a ha)⟩

/-- A cycle seen from another one of its nodes. -/
lemma rotate (h : Path next a (l++c::m) a) : Path next c (c::m++l) c := by
  obtain ⟨h₁,h₂⟩ := h.split
  exact ⟨rfl,append_iff.mpr ⟨a,h₂,h₁⟩⟩

end Path
end Xv6.Lib
