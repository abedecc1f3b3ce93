import Mathlib.Tactic

/-! Sequences of single-cell writes to a store, and the facts a redo log rests on:
a full replay absorbs any earlier partial replay. -/
namespace Xv6.Lib

variable {κ ν : Type*} [DecidableEq κ]

/-- Perform the writes in order. -/
def applyWrites (d : κ → ν) : List (κ × ν) → κ → ν
  | [] => d
  | w::ws => applyWrites (Function.update d w.1 w.2) ws

@[simp] theorem applyWrites_nil (d : κ → ν) : applyWrites d [] = d := rfl

@[simp] theorem applyWrites_cons (d : κ → ν) (w : κ × ν) (ws : List (κ × ν)) :
    applyWrites d (w::ws) = applyWrites (Function.update d w.1 w.2) ws := rfl

theorem applyWrites_append (d : κ → ν) (ws vs : List (κ × ν)) :
    applyWrites d (ws++vs) = applyWrites (applyWrites d ws) vs := by
  induction ws generalizing d with
  | nil => rfl
  | cons w ws ih => exact ih _

/-- A cell that is not written keeps its value. -/
theorem applyWrites_of_not_mem (d : κ → ν) (ws : List (κ × ν)) (x : κ)
    (h : ∀ w ∈ ws, w.1 ≠ x) : applyWrites d ws x = d x := by
  induction ws generalizing d with
  | nil => rfl
  | cons w ws ih =>
    rw [applyWrites_cons,ih _ (fun v hv => h v (List.mem_cons_of_mem _ hv)),
      Function.update_of_ne (h w List.mem_cons_self).symm]

/-- The result at a cell depends on the old value only if the cell is not written. -/
theorem applyWrites_congr (d e : κ → ν) (ws : List (κ × ν)) (x : κ)
    (h : (∃ w ∈ ws, w.1 = x) ∨ d x = e x) : applyWrites d ws x = applyWrites e ws x := by
  induction ws generalizing d e with
  | nil => simpa using h
  | cons w ws ih =>
    apply ih
    by_cases hw : x = w.1
    · right; subst hw; simp
    · rcases h with ⟨v,hv,hvx⟩ | h
      · rcases List.mem_cons.mp hv with rfl | hv
        · exact absurd hvx.symm hw
        · exact .inl ⟨v,hv,hvx⟩
      · right; simp [Function.update_of_ne hw,h]

/-- Writes that touch only cells which `ws` writes anyway are absorbed by `ws`. -/
theorem applyWrites_absorb (d : κ → ν) (vs ws : List (κ × ν))
    (h : ∀ v ∈ vs, ∃ w ∈ ws, w.1 = v.1) : applyWrites (applyWrites d vs) ws = applyWrites d ws := by
  funext x
  apply applyWrites_congr
  by_cases hv : ∃ v ∈ vs, v.1 = x
  · obtain ⟨v,hv,rfl⟩ := hv
    exact .inl (h v hv)
  · exact .inr (applyWrites_of_not_mem d vs x fun v hv' e => hv ⟨v,hv',e⟩)

/-- With distinct cells the written value is the one listed. -/
theorem applyWrites_of_mem (d : κ → ν) (ws : List (κ × ν)) (h : (ws.map Prod.fst).Nodup)
    {w : κ × ν} (hw : w ∈ ws) : applyWrites d ws w.1 = w.2 := by
  induction ws generalizing d with
  | nil => cases hw
  | cons v ws ih =>
    rw [List.map_cons,List.nodup_cons] at h
    rcases List.mem_cons.mp hw with rfl | hw
    · rw [applyWrites_cons,applyWrites_of_not_mem]
      · simp
      · intro u hu e
        exact h.1 (List.mem_map.mpr ⟨u,hu,e⟩)
    · exact ih _ h.2 hw

end Xv6.Lib
