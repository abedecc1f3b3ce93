import Mathlib.Tactic

/-! A table of slots as a finite map. A slot is free or holds a key with its value; a key is stored
in at most one slot, new keys go to a free slot or to the end. Nothing here depends on what is
stored. -/
namespace Xv6.Lib
open List

namespace Slots
variable {κ ν : Type*} [DecidableEq κ]

/-- The value of a key in the first slot that holds it. -/
def lookup (l : List (Option (κ×ν))) (k : κ) : Option ν :=
  l.findSome? fun o => o.bind fun p => if p.1 = k then some p.2 else none

/-- No key is stored twice. -/
def Distinct (l : List (Option (κ×ν))) : Prop :=
  ∀ (i j : ℕ) k v w, l[i]? = some (some (k,v)) → l[j]? = some (some (k,w)) → i = j

/-- A slot is filled; the one after the last is appended. -/
def put (l : List (Option (κ×ν))) (i : ℕ) (o : Option (κ×ν)) : List (Option (κ×ν)) :=
  if i < l.length then l.set i o else l++[o]

variable {l : List (Option (κ×ν))} {k : κ} {v : ν} {i : ℕ}

theorem lookup_eq_none : lookup l k = none ↔ ∀ (i : ℕ) v, l[i]? ≠ some (some (k,v)) := by
  rw [lookup,List.findSome?_eq_none_iff]
  constructor
  · intro h i v hi
    have := h _ (mem_of_getElem? hi)
    simp at this
  · intro h o ho
    obtain ⟨i,hi⟩ := List.getElem?_of_mem ho
    cases o with
    | none => rfl
    | some p =>
      rw [Option.bind_some,if_neg]
      rintro rfl
      exact h i p.2 hi

theorem exists_of_lookup (h : lookup l k = some v) : ∃ i : ℕ, l[i]? = some (some (k,v)) := by
  obtain ⟨o,ho,hv⟩ := exists_of_findSome?_eq_some h
  obtain ⟨i,hi⟩ := List.getElem?_of_mem ho
  obtain ⟨p,rfl,hp⟩ := Option.bind_eq_some_iff.mp hv
  obtain ⟨hk,hp⟩ := Option.ite_none_right_eq_some.mp hp
  exact ⟨i,by rw [hi,← hk,← Option.some.inj hp]⟩

/-- In a table without double keys the slots and the map say the same. -/
theorem Distinct.lookup_eq_some (h : Distinct l) :
    lookup l k = some v ↔ ∃ i : ℕ, l[i]? = some (some (k,v)) := by
  refine ⟨exists_of_lookup,?_⟩
  rintro ⟨i,hi⟩
  cases hl : lookup l k with
  | none => exact absurd hi (lookup_eq_none.mp hl i v)
  | some w =>
    obtain ⟨j,hj⟩ := exists_of_lookup hl
    obtain rfl := h i j k v w hi hj
    rw [hi,Option.some.injEq,Option.some.injEq,Prod.mk.injEq] at hj
    rw [hj.2]

/-- Two tables with the same slots in use give the same map. -/
theorem lookup_congr {l' : List (Option (κ×ν))} (h : Distinct l) (h' : Distinct l')
    (he : ∀ v, (∃ i : ℕ, l'[i]? = some (some (k,v))) ↔ ∃ i : ℕ, l[i]? = some (some (k,v))) :
    lookup l' k = lookup l k := by
  apply Option.ext
  intro v
  rw [h.lookup_eq_some,h'.lookup_eq_some,he v]

omit [DecidableEq κ] in
theorem getElem?_put (o : Option (κ×ν)) (hi : i ≤ l.length) (j : ℕ) :
    (put l i o)[j]? = if j = i then some o else l[j]? := by
  unfold put
  split_ifs with hlt hj hj
  · rw [hj,List.getElem?_set_self hlt]
  · exact List.getElem?_set_ne (Ne.symm hj)
  · rw [hj,show i = l.length by omega,List.getElem?_concat_length]
  · by_cases hjl : j < l.length
    · exact List.getElem?_append_left hjl
    · rw [List.getElem?_eq_none (by simp; omega),List.getElem?_eq_none (by omega)]

/-- A new key is stored in a free slot. -/
theorem Distinct.insert (h : Distinct l) (hi : i ≤ l.length) (hfree : ∀ o, l[i]? = some o → o = none)
    (hk : lookup l k = none) (v : ν) : Distinct (put l i (some (k,v))) ∧
      lookup (put l i (some (k,v))) = Function.update (lookup l) k (some v) := by
  have hget := getElem?_put (l := l) (some (k,v)) hi
  rw [lookup_eq_none] at hk
  have hd : Distinct (put l i (some (k,v))) := by
    intro a b k' x y ha hb
    rw [hget] at ha hb
    split_ifs at ha hb with h₁ h₂ h₂
    · rw [h₁,h₂]
    · obtain ⟨rfl,-⟩ : k = k' ∧ v = x := by simpa using ha
      exact absurd hb (hk b y)
    · obtain ⟨rfl,-⟩ : k = k' ∧ v = y := by simpa using hb
      exact absurd ha (hk a x)
    · exact h a b k' x y ha hb
  refine ⟨hd,?_⟩
  funext k'
  by_cases hkk : k' = k
  · subst hkk
    rw [Function.update_self,hd.lookup_eq_some]
    exact ⟨i,by rw [hget,if_pos rfl]⟩
  · rw [Function.update_of_ne hkk]
    refine lookup_congr h hd fun w => ⟨?_,?_⟩
    · rintro ⟨j,hj⟩
      rw [hget] at hj
      split_ifs at hj with hji
      · obtain ⟨rfl,-⟩ : k = k' ∧ v = w := by simpa using hj
        exact absurd rfl hkk
      · exact ⟨j,hj⟩
    · rintro ⟨j,hj⟩
      refine ⟨j,?_⟩
      rw [hget,if_neg,hj]
      rintro rfl
      exact nomatch hfree _ hj

/-- A slot in use is freed. -/
theorem Distinct.erase (h : Distinct l) (hi : l[i]? = some (some (k,v))) :
    Distinct (put l i none) ∧ lookup (put l i none) = Function.update (lookup l) k none := by
  have hlt := (List.getElem?_eq_some_iff.mp hi).1
  have hget := getElem?_put (l := l) (none : Option (κ×ν)) hlt.le
  have hd : Distinct (put l i (none : Option (κ×ν))) := by
    intro a b k' x y ha hb
    rw [hget] at ha hb
    split_ifs at ha hb with h₁ h₂ h₂
    · cases ha
    · cases ha
    · cases hb
    · exact h a b k' x y ha hb
  refine ⟨hd,?_⟩
  funext k'
  by_cases hkk : k' = k
  · subst hkk
    rw [Function.update_self,lookup_eq_none]
    intro j w hj
    rw [hget] at hj
    split_ifs at hj with hji
    · cases hj
    · exact hji (h j i k' w v hj hi)
  · rw [Function.update_of_ne hkk]
    refine lookup_congr h hd fun w => ⟨?_,?_⟩
    · rintro ⟨j,hj⟩
      rw [hget] at hj
      split_ifs at hj with hji
      · cases hj
      · exact ⟨j,hj⟩
    · rintro ⟨j,hj⟩
      refine ⟨j,?_⟩
      rw [hget,if_neg,hj]
      rintro rfl
      rw [hi,Option.some.injEq,Option.some.injEq,Prod.mk.injEq] at hj
      exact hkk hj.1.symm

/-! The number of slots with a property that free slots do not have. -/

variable {P : Option (κ×ν) → Bool}

omit [DecidableEq κ] in
theorem countP_set (hi : i < l.length) (o : Option (κ×ν)) :
    (l.set i o).countP P+(if P l[i] then 1 else 0) = l.countP P+(if P o then 1 else 0) := by
  induction l generalizing i with
  | nil => exact absurd hi (Nat.not_lt_zero i)
  | cons a l ih =>
    cases i with
    | zero =>
      rw [set_cons_zero,countP_cons,countP_cons,getElem_cons_zero]
      omega
    | succ i =>
      rw [set_cons_succ,countP_cons,countP_cons,getElem_cons_succ]
      have := ih (Nat.lt_of_succ_lt_succ hi)
      omega

omit [DecidableEq κ] in
theorem countP_insert (hP : P none = false)
    (hfree : ∀ o, l[i]? = some o → o = none) (o : Option (κ×ν)) :
    (put l i o).countP P = l.countP P+(if P o then 1 else 0) := by
  by_cases hlt : i < l.length
  · have h := countP_set (P := P) hlt o
    rw [hfree _ (List.getElem?_eq_getElem hlt),hP] at h
    rw [put,if_pos hlt]
    simpa using h
  · rw [put,if_neg hlt,countP_append,countP_singleton]

omit [DecidableEq κ] in
theorem countP_erase (hP : P none = false) {o : Option (κ×ν)}
    (hi : l[i]? = some o) : (put l i none).countP P+(if P o then 1 else 0) = l.countP P := by
  obtain ⟨hlt,rfl⟩ := List.getElem?_eq_some_iff.mp hi
  have h := countP_set (P := P) hlt none
  rw [hP] at h
  rw [put,if_pos hlt]
  simpa using h

omit [DecidableEq κ] in
theorem countP_eq_one (hP : P none = false) {o : Option (κ×ν)}
    (hi : l[i]? = some o) (ho : P o = true) (h : ∀ j o', l[j]? = some o' → P o' → j = i) :
    l.countP P = 1 := by
  have hlt := (List.getElem?_eq_some_iff.mp hi).choose
  rw [← countP_erase hP hi,if_pos ho,countP_eq_zero.mpr]
  intro a ha hPa
  obtain ⟨j,hj⟩ := List.getElem?_of_mem ha
  rw [getElem?_put _ hlt.le] at hj
  split_ifs at hj with hji
  · cases hj
    exact Bool.false_ne_true (hP.symm.trans hPa)
  · exact hji (h j a hj hPa)

end Slots
end Xv6.Lib
