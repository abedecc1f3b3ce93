import Xv6.Proc.Wait

/-! The processes form a tree. A process is younger than the one that forked it, so the `parent`
fields, which `fork` sets and `reparent` redirects to `initproc`, never make a cycle. -/
namespace Xv6.Process
open Xv6.Lib Relation
open Function (update update_self update_of_ne)

/-- `q` is the parent of `p`. -/
def Sys.Child (s : Sys) (p q : Slot) : Prop := (s.proc p).parent = some q

lemma Family.init_used {s : Sys} (hf : Family s) : (s.proc initproc).state ≠ .unused := by
  intro hi
  have := hf.init.1
  simp [hi,PState.up] at this

/-- The numbers of processes grow down the tree. -/
structure Elders (s : Sys) : Prop where
  init : (s.life initproc).id = 0
  older : ∀ i, 0 < i → i < s.births → s.creator i < i

lemma id_struck (l : Slot → Life) (p q : Slot) (c : Cause) :
    (update l p ((l p).struck c) q).id = (l q).id := by
  by_cases h : q = p
  · subst h
    rw [update_self,Life.struck_id]
  · rw [update_of_ne h]

namespace Elders
variable {s t : Sys}

lemma ran {p : Slot} {ok : Bool} (h : Elders s) (hf : Family s) (hh : History s)
    (hp : (s.proc p).state = .running) (ht : Ran s p ok t) : Elders t := by
  cases ht with
  | @alloc np j hc hn =>
    have hne : initproc ≠ np := by
      rintro rfl
      exact hf.init_used hn
    have hp' : (s.life p).id < s.births := hh.fresh p (by simp [hp])
    constructor
    · simp [allocproc,update_of_ne hne,h.init]
    · intro i hi hb
      obtain rfl | hne := eq_or_ne i s.births
      · simpa [allocproc] using hp'
      · have hb' : i < s.births := by
          simp only [allocproc,if_true] at hb
          omega
        simpa [allocproc,update_of_ne hne] using h.older i hi hb'
  | killHit hc hq =>
    refine ⟨?_,h.older⟩
    simp only [strike]
    split
    · exact h.init
    · exact (id_struck ..).trans h.init
  | wakeInit hc | wakeParent hc =>
    simp only [wakeupAt]
    split <;> exact ⟨h.init,h.older⟩
  | _ => exact ⟨h.init,h.older⟩

lemma trans {e : Event} (h : Elders s) (hf : Family s) (hh : History s) (ht : Trans s e t) :
    Elders t := by
  cases ht with
  | fault hp => exact ⟨(id_struck ..).trans h.init,h.older⟩
  | run hp ht => exact h.ran hf hh hp ht
  | _ => exact ⟨h.init,h.older⟩

variable (h : Elders s) (hf : Family s) (hh : History s)
include h hf hh

lemma lt {p q : Slot} (hpq : s.Child p q) : (s.life q).id < (s.life p).id := by
  have hu : (s.proc p).state ≠ .unused := by
    intro hu
    simp [Sys.Child,hf.unused p hu] at hpq
  have hpos : 0 < (s.life p).id := by
    refine Nat.pos_of_ne_zero fun h0 => ?_
    obtain rfl := hh.unique p initproc hu hf.init_used (by rw [h0,h.init])
    simp [Sys.Child,hf.init.2] at hpq
  obtain hq | ⟨rfl,-⟩ := hh.parents p q hpq
  · rw [hq]
    exact h.older _ hpos (hh.fresh p hu)
  · rwa [h.init]

/-- The parents of a process lead to `initproc`. -/
lemma reaches {p : Slot} (hp : (s.proc p).state.up = true ∨ (s.proc p).state = .zombie) :
    ReflTransGen s.Child p initproc := by
  -- by strong induction on the number of `p`
  induction hn : (s.life p).id using Nat.strong_induction_on generalizing p with
  | _ n ih =>
    obtain rfl | hne := eq_or_ne p initproc
    · exact .refl
    · obtain ⟨q,hq⟩ := Option.ne_none_iff_exists'.mp (hf.parents p hne hp)
      exact .head hq (ih _ (hn ▸ h.lt hf hh hq) (.inl (hf.alive p q hq)) rfl)

end Elders

lemma elders_runs {C : Sys → Event → Prop} {s : Sys} {es : List Event}
    (h : Runs step C boot es s) : (Family s ∧ History s) ∧ Elders s :=
  h.invariant_and (I := fun s => Family s ∧ History s)
    (fun _ _ _ hs _ ht => ⟨hs.1.trans (step_trans ht),hs.2.trans hs.1 (step_trans ht)⟩)
    (fun _ _ _ hs he _ ht => he.trans hs.1 hs.2 (step_trans ht))
    ⟨⟨family_boot,history_boot⟩,rfl,by simp [boot]; omega⟩

/-- The process tree: from every process that is neither unused nor being made the parents lead to `initproc`,
no process is its own ancestor, and every ancestor is alive, so that a zombie is a leaf. -/
theorem process_tree {es : List Event} {s : Sys} (h : Runs step (fun _ _ => True) boot es s) :
    (∀ p, (s.proc p).state ∈ [PState.sleeping,.runnable,.running,.zombie] →
      ReflTransGen s.Child p initproc) ∧
    (∀ p, ¬TransGen s.Child p p) ∧
    ∀ p q, TransGen s.Child p q → (s.proc q).state.up = true := by
  obtain ⟨⟨hf,hh⟩,he⟩ := elders_runs h
  refine ⟨fun p hp => he.reaches hf hh (PState.up_or_zombie hp),?_,?_⟩
  · intro p hp
    have hlt := hp.lift (p := (· > ·)) (fun p => (s.life p).id) fun _ _ => he.lt hf hh
    rw [transGen_eq_self] at hlt
    exact lt_irrefl _ hlt
  · intro p q hpq
    obtain ⟨r,-,hr⟩ := TransGen.tail'_iff.mp hpq
    exact hf.alive r q hr

lemma two_lt_NPROC : 2 < NPROC := by decide

/-- `initproc` forks a child, which forks a child of its own. -/
def grandchild : List Event :=
  let child : Slot := ⟨1,one_lt_NPROC⟩
  [Event.schedule initproc,.fork initproc]++List.replicate 4 (Event.run initproc true)++
    [Event.schedule child,.fork child]++List.replicate 5 (Event.run child true)

theorem process_tree_grandchild : ∃ s, Runs step (fun _ _ => True) boot grandchild s ∧
    ∃ p q, s.Child p q ∧ q ≠ initproc ∧ ReflTransGen s.Child p initproc := by
  obtain ⟨s,h,hs,hq⟩ := Runs.exists_of_execIf step (fun _ _ => True) boot grandchild
    (fun s => (s.proc ⟨2,two_lt_NPROC⟩).state = .runnable ∧
      (s.proc ⟨2,two_lt_NPROC⟩).parent = some ⟨1,one_lt_NPROC⟩) (by decide +kernel)
  exact ⟨s,h,_,_,hq,by decide,(process_tree h).1 _ (by simp [hs])⟩

end Xv6.Process
