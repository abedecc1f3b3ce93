import Xv6.User.Umalloc

/-! The free list of the allocator in two layers. A block is an address and a number of units; `free`
and `malloc` change a list of blocks, and the headers in memory represent that list. -/
namespace Xv6.Umalloc
open Lib List

/-! ### Lists of blocks -/

/-- The address `x` lies in the block. -/
def In (b : ℕ×ℕ) (x : ℕ) : Prop := b.1 ≤ x ∧ x < b.1+HEADER*b.2

def Covers (l : List (ℕ×ℕ)) (x : ℕ) : Prop := ∃ b ∈ l, In b x

/-- The units of the blocks. -/
def total (l : List (ℕ×ℕ)) : ℕ := (l.map Prod.snd).sum

/-- The blocks do not overlap. -/
def Apart (a b : ℕ×ℕ) : Prop := ∀ x, ¬(In a x ∧ In b x)

/-- One block lies below another, with a gap, and so do their headers. -/
def Below (a b : ℕ×ℕ) : Prop := a.1+HEADER ≤ b.1 ∧ a.1+HEADER*a.2 < b.1

/-- The headers at `p` and `q` do not overlap. -/
def Far (p q : ℕ) : Prop := p+HEADER ≤ q ∨ q+HEADER ≤ p

/-- The units of the first of the blocks `m`, if `b` touches it. -/
def rise (b : ℕ×ℕ) : List (ℕ×ℕ) → ℕ
  | [] => 0
  | c::_ => if b.1+HEADER*b.2 = c.1 then c.2 else 0

/-- The block `b` and the blocks above it, joined to the first of them if it touches that. -/
def joinUp (b : ℕ×ℕ) : List (ℕ×ℕ) → List (ℕ×ℕ)
  | [] => [b]
  | c::m => if b.1+HEADER*b.2 = c.1 then (b.1,b.2+c.2)::m else b::c::m

/-- What is left of the block `p` when its last `u` units are taken. -/
def shrink (p : ℕ×ℕ) (u : ℕ) : List (ℕ×ℕ) := if p.2 = u then [] else [(p.1,p.2-u)]

/-- The blocks `l` divide up the memory `c`. -/
structure Divides (l c : List (ℕ×ℕ)) : Prop where
  covers : ∀ x, Covers l x → Covers c x
  apart : l.Pairwise Apart
  units : total l = total c

/-- The free list: `base` and the free blocks in ascending order, with gaps. -/
structure Chain (P : Program) (l : List (ℕ×ℕ)) : Prop where
  head : ∃ t, l = (P.base,0)::t ∧ ∀ b ∈ t, 0 < b.2
  sorted : l.Pairwise Below
  end_lt : ∀ b ∈ l, b.1+HEADER*b.2 < 2^64

/-- Where a block belongs: after `p` and before `m`. -/
structure Place (k : List (ℕ×ℕ)) (p : ℕ×ℕ) (m : List (ℕ×ℕ)) (b : ℕ×ℕ) : Prop where
  below : ∀ a ∈ k++[p], a.1+HEADER ≤ b.1 ∧ a.1+HEADER*a.2 ≤ b.1
  above : ∀ a ∈ m, b.1+HEADER*b.2 ≤ a.1

section Blocks
variable {P : Program} {a b c p q : ℕ×ℕ} {k l l' m r : List (ℕ×ℕ)} {x u : ℕ}

lemma Apart.symm (h : Apart a b) : Apart b a := fun x hx => h x hx.symm

lemma in_self (h : 0 < b.2) : In b b.1 := by
  refine ⟨le_rfl,?_⟩
  simp only [HEADER]
  omega

lemma Apart.far (h : Apart a b) (ha : 0 < a.2) (hb : 0 < b.2) : Far a.1 b.1 := by
  have h₁ := h a.1
  have h₂ := h b.1
  simp only [In,Far,HEADER] at h₁ h₂ ⊢
  omega

namespace Below

lemma lt (h : Below a b) : a.1 < b.1 := by
  simp only [Below,HEADER] at h
  omega

lemma apart (h : Below a b) : Apart a b := by
  intro x hx
  simp only [In,Below] at h hx
  omega

lemma trans_le (h : Below a b) (h' : b.1 ≤ c.1) : Below a c := ⟨h.1.trans h',h.2.trans_le h'⟩

end Below

lemma covers_cons : Covers (a::l) x ↔ In a x ∨ Covers l x := by simp [Covers]

lemma covers_append : Covers (k++l) x ↔ Covers k x ∨ Covers l x := by
  simp [Covers,or_and_right,exists_or]

lemma total_cons : total (a::l) = a.2+total l := List.sum_cons

lemma total_append : total (k++l) = total k+total l := by simp [total]

namespace Divides

lemma perm (D : Divides l r) (h : l.Perm l') : Divides l' r := by
  refine ⟨fun x ⟨b,hb,hx⟩ => D.covers x ⟨b,h.mem_iff.mpr hb,hx⟩,?_,?_⟩
  · exact h.pairwise D.apart fun h => h.symm
  · rw [← D.units]
    exact (h.map _).sum_eq.symm

/-- Some of the blocks are replaced by others that cover the same memory. -/
lemma replace (D : Divides (l++k) r) (hap : l'.Pairwise Apart)
    (hc : ∀ x, Covers l' x ↔ Covers l x) (ht : total l' = total l) : Divides (l'++k) r := by
  refine ⟨fun x hx => D.covers x ?_,?_,?_⟩
  · rwa [covers_append,← hc x,← covers_append]
  · obtain ⟨-,hk,hlk⟩ := pairwise_append.mp D.apart
    refine pairwise_append.mpr ⟨hap,hk,fun a ha b hb x hx => ?_⟩
    obtain ⟨a',ha',hx'⟩ := (hc x).mp ⟨a,ha,hx.1⟩
    exact hlk a' ha' b hb x ⟨hx',hx.2⟩
  · rw [total_append,ht,← total_append,D.units]

lemma cons (D : Divides l r) (hb : ∀ x, In b x → ¬Covers r x) : Divides (b::l) (b::r) := by
  refine ⟨fun x hx => ?_,pairwise_cons.mpr ⟨fun a ha x hx => ?_,D.apart⟩,?_⟩
  · rw [covers_cons] at hx ⊢
    exact hx.imp id (D.covers x)
  · exact hb x hx.1 (D.covers x ⟨a,ha,hx.2⟩)
  · rw [total_cons,total_cons,D.units]

end Divides

/-! ### Joining and splitting blocks -/

lemma joinUp_cases (b : ℕ×ℕ) (m : List (ℕ×ℕ)) :
    (∃ c m', m = c::m' ∧ b.1+HEADER*b.2 = c.1 ∧ joinUp b m = (b.1,b.2+c.2)::m' ∧ rise b m = c.2) ∨
      joinUp b m = b::m ∧ rise b m = 0 ∧ ∀ c ∈ m.head?, b.1+HEADER*b.2 ≠ c.1 := by
  cases m with
  | nil => exact .inr ⟨rfl,rfl,nofun⟩
  | cons c m =>
    by_cases h : b.1+HEADER*b.2 = c.1
    · exact .inl ⟨c,m,rfl,h,if_pos h,if_pos h⟩
    · refine .inr ⟨if_neg h,if_neg h,fun c' hc => ?_⟩
      cases hc
      exact h

/-- The joined list begins at the same address, and goes on with the old one. -/
lemma joinUp_eq (b : ℕ×ℕ) (m : List (ℕ×ℕ)) :
    ∃ m', m' <:+ m ∧ joinUp b m = (b.1,b.2+rise b m)::m' := by
  obtain ⟨c,m',rfl,-,hj,hr⟩ | ⟨hj,hr,-⟩ := joinUp_cases b m
  · exact ⟨m',suffix_cons c m',by rw [hj,hr]⟩
  · exact ⟨m,suffix_refl m,by rw [hj,hr,Nat.add_zero]⟩

lemma forall_joinUp {Q : ℕ×ℕ → Prop} (hm : ∀ c ∈ m, Q c) (hb : Q b)
    (hj : ∀ c ∈ m, b.1+HEADER*b.2 = c.1 → Q (b.1,b.2+c.2)) : ∀ a ∈ joinUp b m, Q a := by
  obtain ⟨c,m',rfl,he,hj',-⟩ | ⟨hj',-⟩ := joinUp_cases b m <;> rw [hj']
  · exact forall_mem_cons.mpr ⟨hj c mem_cons_self he,(forall_mem_cons.mp hm).2⟩
  · exact forall_mem_cons.mpr ⟨hb,hm⟩

lemma covers_joinUp : Covers (joinUp b m) x ↔ In b x ∨ Covers m x := by
  obtain ⟨c,m',rfl,he,hj,-⟩ | ⟨hj,-⟩ := joinUp_cases b m <;> rw [hj]
  · rw [covers_cons,covers_cons,← or_assoc]
    refine or_congr_left ?_
    simp only [In,HEADER] at he ⊢
    omega
  · exact covers_cons

lemma total_joinUp : total (joinUp b m) = b.2+total m := by
  obtain ⟨c,m',rfl,-,hj,-⟩ | ⟨hj,-⟩ := joinUp_cases b m <;> rw [hj]
  · rw [total_cons,total_cons,Nat.add_assoc]
  · exact total_cons

lemma rise_le (b : ℕ×ℕ) (m : List (ℕ×ℕ)) : rise b m ≤ total m := by
  obtain ⟨c,m',rfl,-,-,hr⟩ | ⟨-,hr,-⟩ := joinUp_cases b m <;> rw [hr]
  · exact (Nat.le_add_right _ _).trans total_cons.ge
  · exact Nat.zero_le _

lemma sorted_joinUp (hm : m.Pairwise Below)
    (hb : ∀ c ∈ m, b.1+HEADER ≤ c.1 ∧ b.1+HEADER*b.2 ≤ c.1) : (joinUp b m).Pairwise Below := by
  obtain ⟨c,m',rfl,he,hj,-⟩ | ⟨hj,-,hne⟩ := joinUp_cases b m <;> rw [hj]
  · obtain ⟨hc,hm'⟩ := pairwise_cons.mp hm
    refine pairwise_cons.mpr ⟨fun a ha => ⟨(hb a (mem_cons_of_mem _ ha)).1,?_⟩,hm'⟩
    have := (hc a ha).2
    simp only [HEADER] at he this ⊢
    omega
  · refine pairwise_cons.mpr ⟨fun a ha => ⟨(hb a ha).1,lt_of_le_of_ne (hb a ha).2 fun he => ?_⟩,hm⟩
    -- only the first one could be touched
    cases m with
    | nil => cases ha
    | cons c m =>
      obtain rfl | ha := mem_cons.mp ha
      · exact hne a rfl he
      · have h₁ := ((pairwise_cons.mp hm).1 a ha).lt
        have h₂ := (hb c mem_cons_self).2
        omega

namespace Chain

lemma base_mem (C : Chain P l) : (P.base,0) ∈ l := by
  obtain ⟨t,rfl,-⟩ := C.head
  exact mem_cons_self

lemma base_or (C : Chain P l) (ha : a ∈ l) : a = (P.base,0) ∨ P.base+HEADER ≤ a.1 ∧ 0 < a.2 := by
  have hs := C.sorted
  obtain ⟨t,rfl,ht⟩ := C.head
  refine (mem_cons.mp ha).imp id fun ha => ⟨?_,ht a ha⟩
  exact ((pairwise_cons.mp hs).1 a ha).1

lemma base_le (C : Chain P l) (ha : a ∈ l) : P.base ≤ a.1 := by
  obtain rfl | ⟨h,-⟩ := C.base_or ha
  · exact le_rfl
  · exact (Nat.le_add_right _ _).trans h

lemma apart (C : Chain P l) : l.Pairwise Apart := C.sorted.imp fun h => h.apart

lemma below_next (C : Chain P (k++p::m)) : ∀ a ∈ m, Below p a :=
  (pairwise_cons.mp (pairwise_append.mp C.sorted).2.1).1

lemma below_prev (C : Chain P (k++p::m)) : ∀ a ∈ k, Below a p := fun a ha =>
  (pairwise_append.mp C.sorted).2.2 a ha p mem_cons_self

lemma sorted_next (C : Chain P (k++p::m)) : m.Pairwise Below :=
  (pairwise_cons.mp (pairwise_append.mp C.sorted).2.1).2

lemma pos_next (C : Chain P (k++p::m)) (ha : a ∈ m) : P.base+HEADER ≤ a.1 ∧ 0 < a.2 := by
  refine (C.base_or (show a ∈ k++p::m by simp [ha])).resolve_left fun he => ?_
  have h₁ := (C.below_next a ha).lt
  have h₂ := C.base_le (show p ∈ k++p::m by simp)
  rw [he] at h₁
  exact absurd h₂ (Nat.not_le.mpr h₁)

/-- Two blocks of the list are one or lie apart. -/
lemma eq_or (C : Chain P l) (ha : a ∈ l) (hb : b ∈ l) : a = b ∨ Below a b ∨ Below b a := by
  obtain ⟨k,m,rfl⟩ := append_of_mem ha
  rcases mem_append.mp hb with hb | hb
  · exact .inr (.inr (C.below_prev b hb))
  · exact (mem_cons.mp hb).imp Eq.symm fun hb => .inl (C.below_next b hb)

lemma length_le (C : Chain P l) : l.length ≤ total l+1 := by
  obtain ⟨t,rfl,ht⟩ := C.head
  have hpos : ∀ i ∈ t.map Prod.snd, 1 ≤ i := by
    intro i hi
    obtain ⟨a,ha,rfl⟩ := mem_map.mp hi
    exact ht a ha
  have := length_le_sum_of_one_le _ hpos
  rw [length_map] at this
  rw [length_cons,total_cons,total]
  omega

/-- The list is kept up to a place, and goes on from there with `r`. -/
lemma extend (C : Chain P (k++p::m)) (hr : r.Pairwise Below) (hp : ∀ a ∈ r, p.1 ≤ a.1)
    (hend : ∀ a ∈ r, a.1+HEADER*a.2 < 2^64) (hpos : ∀ a ∈ r, a ≠ (P.base,0) → 0 < a.2)
    (hhead : p = (P.base,0) → ∃ t, r = p::t) : Chain P (k++r) := by
  have hk := pairwise_append.mp C.sorted
  have hsorted : (k++r).Pairwise Below :=
    pairwise_append.mpr ⟨hk.1,hr,fun a ha b hb => (C.below_prev a ha).trans_le (hp b hb)⟩
  refine ⟨?_,hsorted,fun b hb => ?_⟩
  · have hh : ∃ t, k++r = (P.base,0)::t := by
      obtain ⟨t,ht,-⟩ := C.head
      cases k with
      | nil =>
        obtain ⟨rfl,-⟩ := List.cons.inj ht
        exact hhead rfl
      | cons c k => exact ⟨k++r,by rw [(List.cons.inj ht).1]; rfl⟩
    obtain ⟨t,ht⟩ := hh
    refine ⟨t,ht,fun b hb => ?_⟩
    rw [ht] at hsorted
    have hne : b ≠ (P.base,0) := fun he => by
      have := ((pairwise_cons.mp hsorted).1 b hb).lt
      rw [he] at this
      exact absurd this (Nat.lt_irrefl _)
    have hb : b ∈ k++r := by rw [ht]; exact mem_cons_of_mem _ hb
    rcases mem_append.mp hb with hb | hb
    · exact ((C.base_or (mem_append_left _ hb)).resolve_left hne).2
    · exact hpos b hb hne
  · exact (mem_append.mp hb).elim (fun hb => C.end_lt b (mem_append_left _ hb)) (hend b)

section Insert
variable (C : Chain P (k++p::m)) (hp : Place k p m b)
include C hp

/-- The block lies between its neighbours, joined to the upper one or not. -/
lemma above_prev : ∀ a ∈ joinUp b m, p.1+HEADER ≤ a.1 ∧ p.1+HEADER*p.2 ≤ a.1 := by
  have hpb := hp.below p (by simp)
  exact forall_joinUp (fun a ha => ⟨(C.below_next a ha).1,(C.below_next a ha).2.le⟩) hpb fun _ _ _ => hpb

lemma insert (h0 : 0 < b.2) (hend : b.1+HEADER*b.2 < 2^64) : Chain P (k++joinUp p (joinUp b m)) := by
  have habove := C.above_prev hp
  have hmem : ∀ a ∈ m, a ∈ k++p::m := fun a ha => by simp [ha]
  have hbm : ∀ c ∈ m, b.1+HEADER ≤ c.1 ∧ b.1+HEADER*b.2 ≤ c.1 := fun c hc => by
    have := hp.above c hc
    simp only [HEADER] at this ⊢
    omega
  have hsort : (joinUp b m).Pairwise Below := sorted_joinUp C.sorted_next hbm
  have hlt : ∀ a ∈ joinUp b m, a.1+HEADER*a.2 < 2^64 := by
    refine forall_joinUp (fun a ha => C.end_lt a (hmem a ha)) hend fun c hc he => ?_
    have := C.end_lt c (hmem c hc)
    simp only [HEADER] at he this ⊢
    omega
  have hpos : ∀ a ∈ joinUp b m, 0 < a.2 :=
    forall_joinUp (fun a ha => (C.pos_next ha).2) h0 fun c hc _ => Nat.add_pos_left h0 _
  refine C.extend (sorted_joinUp hsort habove) ?_ ?_ ?_ fun he => ?_
  · exact forall_joinUp (fun a ha => (Nat.le_add_right _ _).trans (habove a ha).1) le_rfl
      fun _ _ _ => le_rfl
  · refine forall_joinUp hlt (C.end_lt p (by simp)) fun c hc he => ?_
    have := hlt c hc
    simp only [HEADER] at he this ⊢
    omega
  · refine forall_joinUp (fun a ha _ => hpos a ha) (fun hne => ?_)
      fun c hc _ _ => Nat.add_pos_right _ (hpos c hc)
    exact ((C.base_or (show p ∈ k++p::m by simp)).resolve_left hne).2
  · obtain ⟨c,m',hm,hc,-⟩ | ⟨hj,-⟩ := joinUp_cases p (joinUp b m)
    · have := (habove c (by rw [hm]; exact mem_cons_self)).1
      rw [he] at hc this
      simp only [HEADER] at hc this
      omega
    · exact ⟨_,hj⟩

end Insert

/-- The place of a block that overlaps no free block. -/
lemma exists_place (C : Chain P l) (hb : P.base+HEADER ≤ b.1) (h0 : 0 < b.2)
    (hd : ∀ x, In b x → ¬Covers l x) : ∃ k p m, l = k++p::m ∧ Place k p m b := by
  have hout : ∀ a ∈ l, (a.1+HEADER ≤ b.1 ∧ a.1+HEADER*a.2 ≤ b.1) ∨ b.1+HEADER*b.2 ≤ a.1 := by
    intro a ha
    obtain rfl | ⟨-,hpos⟩ := C.base_or ha
    · exact .inl ⟨hb,(Nat.le_add_right _ _).trans hb⟩
    · have h₁ : ¬In a b.1 := fun hx => hd b.1 (in_self h0) ⟨a,ha,hx⟩
      have h₂ : ¬In b a.1 := fun hx => hd a.1 hx ⟨a,ha,in_self hpos⟩
      simp only [In,HEADER] at h₁ h₂ ⊢
      omega
  -- the blocks before `b` are those up to the last one below it
  have hsplit : ∀ (l : List (ℕ×ℕ)) (q : ℕ×ℕ), (q.1+HEADER ≤ b.1 ∧ q.1+HEADER*q.2 ≤ b.1) →
      (q::l).Pairwise Below →
      (∀ a ∈ l, (a.1+HEADER ≤ b.1 ∧ a.1+HEADER*a.2 ≤ b.1) ∨ b.1+HEADER*b.2 ≤ a.1) →
      ∃ k p m, q::l = k++p::m ∧ Place k p m b := by
    intro l
    induction l with
    | nil => exact fun q hq _ _ => ⟨[],q,[],rfl,⟨by simpa using hq,nofun⟩⟩
    | cons a l ih =>
      intro q hq hs ho
      obtain ha | ha := ho a mem_cons_self
      · obtain ⟨k,p,m,he,hp⟩ := ih a ha hs.tail fun b hb => ho b (mem_cons_of_mem _ hb)
        refine ⟨q::k,p,m,by rw [he]; rfl,⟨?_,hp.above⟩⟩
        rw [cons_append]
        exact forall_mem_cons.mpr ⟨hq,hp.below⟩
      · refine ⟨[],q,a::l,rfl,⟨by simpa using hq,forall_mem_cons.mpr ⟨ha,fun b hb => ?_⟩⟩⟩
        exact ha.trans ((pairwise_cons.mp hs.tail).1 b hb).lt.le
  have hs := C.sorted
  obtain ⟨t,rfl,-⟩ := C.head
  exact hsplit t _ ⟨hb,(Nat.le_add_right _ _).trans hb⟩ hs fun a ha => hout a (mem_cons_of_mem _ ha)

section Take
variable (C : Chain P (k++q::p::m)) (hp : u ≤ p.2)
include C hp

/-- The free list after `malloc`, which takes the end of the block `p`. -/
lemma take : Chain P (k++q::(shrink p u++m)) := by
  have hq := C.below_next
  have hpm : p ∈ k++q::p::m := by simp
  have hpp := (C.pos_next mem_cons_self).2
  have hs := pairwise_cons.mp C.sorted_next
  have hshrink : ∀ a ∈ shrink p u, a.1 = p.1 ∧ a.2 ≤ p.2 ∧ 0 < a.2 := by
    intro a ha
    rw [shrink] at ha
    split_ifs at ha
    · cases ha
    · rw [mem_singleton.mp ha]
      exact ⟨rfl,Nat.sub_le _ _,by omega⟩
  have hle : ∀ a ∈ shrink p u, a.1+HEADER*a.2 ≤ p.1+HEADER*p.2 := fun a ha => by
    obtain ⟨h₁,h₂,-⟩ := hshrink a ha
    rw [h₁]
    exact Nat.add_le_add_left (Nat.mul_le_mul_left _ h₂) _
  have hall : ∀ a ∈ shrink p u++m, Below q a ∧ 0 < a.2 ∧ a.1+HEADER*a.2 < 2^64 := by
    intro a ha
    rcases mem_append.mp ha with ha | ha
    · exact ⟨(hq p mem_cons_self).trans_le (hshrink a ha).1.ge,(hshrink a ha).2.2,
        (hle a ha).trans_lt (C.end_lt p hpm)⟩
    · exact ⟨hq a (mem_cons_of_mem _ ha),(C.pos_next (mem_cons_of_mem _ ha)).2,
        C.end_lt a (by simp [ha])⟩
  refine C.extend (pairwise_cons.mpr ⟨fun a ha => (hall a ha).1,pairwise_append.mpr
    ⟨?_,hs.2,fun a ha c hc => ?_⟩⟩) ?_ ?_ ?_ fun _ => ⟨_,rfl⟩
  · rw [shrink]
    split_ifs
    · exact List.Pairwise.nil
    · exact pairwise_singleton _ _
  · refine ⟨(hshrink a ha).1 ▸ (hs.1 c hc).1,(hle a ha).trans_lt (hs.1 c hc).2⟩
  · exact forall_mem_cons.mpr ⟨le_rfl,fun a ha => (hall a ha).1.lt.le⟩
  · exact forall_mem_cons.mpr ⟨C.end_lt q (by simp),fun a ha => (hall a ha).2.2⟩
  · refine forall_mem_cons.mpr ⟨fun hne => ?_,fun a ha _ => (hall a ha).2.1⟩
    exact ((C.base_or (show q ∈ k++q::p::m by simp)).resolve_left hne).2

/-- The blocks after `malloc`, with the one taken, make up the free memory. -/
lemma take_divides :
    (∀ x, Covers ((p.1+HEADER*(p.2-u),u)::(k++q::(shrink p u++m))) x ↔ Covers (k++q::p::m) x) ∧
      total ((p.1+HEADER*(p.2-u),u)::(k++q::(shrink p u++m))) = total (k++q::p::m) ∧
      ((p.1+HEADER*(p.2-u),u)::(k++q::(shrink p u++m))).Pairwise Apart := by
  have hsplit : ∀ x, (In (p.1+HEADER*(p.2-u),u) x ∨ Covers (shrink p u) x ↔ In p x) ∧
      ¬(In (p.1+HEADER*(p.2-u),u) x ∧ Covers (shrink p u) x) := by
    intro x
    rw [shrink]
    split_ifs with h
    · rw [h,Nat.sub_self,← h]
      simp [Covers,In]
    · simp only [Covers,In,mem_singleton,exists_eq_left,HEADER]
      omega
  have htot : u+total (shrink p u) = p.2 := by
    rw [shrink]
    split_ifs <;> simp only [total,map_nil,map_singleton,sum_nil,sum_singleton] <;>
      omega
  have hpm : p ∈ k++q::p::m := by simp
  refine ⟨fun x => ?_,?_,pairwise_cons.mpr ⟨fun a ha x hx => ?_,(C.take hp).apart⟩⟩
  · simp only [covers_cons,covers_append,← (hsplit x).1]
    tauto
  · simp only [total_cons,total_append,← htot]
    omega
  · have hin : In p x := (hsplit x).1.mp (.inl hx.1)
    have hother : a ∈ k++q::p::m → a = p := fun hm => by
      obtain he | h | h := C.eq_or hm hpm
      · exact he
      · exact absurd ⟨hx.2,hin⟩ (h.apart x)
      · exact absurd ⟨hin,hx.2⟩ (h.apart x)
    have hnot : a ∉ shrink p u := fun h => (hsplit x).2 ⟨hx.1,a,h,hx.2⟩
    have hlt := (C.below_next p mem_cons_self).lt
    simp only [mem_append,mem_cons] at ha
    rcases ha with ha | rfl | ha | ha
    · have h := C.below_prev a ha
      obtain rfl := hother (by simp [ha])
      exact absurd (h.lt.trans hlt) (Nat.lt_irrefl _)
    · obtain rfl := hother (by simp)
      exact absurd hlt (Nat.lt_irrefl _)
    · exact hnot ha
    · have h := (pairwise_cons.mp C.sorted_next).1 a ha
      obtain rfl := hother (by simp [ha])
      exact absurd h.lt (Nat.lt_irrefl _)

end Take
end Chain
end Blocks

/-! ### Headers -/

namespace Heap
variable {h : Heap} {p q v n : ℕ}

lemma ptr_lt : h.ptr p < 2^64 := by
  have := num_lt (slice h.mem p 8)
  rwa [length_slice] at this

lemma size_lt : h.size p < 2^32 := by
  have := num_lt (slice h.mem (p+8) 4)
  rwa [length_slice] at this

@[simp] lemma ptr_setPtr (hv : v < 2^64) : (h.setPtr p v).ptr p = v := by
  have := slice_patch h.mem p (bytes 8 v)
  rw [length_bytes] at this
  rw [ptr,setPtr,this,num_bytes]
  exact Nat.mod_eq_of_lt hv

lemma ptr_setPtr_far (hf : Far p q) : (h.setPtr p v).ptr q = h.ptr q := by
  simp only [Far,HEADER] at hf
  rw [ptr,setPtr,slice_patch_of_disjoint _ (by rw [length_bytes]; omega),ptr]

@[simp] lemma size_setPtr_self : (h.setPtr p v).size p = h.size p := by
  rw [size,setPtr,slice_patch_of_disjoint _ (by rw [length_bytes]; omega),size]

lemma size_setPtr_far (hf : Far p q) : (h.setPtr p v).size q = h.size q := by
  simp only [Far,HEADER] at hf
  rw [size,setPtr,slice_patch_of_disjoint _ (by rw [length_bytes]; omega),size]

lemma size_setSize_mod : (h.setSize p n).size p = n%2^32 := by
  have := slice_patch h.mem (p+8) (bytes 4 n)
  rw [length_bytes] at this
  rw [size,setSize,this,num_bytes]
  rfl

@[simp] lemma size_setSize (hn : n < 2^32) : (h.setSize p n).size p = n := by
  rw [size_setSize_mod,Nat.mod_eq_of_lt hn]

lemma size_setSize_far (hf : Far p q) : (h.setSize p n).size q = h.size q := by
  simp only [Far,HEADER] at hf
  rw [size,setSize,slice_patch_of_disjoint _ (by rw [length_bytes]; omega),size]

@[simp] lemma ptr_setSize_self : (h.setSize p n).ptr p = h.ptr p := by
  rw [ptr,setSize,slice_patch_of_disjoint _ (by rw [length_bytes]; omega),ptr]

lemma ptr_setSize_far (hf : Far p q) : (h.setSize p n).ptr q = h.ptr q := by
  simp only [Far,HEADER] at hf
  rw [ptr,setSize,slice_patch_of_disjoint _ (by rw [length_bytes]; omega),ptr]

@[simp] lemma setFreep_ptr : (h.setFreep p).ptr q = h.ptr q := rfl
@[simp] lemma setFreep_size : (h.setFreep p).size q = h.size q := rfl

/-- The second heap has the same headers, except for those near `p`. -/
structure Same (h h' : Heap) (p : ℕ) : Prop where
  ptr : ∀ q, Far p q → h'.ptr q = h.ptr q
  size : ∀ q, Far p q → h'.size q = h.size q
  cores : h'.cores = h.cores

lemma same_setPtr : Same h (h.setPtr p v) p :=
  ⟨fun _ hq => ptr_setPtr_far hq,fun _ hq => size_setPtr_far hq,rfl⟩

lemma same_setSize : Same h (h.setSize p n) p :=
  ⟨fun _ hq => ptr_setSize_far hq,fun _ hq => size_setSize_far hq,rfl⟩

lemma Same.trans {h' h'' : Heap} (h₁ : Same h h' p) (h₂ : Same h' h'' p) : Same h h'' p :=
  ⟨fun q hq => (h₂.ptr q hq).trans (h₁.ptr q hq),fun q hq => (h₂.size q hq).trans (h₁.size q hq),
    h₂.cores.trans h₁.cores⟩

end Heap

lemma plus_eq {p n : ℕ} (h : p+HEADER*n < 2^64) : plus p n = p+HEADER*n := Nat.mod_eq_of_lt h

/-- From `c` on the headers are those of the blocks `m`, and the last one points to `e`. -/
structure Linked (h : Heap) (c : ℕ) (m : List (ℕ×ℕ)) (e : ℕ) : Prop where
  path : Path h.ptr c (m.map Prod.fst) e
  sizes : ∀ b ∈ m, h.size b.1 = b.2

/-- What both joins of `free` do: the block at `b` is joined to the one at `c`, or linked to it. -/
def link (h : Heap) (b c : ℕ) : Heap :=
  if plus b (h.size b) = c then
    let h := h.setSize b (h.size b+h.size c)
    h.setPtr b (h.ptr c)
  else h.setPtr b c

/-- The headers represent the free list `l`. -/
structure Ring (P : Program) (h : Heap) (l : List (ℕ×ℕ)) : Prop
    extends Chain P l, Linked h P.base l P.base where
  freep : h.freep ∈ l.map Prod.fst

section
variable {P : Program} {h h' : Heap} {b p : ℕ×ℕ} {k l m : List (ℕ×ℕ)} {c d e n : ℕ}

namespace Linked

lemma congr (L : Linked h c m e) (hp : ∀ b ∈ m, h'.ptr b.1 = h.ptr b.1)
    (hs : ∀ b ∈ m, h'.size b.1 = h.size b.1) : Linked h' c m e := by
  refine ⟨L.path.congr fun a ha => ?_,fun b hb => (hs b hb).trans (L.sizes b hb)⟩
  obtain ⟨b,hb,rfl⟩ := mem_map.mp ha
  exact hp b hb

lemma same (L : Linked h c m e) (S : h.Same h' d) (hf : ∀ b ∈ m, Far d b.1) : Linked h' c m e :=
  L.congr (fun b hb => S.ptr _ (hf b hb)) fun b hb => S.size _ (hf b hb)

lemma split (L : Linked h c (k++p::m) e) :
    Linked h c k p.1 ∧ h.size p.1 = p.2 ∧ Linked h (h.ptr p.1) m e := by
  obtain ⟨hp,hs⟩ := L
  rw [map_append,map_cons] at hp
  rw [forall_mem_append,forall_mem_cons] at hs
  exact ⟨⟨hp.split.1,hs.1⟩,hs.2.1,hp.split.2,hs.2.2⟩

lemma append (L : Linked h c k d) (L' : Linked h d m e) : Linked h c (k++m) e := by
  refine ⟨?_,forall_mem_append.mpr ⟨L.sizes,L'.sizes⟩⟩
  rw [map_append]
  exact Path.append_iff.mpr ⟨d,L.path,L'.path⟩

lemma cons (hb : h.size b.1 = b.2) (L : Linked h (h.ptr b.1) m e) : Linked h b.1 (b::m) e :=
  ⟨⟨rfl,L.path⟩,forall_mem_cons.mpr ⟨hb,L.sizes⟩⟩

end Linked

/-- Joining a block to the list above it, or linking it to that. -/
lemma link_spec (L : Linked h c m e) (hb : h.size b.1 = b.2) (hf : ∀ a ∈ m, Far b.1 a.1)
    (hc : c < 2^64) (hm : m = [] → b.1+HEADER*b.2 ≠ c) (hend : b.1+HEADER*b.2 < 2^64)
    (hj : b.2+rise b m < 2^32) :
    h.Same (link h b.1 c) b.1 ∧ Linked (link h b.1 c) b.1 (joinUp b m) e := by
  have hplus : plus b.1 (h.size b.1) = b.1+HEADER*b.2 := by rw [hb,plus_eq hend]
  obtain ⟨a,m',rfl,he,hj',hr⟩ | ⟨hj',-,hne⟩ := joinUp_cases b m
  · obtain ⟨hca,-⟩ := L.path
    have hfa := hf a mem_cons_self
    have hlink : link h b.1 c = (h.setSize b.1 (b.2+a.2)).setPtr b.1 (h.ptr a.1) := by
      rw [link,hplus,if_pos (he.trans hca.symm)]
      dsimp only
      rw [hb,hca,L.sizes a mem_cons_self,Heap.ptr_setSize_far hfa]
    have S : h.Same (link h b.1 c) b.1 := hlink ▸ Heap.same_setSize.trans Heap.same_setPtr
    refine ⟨S,hj' ▸ .cons (b := (b.1,b.2+a.2)) ?_ ?_⟩
    · rw [hlink,Heap.size_setPtr_self,Heap.size_setSize (hr ▸ hj)]
    · rw [show (link h b.1 c).ptr b.1 = h.ptr a.1 by rw [hlink,Heap.ptr_setPtr Heap.ptr_lt]]
      exact (L.split (k := [])).2.2.same S fun d hd => hf d (mem_cons_of_mem _ hd)
  · have hlink : link h b.1 c = h.setPtr b.1 c := by
      rw [link,hplus,if_neg]
      cases m with
      | nil => exact hm rfl
      | cons a m =>
        rw [L.path.1]
        exact hne a rfl
    have S : h.Same (link h b.1 c) b.1 := hlink ▸ Heap.same_setPtr
    refine ⟨S,hj' ▸ .cons ?_ ?_⟩
    · rw [hlink,Heap.size_setPtr_self,hb]
    · rw [show (link h b.1 c).ptr b.1 = c by rw [hlink,Heap.ptr_setPtr hc]]
      exact L.same S hf

namespace Ring

lemma next_eq (R : Ring P h (k++p::m)) : h.ptr p.1 = (m.map Prod.fst).head?.getD P.base := by
  have hp := R.path
  rw [map_append,map_cons] at hp
  exact hp.next_eq

lemma next_nil (R : Ring P h (k++[p])) : h.ptr p.1 = P.base := R.next_eq

lemma next_cons (R : Ring P h (k++p::b::m)) : h.ptr p.1 = b.1 := R.next_eq

lemma nodup (R : Ring P h l) : (l.map Prod.fst).Nodup :=
  pairwise_map.mpr (R.sorted.imp fun h => h.lt.ne)

/-- The list from `freep` on, as the loop of `malloc` goes through it: `freep` comes last. -/
lemma exists_round (R : Ring P h l) : ∃ r, (r++[h.freep]).Perm (l.map Prod.fst) ∧
    Path h.ptr (h.ptr h.freep) (r++[h.freep]) (h.ptr h.freep) := by
  obtain ⟨k,m,hl⟩ := append_of_mem R.freep
  have hpath := R.path
  rw [hl] at hpath
  obtain ⟨hk,hm⟩ := hpath.split
  refine ⟨m++k,?_,?_⟩
  · rw [hl]
    refine perm_append_comm.trans ?_
    rw [singleton_append]
    refine (perm_append_comm.cons _).trans ?_
    exact perm_middle.symm
  · exact Path.join (Path.append_iff.mpr ⟨P.base,hm,hk⟩) rfl

lemma congr (R : Ring P h l) (hf : h'.freep = h.freep) (hp : ∀ b ∈ l, h'.ptr b.1 = h.ptr b.1)
    (hs : ∀ b ∈ l, h'.size b.1 = h.size b.1) : Ring P h' l :=
  ⟨R.toChain,R.toLinked.congr hp hs,hf ▸ R.freep⟩

end Ring

/-! ### `free` -/

/-- The loop of `free` goes on at this block. -/
def Passes (h : Heap) (bp a : ℕ) : Prop :=
  ¬(bp > a ∧ bp < h.ptr a) ∧ ¬(a ≥ h.ptr a ∧ (bp > a ∨ bp < h.ptr a))

lemma freeLoop_skip {q : ℕ} {r : List ℕ} (hp : Path h.ptr q r d) (hr : ∀ a ∈ r, Passes h c a) :
    freeLoop h c (r.length+n) q = freeLoop h c n d := by
  induction r generalizing q with
  | nil => rw [Path.nil_iff.mp hp,length_nil,Nat.zero_add]
  | cons a r ih =>
    obtain ⟨rfl,hp⟩ := hp
    obtain ⟨h₁,h₂⟩ := hr q mem_cons_self
    rw [length_cons,Nat.add_right_comm,freeLoop,if_neg h₁,if_neg h₂]
    exact ih hp fun b hb => hr b (mem_cons_of_mem _ hb)

namespace Ring
variable (R : Ring P h (k++p::m)) (hp : Place k p m b)
include R hp

lemma passes_before {a : ℕ×ℕ} (ha : a ∈ k) : Passes h b.1 a.1 := by
  obtain ⟨x,y,rfl⟩ := append_of_mem ha
  obtain ⟨c,z,hz,hc⟩ : ∃ c z, y++p::m = c::z ∧ c ∈ y++[p] := by
    cases y with
    | nil => exact ⟨p,m,rfl,by simp⟩
    | cons c y => exact ⟨c,y++p::m,rfl,by simp⟩
  have hcb := (hp.below c (by
    rw [append_assoc,cons_append]
    exact mem_append_right _ (mem_cons_of_mem _ hc))).1
  rw [append_assoc,cons_append,hz] at R
  have hac := (R.below_next c mem_cons_self).lt
  simp only [HEADER] at hcb
  rw [Passes,R.next_cons]
  omega

lemma passes_after (h0 : 0 < b.2) {a : ℕ×ℕ} (ha : a ∈ m) : Passes h b.1 a.1 := by
  have hab := hp.above a ha
  have hpb := (hp.below p (by simp)).1
  have hbase := R.base_le (show p ∈ k++p::m by simp)
  obtain ⟨x,y,rfl⟩ := append_of_mem ha
  rw [show k++p::(x++a::y) = (k++p::x)++a::y by simp] at R
  simp only [HEADER] at hab hpb
  cases y with
  | nil =>
    rw [Passes,R.next_nil]
    omega
  | cons c y =>
    have hac := (R.below_next c mem_cons_self).lt
    rw [Passes,R.next_cons]
    omega

lemma stops (h0 : 0 < b.2) (j : ℕ) : freeLoop h b.1 (j+1) p.1 = some p.1 := by
  have hpb := (hp.below p (by simp)).1
  have hbase := R.base_le (show p ∈ k++p::m by simp)
  simp only [HEADER] at hpb
  rw [freeLoop]
  cases m with
  | nil => rw [R.next_nil,if_neg (by omega),if_pos (by omega)]
  | cons c m =>
    have hab := hp.above c mem_cons_self
    simp only [HEADER] at hab
    rw [R.next_cons,if_pos (by omega)]

/-- The loop of `free` stops at the block's place, wherever it starts. -/
lemma search (h0 : 0 < b.2) (hn : (k++p::m).length ≤ n) : freeLoop h b.1 n h.freep = some p.1 := by
  obtain ⟨r,hperm,hpath⟩ := R.exists_round
  have hperm : (h.freep::r).Perm ((k++p::m).map Prod.fst) :=
    perm_append_comm.symm.trans hperm
  have hpath : Path h.ptr h.freep (h.freep::r) h.freep := ⟨rfl,hpath.split.1⟩
  obtain ⟨x,y,hxy⟩ := append_of_mem (hperm.mem_iff.mpr (mem_map_of_mem (by simp : p ∈ k++p::m)))
  have hnd := hperm.nodup_iff.mpr R.nodup
  have hlen := hperm.length_eq
  rw [hxy] at hperm hpath hnd hlen
  rw [length_append,length_cons,length_map] at hlen
  obtain ⟨j,rfl⟩ := Nat.exists_eq_add_of_le (show x.length+1 ≤ n by omega)
  rw [Nat.add_assoc,Nat.add_comm 1 j,freeLoop_skip hpath.split.1 fun a ha => ?_]
  · exact R.stops hp h0 j
  · obtain ⟨a,hmem,rfl⟩ := mem_map.mp (hperm.mem_iff.mp (mem_append_left _ ha))
    have hne : a ≠ p := by
      rintro rfl
      exact (nodup_append.mp hnd).2.2 _ ha _ mem_cons_self rfl
    rcases mem_append.mp hmem with hk | hm
    · exact R.passes_before hp hk
    · exact R.passes_after hp h0 ((mem_cons.mp hm).resolve_left hne)

end Ring

/-- What `free` makes of the free list `l` and the block `b`. -/
structure Freed (P : Program) (h : Heap) (l : List (ℕ×ℕ)) (b : ℕ×ℕ) (h' : Heap)
    (l' : List (ℕ×ℕ)) : Prop where
  ring : Ring P h' l'
  covers : ∀ x, Covers l' x ↔ Covers (b::l) x
  total : total l' = total (b::l)
  cores : h'.cores = h.cores
  size : ∀ c, Far b.1 c → (∀ a ∈ l, Far a.1 c) → h'.size c = h.size c
  large : ∃ a ∈ l', b.2 ≤ a.2
  length_le : l'.length ≤ l.length+1

section Free
variable (R : Ring P h (k++p::m)) (hp : Place k p m b) (hs : h.size b.1 = b.2)
  (hle : b.1+HEADER*b.2 < 2^64) (hj : b.2+total (k++p::m) < 2^32)
include R hp hs hle hj

/-- The two joins make the headers of the joined list. -/
lemma free_linked (h0 : 0 < b.2) : ∃ h₁, h.Same h₁ b.1 ∧
    h₁.Same (joinPrev (joinNext h b.1 p.1) b.1 p.1) p.1 ∧
    Linked (joinPrev (joinNext h b.1 p.1) b.1 p.1) P.base (k++joinUp p (joinUp b m)) P.base := by
  obtain ⟨Lk,hsp,Lm⟩ := R.toLinked.split
  have hj₁ : b.2+rise b m < 2^32 := by
    have := rise_le b m
    rw [total_append,total_cons] at hj
    omega
  have hj₂ : p.2+rise p (joinUp b m) < 2^32 := by
    have := rise_le p (joinUp b m)
    rw [total_joinUp] at this
    rw [total_append,total_cons] at hj
    omega
  have hpb := (hp.below p (by simp)).1
  have hbase := R.base_le (show p ∈ k++p::m by simp)
  have hfar : Far b.1 p.1 := .inr hpb
  have hnext : joinNext h b.1 p.1 = link h b.1 (h.ptr p.1) := by
    rw [joinNext,link]
    dsimp only
    rw [Heap.ptr_setSize_far hfar]
  obtain ⟨S₁,L₁⟩ := link_spec Lm hs (fun a ha => .inl (by
    have := hp.above a ha
    simp only [HEADER] at this ⊢
    omega)) Heap.ptr_lt (fun hm => by
      subst hm
      rw [R.next_nil]
      simp only [HEADER] at hpb ⊢
      omega) hle hj₁
  obtain ⟨m₁,-,hm₁⟩ := joinUp_eq b m
  obtain ⟨S₂,L₂⟩ := link_spec L₁ ((S₁.size _ hfar).trans hsp)
    (fun a ha => .inl (R.above_prev hp a ha).1) ((Nat.le_add_right _ _).trans_lt hle)
    (fun hm => absurd (hm₁.symm.trans hm) nofun) (R.end_lt p (by simp)) hj₂
  rw [hnext]
  refine ⟨_,S₁,S₂,Linked.append ?_ L₂⟩
  exact (Lk.same S₁ fun a ha => .inr (hp.below a (mem_append_left _ ha)).1).same S₂
    fun a ha => .inr (R.below_prev a ha).1

omit R hp hs hle hj in
/-- The list has grown by at most one, and has a block as large as the one inserted. -/
lemma insert_size (b p : ℕ×ℕ) (k m : List (ℕ×ℕ)) : (∃ a ∈ k++joinUp p (joinUp b m), b.2 ≤ a.2) ∧
    (k++joinUp p (joinUp b m)).length ≤ (k++p::m).length+1 := by
  obtain ⟨m₁,hsuf,hm₁⟩ := joinUp_eq b m
  have hlen := hsuf.length_le
  rw [hm₁]
  obtain ⟨c,m',hm,-,hj,-⟩ | ⟨hj,-⟩ := joinUp_cases p ((b.1,b.2+rise b m)::m₁) <;> rw [hj]
  · obtain ⟨rfl,rfl⟩ := List.cons.inj hm
    refine ⟨⟨_,mem_append_right _ mem_cons_self,?_⟩,?_⟩
    · exact (Nat.le_add_right _ _).trans (Nat.le_add_left _ _)
    · simp only [length_append,length_cons]
      omega
  · refine ⟨⟨_,mem_append_right _ (mem_cons_of_mem _ mem_cons_self),?_⟩,?_⟩
    · exact Nat.le_add_right _ _
    · simp only [length_append,length_cons]
      omega

end Free

/-- `free` of a block that overlaps no free block. -/
theorem free_spec {ap : ℕ} (R : Ring P h l) (hap : (ap+(2^64-HEADER))%2^64 = b.1)
    (hs : h.size b.1 = b.2) (hb : P.base+HEADER ≤ b.1) (h0 : 0 < b.2)
    (hle : b.1+HEADER*b.2 < 2^64) (hd : ∀ x, In b x → ¬Covers l x) (hj : b.2+Umalloc.total l < 2^32)
    (hn : l.length ≤ n) : ∃ h' l', free n h ap = some h' ∧ Freed P h l b h' l' := by
  obtain ⟨k,p,m,rfl,hp⟩ := R.exists_place hb h0 hd
  have hsearch := R.search hp h0 hn
  obtain ⟨h₁,S₁,S₂,L⟩ := free_linked R hp hs hle hj h0
  obtain ⟨hlarge,hlen⟩ := insert_size b p k m
  obtain ⟨m₂,-,hm₂⟩ := joinUp_eq p (joinUp b m)
  have hfree : free n h ap = some ((joinPrev (joinNext h b.1 p.1) b.1 p.1).setFreep p.1) := by
    rw [free,hap,hsearch]
    rfl
  generalize joinPrev (joinNext h b.1 p.1) b.1 p.1 = h₂ at S₂ L hfree
  refine ⟨h₂.setFreep p.1,k++joinUp p (joinUp b m),hfree,⟨R.insert hp h0 hle,⟨L.path,L.sizes⟩,?_⟩,
    fun x => ?_,?_,S₂.cores.trans S₁.cores,
    fun c h₁ h₂ => (S₂.size c (h₂ p (by simp))).trans (S₁.size c h₁),hlarge,hlen⟩
  · rw [map_append,hm₂]
    simp
  · rw [covers_append,covers_joinUp,covers_joinUp,covers_cons,covers_append,covers_cons,
      or_left_comm (a := In p x),or_left_comm]
  · simp only [total_append,total_cons,total_joinUp]
    omega

/-! ### The search loop of `malloc` -/

section Scan
variable {σ : Type} {K : Kernel σ} {x : σ} {u j prevp : ℕ}

lemma mallocLoop_skip {q : ℕ} {r : List ℕ} (hp : Path h.ptr q r d)
    (hr : ∀ a ∈ r, h.size a < u ∧ a ≠ h.freep) : mallocLoop K n u (r.length+j) h prevp q x =
      mallocLoop K n u j h (r.getLast?.getD prevp) d x := by
  induction r generalizing q prevp with
  | nil => rw [Path.nil_iff.mp hp,length_nil,Nat.zero_add]; rfl
  | cons a r ih =>
    obtain ⟨rfl,hp⟩ := hp
    obtain ⟨h₁,h₂⟩ := hr q mem_cons_self
    rw [length_cons,Nat.add_right_comm,mallocLoop,if_neg (Nat.not_le.mpr h₁),if_neg h₂,
      List.getLast?_cons,Option.getD_some]
    exact ih hp fun b hb => hr b (mem_cons_of_mem _ hb)

namespace Ring

/-- If a block is large enough, the loop takes the first such after `freep`. -/
lemma scan_found (R : Ring P h l) (hx : ∃ b ∈ l, u ≤ b.2) (hj : l.length ≤ j) :
    ∃ prevp ∈ l.map Prod.fst, u ≤ h.size (h.ptr prevp) ∧
      mallocLoop K n u j h h.freep (h.ptr h.freep) x =
        some ((take h u prevp (h.ptr prevp)).1,(take h u prevp (h.ptr prevp)).2,x) := by
  obtain ⟨r,hperm,hpath⟩ := R.exists_round
  obtain ⟨b,hb,hu⟩ := hx
  obtain ⟨x,hfind⟩ := Option.isSome_iff_exists.mp
    (List.find?_isSome (p := fun a => decide (u ≤ h.size a)) |>.mpr
      ⟨b.1,hperm.mem_iff.mpr (mem_map_of_mem hb),decide_eq_true (R.sizes b hb ▸ hu)⟩)
  obtain ⟨hux,y,z,hr,hy⟩ := List.find?_eq_some_iff_append.mp hfind
  have hux : u ≤ h.size x := of_decide_eq_true hux
  have hnd : (y++x::z).Nodup := hr ▸ hperm.nodup_iff.mpr R.nodup
  rw [hr] at hpath hperm
  have hlen := hperm.length_eq
  simp only [length_append,length_cons,length_map] at hlen
  have hlast := hpath.split.1.next_last
  have hmem : y.getLast?.getD h.freep ∈ l.map Prod.fst := by
    cases hb' : y.getLast? with
    | none => exact R.freep
    | some a => exact hperm.mem_iff.mp (mem_append_left _ (mem_of_mem_getLast? hb'))
  refine ⟨y.getLast?.getD h.freep,hmem,?_,?_⟩
  · rwa [hlast]
  · obtain ⟨i,rfl⟩ := Nat.exists_eq_add_of_le (show y.length+1 ≤ j by omega)
    rw [Nat.add_assoc,Nat.add_comm 1 i,mallocLoop_skip hpath.split.1 fun a ha => ⟨?_,?_⟩,mallocLoop,
      if_pos hux,hlast]
    · have := hy a ha
      simpa using this
    · rintro rfl
      -- `freep` is the last one of the round
      have hin : h.freep ∈ x::z := by
        have hl := congrArg List.getLast? hr
        rw [List.getLast?_append_of_ne_nil _ (by simp),List.getLast?_append_of_ne_nil _ (by simp),
          List.getLast?_singleton] at hl
        exact mem_of_mem_getLast? hl.symm
      exact (nodup_append.mp hnd).2.2 _ ha _ hin rfl

/-- If none is, the loop comes round to `freep` and asks for more. -/
lemma scan_none (R : Ring P h l) (hx : ∀ a ∈ l.map Prod.fst, h.size a < u) :
    mallocLoop K n u (l.length+j) h h.freep (h.ptr h.freep) x =
      (morecore K n h u x).bind fun r => if r.2.1 = 0 then some (r.1,0,r.2.2)
        else mallocLoop K n u j r.1 r.2.1 (r.1.ptr r.2.1) r.2.2 := by
  obtain ⟨r,hperm,hpath⟩ := R.exists_round
  have hlen := hperm.length_eq
  rw [length_append,length_singleton,length_map] at hlen
  have hnd := hperm.nodup_iff.mpr R.nodup
  rw [← hlen,Nat.add_assoc,Nat.add_comm 1 j,mallocLoop_skip hpath.split.1 fun y hy => ⟨?_,?_⟩,
    mallocLoop,if_neg (Nat.not_le.mpr (hx _ R.freep)),if_pos rfl]
  · rfl
  · exact hx y (hperm.mem_iff.mp (mem_append_left _ hy))
  · rintro rfl
    exact (nodup_append.mp hnd).2.2 _ hy _ (mem_singleton_self _) rfl

end Ring
end Scan

/-! ### Taking a block off the list -/

/-- What `malloc` makes of the free list `l` when it takes the block `b`. -/
structure Taken (P : Program) (h : Heap) (l : List (ℕ×ℕ)) (b : ℕ×ℕ) (h' : Heap)
    (l' : List (ℕ×ℕ)) : Prop where
  ring : Ring P h' l'
  size_eq : h'.size b.1 = b.2
  covers : ∀ x, Covers (b::l') x ↔ Covers l x
  total : total (b::l') = total l
  apart : (b::l').Pairwise Apart
  cores : h'.cores = h.cores
  size : ∀ c, Far b.1 c → (∀ a ∈ l, Far a.1 c) → h'.size c = h.size c

lemma take_spec {u prevp : ℕ} (R : Ring P h l) (hprev : prevp ∈ l.map Prod.fst)
    (hs : u ≤ h.size (h.ptr prevp)) (hu : 0 < u) : ∃ c h' l',
      take h u prevp (h.ptr prevp) = (h',c+HEADER) ∧ Taken P h l (c,u) h' l' := by
  obtain ⟨q,hq,rfl⟩ := mem_map.mp hprev
  obtain ⟨k,m,rfl⟩ := append_of_mem hq
  cases m with
  | nil =>
    rw [R.next_nil,R.sizes _ R.base_mem] at hs
    exact absurd hs (Nat.not_le.mpr hu)
  | cons p m =>
    have hqp := R.below_next p mem_cons_self
    have hpm : p ∈ k++q::p::m := by simp
    have hsp : h.size p.1 = p.2 := R.sizes p hpm
    have hend := R.end_lt p hpm
    have hlt : p.2 < 2^32 := hsp ▸ Heap.size_lt
    rw [R.next_cons,hsp] at hs
    rw [R.next_cons]
    obtain ⟨hcov,htot,hapart⟩ := R.take_divides hs
    have hfar : ∀ a ∈ k++q::p::m, a ≠ p → Far p.1 a.1 ∧ Far (p.1+HEADER*(p.2-u)) a.1 := by
      intro a ha hne
      obtain he | hab | hab := R.eq_or ha hpm
      · exact absurd he hne
      · exact ⟨.inr hab.1,.inr (hab.1.trans (Nat.le_add_right _ _))⟩
      · simp only [Below,Far,HEADER] at hab ⊢
        omega
    obtain ⟨Lk,hsq,Lq⟩ := R.toLinked.split
    have Lm := (Lq.split (k := [])).2.2
    have hk : ∀ a ∈ k, a ≠ p := fun a ha he => by
      have := (R.below_prev a ha).lt
      rw [he] at this
      exact absurd (this.trans hqp.lt) (Nat.lt_irrefl _)
    have hm : ∀ a ∈ m, a ≠ p := fun a ha he => by
      have := ((pairwise_cons.mp R.sorted_next).1 a ha).lt
      rw [he] at this
      exact absurd this (Nat.lt_irrefl _)
    by_cases he : p.2 = u
    · -- it leaves the list
      have S : h.Same (h.setPtr q.1 (h.ptr p.1)) q.1 := Heap.same_setPtr
      have L := (Lk.same S fun a ha => .inr (R.below_prev a ha).1).append
        (.cons (Heap.size_setPtr_self.trans hsq) (by
          rw [Heap.ptr_setPtr Heap.ptr_lt]
          exact Lm.same S fun a ha => .inl (R.below_next a (mem_cons_of_mem _ ha)).1))
      have hc : p.1+HEADER*(p.2-u) = p.1 := by rw [he,Nat.sub_self,Nat.mul_zero,Nat.add_zero]
      have hshrink : shrink p u++m = m := by rw [shrink,if_pos he,nil_append]
      have C := R.take hs
      rw [hshrink] at hcov htot hapart C
      rw [hc] at hcov htot hapart
      refine ⟨p.1,(h.setPtr q.1 (h.ptr p.1)).setFreep q.1,k++q::m,?_,⟨C,⟨L.path,L.sizes⟩,by simp⟩,
        ?_,hcov,htot,hapart,rfl,fun c _ hc => S.size c (hc q (by simp))⟩
      · rw [take,if_pos (hsp.trans he),plus_eq,Nat.mul_one]
        simp only [HEADER] at hend ⊢
        omega
      · exact (S.size _ (.inl hqp.1)).trans (hsp.trans he)
    · -- it keeps its lower part
      have hpc : p.1+HEADER ≤ p.1+HEADER*(p.2-u) := by
        simp only [HEADER]
        omega
      have hshrink : shrink p u++m = (p.1,p.2-u)::m := by rw [shrink,if_neg he]; rfl
      have C := R.take hs
      rw [hshrink] at hcov htot hapart C
      have htake : take h u q.1 p.1 = (((h.setSize p.1 (p.2-u)).setSize (p.1+HEADER*(p.2-u)) u).setFreep
          q.1,p.1+HEADER*(p.2-u)+HEADER) := by
        rw [take,hsp,if_neg he]
        dsimp only
        rw [Heap.size_setSize (by omega),plus_eq (p := p.1),plus_eq,Nat.mul_one]
        all_goals
          simp only [HEADER] at hend ⊢
          omega
      generalize p.1+HEADER*(p.2-u) = c at hcov htot hapart hpc htake hfar ⊢
      have S₁ : h.Same (h.setSize p.1 (p.2-u)) p.1 := Heap.same_setSize
      have S₂ : (h.setSize p.1 (p.2-u)).Same ((h.setSize p.1 (p.2-u)).setSize c u) c :=
        Heap.same_setSize
      have hother : ∀ a ∈ k++q::p::m, a ≠ p → _ := fun a ha hne =>
        And.intro ((S₂.ptr _ (hfar a ha hne).2).trans (S₁.ptr _ (hfar a ha hne).1))
          ((S₂.size _ (hfar a ha hne).2).trans (S₁.size _ (hfar a ha hne).1))
      have L : Linked ((h.setSize p.1 (p.2-u)).setSize c u) P.base (k++q::(p.1,p.2-u)::m) P.base := by
        have hq := hother q (by simp) fun he => absurd hqp.lt (he ▸ Nat.lt_irrefl _)
        refine (Lk.congr (fun a ha => (hother a (by simp [ha]) (hk a ha)).1)
          fun a ha => (hother a (by simp [ha]) (hk a ha)).2).append (.cons (hq.2.trans hsq) ?_)
        rw [hq.1,R.next_cons]
        refine .cons (b := (p.1,p.2-u)) ?_ ?_
        · rw [S₂.size _ (.inr hpc),Heap.size_setSize (by omega)]
        · rw [S₂.ptr _ (.inr hpc),Heap.ptr_setSize_self]
          exact Lm.congr (fun a ha => (hother a (by simp [ha]) (hm a ha)).1)
            fun a ha => (hother a (by simp [ha]) (hm a ha)).2
      exact ⟨c,_,_,htake,⟨C,⟨L.path,L.sizes⟩,by simp⟩,Heap.size_setSize (by omega),hcov,htot,hapart,rfl,
        fun d h₁ h₂ => (S₂.size d h₁).trans (S₁.size d (h₂ p hpm))⟩

end

end Xv6.Umalloc
