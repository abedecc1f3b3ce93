import Xv6.User.UmallocInv

/-! The allocator under any sequence of calls: the free list and the blocks in use divide up the
memory obtained from `sbrk`, as long as that is less than the largest size. -/
namespace Xv6.Umalloc
open Lib List

/-- What `sbrk` gave ascends in memory. -/
def Cores (P : Program) : List (ℕ×ℕ) → Prop
  | [] => True
  | (p,u)::c => top P c ≤ p ∧ p+HEADER*u < 2^64 ∧ Cores P c

/-- The blocks in use, as their headers say. -/
def used (h : Heap) (live : List (ℕ×ℕ)) : List (ℕ×ℕ) :=
  live.map fun y => (header y,h.size (header y))

/-- The blocks of the free list `l` and the blocks in use. -/
structure Inv (P : Program) (s : State) (l : List (ℕ×ℕ)) : Prop where
  ring : Ring P s.heap l
  cores : Cores P s.heap.cores
  usable : ∀ y ∈ s.live, HEADER ≤ y.1 ∧ HEADER+y.2 ≤ HEADER*s.heap.size (header y)
  divides : Divides (l++used s.heap s.live) s.heap.cores
  units_lt : s.heap.units < 2^32

section
variable {P : Program} {s : State} {h h' : Heap} {l l' c : List (ℕ×ℕ)} {x u hp : ℕ} {a b y z : ℕ×ℕ}

namespace Cores

lemma top_bounds (hc : Cores P c) : P.base+HEADER ≤ top P c ∧ top P c < 2^64 := by
  induction c with
  | nil => exact ⟨le_rfl,P.base_lt⟩
  | cons d c ih =>
    obtain ⟨h₁,h₂,h₃⟩ := hc
    refine ⟨(ih h₃).1.trans (h₁.trans ?_),h₂⟩
    exact Nat.le_add_right _ _

lemma bounds (hc : Cores P c) (hx : Covers c x) : P.base+HEADER ≤ x ∧ x < top P c := by
  induction c with
  | nil => exact absurd hx (by simp [Covers])
  | cons d c ih =>
    obtain ⟨hd,-,hc⟩ := hc
    obtain ⟨h₁,h₂⟩ | hx := covers_cons.mp hx
    · exact ⟨hc.top_bounds.1.trans (hd.trans h₁),h₂⟩
    · obtain ⟨h₃,h₄⟩ := ih hc hx
      exact ⟨h₃,h₄.trans_le (hd.trans (Nat.le_add_right _ _))⟩

end Cores

variable {live : List (ℕ×ℕ)}

lemma mem_used (hy : y ∈ live) : (header y,h.size (header y)) ∈ used h live :=
  mem_map_of_mem (f := fun y => (header y,h.size (header y))) hy

lemma used_congr (hl : ∀ b ∈ used h live, h'.size b.1 = h.size b.1) : used h' live = used h live :=
  map_congr_left fun _ hy => Prod.ext rfl (hl _ (mem_used hy))

lemma usable_congr (hl : ∀ b ∈ used h live, h'.size b.1 = h.size b.1)
    (hu : ∀ y ∈ live, HEADER ≤ y.1 ∧ HEADER+y.2 ≤ HEADER*h.size (header y)) :
    ∀ y ∈ live, HEADER ≤ y.1 ∧ HEADER+y.2 ≤ HEADER*h'.size (header y) := fun y hy => by
  rw [hl _ (mem_used hy)]
  exact hu y hy

lemma units_congr (hc : h'.cores = h.cores) : h'.units = h.units := by
  rw [Heap.units,Heap.units,hc]

lemma le_coreUnits (nu : ℕ) : nu ≤ coreUnits nu := by
  unfold coreUnits
  split <;> omega

namespace Inv

variable (I : Inv P s l)
include I

lemma used_pos (hb : b ∈ used s.heap s.live) : 0 < b.2 := by
  obtain ⟨y,hy,rfl⟩ := mem_map.mp hb
  have := (I.usable y hy).2
  simp only [HEADER] at this
  dsimp only
  omega

lemma bounds (hb : b ∈ l++used s.heap s.live) (h0 : 0 < b.2) :
    P.base+HEADER ≤ b.1 ∧ b.1+HEADER*b.2 ≤ top P s.heap.cores := by
  have hin : ∀ x, In b x → _ := fun x hx => I.cores.bounds (I.divides.covers x ⟨b,hb,hx⟩)
  have h₁ := hin b.1 (in_self h0)
  have h₂ := hin (b.1+HEADER*b.2-1) ⟨by simp only [HEADER]; omega,by simp only [HEADER]; omega⟩
  exact ⟨h₁.1,by omega⟩

lemma below_top (hb : b ∈ l++used s.heap s.live) : b.1+HEADER ≤ top P s.heap.cores := by
  have hpos : 0 < b.2 → b.1+HEADER ≤ top P s.heap.cores := fun h0 => by
    have := (I.bounds hb h0).2
    simp only [HEADER] at this ⊢
    omega
  rcases mem_append.mp hb with hl | hu
  · obtain rfl | ⟨-,h0⟩ := I.ring.base_or hl
    · exact I.cores.top_bounds.1
    · exact hpos h0
  · exact hpos (I.used_pos hu)

/-- The header of a block in use is not near that of a free block. -/
lemma far (ha : a ∈ l) (hb : b ∈ used s.heap s.live) : Far a.1 b.1 := by
  have h0 := I.used_pos hb
  obtain rfl | ⟨-,hpos⟩ := I.ring.base_or ha
  · exact .inl (I.bounds (mem_append_right _ hb) h0).1
  · exact ((pairwise_append.mp I.divides.apart).2.2 a ha b hb).far hpos h0

lemma length_le : l.length ≤ s.heap.units+1 := by
  have h₁ := I.ring.length_le
  have h₂ := I.divides.units
  rw [total_append] at h₂
  exact h₁.trans (Nat.add_le_add_right ((Nat.le_add_right _ _).trans h₂.le) 1)

lemma congr (hc : h'.cores = s.heap.cores) (hf : h'.freep = s.heap.freep)
    (hb : ∀ b ∈ l++used s.heap s.live, h'.ptr b.1 = s.heap.ptr b.1 ∧ h'.size b.1 = s.heap.size b.1) :
    Inv P { s with heap := h' } l := by
  have hl : ∀ b ∈ used s.heap s.live, h'.size b.1 = s.heap.size b.1 := fun b h =>
    (hb b (mem_append_right _ h)).2
  refine ⟨I.ring.congr hf (fun b h => (hb b (mem_append_left _ h)).1)
    fun b h => (hb b (mem_append_left _ h)).2,?_,usable_congr hl I.usable,?_,?_⟩
  · show Cores P h'.cores
    rw [hc]
    exact I.cores
  · show Divides (l++used h' s.live) h'.cores
    rw [used_congr hl,hc]
    exact I.divides
  · exact (units_congr hc).trans_lt I.units_lt

/-- A fresh piece of memory, with its header, is a block above all others. -/
lemma grown (hhp : top P s.heap.cores ≤ hp) (hu : coreUnits u < 2^32) :
    Ring P (s.heap.grow hp u) l ∧ (s.heap.grow hp u).size hp = coreUnits u ∧
      (∀ b ∈ l++used s.heap s.live, Far hp b.1 ∧
        (s.heap.grow hp u).size b.1 = s.heap.size b.1) ∧
      ∀ x, In (hp,coreUnits u) x → ¬Covers s.heap.cores x := by
  have hfar : ∀ b ∈ l++used s.heap s.live, Far hp b.1 := fun b hb => .inr ((I.below_top hb).trans hhp)
  have hsize : ∀ b ∈ l++used s.heap s.live, (s.heap.grow hp u).size b.1 = s.heap.size b.1 :=
    fun b hb => Heap.size_setSize_far (hfar b hb)
  refine ⟨I.ring.congr rfl (fun b hb => Heap.ptr_setSize_far (hfar b (mem_append_left _ hb)))
    fun b hb => hsize b (mem_append_left _ hb),Heap.size_setSize hu,
    fun b hb => ⟨hfar b hb,hsize b hb⟩,fun x hx hc => ?_⟩
  exact absurd (hhp.trans hx.1) (Nat.not_le.mpr (I.cores.bounds hc).2)

lemma morecore (hhp : top P s.heap.cores ≤ hp) (hu : s.heap.units+coreUnits u < 2^32)
    (hend : hp+HEADER*coreUnits u < 2^64)
    (hf : Freed P (s.heap.grow hp u) l (hp,coreUnits u) h' l') :
    Inv P { s with heap := h' } l' := by
  obtain ⟨-,-,hother,hnew⟩ := I.grown hhp ((Nat.le_add_left _ _).trans_lt hu)
  have hcores : h'.cores = (hp,coreUnits u)::s.heap.cores := hf.cores
  have hl : ∀ b ∈ used s.heap s.live, h'.size b.1 = s.heap.size b.1 := fun b hb => by
    have hb' := hother b (mem_append_right _ hb)
    exact (hf.size b.1 hb'.1 fun a ha => I.far ha hb).trans hb'.2
  refine ⟨hf.ring,?_,usable_congr hl I.usable,?_,?_⟩
  · show Cores P h'.cores
    rw [hcores]
    exact ⟨hhp,hend,I.cores⟩
  · show Divides (l'++used h' s.live) h'.cores
    rw [used_congr hl,hcores]
    exact (I.divides.cons hnew).replace hf.ring.apart hf.covers hf.total
  · show h'.units < 2^32
    rw [Heap.units,hcores,map_cons,sum_cons,Nat.add_comm]
    exact hu

lemma take {n c : ℕ} (ht : Taken P s.heap l (c,u) h' l') (hu : 0 < u) (hn : HEADER+n ≤ HEADER*u) :
    Inv P { heap := h', live := (c+HEADER,n)::s.live } l' := by
  have D := I.divides.replace ht.apart ht.covers ht.total
  have hl : ∀ b ∈ used s.heap s.live, h'.size b.1 = s.heap.size b.1 := fun b hb => by
    refine ht.size b.1 (Apart.far (a := (c,u)) ?_ hu (I.used_pos hb)) fun a ha => I.far ha hb
    exact (pairwise_append.mp D.apart).2.2 _ mem_cons_self b hb
  have hhead : header (c+HEADER,n) = c := Nat.add_sub_cancel _ _
  refine ⟨ht.ring,?_,forall_mem_cons.mpr ⟨⟨Nat.le_add_left _ _,?_⟩,usable_congr hl I.usable⟩,?_,
    (units_congr ht.cores).trans_lt I.units_lt⟩
  · show Cores P h'.cores
    rw [ht.cores]
    exact I.cores
  · rw [hhead]
    exact hn.trans (Nat.mul_le_mul_left _ ht.size_eq.ge)
  · show Divides (l'++(header (c+HEADER,n),h'.size (header (c+HEADER,n)))::used h' s.live) h'.cores
    rw [hhead,show h'.size c = u from ht.size_eq,used_congr hl,ht.cores]
    exact D.perm perm_middle.symm

lemma free (hy : y ∈ s.live) (hf : Freed P s.heap l (header y,s.heap.size (header y)) h' l') :
    Inv P { heap := h', live := s.live.filter (·.1 ≠ y.1) } l' := by
  have hpos := I.used_pos (mem_used hy)
  have hus := I.usable
  have hfar := fun b (hb : b ∈ used s.heap s.live) a (ha : a ∈ l) => I.far ha hb
  have hused := fun b (hb : b ∈ used s.heap s.live) => I.used_pos hb
  have D := I.divides
  obtain ⟨k,m,hlive⟩ := append_of_mem hy
  rw [hlive] at hus hfar hused D
  have hsub : ∀ b ∈ used s.heap (k++m), b ∈ used s.heap (k++y::m) := fun b hb =>
    map_subset _ ((sublist_cons_self y m).append_left k).subset hb
  have D' : Divides ((header y,s.heap.size (header y))::l++used s.heap (k++m)) s.heap.cores := by
    refine D.perm ?_
    rw [used,used,map_append,map_cons,map_append]
    exact (perm_middle.append_left l).trans perm_middle
  have hap : ∀ b ∈ used s.heap (k++m), Far (header y) b.1 := fun b hb => by
    have := (pairwise_append.mp D'.apart).2.2 _ mem_cons_self b hb
    exact Apart.far this hpos (hused b (hsub b hb))
  -- the other blocks in use have other pointers
  have hfilter : s.live.filter (·.1 ≠ y.1) = k++m := by
    have hne : ∀ z ∈ k++m, z.1 ≠ y.1 := fun z hz he => by
      have := hap _ (mem_used hz)
      rw [show header z = header y from congrArg (·-HEADER) he] at this
      simp only [Far,HEADER] at this
      omega
    rw [hlive,filter_append,filter_cons_of_neg (by simp),
      filter_eq_self.mpr fun z hz => by simpa using hne z (mem_append_left _ hz),
      filter_eq_self.mpr fun z hz => by simpa using hne z (mem_append_right _ hz)]
  have hl : ∀ b ∈ used s.heap (k++m), h'.size b.1 = s.heap.size b.1 := fun b hb =>
    hf.size b.1 (hap b hb) fun a ha => hfar b (hsub b hb) a ha
  rw [hfilter]
  refine ⟨hf.ring,?_,usable_congr hl fun z hz => hus z ?_,?_,
    (units_congr hf.cores).trans_lt I.units_lt⟩
  · show Cores P h'.cores
    rw [hf.cores]
    exact I.cores
  · exact ((sublist_cons_self y m).append_left k).mem hz
  · show Divides (l'++used h' (k++m)) h'.cores
    rw [used_congr hl,hf.cores]
    exact D'.replace hf.ring.apart hf.covers hf.total

lemma freep_pos : 0 < s.heap.freep := by
  obtain ⟨b,hb,he⟩ := mem_map.mp I.ring.freep
  exact he ▸ P.base_pos.trans_le (I.ring.base_le hb)

lemma not_free (hb : b ∈ used s.heap s.live) (hx : In b x) : ¬Covers l x :=
  fun ⟨a,ha,hax⟩ => (pairwise_append.mp I.divides.apart).2.2 a ha b hb x ⟨hax,hx⟩

lemma total_le : total l ≤ s.heap.units := by
  have := I.divides.units
  rw [total_append] at this
  exact (Nat.le_add_right _ _).trans this.le

lemma free_run {n : ℕ} (hy : y ∈ s.live) (hn : l.length ≤ n) :
    ∃ h' l', Umalloc.free n s.heap y.1 = some h' ∧ h'.cores = s.heap.cores ∧
      Inv P { heap := h', live := s.live.filter (·.1 ≠ y.1) } l' := by
  have hmem := mem_used (h := s.heap) hy
  have hb := I.bounds (mem_append_right _ hmem) (I.used_pos hmem)
  have htop := I.cores.top_bounds.2
  have hle := (I.usable y hy).1
  have hap : (y.1+(2^64-HEADER))%2^64 = header y := by
    have hlt : header y < 2^64 := by omega
    simp only [header,HEADER] at hle hlt ⊢
    omega
  have hj : s.heap.size (header y)+total l < 2^32 := by
    have hunits : total l+total (used s.heap s.live) = s.heap.units :=
      total_append.symm.trans I.divides.units
    have hsize : s.heap.size (header y) ≤ total (used s.heap s.live) :=
      le_sum_of_mem (mem_map_of_mem hmem)
    have hlt := I.units_lt
    omega
  obtain ⟨h',l',hr,hf⟩ := free_spec I.ring hap rfl hb.1 (I.used_pos hmem) (by omega)
    (fun x hx => I.not_free hmem hx) hj hn
  exact ⟨h',l',hr,hf.cores,I.free hy hf⟩

section Malloc
variable {σ : Type} {K : Kernel σ} {w w' : σ} {n b : ℕ}

lemma malloc_found (hx : ∃ b ∈ l, u ≤ b.2) (hu : 0 < u) (hb : HEADER+b ≤ HEADER*u) {j : ℕ}
    (hj : l.length ≤ j) : ∃ h' c l',
      mallocLoop K n u j s.heap s.heap.freep (s.heap.ptr s.heap.freep) w = some (h',c+HEADER,w) ∧
      h'.cores = s.heap.cores ∧ h'.size c = u ∧
      Inv P { heap := h', live := (c+HEADER,b)::s.live } l' := by
  obtain ⟨prevp,hp,hs,hr⟩ := I.ring.scan_found (n := n) hx hj
  obtain ⟨c,h',l',ht,htaken⟩ := take_spec I.ring hp hs hu
  rw [ht] at hr
  exact ⟨h',c,l',hr,htaken.cores,htaken.size_eq,I.take htaken hu hb⟩

section More
variable (hx : ∀ b ∈ l, b.2 < u) (hn : 2*l.length+2 ≤ n)
include hx hn

lemma malloc_more : ∃ j, n = l.length+j ∧
    mallocLoop K n u n s.heap s.heap.freep (s.heap.ptr s.heap.freep) w =
      (Umalloc.morecore K n s.heap u w).bind fun r => if r.2.1 = 0 then some (r.1,0,r.2.2)
        else mallocLoop K n u j r.1 r.2.1 (r.1.ptr r.2.1) r.2.2 := by
  have hx : ∀ a ∈ l.map Prod.fst, s.heap.size a < u := fun a ha => by
    obtain ⟨b,hb,rfl⟩ := mem_map.mp ha
    rw [I.ring.sizes b hb]
    exact hx b hb
  obtain ⟨j,hj⟩ := Nat.exists_eq_add_of_le (show l.length ≤ n by omega)
  refine ⟨j,hj,?_⟩
  have hscan := I.ring.scan_none (K := K) (n := n) (j := j) (x := w) hx
  rwa [← hj] at hscan

lemma malloc_none (hK : K.sbrk w (HEADER*coreUnits u) = (none,w')) :
    mallocLoop K n u n s.heap s.heap.freep (s.heap.ptr s.heap.freep) w = some (s.heap,0,w') := by
  obtain ⟨j,-,hr⟩ := I.malloc_more (K := K) (w := w) hx hn
  rw [hr,Umalloc.morecore,hK]
  rfl

/-- It gets some, and cannot write the header there. -/
lemma malloc_fault (hK : K.sbrk w (HEADER*coreUnits u) = (some hp,w'))
    (hm : K.mapped w' hp = false) :
    mallocLoop K n u n s.heap s.heap.freep (s.heap.ptr s.heap.freep) w = none := by
  obtain ⟨j,-,hr⟩ := I.malloc_more (K := K) (w := w) hx hn
  rw [hr,Umalloc.morecore,hK]
  simp [hm]

/-- It gets memory above all that it had, and takes its block from that. -/
lemma malloc_grow (hK : K.sbrk w (HEADER*coreUnits u) = (some hp,w')) (hm : K.mapped w' hp = true)
    (hhp : top P s.heap.cores ≤ hp) (hend : hp+HEADER*coreUnits u < 2^64)
    (hunits : s.heap.units+coreUnits u < 2^32) (hu : 0 < u) (hb : HEADER+b ≤ HEADER*u) :
    ∃ h' c l', mallocLoop K n u n s.heap s.heap.freep (s.heap.ptr s.heap.freep) w =
        some (h',c+HEADER,w') ∧
      h'.cores = (hp,coreUnits u)::s.heap.cores ∧ h'.size c = u ∧
      Inv P { heap := h', live := (c+HEADER,b)::s.live } l' := by
  have hle := le_coreUnits u
  have htotal := I.total_le
  obtain ⟨hring,hsz,-,hnew⟩ := I.grown hhp (u := u) (by omega)
  have hplus : (plus hp 1+(2^64-HEADER))%2^64 = hp := by
    rw [plus_eq (by simp only [HEADER] at hend ⊢; omega)]
    simp only [HEADER] at hend ⊢
    omega
  obtain ⟨h₁,l₁,hfree,hf⟩ := free_spec (n := n) (b := (hp,coreUnits u)) hring hplus hsz
    (I.cores.top_bounds.1.trans hhp) (hu.trans_le hle) hend
    (fun x hx hc => hnew x hx (I.divides.covers x (covers_append.mpr (.inl hc))))
    (by dsimp only; omega) (show l.length ≤ n by omega)
  have I₁ := I.morecore hhp hunits hend hf
  have hmore : Umalloc.morecore K n s.heap u w = some (h₁,h₁.freep,w') := by
    rw [Umalloc.morecore,hK]
    dsimp only
    rw [if_pos hm,hfree]
    rfl
  obtain ⟨j,hj,hr⟩ := I.malloc_more (K := K) (w := w) hx hn
  obtain ⟨a,ha,hal⟩ := hf.large
  have hlen := hf.length_le
  obtain ⟨h',c,l',hr',hcores,hsize,I'⟩ := I₁.malloc_found (K := K) (w := w') (n := n) (j := j)
    ⟨a,ha,hle.trans hal⟩ hu hb (by omega)
  refine ⟨h',c,l',?_,hcores.trans hf.cores,hsize,I'⟩
  rw [hr,hmore,Option.bind_some,if_neg I₁.freep_pos.ne']
  exact hr'

end More
end Malloc

/-- The program's writes stay within its blocks, and so away from the headers. -/
lemma write {v : UInt8} {i : ℕ} (hy : y ∈ s.live) (h₁ : y.1 ≤ i) (h₂ : i < y.1+y.2) :
    Inv P { s with heap := { s.heap with mem := Function.update s.heap.mem i v } } l := by
  have hmem := mem_used (h := s.heap) hy
  have hbase := (I.bounds (mem_append_right _ hmem) (I.used_pos hmem)).1
  have hyu := I.usable y hy
  have hin : In (header y,s.heap.size (header y)) i ∧ header y+HEADER ≤ i := by
    simp only [In,header,HEADER] at hyu ⊢
    omega
  have hout : ∀ b ∈ l++used s.heap s.live, ¬(b.1 ≤ i ∧ i < b.1+HEADER) := by
    intro b hb hi
    by_cases he : b = (header y,s.heap.size (header y))
    · rw [he] at hi
      exact absurd hi.2 (Nat.not_lt.mpr hin.2)
    · have hap : 0 < b.2 → False := fun h0 => by
        have hsym : Std.Symm Apart := ⟨fun _ _ h => h.symm⟩
        refine I.divides.apart.forall hb (mem_append_right _ hmem) he i ⟨⟨hi.1,?_⟩,hin.1⟩
        simp only [HEADER] at hi ⊢
        omega
      rcases mem_append.mp hb with hb | hb
      · obtain rfl | ⟨-,h0⟩ := I.ring.base_or hb
        · dsimp only at hi hbase
          omega
        · exact hap h0
      · exact hap (I.used_pos hb)
  refine I.congr rfl rfl fun b hb => ?_
  have hb := hout b hb
  simp only [HEADER] at hb
  constructor <;>
    exact congrArg num (slice_congr fun j _ _ => Function.update_of_ne (by omega) _ _)

end Inv

lemma Empty.ready (E : Empty s) :
    Inv P { heap := ready P s.heap, live := s.live } [(P.base,0)] := by
  obtain ⟨hf,hc,hl⟩ := E
  have hlt := P.base_lt
  simp only [HEADER] at hlt
  have hr : Umalloc.ready P s.heap =
      ((s.heap.setFreep P.base).setPtr P.base P.base).setSize P.base 0 := if_pos hf
  have hcores : (Umalloc.ready P s.heap).cores = [] := by
    rw [hr]
    exact hc
  rw [hl]
  refine ⟨⟨⟨⟨[],rfl,(by simp)⟩,pairwise_singleton _ _,?_⟩,⟨⟨rfl,?_⟩,?_⟩,?_⟩,?_,(by simp),?_,?_⟩
  · exact forall_mem_singleton.mpr (by simp only [HEADER]; omega)
  · show (Umalloc.ready P s.heap).ptr P.base = P.base
    rw [hr,Heap.ptr_setSize_self,Heap.ptr_setPtr (by omega)]
  · refine forall_mem_singleton.mpr ?_
    show (Umalloc.ready P s.heap).size P.base = 0
    rw [hr,Heap.size_setSize (by norm_num)]
  · show (Umalloc.ready P s.heap).freep ∈ [P.base]
    rw [hr]
    exact mem_singleton_self _
  · show Cores P (Umalloc.ready P s.heap).cores
    rw [hcores]
    trivial
  · show Divides [(P.base,0)] (Umalloc.ready P s.heap).cores
    rw [hcores]
    refine ⟨fun x hx => ?_,pairwise_singleton _ _,rfl⟩
    obtain ⟨b,hb,hx⟩ := hx
    simp only [mem_singleton.mp hb,In,HEADER] at hx
    omega
  · show (Umalloc.ready P s.heap).units < 2^32
    rw [Heap.units,hcores]
    norm_num

/-! ### Runs -/

/-- What holds before and after every call. -/
def Good (P : Program) (s : State) : Prop := Empty s ∨ ∃ l, Inv P s l

lemma nunits_eq {b : ℕ} (hb : b < 2^32) : nunits b = (b+15)/16+1 := by
  simp only [nunits,HEADER]
  omega

/-- Before the loop of `malloc` there is a free list, and the loop has enough rounds. -/
lemma Good.ready (g : Good P s) : ∃ l, Inv P { heap := ready P s.heap, live := s.live } l ∧
    2*l.length+2 ≤ s.heap.rounds ∧ (ready P s.heap).cores = s.heap.cores := by
  obtain E | ⟨l,I⟩ := g
  · refine ⟨[(P.base,0)],E.ready,?_,?_⟩
    · simp [Heap.rounds]
    · rw [Umalloc.ready,if_pos E.1]
      rfl
  · have hr : Umalloc.ready P s.heap = s.heap := if_neg I.freep_pos.ne'
    have hlen := I.length_le
    rw [hr]
    refine ⟨l,I,?_,rfl⟩
    rw [Heap.rounds]
    omega

/-- Every call that the program may make returns, and leaves the heap in order. -/
lemma Good.step {e : Event} (g : Good P s) (ha : Allowed P s e) (hbd : Bounded s e) :
    ∃ t, step P s e = some t ∧ Good P t := by
  cases e with
  | malloc b brks =>
    obtain ⟨hb,-,hfresh⟩ := ha
    obtain ⟨l,I,hn,hcores⟩ := g.ready
    have hu := nunits_eq hb
    have hu0 : 0 < nunits b := by omega
    have hroom : HEADER+b ≤ HEADER*nunits b := by
      simp only [HEADER]
      omega
    have hstep (h' : Heap) (p : ℕ) (w : List ℕ)
        (hr : malloc P answers s.heap.rounds s.heap b brks = some (h',p,w)) :
        Umalloc.step P s (.malloc b brks) =
          some { heap := h', live := if p = 0 then s.live else (p,b)::s.live } := by
      rw [Umalloc.step,hr]
      rfl
    have hne (c : ℕ) : c+HEADER ≠ 0 := by simp [HEADER]
    by_cases hx : ∃ a ∈ l, nunits b ≤ a.2
    · obtain ⟨h',c,l',hr,-,-,I'⟩ := I.malloc_found (K := answers) (w := brks)
        (n := s.heap.rounds) hx hu0 hroom (show l.length ≤ s.heap.rounds by omega)
      refine ⟨_,hstep h' _ _ hr,.inr ⟨l',?_⟩⟩
      rwa [if_neg (hne c)]
    · simp only [not_exists,not_and,not_le] at hx
      cases brks with
      | nil => exact ⟨_,hstep _ _ _ (I.malloc_none (K := answers) hx hn rfl),.inr ⟨l,I⟩⟩
      | cons hp brks =>
        obtain ⟨hhp,hend,-⟩ := hfresh
        obtain ⟨h',c,l',hr,-,-,I'⟩ := I.malloc_grow (K := answers) hx hn
          (w := hp::brks) rfl rfl (by rw [hcores]; exact hhp) hend
          (by rw [units_congr hcores]; exact hbd (by simp)) hu0 hroom
        refine ⟨_,hstep h' _ _ hr,.inr ⟨l',?_⟩⟩
        rwa [if_neg (hne c)]
  | free ap =>
    obtain ⟨n,hn⟩ := ha
    obtain ⟨-,-,hl⟩ | ⟨l,I⟩ := g
    · rw [hl] at hn
      cases hn
    · have hlen := I.length_le
      obtain ⟨h',l',hr,-,I'⟩ := I.free_run hn (show l.length ≤ s.heap.rounds by
        rw [Heap.rounds]
        omega)
      refine ⟨{ heap := h', live := s.live.filter (·.1 ≠ ap) },?_,.inr ⟨l',I'⟩⟩
      rw [Umalloc.step,hr]
      rfl
  | write a v =>
    obtain ⟨y,hy,h₁,h₂⟩ := ha
    obtain ⟨-,-,hl⟩ | ⟨l,I⟩ := g
    · rw [hl] at hy
      cases hy
    · exact ⟨_,rfl,.inr ⟨l,I.write hy h₁ h₂⟩⟩

/-- The free list seen from `freep`. -/
lemma Inv.sound (I : Inv P s l) : ∃ u v, Sound P s u v := by
  have hap := pairwise_append.mp I.divides.apart
  have hlive : ∀ y ∈ s.live, ∀ x, s.heap.Block (header y) x → s.heap.Obtained x := fun y hy x hx =>
    I.divides.covers x ⟨_,mem_append_right _ (mem_used hy),hx⟩
  have hpath := I.ring.path
  have hfreep := I.ring.freep
  have hasc := pairwise_map.mpr (I.ring.sorted.imp fun h => h.lt)
  obtain ⟨t,ht,hpos⟩ := I.ring.head
  rw [ht,map_cons] at hpath hfreep hasc
  -- the list from `freep` on is the part before the wraparound, `base`, and the rest
  obtain ⟨u,v,huv,hcycle⟩ : ∃ u v, t.map Prod.fst = v++u ∧
      Path s.heap.ptr s.heap.freep (u++P.base::v) s.heap.freep := by
    rcases mem_cons.mp hfreep with hf | hf
    · refine ⟨[],t.map Prod.fst,(append_nil _).symm,?_⟩
      rw [hf]
      exact hpath
    · obtain ⟨v,w,hvw⟩ := append_of_mem hf
      rw [hvw] at hpath
      exact ⟨s.heap.freep::w,v,hvw,Path.rotate (l := P.base::v) hpath⟩
  have hperm : (u++v).Perm (t.map Prod.fst) := huv ▸ perm_append_comm
  have hblock : ∀ a ∈ u++v, ∃ b ∈ t, b.1 = a ∧ s.heap.size a = b.2 := fun a ha => by
    obtain ⟨b,hb,rfl⟩ := mem_map.mp (hperm.mem_iff.mp ha)
    exact ⟨b,hb,rfl,I.ring.sizes b (ht ▸ mem_cons_of_mem _ hb)⟩
  have hmem : ∀ b ∈ t, b ∈ l := fun b hb => ht ▸ mem_cons_of_mem _ hb
  refine ⟨u,v,hcycle,huv ▸ hasc,?_,fun a ha c hc he => ?_,fun a ha x hx => ?_,hlive,?_,
    fun y hy a ha x hx => ?_,I.usable,?_⟩
  · refine hperm.symm.pairwise (pairwise_map.mpr ?_) fun h x hx => h x hx.symm
    have hpt := hap.1
    rw [ht] at hpt
    refine (pairwise_cons.mp hpt).2.imp_of_mem fun ha hb h => ?_
    rw [Heap.Apart]
    simp only [Heap.Block,I.ring.sizes _ (hmem _ ha),I.ring.sizes _ (hmem _ hb)]
    exact h
  · obtain ⟨b,hb,rfl,hs⟩ := hblock a ha
    obtain ⟨d,hd,rfl,-⟩ := hblock c hc
    have h0 := hpos b hb
    rw [hs] at he
    obtain rfl | h | h := I.ring.eq_or (hmem b hb) (hmem d hd)
    · simp only [HEADER] at he
      omega
    · exact h.2.ne he
    · have := h.lt
      omega
  · obtain ⟨b,hb,rfl,hs⟩ := hblock a ha
    rw [Heap.Block,hs] at hx
    exact I.divides.covers x ⟨b,mem_append_left _ (hmem b hb),hx⟩
  · have hu := hap.2.1
    rw [used,pairwise_map] at hu
    exact pairwise_map.mpr hu
  · obtain ⟨b,hb,rfl,hs⟩ := hblock a ha
    refine I.not_free (mem_used hy) hx.1 ⟨b,hmem b hb,?_⟩
    have := hx.2
    rwa [Heap.Block,hs] at this
  · have h₁ := I.divides.units
    have h₂ : ((u++v).map s.heap.size).sum = total t := by
      rw [(hperm.map s.heap.size).sum_eq,map_map,total]
      exact congrArg List.sum (map_congr_left fun b hb => I.ring.sizes b (hmem b hb))
    rw [total_append,ht,total_cons,Nat.zero_add,← h₂] at h₁
    rw [← show total s.heap.cores = s.heap.units from rfl,← h₁,total,used,map_map]
    rfl

end

/-- In every run of calls in which `sbrk` gives fewer than 2^32 units, the heap is sound in every state
reached: the free list is one ascending cycle through `base`, no two blocks overlap, no two free blocks
touch, every block in use has room for what was asked, and free and used units make up what `sbrk`
gave. And every further call returns. -/
theorem heap_sound (P : Program) (mem : ℕ → UInt8) (es : List Event) (t : State)
    (h : Runs (step P) (fun s e => Allowed P s e ∧ Bounded s e) (init mem) es t) :
    (Empty t ∨ ∃ u v, Sound P t u v) ∧
      ∀ e, Allowed P t e → Bounded t e → ∃ t', step P t e = some t' := by
  have g : Good P t := h.invariant (I := Good P) (fun s e t hs hc he => by
    obtain ⟨t',ht,g⟩ := hs.step hc.1 hc.2
    rw [he] at ht
    exact Option.some_inj.mp ht ▸ g) (.inl ⟨rfl,rfl,rfl⟩)
  refine ⟨g.imp id fun ⟨l,I⟩ => I.sound,fun e ha hf => ?_⟩
  obtain ⟨t',ht,-⟩ := g.step ha hf
  exact ⟨t',ht⟩

instance decidableFresh (u : ℕ) : ∀ a brks, Decidable (Fresh u a brks)
  | _,[] => .isTrue trivial
  | a,p::brks =>
    have := decidableFresh u (p+HEADER*u) brks
    inferInstanceAs (Decidable (a ≤ p ∧ p+HEADER*u < 2^64 ∧ Fresh u (p+HEADER*u) brks))

instance (P : Program) (s : State) : ∀ e, Decidable (Allowed P s e)
  | .malloc nbytes brks => inferInstanceAs (Decidable (nbytes < 2^32 ∧ HEADER*nunits nbytes < 2^31 ∧
      Fresh (coreUnits (nunits nbytes)) (top P s.heap.cores) brks))
  | .free ap => decidable_of_iff (∃ y ∈ s.live, y.1 = ap)
      ⟨fun ⟨y,hy,he⟩ => ⟨y.2,he ▸ hy⟩,fun ⟨n,hn⟩ => ⟨(ap,n),hn,rfl⟩⟩
  | .write a _ => inferInstanceAs (Decidable (∃ x ∈ s.live, x.1 ≤ a ∧ a < x.1+x.2))

instance (s : State) : ∀ e, Decidable (Bounded s e)
  | .malloc nbytes brks =>
    inferInstanceAs (Decidable (brks ≠ [] → s.heap.units+coreUnits (nunits nbytes) < 2^32))
  | .free _ | .write _ _ => .isTrue trivial

/-- A program whose `base` lies at address 4096. -/
def demo : Program := { base := 4096, base_pos := by decide, base_lt := by decide }

/-- Three blocks are taken from what `sbrk` gives, and of these the middle one and the first are freed.
A larger request then makes `morecore` add adjacent memory in the middle of the scan, and the next
one fails. -/
def demoRun : List Event :=
  [.malloc 10 [65536],.malloc 100 [],.malloc 30 [],.write 131000 7,.free 130928,.free 131056,
    .malloc 70000 [131072],.malloc 200000 []]

theorem heap_sound_demo : ∃ t, Runs (step demo) (fun s e => Allowed demo s e ∧ Bounded s e)
      (init fun _ => 0) demoRun t ∧
    (t.live.length = 2 ∧ t.heap.cores.length = 2) ∧ (Empty t ∨ ∃ u v, Sound demo t u v) ∧
      ∀ e, Allowed demo t e → Bounded t e → ∃ t', step demo t e = some t' := by
  obtain ⟨t,hr,h⟩ := Runs.exists_of_execIf (step demo) (fun s e => Allowed demo s e ∧ Bounded s e)
    (init fun _ => 0) demoRun (fun t => t.live.length = 2 ∧ t.heap.cores.length = 2) (by decide +kernel)
  exact ⟨t,hr,h,heap_sound demo _ _ _ hr⟩

/-! ### A size field that wraps

The largest request that `sbrk` can serve is one of 2^27-1 units. If 33 such blocks lie one after
the other, freeing them all makes one block of more than 2^32 units. -/

/-- The units of one block. -/
def chunk : ℕ := 2^27-1

/-- The bytes asked for. -/
def chunkBytes : ℕ := HEADER*(chunk-1)

/-- Where `sbrk` puts the blocks. -/
def brk (i : ℕ) : ℕ := 65536+HEADER*chunk*i

/-- The blocks are asked for one after the other, and then freed in the same order. -/
def wrapRun : List Event :=
  ((List.range 33).map fun i => .malloc chunkBytes [brk i])++
    (List.range 33).map fun i => .free (brk i+HEADER)

/-- The free list is then `base` and one block, whose size has wrapped. -/
lemma wrapRun_ends : ∃ t, Runs (step demo) (Allowed demo) (init fun _ => 0) wrapRun t ∧
    t.heap.freep = brk 0 ∧ t.heap.ptr demo.base = brk 0 ∧ t.heap.ptr (brk 0) = demo.base ∧
      t.heap.size (brk 0) = 33*chunk%2^32 ∧ t.live = [] ∧ t.heap.units = 33*chunk := by
  refine Runs.exists_of_execIf _ _ _ _ _ ?_
  decide +kernel

/-- When 33 adjacent blocks of the largest size have been freed, the size of the block that they
make has wrapped, and free and used units do not make up what `sbrk` gave. -/
theorem size_wraps : ∃ es t, Runs (step demo) (Allowed demo) (init fun _ => 0) es t ∧
    ¬(Empty t ∨ ∃ u v, Sound demo t u v) := by
  obtain ⟨t,hr,hfreep,hptr,hptr',hsize,hlive,hunits⟩ := wrapRun_ends
  refine ⟨_,t,hr,?_⟩
  rintro (⟨hf,-,-⟩ | ⟨u,v,hS⟩)
  · rw [hf] at hfreep
    exact absurd hfreep (by decide)
  · -- the list consists of `base` and the one free block
    have hnd : (demo.base::(v++u)).Nodup := hS.ascending.imp fun h => h.ne
    have hmem : ∀ a ∈ u++v, a = brk 0 := by
      intro a ha
      have hin : a = demo.base ∨ a = brk 0 := by
        refine hS.cycle.mem_of_closed (S := {a | a = demo.base ∨ a = brk 0}) (.inr hfreep) ?_ a ?_
        · rintro c (rfl | rfl)
          · exact .inr hptr
          · exact .inl hptr'
        · rw [mem_append] at ha ⊢
          exact ha.imp id (mem_cons_of_mem _)
      refine hin.resolve_left fun he => (nodup_cons.mp hnd).1 ?_
      exact he ▸ perm_append_comm.mem_iff.mp ha
    have hnd' : (u++v).Nodup := perm_append_comm.nodup_iff.mp (nodup_cons.mp hnd).2
    have htotal := hS.total
    rw [hlive,hunits,map_nil,sum_nil,Nat.add_zero] at htotal
    generalize u++v = w at hmem hnd' htotal
    match w,hmem,hnd',htotal with
    | [],_,_,h =>
      have h : 0 = 33*chunk := h
      exact absurd h (by decide)
    | [a],hmem,_,h =>
      rw [map_singleton,sum_singleton,hmem a (mem_singleton_self a),hsize] at h
      exact absurd h (by decide)
    | a::b::w,hmem,hnd',_ =>
      have hab : a = b := (hmem a (by simp)).trans (hmem b (by simp)).symm
      exact (nodup_cons.mp hnd').1 (hab ▸ mem_cons_self)

end Xv6.Umalloc
