import Xv6.Vm.Machine

/-! The words of a page table: the entries that point to tables and to pages, and where they are. -/
namespace Xv6.Vm
open Xv6.Lib
open Function (update update_self update_of_ne)

section Words
variable {m m' : Mem} {q pa : ℕ} {i j v : ℕ}

/-- The `uint64` at an address. -/
def Mem.word (m : Mem) (pa : ℕ) : ℕ := num (m.read pa 8)

lemma PGROUNDDOWN_add (hq : q%PGSIZE = 0) (hi : i < PGSIZE) : PGROUNDDOWN (q+i) = q := by
  simp only [PGROUNDDOWN,PGSIZE] at *
  omega

lemma add_mod_PGSIZE (hq : q%PGSIZE = 0) (hi : i < PGSIZE) : (q+i)%PGSIZE = i := by
  simp only [PGSIZE] at *
  omega

lemma offset_lt_PGSIZE (va : ℕ) : va-PGROUNDDOWN va < PGSIZE := by
  simp only [PGROUNDDOWN,PGSIZE]
  omega

lemma offset_lt (hi : i < 512) : 8*i < PGSIZE := by
  simp only [PGSIZE]
  omega

lemma Mem.word_congr (hq : q%PGSIZE = 0) (hi : i < 512) (h : m' q = m q) :
    m'.word (q+8*i) = m.word (q+8*i) := by
  simp only [Mem.word,Mem.read,PGROUNDDOWN_add hq (offset_lt hi),h]

lemma Mem.write_of_ne {bs : List UInt8} (h : q ≠ PGROUNDDOWN pa) : m.write pa bs q = m q :=
  update_of_ne h _ _

lemma Mem.word_write {q' : ℕ} (hq : q%PGSIZE = 0) (hq' : q'%PGSIZE = 0) (hi : i < 512)
    (hj : j < 512) (hv : v < 2^64) : (m.write (q+8*i) (bytes 8 v)).word (q'+8*j) =
      if q' = q ∧ j = i then v else m.word (q'+8*j) := by
  have hi' := offset_lt hi
  have hj' := offset_lt hj
  by_cases he : q' = q
  · subst he
    simp only [Mem.word,Mem.read,Mem.write,PGROUNDDOWN_add hq hi',PGROUNDDOWN_add hq hj',
      add_mod_PGSIZE hq hi',add_mod_PGSIZE hq hj',update_self,true_and]
    split_ifs with h
    · have hs := slice_patch (m q') (8*i) (bytes 8 v)
      rw [length_bytes] at hs
      rw [h,hs,num_bytes]
      exact Nat.mod_eq_of_lt hv
    · rw [slice_patch_of_disjoint _ (by rw [length_bytes]; omega)]
  · rw [if_neg fun h => he h.1]
    refine Mem.word_congr hq' hj (write_of_ne ?_)
    rwa [PGROUNDDOWN_add hq hi']

end Words

section Pte
variable {w f pa perm : ℕ}

/-- The entry for a page with these permissions. -/
def mkPte (pa perm : ℕ) : ℕ := PA2PTE pa ||| perm ||| PTE_V

/-- The entry for a table, if there is one. -/
def link : Option ℕ → ℕ
  | none => 0
  | some q => PA2PTE q ||| PTE_V

lemma mkPte_eq (hp : perm < 1024) : mkPte pa perm = pa/4096*1024+(perm ||| 1) := by
  have hlt : perm ||| 1 < 2^10 := Nat.or_lt_two_pow hp (by norm_num)
  rw [mkPte,PA2PTE,Nat.or_assoc,← Nat.shiftLeft_add_eq_or_of_lt hlt,Nat.shiftLeft_eq,
    Nat.shiftRight_eq_div_pow]

lemma link_some (q : ℕ) : link (some q) = mkPte q 0 := by simp [link,mkPte]

lemma PTE2PA_eq : PTE2PA w = w/1024*4096%2^64 := by
  rw [PTE2PA,Nat.shiftLeft_eq,Nat.shiftRight_eq_div_pow]

lemma PTE2PA_aligned : PTE2PA w%PGSIZE = 0 := by
  rw [PTE2PA_eq]
  simp only [PGSIZE]
  omega

lemma PTE_FLAGS_eq : PTE_FLAGS w = w%1024 := Nat.and_two_pow_sub_one_eq_mod w 10

/-- The flags are the lowest ten bits. -/
lemma and_eq_and_mod (hf : f < 1024) : w &&& f = w%1024 &&& f := by
  have h : f = 1023 &&& f := by
    rw [Nat.and_comm]
    exact (Nat.and_two_pow_sub_one_of_lt_two_pow (n := 10) hf).symm
  have hw : w%1024 = w &&& 1023 := (Nat.and_two_pow_sub_one_eq_mod w 10).symm
  rw [hw,Nat.and_assoc,← h]

lemma mkPte_lt (hpa : pa < 2^56) (hp : perm < 1024) : mkPte pa perm < 2^64 := by
  have hlt : perm ||| 1 < 2^10 := Nat.or_lt_two_pow hp (by norm_num)
  rw [mkPte_eq hp]
  omega

lemma PTE2PA_mkPte (hpa : pa%PGSIZE = 0) (h : pa < 2^56) (hp : perm < 1024) :
    PTE2PA (mkPte pa perm) = pa := by
  have hlt : perm ||| 1 < 2^10 := Nat.or_lt_two_pow hp (by norm_num)
  simp only [PGSIZE] at hpa
  rw [PTE2PA_eq,mkPte_eq hp]
  omega

lemma PTE_FLAGS_mkPte (hp : perm < 1024) : PTE_FLAGS (mkPte pa perm) = perm ||| PTE_V := by
  have hlt : perm ||| 1 < 2^10 := Nat.or_lt_two_pow hp (by norm_num)
  rw [PTE_FLAGS_eq,mkPte_eq hp]
  change _ = perm ||| 1
  omega

lemma mkPte_and (hp : perm < 1024) (hf : f < 1024) : mkPte pa perm &&& f = (perm ||| 1) &&& f := by
  rw [and_eq_and_mod hf,← PTE_FLAGS_eq,PTE_FLAGS_mkPte hp]

lemma mkPte_valid (hp : perm < 1024) : mkPte pa perm &&& PTE_V ≠ 0 := by
  rw [mkPte_and hp (by norm_num),Nat.and_or_distrib_right]
  simp [Nat.and_one_is_mod]

lemma link_lt {q : ℕ} (hq : q < 2^56) : link (some q) < 2^64 := by
  rw [link_some]
  exact mkPte_lt hq (by norm_num)

end Pte

/-- A table of the level above has these many entries. -/
abbrev Idx := Fin 512

/-- The index of page number `v` in the tables of a level. -/
def idx (level v : ℕ) : Idx := ⟨v/512^level%512,Nat.mod_lt _ (by norm_num)⟩

lemma PX_eq (level va : ℕ) : PX level va = idx level (va/PGSIZE) := by
  have h := Nat.and_two_pow_sub_one_eq_mod (va >>> (12+9*level)) 9
  rw [Nat.shiftRight_eq_div_pow,pow_add,pow_mul,← Nat.div_div_eq_div_mul] at h
  rw [PX,Nat.shiftRight_eq_div_pow,pow_add,pow_mul,← Nat.div_div_eq_div_mul]
  exact h

end Xv6.Vm
