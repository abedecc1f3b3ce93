import Mathlib.Data.List.GetD
import Xv6.Lib.Solo
import Xv6.Vm.Code
import Xv6.Vm.Table

/-! `copyin` and `copyout` on any memory that a page table can be read from: what the hardware finds
for a virtual address, and the bytes that the two functions move. -/
namespace Xv6.Vm
open Xv6.Lib Option List
open Process (Slot)

/-! ### What a page table says -/

namespace Mem
variable (m : Mem) (pagetable va : ℕ)

/-- The byte at a physical address. -/
def byte (pa : ℕ) : UInt8 := m (PGROUNDDOWN pa) (pa%PGSIZE)

/-- The table that a valid entry points to. -/
def next (pte : ℕ) : Option ℕ := if pte &&& PTE_V ≠ 0 then some (PTE2PA pte) else none

/-- The table of the middle level for an address. -/
def mid : Option ℕ := next (m.word (pagetable+8*PX 2 va))

/-- The table of the last level. -/
def low : Option ℕ := (m.mid pagetable va).bind fun q => next (m.word (q+8*PX 1 va))

/-- The entry for the page of an address; without a table it is not valid. -/
def entry : ℕ :=
  match m.low pagetable va with
  | none => 0
  | some q => m.word (q+8*PX 0 va)

end Mem

/-- A page that the user may read. -/
def UserPage (pte : ℕ) : Prop := pte &&& PTE_V ≠ 0 ∧ pte &&& PTE_U ≠ 0

/-- A page that the user may write. -/
def UserWritable (pte : ℕ) : Prop := UserPage pte ∧ pte &&& PTE_W ≠ 0

instance (pte : ℕ) : Decidable (UserPage pte) := inferInstanceAs (Decidable (_ ∧ _))
instance (pte : ℕ) : Decidable (UserWritable pte) := inferInstanceAs (Decidable (_ ∧ _))

namespace Mem
variable (m : Mem) (pagetable va : ℕ)

/-- The physical address of a byte that lies below `MAXVA` in a page of this kind. -/
def addr (P : ℕ → Prop) [DecidablePred P] : Option ℕ :=
  if va < MAXVA ∧ P (m.entry pagetable va) then
    some (PTE2PA (m.entry pagetable va)+va%PGSIZE)
  else none

/-- What the user reads at an address, if it may. -/
def userByte : Option UInt8 := (m.addr pagetable va UserPage).map m.byte

/-- No table of the last level and no page is at the physical address 0. -/
def NoZero : Prop := ∀ va < MAXVA, m.low pagetable va ≠ some 0 ∧
  (m.entry pagetable va &&& PTE_V ≠ 0 → PTE2PA (m.entry pagetable va) ≠ 0)

/-- The page of one of the tables. -/
def IsTable (q : ℕ) : Prop := q = pagetable ∨
  ∃ va < MAXVA, m.mid pagetable va = some q ∨ m.low pagetable va = some q

/-- The user may write to no table, and to no page at two addresses. -/
structure Disjoint : Prop where
  aligned : pagetable%PGSIZE = 0
  table : ∀ va < MAXVA, UserWritable (m.entry pagetable va) →
    ¬m.IsTable pagetable (PTE2PA (m.entry pagetable va))
  page : ∀ va < MAXVA, ∀ va' < MAXVA, UserWritable (m.entry pagetable va) →
    UserWritable (m.entry pagetable va') →
    PTE2PA (m.entry pagetable va) = PTE2PA (m.entry pagetable va') → va/PGSIZE = va'/PGSIZE

/-- None of the pages that the user may write from `va` to `va+len` is one of the tables. -/
structure OffTables (len : ℕ) : Prop where
  aligned : pagetable%PGSIZE = 0
  table : ∀ i < len, va+i < MAXVA → UserWritable (m.entry pagetable (va+i)) →
    ¬m.IsTable pagetable (PTE2PA (m.entry pagetable (va+i)))

/-- From `va` to `va+len` the user can write no byte of the memory at two addresses. -/
def Distinct (len : ℕ) : Prop := ∀ i < len, ∀ j < len, ∀ x,
  m.addr pagetable (va+i) UserWritable = some x → m.addr pagetable (va+j) UserWritable = some x → i = j

end Mem

section Lookup
variable {m m' : Mem} {pagetable va va' q : ℕ}

namespace Mem

lemma low_of_mid (h : m.mid pagetable va = some q) :
    m.low pagetable va = next (m.word (q+8*PX 1 va)) := by
  rw [low,h,bind_some]

lemma low_of_mid_none (h : m.mid pagetable va = none) : m.low pagetable va = none := by
  rw [low,h,bind_none]

lemma entry_of_low (h : m.low pagetable va = some q) :
    m.entry pagetable va = m.word (q+8*PX 0 va) := by
  rw [entry,h]

lemma entry_of_low_none (h : m.low pagetable va = none) : m.entry pagetable va = 0 := by
  rw [entry,h]

end Mem

lemma Mem.next_aligned {pte : ℕ} (h : next pte = some q) : q%PGSIZE = 0 := by
  rw [next] at h
  split_ifs at h
  exact Option.some.inj h ▸ PTE2PA_aligned

lemma Mem.low_aligned (h : m.low pagetable va = some q) : q%PGSIZE = 0 := by
  obtain ⟨q₁,_,h⟩ := bind_eq_some_iff.mp h
  exact next_aligned h

lemma PX_congr (h : va/PGSIZE = va'/PGSIZE) (level : ℕ) : PX level va = PX level va' := by
  rw [PX_eq,PX_eq,h]

lemma Mem.entry_congr (h : va/PGSIZE = va'/PGSIZE) :
    m.entry pagetable va = m.entry pagetable va' := by
  simp only [entry,low,mid,PX_congr h]

lemma PGROUNDDOWN_div (va : ℕ) : PGROUNDDOWN va/PGSIZE = va/PGSIZE := by
  simp only [PGROUNDDOWN,PGSIZE]
  omega

/-- The tables in the second memory say the same. -/
def Mem.SameTables (m m' : Mem) (pagetable : ℕ) : Prop := ∀ va < MAXVA,
  m'.mid pagetable va = m.mid pagetable va ∧ m'.low pagetable va = m.low pagetable va ∧
    m'.entry pagetable va = m.entry pagetable va

lemma Mem.SameTables.trans {m'' : Mem} (h : m.SameTables m' pagetable)
    (h' : m'.SameTables m'' pagetable) : m.SameTables m'' pagetable := fun va hva =>
  ⟨(h' va hva).1.trans (h va hva).1,(h' va hva).2.1.trans (h va hva).2.1,
    (h' va hva).2.2.trans (h va hva).2.2⟩

lemma Mem.SameTables.refl : m.SameTables m pagetable := fun _ _ => ⟨rfl,rfl,rfl⟩

lemma Mem.lookup_congr (hal : pagetable%PGSIZE = 0)
    (h : ∀ q, m.IsTable pagetable q → m' q = m q) : m.SameTables m' pagetable := by
  intro va hva
  have hword {q : ℕ} (level : ℕ) (hq : q%PGSIZE = 0) (ht : m.IsTable pagetable q) :
      m'.word (q+8*PX level va) = m.word (q+8*PX level va) := by
    rw [PX_eq]
    exact word_congr hq (Fin.isLt _) (h q ht)
  have hmid : m'.mid pagetable va = m.mid pagetable va := by
    rw [mid,mid,hword 2 hal (.inl rfl)]
  have hlow : m'.low pagetable va = m.low pagetable va := by
    cases hm : m.mid pagetable va with
    | none => rw [low_of_mid_none hm,low_of_mid_none (hmid.trans hm)]
    | some q =>
      rw [low_of_mid hm,low_of_mid (hmid.trans hm),
        hword 1 (next_aligned hm) (.inr ⟨va,hva,.inl hm⟩)]
  refine ⟨hmid,hlow,?_⟩
  cases hl : m.low pagetable va with
  | none => rw [entry_of_low_none hl,entry_of_low_none (hlow.trans hl)]
  | some q =>
    rw [entry_of_low hl,entry_of_low (hlow.trans hl),
      hword 0 (low_aligned hl) (.inr ⟨va,hva,.inr hl⟩)]

lemma Mem.addr_eq_some {P : ℕ → Prop} [DecidablePred P] :
    m.addr pagetable va P = some q ↔ va < MAXVA ∧ P (m.entry pagetable va) ∧
      q = PTE2PA (m.entry pagetable va)+va%PGSIZE := by
  rw [addr]
  split_ifs with h
  · rw [Option.some.injEq,eq_comm]
    simp [h.1,h.2]
  · refine ⟨nofun,fun hc => absurd ⟨hc.1,hc.2.1⟩ h⟩

lemma Mem.addr_add {P : ℕ → Prop} [DecidablePred P] {i : ℕ} (hva : va < MAXVA)
    (hP : P (m.entry pagetable va)) (hi : va%PGSIZE+i < PGSIZE) :
    m.addr pagetable (va+i) P = some (PTE2PA (m.entry pagetable va)+va%PGSIZE+i) := by
  have hdiv : (va+i)/PGSIZE = va/PGSIZE := by
    simp only [PGSIZE] at *
    omega
  rw [addr_eq_some,entry_congr hdiv]
  refine ⟨?_,hP,?_⟩
  · simp only [PGSIZE,MAXVA] at *
    omega
  · simp only [PGSIZE] at *
    omega

lemma Mem.byte_write {bs : List UInt8} {i x : ℕ} (hq : q%PGSIZE = 0) (hi : i+bs.length ≤ PGSIZE) :
    (m.write (q+i) bs).byte x = if q+i ≤ x ∧ x < q+i+bs.length then bs.getD (x-(q+i)) 0
      else m.byte x := by
  by_cases h0 : bs.length = 0
  · obtain rfl := length_eq_zero_iff.mp h0
    rw [if_neg (by simp only [length_nil]; omega),byte,byte,write]
    by_cases hp : PGROUNDDOWN x = PGROUNDDOWN (q+i)
    · rw [hp,Function.update_self,patch,if_neg (by simp only [length_nil]; omega)]
    · rw [Function.update_of_ne hp]
  have hlt : i < PGSIZE := by omega
  rw [byte,byte,write,PGROUNDDOWN_add hq hlt,add_mod_PGSIZE hq hlt]
  by_cases hp : PGROUNDDOWN x = q
  · rw [hp,Function.update_self,patch]
    simp only [PGROUNDDOWN,PGSIZE] at *
    by_cases hx : i ≤ x%4096 ∧ x%4096 < i+bs.length
    · rw [if_pos hx,if_pos (by omega),show x%4096-i = x-(q+i) by omega]
    · rw [if_neg hx,if_neg (by omega)]
  · rw [Function.update_of_ne hp,if_neg]
    simp only [PGROUNDDOWN,PGSIZE] at *
    omega

end Lookup

/-! ### Runs -/

section Runs
variable (s : Kernel) {pagetable va : ℕ}

lemma run_load (pa : ℕ) : (load pa).run eval s = .ok (s.mem.word pa,s) := rfl

/-- `walk` goes down the tables, or returns 0. -/
lemma run_walk (hva : va < MAXVA) : (walk pagetable va false).run eval s
    = .ok (((s.mem.low pagetable va).map (·+8*PX 0 va)).getD 0,s) := by
  rw [walk,if_neg (by omega),walkFrom,Prog.run_bind_ok (run_load ..),Mem.low,Mem.mid]
  by_cases h₂ : s.mem.word (pagetable+8*PX 2 va) &&& PTE_V ≠ 0
  · rw [if_pos h₂,walkFrom,Prog.run_bind_ok (run_load ..),Mem.next,if_pos h₂,bind_some,
      Mem.next]
    by_cases h₁ : s.mem.word (PTE2PA (s.mem.word (pagetable+8*PX 2 va))+8*PX 1 va) &&& PTE_V ≠ 0
    · rw [if_pos h₁,if_pos h₁,walkFrom,map_some,getD_some]
      rfl
    · rw [if_neg h₁,if_neg h₁,if_pos Bool.not_false,map_none,getD_none]
      rfl
  · rw [if_neg h₂,Mem.next,if_neg h₂,if_pos Bool.not_false,bind_none,map_none,
      getD_none]
    rfl

lemma run_entry {α : Type} (hz : s.mem.NoZero pagetable) (hva : va < MAXVA) (no : Code α)
    (yes : ℕ → Code α) :
    ((walk pagetable va false) >>= fun pte => if pte = 0 then no
      else load pte >>= fun v => yes v).run eval s =
      if s.mem.low pagetable va = none then no.run eval s
      else (yes (s.mem.entry pagetable va)).run eval s := by
  rw [Prog.run_bind_ok (run_walk s hva)]
  cases hl : s.mem.low pagetable va with
  | none => rw [map_none,getD_none,if_pos rfl,if_pos rfl]
  | some q =>
    have hq : q ≠ 0 := fun h => (hz va hva).1 (h ▸ hl)
    have hne : q+8*PX 0 va ≠ 0 := by omega
    rw [map_some,getD_some,if_neg hne,if_neg nofun,Prog.run_bind_ok (run_load ..),
      Mem.entry_of_low hl]

lemma run_walkaddr (hz : s.mem.NoZero pagetable) : (walkaddr pagetable va).run eval s
    = .ok (if va < MAXVA ∧ UserPage (s.mem.entry pagetable va) then PTE2PA (s.mem.entry pagetable va)
      else 0,s) := by
  rw [walkaddr]
  by_cases hva : va < MAXVA
  · rw [if_neg (by omega),run_entry s hz hva]
    by_cases hl : s.mem.low pagetable va = none
    · rw [if_pos hl,Mem.entry_of_low_none hl,if_neg (by simp [UserPage])]
      rfl
    · rw [if_neg hl]
      by_cases hv : s.mem.entry pagetable va &&& PTE_V = 0
      · rw [if_pos hv,if_neg fun h => h.2.1 hv]
        rfl
      · by_cases hu : s.mem.entry pagetable va &&& PTE_U = 0
        · rw [if_neg hv,if_pos hu,if_neg fun h => h.2.2 hu]
          rfl
        · rw [if_neg hv,if_neg hu,if_pos ⟨hva,hv,hu⟩]
          rfl
  · rw [if_pos (by omega),if_neg fun h => hva h.1]
    rfl

end Runs

/-! ### Copying out -/

/-- The bytes `bs` have been stored at `va` and the following addresses, and nothing else. -/
structure Wrote (m m' : Mem) (pagetable va : ℕ) (bs : List UInt8) : Prop where
  stored : ∀ i < bs.length, ∃ x, m.addr pagetable (va+i) UserWritable = some x ∧
    m'.byte x = bs.getD i 0
  rest : ∀ x, (∀ i < bs.length, m.addr pagetable (va+i) UserWritable ≠ some x) →
    m'.byte x = m.byte x

section Wrote
variable {m m₁ m' : Mem} {pagetable va va' x : ℕ} {bs cs : List UInt8}

lemma Wrote.nil : Wrote m m pagetable va [] := ⟨nofun,fun _ _ => rfl⟩

lemma Mem.SameTables.addr {P : ℕ → Prop} [DecidablePred P] (h : m.SameTables m' pagetable)
    (va : ℕ) : m'.addr pagetable va P = m.addr pagetable va P := by
  rw [Mem.addr,Mem.addr]
  by_cases hva : va < MAXVA
  · rw [(h va hva).2.2]
  · rw [if_neg fun hc => hva hc.1,if_neg fun hc => hva hc.1]

namespace Mem.Disjoint

/-- The user can write a byte at one address only. -/
lemma addr_inj (hd : m.Disjoint pagetable) (h : m.addr pagetable va UserWritable = some x)
    (h' : m.addr pagetable va' UserWritable = some x) : va = va' := by
  obtain ⟨hva,hw,hx⟩ := addr_eq_some.mp h
  obtain ⟨hva',hw',hx'⟩ := addr_eq_some.mp h'
  have h₁ := PTE2PA_aligned (w := m.entry pagetable va)
  have h₂ := PTE2PA_aligned (w := m.entry pagetable va')
  have hdiv := hd.page va hva va' hva' hw hw' (by simp only [PGSIZE] at *; omega)
  simp only [PGSIZE] at *
  omega

lemma congr (hd : m.Disjoint pagetable) (h : m.SameTables m' pagetable) :
    m'.Disjoint pagetable := by
  refine ⟨hd.aligned,fun va hva hw ht => ?_,fun va hva va' hva' hw hw' he => ?_⟩
  · rw [(h va hva).2.2] at hw ht
    refine hd.table va hva hw (ht.imp id fun ⟨va',hva',hq⟩ => ⟨va',hva',?_⟩)
    rwa [(h va' hva').1,(h va' hva').2.1] at hq
  · rw [(h va hva).2.2] at hw he
    rw [(h va' hva').2.2] at hw' he
    exact hd.page va hva va' hva' hw hw' he

variable (va) in
lemma offTables (hd : m.Disjoint pagetable) (len : ℕ) : m.OffTables pagetable va len :=
  ⟨hd.aligned,fun i _ hva hw => hd.table (va+i) hva hw⟩

variable (va) in
lemma distinct (hd : m.Disjoint pagetable) (len : ℕ) : m.Distinct pagetable va len :=
  fun _ _ _ _ _ hi hj => Nat.add_left_cancel (hd.addr_inj hi hj)

end Mem.Disjoint

namespace Mem.OffTables
variable {len : ℕ}

/-- A store to a page of the range leaves the tables alone. -/
lemma lookup_write (hd : m.OffTables pagetable va len) (h0 : 0 < len) (hva : va < MAXVA)
    (hw : UserWritable (m.entry pagetable va)) {i : ℕ} (hi : i < PGSIZE) :
    m.SameTables (m.write (PTE2PA (m.entry pagetable va)+i) bs) pagetable := by
  refine lookup_congr hd.aligned fun q hq => write_of_ne ?_
  rw [PGROUNDDOWN_add PTE2PA_aligned hi]
  exact fun h => hd.table 0 h0 hva hw (h ▸ hq)

lemma rest (hd : m.OffTables pagetable va len) (h : m.SameTables m' pagetable) {k : ℕ}
    (hk : k ≤ len) (hva : k = len ∨ va' = va+k) : m'.OffTables pagetable va' (len-k) := by
  refine ⟨hd.aligned,fun i hi hlt hw ht => ?_⟩
  obtain rfl | rfl := hva
  · omega
  rw [(h _ hlt).2.2] at hw ht
  rw [Nat.add_assoc] at hlt hw ht
  refine hd.table (k+i) (by omega) hlt hw (ht.imp id fun ⟨va',hva',hq⟩ => ⟨va',hva',?_⟩)
  rwa [(h va' hva').1,(h va' hva').2.1] at hq

end Mem.OffTables

lemma Mem.NoZero.congr (hz : m.NoZero pagetable) (h : m.SameTables m' pagetable) :
    m'.NoZero pagetable := by
  intro va hva
  rw [(h va hva).2.1,(h va hva).2.2]
  exact hz va hva

lemma wrote_piece (hva : va < MAXVA) (hw : UserWritable (m.entry pagetable va))
    (hlen : va%PGSIZE+bs.length ≤ PGSIZE) :
    Wrote m (m.write (PTE2PA (m.entry pagetable va)+va%PGSIZE) bs) pagetable va bs := by
  refine ⟨fun i hi => ⟨_,Mem.addr_add hva hw (by omega),?_⟩,fun x hx => ?_⟩
  · rw [Mem.byte_write PTE2PA_aligned hlen,if_pos (by omega)]
    congr 1
    omega
  · rw [Mem.byte_write PTE2PA_aligned hlen,if_neg]
    rintro ⟨h₁,h₂⟩
    obtain ⟨i,rfl⟩ := Nat.exists_eq_add_of_le h₁
    exact hx i (by omega) (Mem.addr_add hva hw (by omega))

lemma Wrote.append (hd : m.Distinct pagetable va (bs.length+cs.length)) (h : Wrote m m₁ pagetable va bs)
    (he : m.SameTables m₁ pagetable) (h' : Wrote m₁ m' pagetable (va+bs.length) cs) :
    Wrote m m' pagetable va (bs++cs) := by
  have haddr := he.addr (P := UserWritable)
  refine ⟨fun i hi => ?_,fun x hx => ?_⟩
  · by_cases hib : i < bs.length
    · obtain ⟨x,hx,hb⟩ := h.stored i hib
      refine ⟨x,hx,?_⟩
      rw [h'.rest x,hb,getD_append _ _ _ _ hib]
      intro j hj hj'
      rw [haddr,Nat.add_assoc] at hj'
      have := hd i (by omega) (bs.length+j) (by omega) x hx hj'
      omega
    · obtain ⟨j,rfl⟩ := Nat.exists_eq_add_of_le (Nat.le_of_not_lt hib)
      obtain ⟨x,hx,hb⟩ := h'.stored j (by rw [length_append] at hi; omega)
      rw [haddr,Nat.add_assoc] at hx
      refine ⟨x,hx,?_⟩
      rw [hb,getD_append_right _ _ _ _ (by omega),Nat.add_sub_cancel_left]
  · rw [length_append] at hx
    rw [h'.rest x,h.rest x]
    · exact fun i hi => hx i (by omega)
    · intro j hj
      rw [haddr,Nat.add_assoc]
      exact hx _ (by omega)

end Wrote

lemma sub_PGROUNDDOWN (va : ℕ) : va-PGROUNDDOWN va = va%PGSIZE := by
  simp only [PGROUNDDOWN,PGSIZE]
  omega

/-- The outcome of `copyout`: the first `k` bytes have been stored, and the next one cannot be. Where no
byte of the memory is written twice, each of them is there. -/
structure CopiedOut (m m' : Mem) (pagetable va : ℕ) (src : List UInt8) (k : ℕ) : Prop where
  le : k ≤ src.length
  tables : m.SameTables m' pagetable
  writable : ∀ i < k, (m.addr pagetable (va+i) UserWritable).isSome
  rest : ∀ x, (∀ i < k, m.addr pagetable (va+i) UserWritable ≠ some x) → m'.byte x = m.byte x
  wrote : m.Distinct pagetable va k → Wrote m m' pagetable va (src.take k)
  stopped : k < src.length → m.addr pagetable (va+k) UserWritable = none ∧
    (k = 0 ∨ (va+k)%PGSIZE = 0)

variable {j k va : ℕ} {m m' : Mem}

lemma CopiedOut.zero {pagetable : ℕ} {src : List UInt8}
    (h : 0 < src.length → m.addr pagetable va UserWritable = none) :
    CopiedOut m m pagetable va src 0 :=
  ⟨Nat.zero_le _,.refl,by simp,fun _ _ => rfl,fun _ => .nil,fun h0 => ⟨h h0,.inl rfl⟩⟩

/-- A piece up to the end of a page, or up to the end of the source, and then the rest. -/
lemma CopiedOut.append {m₁ : Mem} {pagetable va' : ℕ} {src : List UInt8}
    (h : Wrote m m₁ pagetable va (src.take k)) (he : m.SameTables m₁ pagetable) (hk : k ≤ src.length)
    (hva : k = src.length ∨ va' = va+k ∧ va'%PGSIZE = 0)
    (hc : CopiedOut m₁ m' pagetable va' (src.drop k) j) :
    CopiedOut m m' pagetable va src (k+j) := by
  have hlen : (src.take k).length = k := by
    rw [length_take]
    omega
  have hj := hc.le
  rw [length_drop] at hj
  have haddr := he.addr (P := UserWritable)
  -- when the source is at its end there is no rest, wherever it would be
  have hat (i : ℕ) (hi : i < j) : m.addr pagetable (va+(k+i)) UserWritable =
      m₁.addr pagetable (va'+i) UserWritable := by
    obtain hk | ⟨rfl,-⟩ := hva
    · omega
    · rw [haddr,Nat.add_assoc]
  have hrest := h.rest
  rw [hlen] at hrest
  refine ⟨by omega,he.trans hc.tables,fun i hi => ?_,fun x hx => ?_,fun hd => ?_,fun hlt => ?_⟩
  · by_cases hik : i < k
    · obtain ⟨x,hx,-⟩ := h.stored i (by omega)
      rw [hx]
      rfl
    · obtain ⟨i,rfl⟩ := Nat.exists_eq_add_of_le (Nat.le_of_not_lt hik)
      rw [hat i (by omega)]
      exact hc.writable i (by omega)
  · rw [hc.rest x fun i hi => ?_,hrest x fun i hi => hx i (by omega)]
    rw [← hat i hi]
    exact hx _ (by omega)
  · have hwrote := hc.wrote fun a ha b hb x hxa hxb => by
      rw [← hat a ha] at hxa
      rw [← hat b hb] at hxb
      have := hd _ (by omega) _ (by omega) x hxa hxb
      omega
    have hdrop : ((src.drop k).take j).length = j := by
      rw [length_take,length_drop]
      omega
    rw [take_add]
    refine h.append (by rwa [hlen,hdrop]) he ⟨fun i hi => ?_,fun x hx => hwrote.rest x fun i hi => ?_⟩
    · obtain ⟨x,hx,hb⟩ := hwrote.stored i hi
      refine ⟨x,?_,hb⟩
      rw [haddr,hlen,Nat.add_assoc,hat i (by omega)]
      exact hx
    · have := hx i hi
      rwa [haddr,hlen,Nat.add_assoc,hat i (by omega)] at this
  · obtain hk | ⟨rfl,h0⟩ := hva
    · omega
    · obtain ⟨h₁,h₂⟩ := hc.stopped (by rw [length_drop]; omega)
      rw [haddr,Nat.add_assoc] at h₁
      refine ⟨h₁,.inr ?_⟩
      rw [← Nat.add_assoc]
      obtain rfl | h₂ := h₂
      · exact h0
      · exact h₂

section Copyout
variable {s : Kernel} {pagetable va : ℕ} {src : List UInt8}

lemma PGROUNDDOWN_lt (hva : va < MAXVA) : PGROUNDDOWN va < MAXVA := by
  simp only [PGROUNDDOWN,PGSIZE] at *
  omega

lemma u64_next (hva : va < MAXVA) : u64 (PGROUNDDOWN va+PGSIZE) = PGROUNDDOWN va+PGSIZE := by
  have := PGROUNDDOWN_lt hva
  simp only [PGSIZE,MAXVA,u64] at *
  omega

lemma run_copyout_nil (n : ℕ) :
    (copyoutFrom pagetable n va []).run eval s = .ok (true,s) := by
  cases n <;> rfl

variable (s pagetable va) in
lemma run_copyout_one (b : UInt8) : ∃ ok t,
    (copyout pagetable va [b]).run eval s = .ok (ok,t) := by
  rw [copyout,length_singleton,copyoutFrom,if_pos (by simp)]
  by_cases hva : MAXVA ≤ PGROUNDDOWN va
  · exact ⟨false,s,by rw [if_pos hva]; rfl⟩
  · rw [if_neg hva,Prog.run_bind_ok (run_walk s (Nat.lt_of_not_le hva))]
    split_ifs
    · exact ⟨false,s,rfl⟩
    · rw [Prog.run_bind_ok (run_load ..)]
      split_ifs
      · exact ⟨false,s,rfl⟩
      · have hk : min (PGSIZE-(va-PGROUNDDOWN va)) [b].length = 1 := by
          have := offset_lt_PGSIZE va
          rw [length_singleton]
          omega
        rw [hk]
        exact ⟨true,_,rfl⟩

/-- A round of `copyout` at an address that the user may not write. -/
lemma run_copyout_stop (n : ℕ) (hz : s.mem.NoZero pagetable) (h0 : 0 < src.length)
    (h : s.mem.addr pagetable va UserWritable = none) :
    (copyoutFrom pagetable (n+1) va src).run eval s = .ok (false,s) := by
  rw [copyoutFrom,if_pos h0]
  by_cases hva : PGROUNDDOWN va < MAXVA
  · have hlt : va < MAXVA := by
      simp only [PGROUNDDOWN,PGSIZE,MAXVA] at *
      omega
    rw [Mem.addr,ite_eq_right_iff] at h
    have hnot : ¬UserWritable (s.mem.entry pagetable va) := fun hw => absurd (h ⟨hlt,hw⟩) (by simp)
    rw [if_neg (by omega),run_entry s hz hva,Mem.entry_congr (PGROUNDDOWN_div va)]
    split_ifs with _ hc
    · rfl
    · rfl
    · simp only [not_or] at hc
      exact absurd ⟨⟨hc.1,hc.2.1⟩,hc.2.2⟩ hnot
  · rw [if_pos (by omega)]
    rfl

variable (src) in
/-- A round of `copyout` that copies up to the end of the page. -/
lemma run_copyout_piece (n : ℕ) (hz : s.mem.NoZero pagetable) (h0 : 0 < src.length)
    (hva : va < MAXVA) (hw : UserWritable (s.mem.entry pagetable va))
    (hk : min (PGSIZE-va%PGSIZE) src.length = k) :
    (copyoutFrom pagetable (n+1) va src).run eval s
      = (copyoutFrom pagetable n (PGROUNDDOWN va+PGSIZE) (src.drop k)).run eval
        (s.setMem (s.mem.write (PTE2PA (s.mem.entry pagetable va)+va%PGSIZE) (src.take k))) := by
  have hva₀ := PGROUNDDOWN_lt hva
  have hlow : s.mem.low pagetable (PGROUNDDOWN va) ≠ none := fun hl => by
    have := Mem.entry_of_low_none hl
    rw [Mem.entry_congr (PGROUNDDOWN_div va)] at this
    rw [this] at hw
    exact hw.1.1 rfl
  rw [copyoutFrom,if_pos h0,if_neg (by omega),run_entry s hz hva₀,if_neg hlow,
    Mem.entry_congr (PGROUNDDOWN_div va),if_neg (by simp only [not_or]; exact ⟨hw.1.1,hw.1.2,hw.2⟩),
    sub_PGROUNDDOWN,u64_next hva,hk]
  rfl

variable (va src) in
lemma run_copyoutFrom (n : ℕ) (hd : s.mem.OffTables pagetable va src.length)
    (hz : s.mem.NoZero pagetable) (hn : src.length ≤ n) : ∃ m' k, (copyoutFrom pagetable n va src).run eval s
      = .ok (decide (k = src.length),s.setMem m') ∧ CopiedOut s.mem m' pagetable va src k := by
  -- each round takes a piece off the front of the source
  induction n generalizing va src s with
  | zero =>
    obtain rfl := length_eq_zero_iff.mp (Nat.le_zero.mp hn)
    exact ⟨s.mem,0,run_copyout_nil 0,.zero nofun⟩
  | succ n ih =>
    by_cases h0 : 0 < src.length
    · cases h : s.mem.addr pagetable va UserWritable with
      | none =>
        refine ⟨s.mem,0,?_,.zero fun _ => h⟩
        rw [run_copyout_stop n hz h0 h,decide_eq_false (by omega)]
        rfl
      | some x =>
        obtain ⟨hva,hw,-⟩ := Mem.addr_eq_some.mp h
        have hoff := Nat.mod_lt va (show PGSIZE > 0 by norm_num)
        obtain ⟨k,hk⟩ : ∃ k, min (PGSIZE-va%PGSIZE) src.length = k := ⟨_,rfl⟩
        have hlen : (src.take k).length = k := by
          rw [length_take]
          omega
        set m₁ := s.mem.write (PTE2PA (s.mem.entry pagetable va)+va%PGSIZE) (src.take k) with hm₁
        have hlook : s.mem.SameTables m₁ pagetable := hd.lookup_write h0 hva hw hoff
        have hnext : k = src.length ∨ PGROUNDDOWN va+PGSIZE = va+k ∧
            (PGROUNDDOWN va+PGSIZE)%PGSIZE = 0 := by
          simp only [PGROUNDDOWN,PGSIZE] at *
          omega
        have hrest := hd.rest hlook (by omega) (hnext.imp id And.left)
        obtain ⟨m',j,hrun,hc⟩ := ih (s := s.setMem m₁) (PGROUNDDOWN va+PGSIZE)
          (src.drop k) (by rwa [length_drop]) (hz.congr hlook)
          (by rw [length_drop]; omega)
        have hpiece := run_copyout_piece src n hz h0 hva hw hk
        refine ⟨m',k+j,?_,?_⟩
        · have hdec : decide (j = (src.drop k).length) = decide (k+j = src.length) := by
            rw [length_drop,decide_eq_decide]
            omega
          rw [hpiece,hrun,hdec]
          rfl
        · exact .append (hm₁ ▸ wrote_piece hva hw (by omega)) hlook (by omega) hnext hc
    · obtain rfl := length_eq_zero_iff.mp (Nat.eq_zero_of_not_pos h0)
      exact ⟨s.mem,0,run_copyout_nil _,.zero nofun⟩

lemma CopiedOut.eq_length_iff (h : CopiedOut m m' pagetable va src k) :
    k = src.length ↔ ∀ i < src.length, (m.addr pagetable (va+i) UserWritable).isSome := by
  constructor
  · rintro rfl i hi
    exact h.writable i hi
  · intro hall
    by_contra hne
    have hlt := Nat.lt_of_le_of_ne h.le hne
    have := hall k hlt
    rw [(h.stopped hlt).1] at this
    cases this

end Copyout

/-! ### Copying in -/

section Copyin
variable {s : Kernel} {pagetable va : ℕ}

lemma mapM_range' {f : ℕ → Option UInt8} {g : ℕ → UInt8} {a n : ℕ}
    (h : ∀ i < n, f (a+i) = some (g i)) :
    (List.range' a n).mapM f = some ((List.range n).map g) := by
  induction n with
  | zero => rfl
  | succ n ih =>
    rw [List.range'_1_concat,mapM_append,ih fun i hi => h i (by omega),range_succ,
      map_append]
    simp [h n (by omega)]

lemma Mem.userByte_piece (hva : va < MAXVA)
    (hu : UserPage (m.entry pagetable va)) (hk : va%PGSIZE+k ≤ PGSIZE) :
    (List.range' va k).mapM (m.userByte pagetable)
      = some (m.read (PTE2PA (m.entry pagetable va)+va%PGSIZE) k) := by
  have hoff := Nat.mod_lt va (show PGSIZE > 0 by norm_num)
  rw [read,slice]
  refine mapM_range' fun i hi => ?_
  rw [userByte,addr_add hva hu (by omega),map_some,byte,Nat.add_assoc,
    PGROUNDDOWN_add PTE2PA_aligned (by omega),add_mod_PGSIZE PTE2PA_aligned (by omega),
    PGROUNDDOWN_add PTE2PA_aligned hoff,add_mod_PGSIZE PTE2PA_aligned hoff]

lemma run_walkaddr_page (hz : s.mem.NoZero pagetable) (hva : va < MAXVA)
    (hu : UserPage (s.mem.entry pagetable va)) :
    (walkaddr pagetable (PGROUNDDOWN va)).run eval s
      = .ok (PTE2PA (s.mem.entry pagetable va),s) ∧ PTE2PA (s.mem.entry pagetable va) ≠ 0 := by
  rw [run_walkaddr s hz,Mem.entry_congr (PGROUNDDOWN_div va),
    if_pos ⟨PGROUNDDOWN_lt hva,hu⟩]
  exact ⟨rfl,(hz va hva).2 hu.1⟩

lemma run_walkaddr_none (hz : s.mem.NoZero pagetable)
    (h : s.mem.addr pagetable va UserPage = none) :
    (walkaddr pagetable (PGROUNDDOWN va)).run eval s = .ok (0,s) := by
  rw [run_walkaddr s hz,Mem.entry_congr (PGROUNDDOWN_div va),if_neg]
  rintro ⟨hva,hu⟩
  have hlt : va < MAXVA := by
    simp only [PGROUNDDOWN,PGSIZE,MAXVA] at *
    omega
  rw [Mem.addr,if_pos ⟨hlt,hu⟩] at h
  cases h

end Copyin

/-- A machine with this memory. -/
def machine (m : Mem) : Kernel where
  mem := m
  freelist := []
  luck _ := true
  kallocs := 0
  proc _ := ⟨0⟩

abbrev rootPage : ℕ := KERNBASE+PGSIZE
abbrev midPage : ℕ := KERNBASE+2*PGSIZE
abbrev lowPage : ℕ := KERNBASE+3*PGSIZE
abbrev dataPage : ℕ := KERNBASE+4*PGSIZE

/-- The entry of a page that the user may read and write. -/
def dataPte (d : ℕ) : ℕ := mkPte d (PTE_R ||| PTE_W ||| PTE_U)

lemma dataPte_lt {d : ℕ} (hd : d < 2^56) : dataPte d < 2^64 := mkPte_lt hd (by decide)

def zeroMem : Mem := fun _ _ => 0

/-- The pages `v` and `v+1` are mapped to `c` and `d`. -/
def pairMem (v c d : ℕ) : Mem :=
  (((zeroMem.write (rootPage+8*0) (bytes 8 (link (some midPage)))).write
    (midPage+8*0) (bytes 8 (link (some lowPage)))).write
    (lowPage+8*v) (bytes 8 (dataPte c))).write (lowPage+8*(v+1)) (bytes 8 (dataPte d))

def twoMem (d : ℕ) : Mem := pairMem 0 dataPage d

lemma PX_lt (level va : ℕ) : PX level va < 512 := by
  rw [PX_eq]
  exact Fin.isLt _

lemma Mem.next_ite {P : Prop} [Decidable P] {w q : ℕ} (h : next (if P then w else 0) = some q) :
    P ∧ PTE2PA w = q := by
  rw [next] at h
  split_ifs at h with hP hv hv
  · exact ⟨hP,Option.some.inj h⟩
  · exact absurd rfl hv

/-- No page is at 0 if no valid word of the memory points to 0. -/
lemma Mem.NoZero.of_words {m : Mem} (h : ∀ q i, q%PGSIZE = 0 → i < 512 →
    m.word (q+8*i) &&& PTE_V ≠ 0 → PTE2PA (m.word (q+8*i)) ≠ 0) : m.NoZero pagetable := by
  intro va hva
  refine ⟨fun hl => ?_,fun hv => ?_⟩
  · obtain ⟨q,hq,hn⟩ := bind_eq_some_iff.mp hl
    rw [next] at hn
    split_ifs at hn with hv
    exact h q _ (next_aligned hq) (PX_lt ..) hv (Option.some.inj hn)
  · cases hl : m.low pagetable va with
    | none =>
      rw [entry_of_low_none hl] at hv
      exact absurd rfl hv
    | some q =>
      rw [entry_of_low hl] at hv ⊢
      exact h q _ (low_aligned hl) (PX_lt ..) hv

section Pair
variable {v c d : ℕ} (hv : v+1 < 512) (hc : c < 2^56) (hd : d < 2^56)
include hv hc hd

lemma pairMem_word {q : ℕ} (hq : q%PGSIZE = 0) (hj : j < 512) : (pairMem v c d).word (q+8*j) =
    if q = lowPage ∧ j = v+1 then dataPte d else if q = lowPage ∧ j = v then dataPte c
    else if q = midPage ∧ j = 0 then link (some lowPage)
    else if q = rootPage ∧ j = 0 then link (some midPage) else 0 := by
  have hzero : zeroMem.word (q+8*j) = 0 := by
    rw [Mem.word,Mem.read]
    exact (congrArg num (slice_const 0 _ _)).trans (num_replicate_zero 8)
  rw [pairMem,Mem.word_write (by decide) hq hv hj (dataPte_lt hd),
    Mem.word_write (by decide) hq (by omega) hj (dataPte_lt hc),
    Mem.word_write (by decide) hq (by decide) hj (link_lt (by decide)),
    Mem.word_write (by decide) hq (by decide) hj (link_lt (by decide)),hzero]

variable (hc' : c%PGSIZE = 0) (hd' : d%PGSIZE = 0)
include hc' hd'

omit hc' hd' in
lemma pairMem_mid {q : ℕ} (h : (pairMem v c d).mid rootPage va = some q) :
    PX 2 va = 0 ∧ q = midPage := by
  rw [Mem.mid,pairMem_word hv hc hd (by decide) (PX_lt _ _)] at h
  simp only [show rootPage ≠ lowPage by decide,show rootPage ≠ midPage by decide,false_and,if_false,
    true_and] at h
  obtain ⟨h₂,rfl⟩ := Mem.next_ite h
  exact ⟨h₂,by decide⟩

lemma pairMem_noZero (hc0 : c ≠ 0) (hd0 : d ≠ 0) : (pairMem v c d).NoZero rootPage := by
  refine .of_words fun q i hq hi => ?_
  rw [pairMem_word hv hc hd hq hi]
  split_ifs
  · rwa [dataPte,PTE2PA_mkPte hd' hd (by decide),imp_iff_right (mkPte_valid (by decide))]
  · rwa [dataPte,PTE2PA_mkPte hc' hc (by decide),imp_iff_right (mkPte_valid (by decide))]
  · decide
  · decide
  · exact fun h => absurd rfl h

omit hc' hd' in
lemma pairMem_low {q : ℕ} (hva : va < MAXVA) (h : (pairMem v c d).low rootPage va = some q) :
    va/PGSIZE < 512 ∧ q = lowPage := by
  have hpx : PX 2 va = va/PGSIZE/512/512%512 ∧ PX 1 va = va/PGSIZE/512%512 := by
    simp only [PX_eq,idx,pow_one,Nat.div_div_eq_div_mul]
    exact ⟨rfl,trivial⟩
  have hpage : va/PGSIZE < 2^27 := by
    simp only [PGSIZE,MAXVA] at *
    omega
  obtain ⟨q₁,hq₁,hq⟩ := bind_eq_some_iff.mp h
  obtain ⟨h₂,rfl⟩ := pairMem_mid hv hc hd hq₁
  rw [pairMem_word hv hc hd (by decide) (PX_lt _ _)] at hq
  simp only [show midPage ≠ lowPage by decide,show midPage ≠ rootPage by decide,false_and,if_false,
    true_and] at hq
  obtain ⟨h₁,rfl⟩ := Mem.next_ite hq
  exact ⟨by omega,by decide⟩

lemma pairMem_user (hva : va < MAXVA) (h : (pairMem v c d).entry rootPage va &&& PTE_V ≠ 0) :
    va/PGSIZE = v+1 ∧ PTE2PA ((pairMem v c d).entry rootPage va) = d ∨
      va/PGSIZE = v ∧ PTE2PA ((pairMem v c d).entry rootPage va) = c := by
  cases hl : (pairMem v c d).low rootPage va with
  | none =>
    rw [Mem.entry_of_low_none hl] at h
    exact absurd rfl h
  | some q =>
    obtain ⟨hlt,rfl⟩ := pairMem_low hv hc hd hva hl
    have hpx : PX 0 va = va/PGSIZE := by
      simp only [PX_eq,idx,pow_zero,Nat.div_one]
      exact Nat.mod_eq_of_lt hlt
    rw [Mem.entry_of_low hl,hpx,pairMem_word hv hc hd (by decide) hlt] at h ⊢
    split_ifs at h ⊢ with h₁ h₀
    · exact .inl ⟨h₁.2,PTE2PA_mkPte hd' hd (by decide)⟩
    · exact .inr ⟨h₀.2,PTE2PA_mkPte hc' hc (by decide)⟩
    all_goals simp_all

lemma pairMem_disjoint (hne : c ≠ d) (htc : c ∉ [rootPage,midPage,lowPage])
    (htd : d ∉ [rootPage,midPage,lowPage]) : (pairMem v c d).Disjoint rootPage := by
  have htable {q : ℕ} (hq : (pairMem v c d).IsTable rootPage q) : q ∈ [rootPage,midPage,lowPage] := by
    obtain rfl | ⟨va,hva,hq | hq⟩ := hq
    · exact mem_cons_self
    · rw [(pairMem_mid hv hc hd hq).2]
      decide
    · rw [(pairMem_low hv hc hd hva hq).2]
      decide
  have huser {va : ℕ} (hva : va < MAXVA) (hw : UserWritable ((pairMem v c d).entry rootPage va)) :=
    pairMem_user hv hc hd hc' hd' hva hw.1.1
  refine ⟨by decide,fun va hva hw hq => ?_,fun va hva va' hva' hw hw' he => ?_⟩
  · obtain ⟨-,h⟩ | ⟨-,h⟩ := huser hva hw <;> rw [h] at hq
    · exact htd (htable hq)
    · exact htc (htable hq)
  · have := huser hva hw
    have := huser hva' hw'
    omega

end Pair

lemma twoMem_noZero : (twoMem (dataPage+PGSIZE)).NoZero rootPage :=
  pairMem_noZero (by decide) (by decide) (by decide) (by decide) (by decide) (by decide) (by decide)

lemma twoMem_disjoint : (twoMem (dataPage+PGSIZE)).Disjoint rootPage :=
  pairMem_disjoint (by decide) (by decide) (by decide) (by decide) (by decide) (by decide)
    (by decide) (by decide)

end Xv6.Vm
