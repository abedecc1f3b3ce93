import Xv6.Vm.UserCopy

/-! `copyinstr` with what it writes to the buffer, compared with reading one byte at a time. -/
namespace Xv6.Vm
open Xv6.Lib List
open Process (Slot)

/-- The inner loop of `copyinstr` over the bytes of a page: whether it found the terminator, what is
left of `max`, and what has been written from `dst` on. -/
def copyinstrPage : List UInt8 → ℕ → List UInt8 → Bool×ℕ×List UInt8
  | [],max,dst => (false,max,dst)
  | b::bs,max,dst => if b = 0 then (true,max,dst++[0]) else copyinstrPage bs (max-1) (dst++[b])

/-- The outer loop. -/
def copyinstrLoop (pagetable : ℕ) : ℕ → ℕ → ℕ → List UInt8 → Code (Bool×List UInt8)
  | 0,_,max,dst => if 0 < max then panic .stuck else pure (false,dst)
  | n+1,srcva,max,dst =>
    if 0 < max then
      let va0 := PGROUNDDOWN srcva
      do
        let pa0 ← walkaddr pagetable va0
        if pa0 = 0 then pure (false,dst)
        else do
          let k := min (PGSIZE-(srcva-va0)) max
          let bs ← read (pa0+(srcva-va0)) k
          match copyinstrPage bs max dst with
          | (true,_,dst) => pure (true,dst)
          | (false,max,dst) => copyinstrLoop pagetable n (u64 (va0+PGSIZE)) max dst
    else pure (false,dst)

/-- `copyinstr` with the bytes that it writes to `dst`; true stands for 0. -/
def copyinstrTo (pagetable srcva max : ℕ) : Code (Bool×List UInt8) :=
  copyinstrLoop pagetable max srcva max []

def strlen (s : List UInt8) : ℕ := (s.takeWhile (· ≠ 0)).length

/-- `fetchstr` with the contents of `buf`. -/
def fetchstrTo (p : Slot) (addr max : ℕ) : Code (ℤ×List UInt8) := do
  let v ← getProc p
  let (ok,buf) ← copyinstrTo v.pagetable addr max
  if ok then return (strlen buf,buf) else return (-1,buf)

/-- Reading one byte at a time, at most `max` bytes from `a` on. -/
def fetched (f : ℕ → Option UInt8) : ℕ → ℕ → Bool×List UInt8
  | 0,_ => (false,[])
  | max+1,a =>
    match f a with
    | none => (false,[])
    | some b =>
      if b = 0 then (true,[0])
      else ((fetched f max (a+1)).1,b::(fetched f max (a+1)).2)

/-- A string of `k` characters starts at `a`. -/
def StringAt (f : ℕ → Option UInt8) (a k : ℕ) : Prop :=
  f (a+k) = some 0 ∧ ∀ j < k, ∃ b, b ≠ 0 ∧ f (a+j) = some b

section Fetched
variable {f : ℕ → Option UInt8} {a max : ℕ}

variable (max) in
lemma fetched_page {bs : List UInt8} (dst : List UInt8) (hbs : bs.length ≤ max)
    (hf : (List.range' a bs.length).mapM f = some bs) :
    (∃ w m, copyinstrPage bs max dst = (true,m,dst++w) ∧ fetched f max a = (true,w)) ∨
      copyinstrPage bs max dst = (false,max-bs.length,dst++bs) ∧
      fetched f max a = ((fetched f (max-bs.length) (a+bs.length)).1,
        bs++(fetched f (max-bs.length) (a+bs.length)).2) := by
  induction bs generalizing a max dst with
  | nil => exact .inr ⟨by simp [copyinstrPage],by simp⟩
  | cons b bs ih =>
    rw [length_cons] at hbs
    obtain ⟨max,rfl⟩ : ∃ m, max = m+1 := ⟨max-1,by omega⟩
    rw [length_cons,List.range'_succ,mapM_cons] at hf
    obtain ⟨b',hb,hf⟩ := Option.bind_eq_some_iff.mp hf
    obtain ⟨bs',hbs',hf⟩ := Option.bind_eq_some_iff.mp hf
    obtain ⟨rfl,rfl⟩ := List.cons.inj (Option.some.inj hf)
    rw [copyinstrPage,fetched,hb]
    by_cases h0 : b' = 0
    · simp only [h0,if_true]
      exact .inl ⟨[0],max+1,rfl,rfl⟩
    · simp only [h0,if_false,Nat.add_sub_cancel]
      obtain ⟨w,m,h₁,h₂⟩ | ⟨h₁,h₂⟩ := ih max (dst++[b']) (by omega) hbs'
      · exact .inl ⟨b'::w,m,by rw [h₁]; simp,by rw [h₂]⟩
      · refine .inr ⟨?_,?_⟩
        · rw [h₁]
          simp
        · rw [h₂]
          simp [Nat.add_comm,Nat.add_left_comm]

variable (f a max) in
lemma length_fetched : (fetched f max a).2.length ≤ max := by
  induction max generalizing a with
  | zero => exact le_rfl
  | succ max ih =>
    rw [fetched]
    cases f a with
    | none => exact Nat.zero_le _
    | some b =>
      dsimp only
      split_ifs
      · exact Nat.succ_le_succ (Nat.zero_le _)
      · exact Nat.succ_le_succ (ih _)

lemma StringAt.succ_iff {k : ℕ} {b : UInt8} (hb : b ≠ 0) (hf : f a = some b) :
    StringAt f a (k+1) ↔ StringAt f (a+1) k := by
  rw [StringAt,StringAt,show a+(k+1) = a+1+k by omega,Nat.forall_lt_succ_left]
  refine and_congr_right fun _ => ⟨fun h j hj => ?_,fun h => ⟨⟨b,hb,hf⟩,fun j hj => ?_⟩⟩
  · have := h.2 j hj
    rwa [show a+(j+1) = a+1+j by omega] at this
  · rw [show a+(j+1) = a+1+j by omega]
    exact h j hj

/-- A string that ends within `max` bytes is read with its terminator. -/
lemma StringAt.fetched {k : ℕ} (h : StringAt f a k) (hk : k < max) :
    ∃ w, Vm.fetched f max a = (true,w) ∧ w.length = k+1 ∧ strlen w = k ∧
      ∀ j ≤ k, f (a+j) = some (w.getD j 0) := by
  induction k generalizing a max with
  | zero =>
    obtain ⟨max,rfl⟩ : ∃ m, max = m+1 := ⟨max-1,by omega⟩
    have h0 : f a = some 0 := h.1
    refine ⟨[0],?_,rfl,by simp [strlen],fun j hj => ?_⟩
    · rw [Vm.fetched,h0]
      rfl
    · obtain rfl := Nat.le_zero.mp hj
      exact h0
  | succ k ih =>
    obtain ⟨max,rfl⟩ : ∃ m, max = m+1 := ⟨max-1,by omega⟩
    obtain ⟨b,hb,hf⟩ := h.2 0 (by omega)
    rw [Nat.add_zero] at hf
    obtain ⟨w,hw,hlen,hstr,hget⟩ := ih ((succ_iff hb hf).mp h) (show k < max by omega)
    refine ⟨b::w,?_,by simp [hlen],?_,fun j hj => ?_⟩
    · rw [Vm.fetched,hf]
      dsimp only
      rw [if_neg hb,hw]
    · rw [strlen,takeWhile_cons_of_pos (by simpa using hb),length_cons,← strlen,hstr]
    · cases j with
      | zero => exact hf
      | succ j =>
        rw [show a+(j+1) = a+1+j by omega,getD_cons_succ]
        exact hget j (by omega)

/-- Only strings are read. -/
lemma exists_stringAt (h : (Vm.fetched f max a).1 = true) : ∃ k < max, StringAt f a k := by
  induction max generalizing a with
  | zero => exact absurd h nofun
  | succ max ih =>
    rw [Vm.fetched] at h
    cases hf : f a with
    | none =>
      rw [hf] at h
      cases h
    | some b =>
      rw [hf] at h
      dsimp only at h
      split_ifs at h with hb
      · exact ⟨0,by omega,by rw [Nat.add_zero,hf,hb],nofun⟩
      · obtain ⟨k,hk,hs⟩ := ih h
        exact ⟨k+1,by omega,(StringAt.succ_iff hb hf).mpr hs⟩

lemma StringAt.unique {j k : ℕ} (hj : StringAt f a j) (hk : StringAt f a k) : j = k := by
  by_contra hne
  rcases Nat.lt_or_gt_of_ne hne with hlt | hlt
  · obtain ⟨b,hb,hf⟩ := hk.2 j hlt
    rw [hj.1] at hf
    exact hb (Option.some.inj hf).symm
  · obtain ⟨b,hb,hf⟩ := hj.2 k hlt
    rw [hk.1] at hf
    exact hb (Option.some.inj hf).symm

end Fetched

/-! ### Runs -/

section Runs
variable {s : Kernel} {pagetable va max : ℕ}

lemma run_copyinstrLoop (n : ℕ) (hz : s.mem.NoZero pagetable) (hn : max ≤ n) (dst : List UInt8) :
    (copyinstrLoop pagetable n va max dst).run eval s
      = .ok (((fetched (s.mem.userByte pagetable) max va).1,
        dst++(fetched (s.mem.userByte pagetable) max va).2),s) := by
  induction n generalizing va max dst with
  | zero =>
    obtain rfl := Nat.le_zero.mp hn
    rw [fetched,append_nil]
    rfl
  | succ n ih =>
    rw [copyinstrLoop]
    by_cases h0 : 0 < max
    · rw [if_pos h0]
      dsimp only
      cases h : s.mem.addr pagetable va UserPage with
      | none =>
        obtain ⟨max,rfl⟩ := Nat.exists_eq_add_one_of_ne_zero h0.ne'
        rw [Prog.run_bind_ok (run_walkaddr_none hz h),if_pos rfl,fetched,Mem.userByte,h,
          Option.map_none,append_nil]
        rfl
      | some x =>
        obtain ⟨hva,hu,-⟩ := Mem.addr_eq_some.mp h
        obtain ⟨hrun,hne⟩ := run_walkaddr_page hz hva hu
        have hoff := Nat.mod_lt va (show PGSIZE > 0 by norm_num)
        obtain ⟨k,hk⟩ : ∃ k, min (PGSIZE-va%PGSIZE) max = k := ⟨_,rfl⟩
        obtain ⟨bs,hbs⟩ : ∃ bs, s.mem.read (PTE2PA (s.mem.entry pagetable va)+va%PGSIZE) k = bs :=
          ⟨_,rfl⟩
        have hlen : bs.length = k := by
          rw [← hbs,Mem.read,length_slice]
        have hpiece := Mem.userByte_piece (m := s.mem) (k := k) hva hu (by omega)
        rw [hbs,← hlen] at hpiece
        rw [Prog.run_bind_ok hrun,if_neg hne,sub_PGROUNDDOWN,hk,u64_next hva,
          Prog.run_bind_ok (r := bs) (t := s) (by rw [← hbs]; rfl)]
        obtain ⟨w,m,h₁,h₂⟩ | ⟨h₁,h₂⟩ := fetched_page max dst (by omega) hpiece
        · rw [h₁,h₂]
          rfl
        · have hnext : fetched (s.mem.userByte pagetable) (max-bs.length) (PGROUNDDOWN va+PGSIZE)
              = fetched (s.mem.userByte pagetable) (max-bs.length) (va+bs.length) := by
            rw [hlen]
            obtain hend | hend : max-k = 0 ∨ PGROUNDDOWN va+PGSIZE = va+k := by
              simp only [PGROUNDDOWN,PGSIZE] at *
              omega
            · rw [hend,fetched,fetched]
            · rw [hend]
          rw [h₁,h₂]
          dsimp only
          rw [ih (by omega),hnext,append_assoc]
    · obtain rfl := Nat.eq_zero_of_not_pos h0
      rw [fetched,append_nil]
      rfl

variable (s pagetable va) in
lemma run_walkaddr_ok : ∃ pa, (walkaddr pagetable va).run eval s = .ok (pa,s) := by
  rw [walkaddr]
  by_cases hva : va < MAXVA
  · rw [if_neg (by omega),Prog.run_bind_ok (run_walk s hva)]
    split_ifs
    · exact ⟨0,rfl⟩
    · rw [Prog.run_bind_ok (run_load ..)]
      split_ifs <;> exact ⟨_,rfl⟩
  · rw [if_pos (by omega)]
    exact ⟨0,rfl⟩

lemma copyinstrPage_eq (bs dst : List UInt8) (max : ℕ) :
    let got := bs.takeWhile (· ≠ 0)
    if got.length < bs.length then copyinstrPage bs max dst = (true,max-got.length,dst++(got++[0]))
    else got = bs ∧ copyinstrPage bs max dst = (false,max-bs.length,dst++bs) := by
  induction bs generalizing dst max with
  | nil => simp [copyinstrPage]
  | cons b bs ih =>
    by_cases hb : b = 0
    · simp [copyinstrPage,hb]
    · have := ih (dst++[b]) (max-1)
      simp only [copyinstrPage,hb,if_false,ne_eq,not_false_eq_true,decide_true,
        takeWhile_cons_of_pos,length_cons,Nat.add_lt_add_iff_right,List.cons.injEq,
        true_and] at this ⊢
      split_ifs with hlt
      · rw [if_pos hlt] at this
        rw [this]
        simp [Nat.sub_sub,Nat.add_comm]
      · rw [if_neg hlt] at this
        rw [this.2]
        exact ⟨this.1,by simp [Nat.sub_sub,Nat.add_comm]⟩

variable (s pagetable va max) in
/-- The string that `copyinstr` returns is the one that it writes to the buffer. -/
lemma run_copyinstrFrom (n : ℕ) (hn : max ≤ n) (dst : List UInt8) : ∃ o w,
    (copyinstrFrom pagetable n va max).run eval s = .ok (o,s) ∧
    (copyinstrLoop pagetable n va max dst).run eval s = .ok ((o.isSome,dst++w),s) ∧
    ∀ str, o = some str → w = str++[0] := by
  induction n generalizing va max dst with
  | zero =>
    obtain rfl := Nat.le_zero.mp hn
    exact ⟨none,[],rfl,by rw [append_nil]; rfl,nofun⟩
  | succ n ih =>
    rw [copyinstrFrom,copyinstrLoop]
    by_cases h0 : 0 < max
    · rw [if_pos h0,if_pos h0]
      dsimp only
      obtain ⟨pa,hpa⟩ := run_walkaddr_ok s pagetable (PGROUNDDOWN va)
      rw [Prog.run_bind_ok hpa,Prog.run_bind_ok hpa]
      by_cases hz : pa = 0
      · rw [if_pos hz,if_pos hz]
        exact ⟨none,[],rfl,by rw [append_nil]; rfl,nofun⟩
      · obtain ⟨k,hk⟩ : ∃ k, min (PGSIZE-(va-PGROUNDDOWN va)) max = k := ⟨_,rfl⟩
        obtain ⟨bs,hbs⟩ : ∃ bs, s.mem.read (pa+(va-PGROUNDDOWN va)) k = bs := ⟨_,rfl⟩
        have hlen : bs.length = k := by
          rw [← hbs,Mem.read,length_slice]
        have hoff := offset_lt_PGSIZE va
        rw [if_neg hz,if_neg hz,hk,Prog.run_bind_ok (r := bs) (t := s) (by rw [← hbs]; rfl),
          Prog.run_bind_ok (r := bs) (t := s) (by rw [← hbs]; rfl)]
        have hpage := copyinstrPage_eq bs dst max
        dsimp only at hpage
        rw [hlen] at hpage
        by_cases hgot : (bs.takeWhile (· ≠ 0)).length < k
        · rw [if_pos hgot] at hpage ⊢
          rw [hpage]
          refine ⟨some (bs.takeWhile (· ≠ 0)),_,rfl,rfl,fun str hstr => ?_⟩
          rw [Option.some.inj hstr]
        · rw [if_neg hgot] at hpage ⊢
          rw [hpage.2,hpage.1]
          obtain ⟨o,w,h₁,h₂,h₃⟩ := ih (u64 (PGROUNDDOWN va+PGSIZE)) (max-k)
            (by omega) (dst++bs)
          refine ⟨o.map (bs++·),bs++w,?_,?_,fun str hstr => ?_⟩
          · rw [Prog.run_bind_ok h₁]
            rfl
          · dsimp only
            rw [h₂,Option.isSome_map,append_assoc]
          · obtain ⟨str',hs,rfl⟩ := Option.map_eq_some_iff.mp hstr
            rw [h₃ str' hs,append_assoc]
    · obtain rfl := Nat.eq_zero_of_not_pos h0
      exact ⟨none,[],rfl,by rw [append_nil]; rfl,nofun⟩

end Runs

/-- On a page table that maps no page to the physical address 0, `copyinstr` succeeds exactly when
a string of less than `max` characters starts at the address, where the user may read; `dst` then
holds the string with its terminator. It never writes more than `max` bytes. `fetchstr` returns
the length of the string, and rejects one of `max` or more characters. -/
theorem copyinstr_bytewise (p : Slot) (s : Kernel) (pagetable va max : ℕ)
    (hz : s.mem.NoZero pagetable) : ∃ ok dst,
    (copyinstrTo pagetable va max).run eval s = .ok ((ok,dst),s) ∧
    (copyinstr pagetable va max).run eval s
      = .ok (if ok = true then some dst.dropLast else none,s) ∧
    dst.length ≤ max ∧
    (ok = true ↔ ∃ k < max, StringAt (s.mem.userByte pagetable) va k) ∧
    (∀ k < max, StringAt (s.mem.userByte pagetable) va k → dst.length = k+1 ∧
      ∀ j ≤ k, s.mem.userByte pagetable (va+j) = some (dst.getD j 0)) ∧
    ((s.proc p).pagetable = pagetable → ∃ r : ℤ,
      (fetchstrTo p va max).run eval s = .ok ((r,dst),s) ∧
      (∀ k < max, StringAt (s.mem.userByte pagetable) va k → r = k) ∧
      (∀ k, max ≤ k → StringAt (s.mem.userByte pagetable) va k → r = -1) ∧
      ((∀ k < max, ¬StringAt (s.mem.userByte pagetable) va k) → r = -1)) := by
  rcases hf : fetched (s.mem.userByte pagetable) max va with ⟨ok,dst⟩
  have hrun : (copyinstrTo pagetable va max).run eval s = .ok ((ok,dst),s) := by
    rw [copyinstrTo,run_copyinstrLoop max hz le_rfl,hf]
    rfl
  have hlen := length_fetched (s.mem.userByte pagetable) va max
  have hiff : ok = true ↔ ∃ k < max, StringAt (s.mem.userByte pagetable) va k := by
    refine ⟨fun h => exists_stringAt (by rw [hf]; exact h),fun ⟨k,hk,hs⟩ => ?_⟩
    obtain ⟨w,hw,-⟩ := hs.fetched hk
    rw [hf] at hw
    exact (Prod.mk.inj hw).1
  have hstr : ∀ k < max, StringAt (s.mem.userByte pagetable) va k → dst.length = k+1 ∧
      strlen dst = k ∧ ∀ j ≤ k, s.mem.userByte pagetable (va+j) = some (dst.getD j 0) := by
    intro k hk hs
    obtain ⟨w,hw,h⟩ := hs.fetched hk
    rw [hf] at hw
    rw [(Prod.mk.inj hw).2]
    exact h
  rw [hf] at hlen
  have hstring : (copyinstr pagetable va max).run eval s
      = .ok (if ok = true then some dst.dropLast else none,s) := by
    obtain ⟨o,w,h₁,h₂,h₃⟩ := run_copyinstrFrom s pagetable va max max (le_refl max) []
    obtain ⟨rfl,rfl⟩ := Prod.mk.inj (Prod.mk.inj (Except.ok.inj (h₂.symm.trans hrun))).1
    rw [copyinstr,h₁]
    cases o with
    | none => rfl
    | some str => simp [h₃ str rfl]
  refine ⟨ok,dst,hrun,hstring,hlen,hiff,fun k hk hs => ⟨(hstr k hk hs).1,(hstr k hk hs).2.2⟩,
    fun hpt => ⟨if ok = true then strlen dst else -1,?_,fun k hk hs => ?_,fun k hk hs => ?_,
      fun hno => ?_⟩⟩
  · rw [fetchstrTo,Prog.run_bind_ok (r := s.proc p) (t := s) rfl,hpt,Prog.run_bind_ok hrun]
    dsimp only
    split_ifs <;> rfl
  · rw [if_pos (hiff.mpr ⟨k,hk,hs⟩),(hstr k hk hs).2.1]
  · refine if_neg fun h => ?_
    obtain ⟨j,hj,hs'⟩ := hiff.mp h
    have := hs.unique hs'
    omega
  · refine if_neg fun h => ?_
    obtain ⟨j,hj,hs⟩ := hiff.mp h
    exact hno j hj hs

/-- The first two pages with the characters `hi` at address 0. -/
def hiMem : Mem := (twoMem (dataPage+PGSIZE)).write (dataPage+0) [104,105]

theorem copyinstr_bytewise_hi : (copyinstrTo rootPage 0 10).run eval
    (machine hiMem) = .ok ((true,[104,105,0]),machine hiMem) := by
  have hz : hiMem.NoZero rootPage := by
    have hpa : dataPage = PTE2PA ((twoMem (dataPage+PGSIZE)).entry rootPage 0) := by decide +kernel
    have hw : UserWritable ((twoMem (dataPage+PGSIZE)).entry rootPage 0) := by decide +kernel
    rw [hiMem,hpa]
    exact twoMem_noZero.congr ((twoMem_disjoint.offTables 0 1).lookup_write Nat.one_pos (by decide) hw
      (by decide))
  have h₀ : hiMem.userByte rootPage 0 = some 104 := by decide +kernel
  have h₁ : hiMem.userByte rootPage 1 = some 105 := by decide +kernel
  have h₂ : hiMem.userByte rootPage 2 = some 0 := by decide +kernel
  have hat : StringAt (hiMem.userByte rootPage) 0 2 := by
    refine ⟨h₂,fun j hj => ?_⟩
    interval_cases j
    · exact ⟨104,by decide,h₀⟩
    · exact ⟨105,by decide,h₁⟩
  obtain ⟨ok,dst,hrun,-,-,hok,hstr,-⟩ := copyinstr_bytewise Process.initproc
    (machine hiMem) rootPage 0 10 hz
  obtain ⟨hlen,hget⟩ := hstr 2 (by norm_num) hat
  rw [hrun,hok.mpr ⟨2,by norm_num,hat⟩]
  obtain ⟨a,b,c,rfl⟩ := length_eq_three.mp hlen
  obtain rfl := Option.some.inj (h₀.symm.trans (hget 0 (by norm_num)))
  obtain rfl := Option.some.inj (h₁.symm.trans (hget 1 (by norm_num)))
  obtain rfl := Option.some.inj (h₂.symm.trans (hget 2 (by norm_num)))
  rfl

end Xv6.Vm
