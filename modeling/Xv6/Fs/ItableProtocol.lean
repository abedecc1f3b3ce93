import Xv6.Fs.ItableInv

/-! The inode table in every interleaving: one entry per inode, reference counts, the sleep-lock,
write-back, and the freeing and reuse of inode numbers. -/
namespace Xv6.Fs.Itable
open List Entry Table Option
open Function (update update_self update_apply update_of_ne)

/-- Every entry is well-formed, and entries in use name different inodes. -/
structure Inv (s : Table) : Prop where
  ok : ∀ i, (s.inode i).OK (s.dinode i)
  unique : ∀ i j dev inum, s.Names i dev inum → s.Names j dev inum → i = j

/-- Referenced inodes are allocated, and the inode that a call of `ialloc` has just allocated has
no references but those of an `iput` that has freed it before. -/
structure Lively (s : Table) : Prop where
  live : ∀ i, (s.inode i).Live (s.dinode i)
  scanned : ∀ c ∈ s.scans, c.type ≠ 0 ∧ (c.found → s.disk c.dev c.inum = .fresh c.type ∧
    ∀ i, s.Names i c.dev c.inum → ∀ r ∈ (s.inode i).refs, r.2.freed)
  once : ∀ dev inum, s.scans.countP (fun c => c.found ∧ c.dev = dev ∧ c.inum = inum) ≤ 1

/-- Who has an inode locked and has not changed it has what is on disk. -/
def Clean (s : Table) : Prop :=
  ∀ i p, (p,.hold) ∈ (s.inode i).refs → s.dirty i = false → (s.inode i).d = s.dinode i

namespace Table
variable (s : Table)

lemma disk_setDisk (dev inum : ℕ) (k : Dinode) (dev' inum' : ℕ) :
    (s.setDisk dev inum k).disk dev' inum' =
      if dev' = dev ∧ inum' = inum then k else s.disk dev' inum' := by
  unfold setDisk
  by_cases h : dev' = dev
  · subst h
    by_cases h' : inum' = inum <;> simp [h']
  · simp [h]

lemma names_of_cached {dev inum : ℕ} {i : Fin NINODE} (h : s.cached dev inum = some i) :
    s.Names i dev inum := by simpa using find?_some h

lemma not_names_of_cached {dev inum : ℕ} (h : s.cached dev inum = none) (i : Fin NINODE) :
    ¬s.Names i dev inum := by
  have hall := find?_eq_none.mp h i (mem_finRange i)
  simpa using hall

lemma ref_of_empty {i : Fin NINODE} (h : s.empty = some i) : (s.inode i).ref = 0 := by
  simpa using find?_some h

end Table

variable {s t : Table} {i : Fin NINODE} {n : Entry} {k : Dinode}

lemma Inv.init (disk : ℕ → ℕ → Dinode) : Inv (.init disk) where
  ok _ := ⟨rfl,rfl,.inl rfl,rfl,by simp [Table.init],by simp [Table.init],by simp [Table.init]⟩
  unique i j dev inum h := absurd h.1 (lt_irrefl 0)

lemma Lively.init (disk : ℕ → ℕ → Dinode) : Lively (.init disk) where
  live _ := .old (by simp [Table.init]) rfl
  scanned := by simp [Table.init]
  once := by simp [Table.init]

lemma Inv.ref_pos (h : Inv s) {r : Ref} (hr : r ∈ (s.inode i).refs) : 0 < (s.inode i).ref :=
  (h.ok i).ref_pos hr

lemma Inv.refs_eq_nil (h : Inv s) (hi : (s.inode i).ref = 0) : (s.inode i).refs = [] :=
  ((h.ok i).of_ref_zero hi).1

lemma Inv.refs_ne (h : Inv s) (hi : 0 < (s.inode i).ref) : (s.inode i).refs ≠ [] := by
  intro h0
  have hr := (h.ok i).ref_eq
  rw [h0,length_nil] at hr
  omega

/-- A change to an entry in use and its on-disk inode leaves the other entries as they were. -/
lemma Inv.put_all {P : Fin NINODE → Entry → Dinode → Prop} (h : Inv s) (hi : 0 < (s.inode i).ref)
    (hdev : n.dev = (s.inode i).dev) (hinum : n.inum = (s.inode i).inum)
    (hP : ∀ j, j ≠ i → P j (s.inode j) (s.dinode j)) (hn : P i n k)
    (hunused : ∀ j k', (s.inode j).ref = 0 → P j (s.inode j) k') (j : Fin NINODE) :
    P j ((s.put i n k).inode j) ((s.put i n k).dinode j) := by
  have hinode : (s.put i n k).inode = update s.inode i n := rfl
  have hdisk : ∀ m : Entry, (s.put i n k).disk m.dev m.inum =
      if m.dev = (s.inode i).dev ∧ m.inum = (s.inode i).inum then k else s.disk m.dev m.inum :=
    fun m => disk_setDisk _ _ _ _ _ _
  unfold dinode
  rw [hinode,hdisk]
  by_cases hj : j = i
  · subst hj
    rw [update_self,if_pos ⟨hdev,hinum⟩]
    exact hn
  · rw [update_of_ne hj]
    rcases Nat.eq_zero_or_pos (s.inode j).ref with h0 | h0
    · exact hunused j _ h0
    · rw [if_neg fun hc => hj (h.unique j i _ _ ⟨h0,hc⟩ ⟨hi,rfl,rfl⟩)]
      exact hP j hj

lemma names_put (hi : 0 < (s.inode i).ref) (hdev : n.dev = (s.inode i).dev)
    (hinum : n.inum = (s.inode i).inum) {j : Fin NINODE} {dev inum : ℕ}
    (hj : (s.put i n k).Names j dev inum) : s.Names j dev inum := by
  by_cases hji : j = i
  · subst hji
    simp only [Table.Names,put,setDisk,setInode,update_self] at hj
    exact ⟨hi,hdev ▸ hj.2.1,hinum ▸ hj.2.2⟩
  · simpa only [Table.Names,put,setDisk,setInode,update_of_ne hji]
      using hj

lemma Inv.put (h : Inv s) (hi : 0 < (s.inode i).ref) (hdev : n.dev = (s.inode i).dev)
    (hinum : n.inum = (s.inode i).inum) (hn : n.OK k) : Inv (s.put i n k) where
  ok := h.put_all (P := fun _ n k => n.OK k) hi hdev hinum (fun j _ => h.ok j) hn
    fun j _ h0 => (h.ok j).of_unused h0
  unique a b _ _ ha hb :=
    h.unique a b _ _ (names_put hi hdev hinum ha) (names_put hi hdev hinum hb)

lemma Lively.put {p : Pid} {o : Op} {m : Option String} (h : Inv s) (hv : Lively s)
    (hs : (s.inode i).OpStep (s.dinode i) p o n k m) : Lively (s.put i n k) := by
  obtain ⟨g,hg⟩ := op_mem hs
  obtain ⟨hdev,hinum⟩ := op_names hs
  have hi := h.ref_pos hg
  refine ⟨h.put_all (P := fun _ n k => n.Live k) hi hdev hinum (fun j _ => hv.live j)
    (op_live (h.ok i) (hv.live i) hs) fun j _ h0 => (hv.live j).of_unused (h.refs_eq_nil h0),
    fun c hc => ?_,hv.once⟩
  obtain ⟨hty,hfound⟩ := hv.scanned c hc
  refine ⟨hty,fun hf => ?_⟩
  obtain ⟨hd,hall⟩ := hfound hf
  have hdisk : (s.put i n k).disk c.dev c.inum =
      if c.dev = (s.inode i).dev ∧ c.inum = (s.inode i).inum then k else s.disk c.dev c.inum :=
    disk_setDisk _ _ _ _ _ _
  rw [hdisk]
  by_cases hci : s.Names i c.dev c.inum
  · -- only references that are being let go are left to an inode that is allocated anew
    obtain ⟨hfr,hk⟩ := op_allFreed (hall i hci) hs
    constructor
    · split
      · rw [hk,dinode,hci.2.1,hci.2.2,hd]
      · exact hd
    · intro j hj
      obtain rfl := h.unique j i _ _ (names_put hi hdev hinum hj) hci
      simpa only [put,setDisk,setInode,update_self] using hfr
  · constructor
    · rw [if_neg fun he => hci ⟨hi,he.1.symm,he.2.symm⟩]
      exact hd
    · intro j hj
      have hjs := names_put hi hdev hinum hj
      have hji : j ≠ i := fun he => hci (he ▸ hjs)
      simpa only [Table.put,Table.setDisk,Table.setInode,update_of_ne hji]
        using hall j hjs

lemma Inv.setInode (h : Inv s) (hn : n.OK (s.disk n.dev n.inum))
    (hj : ∀ j, j ≠ i → ¬s.Names j n.dev n.inum) : Inv (s.setInode i n) := by
  have hself : ∀ dev inum, (s.setInode i n).Names i dev inum → n.dev = dev ∧ n.inum = inum := by
    intro dev inum hi
    simp only [Table.Names,Table.setInode,update_self] at hi
    exact hi.2
  have hother : ∀ j, j ≠ i → ∀ dev inum,
      (s.setInode i n).Names j dev inum → s.Names j dev inum := by
    intro j hji dev inum hjn
    simpa only [Table.Names,Table.setInode,update_of_ne hji] using hjn
  refine ⟨fun j => ?_,fun a b dev inum ha hb => ?_⟩
  · by_cases hji : j = i
    · subst hji
      simpa only [setInode,dinode,update_self] using hn
    · simpa only [Table.setInode,Table.dinode,update_of_ne hji] using h.ok j
  · by_cases hai : a = i <;> by_cases hbi : b = i
    · rw [hai,hbi]
    · obtain ⟨rfl,rfl⟩ := hself _ _ (hai ▸ ha)
      exact (hj b hbi (hother b hbi _ _ hb)).elim
    · obtain ⟨rfl,rfl⟩ := hself _ _ (hbi ▸ hb)
      exact (hj a hai (hother a hai _ _ ha)).elim
    · exact h.unique a b dev inum (hother a hai _ _ ha) (hother b hbi _ _ hb)

lemma Lively.setInode (h : Lively s) (hn : n.Live (s.disk n.dev n.inum))
    (hc : ∀ c ∈ s.scans, c.found → ¬(c.dev = n.dev ∧ c.inum = n.inum)) :
    Lively (s.setInode i n) := by
  refine ⟨fun j => ?_,fun c hcs => ?_,h.once⟩
  · by_cases hji : j = i
    · subst hji
      simpa only [setInode,dinode,update_self] using hn
    · simpa only [Table.setInode,Table.dinode,update_of_ne hji] using h.live j
  · obtain ⟨hty,hfound⟩ := h.scanned c hcs
    refine ⟨hty,fun hcf => ⟨(hfound hcf).1,fun j hjn => ?_⟩⟩
    by_cases hji : j = i
    · subst hji
      simp only [Table.Names,setInode,update_self] at hjn
      exact (hc c hcs hcf ⟨hjn.2.1.symm,hjn.2.2.symm⟩).elim
    · simp only [Table.Names,Table.setInode,update_of_ne hji] at hjn ⊢
      exact (hfound hcf).2 j hjn

lemma Inv.iget (h : Inv s) (p : Pid) {dev inum : ℕ} (w : Option (Pid×ℕ))
    (hf : ∀ i, s.Names i dev inum → ∀ r ∈ (s.inode i).refs, r.2.freeing = false) :
    Inv (s.iget p dev inum w) := by
  unfold Table.iget
  split
  · -- the entry is shared
    rename_i i hi
    have hn := s.names_of_cached hi
    have hok := h.ok i
    have hne := h.refs_ne hn.1
    obtain ⟨_,rfl,rfl⟩ := id hn
    exact h.setInode (hok.cons (hf i hn) hne (by omega) (.inl rfl)) fun j hj hjn => hj (h.unique j i _ _ hjn hn)
  · rename_i hnone
    split
    · -- an empty entry is taken
      rename_i i hi
      exact h.setInode ((h.ok i).recycle (s.ref_of_empty hi) p dev inum w _)
        fun j _ => s.not_names_of_cached hnone j
    · exact ⟨h.ok,h.unique⟩

/-- `iget` of an allocated inode that no call of `ialloc` still has to get. -/
lemma Lively.iget (h : Lively s) (p : Pid) {dev inum : ℕ} {w : Option (Pid×ℕ)}
    (hk : (s.disk dev inum).type ≠ 0)
    (hw : ∀ q ty, w = some (q,ty) → s.disk dev inum = .fresh ty ∧
      ∀ i, s.Names i dev inum → ∀ r ∈ (s.inode i).refs, r.2.freed)
    (hc : ∀ c ∈ s.scans, c.found → ¬(c.dev = dev ∧ c.inum = inum)) :
    Lively (s.iget p dev inum w) := by
  unfold Table.iget
  split
  · rename_i i hi
    have hn := s.names_of_cached hi
    have hlive := h.live i
    obtain ⟨_,rfl,rfl⟩ := id hn
    exact h.setInode (hlive.cons hk fun q ty hq => ⟨(hw q ty hq).1,(hw q ty hq).2 i hn⟩) hc
  · split
    · exact h.setInode (.recycle hk fun q ty hq => (hw q ty hq).1) hc
    · exact ⟨h.live,h.scanned,h.once⟩

lemma Stage.not_freeing {g : Stage} (hf : g.freed) : g.freeing = false := by
  revert hf
  cases g <;> decide

lemma Lively.eraseScan (h : Lively s) (c : Scan) :
    Lively { s with scans := s.scans.erase c } where
  live := h.live
  scanned c' hc' := h.scanned c' (mem_of_mem_erase hc')
  once dev inum := (erase_sublist.countP_le).trans (h.once dev inum)

lemma Lively.consScan (h : Lively s) {c : Scan} (hty : c.type ≠ 0) (hf : c.found = false) :
    Lively { s with scans := c::s.scans } where
  live := h.live
  scanned := forall_mem_cons.mpr ⟨⟨hty,by simp [hf]⟩,h.scanned⟩
  once dev inum := by
    rw [countP_cons,if_neg (by simp [hf])]
    exact h.once dev inum

lemma Inv.allocate (h : Inv s) {dev inum : ℕ} (h0 : (s.disk dev inum).type = 0) (k : Dinode)
    (cs : List Scan) : Inv (({ s with scans := cs } : Table).setDisk dev inum k) where
  ok i := by
    show (s.inode i).OK ((setDisk _ _ _ _).disk _ _)
    rw [disk_setDisk]
    split
    · rename_i he
      obtain ⟨h₁,h₂⟩ : (s.inode i).dev = dev ∧ (s.inode i).inum = inum := he
      have hk : (s.dinode i).type = 0 := by rw [dinode,h₁,h₂,h0]
      exact (h.ok i).reuse hk _
    · exact h.ok i
  unique := h.unique

/-- `ialloc` allocates a free inode; an `iput` that has just freed it may still be about. -/
lemma Lively.allocate (h : Lively s) {c : Scan} (hty : c.type ≠ 0)
    (h0 : (s.disk c.dev c.inum).type = 0) :
    Lively (({ s with scans := c::s.scans } : Table).setDisk c.dev c.inum (.fresh c.type)) := by
  have hfresh : ∀ c' ∈ s.scans, c'.found → ¬(c'.dev = c.dev ∧ c'.inum = c.inum) := by
    intro c' hc' hcf he
    obtain ⟨hty',hfound⟩ := h.scanned c' hc'
    rw [← he.1,← he.2,(hfound hcf).1] at h0
    exact hty' h0
  have hk : ∀ i, (s.inode i).dev = c.dev ∧ (s.inode i).inum = c.inum →
      (s.dinode i).type = 0 := fun i he => by rw [dinode,he.1,he.2,h0]
  refine ⟨fun i => ?_,forall_mem_cons.mpr ⟨⟨hty,fun _ => ⟨?_,?_⟩⟩,?_⟩,?_⟩
  · show (s.inode i).Live ((setDisk _ _ _ _).disk _ _)
    rw [disk_setDisk]
    split
    · exact (h.live i).reuse (hk i ‹_›) _
    · exact h.live i
  · rw [disk_setDisk,if_pos ⟨rfl,rfl⟩]
  · intro i hi
    exact (h.live i).allFreed (hk i hi.2)
  · intro c' hc'
    obtain ⟨hty',hfound⟩ := h.scanned c' hc'
    refine ⟨hty',fun hcf => ⟨?_,(hfound hcf).2⟩⟩
    rw [disk_setDisk,if_neg (hfresh c' hc' hcf)]
    exact (hfound hcf).1
  · intro dev inum
    show (c::s.scans).countP _ ≤ 1
    rw [countP_cons]
    split
    · rename_i he
      obtain ⟨_,rfl,rfl⟩ := of_decide_eq_true he
      have hz : s.scans.countP (fun c' => c'.found ∧ c'.dev = c.dev ∧ c'.inum = c.inum) = 0 :=
        countP_eq_zero.mpr fun c' hc' hd => by
          obtain ⟨h₁,h₂⟩ := of_decide_eq_true hd
          exact hfresh c' hc' h₁ h₂
      omega
    · exact h.once dev inum

lemma scan_inv (ninodes : ℕ) {c : Scan} (h : Inv s) (hv : Lively s) (hc : c ∈ s.scans) :
    Inv (s.scan ninodes c) ∧ Lively (s.scan ninodes c) := by
  obtain ⟨hty,hfound⟩ := hv.scanned c hc
  have he : Inv { s with scans := s.scans.erase c } := ⟨h.ok,h.unique⟩
  have hve := hv.eraseScan c
  unfold scan
  split_ifs with hf hn h0
  · obtain ⟨hd,hall⟩ := hfound hf
    refine ⟨he.iget c.pid _ fun i hi r hr => Stage.not_freeing (hall i hi r hr),
      hve.iget c.pid (by rw [hd]; exact hty) ?_ ?_⟩
    · intro q ty hq
      obtain ⟨rfl,rfl⟩ := Prod.mk.inj (some.inj hq)
      exact ⟨hd,hall⟩
    · -- no other call has allocated the same inode
      intro c' hc' hcf hkey
      have hone := hv.once c.dev c.inum
      rw [(perm_cons_erase hc).countP_eq,countP_cons,if_pos (by simp [hf])] at hone
      have hpos : 0 < (s.scans.erase c).countP
          (fun x => x.found ∧ x.dev = c.dev ∧ x.inum = c.inum) :=
        countP_pos_iff.mpr ⟨c',hc',by simp [hcf,hkey]⟩
      omega
  · exact ⟨he.allocate h0 _ _,hve.allocate hty h0⟩
  · exact ⟨⟨h.ok,h.unique⟩,hve.consScan hty (by simpa using hf)⟩
  · exact ⟨he,hve⟩

namespace Clean

lemma iget (h : Clean s) (p : Pid) (dev inum : ℕ) (w : Option (Pid×ℕ)) :
    Clean (s.iget p dev inum w) := by
  have hset {i : Fin NINODE} {n : Entry} (hn : ∀ q, (q,.hold) ∈ n.refs →
      (q,.hold) ∈ (s.inode i).refs ∧ n.dev = (s.inode i).dev ∧ n.inum = (s.inode i).inum ∧
        n.d = (s.inode i).d) : Clean (s.setInode i n) := by
    intro j q hq hd
    by_cases hj : j = i
    · subst hj
      simp only [setInode,dinode,update_self] at hq ⊢
      obtain ⟨hq,hdev,hinum,hn⟩ := hn q hq
      rw [hdev,hinum,hn]
      exact h j q hq hd
    · simp only [setInode,dinode,update_of_ne hj] at hq ⊢
      exact h j q hq hd
  unfold Table.iget
  split
  · exact hset fun q hq => ⟨(mem_cons.mp hq).resolve_left (by simp),rfl,rfl,rfl⟩
  · split
    · exact hset fun q hq => absurd (mem_singleton.mp hq) (by simp)
    · exact h

lemma step {ninodes : ℕ} {e : Event} (h : Inv s) (hc : Clean s)
    (ht : s.step ninodes e = some t) : Clean t := by
  unfold Table.step at ht
  split at ht
  · cases ht
  cases e with
  | iget p dev inum =>
    cases ht
    exact hc.iget p dev inum none
  | op p i o =>
    obtain ⟨⟨n,k,m⟩,hop,rfl⟩ := map_eq_some_iff.mp ht
    have hs := op_cases hop
    obtain ⟨g,hg⟩ := op_mem hs
    obtain ⟨hdev,hinum⟩ := op_names hs
    intro j
    refine h.put_all (P := fun j n k => ∀ q, (q,.hold) ∈ n.refs →
      update s.dirty i (o.dirties (s.dirty i)) j = false → n.d = k) (h.ref_pos hg) hdev hinum
      (fun j hj q hq hd => hc j q hq ?_) (fun q hq hd => ?_) (fun j k' h0 q hq => ?_) j
    · rwa [update_of_ne hj] at hd
    · rw [update_self] at hd
      exact op_clean (h.ok i) hs (fun q => hc i q) hq hd
    · simp [h.refs_eq_nil h0] at hq
  | ialloc p dev type =>
    cases ht
    exact hc
  | scan c =>
    obtain ⟨-,ht⟩ := ite_none_right_eq_some.mp ht
    cases ht
    unfold scan
    split_ifs with hf hn h0
    · exact iget (s := { s with scans := s.scans.erase c }) hc _ _ _ _
    · -- nobody has a free inode locked
      intro i q hq hd
      have hk := ((h.ok i).each _ hq).2.1
      show (s.inode i).d = (setDisk _ _ _ _).disk _ _
      rw [disk_setDisk,if_neg]
      · exact hc i q hq hd
      · rintro ⟨hdev,hinum⟩
        simp only [setDisk] at hdev hinum
        rw [dinode,hdev,hinum] at hk
        exact hk h0
    · exact hc
    · exact hc

end Clean

/-- What holds in every run in which lookups name linked inodes. -/
structure Fine (s : Table) : Prop where
  inv : Inv s
  clean : Clean s
  lively : Lively s
  calm : ∀ m, s.panicked = some m → m = "iget: no inodes"

lemma iget_panicked {p : Pid} {dev inum : ℕ} {w : Option (Pid×ℕ)} {m : String}
    (hs : s.panicked = none) (h : (s.iget p dev inum w).panicked = some m) :
    m = "iget: no inodes" := by
  unfold Table.iget at h
  split at h
  · exact nomatch hs.symm.trans h
  · split at h
    · exact nomatch hs.symm.trans h
    · exact (some.inj h).symm

variable {ninodes : ℕ}

lemma step_fine {e : Event} (h : Fine s) (hf : Follows s e) (ho : Orderly s e)
    (ht : s.step ninodes e = some t) : Fine t := by
  have hclean := h.clean.step h.inv ht
  unfold step at ht
  split at ht
  · cases ht
  have hcalm : s.panicked = none := by simpa using ‹¬s.panicked.isSome = true›
  cases e with
  | iget p dev inum =>
    cases ht
    obtain ⟨hk,hn⟩ := ho
    refine ⟨h.inv.iget p _ fun i hi r hr => ?_,hclean,
      h.lively.iget p hk (fun _ _ hq => nomatch hq) fun c hc hcf hkey => ?_,
      fun m hm => iget_panicked hcalm hm⟩
    · by_contra hfr
      have hz := (((h.inv.ok i).each r hr).of_freeing (by simpa using hfr)).2.2.2.2
      rw [dinode,hi.2.1,hi.2.2] at hz
      exact hn hz
    · rw [← hkey.1,← hkey.2,((h.lively.scanned c hc).2 hcf).1] at hn
      exact hn rfl
  | op p i o =>
    obtain ⟨⟨n,k,m⟩,hop,rfl⟩ := map_eq_some_iff.mp ht
    have hs := op_cases hop
    obtain rfl := op_calm (h.inv.ok i) (h.lively.live i) hs
    obtain ⟨g,hg⟩ := op_mem hs
    obtain ⟨hdev,hinum⟩ := op_names hs
    have ha : (s.inode i).Allowed (s.dinode i) o := by
      cases o with
      | iunlock => exact h.clean i p (Option.ite_none_right_eq_some.mp hop).1 hf
      | modify => exact hf
      | iput => exact ⟨ho,hf⟩
      | _ => trivial
    have hinv := h.inv.put (h.inv.ref_pos hg) hdev hinum (op_ok (h.inv.ok i) ha hs)
    have hlive := Lively.put h.inv h.lively hs
    exact ⟨⟨hinv.ok,hinv.unique⟩,hclean,⟨hlive.live,hlive.scanned,hlive.once⟩,fun _ hm => nomatch hm⟩
  | ialloc p dev type =>
    cases ht
    exact ⟨⟨h.inv.ok,h.inv.unique⟩,hclean,h.lively.consScan hf rfl,h.calm⟩
  | scan c =>
    obtain ⟨hc,ht⟩ := ite_none_right_eq_some.mp ht
    cases ht
    obtain ⟨hinv,hlive⟩ := scan_inv ninodes h.inv h.lively hc
    refine ⟨hinv,hclean,hlive,fun m hm => ?_⟩
    unfold scan at hm
    split_ifs at hm
    · exact iget_panicked (s := { s with scans := s.scans.erase c }) hcalm hm
    all_goals exact nomatch hcalm.symm.trans hm

/-- The statement of `iput` that a process which is freeing an inode executes next. -/
def Stage.next : Stage → Op
  | .itrunc => .itrunc
  | .clear => .clear
  | .update => .update
  | .invalid => .invalid
  | .release => .release
  | _ => .drop

/-- What the inode table guarantees in a state and for the next step from it. -/
structure Sound (ninodes : ℕ) (s : Table) : Prop where
  unique : ∀ i j, 0 < (s.inode i).ref → 0 < (s.inode j).ref →
    (s.inode i).dev = (s.inode j).dev → (s.inode i).inum = (s.inode j).inum → i = j
  /-- `ref` counts the references: there are as many users, besides those that share one. -/
  ref_eq : ∀ i, (s.inode i).ref+(s.inode i).shares = (s.inode i).refs.length
  /-- The holder of the sleep-lock and those who wait for it are no more than the references, as
  long as none of these is shared. -/
  users_le : ∀ i, (if (s.inode i).holder.isSome then 1 else 0)+(s.inode i).waiters ≤
    (s.inode i).ref+(s.inode i).shares
  lock : ∀ i p, (s.inode i).holder = some p ↔ ∃ g, g.locks ∧ (p,g) ∈ (s.inode i).refs
  /-- `iput` never sleeps in the `acquiresleep` it does with `itable.lock` held. -/
  awake : ∀ i p, (p,.idle) ∈ (s.inode i).refs → (s.inode i).ref = 1 → (s.inode i).shares = 0 →
    (s.inode i).holder = none
  synced : ∀ i, 0 < (s.inode i).ref → (s.inode i).valid → (s.inode i).holder = none →
    (s.inode i).d = s.dinode i
  /-- An inode is freed on disk only for the last reference to it, with no link left. -/
  freed : ∀ e t dev inum, Follows s e → Orderly s e → s.step ninodes e = some t →
    (s.disk dev inum).type ≠ 0 → (t.disk dev inum).type = 0 →
    ∃ i, s.Names i dev inum ∧ (s.inode i).ref = 1 ∧ (s.inode i).valid ∧ (s.inode i).d.nlink = 0
  /-- The last reference to a valid inode without a link is never dropped without freeing it,
  which ends by clearing `valid`. -/
  dropped : ∀ e t i, Follows s e → Orderly s e → s.step ninodes e = some t →
    0 < (s.inode i).ref → (t.inode i).ref = 0 → (s.inode i).valid → (s.inode i).d.nlink ≠ 0
  /-- An `iput` that has begun to free an inode is not held up. -/
  goesOn : ∀ i p g, (p,g) ∈ (s.inode i).refs → (g.freeing ∨ g.freed) → s.panicked = none →
    (s.step ninodes (.op p i g.next)).isSome
  /-- The first `ilock` after `ialloc` finds what `ialloc` wrote. -/
  seen : ∀ i p ty t, (s.inode i).new = some (p,ty) → s.step ninodes (.op p i .load) = some t →
    (t.inode i).d = .fresh ty ∧ ty ≠ 0 ∧ t.panicked = none
  noType : s.panicked ≠ some "ilock: no type"

lemma Inv.lock_iff (h : Inv s) (i : Fin NINODE) (p : Pid) :
    (s.inode i).holder = some p ↔ ∃ g, Stage.locks g ∧ (p,g) ∈ (s.inode i).refs := by
  constructor
  · intro hp
    have hl := (h.ok i).locked
    rw [hp] at hl
    have hpos : 0 < (s.inode i).refs.countP (·.2.locks) := by
      rw [hl]
      exact Nat.one_pos
    obtain ⟨⟨q,g⟩,hr,hg⟩ := countP_pos_iff.mp hpos
    have hq := ((h.ok i).each _ hr).holder_eq hg
    rw [hp] at hq
    cases hq
    exact ⟨g,hg,hr⟩
  · rintro ⟨g,hg,hr⟩
    exact ((h.ok i).each _ hr).holder_eq hg

lemma Inv.awake (h : Inv s) {i : Fin NINODE} {p : Pid} (hm : (p,.idle) ∈ (s.inode i).refs)
    (hr : (s.inode i).Sole) : (s.inode i).holder = none := by
  cases hl : (s.inode i).holder with
  | none => rfl
  | some q =>
    obtain ⟨g,hg,hq⟩ := (h.lock_iff i q).mp hl
    rw [(h.ok i).alone hm hr,mem_singleton] at hq
    cases hq
    cases hg

lemma iget_grows (s : Table) (p : Pid) (dev inum : ℕ) (w : Option (Pid×ℕ)) :
    (s.iget p dev inum w).disk = s.disk ∧
      ∀ i, 0 < (s.inode i).ref → 0 < ((s.iget p dev inum w).inode i).ref := by
  unfold Table.iget
  split
  · refine ⟨rfl,fun i hi => ?_⟩
    simp only [setInode,update_apply]
    split
    · exact Nat.succ_pos _
    · exact hi
  · split
    · refine ⟨rfl,fun i hi => ?_⟩
      simp only [setInode,update_apply]
      split
      · exact Nat.one_pos
      · exact hi
    · exact ⟨rfl,fun _ hi => hi⟩

/-- A step either belongs to one entry, or frees nothing and drops no reference. -/
lemma step_local {e : Event} (h : Lively s) (ht : s.step ninodes e = some t) :
    (∃ p i o n k m, (s.inode i).OpStep (s.dinode i) p o n k m ∧
      t = { s.put i n k with
        panicked := m, dirty := update s.dirty i (o.dirties (s.dirty i)) }) ∨
    (∀ dev inum, (s.disk dev inum).type ≠ 0 → (t.disk dev inum).type ≠ 0) ∧
      ∀ i, 0 < (s.inode i).ref → 0 < (t.inode i).ref := by
  unfold step at ht
  split at ht
  · cases ht
  cases e with
  | iget p dev inum =>
    cases ht
    obtain ⟨hd,hr⟩ := iget_grows s p dev inum none
    exact .inr ⟨fun _ _ hk => hd ▸ hk,hr⟩
  | op p i o =>
    obtain ⟨⟨n,k,m⟩,hop,rfl⟩ := map_eq_some_iff.mp ht
    exact .inl ⟨p,i,o,n,k,m,op_cases hop,rfl⟩
  | ialloc p dev type =>
    cases ht
    exact .inr ⟨fun _ _ => id,fun _ => id⟩
  | scan c =>
    obtain ⟨hc,ht⟩ := ite_none_right_eq_some.mp ht
    cases ht
    right
    unfold scan
    split_ifs with hf hn h0
    · obtain ⟨hd,hr⟩ := iget_grows { s with scans := s.scans.erase c } c.pid c.dev c.inum
        (some (c.pid,c.type))
      exact ⟨fun _ _ hk => by rw [hd]; exact hk,hr⟩
    · refine ⟨fun dev inum hk => ?_,fun _ => id⟩
      rw [disk_setDisk]
      split
      · exact (h.scanned c hc).1
      · exact hk
    · exact ⟨fun _ _ => id,fun _ => id⟩
    · exact ⟨fun _ _ => id,fun _ => id⟩

lemma Fine.freed {e : Event} (h : Fine s) (ht : s.step ninodes e = some t)
    {dev inum : ℕ} (hk : (s.disk dev inum).type ≠ 0) (hk' : (t.disk dev inum).type = 0) :
    ∃ i, s.Names i dev inum ∧ (s.inode i).ref = 1 ∧ (s.inode i).valid ∧
      (s.inode i).d.nlink = 0 := by
  rcases step_local h.lively ht with ⟨p,i,o,n,k,m,hs,rfl⟩ | ⟨hd,_⟩
  · replace hk' : (((s.setInode i n).setDisk (s.inode i).dev (s.inode i).inum k).disk
      dev inum).type = 0 := hk'
    rw [disk_setDisk] at hk'
    split at hk'
    · rename_i he
      obtain ⟨rfl,rfl⟩ := he
      obtain ⟨_,hr,hv,hn,_⟩ := op_freed (h.inv.ok i) hs hk hk'
      exact ⟨i,⟨hr ▸ Nat.one_pos,rfl,rfl⟩,hr,hv,hn⟩
    · exact (hk hk').elim
  · exact (hd dev inum hk hk').elim

lemma Fine.dropped {e : Event} (h : Fine s) (ht : s.step ninodes e = some t)
    {i : Fin NINODE} (hr : 0 < (s.inode i).ref) (hr' : (t.inode i).ref = 0)
    (hv : (s.inode i).valid) : (s.inode i).d.nlink ≠ 0 := by
  rcases step_local h.lively ht with ⟨p,j,o,n,k,m,hs,rfl⟩ | ⟨_,hd⟩
  · simp only [put,setDisk,setInode,update_apply] at hr'
    split at hr'
    · rename_i he
      subst he
      exact op_dropped (h.inv.ok i) hs hr hr' hv
    · omega
  · have := hd i hr
    omega

lemma goesOn {i : Fin NINODE} {p : Pid} {g : Stage}
    (hm : (p,g) ∈ (s.inode i).refs) (hg : g.freeing ∨ g.freed) (hp : s.panicked = none) :
    (s.step ninodes (.op p i g.next)).isSome := by
  cases g <;> first
    | (simp [Stage.freeing,Stage.freed] at hg; done)
    | simp [step,hp,Stage.next,op,hm]

lemma Fine.seen (h : Fine s) {i : Fin NINODE} {p : Pid} {ty : ℕ}
    (hn : (s.inode i).new = some (p,ty)) (ht : s.step ninodes (.op p i .load) = some t) :
    (t.inode i).d = .fresh ty ∧ ty ≠ 0 ∧ t.panicked = none := by
  unfold step at ht
  split at ht
  · cases ht
  obtain ⟨⟨n,k,m⟩,hop,rfl⟩ := map_eq_some_iff.mp ht
  have hs := op_cases hop
  have hok := h.inv.ok i
  have hlive := h.lively.live i
  refine ⟨?_,(hlive.fresh p ty hn).2.1,op_calm hok hlive hs⟩
  simpa only [put,setDisk,setInode,update_self] using
    op_load_new hok hlive hn hs

/-- In every interleaving of `iget`, `idup`, `ilock`, `iunlock`, `iput` and `ialloc`, also by
processes that share references, in which
lookups name linked inodes and no reference is dropped while an `iput` that freed the entry's
inode is about to drop its own, the inode table keeps its guarantees. -/
theorem itable_protocol (ninodes : ℕ) (disk : ℕ → ℕ → Dinode) (es : List Event) (s : Table)
    (h : Lib.Runs (fun s e => s.step ninodes e) (fun s e => Follows s e ∧ Orderly s e)
      (.init disk) es s) : Sound ninodes s := by
  have hf : Fine s := h.invariant (fun _ _ _ hi hc ht => step_fine hi hc.1 hc.2 ht)
    ⟨.init disk,fun _ _ hq => absurd hq (by simp [Table.init]),.init disk,fun _ hm => nomatch hm⟩
  have hi := hf.inv
  exact {
    unique := fun i j hi' hj hdev hinum => hi.unique i j _ _ ⟨hi',hdev,hinum⟩ ⟨hj,rfl,rfl⟩
    ref_eq := fun i => (hi.ok i).ref_eq
    users_le := fun i => (hi.ok i).users_le
    lock := hi.lock_iff
    awake := fun i p hm hr hs => hi.awake hm ⟨hr,hs⟩
    synced := fun i hr hv hl => ((hi.ok i).synced (hi.refs_ne hr) hv hl).2
    freed := fun e t dev inum _ _ ht => hf.freed ht
    dropped := fun e t i _ _ ht => hf.dropped ht
    goesOn := fun i p g => goesOn
    seen := fun i p ty t => hf.seen
    noType := fun hp => absurd (hf.calm _ hp) (by decide) }

def entry0 : Fin NINODE := ⟨0,NINODE_pos⟩

/-- Process `p` allocates inode 1 and locks it once. -/
def useNew (p : Pid) : List Event :=
  [.ialloc p 1 2,.scan ⟨p,1,2,1,false⟩,.scan ⟨p,1,2,1,true⟩] ++
    [.ilock,.acquiresleep,.load,.iunlock].map (.op p entry0)

/-- The statements of an `iput` that frees the inode, without the last one. -/
def freeAll (p : Pid) : List Event :=
  [.itrunc,.clear,.update,.invalid,.release].map (.op p entry0)

/-- Process 0 shares its reference with process 1, which waits while process 0 writes a new size. -/
def useShared : List Event :=
  [.share 1,.ilock,.acquiresleep,.load,.modify { Dinode.fresh 2 with size := 7 }].map
    (.op 0 entry0) ++ [.op 1 entry0 .ilock]

/-- Process 1 has the lock in its turn and closes the file; process 0 puts the reference. -/
def closeShared : List Event :=
  [.iupdate,.iunlock].map (.op 0 entry0) ++
    [.acquiresleep,.load,.iunlock,.unshare].map (.op 1 entry0) ++ [.op 0 entry0 .iput]

/-- Two processes use one reference; later process 1 allocates the number while process 0 has freed
it and not yet dropped its reference. -/
theorem itable_protocol_reuse :
    (∃ s, Sound 2 s ∧ (s.inode entry0).ref = 1 ∧ (s.inode entry0).holder = some 0 ∧
      (s.inode entry0).waiters = 1) ∧
    ∃ t, Sound 2 t ∧ (t.inode entry0).ref = 2 ∧ (t.inode entry0).d = .fresh 2 := by
  obtain ⟨s,hs,hwait⟩ := Lib.Runs.exists_of_execIf (fun s e => step s 2 e)
    (fun s e => Follows s e ∧ Orderly s e) (.init fun _ _ => .fresh 0) (useNew 0 ++ useShared)
    (fun s => (s.inode entry0).ref = 1 ∧ (s.inode entry0).holder = some 0 ∧
      (s.inode entry0).waiters = 1) (by decide +kernel)
  obtain ⟨t,ht,hnew⟩ := Lib.Runs.exists_of_execIf (fun s e => step s 2 e)
    (fun s e => Follows s e ∧ Orderly s e) (.init fun _ _ => .fresh 0)
    (useNew 0 ++ useShared ++ closeShared ++ freeAll 0 ++ useNew 1)
    (fun t => (t.inode entry0).ref = 2 ∧ (t.inode entry0).d = .fresh 2) (by decide +kernel)
  exact ⟨⟨s,itable_protocol 2 _ _ s hs,hwait⟩,t,itable_protocol 2 _ _ t ht,hnew⟩

/-- Without the two conditions the guarantees fail. In the first run process 1 gets the number
that process 0 has freed, and drops its reference before process 0 does: process 0 then drops the
last reference to a valid inode without a link and leaves it allocated. In the second run a lookup
gets the inode while process 0 is freeing it, and its `ilock` panics. -/
theorem itable_leak :
    (∃ es s t, Lib.Runs (fun s e => Table.step s 2 e) Follows (.init fun _ _ => .fresh 0) es s ∧
      s.step 2 (.op 0 entry0 .drop) = some t ∧
      (s.inode entry0).ref = 1 ∧ (s.inode entry0).valid ∧
      (s.inode entry0).d.nlink = 0 ∧
      (∀ i, (t.inode i).ref = 0) ∧ t.scans = [] ∧ (t.disk 1 1).type ≠ 0) ∧
    ∃ es t, Lib.Runs (fun s e => Table.step s 2 e) Follows (.init fun _ _ => .fresh 0) es t ∧
      t.panicked = some "ilock: no type" := by
  constructor
  · obtain ⟨s,hr,h₁,h₂,h₃,h₄⟩ := Lib.Runs.exists_of_execIf (fun s e => step s 2 e)
      Follows (.init fun _ _ => .fresh 0)
      (useNew 0 ++ [.op 0 entry0 .iput] ++ freeAll 0 ++ useNew 1 ++
        [.op 1 entry0 .iput])
      (fun s => (s.inode entry0).ref = 1 ∧ (s.inode entry0).valid ∧
        (s.inode entry0).d.nlink = 0 ∧
        (s.step 2 (.op 0 entry0 .drop)).any fun t =>
          (∀ i, (t.inode i).ref = 0) ∧ t.scans = [] ∧ (t.disk 1 1).type ≠ 0)
      (by decide +kernel)
    cases ht : s.step 2 (.op 0 entry0 .drop) with
    | none => simp [ht] at h₄
    | some t =>
      simp only [ht,any_some] at h₄
      exact ⟨_,s,t,hr,ht,h₁,h₂,h₃,of_decide_eq_true h₄⟩
  · obtain ⟨t,hr,ht⟩ := Lib.Runs.exists_of_execIf (fun s e => step s 2 e)
      Follows (.init fun _ _ => .fresh 0)
      (useNew 0 ++ [.op 0 entry0 .iput,.iget 1 1 1] ++ freeAll 0 ++
        [.op 0 entry0 .drop] ++ [.ilock,.acquiresleep,.load].map (.op 1 entry0))
      (fun t => t.panicked = some "ilock: no type") (by decide +kernel)
    exact ⟨_,t,hr,ht⟩

end Xv6.Fs.Itable
