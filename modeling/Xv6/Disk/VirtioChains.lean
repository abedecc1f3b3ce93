import Xv6.Disk.Virtio

/-! The descriptors. Those in use are the chains of the calls of `virtio_disk_rw` in progress,
three distinct ones each, and a chain that has been filled in stays as it is until it is freed. -/
namespace Xv6.Virtio
open List Sys Pc
open Function (update update_idem update_self update_apply update_of_ne update_eq_self)

namespace Idx

def list (x : Idx) : List ℕ := [x.i0,x.i1,x.i2]

end Idx

/-- The three descriptors, `ops` and `info` tell the device of the call `c`. -/
structure Formatted (d : Disk) (c : Call) (x : Idx) : Prop where
  first : d.desc x.i0 = { addr := .op x.i0, len := 16, flags := VRING_DESC_F_NEXT, next := x.i1 }
  second : d.desc x.i1 =
    { addr := .data c.b
      len := BSIZE
      flags := (if c.write then 0 else VRING_DESC_F_WRITE) ||| VRING_DESC_F_NEXT
      next := x.i2 }
  third : d.desc x.i2 = { addr := .status x.i0, len := 1, flags := VRING_DESC_F_WRITE, next := 0 }
  op : d.ops x.i0 = { out := c.write, sector := c.sector }
  buf : (d.info x.i0).b = some c.b

/-- The disks agree on the entry `i` of the tables. -/
structure Disk.Same (d d' : Disk) (i : ℕ) : Prop where
  desc : d'.desc i = d.desc i
  ops : d'.ops i = d.ops i
  buf : (d'.info i).b = (d.info i).b

lemma Formatted.congr {d d' : Disk} {c : Call} {x : Idx} (h : Formatted d c x)
    (hd : ∀ i ∈ x.list, d.Same d' i) : Formatted d' c x := by
  have h₀ := hd x.i0 (by simp [Idx.list])
  constructor
  · rw [h₀.desc,h.first]
  · rw [(hd x.i1 (by simp [Idx.list])).desc,h.second]
  · rw [(hd x.i2 (by simp [Idx.list])).desc,h.third]
  · rw [h₀.ops,h.op]
  · rw [h₀.buf,h.buf]

structure Chains (s : Sys) : Prop where
  lock : ∀ p, (s.pc p).holds = true ↔ s.lock = some p
  bufs : ∀ p c, (s.pc p).call? = some c → s.buflock c.b = some p
  chain : ∀ p c x, (s.pc p).chain? = some (c,x) →
    x.list.Nodup ∧ ∀ i ∈ x.list, i < NUM ∧ s.disk.free i = false
  apart : ∀ p q c x c' x', p ≠ q → (s.pc p).chain? = some (c,x) →
    (s.pc q).chain? = some (c',x') → ∀ i ∈ x.list, i ∉ x'.list
  cover : ∀ i, i < NUM → s.disk.free i = false →
    ∃ p c x, (s.pc p).chain? = some (c,x) ∧ i ∈ x.list
  format : ∀ p c x, (s.pc p).chain? = some (c,x) → (s.pc p).formatted = true →
    Formatted s.disk c x

namespace Pc
variable (q : Pc) (b : ℕ)

@[simp] lemma wakeFree_call : q.wakeFree.call? = q.call? := by cases q <;> rfl
@[simp] lemma wakeFree_chain : q.wakeFree.chain? = q.chain? := by cases q <;> rfl
@[simp] lemma wakeFree_live : q.wakeFree.live? = q.live? := by cases q <;> rfl
@[simp] lemma wakeFree_formatted : q.wakeFree.formatted = q.formatted := by cases q <;> rfl
@[simp] lemma wakeFree_holds : q.wakeFree.holds = q.holds := by cases q <;> rfl

@[simp] lemma wakeFree_wakeFree : q.wakeFree.wakeFree = q.wakeFree := by cases q <;> rfl

@[simp] lemma wakeFree_eq_publish {c : Call} {x : Idx} :
    q.wakeFree = .publish c x ↔ q = .publish c x := by
  cases q <;> simp [wakeFree]

lemma wakeBuf_sleepDisk (c : Call) (x : Idx) (k : ℕ) :
    (sleepDisk c x k).wakeBuf b = wantTest c x k ∨
      (sleepDisk c x k).wakeBuf b = sleepDisk c x k := by
  by_cases h : c.b = b <;> simp [wakeBuf,h]

@[simp] lemma wakeBuf_call : (q.wakeBuf b).call? = q.call? := by
  cases q with
  | sleepDisk c x k => obtain h | h := wakeBuf_sleepDisk b c x k <;> simp [h,call?]
  | _ => rfl

@[simp] lemma wakeBuf_chain : (q.wakeBuf b).chain? = q.chain? := by
  cases q with
  | sleepDisk c x k => obtain h | h := wakeBuf_sleepDisk b c x k <;> simp [h,chain?]
  | _ => rfl

@[simp] lemma wakeBuf_live : (q.wakeBuf b).live? = q.live? := by
  cases q with
  | sleepDisk c x k => obtain h | h := wakeBuf_sleepDisk b c x k <;> simp [h,live?]
  | _ => rfl

@[simp] lemma wakeBuf_formatted : (q.wakeBuf b).formatted = q.formatted := by
  cases q with
  | sleepDisk c x k => obtain h | h := wakeBuf_sleepDisk b c x k <;> simp [h,formatted]
  | _ => rfl

@[simp] lemma wakeBuf_holds : (q.wakeBuf b).holds = q.holds := by
  cases q with
  | sleepDisk c x k => obtain h | h := wakeBuf_sleepDisk b c x k <;> simp [h,holds]
  | _ => rfl

end Pc

lemma allocDesc_eq_some {free : ℕ → Bool} {i : ℕ} (h : allocDesc free = some i) :
    i < NUM ∧ free i = true :=
  ⟨mem_range.mp (mem_of_find?_eq_some h),find?_some h⟩

lemma freeDesc_eq {s : Sys} {i : ℕ} (hi : i < NUM) (hf : s.disk.free i = false) :
    freeDesc s i = Sys.wakeFree { s with
      disk := { s.disk with
        desc := update s.disk.desc i .zero
        free := update s.disk.free i true } } := by
  unfold freeDesc
  rw [if_neg (by omega),if_neg (by simp [hf])]

lemma alloc3Desc_some {s t : Sys} {x : Idx} (h : alloc3Desc s = (some x,t)) :
    x.list.Nodup ∧ (∀ i ∈ x.list, i < NUM ∧ s.disk.free i = true) ∧
      t = { s with disk := { s.disk with
        free := fun i => if i ∈ x.list then false else s.disk.free i } } := by
  unfold alloc3Desc at h
  cases h₀ : allocDesc s.disk.free with
  | none => simp [h₀] at h
  | some i0 =>
    simp only [h₀] at h
    cases h₁ : allocDesc (markUsed s i0).disk.free with
    | none => simp [h₁] at h
    | some i1 =>
      simp only [h₁] at h
      cases h₂ : allocDesc (markUsed (markUsed s i0) i1).disk.free with
      | none => simp [h₂] at h
      | some i2 =>
        simp only [h₂,Prod.mk.injEq,Option.some_inj] at h
        obtain ⟨rfl,rfl⟩ := h
        obtain ⟨hlt₀,hf₀⟩ := allocDesc_eq_some h₀
        obtain ⟨hlt₁,hf₁⟩ := allocDesc_eq_some h₁
        obtain ⟨hlt₂,hf₂⟩ := allocDesc_eq_some h₂
        simp only [markUsed,update_apply] at hf₁ hf₂
        have h10 : i1 ≠ i0 := by
          rintro rfl
          simp at hf₁
        have h21 : i2 ≠ i1 := by
          rintro rfl
          simp at hf₂
        have h20 : i2 ≠ i0 := by
          rintro rfl
          simp [h21] at hf₂
        rw [if_neg h10] at hf₁
        rw [if_neg h21,if_neg h20] at hf₂
        refine ⟨by simp [Idx.list,Ne.symm h10,Ne.symm h20,Ne.symm h21],?_,?_⟩
        · simp [Idx.list,hlt₀,hlt₁,hlt₂,hf₀,hf₁,hf₂]
        · simp only [markUsed,Idx.list]
          congr 2
          funext i
          simp only [update_apply,mem_cons,not_mem_nil,or_false]
          by_cases hi0 : i = i0 <;> by_cases hi1 : i = i1 <;> by_cases hi2 : i = i2 <;>
            simp [hi0,hi1,hi2]

/-- A failing `alloc3_desc` changes no descriptor in use and leaves the free set as it was. -/
lemma alloc3Desc_none {s t : Sys} (h : alloc3Desc s = (none,t)) :
    t.disk.free = s.disk.free ∧ ∃ desc pc,
      t = { s with pc := pc, disk := { s.disk with desc := desc } } ∧
      (∀ i, s.disk.free i = false → desc i = s.disk.desc i) ∧
      (pc = s.pc ∨ pc = fun p => (s.pc p).wakeFree) := by
  unfold alloc3Desc at h
  cases h₀ : allocDesc s.disk.free with
  | none =>
    simp only [h₀,Prod.mk.injEq,true_and] at h
    subst h
    exact ⟨rfl,s.disk.desc,s.pc,rfl,fun _ _ => rfl,.inl rfl⟩
  | some i0 =>
    obtain ⟨hlt₀,hf₀⟩ := allocDesc_eq_some h₀
    simp only [h₀] at h
    cases h₁ : allocDesc (markUsed s i0).disk.free with
    | none =>
      simp only [h₁,Prod.mk.injEq,true_and] at h
      rw [freeDesc_eq hlt₀ (by simp [markUsed])] at h
      subst h
      have hfree : update (update s.disk.free i0 false) i0 true =
          s.disk.free := by
        rw [update_idem,←hf₀,update_eq_self]
      refine ⟨hfree,update s.disk.desc i0 .zero,fun p => (s.pc p).wakeFree,?_,?_,.inr rfl⟩
      · simp only [Sys.wakeFree,markUsed,hfree]
      · intro i hi
        apply update_of_ne
        rintro rfl
        rw [hf₀] at hi
        cases hi
    | some i1 =>
      obtain ⟨hlt₁,hf₁⟩ := allocDesc_eq_some h₁
      have h10 : i1 ≠ i0 := by
        rintro rfl
        simp [markUsed] at hf₁
      have hf₁' : s.disk.free i1 = true := by simpa [markUsed,h10] using hf₁
      simp only [h₁] at h
      cases h₂ : allocDesc (markUsed (markUsed s i0) i1).disk.free with
      | some i2 => simp [h₂] at h
      | none =>
        simp only [h₂,Prod.mk.injEq,true_and] at h
        rw [freeDesc_eq hlt₀ (by simp [markUsed,Ne.symm h10]),
          freeDesc_eq hlt₁ (by simp [Sys.wakeFree,markUsed,h10])] at h
        subst h
        have hfree : update (update (update
            (update s.disk.free i0 false) i1 false) i0 true) i1 true = s.disk.free := by
          funext i
          by_cases hi1 : i = i1
          · simp [hi1,hf₁']
          · by_cases hi0 : i = i0
            · simp [hi0,Ne.symm h10,hf₀]
            · simp [hi0,hi1]
        refine ⟨hfree,update (update s.disk.desc i0 .zero) i1 .zero,
          fun p => (s.pc p).wakeFree,?_,?_,.inr rfl⟩
        · simp only [Sys.wakeFree,markUsed,hfree,Pc.wakeFree_wakeFree]
        · intro i hi
          have hne : ∀ k, s.disk.free k = true → i ≠ k := by
            rintro k hk rfl
            rw [hk] at hi
            cases hi
          rw [update_of_ne (hne i1 hf₁'),update_of_ne (hne i0 hf₀)]

/-- `free_chain` on a chain as `virtio_disk_rw` fills it in. -/
lemma freeChain_eq {s : Sys} {d : Disk} {c : Call} {x : Idx} (hx : x.list.Nodup)
    (hfree : ∀ i ∈ x.list, i < NUM ∧ s.disk.free i = false) (hf : Formatted d c x)
    (hd : s.disk.desc = d.desc) (hp : s.panic = none) :
    freeChain (NUM+1) s x.i0 = { s with
      pc := fun p => (s.pc p).wakeFree
      disk := { s.disk with
        desc := fun i => if i ∈ x.list then .zero else s.disk.desc i
        free := fun i => if i ∈ x.list then true else s.disk.free i } } := by
  obtain ⟨i0,i1,i2⟩ := x
  simp only [Idx.list,mem_cons,not_mem_nil,or_false,forall_eq_or_imp,forall_eq,
    nodup_cons,not_or,not_false_eq_true,nodup_nil,and_true] at hx hfree ⊢
  obtain ⟨⟨h01,h02⟩,h12⟩ := hx
  obtain ⟨⟨hlt₀,hf₀⟩,⟨hlt₁,hf₁⟩,hlt₂,hf₂⟩ := hfree
  have hnext : ∀ b : Bool, ((if b then 0 else VRING_DESC_F_WRITE) ||| VRING_DESC_F_NEXT) &&&
      VRING_DESC_F_NEXT ≠ 0 := by decide
  have hlast : VRING_DESC_F_WRITE &&& VRING_DESC_F_NEXT = 0 := by decide
  have hfirst : VRING_DESC_F_NEXT &&& VRING_DESC_F_NEXT ≠ 0 := by decide
  have hd0 := hf.first
  have hd1 := hf.second
  have hd2 := hf.third
  simp only [←hd] at hd0 hd1 hd2
  -- one round for each descriptor of the chain
  rw [freeChain,hd0,freeDesc_eq hlt₀ hf₀]
  simp only [Sys.wakeFree,hp,ne_eq,hfirst,not_false_eq_true,and_self,if_true]
  rw [NUM,freeChain,freeDesc_eq hlt₁ (by simpa [Ne.symm h01] using hf₁)]
  simp only [Sys.wakeFree,update_of_ne (Ne.symm h01),hd1,ne_eq,hnext,not_false_eq_true,
    and_self,if_true]
  rw [freeChain,freeDesc_eq hlt₂ (by simpa [Ne.symm h02,Ne.symm h12] using hf₂)]
  simp only [Sys.wakeFree,update_of_ne (Ne.symm h02),update_of_ne (Ne.symm h12),
    hd2,hlast,ne_eq,not_true_eq_false,and_false,if_false,wakeFree_wakeFree]
  congr 2 <;> funext i <;> simp only [update_apply] <;>
    by_cases hi0 : i = i0 <;> by_cases hi1 : i = i1 <;> by_cases hi2 : i = i2 <;>
    simp [hi0,hi1,hi2]

namespace Chains
variable {s t : Sys} {p q : Pid} {c : Call} {x : Idx} {r : Pc}

variable (h : Chains s)
include h

lemma lock_of (ho : ∀ q, q ≠ p → (t.pc q).holds = (s.pc q).holds)
    (hl : ∀ q, q ≠ p → (t.lock = some q ↔ s.lock = some q))
    (hp : (t.pc p).holds = true ↔ t.lock = some p) (q : Pid) :
    (t.pc q).holds = true ↔ t.lock = some q := by
  by_cases hq : q = p
  · rw [hq,hp]
  · rw [ho q hq,hl q hq]
    exact h.lock q

lemma of_same (hl : ∀ p, (t.pc p).holds = true ↔ t.lock = some p)
    (hb : ∀ p c, (t.pc p).call? = some c → t.buflock c.b = some p)
    (hc : ∀ p, (t.pc p).chain? = (s.pc p).chain?)
    (hfm : ∀ p, (t.pc p).formatted = true → (s.pc p).formatted = true)
    (hf : t.disk.free = s.disk.free)
    (hd : ∀ i, s.disk.free i = false → s.disk.Same t.disk i) : Chains t := by
  constructor
  case lock => exact hl
  case bufs => exact hb
  case chain => simpa only [hc,hf] using h.chain
  case apart => simpa only [hc] using h.apart
  case cover => simpa only [hc,hf] using h.cover
  case format =>
    intro p c x hx hp
    rw [hc] at hx
    exact (h.format p c x hx (hfm p hp)).congr fun i hi => hd i ((h.chain p c x hx).2 i hi).2

lemma bufs_goto (hr : r.call? = (s.pc p).call?) (q : Pid) (c : Call)
    (hq : (update s.pc p r q).call? = some c) : s.buflock c.b = some q := by
  by_cases hqp : q = p
  · rw [hqp,update_self,hr] at hq
    exact hqp ▸ h.bufs p c hq
  · rw [update_of_ne hqp] at hq
    exact h.bufs q c hq

lemma lock_goto (hp : s.lock = some p) (hr : r.holds = true) (q : Pid) :
    (update s.pc p r q).holds = true ↔ s.lock = some q :=
  h.lock_of (p := p) (t := s.goto p r) (fun q hq => by simp [goto,hq]) (fun _ _ => Iff.rfl)
    (by simp [goto,hp,hr]) q

/-- Thread `p` moves on with the same call and the same descriptors; it may take or give back the
lock. -/
lemma move (hpc : t.pc = update s.pc p r) (hl : ∀ q, q ≠ p → (t.lock = some q ↔ s.lock = some q))
    (hp : r.holds = true ↔ t.lock = some p) (hb : t.buflock = s.buflock)
    (hcall : r.call? = (s.pc p).call? ∨ r.call? = none) (hchain : r.chain? = (s.pc p).chain?)
    (hfm : r.formatted = true → (s.pc p).formatted = true) (hf : t.disk.free = s.disk.free)
    (hd : ∀ i, s.disk.free i = false → s.disk.Same t.disk i) : Chains t := by
  have hself : t.pc p = r := by rw [hpc,update_self]
  have hother : ∀ q, q ≠ p → t.pc q = s.pc q := fun q hq => by
    rw [hpc,update_of_ne hq]
  refine h.of_same (h.lock_of (fun q hq => by rw [hother q hq]) hl (by rw [hself,hp])) ?_ ?_ ?_ hf hd
  · intro q c hq
    rw [hb]
    by_cases hqp : q = p
    · rw [hqp,hself] at hq
      obtain hcall | hcall := hcall
      · exact hqp ▸ h.bufs p c (hcall ▸ hq)
      · rw [hcall] at hq
        cases hq
    · exact h.bufs q c (hother q hqp ▸ hq)
  · intro q
    by_cases hqp : q = p
    · rw [hqp,hself,hchain]
    · rw [hother q hqp]
  · intro q
    by_cases hqp : q = p
    · rw [hqp,hself]
      exact hfm
    · rw [hother q hqp]
      exact id

lemma wakeFree : Chains s.wakeFree :=
  h.of_same (t := s.wakeFree) (fun p => by simpa [Sys.wakeFree] using h.lock p)
    (fun p c => by simpa [Sys.wakeFree] using h.bufs p c) (fun p => by simp [Sys.wakeFree])
    (fun p => by simp [Sys.wakeFree]) rfl (fun _ _ => ⟨rfl,rfl,rfl⟩)

lemma wakeBuf (b : ℕ) : Chains (s.wakeBuf b) :=
  h.of_same (t := s.wakeBuf b) (fun p => by simpa [Sys.wakeBuf] using h.lock p)
    (fun p c => by simpa [Sys.wakeBuf] using h.bufs p c) (fun p => by simp [Sys.wakeBuf])
    (fun p => by simp [Sys.wakeBuf]) rfl (fun _ _ => ⟨rfl,rfl,rfl⟩)

lemma not_mem {c' : Call} {x' : Idx} (hne : q ≠ p)
    (hq : (s.pc q).chain? = some (c',x')) (hp : (s.pc p).chain? = some (c,x)) {i : ℕ}
    (hi : i ∈ x'.list) : i ∉ x.list := h.apart q p c' x' c x hne hq hp i hi

lemma alloc (hc : s.pc p = .alloc c) (ht : alloc3Desc s = (some x,t)) :
    Chains (t.goto p (.format c x)) := by
  obtain ⟨hnodup,hfree,rfl⟩ := alloc3Desc_some ht
  have hlock : s.lock = some p := (h.lock p).mp (by rw [hc]; rfl)
  have hother : ∀ q c' x', q ≠ p →
      (update s.pc p (.format c x) q).chain? = some (c',x') →
      (s.pc q).chain? = some (c',x') := by
    intro q c' x' hq hx
    rwa [update_of_ne hq] at hx
  have hnone : (s.pc p).chain? = none := by rw [hc]; rfl
  have hold : ∀ q c' x', (s.pc q).chain? = some (c',x') → ∀ i ∈ x'.list, i ∉ x.list := by
    intro q c' x' hq i hi hix
    have := ((h.chain q c' x' hq).2 i hi).2
    rw [(hfree i hix).2] at this
    cases this
  constructor
  case lock => exact h.lock_goto hlock rfl
  case bufs => exact h.bufs_goto (by rw [hc]; rfl)
  case chain =>
    intro q c' x' hq
    by_cases hqp : q = p
    · subst hqp
      obtain ⟨rfl,rfl⟩ : c = c' ∧ x = x' := by simpa [goto,chain?] using hq
      exact ⟨hnodup,fun i hi => ⟨(hfree i hi).1,by simp [goto,hi]⟩⟩
    · have hs := hother q c' x' hqp hq
      refine ⟨(h.chain q c' x' hs).1,fun i hi => ⟨((h.chain q c' x' hs).2 i hi).1,?_⟩⟩
      simp [goto,((h.chain q c' x' hs).2 i hi).2]
  case apart =>
    intro q r c₁ x₁ c₂ x₂ hqr h₁ h₂ i hi
    by_cases hqp : q = p
    · subst hqp
      obtain ⟨rfl,rfl⟩ : c = c₁ ∧ x = x₁ := by simpa [goto,chain?] using h₁
      exact fun hi' => hold r c₂ x₂ (hother r c₂ x₂ (Ne.symm hqr) h₂) i hi' hi
    · have hs := hother q c₁ x₁ hqp h₁
      by_cases hrp : r = p
      · subst hrp
        obtain ⟨rfl,rfl⟩ : c = c₂ ∧ x = x₂ := by simpa [goto,chain?] using h₂
        exact hold q c₁ x₁ hs i hi
      · exact h.apart q r c₁ x₁ c₂ x₂ hqr hs (hother r c₂ x₂ hrp h₂) i hi
  case cover =>
    intro i hi hfi
    by_cases hix : i ∈ x.list
    · exact ⟨p,c,x,by simp [goto,chain?],hix⟩
    · obtain ⟨q,c',x',hq,hmem⟩ := h.cover i hi (by simpa [goto,hix] using hfi)
      have hqp : q ≠ p := by
        rintro rfl
        rw [hnone] at hq
        cases hq
      exact ⟨q,c',x',by simpa [goto,hqp] using hq,hmem⟩
  case format =>
    intro q c' x' hq hfm
    have hqp : q ≠ p := by
      rintro rfl
      simp [goto,formatted] at hfm
    exact (h.format q c' x' (hother q c' x' hqp hq) (by simpa [goto,hqp] using hfm)).congr
      fun _ _ => ⟨rfl,rfl,rfl⟩

lemma alloc_fail (hc : s.pc p = .alloc c) (ht : alloc3Desc s = (none,t)) :
    Chains (t.release.goto p (.sleepFree c)) := by
  obtain ⟨-,desc,pc,rfl,hdesc,hpc⟩ := alloc3Desc_none ht
  have hlock : s.lock = some p := (h.lock p).mp (by rw [hc]; rfl)
  have hs : Chains { s with pc := pc, disk := { s.disk with desc := desc } } := by
    have hs' : Chains { s with disk := { s.disk with desc := desc } } :=
      h.of_same h.lock h.bufs (fun _ => rfl) (fun _ => id) rfl
        (fun i hi => ⟨hdesc i hi,rfl,rfl⟩)
    obtain rfl | rfl := hpc
    · exact hs'
    · exact hs'.wakeFree
  have hpcp : pc p = .alloc c := by
    obtain rfl | rfl := hpc
    · exact hc
    · simp [hc,Pc.wakeFree]
  refine hs.move rfl ?_ (by simp [holds,release,goto]) rfl (.inl ?_) ?_ (by simp [formatted])
    rfl (fun _ _ => ⟨rfl,rfl,rfl⟩)
  · intro q hq
    simp [goto,release,hlock,Ne.symm hq]
  · simp [hpcp,call?]
  · simp [hpcp,chain?]

lemma formatted (hc : s.pc p = .format c x) (bdisk : ℕ → Bool) :
    Chains ({ s with disk := formatDisk s.disk c x, bdisk := bdisk }.goto p (.ring c x)) := by
  have hlock : s.lock = some p := (h.lock p).mp (by rw [hc]; rfl)
  have hpc : (s.pc p).chain? = some (c,x) := by rw [hc]; rfl
  obtain ⟨hnodup,-⟩ := h.chain p c x hpc
  have hchain : ∀ q, (update s.pc p (.ring c x) q).chain? = (s.pc q).chain? := by
    intro q
    by_cases hq : q = p
    · rw [hq,update_self,hpc]
      rfl
    · rw [update_of_ne hq]
  constructor
  case lock => exact h.lock_goto hlock rfl
  case bufs => exact h.bufs_goto (by rw [hc]; rfl)
  case chain =>
    intro q c' x' hq
    exact h.chain q c' x' ((hchain q).symm.trans hq)
  case apart =>
    intro q r c₁ x₁ c₂ x₂ hqr h₁ h₂
    exact h.apart q r c₁ x₁ c₂ x₂ hqr ((hchain q).symm.trans h₁) ((hchain r).symm.trans h₂)
  case cover =>
    intro i hi hfi
    obtain ⟨q,c',x',hq,hmem⟩ := h.cover i hi hfi
    exact ⟨q,c',x',(hchain q).trans hq,hmem⟩
  case format =>
    intro q c' x' hq hfm
    by_cases hqp : q = p
    · subst hqp
      obtain ⟨rfl,rfl⟩ : c = c' ∧ x = x' := by simpa [goto,chain?] using hq
      simp only [Idx.list,nodup_cons,mem_cons,not_mem_nil,or_false,not_or,
        not_false_eq_true,nodup_nil,and_true] at hnodup
      obtain ⟨⟨h01,h02⟩,h12⟩ := hnodup
      constructor <;> simp [goto,formatDisk,h01,h02,h12]
    · have hs := (hchain q).symm.trans hq
      refine (h.format q c' x' hs (by simpa [goto,hqp] using hfm)).congr fun i hi => ?_
      obtain ⟨h₀,h₁,h₂⟩ : i ≠ x.i0 ∧ i ≠ x.i1 ∧ i ≠ x.i2 := by
        simpa [Idx.list] using h.not_mem hqp hs hpc hi
      constructor <;> simp [goto,formatDisk,h₀,h₁,h₂]

lemma finish {k : ℕ} {info : ℕ → Info} {phase : ℕ → Phase}
    (hc : s.pc p = .test c x k) (hinfo : ∀ i, i ≠ x.i0 → info i = s.disk.info i) : Chains ({ s with
      pc := fun p => (s.pc p).wakeFree
      phase := phase
      disk := { s.disk with
        info := info
        desc := fun i => if i ∈ x.list then .zero else s.disk.desc i
        free := fun i => if i ∈ x.list then true else s.disk.free i } }.release.goto p .out) := by
  have hlock : s.lock = some p := (h.lock p).mp (by rw [hc]; rfl)
  have hpc : (s.pc p).chain? = some (c,x) := by rw [hc]; rfl
  have hother : ∀ q c' x', (update (fun p => (s.pc p).wakeFree) p .out q).chain? =
      some (c',x') → q ≠ p ∧ (s.pc q).chain? = some (c',x') := by
    intro q c' x' hq
    by_cases hqp : q = p
    · simp [hqp,chain?] at hq
    · exact ⟨hqp,by simpa [hqp] using hq⟩
  constructor
  case lock =>
    refine h.lock_of (p := p) ?_ ?_ ?_
    · intro q hq
      simp [goto,hq,release]
    · intro q hq
      simp [goto,release,hlock,Ne.symm hq]
    · simp [goto,release,holds]
  case bufs =>
    intro q c' hq
    by_cases hqp : q = p
    · simp [hqp,goto,call?] at hq
    · exact h.bufs q c' (by simpa [goto,release,hqp] using hq)
  case chain =>
    intro q c' x' hq
    obtain ⟨hqp,hs⟩ := hother q c' x' hq
    refine ⟨(h.chain q c' x' hs).1,fun i hi => ⟨((h.chain q c' x' hs).2 i hi).1,?_⟩⟩
    simp [goto,release,h.not_mem hqp hs hpc hi,((h.chain q c' x' hs).2 i hi).2]
  case apart =>
    intro q r c₁ x₁ c₂ x₂ hqr h₁ h₂
    exact h.apart q r c₁ x₁ c₂ x₂ hqr (hother q c₁ x₁ h₁).2 (hother r c₂ x₂ h₂).2
  case cover =>
    intro i hi hfi
    have hix : i ∉ x.list := by
      intro hix
      simp [goto,release,hix] at hfi
    obtain ⟨q,c',x',hq,hmem⟩ := h.cover i hi (by simpa [goto,release,hix] using hfi)
    have hqp : q ≠ p := by
      rintro rfl
      obtain ⟨rfl,rfl⟩ : c = c' ∧ x = x' := by simpa [hpc] using hq
      exact hix hmem
    exact ⟨q,c',x',by simpa [goto,release,hqp] using hq,hmem⟩
  case format =>
    intro q c' x' hq hfm
    obtain ⟨hqp,hs⟩ := hother q c' x' hq
    refine (h.format q c' x' hs (by simpa [goto,release,hqp] using hfm)).congr fun i hi => ?_
    have hix := h.not_mem hqp hs hpc hi
    exact ⟨by simp [goto,release,hix],rfl,by simp [goto,release,hinfo i fun he => hix (by simp [he,Idx.list])]⟩

end Chains
end Xv6.Virtio
