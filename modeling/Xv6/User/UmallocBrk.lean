import Xv6.User.UmallocSound
import Xv6.Vm.Machine

/-! The allocator on top of the system call: `morecore` passes its request to `sbrk(int)`, and
`growproc` decides what memory there is. -/
namespace Xv6.Umalloc
open Lib List
open Vm (toInt addInt PGROUNDUP KERNBASE PHYSTOP)

/-- The physical memory; every page of a process takes one of its pages. -/
def RAM : ℕ := PHYSTOP-KERNBASE

lemma RAM_eq : RAM = 2^27 := by
  norm_num [RAM]

/-- A program with the size that `exec` gave its memory. -/
structure Process extends Program where
  start : ℕ
  base_le : base+HEADER ≤ start
  start_le : start ≤ RAM

/-- The state of the program, with the size of its memory. -/
structure Task extends State where
  sz : ℕ

/-- `sys_sbrk`: its answer and the new size. To grow, `uvmalloc` needs pages (`ok`). -/
def sbrk (ok : Bool) (sz : ℕ) (n : ℤ) : Option ℕ×ℕ :=
  if 0 < n then
    if ok ∧ addInt sz n ≤ RAM then (some sz,addInt sz n) else (none,sz)
  else if n < 0 then
    -- uvmdealloc
    (some sz,if addInt sz n ≥ sz then sz else addInt sz n)
  else (some sz,sz)

/-- What `morecore` passes to `sbrk`. -/
def sbrkArg (nu : ℕ) : ℤ := toInt (HEADER*coreUnits nu)

/-- The system call as `morecore` sees it: the state is the size of the memory, and for each further
call whether it finds pages. The header is written up to the end of its size field. -/
def kernel : Kernel (ℕ×List Bool) where
  sbrk x n :=
    let r := sbrk (x.2.headD false) x.1 (toInt n)
    (r.1,r.2,x.2.tail)
  mapped x hp := hp+12 ≤ PGROUNDUP x.1

section
variable (P : Process)

inductive Call
  | malloc (nbytes : ℕ) (oks : List Bool)
  | free (ap : ℕ)
  | write (a : ℕ) (v : UInt8)

def taskStep (s : Task) : Call → Option Task
  | .malloc nbytes oks => do
    let (h,p,sz,_) ← malloc P.toProgram kernel s.heap.rounds s.heap nbytes (s.sz,oks)
    return { heap := h, live := if p = 0 then s.live else (p,nbytes)::s.live, sz := sz }
  | .free ap => do
    let t ← step P.toProgram s.toState (.free ap)
    return { s with toState := t }
  | .write a v => do
    let t ← step P.toProgram s.toState (.write a v)
    return { s with toState := t }

def boot (mem : ℕ → UInt8) : Task := { init mem with sz := P.start }

/-- The request in bytes is a positive `int`, or it is the largest one, of 2^28+1 units, which is passed
on as 16, and `sbrk(16)` fails. -/
def Served (s : Task) (nbytes : ℕ) (oks : List Bool) : Prop :=
  HEADER*nunits nbytes < 2^31 ∨
    2^32 < HEADER*nunits nbytes ∧ (sbrk (oks.headD false) s.sz 16).1 = none

/-- The program makes such requests, frees what it was given and writes where it may. -/
def Meets (s : Task) : Call → Prop
  | .malloc nbytes oks => nbytes < 2^32 ∧ Served s nbytes oks
  | .free ap => ∃ n, (ap,n) ∈ s.live
  | .write a _ => ∃ x ∈ s.live, x.1 ≤ a ∧ a < x.1+x.2

/-- `malloc(nbytes)` returns. If it has written a new header, `sbrk` was asked for as much as that
says. It returns 0, and only if `sbrk` fails, or a block with room for `nbytes` in the memory that
`sbrk` gave. -/
def Honours (s : Task) (nbytes : ℕ) (oks : List Bool) : Prop :=
  ∃ h p x, malloc P.toProgram kernel s.heap.rounds s.heap nbytes (s.sz,oks) = some (h,p,x) ∧
    (∀ c, h.cores = c::s.heap.cores → ((HEADER*c.2 : ℕ) : ℤ) ≤ sbrkArg (nunits nbytes)) ∧
    (p = 0 ∧ (sbrk (oks.headD false) s.sz (sbrkArg (nunits nbytes))).1 = none ∨
      P.start+HEADER ≤ p ∧ HEADER+nbytes ≤ HEADER*h.size (p-HEADER) ∧
        p-HEADER+HEADER*h.size (p-HEADER) ≤ x.1)

/-- `malloc(nbytes)` ends the process by a page fault, or returns a block that goes on beyond the end
of the memory. -/
def Exceeds (s : Task) (nbytes : ℕ) (oks : List Bool) : Prop :=
  ∀ r, malloc P.toProgram kernel s.heap.rounds s.heap nbytes (s.sz,oks) = some r →
    r.2.1 ≠ 0 ∧ r.2.2.1 < r.2.1-HEADER+HEADER*r.1.size (r.2.1-HEADER)

end

/-! ### The request as an int -/

lemma toInt_eq {x : ℕ} (h : x < 2^31) : toInt x = x :=
  Int.bmod_eq_of_le (by norm_num) (by norm_num; omega)

section
variable {P : Process} {h h' : Heap} {s : Task} {sz nu n u : ℕ} {oks : List Bool}

lemma toInt_nonpos {x : ℕ} (h : 2^31 ≤ x) (h' : x ≤ 2^32) : toInt x ≤ 0 := by
  have hb : toInt x = _ := Int.bmod_def x (2^32)
  push_cast at hb
  generalize toInt x = y at hb ⊢
  split_ifs at hb <;> omega

lemma toInt_huge (h : 2^32 < HEADER*u) (h' : HEADER*u ≤ 2^32+HEADER) : toInt (HEADER*u) = 16 := by
  obtain rfl : u = 268435457 := by
    simp only [HEADER] at h h'
    omega
  decide

lemma nunits_le {b : ℕ} (hb : b < 2^32) : HEADER*nunits b ≤ 2^32+HEADER := by
  rw [nunits_eq hb]
  simp only [HEADER]
  omega

lemma coreUnits_lt (h : HEADER*nu < 2^31) : HEADER*coreUnits nu < 2^31 := by
  simp only [coreUnits,HEADER] at h ⊢
  split <;> omega

/-- A request that is a positive `int`: the memory grows by as much, or `sbrk` fails. -/
lemma sbrk_grows (ok : Bool) {x : ℕ} (hsz : sz ≤ RAM) (h0 : 0 < x) (hx : x < 2^31) :
    sbrk ok sz (toInt x) = (none,sz) ∨ sz+x ≤ RAM ∧ sbrk ok sz (toInt x) = (some sz,sz+x) := by
  have hadd : addInt sz x = sz+x := by
    rw [RAM_eq] at hsz
    rw [addInt]
    omega
  rw [toInt_eq hx,sbrk,if_pos (by omega),hadd]
  split_ifs with h
  · exact .inr ⟨h.2,rfl⟩
  · exact .inl rfl

/-- A request that is not: `sbrk` succeeds, and the memory does not grow by more than 16 bytes. -/
lemma sbrk_huge {ok : Bool} (hsz : sz ≤ RAM) (hu : 2^31 ≤ HEADER*u) (hu' : HEADER*u ≤ 2^32+HEADER)
    (hs : 2^32 < HEADER*u → (sbrk ok sz 16).1 ≠ none) :
    ∃ sz' ≤ RAM, sbrk ok sz (toInt (HEADER*u)) = (some sz,sz') := by
  by_cases he : 2^32 < HEADER*u
  · have hs := hs he
    rw [toInt_huge he hu']
    rw [sbrk,if_pos (by norm_num)] at hs ⊢
    split_ifs at hs ⊢ with hok
    · exact ⟨_,hok.2,rfl⟩
    · exact absurd rfl hs
  · have hle : toInt (HEADER*u) ≤ 0 := toInt_nonpos hu (Nat.not_lt.mp he)
    rw [sbrk,if_neg hle.not_gt]
    split_ifs with hneg hge
    · exact ⟨sz,hsz,rfl⟩
    · exact ⟨_,(Nat.le_of_lt (Nat.not_le.mp hge)).trans hsz,rfl⟩
    · exact ⟨sz,hsz,rfl⟩

lemma kernel_sbrk {p : Option ℕ} {sz' : ℕ}
    (h : sbrk (oks.headD false) sz (toInt n) = (p,sz')) :
    kernel.sbrk (sz,oks) n = (p,sz',oks.tail) := by
  show ((sbrk (oks.headD false) sz (toInt n)).1,(sbrk (oks.headD false) sz (toInt n)).2,_) = _
  rw [h]

/-! ### The memory of the process -/

/-- The memory obtained lies between the start and the end, and there is no more of it. -/
structure Brk (P : Process) (h : Heap) (sz : ℕ) : Prop where
  start_le : P.start ≤ sz
  le : sz ≤ RAM
  cores : ∀ c ∈ h.cores, P.start ≤ c.1 ∧ c.1+HEADER*c.2 ≤ sz
  units : HEADER*h.units ≤ sz

namespace Brk
variable (B : Brk P h sz)
include B

lemma top_le : top P.toProgram h.cores ≤ sz := by
  have hc := B.cores
  cases hcores : h.cores with
  | nil => exact P.base_le.trans B.start_le
  | cons c cs =>
    rw [hcores] at hc
    exact (hc c mem_cons_self).2

lemma congr (hc : h'.cores = h.cores) : Brk P h' sz := by
  refine ⟨B.start_le,B.le,?_,?_⟩
  · rw [hc]
    exact B.cores
  · rw [units_congr hc]
    exact B.units

lemma grow (hle : sz+HEADER*u ≤ RAM) (hc : h'.cores = (sz,u)::h.cores) :
    Brk P h' (sz+HEADER*u) := by
  refine ⟨B.start_le.trans (Nat.le_add_right _ _),hle,?_,?_⟩
  · rw [hc]
    refine forall_mem_cons.mpr ⟨⟨B.start_le,le_rfl⟩,fun c hcm => ?_⟩
    exact ⟨(B.cores c hcm).1,(B.cores c hcm).2.trans (Nat.le_add_right _ _)⟩
  · have := B.units
    rw [Heap.units] at this
    rw [Heap.units,hc,map_cons,sum_cons,Nat.mul_add,Nat.add_comm sz]
    exact Nat.add_le_add_left this _

lemma units_le : h.units ≤ 2^23 := by
  have h₁ := B.units
  have h₂ := B.le
  rw [RAM_eq] at h₂
  simp only [HEADER] at h₁
  omega

omit B in
lemma block {s : State} {l : List (ℕ×ℕ)} {c b : ℕ} (B : Brk P s.heap sz) (I : Inv P.toProgram s l)
    (hy : (c+HEADER,b) ∈ s.live) : P.start ≤ c ∧ c+HEADER*s.heap.size c ≤ sz := by
  have hhead : header (c+HEADER,b) = c := Nat.add_sub_cancel _ _
  have hu := (I.usable _ hy).2
  have hob : ∀ x, s.heap.Block c x → s.heap.Obtained x := fun x hx =>
    I.divides.covers x ⟨_,mem_append_right _ (mem_used hy),by rwa [hhead]⟩
  rw [hhead] at hu
  have hcore {x : ℕ} (hx : s.heap.Obtained x) : P.start ≤ x ∧ x < sz := by
    obtain ⟨c,hc,hcx⟩ := hx
    have := B.cores c hc
    exact ⟨this.1.trans hcx.1,hcx.2.trans_le this.2⟩
  have hfirst := hcore (hob c ⟨le_rfl,by simp only [HEADER] at hu ⊢; omega⟩)
  have hlast := hcore (hob (c+HEADER*s.heap.size c-1)
    ⟨by simp only [HEADER] at hu ⊢; omega,by simp only [HEADER] at hu ⊢; omega⟩)
  exact ⟨hfirst.1,by omega⟩

end Brk

/-! ### Runs -/

/-- What holds before and after every call. -/
def Task.Good (P : Process) (s : Task) : Prop :=
  Umalloc.Good P.toProgram s.toState ∧ Brk P s.heap s.sz

namespace Task.Good

/-- A request that is served: the call returns as it should, and the heap stays in order. -/
lemma malloc (g : s.Good P) {b : ℕ} (hb : b < 2^32) (hs : Served s b oks) :
    Honours P s b oks ∧ ∃ t, taskStep P s (.malloc b oks) = some t ∧ t.Good P := by
  obtain ⟨l,I,hn,hcores⟩ := g.1.ready
  have B : Brk P (ready P.toProgram s.heap) s.sz := g.2.congr hcores
  have hu := nunits_eq hb
  have hu0 : 0 < nunits b := by omega
  have hroom : HEADER+b ≤ HEADER*nunits b := by
    simp only [HEADER]
    omega
  have hmax := nunits_le hb
  have hdone {h' : Heap} {c sz' : ℕ} {oks' : List Bool} {l' : List (ℕ×ℕ)}
      (hr : Umalloc.malloc P.toProgram kernel s.heap.rounds s.heap b (s.sz,oks) =
        some (h',c+HEADER,sz',oks'))
      (hc : ∀ c, h'.cores = c::s.heap.cores → ((HEADER*c.2 : ℕ) : ℤ) ≤ sbrkArg (nunits b))
      (I' : Inv P.toProgram { heap := h', live := (c+HEADER,b)::s.live } l')
      (B' : Brk P h' sz') :
      Honours P s b oks ∧ ∃ t, taskStep P s (.malloc b oks) = some t ∧ t.Good P := by
    have hblock := Brk.block (s := { heap := h', live := (c+HEADER,b)::s.live }) B' I' mem_cons_self
    have huse := (I'.usable _ mem_cons_self).2
    rw [show header (c+HEADER,b) = c from Nat.add_sub_cancel _ _] at huse
    refine ⟨⟨h',_,_,hr,hc,.inr ?_⟩,{ heap := h', live := (c+HEADER,b)::s.live, sz := sz' },?_,
      .inr ⟨l',I'⟩,B'⟩
    · rw [Nat.add_sub_cancel]
      exact ⟨Nat.add_le_add_right hblock.1 _,huse,hblock.2⟩
    · rw [taskStep,hr]
      simp [HEADER]
  have hself {h' : Heap} (hc : h'.cores = s.heap.cores) (c : ℕ×ℕ)
      (he : h'.cores = c::s.heap.cores) : ((HEADER*c.2 : ℕ) : ℤ) ≤ sbrkArg (nunits b) :=
    absurd (he.symm.trans hc) (List.cons_ne_self _ _)
  by_cases hx : ∃ a ∈ l, nunits b ≤ a.2
  · obtain ⟨h',c,l',hr,hc,-,I'⟩ := I.malloc_found (K := kernel) (w := (s.sz,oks))
      (n := s.heap.rounds) hx hu0 hroom (show l.length ≤ s.heap.rounds by omega)
    exact hdone hr (hself (hc.trans hcores)) I' (B.congr hc)
  simp only [not_exists,not_and,not_le] at hx
  -- `sbrk` fails, or gives what it was asked for
  have hcases : sbrk (oks.headD false) s.sz (sbrkArg (nunits b)) = (none,s.sz) ∨
      HEADER*coreUnits (nunits b) < 2^31 ∧ s.sz+HEADER*coreUnits (nunits b) ≤ RAM ∧
        sbrk (oks.headD false) s.sz (sbrkArg (nunits b)) =
          (some s.sz,s.sz+HEADER*coreUnits (nunits b)) := by
    have hle := le_coreUnits (nunits b)
    rcases hs with hint | ⟨he,hnone⟩
    · have hlt := coreUnits_lt hint
      exact (sbrk_grows _ B.le (by simp only [HEADER]; omega) hlt).imp id fun h => ⟨hlt,h⟩
    · rw [sbrkArg,show coreUnits (nunits b) = nunits b from if_neg (by
        simp only [HEADER] at he
        omega),toInt_huge he hmax]
      rw [sbrk,if_pos (by norm_num)] at hnone ⊢
      split_ifs at hnone ⊢
      exact .inl rfl
  rcases hcases with hnone | ⟨hlt,hle,hsome⟩
  · have hr := I.malloc_none (K := kernel) hx hn (kernel_sbrk hnone)
    refine ⟨⟨_,_,_,hr,hself hcores,.inl ⟨rfl,by rw [hnone]⟩⟩,
      { heap := ready P.toProgram s.heap, live := s.live, sz := s.sz },?_,.inr ⟨l,I⟩,B⟩
    rw [taskStep,Umalloc.malloc,hr]
    rfl
  · have hpage : s.sz+12 ≤ PGROUNDUP (s.sz+HEADER*coreUnits (nunits b)) := by
      have := le_coreUnits (nunits b)
      rw [RAM_eq] at hle
      simp only [PGROUNDUP,Vm.u64,Vm.PGSIZE,HEADER] at hle ⊢
      omega
    have hunits := B.units_le
    obtain ⟨h',c,l',hr,hc,-,I'⟩ := I.malloc_grow (K := kernel) hx hn (kernel_sbrk hsome)
      (decide_eq_true hpage) B.top_le
      (by rw [RAM_eq] at hle; omega) (by simp only [HEADER] at hlt; dsimp only; omega) hu0 hroom
    refine hdone hr (fun d hd => ?_) I' (B.grow hle hc)
    rw [hc] at hd
    rw [← (List.cons.inj hd).1,sbrkArg,toInt_eq hlt]

lemma exceeds (g : s.Good P) {b : ℕ} (hb : b < 2^32) (hs : ¬Served s b oks) : Exceeds P s b oks := by
  obtain ⟨l,I,hn,hcores⟩ := g.1.ready
  have B : Brk P (ready P.toProgram s.heap) s.sz := g.2.congr hcores
  have hu := nunits_eq hb
  simp only [Served,not_or,not_and,not_lt] at hs
  have hge : 2^27 ≤ nunits b := by
    have := hs.1
    simp only [HEADER] at this
    omega
  have hmax : nunits b ≤ 2^29 := by omega
  have hcu : coreUnits (nunits b) = nunits b := by
    rw [coreUnits,if_neg (by omega)]
  have hunits := B.units_le
  have hx : ∀ a ∈ l, a.2 < nunits b := fun a ha => by
    have h₁ : a.2 ≤ total l := le_sum_of_mem (mem_map_of_mem ha)
    have h₂ := I.total_le
    dsimp only at h₂
    omega
  obtain ⟨sz',hsz',hsbrk⟩ := sbrk_huge B.le hs.1 (nunits_le hb) hs.2
  rw [← hcu] at hsbrk
  have hK := kernel_sbrk hsbrk
  intro r hr
  have hle := B.le
  rw [RAM_eq] at hle hsz'
  cases hm : kernel.mapped (sz',oks.tail) s.sz with
  | false =>
    rw [Umalloc.malloc,I.malloc_fault (K := kernel) hx hn hK hm] at hr
    cases hr
  | true =>
    obtain ⟨h',c,l',hr',-,hsize,-⟩ := I.malloc_grow (K := kernel) (b := b) hx hn hK hm B.top_le
      (by rw [hcu]; simp only [HEADER]; omega) (by dsimp only; omega) (by omega)
      (by simp only [HEADER]; omega)
    rw [Umalloc.malloc,hr'] at hr
    cases hr
    refine ⟨by simp [HEADER],?_⟩
    rw [Nat.add_sub_cancel,hsize]
    simp only [HEADER]
    omega

lemma step {e : Call} (g : s.Good P) (hm : Meets s e) : ∃ t, taskStep P s e = some t ∧ t.Good P := by
  cases e with
  | malloc b oks => exact (g.malloc hm.1 hm.2).2
  | free ap =>
    obtain ⟨t,ht,g'⟩ := g.1.step (e := .free ap) hm trivial
    have hcores : t.heap.cores = s.heap.cores := by
      obtain ⟨b,hb⟩ := hm
      obtain ⟨-,-,hl⟩ | ⟨l,I⟩ := g.1
      · rw [hl] at hb
        cases hb
      have hlen := I.length_le
      obtain ⟨h',-,hr,hc,-⟩ := I.free_run hb (show l.length ≤ s.heap.rounds by
        rw [Heap.rounds]
        omega)
      rw [Umalloc.step,hr] at ht
      cases ht
      exact hc
    refine ⟨{ s with toState := t },?_,g',g.2.congr hcores⟩
    rw [taskStep,ht]
    rfl
  | write a v =>
    obtain ⟨t,ht,g'⟩ := g.1.step (e := .write a v) hm trivial
    obtain rfl := Option.some.inj ht
    exact ⟨_,rfl,g',g.2.congr rfl⟩

end Task.Good

lemma boot_good (mem : ℕ → UInt8) : (boot P mem).Good P := by
  refine ⟨.inl ⟨rfl,rfl,rfl⟩,le_rfl,P.start_le,nofun,?_⟩
  exact Nat.zero_le _

lemma runs_good {mem : ℕ → UInt8} {es : List Call}
    (hr : Runs (taskStep P) Meets (boot P mem) es s) : s.Good P :=
  hr.invariant (I := Task.Good P) (fun s e t hs hc he => by
    obtain ⟨t',ht,g⟩ := hs.step hc
    rw [he] at ht
    exact Option.some_inj.mp ht ▸ g) (boot_good mem)

/-- With the `sbrk` of this kernel the heap is sound in every state reached: it cannot give more units
than the physical memory has, far fewer than 2^32. -/
theorem task_heap_sound {mem : ℕ → UInt8} {es : List Call}
    (hr : Runs (taskStep P) Meets (boot P mem) es s) :
    s.heap.units ≤ 2^23 ∧ (Empty s.toState ∨ ∃ u v, Sound P.toProgram s.toState u v) := by
  have g := runs_good hr
  exact ⟨g.2.units_le,g.1.imp id fun ⟨l,I⟩ => I.sound⟩

end

/-- After any calls whose requests were served, `malloc` honours a request if and only if it is served:
otherwise the process ends, or has a block that it was not given memory for. -/
theorem malloc_honours_iff (P : Process) (mem : ℕ → UInt8) (es : List Call) (s : Task)
    (hr : Runs (taskStep P) Meets (boot P mem) es s) (nbytes : ℕ) (hn : nbytes < 2^32)
    (oks : List Bool) : (Honours P s nbytes oks ↔ Served s nbytes oks) ∧
      (¬Served s nbytes oks → Exceeds P s nbytes oks) := by
  have g := runs_good hr
  refine ⟨⟨fun hon => by_contra fun hs => ?_,fun hs => (g.malloc hn hs).1⟩,g.exceeds hn⟩
  obtain ⟨h,p,x,hm,-,⟨rfl,-⟩ | ⟨-,-,hle⟩⟩ := hon
  · exact (g.exceeds hn hs _ hm).1 rfl
  · exact absurd hle (Nat.not_le.mpr (g.exceeds hn hs _ hm).2)

/-- A process with three pages of memory, whose `base` is in the first. -/
def small : Process :=
  { base := 64, base_pos := by decide, base_lt := by decide, start := 3*4096
    base_le := by decide, start_le := by decide }

instance (s : Task) (nbytes : ℕ) (oks : List Bool) : Decidable (Served s nbytes oks) :=
  inferInstanceAs (Decidable (_ ∨ _))

instance (s : Task) : ∀ e, Decidable (Meets s e)
  | .malloc nbytes oks => inferInstanceAs (Decidable (nbytes < 2^32 ∧ Served s nbytes oks))
  | .free ap => decidable_of_iff (∃ y ∈ s.live, y.1 = ap)
      ⟨fun ⟨y,hy,he⟩ => ⟨y.2,he ▸ hy⟩,fun ⟨n,hn⟩ => ⟨(ap,n),hn,rfl⟩⟩
  | .write a _ => inferInstanceAs (Decidable (∃ x ∈ s.live, x.1 ≤ a ∧ a < x.1+x.2))

/-- The process asks for 4097 units, so that its memory does not end with a page, and for less, which
`sbrk` has to be asked for again; it frees the first block, and the largest request fails. -/
def smallRun : List Call :=
  [.malloc 65536 [true],.malloc 10 [true],.free 12304,.malloc (2^32-1) [false]]

/-- Then it is served, with or without `sbrk`. -/
theorem malloc_honours_small : ∃ s, Runs (taskStep small) Meets (boot small fun _ => 0) smallRun s ∧
    s.live = [(143360,10)] ∧ Honours small s 65000 [] ∧ Honours small s 10000000 [true] := by
  obtain ⟨s,hr,hl⟩ := Runs.exists_of_execIf (taskStep small) Meets (boot small fun _ => 0) smallRun
    (fun s => s.live = [(143360,10)]) (by decide +kernel)
  have h := malloc_honours_iff small _ _ _ hr
  exact ⟨s,hr,hl,(h 65000 (by decide) []).1.mpr (.inl (by decide)),
    (h 10000000 (by decide) [true]).1.mpr (.inl (by decide))⟩

/-- After a request for 4097 units, the end of the memory is not the end of a page. A request for
2^32-1 bytes then passes 16 to `sbrk`, and `malloc` returns a block of 2^28+1 units at the end of the
memory, of which only the header is there. -/
theorem malloc_huge_request : ∃ s h p sz oks,
    taskStep small (boot small fun _ => 0) (.malloc 65536 [true]) = some s ∧
    malloc small.toProgram kernel s.heap.rounds s.heap (2^32-1) (s.sz,[true]) = some (h,p,sz,oks) ∧
    p ≠ 0 ∧ h.size (p-HEADER) = 2^28+1 ∧ p = sz ∧ ¬Honours small s (2^32-1) [true] := by
  have hrun : ((taskStep small (boot small fun _ => 0) (.malloc 65536 [true])).bind fun s =>
      (malloc small.toProgram kernel s.heap.rounds s.heap (2^32-1) (s.sz,[true])).map fun r =>
        (r.2,r.1.size (r.2.1-HEADER))) = some ((77856,77856,[]),2^28+1) := by
    decide +kernel
  obtain ⟨s,hs,hr⟩ := Option.bind_eq_some_iff.mp hrun
  obtain ⟨⟨h,p,sz,oks⟩,hm,he⟩ := Option.map_eq_some_iff.mp hr
  simp only [Prod.mk.injEq] at he
  obtain ⟨⟨rfl,rfl,-⟩,hsize⟩ := he
  refine ⟨s,h,_,_,_,hs,hm,by decide,hsize,rfl,?_⟩
  rintro ⟨h',p',x',hm',-,hp⟩
  cases hm.symm.trans hm'
  rw [hsize] at hp
  obtain ⟨h0,-⟩ | ⟨-,-,hle⟩ := hp
  · exact absurd h0 (by decide)
  · exact absurd (show 77856-HEADER+HEADER*(2^28+1) ≤ 77856 from hle) (by decide)

end Xv6.Umalloc
