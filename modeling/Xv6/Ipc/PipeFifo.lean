import Xv6.Ipc.Pipe
import Xv6.Lib.Ring
import Xv6.Lib.Transition

/-! A pipe is a FIFO for every interleaving of its readers and writers, past any number of
wraparounds of the 32-bit counters. -/
namespace Xv6.Ipc
open Xv6.Lib Sys Pc

/-- The counters and the slots represent the unread part of the ghost history. -/
structure Fifo (s : Sys) : Prop where
  ring : Ring.Holds PIPESIZE (2^32) (fun k => s.pipe.data (slotOf k))
    s.pipe.nread.toNat s.pipe.nwrite.toNat s.put s.got.length
  got_eq : s.got = s.put.take s.got.length

lemma pipesize_dvd : PIPESIZE ∣ 2^32 := by decide
lemma pipesize_lt : PIPESIZE < 2^32 := by decide

lemma slotOf_eq_iff (a b : ℕ) : slotOf a = slotOf b ↔ a%PIPESIZE = b%PIPESIZE := by
  simp [slotOf]

@[simp] lemma slotOf_mod (a : ℕ) : slotOf (a%PIPESIZE) = slotOf a := by simp [slotOf]

lemma succ_toNat (n : UInt32) : (n+1).toNat = (n.toNat+1)%2^32 := by simp

namespace Fifo
variable {s : Sys}

variable (h : Fifo s)
include h

lemma congr {t : Sys} (hp : t.pipe.data = s.pipe.data)
    (hr : t.pipe.nread = s.pipe.nread) (hw : t.pipe.nwrite = s.pipe.nwrite)
    (hput : t.put = s.put) (hgot : t.got = s.got) : Fifo t where
  ring := by rw [hp,hr,hw,hput,hgot]; exact h.ring
  got_eq := by rw [hput,hgot]; exact h.got_eq

theorem empty_iff : s.pipe.nread = s.pipe.nwrite ↔ s.got.length = s.put.length := by
  rw [← UInt32.toNat_inj]
  exact h.ring.empty_iff pipesize_lt

theorem full_iff :
    s.pipe.nwrite = s.pipe.nread+UInt32.ofNat PIPESIZE ↔ s.put.length-s.got.length = PIPESIZE := by
  rw [← UInt32.toNat_inj,UInt32.toNat_add]
  exact h.ring.full_iff pipesize_lt

/-- The wrapped difference of the counters is the number of bytes in flight. -/
theorem distance : (s.pipe.nwrite-s.pipe.nread).toNat = s.put.length-s.got.length := by
  rw [← h.ring.distance pipesize_lt,UInt32.toNat_sub]
  congr 1
  have := s.pipe.nread.toNat_lt
  omega

lemma room_of_not_full (hf : s.pipe.nwrite ≠ s.pipe.nread+UInt32.ofNat PIPESIZE) :
    s.put.length-s.got.length < PIPESIZE :=
  lt_of_le_of_ne h.ring.unread_le (mt h.full_iff.mpr hf)

lemma unread_of_not_empty (he : s.pipe.nread ≠ s.pipe.nwrite) : s.got.length < s.put.length :=
  lt_of_le_of_ne h.ring.taken_le (mt h.empty_iff.mpr he)

lemma store (hf : s.pipe.nwrite ≠ s.pipe.nread+UInt32.ofNat PIPESIZE) (ch : UInt8) :
    Fifo (s.store ch) where
  ring := by
    have hp := h.ring.push pipesize_dvd (h.room_of_not_full hf) ch
    simp only [Sys.store,succ_toNat]
    refine hp.congr fun k => ?_
    by_cases hk : k%PIPESIZE = s.pipe.nwrite.toNat%PIPESIZE
    · rw [hk,Function.update_self,slotOf_mod,Function.update_self]
    · have hs : slotOf (k%PIPESIZE) ≠ slotOf s.pipe.nwrite.toNat := by
        rw [slotOf_mod,Ne,slotOf_eq_iff]
        exact hk
      rw [Function.update_of_ne hk,Function.update_of_ne hs]
  got_eq := by
    have hle := h.ring.taken_le
    simp only [Sys.store]
    rw [List.take_append_of_le_length hle]
    exact h.got_eq

lemma fetch (he : s.pipe.nread ≠ s.pipe.nwrite) : Fifo s.fetch where
  ring := by
    simp only [Sys.fetch,succ_toNat,List.length_append,List.length_singleton]
    exact h.ring.pop (h.unread_of_not_empty he)
  got_eq := by
    have ht := h.ring.take_succ pipesize_dvd (h.unread_of_not_empty he)
    simp only [Sys.fetch,List.length_append,List.length_singleton]
    rw [ht,← h.got_eq,slotOf_mod]
    rfl

end Fifo

/-- The invariant of the whole machine. `copy` is the exit condition of `piperead`'s first
loop, which lasts as long as the reader keeps the lock without having copied a byte. -/
structure Inv (s : Sys) : Prop where
  fifo : Fifo s
  lock : ∀ p, (s.pc p).holds → s.lock = some p
  copy : ∀ p n, s.pc p = .atCopy 0 n → ¬(s.pipe.nread = s.pipe.nwrite ∧ s.pipe.writeopen)
  copied : ∀ p i n, s.pc p = .atCopy i n → 0 ≤ i

lemma wakeRead_holds {q r : Pc} (h : r = q.wakeRead) (hr : r.holds) : r = q := by
  subst h
  cases q <;> simp_all [wakeRead,holds]

lemma wakeWrite_holds {q r : Pc} (h : r = q.wakeWrite) (hr : r.holds) : r = q := by
  subst h
  cases q <;> simp_all [wakeWrite,holds]

lemma holds_wakeRead (q : Pc) : q.wakeRead.holds = q.holds := by cases q <;> rfl
lemma holds_wakeWrite (q : Pc) : q.wakeWrite.holds = q.holds := by cases q <;> rfl

lemma init_inv (page : Fin PIPESIZE → UInt8) (killed : Pid → Bool) : Inv (init page killed) where
  fifo := ⟨Ring.holds_empty _ _ _,rfl⟩
  lock := by simp [init,holds]
  copy := by simp [init]
  copied := by simp [init]

variable {s : Sys}

/-- Every process that holds the lock after a step either moved in it or was there before;
so the facts about lock holders are checked for the moving process `p` alone. -/
lemma Inv.move {t : Sys} (h : Inv s) (p : Pid) (hfifo : Fifo t)
    (hpc : ∀ q, q ≠ p → (t.pc q).holds → t.pc q = s.pc q) (hlock : (t.pc p).holds → t.lock = some p)
    (hkeep : ∀ q, q ≠ p → s.lock = some q →
      t.lock = some q ∧ t.pipe.nread = s.pipe.nread ∧ t.pipe.nwrite = s.pipe.nwrite ∧
        t.pipe.writeopen = s.pipe.writeopen)
    (hcopy : ∀ n, t.pc p = .atCopy 0 n → ¬(t.pipe.nread = t.pipe.nwrite ∧ t.pipe.writeopen))
    (hcopied : ∀ i n, t.pc p = .atCopy i n → 0 ≤ i) : Inv t where
  fifo := hfifo
  lock := by
    intro q hq
    by_cases e : q = p
    · subst e; exact hlock hq
    · have hs := hpc q e hq
      exact (hkeep q e (h.lock q (hs ▸ hq))).1
  copy := by
    intro q n hq
    by_cases e : q = p
    · subst e; exact hcopy n hq
    · have hs := hpc q e (by rw [hq]; rfl)
      have hl := hkeep q e (h.lock q (by rw [← hs,hq]; rfl))
      rw [hl.2.1,hl.2.2.1,hl.2.2.2]
      exact h.copy q n (hs ▸ hq)
  copied := by
    intro q i n hq
    by_cases e : q = p
    · subst e; exact hcopied i n hq
    · have hs := hpc q e (by rw [hq]; rfl)
      exact h.copied q i n (hs ▸ hq)

@[simp] lemma goto_pc (s : Sys) (p : Pid) (q : Pc) : (s.goto p q).pc p = q := by simp [goto]

lemma goto_pc_ne (s : Sys) {p q : Pid} (r : Pc) (h : q ≠ p) : (s.goto p r).pc q = s.pc q := by
  simp [goto,h]

/-- A step of the lock holder `p`: the other processes hold nothing, whatever happens to
the pipe, and at most leave a sleep. -/
lemma Inv.holder {t : Sys} (h : Inv s) {p : Pid} (hp : (s.pc p).holds) (hfifo : Fifo t)
    (hpc : ∀ q, q ≠ p → t.pc q = s.pc q ∨ t.pc q = (s.pc q).wakeRead ∨
      t.pc q = (s.pc q).wakeWrite) (hlock : (t.pc p).holds → t.lock = some p)
    (hcopy : ∀ n, t.pc p = .atCopy 0 n → ¬(t.pipe.nread = t.pipe.nwrite ∧ t.pipe.writeopen))
    (hcopied : ∀ i n, t.pc p = .atCopy i n → 0 ≤ i) : Inv t := by
  refine h.move p hfifo ?_ hlock ?_ hcopy hcopied
  · intro q hq hh
    rcases hpc q hq with e | e | e
    · exact e
    · exact wakeRead_holds e hh
    · exact wakeWrite_holds e hh
  · intro q hq hl
    rw [h.lock p hp] at hl
    exact absurd (Option.some.inj hl).symm hq

lemma Inv.quiet {t : Sys} (h : Inv s) (p : Pid) (hpipe : t.pipe = s.pipe) (hl : t.lock = s.lock)
    (hput : t.put = s.put) (hgot : t.got = s.got) (hpc : ∀ q, q ≠ p → t.pc q = s.pc q)
    (hp : (t.pc p).holds → t.pc p = s.pc p) : Inv t where
  fifo := h.fifo.congr (by rw [hpipe]) (by rw [hpipe]) (by rw [hpipe]) hput hgot
  lock := by
    intro q hq
    rw [hl]
    by_cases e : q = p
    · subst e; exact h.lock q (hp hq ▸ hq)
    · exact h.lock q (hpc q e ▸ hq)
  copy := by
    intro q n hq
    rw [hpipe]
    by_cases e : q = p
    · subst e; exact h.copy q n (hp (by rw [hq]; rfl) ▸ hq)
    · exact h.copy q n (hpc q e ▸ hq)
  copied := by
    intro q i n hq
    by_cases e : q = p
    · subst e; exact h.copied q i n (hp (by rw [hq]; rfl) ▸ hq)
    · exact h.copied q i n (hpc q e ▸ hq)

lemma pipewriteIter_inv (h : Inv s) {p : Pid} {i n : ℤ} (hp : s.pc p = .atWrite i n)
    (src : Option UInt8) : Inv (pipewriteIter s p src i n) := by
  have hh : (s.pc p).holds := by rw [hp]; rfl
  have hstop (r : Pc) (hr : r.holds = false) :
      Inv ((s.wakeupNread.goto p r).release) := by
    apply h.holder hh
    · exact h.fifo.congr rfl rfl rfl rfl rfl
    · intro q hq; exact .inr (.inl (goto_pc_ne _ _ hq))
    all_goals simp only [release,goto_pc]
    · simp [hr]
    · rintro n rfl; simp [holds] at hr
    · rintro i n rfl; simp [holds] at hr
  unfold pipewriteIter
  split_ifs with hi hk hf
  · apply h.holder hh
    · exact h.fifo.congr rfl rfl rfl rfl rfl
    · intro q hq; exact .inl (goto_pc_ne _ _ hq)
    all_goals simp [release,holds]
  · exact hstop _ rfl
  · cases src with
    | none => exact hstop _ rfl
    | some ch =>
      apply h.holder hh
      · exact (h.fifo.store hf ch).congr rfl rfl rfl rfl rfl
      · intro q hq; exact .inl (goto_pc_ne _ _ hq)
      · intro _; exact h.lock p hh
      all_goals simp
  · exact hstop _ rfl

lemma pipereadTest_inv (h : Inv s) {p : Pid} {n : ℤ} (hp : s.pc p = .atRead n) :
    Inv (pipereadTest s p n) := by
  have hh : (s.pc p).holds := by rw [hp]; rfl
  unfold pipereadTest
  split_ifs with he hk
  all_goals
    apply h.holder hh
    · exact h.fifo.congr rfl rfl rfl rfl rfl
    · intro q hq; exact .inl (goto_pc_ne _ _ hq)
  · simp [release,holds]
  · simp [release]
  · simp [release]
  · simp [release,holds]
  · simp [release]
  · simp [release]
  · intro _; exact h.lock p hh
  · intro m _; exact he
  · intro i m e
    rw [goto_pc] at e
    cases e
    exact le_rfl

lemma pipereadIter_inv (h : Inv s) {p : Pid} {i n : ℤ} (hp : s.pc p = .atCopy i n)
    (ok : Bool) : Inv (pipereadIter s p ok i n) := by
  have hh : (s.pc p).holds := by rw [hp]; rfl
  have hi0 := h.copied p i n hp
  have hstop (t : Sys) (ht : Fifo t) (htpc : t.pc = s.pc) :
      Inv ((t.wakeupNwrite.goto p (.ret i)).release) := by
    apply h.holder hh
    · exact ht.congr rfl rfl rfl rfl rfl
    · intro q hq
      refine .inr (.inr ?_)
      rw [← htpc]
      exact goto_pc_ne _ _ hq
    all_goals simp [release,holds]
  unfold pipereadIter
  split_ifs with hi he hok
  · exact hstop s h.fifo rfl
  · apply h.holder hh
    · exact (h.fifo.fetch he).congr rfl rfl rfl rfl rfl
    · intro q hq; exact .inl (goto_pc_ne _ _ hq)
    · intro _; exact h.lock p hh
    · intro m e
      rw [goto_pc] at e
      injection e with e₁ e₂
      omega
    · intro j m e
      rw [goto_pc] at e
      injection e with e₁ e₂
      omega
  · exact hstop s.fetch (h.fifo.fetch he) rfl
  · exact hstop s h.fifo rfl

/-- `pipeclose` runs with the lock free, so no process is inside a loop. -/
lemma pipeclose_inv (h : Inv s) (hl : s.lock = none) (w : Bool) : Inv (pipeclose s w) := by
  have hnone (p : Pid) : (s.pc p).holds = false := by
    cases hp : (s.pc p).holds with
    | false => rfl
    | true => have := h.lock p hp; rw [hl] at this; cases this
  have hpc (p : Pid) : ((pipeclose s w).pc p).holds = false := by
    rw [← hnone p]
    cases w
    · exact holds_wakeWrite (s.pc p)
    · exact holds_wakeRead (s.pc p)
  constructor
  · apply h.fifo.congr <;> cases w <;> rfl
  · intro p hp; rw [hpc p] at hp; cases hp
  · intro p n hp
    have := hpc p
    rw [hp] at this
    cases this
  · intro p i n hp
    have := hpc p
    rw [hp] at this
    cases this

lemma acquire_inv (h : Inv s) {p : Pid} {q : Pc} (hl : s.lock = none)
    (hq : ∀ i n, q ≠ .atCopy i n) : Inv { s.goto p q with lock := some p } := by
  refine h.move p (h.fifo.congr rfl rfl rfl rfl rfl) ?_ (fun _ => rfl) ?_ ?_ ?_
  · intro r hr _; exact goto_pc_ne _ _ hr
  · intro r _ hs; rw [hl] at hs; cases hs
  · intro n e; exact absurd ((goto_pc s p q).symm.trans e) (hq 0 n)
  · intro i n e; exact absurd ((goto_pc s p q).symm.trans e) (hq i n)

/-- Everything a step can do, with its guards. -/
inductive Trans (s : Sys) : Event → Sys → Prop
  | write {p n} (ho : (s.pc p).outside) : Trans s (.write p n) (s.goto p (.wantWrite 0 n))
  | read {p n} (ho : (s.pc p).outside) : Trans s (.read p n) (s.goto p (.wantRead n))
  | acquireWrite {p i n} (hl : s.lock = none) (hp : s.pc p = .wantWrite i n) :
      Trans s (.acquire p) { s.goto p (.atWrite i n) with lock := some p }
  | acquireRead {p n} (hl : s.lock = none) (hp : s.pc p = .wantRead n) :
      Trans s (.acquire p) { s.goto p (.atRead n) with lock := some p }
  | writeIter {p src i n} (hp : s.pc p = .atWrite i n) :
      Trans s (.writeIter p src) (pipewriteIter s p src i n)
  | readTest {p n} (hp : s.pc p = .atRead n) : Trans s (.readTest p) (pipereadTest s p n)
  | readIter {p ok i n} (hp : s.pc p = .atCopy i n) :
      Trans s (.readIter p ok) (pipereadIter s p ok i n)
  | close {w} (hl : s.lock = none) : Trans s (.close w) (pipeclose s w)
  | kill {p} : Trans s (.kill p) (kill s p)

section Step
variable {s t : Sys} {e : Event} {p : Pid} {i n : ℤ}

lemma trans_of_step (hs : step s e = some t) : Trans s e t := by
  unfold step at hs
  split at hs
  · cases hs
  cases e <;> simp only [Option.ite_none_right_eq_some,Option.some.injEq] at hs
  case write => exact hs.2 ▸ .write hs.1
  case read => exact hs.2 ▸ .read hs.1
  case close => exact hs.2 ▸ .close hs.1
  case kill => exact hs ▸ .kill
  case acquire =>
    split at hs <;> cases hs
    · exact .acquireWrite (by assumption) (by assumption)
    · exact .acquireRead (by assumption) (by assumption)
  case writeIter =>
    split at hs <;> cases hs
    exact .writeIter (by assumption)
  case readTest =>
    split at hs <;> cases hs
    exact .readTest (by assumption)
  case readIter =>
    split at hs <;> cases hs
    exact .readIter (by assumption)

/-- The process whose step an event is. -/
def Event.actor : Event → Option Pid
  | .write p _ | .read p _ | .acquire p | .writeIter p _ | .readTest p | .readIter p _ | .kill p =>
    some p
  | .close _ => none

lemma step_other (hs : step s e = some t) {q : Pid} (hq : e.actor ≠ some q) :
    t.pc q = s.pc q ∨ t.pc q = (s.pc q).wakeRead ∨ t.pc q = (s.pc q).wakeWrite := by
  have hne : ∀ p, e.actor = some p → q ≠ p := fun p he hqp => hq (hqp ▸ he)
  cases trans_of_step hs with
  | write | read | acquireWrite | acquireRead | kill => exact .inl (goto_pc_ne _ _ (hne _ rfl))
  | @writeIter p =>
    have hqp : q ≠ p := hne p rfl
    unfold pipewriteIter
    split_ifs
    · exact .inl (goto_pc_ne _ _ hqp)
    · exact .inr (.inl (goto_pc_ne _ _ hqp))
    · split
      · exact .inr (.inl (goto_pc_ne _ _ hqp))
      · exact .inl (goto_pc_ne _ _ hqp)
    · exact .inr (.inl (goto_pc_ne _ _ hqp))
  | readTest =>
    unfold pipereadTest
    split_ifs <;> exact .inl (goto_pc_ne _ _ (hne _ rfl))
  | @readIter p =>
    have hqp : q ≠ p := hne p rfl
    unfold pipereadIter
    split_ifs
    · exact .inr (.inr (goto_pc_ne _ _ hqp))
    · exact .inl (goto_pc_ne _ _ hqp)
    · exact .inr (.inr (goto_pc_ne _ _ hqp))
    · exact .inr (.inr (goto_pc_ne _ _ hqp))
  | @close w =>
    cases w
    · exact .inr (.inr rfl)
    · exact .inr (.inl rfl)

lemma step_frame (hs : step s e = some t) :
    ((∀ p ok, e ≠ .readIter p ok) → t.got = s.got) ∧
    ((∀ p src, e ≠ .writeIter p src) → t.put = s.put) ∧
    ((∀ p, e ≠ .kill p) → t.killed = s.killed) ∧
    ((∀ w, e ≠ .close w) → t.pipe.readopen = s.pipe.readopen ∧
      t.pipe.writeopen = s.pipe.writeopen ∧ t.freed = s.freed) := by
  cases trans_of_step hs with
  | write | read | acquireWrite | acquireRead =>
    exact ⟨fun _ => rfl,fun _ => rfl,fun _ => rfl,fun _ => ⟨rfl,rfl,rfl⟩⟩
  | writeIter =>
    refine ⟨fun _ => ?_,fun he => absurd rfl (he _ _),fun _ => ?_,fun _ => ?_⟩ <;>
      · unfold pipewriteIter
        split_ifs <;> try split
        all_goals first | rfl | exact ⟨rfl,rfl,rfl⟩
  | readTest =>
    refine ⟨fun _ => ?_,fun _ => ?_,fun _ => ?_,fun _ => ?_⟩ <;>
      · unfold pipereadTest
        split_ifs <;> first | rfl | exact ⟨rfl,rfl,rfl⟩
  | readIter =>
    refine ⟨fun he => absurd rfl (he _ _),fun _ => ?_,fun _ => ?_,fun _ => ?_⟩ <;>
      · unfold pipereadIter
        split_ifs <;> first | rfl | exact ⟨rfl,rfl,rfl⟩
  | @close w =>
    refine ⟨fun _ => ?_,fun _ => ?_,fun _ => ?_,fun he => absurd rfl (he w)⟩ <;> cases w <;> rfl
  | kill => exact ⟨fun _ => rfl,fun _ => rfl,fun he => absurd rfl (he _),fun _ => ⟨rfl,rfl,rfl⟩⟩

theorem step_inv (h : Inv s) (hs : step s e = some t) : Inv t := by
  cases trans_of_step hs with
  | write | read =>
    exact h.quiet _ rfl rfl rfl rfl (fun q hq => goto_pc_ne _ _ hq) (by simp [holds])
  | acquireWrite hl | acquireRead hl => exact acquire_inv h hl (by simp)
  | writeIter hp => exact pipewriteIter_inv h hp _
  | readTest hp => exact pipereadTest_inv h hp
  | readIter hp => exact pipereadIter_inv h hp _
  | close hl => exact pipeclose_inv h hl _
  | @kill p =>
    refine h.quiet p rfl rfl rfl rfl (fun q hq => goto_pc_ne _ _ hq) ?_
    intro hh
    have e : (kill s p).pc p = (s.pc p).wakeRead.wakeWrite := goto_pc _ _ _
    rw [e] at hh ⊢
    have e₁ := wakeWrite_holds rfl hh
    rw [e₁] at hh ⊢
    exact wakeRead_holds rfl hh

/-- A store only happens when the pipe is not full, so its slot holds no unread byte. -/
lemma step_store (h : Inv s) (hs : step s e = some t) (hput : t.put ≠ s.put) {k : ℕ}
    (hk : s.got.length ≤ k) (hlt : k < s.put.length) : slotOf k ≠ slotOf s.pipe.nwrite.toNat := by
  have hroom : s.pipe.nwrite ≠ s.pipe.nread+UInt32.ofNat PIPESIZE := by
    intro hf
    apply hput
    by_cases he : ∃ p src, e = .writeIter p src
    · obtain ⟨p,src,rfl⟩ := he
      cases trans_of_step hs
      unfold pipewriteIter
      rw [if_pos hf]
      split_ifs <;> rfl
    · exact (step_frame hs).2.1 fun p src h => he ⟨p,src,h⟩
  rw [Ne,slotOf_eq_iff]
  exact h.fifo.ring.slot_free pipesize_dvd (h.fifo.room_of_not_full hroom) hk hlt

lemma reading_wake {q : Pc} {n r : ℤ} (h : q.reading = some n) :
    q ≠ .ret r ∧ q.wakeRead ≠ .ret r ∧ q.wakeWrite ≠ .ret r ∧ q.wakeRead.wakeWrite ≠ .ret r := by
  cases q <;> simp_all [reading,wakeRead,wakeWrite]

/-- A process in `piperead` returns only by its own step, from one of its two loops. -/
lemma step_read_ret {r : ℤ} (hs : step s e = some t) (hr : (s.pc p).reading = some n)
    (ht : t.pc p = .ret r) : (∃ m, s.pc p = .atRead m ∧ t = pipereadTest s p m) ∨
    ∃ ok i m, e = .readIter p ok ∧ s.pc p = .atCopy i m ∧ t = pipereadIter s p ok i m := by
  obtain ⟨h₀,h₁,h₂,h₃⟩ := reading_wake (r := r) hr
  by_cases ha : e.actor = some p
  · cases trans_of_step hs <;> simp only [Event.actor,Option.some.injEq,reduceCtorEq] at ha <;>
      subst ha
    case write | read | acquireWrite | acquireRead => exact nomatch (goto_pc _ _ _).symm.trans ht
    case writeIter hp =>
      rw [hp] at hr
      cases hr
    case readTest hp => exact .inl ⟨_,hp,rfl⟩
    case readIter hp => exact .inr ⟨_,_,_,rfl,hp,rfl⟩
    case kill => exact absurd ((goto_pc _ _ _).symm.trans ht) h₃
  · rcases step_other hs ha with h | h | h <;> rw [h] at ht
    · exact absurd ht h₀
    · exact absurd ht h₁
    · exact absurd ht h₂

/-- A `piperead` with a positive size returns 0 only from its copy loop, with nothing
copied: either a `copyout` failed or the pipe is empty with its write end closed. -/
lemma step_read_zero (h : Inv s) (hs : step s e = some t)
    (hr : (s.pc p).reading = some n) (hn : 0 < n) (ht : t.pc p = .ret 0)
    (hcopyout : e = .readIter p false → s.pipe.nread = s.pipe.nwrite) :
    s.pipe.nread = s.pipe.nwrite ∧ s.pipe.writeopen = false := by
  obtain ⟨m,_,rfl⟩ | ⟨ok,i,m,he,hp,rfl⟩ := step_read_ret hs hr ht
  · unfold pipereadTest at ht
    split_ifs at ht <;> simp [release] at ht
  · rw [hp] at hr
    cases hr
    have hempty : s.pipe.nread = s.pipe.nwrite ∧ i = 0 := by
      unfold pipereadIter at ht
      split_ifs at ht with hi hemp hok
      · exact ⟨hemp,by simpa [release] using ht⟩
      · simp at ht
      · exact absurd (hcopyout (by simp [he,hok])) hemp
      · have : i = 0 := by simpa [release] using ht
        omega
    refine ⟨hempty.1,?_⟩
    have hc := h.copy p n (hempty.2 ▸ hp)
    simpa [hempty.1] using hc

end Step

/-- What a state of the machine says about bytes: those taken out are a prefix of those put
in, the counters count the ones in flight, and each of these is still in its slot. -/
def Delivers (s : Sys) : Prop :=
  s.got <+: s.put ∧ (s.pipe.nwrite-s.pipe.nread).toNat ≤ PIPESIZE ∧
  (s.pipe.nwrite-s.pipe.nread).toNat = s.put.length-s.got.length ∧
  ∀ k, s.got.length ≤ k → k < s.put.length → s.put[k]? = some (s.pipe.data (slotOf k))

lemma Fifo.delivers (h : Fifo s) : Delivers s := by
  refine ⟨?_,?_,h.distance,?_⟩
  · rw [h.got_eq]
    exact List.take_prefix _ _
  · rw [h.distance]
    exact h.ring.unread_le
  · intro k hk hlt
    have := h.ring.slots k hk hlt
    rwa [slotOf_mod] at this

/-- For every run of readers, writers, closes and kills on one pipe: bytes leave in the order
in which they entered, no store hits a slot that still holds an unread byte, and a `piperead`
of positive size whose `copyout` calls succeed returns 0 only at the end of the file. -/
theorem pipe_fifo {page : Fin PIPESIZE → UInt8} {killed : Pid → Bool} {es : List Event} {s : Sys}
    (hrun : Runs step (fun _ _ => True) (init page killed) es s) :
    Delivers s ∧ ∀ e t, step s e = some t →
      (t.put ≠ s.put → ∀ k, s.got.length ≤ k → k < s.put.length →
        slotOf k ≠ slotOf s.pipe.nwrite.toNat) ∧
      ∀ p n, (s.pc p).reading = some n → 0 < n → t.pc p = .ret 0 →
        (e = .readIter p false → s.pipe.nread = s.pipe.nwrite) →
        s.pipe.nread = s.pipe.nwrite ∧ s.pipe.writeopen = false := by
  have h : Inv s := hrun.invariant (fun _ _ _ hi _ hs => step_inv hi hs) (init_inv page killed)
  refine ⟨h.fifo.delivers,fun e t hs => ⟨?_,?_⟩⟩
  · intro hput k hk hlt
    exact step_store h hs hput hk hlt
  · intro p n hr hn ht hc
    exact step_read_zero h hs hr hn ht hc

/-- Process 0 writes two bytes and process 1 reads one of them back. -/
def twoBytes : List Event :=
  [.write 0 2,.acquire 0,.writeIter 0 (some 7),.writeIter 0 (some 8),.writeIter 0 none,
   .read 1 1,.acquire 1,.readTest 1,.readIter 1 true]

theorem pipe_fifo_twoBytes : ∃ s, exec step (init (fun _ => 0) (fun _ => false)) twoBytes = some s ∧
    s.put = [7,8] ∧ s.got = [7] ∧ Delivers s := by
  have h : exec step (init (fun _ => 0) (fun _ => false)) twoBytes = some _ := rfl
  exact ⟨_,h,rfl,by decide,(pipe_fifo (Runs.of_exec h)).1⟩

end Xv6.Ipc
