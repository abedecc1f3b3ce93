import Xv6.Lib.Monitor

/-! `sleeplock.c`: one sleep-lock and the processes that use it. -/
namespace Xv6.Sleeplock
open Xv6.Lib Xv6.Lib.Monitor
open Function (update update_self update_of_ne)

variable {ι : Type} [DecidableEq ι]

/-- `struct sleeplock` without its spinlock and its name. -/
structure Lk where
  locked : Bool
  pid : Int32
  deriving DecidableEq

/-- What a process is doing. It is the owner from the end of its `acquiresleep` to the assignment
in its `releasesleep`; `r` is what `holdingsleep` has just returned. -/
inductive Pc
  | idle (owner : Bool) (r : Option Bool)
  | acquiresleep (owner : Bool)
  | releasesleep
  | release
  | holdingsleep (owner : Bool)
  deriving DecidableEq

def Pc.owner : Pc → Bool
  | idle owner _ | acquiresleep owner | holdingsleep owner => owner
  | releasesleep => true
  | release => false

inductive Call
  | acquiresleep
  | releasesleep
  | holdingsleep
  deriving DecidableEq

-- r = lk->locked && (lk->pid == myproc()->pid)
def holdingsleep (lk : Lk) (pid : Int32) : Bool := lk.locked && lk.pid == pid

/-- The calls of a process with their critical sections; only the owner calls `releasesleep`. -/
def code (pid : ι ↪ Int32) (p : ι) (call : Call) (k : Pc) (lk : Lk) : Option (Move Pc Unit Lk) :=
  match k,call with
  | .idle owner _,.acquiresleep => some (.acquire (.acquiresleep owner))
  | .idle true _,.releasesleep => some (.acquire .releasesleep)
  | .idle false _,.releasesleep => none
  | .idle owner _,.holdingsleep => some (.acquire (.holdingsleep owner))
  | .acquiresleep owner,_ =>
    if lk.locked then some (.sleep () (.acquiresleep owner))
    else some (.release ⟨true,pid p⟩ (.idle true none))
  | .releasesleep,_ => some (.wakeup () ⟨false,0⟩ .release)
  | .release,_ => some (.release lk (.idle false none))
  | .holdingsleep owner,_ => some (.release lk (.idle owner (some (holdingsleep lk (pid p)))))

abbrev Sys (ι : Type) := State ι Pc Unit Lk

/-- The lock after `initsleeplock`. -/
def init : Sys ι where
  data := ⟨false,0⟩
  lock := none
  wait _ := .nothing
  code _ := .idle false none

def owner (s : Sys ι) (p : ι) : Bool := (s.code p).owner

/-- The lock is kept for those who wait. -/
def Waits (_ : Unit) (_ : Pc) (lk : Lk) : Prop := lk.locked = true

/-- `holdingsleep` is true for the owner and for nobody else, and this is what it has answered. -/
def Held (pid : ι ↪ Int32) (lk : Lk) (c : ι → Pc) : Prop :=
  ∀ p, holdingsleep lk (pid p) = (c p).owner ∧ ∀ own r, c p = .idle own (some r) → r = own

section
variable {pid : ι ↪ Int32} {lk lk' : Lk} {c : ι → Pc} {p q : ι} {k : Pc} {i : Call}
variable {m : Move Pc Unit Lk}

omit [DecidableEq ι] in
lemma holdingsleep_iff : holdingsleep lk (pid p) = true ↔ lk.locked = true ∧ lk.pid = pid p := by
  simp [holdingsleep]

namespace Held
variable (H : Held pid lk c)
include H

omit [DecidableEq ι] in
lemma eq_of_owner (hp : (c p).owner = true) (hq : (c q).owner = true) : p = q := by
  rw [← (H _).1,holdingsleep_iff] at hp hq
  exact pid.injective (hp.2.symm.trans hq.2)

lemma update (hq : ∀ q, q ≠ p → holdingsleep lk' (pid q) = (c q).owner)
    (hp : holdingsleep lk' (pid p) = k.owner) (ha : ∀ own r, k = .idle own (some r) → r = own) :
    Held pid lk' (update c p k) := by
  intro q
  by_cases hqp : q = p
  · subst hqp
    rw [update_self]
    exact ⟨hp,ha⟩
  · rw [update_of_ne hqp]
    exact ⟨hq q hqp,(H q).2⟩

lemma move (hm : code pid p i (c p) lk = some m) :
    Held pid (m.data lk) (Function.update c p m.code) := by
  -- the same lock and the same owner
  have hask : ∀ k, k.owner = (c p).owner → (∀ own r, k = .idle own (some r) → r = own) →
      Held pid lk (Function.update c p k) := fun k hk ha =>
    H.update (fun q _ => (H q).1) ((H p).1.trans hk.symm) ha
  cases hc : c p with
  | idle own r =>
    rw [hc] at hm hask
    cases i <;> cases own <;> cases hm <;> exact hask _ rfl (by simp)
  | acquiresleep own =>
    rw [hc,code] at hm
    split_ifs at hm with hl
    · cases hm
      exact hask _ (by rw [hc]; rfl) (by simp)
    · cases hm
      refine H.update (fun q hqp => ?_) (by simp [holdingsleep,Pc.owner]) (by simp)
      rw [← (H q).1]
      simp [holdingsleep,hl,Ne.symm hqp]
  | releasesleep =>
    rw [hc] at hm
    cases hm
    refine H.update (fun q hqp => ?_) rfl (by simp)
    have hno : (c q).owner = false :=
      Bool.eq_false_iff.mpr fun hq => hqp (H.eq_of_owner hq (by rw [hc]; rfl))
    exact hno.symm
  | release =>
    rw [hc] at hm
    cases hm
    exact hask _ (by rw [hc]; rfl) (by simp)
  | holdingsleep own =>
    rw [hc] at hm
    cases hm
    refine hask _ (by rw [hc]; rfl) fun own' r h => ?_
    cases h
    rw [(H p).1,hc]
    rfl

end Held

omit [DecidableEq ι] in
lemma code_keeps (hm : code pid p i k lk = some m) : m.Keeps Waits lk := by
  cases k with
  | idle own r => cases i <;> cases own <;> cases hm <;> trivial
  | acquiresleep own =>
    rw [code] at hm
    split_ifs at hm with hl <;> cases hm
    · exact hl
    · exact fun _ _ _ => rfl
  | releasesleep =>
    cases hm
    exact fun c _ hc => absurd rfl hc
  | release | holdingsleep =>
    cases hm
    exact fun _ _ h => h

lemma Held.step {s t : Sys ι} {e : Event ι Call} (H : Held pid s.data s.code)
    (h : step (code pid) s e = some t) : Held pid t.data t.code := by
  rcases step_cases h with ⟨p,i,m,hm,-,rfl⟩ | ⟨hd,hc,-⟩
  · rw [move_data,move_code]
    exact H.move hm
  · rw [hd,hc]
    exact H

/-- A process becomes the owner in a step that finds the lock free. -/
lemma free_of_enters {s t : Sys ι} {e : Event ι Call} (h : step (code pid) s e = some t)
    (h₀ : owner s p = false) (h₁ : owner t p = true) : s.data.locked = false := by
  have hno {k : Pc} (hk : k.owner = false) : k.owner ≠ true := by simp [hk]
  rcases step_cases h with ⟨q,i,m,hm,-,rfl⟩ | ⟨-,hc,-⟩
  · rw [owner,move_code] at h₁
    by_cases hpq : p = q
    · subst hpq
      rw [update_self] at h₁
      rw [owner] at h₀
      cases hc : s.code p with
      | idle own r =>
        rw [hc] at hm h₀
        obtain rfl : own = false := h₀
        cases i <;> cases hm <;> cases h₁
      | acquiresleep own =>
        rw [hc] at hm h₀
        rw [code] at hm
        split_ifs at hm with hl <;> cases hm
        · exact absurd h₁ (hno h₀)
        · simpa using hl
      | releasesleep | release =>
        rw [hc] at hm
        cases hm
        cases h₁
      | holdingsleep own =>
        rw [hc] at hm h₀
        cases hm
        exact absurd h₁ (hno h₀)
    · rw [update_of_ne hpq] at h₁
      exact absurd h₁ (hno h₀)
  · rw [owner,hc] at h₁
    exact absurd h₁ (hno h₀)

/-- Whoever is asleep waits for a lock that is kept, and `holdingsleep` is right. -/
lemma runs_held {es : List (Event ι Call)} {t : Sys ι}
    (h : Runs (step (code pid)) (fun _ _ => True) init es t) :
    Reasons Waits t ∧ Held pid t.data t.code := by
  have R₀ : Reasons Waits (init (ι := ι)) := by
    intro p chan h
    cases h
  have H₀ : Held pid (init (ι := ι)).data init.code :=
    fun _ => ⟨rfl,fun _ _ h => by cases h⟩
  exact h.invariant_and (I := Reasons Waits) (J := fun s => Held pid s.data s.code)
    (fun s e t R _ hs => R.step (fun _ _ _ hm => code_keeps hm) hs)
    (fun s e t _ H _ hs => H.step hs) ⟨R₀,H₀⟩

end

/-- At most one process owns the lock, even if `kill` has woken up others, and `holdingsleep` tells
it. Nobody sleeps on a lock that is free. -/
theorem sleeplock_excludes (pid : ι ↪ Int32) (es : List (Event ι Call)) (t : Sys ι)
    (h : Runs (step (code pid)) (fun _ _ => True) init es t) :
    (∀ p q, owner t p = true → owner t q = true → p = q) ∧
    (∀ p, holdingsleep t.data (pid p) = owner t p) ∧
    (∀ p own r, t.code p = .idle own (some r) → r = own) ∧
    (t.lock = none → t.data.locked = false → ∀ p, t.wait p ≠ .asleep ()) := by
  obtain ⟨R,H⟩ := runs_held h
  refine ⟨fun p q => H.eq_of_owner,fun p => (H p).1,fun p => (H p).2,fun _ hf p hp => ?_⟩
  cases hf.symm.trans (R p () hp)

lemma pids_injective : Function.Injective fun p : Bool => if p then (1 : Int32) else 2 := by decide

/-- Two processes. -/
def pids : Bool ↪ Int32 := ⟨_,pids_injective⟩

/-- One has the lock, and the other is woken up by `kill` while it sleeps. -/
def contended : List (Event Bool Call) :=
  [.act true .acquiresleep,.act false .acquiresleep,.acquire true,.act true .acquiresleep,
   .acquire false,.act false .acquiresleep,.wake false,.acquire false,.act false .acquiresleep]

theorem sleeplock_excludes_killed : ∃ t : Sys Bool,
    Runs (step (code pids)) (fun _ _ => True) init contended t ∧
    t.wait false = .asleep () ∧ holdingsleep t.data 1 = true := by
  obtain ⟨t,ht,hw,ho⟩ := Runs.exists_of_execIf (step (code pids)) (fun _ _ => True) init contended
    (fun t => t.wait false = .asleep () ∧ owner t true = true) (by decide +kernel)
  exact ⟨t,ht,hw,((sleeplock_excludes pids _ t ht).2.1 true).trans ho⟩

/-- The lock excludes and strands nobody: at most one process is between a completed `acquiresleep` and
its `releasesleep`, and `holdingsleep` is true for it alone; no step makes a process the owner while
the lock is kept, whoever has woken it up; and nobody sleeps on a lock that is free. -/
theorem sleeplock_waiters (pid : ι ↪ Int32) (es : List (Event ι Call)) (t : Sys ι)
    (h : Runs (step (code pid)) (fun _ _ => True) init es t) :
    (∀ p q, owner t p = true → owner t q = true → p = q) ∧
    (∀ p, holdingsleep t.data (pid p) = true ↔ owner t p = true) ∧
    (∀ e u p, step (code pid) t e = some u → owner t p = false → owner u p = true →
      t.data.locked = false ∧ ∀ q, owner t q = false) ∧
    (t.lock = none → t.data.locked = false → ∀ p, t.wait p ≠ .asleep ()) := by
  obtain ⟨R,H⟩ := runs_held h
  refine ⟨fun p q => H.eq_of_owner,fun p => by rw [(H p).1]; rfl,fun e u p hs h₀ h₁ => ?_,
    fun _ hf p hp => ?_⟩
  · have hf := free_of_enters hs h₀ h₁
    refine ⟨hf,fun q => ?_⟩
    rw [owner,← (H q).1,holdingsleep,hf]
    rfl
  · cases hf.symm.trans (R p () hp)

-- the process that was woken up sleeps again, and enters when the other has released the lock
theorem sleeplock_waiters_killed : ∃ t : Sys Bool,
    Runs (step (code pids)) (fun _ _ => True) init
      (contended++[.act true .releasesleep,.acquire true,.act true .releasesleep,
        .act true .releasesleep,.acquire false]) t ∧
    owner t false = false ∧ ∃ u, step (code pids) t (.act false .acquiresleep) = some u ∧
      owner u false = true ∧ t.data.locked = false ∧ ∀ q, owner t q = false := by
  obtain ⟨t,ht,h₀,hu⟩ := Runs.exists_of_execIf (step (code pids)) (fun _ _ => True) init
    (contended++[.act true .releasesleep,.acquire true,.act true .releasesleep,
      .act true .releasesleep,.acquire false])
    (fun t => owner t false = false ∧ ((step (code pids) t (.act false .acquiresleep)).map fun u =>
      owner u false) = some true) (by decide +kernel)
  obtain ⟨u,hs,h₁⟩ := Option.map_eq_some_iff.mp hu
  exact ⟨t,ht,h₀,u,hs,h₁,(sleeplock_waiters pids _ t ht).2.2.1 _ u false hs h₀ h₁⟩

end Xv6.Sleeplock
