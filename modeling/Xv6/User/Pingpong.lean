import Xv6.Ipc.PipeWakeup

/-! `pingpong.c` after its `fork`: the two processes run over the kernel's two pipes, with the
`killed` checks of `usertrap` around every system call. -/
namespace Xv6.Pingpong
open Xv6.Lib Ipc List Option
open Function (update update_self update_of_ne update_eq_self)

inductive Who
  | parent
  | child
  deriving DecidableEq

/-- The name of a process in the pipes' own records. -/
def Who.pid : Who → Pid
  | .parent => 1
  | .child => 2

def Who.other : Who → Who
  | .parent => .child
  | .child => .parent

inductive Link
  | pipe1
  | pipe2
  deriving DecidableEq

/-- `pipe1[0]` is the read end of `pipe1`, `pipe1[1]` its write end. -/
structure Fd where
  pipe : Link
  writable : Bool
  deriving DecidableEq

/-- The system calls of the program. Reads and writes are of the one byte `byte`, and a
`printf(1, ...)` is one write to descriptor 1. -/
inductive Call
  | close (fd : Fd)
  | read (fd : Fd)
  | write (fd : Fd)
  | getpid
  | print
  | wait
  | exit
  deriving DecidableEq

/-- The two branches of `main` after `fork`. No result of a call is looked at. -/
def main : Who → List Call
  | .child =>
    [.close ⟨.pipe1,true⟩,.close ⟨.pipe2,false⟩,.read ⟨.pipe1,false⟩,.getpid,.print,
     .write ⟨.pipe2,true⟩,.close ⟨.pipe1,false⟩,.close ⟨.pipe2,true⟩,.exit]
  | .parent =>
    [.close ⟨.pipe1,false⟩,.close ⟨.pipe2,true⟩,.write ⟨.pipe1,true⟩,.read ⟨.pipe2,false⟩,
     .getpid,.print,.close ⟨.pipe1,true⟩,.close ⟨.pipe2,false⟩,.wait,.exit]

/-- Where a process is with respect to the call at the head of what it has to do. -/
inductive Mode
  | user
  | entered
  | inside
  | leaving (r : ℤ)
  | exiting
  | zombie
  deriving DecidableEq

/-- What can be seen from outside: a byte stored into a pipe, a byte taken out of one, and a
line on the console. -/
inductive Obs
  | sent (w : Who) (b : UInt8)
  | received (w : Who) (b : UInt8)
  | printed (w : Who)
  deriving DecidableEq

/-- The two processes and the two pipes; `hist` is a ghost history that no step reads. -/
structure Sys where
  pipe : Link → Ipc.Sys
  mode : Who → Mode
  todo : Who → List Call
  ofile : Who → Fd → Bool
  byte : Who → UInt8
  killed : Who → Bool
  hist : List Obs

namespace Sys

def goto (s : Sys) (w : Who) (m : Mode) : Sys := { s with mode := update s.mode w m }

/-- The state after a step of `w` in the pipe code of link `i`. -/
def piped (s : Sys) (w : Who) (i : Link) (y : Ipc.Sys) : Sys :=
  { s with
    pipe := update s.pipe i y
    byte := update s.byte w ((y.got.drop (s.pipe i).got.length).getLastD (s.byte w))
    hist := s.hist++(y.put.drop (s.pipe i).put.length).map (.sent w)++
      (y.got.drop (s.pipe i).got.length).map (.received w) }

def pipeStep (s : Sys) (w : Who) (i : Link) (e : Ipc.Event) : Option Sys :=
  (Ipc.step (s.pipe i) e).map (s.piped w i)

/-- The descriptor table after a close. -/
def shut (s : Sys) (w : Who) (fd : Fd) : Sys :=
  { s with ofile := update s.ofile w (update (s.ofile w) fd false) }

/-- `fileclose` reaches `pipeclose` when neither process has the end open any more. -/
def fileclose (s : Sys) (w : Who) (fd : Fd) : Option Sys :=
  if s.ofile w.other fd then some (s.shut w fd)
  else (s.shut w fd).pipeStep w fd.pipe (.close fd.writable)

def sys_close (s : Sys) (w : Who) (fd : Fd) : Option Sys :=
  if s.ofile w fd then (s.fileclose w fd).map (·.goto w (.leaving 0))
  else some (s.goto w (.leaving (-1)))

-- argfd and fileread
def sys_read (s : Sys) (w : Who) (fd : Fd) : Option Sys :=
  if s.ofile w fd && !fd.writable then
    (s.pipeStep w fd.pipe (.read w.pid 1)).map (·.goto w .inside)
  else some (s.goto w (.leaving (-1)))

-- argfd and filewrite
def sys_write (s : Sys) (w : Who) (fd : Fd) : Option Sys :=
  if s.ofile w fd && fd.writable then
    (s.pipeStep w fd.pipe (.write w.pid 1)).map (·.goto w .inside)
  else some (s.goto w (.leaving (-1)))

end Sys

/-- What the code of `pipewrite` and `piperead` does next. The address of `byte` is always
mapped, so that `copyin` and `copyout` succeed. -/
def pipeEvent (p : Pid) (b : UInt8) : Ipc.Pc → Option Ipc.Event
  | .wantWrite _ _ | .wantRead _ => some (.acquire p)
  | .atWrite _ _ => some (.writeIter p (some b))
  | .atRead _ => some (.readTest p)
  | .atCopy _ _ => some (.readIter p true)
  | _ => none

namespace Sys

/-- One step of a call that is in the pipe code. -/
def onPipe (s : Sys) (w : Who) (i : Link) : Option Sys :=
  match (s.pipe i).pc w.pid with
  | .ret r => some (s.goto w (.leaving r))
  | q => (pipeEvent w.pid (s.byte w) q).bind (s.pipeStep w i)

-- the loop of exit over p->ofile
def openFd (s : Sys) (w : Who) : Option Fd :=
  [⟨.pipe1,false⟩,⟨.pipe1,true⟩,⟨.pipe2,false⟩,⟨.pipe2,true⟩].find? (s.ofile w)

/-- `wait`: only the parent has a child. -/
def sys_wait (s : Sys) (w : Who) : Option Sys :=
  match w with
  | .child => some (s.goto w (.leaving (-1)))
  | .parent =>
    if s.mode .child = .zombie then some (s.goto w (.leaving Who.child.pid))
    else if s.killed w then some (s.goto w (.leaving (-1))) else none

/-- The next step of a process, if it is not blocked. -/
def run (s : Sys) (w : Who) : Option Sys :=
  match s.mode w,s.todo w with
  | .user,_ => some (s.goto w (if s.killed w then .exiting else .entered))
  | .entered,.close fd::_ => s.sys_close w fd
  | .entered,.read fd::_ => s.sys_read w fd
  | .entered,.write fd::_ => s.sys_write w fd
  | .entered,.getpid::_ => some (s.goto w (.leaving w.pid))
  | .entered,.print::_ => some (Sys.goto { s with hist := s.hist++[.printed w] } w (.leaving 0))
  | .entered,.wait::_ => s.sys_wait w
  | .entered,.exit::_ => some (s.goto w .exiting)
  | .inside,.read fd::_ => s.onPipe w fd.pipe
  | .inside,.write fd::_ => s.onPipe w fd.pipe
  | .leaving _,_::cs =>
    some (if s.killed w then s.goto w .exiting
      else Sys.goto { s with todo := update s.todo w cs } w .user)
  | .exiting,_ =>
    match s.openFd w with
    | some fd => s.fileclose w fd
    | none => some (s.goto w .zombie)
  | _,_ => none

/-- A timer interrupt in user mode. -/
def timer (s : Sys) (w : Who) : Option Sys :=
  if s.mode w = .user then some (if s.killed w then s.goto w .exiting else s) else none

/-- `kill` of one of the two by anybody. -/
def kill (s : Sys) (w : Who) : Sys :=
  { s with
    pipe := fun i => Ipc.kill (s.pipe i) w.pid
    killed := update s.killed w true }

end Sys

inductive Event
  | run (w : Who)
  | timer (w : Who)
  | kill (w : Who)
  deriving DecidableEq

def step (s : Sys) : Event → Option Sys
  | .run w => s.run w
  | .timer w => s.timer w
  | .kill w => some (s.kill w)

/-- Both processes after `fork`, with all four ends open in each. -/
def init (page : Link → Fin Ipc.PIPESIZE → UInt8) (killed : Who → Bool) : Sys where
  pipe i := Ipc.init (page i) fun p => if p = Who.parent.pid then killed .parent else
    if p = Who.child.pid then killed .child else false
  mode _ := .user
  todo := main
  ofile _ _ := true
  byte _ := 65
  killed := killed
  hist := []

namespace Sys

/-- A process that cannot leave `read` or `write` by itself. -/
def Blocked (s : Sys) (w : Who) : Prop := s.mode w = .inside ∧ s.run w = none

end Sys

/-- No process goes on in user mode after a `read` that returned 0. -/
def Answered (s : Sys) : Event → Prop
  | .run w =>
    match s.mode w,s.todo w with
    | .leaving r,.read _::_ => r = 0 → s.killed w = true
    | _,_ => True
  | _ => True

instance (s : Sys) (e : Event) : Decidable (Answered s e) := by
  unfold Answered
  split
  · split <;> infer_instance
  · infer_instance

/-- The child reports after it has received a byte of the parent, the parent after the child's
report and after it has received a byte of the child. -/
def Ordered (h : List Obs) : Prop :=
  (∀ l₁ l₂, h = l₁++.printed .child::l₂ → ∃ b, .sent .parent b ∈ l₁ ∧ .received .child b ∈ l₁) ∧
  ∀ l₁ l₂, h = l₁++.printed .parent::l₂ →
    .printed .child ∈ l₁ ∧ ∃ b, .sent .child b ∈ l₁ ∧ .received .parent b ∈ l₁

/-! ### One call of a process -/

/-- How far a process is with one of its calls. -/
inductive Phase
  | before
  | during
  | returned (r : ℤ)
  | after
  | gone

def phase (m : Mode) (todo : List Call) (c : Call) : Phase :=
  match m with
  | .exiting | .zombie => .gone
  | .inside => if c ∉ todo then .after else if todo.head? = some c then .during else .before
  | .leaving r =>
    if c ∉ todo then .after else if todo.head? = some c then .returned r else .before
  | _ => if c ∉ todo then .after else .before

def Sys.phase (s : Sys) (w : Who) (c : Call) : Phase := Pingpong.phase (s.mode w) (s.todo w) c

/-- How a process can get on with a call while the pipe `x` stays as it is. -/
inductive Moves (x : Ipc.Sys) (p : Pid) : Phase → Phase → Prop
  | stay (a) : Moves x p a a
  | leave {r} (h : x.pc p = .ret r) : Moves x p .during (.returned r)
  | back {r} (h : x.killed p = false) : Moves x p (.returned r) .after
  | quit {a} (h : a ≠ .during) : Moves x p a .gone

/-! ### One pipe -/

/-- What is known when a write of one byte returns. -/
def Stored (x : Ipc.Sys) (p : Pid) : Prop :=
  x.put ≠ [] ∨ x.killed p = true ∨ x.pipe.readopen = false

/-- What is known when a read of one byte returns. -/
def Fetched (x : Ipc.Sys) (p : Pid) (r : ℤ) : Prop :=
  x.got ≠ [] ∨ r = 0 ∨ x.killed p = true

/-- The writer of one byte, by the phase of its call. -/
def Out (x : Ipc.Sys) (p : Pid) : Phase → Prop
  | .before => x.pc p = .idle ∧ x.put = []
  | .during =>
    (∃ j : ℕ, x.put.length = j ∧ j ≤ 1 ∧ (x.pc p = .wantWrite j 1 ∨ x.pc p = .atWrite j 1)) ∨
    ∃ r, x.pc p = .ret r ∧ x.put.length ≤ 1 ∧ Stored x p
  | .returned _ => (x.pc p).outside ∧ x.put.length ≤ 1 ∧ Stored x p
  | .after => (x.pc p).outside ∧ x.put.length ≤ 1 ∧ (x.put ≠ [] ∨ x.pipe.readopen = false)
  | .gone => (x.pc p).outside ∧ x.put.length ≤ 1

/-- The reader of one byte, by the phase of its call. -/
def In (x : Ipc.Sys) (p : Pid) : Phase → Prop
  | .before => x.pc p = .idle ∧ x.got = []
  | .during =>
    ((x.pc p = .wantRead 1 ∨ x.pc p = .atRead 1 ∨ x.pc p = .sleepRead 1 ∨ x.pc p = .atCopy 0 1) ∧
      x.got = []) ∨
    (x.pc p = .atCopy 1 1 ∧ x.got ≠ []) ∨ ∃ r, x.pc p = .ret r ∧ Fetched x p r
  | .returned r => (x.pc p).outside ∧ Fetched x p r
  | _ => (x.pc p).outside

structure Chan (x : Ipc.Sys) (w r : Pid) (a b : Phase) : Prop where
  inv : Ipc.Inv x
  awake : Ipc.Awake x
  held : ∀ p, x.lock = some p → (x.pc p).holds
  strangers : ∀ p, p ≠ w → p ≠ r → x.pc p = .idle
  writer : Out x w a
  reader : In x r b

section Pipe
variable {x y : Ipc.Sys} {w r p : Pid} {a b a' b' : Phase} {e : Ipc.Event}

lemma Out.moves (h : Out x w a) (hm : Moves x w a a') : Out x w a' := by
  cases hm with
  | stay => exact h
  | leave hret =>
    obtain ⟨j,-,-,hp | hp⟩ | ⟨r,hp,hl,hst⟩ := h
    · rw [hret] at hp; cases hp
    · rw [hret] at hp; cases hp
    · exact ⟨by rw [hret]; rfl,hl,hst⟩
  | back hk =>
    obtain ⟨ho,hl,hst | hst | hst⟩ := h
    · exact ⟨ho,hl,.inl hst⟩
    · rw [hk] at hst; cases hst
    · exact ⟨ho,hl,.inr hst⟩
  | quit ha =>
    cases a with
    | before => exact ⟨by rw [h.1]; rfl,by simp [h.2]⟩
    | during => exact absurd rfl ha
    | returned r => exact ⟨h.1,h.2.1⟩
    | after => exact ⟨h.1,h.2.1⟩
    | gone => exact h

lemma In.moves (h : In x r b) (hm : Moves x r b b') : In x r b' := by
  cases hm with
  | stay => exact h
  | leave hret =>
    obtain ⟨hp,-⟩ | ⟨hp,-⟩ | ⟨v,hp,hf⟩ := h
    · rw [hret] at hp; simp at hp
    · rw [hret] at hp; cases hp
    · rw [hret] at hp
      cases hp
      exact ⟨by rw [hret]; rfl,hf⟩
  | back hk => exact h.1
  | quit hb =>
    cases b with
    | before => exact show Ipc.Pc.outside _ = true by rw [h.1]; rfl
    | during => exact absurd rfl hb
    | returned v => exact h.1
    | after => exact h
    | gone => exact h

lemma outside_wake {q : Ipc.Pc} (h : q.outside) : q.wakeRead = q ∧ q.wakeWrite = q := by
  cases q <;> first | exact ⟨rfl,rfl⟩ | cases h

/-- The writer never sleeps: the pipe is never full. -/
lemma Out.wake (h : Out x w a) : (x.pc w).wakeRead = x.pc w ∧ (x.pc w).wakeWrite = x.pc w := by
  cases a with
  | before => rw [h.1]; exact ⟨rfl,rfl⟩
  | during =>
    obtain ⟨j,-,-,hp | hp⟩ | ⟨r,hp,-⟩ := h
    all_goals rw [hp]; exact ⟨rfl,rfl⟩
  | returned r => exact outside_wake h.1
  | after => exact outside_wake h.1
  | gone => exact outside_wake h.1

lemma Out.other (h : Out x w a)
    (hpc : y.pc w = x.pc w ∨ y.pc w = (x.pc w).wakeRead ∨ y.pc w = (x.pc w).wakeWrite)
    (hput : y.put = x.put) (hk : x.killed w = true → y.killed w = true)
    (ho : x.pipe.readopen = false → y.pipe.readopen = false) : Out y w a := by
  have hst : Stored x w → Stored y w :=
    Or.imp (fun hs => hput ▸ hs) (Or.imp hk ho)
  have hpc' : y.pc w = x.pc w := by
    obtain hpc | hpc | hpc := hpc
    · exact hpc
    · exact hpc.trans h.wake.1
    · exact hpc.trans h.wake.2
  cases a <;> simp only [Out,hpc',hput] at h ⊢
  case before | gone => exact h
  case during => exact h.imp id fun ⟨r,hp,hl,hs⟩ => ⟨r,hp,hl,hst hs⟩
  case returned => exact ⟨h.1,h.2.1,hst h.2.2⟩
  case after => exact ⟨h.1,h.2.1,h.2.2.imp id ho⟩

lemma In.other (h : In x r b)
    (hpc : y.pc r = x.pc r ∨ y.pc r = (x.pc r).wakeRead ∨ y.pc r = (x.pc r).wakeWrite)
    (hgot : y.got = x.got) (hk : x.killed r = true → y.killed r = true) : In y r b := by
  have hf : ∀ v, Fetched x r v → Fetched y r v := fun v =>
    Or.imp (fun hs => hgot ▸ hs) (Or.imp id hk)
  -- everywhere but at `sleepRead` a wakeup does nothing
  have hpc' : y.pc r = x.pc r ∨ x.pc r = .sleepRead 1 ∧ y.pc r = .wantRead 1 := by
    cases b with
    | before => exact .inl (by rw [h.1] at hpc ⊢; simpa [Ipc.Pc.wakeRead,Ipc.Pc.wakeWrite] using hpc)
    | during =>
      obtain ⟨hp | hp | hp | hp,-⟩ | ⟨hp,-⟩ | ⟨v,hp,-⟩ := h <;> rw [hp] at hpc ⊢ <;>
        simpa [Ipc.Pc.wakeRead,Ipc.Pc.wakeWrite,or_comm] using hpc
    | returned v => exact .inl (by simpa [outside_wake h.1] using hpc)
    | after | gone => exact .inl (by simpa [outside_wake h] using hpc)
  obtain he | ⟨hx,hy⟩ := hpc'
  · cases b <;> simp only [In,he,hgot] at h ⊢
    case before | after | gone => exact h
    case during => exact h.imp id (Or.imp id (by rintro ⟨v,hp,hv⟩; exact ⟨v,hp,hf v hv⟩))
    case returned v => exact ⟨h.1,hf v h.2⟩
  · cases b <;> simp only [In,hx,Ipc.Pc.outside,reduceCtorEq,false_and,Bool.false_eq_true] at h
    simp only [false_or,or_false,true_and,exists_false] at h
    exact .inl ⟨.inl hy,hgot.trans (by simpa using h)⟩

lemma Out.holds (h : Out x w a) (hh : (x.pc w).holds = true) : a = .during := by
  cases a with
  | during => rfl
  | before => rw [h.1] at hh; cases hh
  | returned | after | gone => rw [outside_holds h.1] at hh; cases hh

lemma In.holds (h : In x r b) (hh : (x.pc r).holds = true) : b = .during := by
  cases b with
  | during => rfl
  | before => rw [h.1] at hh; cases hh
  | returned => rw [outside_holds h.1] at hh; cases hh
  | after | gone => rw [outside_holds h] at hh; cases hh

/-- What does not depend on who makes the step. -/
lemma Chan.step (h : Chan x w r a b) (hs : Ipc.step x e = some y) (hann : Ipc.Announced x e)
    (hact : e.actor = some w ∨ e.actor = some r ∨ e.actor = none) (hw : Out y w a')
    (hr : In y r b') : Chan y w r a' b' where
  inv := Ipc.step_inv h.inv hs
  awake := step_awake h.inv h.awake hann hs
  held := step_held h.held hs
  strangers p hpw hpr := by
    have hp : e.actor ≠ some p := by
      rintro he
      rw [he] at hact
      simp [hpw,hpr] at hact
    have hi := h.strangers p hpw hpr
    obtain hpc | hpc | hpc := step_other hs hp
    all_goals rw [hpc,hi]; try rfl
  writer := hw
  reader := hr

lemma Chan.startWrite (h : Chan x w r .before b) (hne : r ≠ w)
    (hs : Ipc.step x (.write w 1) = some y) : Chan y w r .during b := by
  obtain ⟨hg,hp,hk,-⟩ := step_frame hs
  refine h.step hs trivial (.inl rfl) (.inl ⟨0,?_,by decide,.inl ?_⟩)
    (h.reader.other (step_other hs (by simpa [Ipc.Event.actor] using hne.symm)) (hg (by simp))
      (by rw [hk (by simp)]; exact id))
  · rw [hp (by simp),h.writer.2]
    rfl
  · rw [step_write hs,goto_pc]
    rfl

lemma Chan.startRead (h : Chan x w r a .before) (hne : r ≠ w)
    (hs : Ipc.step x (.read r 1) = some y) : Chan y w r a .during := by
  obtain ⟨hg,hp,hk,ho⟩ := step_frame hs
  refine h.step hs trivial (.inr (.inl rfl))
    (h.writer.other (step_other hs (by simpa [Ipc.Event.actor] using hne)) (hp (by simp))
      (by rw [hk (by simp)]; exact id) (by rw [(ho (by simp)).1]; exact id)) (.inl ⟨.inl ?_,?_⟩)
  · rw [step_read hs,goto_pc]
  · rw [hg (by simp),h.reader.2]

lemma Out.during {c : UInt8} (h : Out x w .during) (hfifo : Ipc.Fifo x)
    (he : pipeEvent w c (x.pc w) = some e) (hs : Ipc.step x e = some y) :
    Ipc.Announced x e ∧ e.actor = some w ∧ (∀ p, e ≠ .kill p) ∧ (∀ p ok, e ≠ .readIter p ok) ∧
      Out y w .during ∧ (y.put = x.put ∨ y.put = x.put++[c]) := by
  obtain ⟨j,hj,hle,hp | hp⟩ | ⟨v,hp,-⟩ := h
  · rw [hp] at he
    cases he
    have hy := step_acquire_write hs hp
    subst hy
    exact ⟨trivial,rfl,nofun,nofun,.inl ⟨j,hj,hle,.inr (goto_pc _ _ _)⟩,.inl rfl⟩
  · rw [hp] at he
    cases he
    have hy := step_writeIter hs hp
    subst hy
    refine ⟨?_,rfl,nofun,nofun,?_⟩
    · simp only [Ipc.Announced,hp]
      omega
    unfold Ipc.pipewriteIter
    split_ifs with hlt hstop hfull
    · refine ⟨.inr ⟨-1,goto_pc _ _ _,hj ▸ hle,?_⟩,.inl rfl⟩
      exact hstop.elim (fun ho => .inr (.inr ho)) fun hk => .inr (.inl hk)
    · -- one byte does not fill the pipe
      have := hfifo.full_iff.mp hfull
      simp only [Ipc.PIPESIZE] at this
      omega
    · refine ⟨.inl ⟨j+1,by simp [Ipc.Sys.goto,Ipc.Sys.store,hj],by omega,.inr ?_⟩,.inr rfl⟩
      rw [goto_pc]
      rfl
    · refine ⟨.inr ⟨j,goto_pc _ _ _,hj ▸ hle,.inl ?_⟩,.inl rfl⟩
      have hne : x.put ≠ [] := by
        rintro he
        rw [he] at hj
        simp at hj
        omega
      exact hne
  · rw [hp] at he
    cases he

lemma In.during {c : UInt8} (h : In x r .during)
    (he : pipeEvent r c (x.pc r) = some e) (hs : Ipc.step x e = some y) :
    Ipc.Announced x e ∧ e.actor = some r ∧ (∀ p, e ≠ .kill p) ∧ (∀ p src, e ≠ .writeIter p src) ∧
      (∀ b, e ≠ .close b) ∧ In y r .during := by
  obtain ⟨hp | hp | hp | hp,hg⟩ | ⟨hp,hg⟩ | ⟨v,hp,-⟩ := h
  · rw [hp] at he
    cases he
    have hy := step_acquire_read hs hp
    subst hy
    exact ⟨trivial,rfl,nofun,nofun,nofun,.inl ⟨.inr (.inl (goto_pc _ _ _)),hg⟩⟩
  · rw [hp] at he
    cases he
    have hy := step_readTest hs hp
    subst hy
    refine ⟨trivial,rfl,nofun,nofun,nofun,?_⟩
    unfold Ipc.pipereadTest
    split_ifs with hempty hk
    · exact .inr (.inr ⟨-1,goto_pc _ _ _,.inr (.inr hk)⟩)
    · exact .inl ⟨.inr (.inr (.inl (goto_pc _ _ _))),hg⟩
    · exact .inl ⟨.inr (.inr (.inr (goto_pc _ _ _))),hg⟩
  · rw [hp] at he
    cases he
  · rw [hp] at he
    cases he
    have hy := step_readIter hs hp
    subst hy
    refine ⟨trivial,rfl,nofun,nofun,nofun,?_⟩
    unfold Ipc.pipereadIter
    rw [if_pos (by decide),if_pos rfl]
    split_ifs with hempty
    · exact .inr (.inr ⟨0,goto_pc _ _ _,.inr (.inl rfl)⟩)
    · exact .inr (.inl ⟨goto_pc _ _ _,by simp [Ipc.Sys.goto,Ipc.Sys.fetch]⟩)
  · rw [hp] at he
    cases he
    have hy := step_readIter hs hp
    subst hy
    refine ⟨trivial,rfl,nofun,nofun,nofun,.inr (.inr ⟨1,?_,.inl ?_⟩)⟩
    · unfold Ipc.pipereadIter
      rw [if_neg (by decide)]
      exact goto_pc _ _ _
    · unfold Ipc.pipereadIter
      rw [if_neg (by decide)]
      exact hg
  · rw [hp] at he
    cases he

lemma Chan.write {c : UInt8} (h : Chan x w r .during b) (hne : r ≠ w)
    (he : pipeEvent w c (x.pc w) = some e) (hs : Ipc.step x e = some y) :
    Chan y w r .during b ∧ y.got = x.got ∧ (y.put = x.put ∨ y.put = x.put++[c]) := by
  obtain ⟨hann,hact,hkill,hread,hout,hput⟩ := h.writer.during h.inv.fifo he hs
  obtain ⟨hg,-,hk,-⟩ := step_frame hs
  refine ⟨h.step hs hann (.inl hact) hout ?_,hg hread,hput⟩
  exact h.reader.other (step_other hs (by simpa [hact] using hne.symm)) (hg hread)
    (by rw [hk hkill]; exact id)

lemma Chan.read {c : UInt8} (h : Chan x w r a .during) (hne : r ≠ w)
    (he : pipeEvent r c (x.pc r) = some e) (hs : Ipc.step x e = some y) :
    Chan y w r a .during ∧ y.put = x.put := by
  obtain ⟨hann,hact,hkill,hwrite,hclose,hin⟩ := h.reader.during he hs
  obtain ⟨-,hp,hk,ho⟩ := step_frame hs
  refine ⟨h.step hs hann (.inr (.inl hact)) ?_ hin,hp hwrite⟩
  exact h.writer.other (step_other hs (by simpa [hact] using hne)) (hp hwrite)
    (by rw [hk hkill]; exact id) (by rw [(ho hclose).1]; exact id)

lemma Chan.close {f : Bool} (h : Chan x w r a b) (hs : Ipc.step x (.close f) = some y) :
    Chan y w r a b := by
  obtain ⟨hg,hp,hk,-⟩ := step_frame hs
  have hro : x.pipe.readopen = false → y.pipe.readopen = false := by
    intro ho
    rw [step_close hs]
    cases f
    · rfl
    · exact ho
  exact h.step hs trivial (.inr (.inr rfl))
    (h.writer.other (step_other hs nofun) (hp nofun) (by rw [hk nofun]; exact id) hro)
    (h.reader.other (step_other hs nofun) (hg nofun) (by rw [hk nofun]; exact id))

lemma Chan.kill (h : Chan x w r a b) (hp : p = w ∨ p = r) : Chan (Ipc.kill x p) w r a b := by
  -- nor at whether its page is still there
  have hs : Ipc.step { x with freed := false } (.kill p) =
      some (Ipc.kill { x with freed := false } p) := rfl
  have hinv : Ipc.Inv { x with freed := false } :=
    ⟨h.inv.fifo.congr rfl rfl rfl rfl rfl,h.inv.lock,h.inv.copy,h.inv.copied⟩
  have hawake : Ipc.Awake { x with freed := false } :=
    ⟨h.awake.readers,h.awake.writers,h.awake.written⟩
  have hi := Ipc.step_inv hinv hs
  have ha := step_awake (e := .kill p) hinv hawake trivial hs
  have hh := step_held (s := { x with freed := false }) h.held hs
  have hk : ∀ q, x.killed q = true → (Ipc.kill x p).killed q = true := by
    intro q hq
    by_cases he : q = p
    · simp [Ipc.kill,Ipc.Sys.goto,he]
    · simpa [Ipc.kill,Ipc.Sys.goto,he] using hq
  have hpc : ∀ q, q ≠ p → (Ipc.kill x p).pc q = x.pc q := fun q hq => goto_pc_ne _ _ hq
  have hpc' : (Ipc.kill x p).pc p = (x.pc p).wakeRead.wakeWrite := goto_pc _ _ _
  refine ⟨⟨hi.fifo.congr rfl rfl rfl rfl rfl,hi.lock,hi.copy,hi.copied⟩,
    ⟨ha.readers,ha.writers,ha.written⟩,hh,fun q hqw hqr => ?_,
    h.writer.other ?_ rfl (hk w) id,h.reader.other ?_ rfl (hk r)⟩
  · rw [hpc q (by rintro rfl; simp [hqw,hqr] at hp)]
    exact h.strangers q hqw hqr
  · by_cases he : w = p
    · subst he
      rw [hpc',h.writer.wake.1,h.writer.wake.2]
      exact .inl rfl
    · exact .inl (hpc w he)
  · by_cases he : r = p
    · subst he
      rw [hpc']
      cases x.pc r <;> simp [Ipc.Pc.wakeRead,Ipc.Pc.wakeWrite]
    · exact .inl (hpc r he)

end Pipe

/-! ### The two processes -/

def Link.writer : Link → Who
  | .pipe1 => .parent
  | .pipe2 => .child

def Link.reader (i : Link) : Who := i.writer.other

lemma pid_reader_ne (i : Link) : i.reader.pid ≠ i.writer.pid := by cases i <;> decide

lemma pid_eq (i : Link) (w : Who) : w = i.writer ∨ w = i.reader := by
  cases i <;> cases w <;> decide

/-- How often a line is on the console. -/
def Lines (h : List Obs) (w : Who) : Phase → Prop
  | .before | .during => h.count (.printed w) = 0
  | .returned _ | .after => h.count (.printed w) = 1
  | .gone => h.count (.printed w) ≤ 1

/-- What holds of the pipe `i`. -/
structure Sys.Wire (s : Sys) (i : Link) : Prop where
  chan : Chan (s.pipe i) i.writer.pid i.reader.pid (s.phase i.writer (.write ⟨i,true⟩))
    (s.phase i.reader (.read ⟨i,false⟩))
  killed : ∀ w, (s.pipe i).killed w.pid = s.killed w
  readopen : (s.pipe i).pipe.readopen = (s.ofile .parent ⟨i,false⟩ || s.ofile .child ⟨i,false⟩)
  writeopen : (s.pipe i).pipe.writeopen = (s.ofile .parent ⟨i,true⟩ || s.ofile .child ⟨i,true⟩)
  freed : (s.pipe i).freed = (!(s.pipe i).pipe.readopen && !(s.pipe i).pipe.writeopen)
  sent : ∀ b ∈ (s.pipe i).put, .sent i.writer b ∈ s.hist
  received : ∀ b ∈ (s.pipe i).got, .received i.reader b ∈ s.hist
  pong : i = .pipe2 → (s.pipe i).put ≠ [] → .printed .child ∈ s.hist

/-- What holds of the process `w`. -/
structure Sys.Place (s : Sys) (w : Who) : Prop where
  suffix : s.todo w <:+ main w
  inside : s.mode w = .inside → ∃ fd cs, s.todo w = .read fd::cs ∨ s.todo w = .write fd::cs
  opened : ∀ fd, s.phase w (.close fd) = .before → s.ofile w fd = true
  lines : Lines s.hist w (s.phase w .print)

structure Inv (s : Sys) : Prop where
  wire : ∀ i, s.Wire i
  place : ∀ w, s.Place w

lemma init_inv (page : Link → Fin Ipc.PIPESIZE → UInt8) (killed : Who → Bool) :
    Inv (init page killed) := by
  refine ⟨fun i => ⟨?_,fun w => by cases w <;> rfl,rfl,rfl,rfl,(fun b h => nomatch h),
    (fun b h => nomatch h),fun _ h => absurd rfl h⟩,
    fun w => ⟨suffix_refl _,(fun h => nomatch h),fun fd h => rfl,by cases w <;> rfl⟩⟩
  have hw : (init page killed).phase i.writer (.write ⟨i,true⟩) = .before := by cases i <;> rfl
  have hr : (init page killed).phase i.reader (.read ⟨i,false⟩) = .before := by cases i <;> rfl
  rw [hw,hr]
  exact ⟨Ipc.init_inv _ _,⟨nofun,nofun,fun p => le_rfl⟩,nofun,fun p _ _ => rfl,⟨rfl,rfl⟩,⟨rfl,rfl⟩⟩

section Phases
variable {m : Mode} {cs : List Call} {c c₀ : Call} {r : ℤ}

def Mode.alive : Mode → Bool
  | .exiting | .zombie => false
  | _ => true

/-- A call that is not the current one is all ahead or all done. -/
lemma phase_ne (hm : m.alive) (h : c ≠ c₀) :
    phase m (c₀::cs) c = if c ∉ cs then .after else .before := by
  have hne : ¬(c₀::cs).head? = some c := by simpa using h.symm
  cases m <;> simp only [Mode.alive,Bool.false_eq_true] at hm <;>
    simp only [phase,hne,if_false,mem_cons,h,false_or]

lemma phase_inside : phase .inside (c::cs) c = .during := by simp [phase]
lemma phase_leaving : phase (.leaving r) (c::cs) c = .returned r := by simp [phase]
lemma phase_entered : phase .entered (c::cs) c = .before := by simp [phase]

lemma phase_dead (hm : m.alive = false) (cs : List Call) (c : Call) : phase m cs c = .gone := by
  cases m <;> first | rfl | cases hm

lemma phase_after : phase m cs c = .after ↔ m.alive = true ∧ c ∉ cs := by
  cases m with
  | exiting | zombie => simp [phase,Mode.alive]
  | user | entered | inside | leaving r =>
    simp only [phase,Mode.alive]
    split_ifs <;> simp_all

lemma phase_during (h : phase m cs c = .during) : m = .inside ∧ cs.head? = some c := by
  cases m with
  | inside =>
    simp only [phase] at h
    split_ifs at h with h₁ h₂
    exact ⟨rfl,h₂⟩
  | leaving r =>
    simp only [phase] at h
    split_ifs at h
  | exiting | zombie => cases h
  | user | entered =>
    simp only [phase] at h
    split_ifs at h

end Phases

section Program
variable {w : Who} {cs : List Call} {fd : Fd}

lemma main_nodup (w : Who) : (main w).Nodup := by cases w <;> decide

lemma mem_main (w : Who) (fd : Fd) :
    (.read fd ∈ main w → fd.writable = false ∧ w = fd.pipe.reader) ∧
    (.write fd ∈ main w → fd.writable = true ∧ w = fd.pipe.writer) := by
  obtain ⟨i,b⟩ := fd
  cases w <;> cases i <;> cases b <;> decide

lemma close_later (w : Who) : ∀ cs ∈ (main w).tails, ∀ c ∈ cs.head?, ∀ fd,
    (c = .read fd ∨ c = .write fd) → .close fd ∈ cs.tail := by
  cases w <;> simp [main]

/-- What a process has behind it at some of its calls. -/
lemma read_before_print (i : Link) : ∀ cs ∈ (main i.reader).tails, cs.head? = some .print →
    .read ⟨i,false⟩ ∉ cs := by
  cases i <;> decide

lemma print_before_pong : ∀ cs ∈ (main .child).tails, cs.head? = some (.write ⟨.pipe2,true⟩) →
    .print ∉ cs := by
  decide

lemma ping_before_read : ∀ cs ∈ (main .parent).tails, cs.head? = some (.read ⟨.pipe2,false⟩) →
    .write ⟨.pipe1,true⟩ ∉ cs := by
  decide

end Program

/-- What a process can do in a state that meets the invariant. -/
inductive Ran (s : Sys) (w : Who) : Sys → Prop
  | quit {m} (hs : s.mode w ≠ .inside) (hm : m.alive = false) : Ran s w (s.goto w m)
  | enter (hs : s.mode w = .user) : Ran s w (s.goto w .entered)
  | leave {r c cs} (hs : s.mode w = .entered) (ht : s.todo w = c::cs)
      (hc : c = .getpid ∨ c = .wait) : Ran s w (s.goto w (.leaving r))
  | print {cs} (hs : s.mode w = .entered) (ht : s.todo w = .print::cs) :
      Ran s w (Sys.goto { s with hist := s.hist++[.printed w] } w (.leaving 0))
  | close {fd cs t} (hs : s.mode w = .entered) (ht : s.todo w = .close fd::cs)
      (hf : s.fileclose w fd = some t) : Ran s w (t.goto w (.leaving 0))
  | exit {fd t} (hs : s.mode w = .exiting) (hf : s.fileclose w fd = some t) :
      Ran s w (t.goto w .exiting)
  | startRead {i cs y} (hs : s.mode w = .entered) (ht : s.todo w = .read ⟨i,false⟩::cs)
      (hw : w = i.reader) (hy : Ipc.step (s.pipe i) (.read w.pid 1) = some y) :
      Ran s w ((s.piped w i y).goto w .inside)
  | startWrite {i cs y} (hs : s.mode w = .entered) (ht : s.todo w = .write ⟨i,true⟩::cs)
      (hw : w = i.writer) (hy : Ipc.step (s.pipe i) (.write w.pid 1) = some y) :
      Ran s w ((s.piped w i y).goto w .inside)
  | read {i cs e y} (hs : s.mode w = .inside) (ht : s.todo w = .read ⟨i,false⟩::cs)
      (hw : w = i.reader) (he : pipeEvent w.pid (s.byte w) ((s.pipe i).pc w.pid) = some e)
      (hy : Ipc.step (s.pipe i) e = some y) : Ran s w ((s.piped w i y).goto w .inside)
  | write {i cs e y} (hs : s.mode w = .inside) (ht : s.todo w = .write ⟨i,true⟩::cs)
      (hw : w = i.writer) (he : pipeEvent w.pid (s.byte w) ((s.pipe i).pc w.pid) = some e)
      (hy : Ipc.step (s.pipe i) e = some y) : Ran s w ((s.piped w i y).goto w .inside)
  | ret {r c cs fd} (hs : s.mode w = .inside) (ht : s.todo w = c::cs)
      (hc : c = .read fd ∨ c = .write fd) (hr : (s.pipe fd.pipe).pc w.pid = .ret r) :
      Ran s w (s.goto w (.leaving r))
  | back {r c cs} (hs : s.mode w = .leaving r) (ht : s.todo w = c::cs) (hk : s.killed w = false) :
      Ran s w (Sys.goto { s with todo := update s.todo w cs } w .user)

section Steps
variable {s t : Sys} {w : Who} {cs : List Call} {c c' : Call} {m : Mode}

lemma phase_congr (hm : t.mode w = s.mode w) (ht : t.todo w = s.todo w) (c : Call) :
    t.phase w c = s.phase w c := by
  rw [Sys.phase,Sys.phase,hm,ht]

lemma phase_other (hs : (s.mode w).alive) (ht : s.todo w = c::cs) (hne : c' ≠ c)
    (hm : m.alive) : phase m (s.todo w) c' = s.phase w c' := by
  rw [Sys.phase,ht,phase_ne hm hne,phase_ne hs hne]

lemma Lines.of_count {l l' : List Obs} {a : Phase} (h : Lines l w a)
    (hc : l'.count (.printed w) = l.count (.printed w)) : Lines l' w a := by
  cases a <;> simp only [Lines,hc] at h ⊢ <;> exact h

variable {i : Link}

/-- A pipe that nothing happens to while the processes move on. -/
lemma Sys.Wire.keep (h : s.Wire i) (hpipe : t.pipe i = s.pipe i) (hkilled : t.killed = s.killed)
    (hofile : ∀ v b, t.ofile v ⟨i,b⟩ = s.ofile v ⟨i,b⟩) (hhist : s.hist ⊆ t.hist)
    (hm : ∀ v c, (c = .write ⟨i,true⟩ ∨ c = .read ⟨i,false⟩) →
      Moves (s.pipe i) v.pid (s.phase v c) (t.phase v c)) : t.Wire i := by
  have hc := h.chan
  constructor
  · rw [hpipe]
    exact ⟨hc.inv,hc.awake,hc.held,hc.strangers,hc.writer.moves (hm _ _ (.inl rfl)),
      hc.reader.moves (hm _ _ (.inr rfl))⟩
  · rw [hpipe,hkilled]
    exact h.killed
  · rw [hpipe,hofile,hofile]
    exact h.readopen
  · rw [hpipe,hofile,hofile]
    exact h.writeopen
  · rw [hpipe]
    exact h.freed
  · exact fun b hb => hhist (h.sent b (hpipe ▸ hb))
  · exact fun b hb => hhist (h.received b (hpipe ▸ hb))
  · exact fun hi hb => hhist (h.pong hi (hpipe ▸ hb))

/-- A step of `w`: the other process is where it was. -/
lemma Inv.of_step (h : Inv s) (hmode : ∀ v, v ≠ w → t.mode v = s.mode v)
    (htodo : ∀ v, v ≠ w → t.todo v = s.todo v) (hofile : ∀ v, v ≠ w → t.ofile v = s.ofile v)
    (hcount : ∀ v, v ≠ w → t.hist.count (.printed v) = s.hist.count (.printed v))
    (hplace : t.Place w) (hwire : ∀ i, t.Wire i) : Inv t := by
  refine ⟨hwire,fun v => ?_⟩
  by_cases hv : v = w
  · exact hv ▸ hplace
  have hp := h.place v
  have hphase := phase_congr (hmode v hv) (htodo v hv)
  refine ⟨htodo v hv ▸ hp.suffix,?_,fun fd hf => ?_,?_⟩
  · rw [hmode v hv,htodo v hv]
    exact hp.inside
  · rw [hofile v hv]
    exact hp.opened fd (hphase _ ▸ hf)
  · rw [hphase]
    exact hp.lines.of_count (hcount v hv)

/-- A step of `w` that changes nothing but its own position. -/
lemma Inv.move (h : Inv s) (hpipe : t.pipe = s.pipe) (hofile : t.ofile = s.ofile)
    (hkilled : t.killed = s.killed) (hhist : t.hist = s.hist)
    (hmode : ∀ v, v ≠ w → t.mode v = s.mode v) (htodo : ∀ v, v ≠ w → t.todo v = s.todo v)
    (hsuffix : t.todo w <:+ main w) (hinside : t.mode w ≠ .inside)
    (hmoves : ∀ i, ∀ c, (c = .write ⟨i,true⟩ ∨ c = .read ⟨i,false⟩) →
      Moves (s.pipe i) w.pid (s.phase w c) (t.phase w c))
    (hclose : ∀ fd, t.phase w (.close fd) = .before → s.phase w (.close fd) = .before)
    (hline : Lines s.hist w (t.phase w .print)) : Inv t := by
  refine h.of_step hmode htodo (fun v _ => by rw [hofile]) (fun v _ => by rw [hhist])
    ⟨hsuffix,fun hi => absurd hi hinside,fun fd hf => ?_,hhist ▸ hline⟩
    fun i => (h.wire i).keep (congrFun hpipe i) hkilled (fun v b => by rw [hofile])
      (fun o ho => hhist ▸ ho) fun v c hc => ?_
  · rw [hofile]
    exact (h.place w).opened fd (hclose fd hf)
  · by_cases hv : v = w
    · subst hv
      exact hmoves i c hc
    · rw [phase_congr (hmode v hv) (htodo v hv)]
      exact .stay _

@[simp] lemma goto_mode (s : Sys) (w : Who) (m : Mode) : (s.goto w m).mode w = m := by
  simp [Sys.goto]

lemma goto_mode_ne (s : Sys) {v w : Who} (m : Mode) (h : v ≠ w) :
    (s.goto w m).mode v = s.mode v := by
  simp [Sys.goto,h]

lemma goto_phase (s : Sys) (w : Who) (m : Mode) (c : Call) :
    (s.goto w m).phase w c = phase m (s.todo w) c := by
  rw [Sys.phase,goto_mode]
  rfl

variable {m : Mode}

lemma Inv.goto (h : Inv s) (hm : m ≠ .inside)
    (hmoves : ∀ i, ∀ c, (c = .write ⟨i,true⟩ ∨ c = .read ⟨i,false⟩) →
      Moves (s.pipe i) w.pid (s.phase w c) (phase m (s.todo w) c))
    (hclose : ∀ fd, phase m (s.todo w) (.close fd) = .before → s.phase w (.close fd) = .before)
    (hline : Lines s.hist w (phase m (s.todo w) .print)) : Inv (s.goto w m) := by
  refine h.move (w := w) rfl rfl rfl rfl (fun v hv => goto_mode_ne s m hv) (fun v hv => rfl)
    (h.place w).suffix (by simpa using hm) ?_ ?_ ?_
  · simpa only [goto_phase] using hmoves
  · simpa only [goto_phase] using hclose
  · simpa only [goto_phase] using hline

/-- The first check of `usertrap` does not find the process killed. -/
lemma Inv.enter (h : Inv s) (hm : s.mode w = .user) : Inv (s.goto w .entered) := by
  have hsame : ∀ c, phase .entered (s.todo w) c = s.phase w c := by
    intro c
    rw [Sys.phase,hm]
    rfl
  refine h.goto nofun (fun i c _ => ?_) (fun fd hf => ?_) ?_
  · rw [hsame]
    exact .stay _
  · rwa [hsame] at hf
  · rw [hsame]
    exact (h.place w).lines

lemma Lines.le_one {l : List Obs} {a : Phase} (h : Lines l w a) : l.count (.printed w) ≤ 1 := by
  cases a <;> simp only [Lines] at h <;> omega

lemma Inv.count_le_one (h : Inv s) (w : Who) : s.hist.count (.printed w) ≤ 1 := (h.place w).lines.le_one

lemma Inv.quit (h : Inv s) (hs : s.mode w ≠ .inside) (hm : m.alive = false) : Inv (s.goto w m) := by
  refine h.goto (by rintro rfl; cases hm) (fun i c _ => ?_) (fun fd hf => ?_) ?_
  · rw [phase_dead hm]
    exact .quit fun he => hs (phase_during he).1
  · rw [phase_dead hm] at hf
    cases hf
  · rw [phase_dead hm]
    exact h.count_le_one w

lemma Inv.leave {r : ℤ} (h : Inv s) (hm : s.mode w = .entered) (ht : s.todo w = c::cs)
    (hc : c = .getpid ∨ c = .wait) : Inv (s.goto w (.leaving r)) := by
  have hsame : ∀ c', c' ≠ c → phase (.leaving r) (s.todo w) c' = s.phase w c' := fun c' h =>
    phase_other (by rw [hm]; rfl) ht h rfl
  refine h.goto nofun (fun i c' hc' => ?_) (fun fd hf => ?_) ?_
  · rw [hsame c' (by rintro rfl; obtain rfl | rfl := hc <;> simp at hc')]
    exact .stay _
  · rwa [hsame _ (by rintro rfl; simp at hc)] at hf
  · rw [hsame _ (by rintro rfl; simp at hc)]
    exact (h.place w).lines

lemma Inv.ret {r : ℤ} {fd : Fd} (h : Inv s) (hm : s.mode w = .inside) (ht : s.todo w = c::cs)
    (hc : c = .read fd ∨ c = .write fd) (hr : (s.pipe fd.pipe).pc w.pid = .ret r) :
    Inv (s.goto w (.leaving r)) := by
  have hsame : ∀ c', c' ≠ c → phase (.leaving r) (s.todo w) c' = s.phase w c' := fun c' h =>
    phase_other (by rw [hm]; rfl) ht h rfl
  have hfd : ∀ i, (c = .write ⟨i,true⟩ ∨ c = .read ⟨i,false⟩) → fd.pipe = i := by
    rintro i (rfl | rfl)
    · simp only [reduceCtorEq,Call.write.injEq,false_or] at hc
      rw [← hc]
    · simp only [reduceCtorEq,Call.read.injEq,or_false] at hc
      rw [← hc]
  refine h.goto nofun (fun i c' hc' => ?_) (fun fd' hf => ?_) ?_
  · by_cases he : c' = c
    · subst he
      rw [Sys.phase,hm,ht,phase_inside,phase_leaving]
      exact .leave (hfd i hc' ▸ hr)
    · rw [hsame c' he]
      exact .stay _
  · rwa [hsame _ (by rintro rfl; simp at hc)] at hf
  · rw [hsame _ (by rintro rfl; simp at hc)]
    exact (h.place w).lines

/-- The process goes back to user mode, past the second check of `usertrap`. -/
lemma Inv.back {r : ℤ} (h : Inv s) (hm : s.mode w = .leaving r) (ht : s.todo w = c::cs)
    (hk : s.killed w = false) :
    Inv (Sys.goto { s with todo := update s.todo w cs } w .user) := by
  have hsuf := ht ▸ (h.place w).suffix
  have hc : c ∉ cs := (nodup_cons.mp ((main_nodup w).sublist hsuf.sublist)).1
  have hphase : ∀ c', Sys.phase (Sys.goto { s with todo := update s.todo w cs } w .user) w c' =
      if c' ∉ cs then .after else .before := by
    intro c'
    rw [goto_phase]
    simp [phase]
  have hsame : ∀ c', c' ≠ c → s.phase w c' = if c' ∉ cs then .after else .before := by
    intro c' hne
    rw [Sys.phase,hm,ht,phase_ne rfl hne]
  refine h.move (w := w) rfl rfl rfl rfl (fun v hv => goto_mode_ne _ _ hv)
    (fun v hv => update_of_ne hv _ _) ?_ (by simp) (fun i c' hc' => ?_) (fun fd hf => ?_) ?_
  · simpa [Sys.goto] using (suffix_cons c cs).trans hsuf
  · rw [hphase]
    by_cases he : c' = c
    · subst he
      rw [Sys.phase,hm,ht,phase_leaving,if_pos hc]
      exact .back (((h.wire i).killed w).trans hk)
    · rw [hsame c' he]
      exact .stay _
  · rw [hphase] at hf
    have hmem : Call.close fd ∈ cs := by
      by_contra hn
      rw [if_pos hn] at hf
      cases hf
    rw [hsame _ (by rintro rfl; exact hc hmem)]
    exact hf
  · have hl := (h.place w).lines
    rw [hphase]
    by_cases he : Call.print = c
    · subst he
      rw [Sys.phase,hm,ht,phase_leaving] at hl
      rw [if_pos hc]
      exact hl
    · rwa [hsame _ he] at hl

lemma not_printed (v w : Who) (l l' : List UInt8) :
    .printed v ∉ l.map (Obs.sent w)++l'.map (Obs.received w) := by
  simp

lemma count_piped (v w : Who) (i : Link) (y : Ipc.Sys) :
    (s.piped w i y).hist.count (.printed v) = s.hist.count (.printed v) := by
  rw [Sys.piped,append_assoc,count_append,
    count_eq_zero_of_not_mem (not_printed v w _ _),add_zero]

lemma mem_of_prefix {α : Type*} {l l' : List α} (h : l <+: l') {b : α} (hb : b ∈ l') :
    b ∈ l ∨ b ∈ l'.drop l.length := by
  obtain ⟨k,rfl⟩ := h
  simpa using hb

lemma Inv.pipe {e : Ipc.Event} {y : Ipc.Sys} (h : Inv s)
    (hs : Ipc.step (s.pipe i) e = some y) (hk : ∀ p, e ≠ .kill p) (hcl : ∀ b, e ≠ .close b)
    (hm : s.mode w = .entered ∨ s.mode w = .inside) (ht : s.todo w = c::cs)
    (hc : c = .read ⟨i,false⟩ ∨ c = .write ⟨i,true⟩) (hchan : Chan y i.writer.pid i.reader.pid
      (((s.piped w i y).goto w .inside).phase i.writer (.write ⟨i,true⟩))
      (((s.piped w i y).goto w .inside).phase i.reader (.read ⟨i,false⟩)))
    (hput : y.put = (s.pipe i).put ∨ w = i.writer) (hgot : y.got = (s.pipe i).got ∨ w = i.reader)
    (hpong : i = .pipe2 → y.put ≠ [] → .printed .child ∈ s.hist) :
    Inv ((s.piped w i y).goto w .inside) := by
  obtain ⟨-,-,hkilled,hopen⟩ := step_frame hs
  obtain ⟨hgp,hgg⟩ := step_grows hs
  obtain ⟨hro,hwo,hfr⟩ := hopen hcl
  have hsame : ∀ c', c' ≠ c → ((s.piped w i y).goto w .inside).phase w c' = s.phase w c' := by
    intro c' hne
    rw [goto_phase]
    exact phase_other (s := s) (by obtain hm | hm := hm <;> rw [hm] <;> rfl) ht hne rfl
  have hself : ((s.piped w i y).goto w .inside).pipe i = y := update_self ..
  have hmem : s.hist ⊆ ((s.piped w i y).goto w .inside).hist := fun o ho =>
    mem_append_left _ (mem_append_left _ ho)
  have hwi := h.wire i
  refine h.of_step (fun v hv => goto_mode_ne _ _ hv) (fun _ _ => rfl) (fun _ _ => rfl)
    (fun v _ => count_piped v w i y) ⟨(h.place w).suffix,fun _ => ?_,fun fd hf => ?_,?_⟩ fun j => ?_
  · exact hc.elim (fun hc => ⟨_,cs,.inl (hc ▸ ht)⟩) fun hc => ⟨_,cs,.inr (hc ▸ ht)⟩
  · exact (h.place w).opened fd (hsame (.close fd) (by rintro rfl; simp at hc) ▸ hf)
  · rw [hsame _ (by rintro rfl; simp at hc)]
    exact (h.place w).lines.of_count (count_piped w w i y)
  by_cases hj : j = i
  swap
  · refine (h.wire j).keep (update_of_ne hj _ _) rfl (fun _ _ => rfl) hmem fun v c' hc' => ?_
    by_cases hv : v = w
    · subst hv
      rw [hsame c' (by rintro rfl; obtain rfl | rfl := hc' <;> simp [hj] at hc)]
      exact .stay _
    · rw [phase_congr (goto_mode_ne _ _ hv) rfl]
      exact .stay _
  subst hj
  constructor
  all_goals rw [hself]
  · exact hchan
  · rw [hkilled hk]
    exact hwi.killed
  · exact hro.trans hwi.readopen
  · exact hwo.trans hwi.writeopen
  · rw [hfr,hro,hwo]
    exact hwi.freed
  · intro b hb
    obtain hput | hput := hput
    · exact hmem (hwi.sent b (hput ▸ hb))
    · obtain hb | hb := mem_of_prefix hgp hb
      · exact hmem (hwi.sent b hb)
      · rw [← hput]
        exact mem_append_left _ (mem_append_right _ (mem_map_of_mem hb))
  · intro b hb
    obtain hgot | hgot := hgot
    · exact hmem (hwi.received b (hgot ▸ hb))
    · obtain hb | hb := mem_of_prefix hgg hb
      · exact hmem (hwi.received b hb)
      · rw [← hgot]
        exact mem_append_right _ (mem_map_of_mem hb)
  · exact fun hi hb => hmem (hpong hi hb)

lemma goto_self (h : s.mode w = m) : s.goto w m = s := by
  rw [Sys.goto,← h,update_eq_self]

lemma shut_ofile (s : Sys) (v w : Who) (fd fd' : Fd) :
    (s.shut w fd).ofile v fd' = (s.ofile v fd' && !(decide (v = w) && decide (fd' = fd))) := by
  by_cases hv : v = w
  · subst hv
    by_cases hf : fd' = fd <;> simp [Sys.shut,hf]
  · simp [Sys.shut,hv]

lemma fileclose_cases {fd : Fd} (hf : s.fileclose w fd = some t) :
    (s.ofile w.other fd = true ∧ t = s.shut w fd) ∨ (s.ofile w.other fd = false ∧
      ∃ y, Ipc.step (s.pipe fd.pipe) (.close fd.writable) = some y ∧
        t = (s.shut w fd).piped w fd.pipe y) := by
  unfold Sys.fileclose at hf
  split_ifs at hf with ho
  · cases hf
    exact .inl ⟨ho,rfl⟩
  · obtain ⟨y,hy,ht⟩ := map_eq_some_iff.mp hf
    exact .inr ⟨by simpa using ho,y,hy,ht.symm⟩

/-- A descriptor is closed, by the program or in `exit`. -/
lemma Inv.closed {fd : Fd} (h : Inv s) (hf : s.fileclose w fd = some t)
    (hmode : m ≠ .inside) (hclose : phase m (s.todo w) (.close fd) ≠ .before)
    (hsame : ∀ c, c ≠ .close fd → phase m (s.todo w) c = s.phase w c)
    (hclosed : ∀ fd', fd' ≠ fd → phase m (s.todo w) (.close fd') = .before →
      s.phase w (.close fd') = .before) : Inv (t.goto w m) := by
  -- in either case one pipe changes, if only to itself
  obtain ⟨hpipe,hofile,hkilled,htodo,hmodes,hhist,hchan,hput,hgot,hk,hro,hwo,hfr⟩ :
      (∀ j, j ≠ fd.pipe → t.pipe j = s.pipe j) ∧ t.ofile = (s.shut w fd).ofile ∧
        t.killed = s.killed ∧ t.todo = s.todo ∧ t.mode = s.mode ∧ t.hist = s.hist ∧
        (∀ a b, Chan (s.pipe fd.pipe) fd.pipe.writer.pid fd.pipe.reader.pid a b →
          Chan (t.pipe fd.pipe) fd.pipe.writer.pid fd.pipe.reader.pid a b) ∧
        (t.pipe fd.pipe).put = (s.pipe fd.pipe).put ∧ (t.pipe fd.pipe).got = (s.pipe fd.pipe).got ∧
        (t.pipe fd.pipe).killed = (s.pipe fd.pipe).killed ∧
        (t.pipe fd.pipe).pipe.readopen = ((s.shut w fd).ofile .parent ⟨fd.pipe,false⟩ ||
          (s.shut w fd).ofile .child ⟨fd.pipe,false⟩) ∧
        (t.pipe fd.pipe).pipe.writeopen = ((s.shut w fd).ofile .parent ⟨fd.pipe,true⟩ ||
          (s.shut w fd).ofile .child ⟨fd.pipe,true⟩) ∧
        (t.pipe fd.pipe).freed =
          (!(t.pipe fd.pipe).pipe.readopen && !(t.pipe fd.pipe).pipe.writeopen) := by
    have hr := (h.wire fd.pipe).readopen
    have hw := (h.wire fd.pipe).writeopen
    simp only [shut_ofile]
    obtain ⟨i,b⟩ := fd
    obtain ⟨ho,rfl⟩ | ⟨ho,y,hy,rfl⟩ := fileclose_cases hf
    · refine ⟨fun _ _ => rfl,rfl,rfl,rfl,rfl,rfl,fun a b hc => hc,rfl,rfl,rfl,hr.trans ?_,
        hw.trans ?_,(h.wire i).freed⟩ <;> cases w <;> cases b <;> simp_all [Who.other]
    · obtain ⟨hg,hp,hk,-⟩ := step_frame hy
      have hyc := step_close hy
      have hself : ((s.shut w ⟨i,b⟩).piped w i y).pipe i = y := update_self ..
      have hhist : ((s.shut w ⟨i,b⟩).piped w i y).hist = s.hist := by
        simp [Sys.piped,Sys.shut,hp nofun,hg nofun]
      rw [hself]
      refine ⟨fun j hj => update_of_ne hj _ _,rfl,rfl,rfl,rfl,hhist,
        fun a b hc => hc.close hy,hp nofun,hg nofun,hk nofun,?_⟩
      cases b
      · have h₁ : y.pipe.readopen = false := by rw [hyc]; rfl
        have h₂ : y.pipe.writeopen = (s.pipe i).pipe.writeopen := by rw [hyc]; rfl
        refine ⟨?_,by simp [h₂,hw],by rw [hyc]; rfl⟩
        cases w <;> simp_all [Who.other]
      · have h₁ : y.pipe.writeopen = false := by rw [hyc]; rfl
        have h₂ : y.pipe.readopen = (s.pipe i).pipe.readopen := by rw [hyc]; rfl
        refine ⟨by simp [h₂,hr],?_,by rw [hyc]; rfl⟩
        cases w <;> simp_all [Who.other]
  have hphase : ∀ v c, c ≠ .close fd → (t.goto w m).phase v c = s.phase v c := by
    intro v c hc
    by_cases hv : v = w
    · subst hv
      rw [goto_phase,htodo]
      exact hsame c hc
    · exact phase_congr ((goto_mode_ne _ _ hv).trans (congrFun hmodes v)) (congrFun htodo v) c
  have hstay : ∀ v i c, (c = .write ⟨i,true⟩ ∨ c = .read ⟨i,false⟩) →
      Moves (s.pipe i) v.pid (s.phase v c) ((t.goto w m).phase v c) := by
    intro v i c hc
    rw [hphase v c (by obtain rfl | rfl := hc <;> nofun)]
    exact .stay _
  have hwi := h.wire fd.pipe
  refine h.of_step (fun v hv => by rw [goto_mode_ne _ _ hv,hmodes]) (fun v _ => congrFun htodo v)
    (fun v hv => (congrFun hofile v).trans (update_of_ne hv _ _)) (fun v _ => congrArg _ hhist)
    ⟨htodo ▸ (h.place w).suffix,fun hi => absurd hi (by simpa using hmode),fun fd' hv => ?_,?_⟩
    fun j => ?_
  · change t.ofile w fd' = true
    rw [goto_phase,htodo] at hv
    have hne : fd' ≠ fd := by
      rintro rfl
      exact hclose hv
    rw [hofile,shut_ofile]
    simp [hne,(h.place w).opened fd' (hclosed fd' hne hv)]
  · rw [hphase _ .print nofun]
    exact hhist ▸ (h.place w).lines
  by_cases hj : j = fd.pipe
  · subst hj
    refine ⟨?_,fun v => ?_,hofile ▸ hro,hofile ▸ hwo,hfr,fun b hb => hhist ▸ hwi.sent b (hput ▸ hb),
      fun b hb => hhist ▸ hwi.received b (hgot ▸ hb),fun hi hb => hhist ▸ hwi.pong hi (hput ▸ hb)⟩
    · rw [hphase _ (.write _) nofun,hphase _ (.read _) nofun]
      exact hchan _ _ hwi.chan
    · change (t.pipe fd.pipe).killed v.pid = t.killed v
      rw [hk,hkilled]
      exact hwi.killed v
  · refine (h.wire j).keep (hpipe j hj) hkilled (fun v b => ?_) (fun o ho => hhist ▸ ho)
      fun v c hc => hstay v j c hc
    change t.ofile v ⟨j,b⟩ = _
    rw [hofile,shut_ofile]
    have hne : (⟨j,b⟩ : Fd) ≠ fd := by
      rintro rfl
      exact hj rfl
    simp [hne]

lemma Inv.print (h : Inv s) (hm : s.mode w = .entered) (ht : s.todo w = .print::cs) :
    Inv (Sys.goto { s with hist := s.hist++[.printed w] } w (.leaving 0)) := by
  have hphase : ∀ v c, (v = w → c ≠ .print) →
      (Sys.goto { s with hist := s.hist++[.printed w] } w (.leaving 0)).phase v c = s.phase v c := by
    intro v c hne
    by_cases hv : v = w
    · subst hv
      rw [goto_phase]
      exact phase_other (s := s) (by rw [hm]; rfl) ht (hne rfl) rfl
    · exact phase_congr (goto_mode_ne _ _ hv) rfl c
  refine h.of_step (fun v hv => goto_mode_ne _ _ hv) (fun _ _ => rfl) (fun _ _ => rfl) (fun v hv => ?_)
    ⟨(h.place w).suffix,fun hi => by simp at hi,fun fd hf => ?_,?_⟩
    fun i => (h.wire i).keep rfl rfl (fun _ _ => rfl) (subset_append_left _ _) fun v c hc => ?_
  · change List.count _ (s.hist++[.printed w]) = _
    rw [count_append,count_singleton]
    simp [Ne.symm hv]
  · rw [hphase _ (.close _) fun _ => nofun] at hf
    exact (h.place w).opened fd hf
  · have hl := (h.place w).lines
    rw [Sys.phase,hm,ht,phase_entered] at hl
    rw [goto_phase]
    change Lines _ w (phase _ (s.todo w) _)
    rw [ht,phase_leaving]
    change List.count _ (s.hist++[.printed w]) = 1
    rw [count_append,show s.hist.count (.printed w) = 0 from hl]
    simp
  · rw [hphase v c fun _ => by obtain rfl | rfl := hc <;> nofun]
    exact .stay _

lemma Inv.kill (h : Inv s) (w : Who) : Inv (s.kill w) := by
  refine ⟨fun i => ?_,fun v => ⟨(h.place v).suffix,(h.place v).inside,(h.place v).opened,
    (h.place v).lines⟩⟩
  have hw := h.wire i
  refine ⟨hw.chan.kill ?_,fun v => ?_,hw.readopen,hw.writeopen,hw.freed,hw.sent,hw.received,hw.pong⟩
  · exact (pid_eq i w).imp (congrArg Who.pid) (congrArg Who.pid)
  · by_cases hv : v = w
    · subst hv
      simp [Sys.kill,Ipc.kill,Ipc.Sys.goto]
    · have hp : v.pid ≠ w.pid := by
        cases v <;> cases w <;> first | exact absurd rfl hv | decide
      have := hw.killed v
      simpa [Sys.kill,Ipc.kill,Ipc.Sys.goto,hv,hp] using this

lemma onPipe_cases (h : s.onPipe w i = some t) :
    (∃ r, (s.pipe i).pc w.pid = .ret r ∧ t = s.goto w (.leaving r)) ∨
    ∃ e y, pipeEvent w.pid (s.byte w) ((s.pipe i).pc w.pid) = some e ∧
      Ipc.step (s.pipe i) e = some y ∧ t = s.piped w i y := by
  unfold Sys.onPipe at h
  split at h
  · rename_i r hr
    cases h
    exact .inl ⟨r,hr,rfl⟩
  · obtain ⟨e,he,h⟩ := bind_eq_some_iff.mp h
    obtain ⟨y,hy,h⟩ := map_eq_some_iff.mp h
    exact .inr ⟨e,y,he,hy,h.symm⟩

section Descriptors
variable {fd : Fd}

lemma Inv.reads (h : Inv s) (ht : s.todo w = .read fd::cs) :
    fd = ⟨fd.pipe,false⟩ ∧ w = fd.pipe.reader := by
  obtain ⟨i,b⟩ := fd
  obtain ⟨rfl,hw⟩ := (mem_main w _).1 ((h.place w).suffix.mem (by rw [ht]; exact mem_cons_self))
  exact ⟨rfl,hw⟩

lemma Inv.writes (h : Inv s) (ht : s.todo w = .write fd::cs) :
    fd = ⟨fd.pipe,true⟩ ∧ w = fd.pipe.writer := by
  obtain ⟨i,b⟩ := fd
  obtain ⟨rfl,hw⟩ := (mem_main w _).2 ((h.place w).suffix.mem (by rw [ht]; exact mem_cons_self))
  exact ⟨rfl,hw⟩

lemma Inv.uses (h : Inv s) (hm : (s.mode w).alive) (ht : s.todo w = c::cs)
    (hc : c = .read fd ∨ c = .write fd) : s.ofile w fd = true := by
  have hsuf := (mem_tails _ _).mpr (ht ▸ (h.place w).suffix)
  have hmem : Call.close fd ∈ cs := close_later w _ hsuf c (by simp) fd hc
  refine (h.place w).opened fd ?_
  rw [Sys.phase,ht,phase_ne hm (by rintro rfl; simp at hc)]
  exact if_neg (not_not.mpr hmem)

end Descriptors

lemma Inv.ran (h : Inv s) (hs : s.run w = some t) : Ran s w t := by
  unfold Sys.run at hs
  split at hs
  · rename_i hm
    cases hs
    split_ifs
    · exact .quit (by rw [hm]; nofun) rfl
    · exact .enter hm
  · rename_i fd cs hm ht
    have hof : s.ofile w fd = true := by
      refine (h.place w).opened fd ?_
      rw [Sys.phase,hm,ht,phase_entered]
    rw [Sys.sys_close,if_pos hof] at hs
    obtain ⟨u,hu,rfl⟩ := map_eq_some_iff.mp hs
    exact .close hm ht hu
  · rename_i fd cs hm ht
    have hof := h.uses (by rw [hm]; rfl) ht (.inl rfl)
    obtain ⟨hfd,hw⟩ := h.reads ht
    rw [Sys.sys_read,hof,show fd.writable = false from congrArg Fd.writable hfd] at hs
    obtain ⟨u,hu,rfl⟩ := map_eq_some_iff.mp hs
    obtain ⟨y,hy,rfl⟩ := map_eq_some_iff.mp hu
    exact .startRead hm (hfd ▸ ht) hw hy
  · rename_i fd cs hm ht
    have hof := h.uses (by rw [hm]; rfl) ht (.inr rfl)
    obtain ⟨hfd,hw⟩ := h.writes ht
    rw [Sys.sys_write,hof,show fd.writable = true from congrArg Fd.writable hfd] at hs
    obtain ⟨u,hu,rfl⟩ := map_eq_some_iff.mp hs
    obtain ⟨y,hy,rfl⟩ := map_eq_some_iff.mp hu
    exact .startWrite hm (hfd ▸ ht) hw hy
  · rename_i hm ht
    cases hs
    exact .leave hm ht (.inl rfl)
  · rename_i hm ht
    cases hs
    exact .print hm ht
  · rename_i hm ht
    unfold Sys.sys_wait at hs
    split at hs
    · cases hs
      exact .leave hm ht (.inr rfl)
    · split_ifs at hs
      · cases hs
        exact .leave hm ht (.inr rfl)
      · cases hs
        exact .leave hm ht (.inr rfl)
  · rename_i hm ht
    cases hs
    exact .quit (by rw [hm]; nofun) rfl
  · rename_i fd cs hm ht
    obtain ⟨hfd,hw⟩ := h.reads ht
    obtain ⟨r,hr,rfl⟩ | ⟨e,y,he,hy,rfl⟩ := onPipe_cases hs
    · exact .ret hm ht (.inl rfl) hr
    · rw [← goto_self (s := s.piped w fd.pipe y) hm]
      exact .read hm (hfd ▸ ht) hw he hy
  · rename_i fd cs hm ht
    obtain ⟨hfd,hw⟩ := h.writes ht
    obtain ⟨r,hr,rfl⟩ | ⟨e,y,he,hy,rfl⟩ := onPipe_cases hs
    · exact .ret hm ht (.inr rfl) hr
    · rw [← goto_self (s := s.piped w fd.pipe y) hm]
      exact .write hm (hfd ▸ ht) hw he hy
  · rename_i r c cs hm ht
    cases hs
    split_ifs with hk
    · exact .quit (by rw [hm]; nofun) rfl
    · exact .back hm ht (by simpa using hk)
  · rename_i hm
    split at hs
    · rename_i fd hfd
      have hmode : t.mode w = .exiting := by
        obtain ⟨-,rfl⟩ | ⟨-,y,-,rfl⟩ := fileclose_cases hs
        · exact hm
        · exact hm
      rw [← goto_self hmode]
      exact .exit hm hs
    · cases hs
      exact .quit (by rw [hm]; nofun) rfl
  · cases hs

lemma writer_ne (i : Link) : i.writer ≠ i.reader := by cases i <;> decide

lemma inside_phase {y : Ipc.Sys} (ht : s.todo w = c::cs) :
    ((s.piped w i y).goto w .inside).phase w c = .during := by
  rw [goto_phase]
  change phase _ (s.todo w) c = _
  rw [ht,phase_inside]

lemma inside_other {y : Ipc.Sys} {v : Who} (hv : v ≠ w) :
    ((s.piped w i y).goto w .inside).phase v c = s.phase v c :=
  phase_congr (goto_mode_ne _ _ hv) rfl c

lemma Inv.reading {e : Ipc.Event} {y : Ipc.Sys} (h : Inv s)
    (hy : Ipc.step (s.pipe i) e = some y) (hk : ∀ p, e ≠ .kill p) (hcl : ∀ b, e ≠ .close b)
    (hm : s.mode i.reader = .entered ∨ s.mode i.reader = .inside)
    (ht : s.todo i.reader = .read ⟨i,false⟩::cs) (hp : y.put = (s.pipe i).put)
    (hc : Chan y i.writer.pid i.reader.pid (s.phase i.writer (.write ⟨i,true⟩)) .during) :
    Inv ((s.piped i.reader i y).goto i.reader .inside) := by
  refine h.pipe hy hk hcl hm ht (.inl rfl) ?_ (.inl hp) (.inr rfl) fun hi hb => ?_
  · rwa [inside_phase ht,inside_other (writer_ne i)]
  · exact (h.wire i).pong hi (hp ▸ hb)

lemma Inv.after (h : Inv s) (hr : Ran s w t) : Inv t := by
  cases hr with
  | quit hs hm => exact h.quit hs hm
  | enter hs => exact h.enter hs
  | leave hs ht hc => exact h.leave hs ht hc
  | print hs ht => exact h.print hs ht
  | @close fd cs t hs ht hf =>
    refine h.closed hf nofun ?_ (fun c hc => ?_) fun fd' hne hp => ?_
    · rw [ht,phase_leaving]
      nofun
    · exact phase_other (by rw [hs]; rfl) ht hc rfl
    · rwa [phase_other (by rw [hs]; rfl) ht (by simpa using hne) rfl] at hp
  | exit hs hf =>
    have hd : ∀ c, s.phase w c = .gone := fun c => by rw [Sys.phase,hs]; rfl
    exact h.closed hf nofun nofun (fun c _ => (hd c).symm) fun fd' _ hp => nomatch hp
  | @startRead i cs y hs ht hw hy =>
    subst hw
    have hc := (h.wire i).chan
    rw [Sys.phase,Sys.phase,hs,ht,phase_entered] at hc
    exact h.reading hy nofun nofun (.inl hs) ht ((step_frame hy).2.1 nofun)
      (hc.startRead (pid_reader_ne i) hy)
  | @startWrite i cs y hs ht hw hy =>
    subst hw
    have hc := (h.wire i).chan
    rw [Sys.phase,Sys.phase,hs,ht,phase_entered] at hc
    have hp := (step_frame hy).2.1 nofun
    have hg := (step_frame hy).1 nofun
    refine h.pipe hy nofun nofun (.inl hs) ht (.inr rfl) ?_ (.inl hp) (.inl hg) fun hi hb => ?_
    · rw [inside_phase ht,inside_other (writer_ne i).symm]
      exact hc.startWrite (pid_reader_ne i) hy
    · exact (h.wire i).pong hi (hp ▸ hb)
  | @read i cs e y hs ht hw he hy =>
    subst hw
    have hc := (h.wire i).chan
    rw [Sys.phase,Sys.phase,hs,ht,phase_inside] at hc
    obtain ⟨-,-,hkill,-,hclose,-⟩ := hc.reader.during he hy
    obtain ⟨hc',hp⟩ := hc.read (pid_reader_ne i) he hy
    exact h.reading hy hkill hclose (.inr hs) ht hp hc'
  | @write i cs e y hs ht hw he hy =>
    subst hw
    have hc := (h.wire i).chan
    rw [Sys.phase,Sys.phase,hs,ht,phase_inside] at hc
    obtain ⟨-,-,hkill,-,-,-⟩ := hc.writer.during hc.inv.fifo he hy
    obtain ⟨hc',hg,-⟩ := hc.write (pid_reader_ne i) he hy
    have hclose : ∀ b, e ≠ .close b := by
      rintro b rfl
      cases hp : (s.pipe i).pc i.writer.pid <;> rw [hp] at he <;> cases he
    refine h.pipe hy hkill hclose (.inr hs) ht (.inr rfl) ?_ (.inr rfl) (.inl hg) fun hi _ => ?_
    · rw [inside_phase ht,inside_other (writer_ne i).symm]
      exact hc'
    · -- the child is past its line when it answers
      subst hi
      have hl := (h.place (Link.writer .pipe2)).lines
      have hprint := print_before_pong _ ((mem_tails _ _).mpr (ht ▸ (h.place .child).suffix)) rfl
      have hne : Call.print ≠ .write ⟨.pipe2,true⟩ := nofun
      rw [Sys.phase,hs,ht,phase_ne rfl hne,if_pos (not_mem_of_not_mem_cons hprint)] at hl
      exact count_pos_iff.mp (by rw [show s.hist.count (.printed .child) = 1 from hl]; decide)
  | ret hs ht hc hr => exact h.ret hs ht hc hr
  | back hs ht hk => exact h.back hs ht hk

theorem step_inv {e : Event} (h : Inv s) (hs : step s e = some t) : Inv t := by
  cases e with
  | run w => exact h.after (h.ran hs)
  | timer w =>
    simp only [step,Sys.timer] at hs
    split_ifs at hs with hm hk
    · cases hs
      exact h.quit (by rw [hm]; nofun) rfl
    · cases hs
      exact h
  | kill w =>
    cases hs
    exact h.kill w

/-! ### The order of the reports -/

/-- While no `read` is left with 0, a process that is past its `read` has a byte; and what is on
the console is in order. -/
structure Told (s : Sys) : Prop where
  got : ∀ i, s.phase i.reader (.read ⟨i,false⟩) = .after → (s.pipe i).got ≠ []
  ordered : Ordered s.hist

lemma init_told (page : Link → Fin Ipc.PIPESIZE → UInt8) (killed : Who → Bool) :
    Told (init page killed) where
  got i h := by cases i <;> cases h
  ordered := by simp [Ordered,init]

lemma split_append {α : Type*} {l k l₁ l₂ : List α} {o : α} (h : l++k = l₁++o::l₂) :
    (∃ l₃, l = l₁++o::l₃) ∨ (l ⊆ l₁ ∧ o ∈ k) := by
  obtain ⟨a,rfl,rfl⟩ | ⟨a,rfl,ha⟩ := append_eq_append_iff.mp h
  · exact .inr ⟨subset_append_left _ _,by simp⟩
  · cases a with
    | nil => exact .inr ⟨by simp,by simp [← show o::l₂ = k from ha]⟩
    | cons b a =>
      obtain ⟨rfl,-⟩ := List.cons.inj ha
      exact .inl ⟨a,rfl⟩

lemma Ordered.append {l k : List Obs} (h : Ordered l)
    (hping : .printed .child ∈ k → ∃ b, .sent .parent b ∈ l ∧ .received .child b ∈ l)
    (hpong : .printed .parent ∈ k →
      .printed .child ∈ l ∧ ∃ b, .sent .child b ∈ l ∧ .received .parent b ∈ l) :
    Ordered (l++k) := by
  constructor
  · intro l₁ l₂ he
    obtain ⟨l₃,hl⟩ | ⟨hsub,hk⟩ := split_append he
    · exact h.1 l₁ l₃ hl
    · obtain ⟨b,hs,hr⟩ := hping hk
      exact ⟨b,hsub hs,hsub hr⟩
  · intro l₁ l₂ he
    obtain ⟨l₃,hl⟩ | ⟨hsub,hk⟩ := split_append he
    · exact h.2 l₁ l₃ hl
    · obtain ⟨hp,b,hs,hr⟩ := hpong hk
      exact ⟨hsub hp,b,hsub hs,hsub hr⟩

lemma Inv.exchanged (h : Inv s) (hg : (s.pipe i).got ≠ []) :
    (s.pipe i).put ≠ [] ∧ ∃ b, .sent i.writer b ∈ s.hist ∧ .received i.reader b ∈ s.hist := by
  obtain ⟨b,hb⟩ := exists_mem_of_ne_nil _ hg
  have hp := (h.wire i).chan.inv.fifo.delivers.1.mem hb
  exact ⟨ne_nil_of_mem hp,b,(h.wire i).sent b hp,(h.wire i).received b hb⟩

/-- Most steps end no call and print nothing. -/
lemma Told.of_quiet {k : List Obs} (h : Told s) (hgot : ∀ i, (s.pipe i).got <+: (t.pipe i).got)
    (htodo : t.todo = s.todo) (hmode : ∀ v, (t.mode v).alive → (s.mode v).alive)
    (hhist : t.hist = s.hist++k) (hk : ∀ w, .printed w ∉ k) : Told t where
  got i hi := by
    have hi' := phase_after.mp hi
    have hs := h.got i (phase_after.mpr ⟨hmode _ hi'.1,htodo ▸ hi'.2⟩)
    exact fun he => hs (prefix_nil.mp (he ▸ hgot i))
  ordered := by
    rw [hhist]
    exact h.ordered.append (fun hc => absurd hc (hk _)) fun hc => absurd hc (hk _)

lemma goto_alive (h : m.alive → (s.mode w).alive) (v : Who) :
    ((s.goto w m).mode v).alive → (s.mode v).alive := by
  by_cases hv : v = w
  · subst hv
    rwa [goto_mode]
  · rw [goto_mode_ne _ _ hv]
    exact id

lemma Told.goto (h : Told s) (hm : m.alive → (s.mode w).alive) : Told (s.goto w m) :=
  h.of_quiet (k := []) (fun _ => prefix_refl _) rfl (goto_alive hm) (append_nil _).symm
    fun _ => not_mem_nil

lemma Told.piped {e : Ipc.Event} {y : Ipc.Sys} (h : Told s)
    (hy : Ipc.step (s.pipe i) e = some y) (hm : (s.mode w).alive) :
    Told ((s.piped w i y).goto w .inside) := by
  refine h.of_quiet (fun j => ?_) rfl (goto_alive fun _ => hm) (append_assoc _ _ _)
    fun v => not_printed v w _ _
  by_cases hj : j = i
  · subst hj
    simpa [Sys.goto,Sys.piped] using (step_grows hy).2
  · simp [Sys.goto,Sys.piped,hj]

lemma Told.fileclose {fd : Fd} (h : Told s) (hf : s.fileclose w fd = some t)
    (hm : m.alive → (s.mode w).alive) : Told (t.goto w m) := by
  obtain ⟨-,rfl⟩ | ⟨-,y,hy,rfl⟩ := fileclose_cases hf
  · exact Told.goto ⟨h.got,h.ordered⟩ hm
  · refine h.of_quiet (fun j => ?_) rfl (goto_alive (s := s.shut w fd) hm)
      (append_assoc _ _ _) fun v => not_printed v w _ _
    by_cases hj : j = fd.pipe
    · subst hj
      simpa [Sys.goto,Sys.piped,Sys.shut] using (step_grows hy).2
    · simp [Sys.goto,Sys.piped,Sys.shut,hj]

lemma Told.print (h : Told s) (hi : Inv s) (hm : s.mode w = .entered)
    (ht : s.todo w = .print::cs) :
    Told (Sys.goto { s with hist := s.hist++[.printed w] } w (.leaving 0)) := by
  have hpast : ∀ i : Link, w = i.reader → (s.pipe i).got ≠ [] := by
    rintro i rfl
    have hnot := read_before_print i _ ((mem_tails _ _).mpr (ht ▸ (hi.place _).suffix)) rfl
    exact h.got i (phase_after.mpr ⟨by rw [hm]; rfl,by rwa [ht]⟩)
  refine Told.goto ⟨h.got,h.ordered.append (fun hw => ?_) fun hw => ?_⟩ fun _ => by
    change (s.mode w).alive
    rw [hm]
    rfl
  · have hw := mem_singleton.mp hw
    cases hw
    exact (hi.exchanged (hpast .pipe1 rfl)).2
  · have hw := mem_singleton.mp hw
    cases hw
    obtain ⟨hp,hx⟩ := hi.exchanged (hpast .pipe2 rfl)
    exact ⟨(hi.wire .pipe2).pong rfl hp,hx⟩

lemma Told.back {r : ℤ} (h : Told s) (hi : Inv s) (hm : s.mode w = .leaving r)
    (ht : s.todo w = c::cs) (hk : s.killed w = false) (hans : Answered s (.run w)) :
    Told (Sys.goto { s with todo := update s.todo w cs } w .user) := by
  refine ⟨fun i hafter => ?_,h.ordered⟩
  change (s.pipe i).got ≠ []
  by_cases hw : i.reader = w
  · subst hw
    rw [goto_phase] at hafter
    have hnot : Call.read ⟨i,false⟩ ∉ cs := by simpa using (phase_after.mp hafter).2
    by_cases hc : c = .read ⟨i,false⟩
    · subst hc
      have hin := (hi.wire i).chan.reader
      rw [Sys.phase,hm,ht,phase_leaving] at hin
      obtain hg | hr | hkill := hin.2
      · exact hg
      · simp only [Answered,hm,ht] at hans
        rw [hans hr] at hk
        cases hk
      · rw [(hi.wire i).killed,hk] at hkill
        cases hkill
    · refine h.got i (phase_after.mpr ⟨by rw [hm]; rfl,?_⟩)
      rw [ht,mem_cons,not_or]
      exact ⟨Ne.symm hc,hnot⟩
  · have he := phase_congr (s := s)
      (t := Sys.goto { s with todo := update s.todo w cs } w .user)
      (goto_mode_ne _ _ hw) (update_of_ne hw _ _) (.read ⟨i,false⟩)
    exact h.got i (he ▸ hafter)

theorem step_told {e : Event} (hi : Inv s) (h : Told s) (hans : Answered s e)
    (hs : step s e = some t) : Told t := by
  cases e with
  | run w =>
    cases hi.ran hs with
    | quit _ hm => exact h.goto fun hm' => absurd hm' (by rw [hm]; nofun)
    | enter hm | leave hm | ret hm => exact h.goto fun _ => by rw [hm]; rfl
    | print hm ht => exact h.print hi hm ht
    | close hm ht hf => exact h.fileclose hf fun _ => by rw [hm]; rfl
    | exit hm hf => exact h.fileclose hf nofun
    | startRead hm _ _ hy | startWrite hm _ _ hy => exact h.piped hy (by rw [hm]; rfl)
    | read hm _ _ _ hy | write hm _ _ _ hy => exact h.piped hy (by rw [hm]; rfl)
    | back hm ht hk => exact h.back hi hm ht hk hans
  | timer w =>
    simp only [step,Sys.timer] at hs
    split_ifs at hs with hm hk
    · cases hs
      exact h.goto nofun
    · cases hs
      exact h
  | kill w =>
    cases hs
    exact ⟨h.got,h.ordered⟩

/-! ### No deadlock -/

lemma Inv.not_freed (h : Inv s) {b : Bool} (hf : s.ofile w ⟨i,b⟩ = true) :
    (s.pipe i).freed = false := by
  rw [(h.wire i).freed,(h.wire i).readopen,(h.wire i).writeopen]
  cases w <;> cases b <;> simp [hf]

/-- A lock that a process waits for is in the hands of the other one. -/
lemma Inv.waits (h : Inv s) (hf : (s.pipe i).freed = false)
    (hwant : (∃ j n, (s.pipe i).pc w.pid = .wantWrite j n) ∨ ∃ n, (s.pipe i).pc w.pid = .wantRead n)
    (hnone : Ipc.step (s.pipe i) (.acquire w.pid) = none) :
    ((s.pipe i).pc w.other.pid).holds = true := by
  have hlock : (s.pipe i).lock ≠ none := by
    intro hl
    obtain ⟨j,n,hp⟩ | ⟨n,hp⟩ := hwant <;> simp [Ipc.step,hf,hl,hp] at hnone
  obtain ⟨p,hp⟩ := ne_none_iff_exists'.mp hlock
  have hholds := (h.wire i).chan.held p hp
  have hne : p ≠ w.pid := by
    rintro rfl
    obtain ⟨j,n,hq⟩ | ⟨n,hq⟩ := hwant <;> rw [hq] at hholds <;> cases hholds
  have hother : p = w.other.pid := by
    by_contra hn
    have hidle := (h.wire i).chan.strangers p
      (by cases i <;> cases w <;> assumption) (by cases i <;> cases w <;> assumption)
    rw [hidle] at hholds
    cases hholds
  exact hother ▸ hholds

/-- A process in the pipe code that cannot go on is a reader that sleeps, or the other process is
in the same code and has the lock. -/
lemma Inv.blocked (h : Inv s) (hb : s.Blocked w) : ∃ i : Link, ∃ cs,
    (s.todo w = .read ⟨i,false⟩::cs ∧ w = i.reader ∧ (s.pipe i).pc w.pid = .sleepRead 1) ∨
    ((s.todo w = .read ⟨i,false⟩::cs ∨ s.todo w = .write ⟨i,true⟩::cs) ∧
      ((s.pipe i).pc w.other.pid).holds = true) := by
  obtain ⟨hm,hnone⟩ := hb
  have halive : (s.mode w).alive = true := by rw [hm]; rfl
  obtain ⟨fd,cs,ht | ht⟩ := (h.place w).inside hm
  · have hf := h.uses halive ht (.inl rfl)
    obtain ⟨hfd,hw⟩ := h.reads ht
    obtain ⟨i,b⟩ := fd
    cases hfd
    have hfr := h.not_freed hf
    have hin := (h.wire i).chan.reader
    rw [← hw,Sys.phase,hm,ht,phase_inside] at hin
    simp only [Sys.run,hm,ht,Sys.onPipe] at hnone
    refine ⟨i,cs,?_⟩
    obtain ⟨hp | hp | hp | hp,-⟩ | ⟨hp,-⟩ | ⟨r,hp,-⟩ := hin
    · simp only [hp,pipeEvent,bind_some,Sys.pipeStep,map_eq_none_iff] at hnone
      exact .inr ⟨.inl ht,h.waits hfr (.inr ⟨1,hp⟩) hnone⟩
    · simp [hp,pipeEvent,Sys.pipeStep,Ipc.step,hfr] at hnone
    · exact .inl ⟨ht,hw,hp⟩
    · simp [hp,pipeEvent,Sys.pipeStep,Ipc.step,hfr] at hnone
    · simp [hp,pipeEvent,Sys.pipeStep,Ipc.step,hfr] at hnone
    · simp [hp] at hnone
  · have hf := h.uses halive ht (.inr rfl)
    obtain ⟨hfd,hw⟩ := h.writes ht
    obtain ⟨i,b⟩ := fd
    cases hfd
    have hfr := h.not_freed hf
    have hout := (h.wire i).chan.writer
    rw [← hw,Sys.phase,hm,ht,phase_inside] at hout
    simp only [Sys.run,hm,ht,Sys.onPipe] at hnone
    refine ⟨i,cs,?_⟩
    obtain ⟨j,-,-,hp | hp⟩ | ⟨r,hp,-⟩ := hout
    · simp only [hp,pipeEvent,bind_some,Sys.pipeStep,map_eq_none_iff] at hnone
      exact .inr ⟨.inr ht,h.waits hfr (.inl ⟨_,_,hp⟩) hnone⟩
    · simp [hp,pipeEvent,Sys.pipeStep,Ipc.step,hfr] at hnone
    · simp [hp] at hnone

lemma Inv.holding (h : Inv s) (hh : ((s.pipe i).pc w.pid).holds = true) :
    ∃ cs, s.todo w = .read ⟨i,false⟩::cs ∨ s.todo w = .write ⟨i,true⟩::cs := by
  have hc := (h.wire i).chan
  obtain rfl | rfl := pid_eq i w
  · obtain ⟨cs,hcs⟩ := head?_eq_some_iff.mp (phase_during (hc.writer.holds hh)).2
    exact ⟨cs,.inr hcs⟩
  · obtain ⟨cs,hcs⟩ := head?_eq_some_iff.mp (phase_during (hc.reader.holds hh)).2
    exact ⟨cs,.inl hcs⟩

/-- If one waits for the other's lock, the other is not stuck. -/
lemma Inv.holder_runs (h : Inv s) (hh : ((s.pipe i).pc w.pid).holds = true) : ¬s.Blocked w := by
  intro hb
  obtain ⟨cs,ht⟩ := h.holding hh
  obtain ⟨j,cs',⟨ht',-,hp⟩ | ⟨ht',hh'⟩⟩ := h.blocked hb
  · have hij : j = i := by
      obtain ht | ht := ht <;> rw [ht] at ht' <;> simp at ht'
      exact ht'.1.symm
    rw [hij] at hp
    rw [hp] at hh
    cases hh
  · have hij : j = i := by
      obtain ht | ht := ht <;> rw [ht] at ht' <;> simp at ht' <;> exact ht'.1.symm
    subst hij
    have he := Ipc.Awake.excl (h.wire j).chan.inv hh hh'
    cases w <;> cases he

lemma Inv.no_deadlock (h : Inv s) : ¬(s.Blocked .parent ∧ s.Blocked .child) := by
  rintro ⟨hp,hc⟩
  obtain ⟨i,cs,⟨ht,hw,hsp⟩ | ⟨-,hh⟩⟩ := h.blocked hp
  · obtain ⟨j,cs',⟨ht',hw',hsc⟩ | ⟨-,hh⟩⟩ := h.blocked hc
    · have hi : i = .pipe2 := by cases i <;> first | rfl | cases hw
      have hj : j = .pipe1 := by cases j <;> first | rfl | cases hw'
      subst hi hj
      -- the parent has sent its byte, and the child has not taken it
      have hpast := ping_before_read _ ((mem_tails _ _).mpr (ht ▸ (h.place .parent).suffix)) rfl
      have hchan := (h.wire .pipe1).chan
      have hafter : s.phase Link.pipe1.writer (.write ⟨.pipe1,true⟩) = .after :=
        phase_after.mpr ⟨by change (s.mode .parent).alive = true; rw [hp.1]; rfl,
          by change _ ∉ s.todo .parent; rwa [ht]⟩
      have hout := hchan.writer
      rw [hafter] at hout
      obtain ⟨ho,-,hput⟩ := hout
      have hopen : (s.pipe .pipe1).pipe.readopen = true := by
        have := h.uses (by rw [hc.1]; rfl) ht' (.inl rfl)
        rw [(h.wire _).readopen,this,Bool.or_true]
      have hput : (s.pipe .pipe1).put ≠ [] := hput.resolve_right (by rw [hopen]; nofun)
      have hgot : (s.pipe .pipe1).got = [] := by
        have hin := hchan.reader
        rw [show s.phase Link.pipe1.reader (.read ⟨.pipe1,false⟩) = .during by
          change phase (s.mode .child) (s.todo .child) _ = _
          rw [hc.1,ht',phase_inside]] at hin
        obtain ⟨-,hg⟩ | ⟨hq,-⟩ | ⟨r,hq,-⟩ := hin
        · exact hg
        · cases hsc.symm.trans hq
        · cases hsc.symm.trans hq
      obtain ⟨-,he | ⟨-,q,k,m,-,hq⟩⟩ := hchan.awake.readers _ _ hsc
      · have := hchan.inv.fifo.empty_iff.mp he
        rw [hgot] at this
        exact hput (length_eq_zero_iff.mp this.symm)
      · -- no writer is in the pipe code
        by_cases hq₁ : q = Link.pipe1.writer.pid
        · rw [← hq₁,hq] at ho
          cases ho
        · by_cases hq₂ : q = Link.pipe1.reader.pid
          · rw [hq₂] at hq
            cases hsc.symm.trans hq
          · cases (hchan.strangers q hq₁ hq₂).symm.trans hq
    · exact h.holder_runs hh hp
  · exact h.holder_runs hh hc

end Steps

/-- For every interleaving of the two processes and of kills in which no `read` that returned 0 is
taken for a byte: each report comes after the byte it reports and the parent's after the child's,
each is made at most once, and the two processes are never blocked together. -/
theorem exchange_before_report (page : Link → Fin Ipc.PIPESIZE → UInt8) (killed : Who → Bool)
    (es : List Event) (s : Sys) (hrun : Runs step Answered (init page killed) es s) :
    Ordered s.hist ∧ (∀ w, s.hist.count (.printed w) ≤ 1) ∧
      ¬(s.Blocked .parent ∧ s.Blocked .child) := by
  obtain ⟨hi,ht⟩ := hrun.invariant_and (I := Inv) (J := Told)
    (fun s e t hi _ hs => step_inv hi hs) (fun s e t hi ht hc hs => step_told hi ht hc hs)
    ⟨init_inv page killed,init_told page killed⟩
  exact ⟨ht.ordered,hi.count_le_one,hi.no_deadlock⟩

/-- The child waits for the parent's byte, reports and answers, and the parent reports. -/
def exchange : List Event :=
  List.replicate 10 (.run .child)++List.replicate 13 (.run .parent)++
    List.replicate 20 (.run .child)++List.replicate 20 (.run .parent)

theorem exchange_before_report_exchange : ∃ s,
    Runs step Answered (init (fun _ _ => 0) fun _ => false) exchange s ∧
      s.hist = [.sent .parent 65,.received .child 65,.printed .child,.sent .child 65,
        .received .parent 65,.printed .parent] ∧
      Ordered s.hist := by
  obtain ⟨s,hr,hs⟩ := Runs.exists_of_execIf step Answered (init (fun _ _ => 0) fun _ => false)
    exchange (fun s => s.hist = [.sent .parent 65,.received .child 65,.printed .child,
      .sent .child 65,.received .parent 65,.printed .parent]) (by decide +kernel)
  exact ⟨s,hr,hs,(exchange_before_report _ _ _ s hr).1⟩

/-- The parent is killed before its `write`; the child reads the end of the file and reports. -/
theorem report_without_byte : ∃ s, Runs step (fun _ _ => True) (init (fun _ _ => 0) fun _ => false)
    (.kill .parent::List.replicate 6 (.run .parent)++List.replicate 18 (.run .child)) s ∧
      s.hist = [.printed .child] ∧ ¬Ordered s.hist := by
  obtain ⟨s,hr,hs⟩ := Runs.exists_of_execIf step (fun _ _ => True)
    (init (fun _ _ => 0) fun _ => false)
    (.kill .parent::List.replicate 6 (.run .parent)++List.replicate 18 (.run .child))
    (fun s => s.hist = [.printed .child]) (by decide +kernel)
  refine ⟨s,hr,hs,fun ho => ?_⟩
  obtain ⟨b,hb,-⟩ := ho.1 [] [] hs
  exact not_mem_nil hb

end Xv6.Pingpong
