import Mathlib.Data.List.DropRight
import Xv6.Lib.Ring
import Xv6.Lib.Transition
import Xv6.Param

/-! Console input of `console.c`: the interrupt handler and any number of readers share one ring
with three 32-bit indices. It is compared with a line editor that works on lists. -/
namespace Xv6.Console
open Xv6.Lib List
open Function (update update_self update_apply update_of_ne)

def INPUT_BUF_SIZE : ℕ := 128

/-- `C(x)`, the code of control-x. -/
def C (x : Char) : UInt8 := UInt8.ofNat (x.toNat - '@'.toNat)

def newline : UInt8 := 10
def carriageReturn : UInt8 := 13
def delete : UInt8 := 127

/-- The fields of `cons` without its lock. -/
structure Cons where
  buf : Fin INPUT_BUF_SIZE → UInt8
  r : UInt32
  w : UInt32
  e : UInt32

def slotOf (n : ℕ) : Fin INPUT_BUF_SIZE := ⟨n%INPUT_BUF_SIZE,Nat.mod_lt _ (by decide)⟩

namespace Cons

/-- The loop for control-u. It makes at most `e-w` passes. -/
def killLine : ℕ → Cons → Cons
  | 0,k => k
  | n+1,k =>
    if k.e ≠ k.w ∧ k.buf (slotOf (k.e-1).toNat) ≠ newline then killLine n { k with e := k.e-1 }
    else k

-- the two tests are made on the new cons.e
def store (k : Cons) (c : UInt8) : Cons :=
  { k with buf := update k.buf (slotOf k.e.toNat) c, e := k.e+1 }

def commit (k : Cons) : Cons := { k with w := k.e }

/-- Whether `consoleintr` commits after it has stored `c`. -/
def commits (k : Cons) (c : UInt8) : Bool :=
  c = newline || c = C 'D' || k.e-k.r = UInt32.ofNat INPUT_BUF_SIZE

/-- The new fields of `cons`, and whether the handler calls `wakeup(&cons.r)`. -/
def consoleintr (k : Cons) (c : UInt8) : Cons×Bool :=
  if c = C 'P' then (k,false)
  else if c = C 'U' then (killLine (k.e-k.w).toNat k,false)
  else if c = C 'H' ∨ c = delete then
    if k.e ≠ k.w then ({ k with e := k.e-1 },false) else (k,false)
  else if c ≠ 0 ∧ k.e-k.r < UInt32.ofNat INPUT_BUF_SIZE then
    let c := if c = carriageReturn then newline else c
    let k := k.store c
    if k.commits c then (k.commit,true) else (k,false)
  else (k,false)

end Cons

/-- Where a process is in `consoleread`, with the current `n` and with `target`. At `want` it
waits for `cons.lock`, at `head` it is at the head of the loop with the lock held, and at `asleep`
it is SLEEPING on `&cons.r`. -/
inductive Pc
  | idle
  | want (n target : ℤ)
  | head (n target : ℤ)
  | asleep (n target : ℤ)
  | ret (v : ℤ)
  deriving DecidableEq

def Pc.wakeup : Pc → Pc
  | asleep n target => want n target
  | q => q

/-- What the reference editor is told: a typed character, or that a reader took a byte. -/
inductive Obs
  | typed (c : UInt8)
  | took
  deriving DecidableEq

/-- The console with all processes that read it. `hist` is the history for the reference editor,
`got` are all bytes copied out so far and `copied` those of a process' current or last call; no
step reads them. -/
structure Sys where
  cons : Cons
  lock : Option Pid
  pc : Pid → Pc
  killed : Pid → Bool
  hist : List Obs
  got : List UInt8
  copied : Pid → List UInt8

namespace Sys

def goto (s : Sys) (p : Pid) (q : Pc) : Sys := { s with pc := update s.pc p q }
def release (s : Sys) : Sys := { s with lock := none }

-- c = cons.buf[cons.r++ % INPUT_BUF_SIZE]
def next (s : Sys) : UInt8 := s.cons.buf (slotOf s.cons.r.toNat)
def take (s : Sys) : Sys :=
  { s with cons := { s.cons with r := s.cons.r+1 }, hist := s.hist++[.took] }

-- either_copyout(user_dst, dst, &cbuf, 1)
def copyout (s : Sys) (p : Pid) (c : UInt8) : Sys :=
  { s with
    got := s.got++[c]
    copied := update s.copied p (s.copied p++[c]) }

end Sys

/-- One pass of the loop of `consoleread`, with the code after the loop; `ok` is the outcome of
the copy to the reader, if there is one. -/
def consolereadPass (s : Sys) (p : Pid) (ok : Bool) (n target : ℤ) : Sys :=
  if n > 0 then
    if s.cons.r = s.cons.w then
      if s.killed p then (s.goto p (.ret (-1))).release
      else (s.goto p (.asleep n target)).release
    else if s.next = C 'D' then
      -- control-d is saved for the next call unless it is the first byte
      if n < target then (s.goto p (.ret (target-n))).release
      else (s.take.goto p (.ret (target-n))).release
    else if ok then
      if s.next = newline then ((s.take.copyout p s.next).goto p (.ret (target-(n-1)))).release
      else (s.take.copyout p s.next).goto p (.head (n-1) target)
    else (s.take.goto p (.ret (target-n))).release
  else (s.goto p (.ret (target-n))).release

inductive Event
  | type (c : UInt8)
  | read (p : Pid) (n : ℤ)
  | acquire (p : Pid)
  | pass (p : Pid) (ok : Bool)
  | kill (p : Pid)
  deriving DecidableEq

/-- The handler runs in one critical section of `cons.lock`. -/
def typed (s : Sys) (c : UInt8) : Sys :=
  let (k,woken) := s.cons.consoleintr c
  { s with
    cons := k
    pc := fun p => if woken then (s.pc p).wakeup else s.pc p
    hist := s.hist++[.typed c] }

def step (s : Sys) : Event → Option Sys
  | .type c => if s.lock = none then some (typed s c) else none
  | .read p n =>
    match s.pc p with
    | .idle | .ret _ =>
      some ({ s with copied := update s.copied p [] }.goto p (.want n n))
    | _ => none
  | .acquire p =>
    match s.lock,s.pc p with
    | none,.want n target => some { s.goto p (.head n target) with lock := some p }
    | _,_ => none
  | .pass p ok =>
    match s.pc p with
    | .head n target => some (consolereadPass s p ok n target)
    | _ => none
  | .kill p =>
    some ({ s with killed := update s.killed p true }.goto p (s.pc p).wakeup)

def init (buf : Fin INPUT_BUF_SIZE → UInt8) (killed : Pid → Bool) : Sys :=
  { cons := { buf := buf, r := 0, w := 0, e := 0 }, lock := none, pc := fun _ => .idle,
    killed := killed, hist := [], got := [], copied := fun _ => [] }

/-! ### The reference line editor -/

/-- All bytes committed so far with the number of them that readers have taken, and the line that
is being edited. -/
structure Editor where
  committed : List UInt8
  line : List UInt8
  taken : ℕ

namespace Editor

def unread (d : Editor) : ℕ := d.committed.length-d.taken+d.line.length

/-- The next committed byte. -/
def next (d : Editor) : Option UInt8 := d.committed[d.taken]?

/-- Store a character; newline, control-d and a full buffer commit the line. -/
def insert (d : Editor) (c : UInt8) : Editor :=
  let d' := { d with line := d.line++[c] }
  if c = newline ∨ c = C 'D' ∨ d'.unread = INPUT_BUF_SIZE then
    { d' with committed := d'.committed++d'.line, line := [] }
  else d'

def type (d : Editor) (c : UInt8) : Editor :=
  if c = 0 ∨ c = C 'P' then d
  else if c = C 'U' then { d with line := d.line.rdropWhile (· ≠ newline) }
  else if c = C 'H' ∨ c = delete then { d with line := d.line.dropLast }
  else if d.unread < INPUT_BUF_SIZE then d.insert (if c = carriageReturn then newline else c)
  else d

def step (d : Editor) : Obs → Editor
  | .typed c => d.type c
  | .took => { d with taken := d.taken+1 }

/-- The editor after a history. -/
def after (h : List Obs) : Editor := h.foldl step ⟨[],[],0⟩

lemma after_append (h : List Obs) (o : Obs) : after (h++[o]) = (after h).step o := by
  simp [after]

/-- The bytes that readers have got: a control-d is taken but not copied. -/
def given (d : Editor) : List UInt8 := (d.committed.take d.taken).filter (· ≠ C 'D')

lemma insert_committed (d : Editor) (c : UInt8) :
    d.committed <+: (d.insert c).committed ∧ (d.insert c).taken = d.taken := by
  unfold insert
  dsimp only
  split_ifs
  · exact ⟨prefix_append _ _,rfl⟩
  · exact ⟨prefix_refl _,rfl⟩

lemma type_committed (d : Editor) (c : UInt8) :
    d.committed <+: (d.type c).committed ∧ (d.type c).taken = d.taken := by
  unfold type
  split_ifs
  all_goals first | exact insert_committed _ _ | exact ⟨prefix_refl _,rfl⟩

lemma given_typed {d : Editor} (h : d.taken ≤ d.committed.length) (c : UInt8) :
    (d.step (.typed c)).given = d.given := by
  obtain ⟨⟨l,hl⟩,ht⟩ := d.type_committed c
  change (d.type c).given = d.given
  rw [given,ht,← hl,take_append_of_le_length h]
  rfl

lemma given_took {d : Editor} {c : UInt8} (h : d.next = some c) :
    (d.step .took).given = d.given++[c].filter (· ≠ C 'D') := by
  change (d.committed.take (d.taken+1)).filter _ = _
  rw [next] at h
  rw [take_add_one,h,filter_append]
  rfl

end Editor

/-! ### The indices and the ring against the editor -/

lemma size_dvd : INPUT_BUF_SIZE ∣ 2^32 := by decide
lemma size_lt : INPUT_BUF_SIZE < 2^32 := by decide
lemma toNat_size : (UInt32.ofNat INPUT_BUF_SIZE).toNat = INPUT_BUF_SIZE := by decide

lemma slotOf_eq_iff (a b : ℕ) : slotOf a = slotOf b ↔ a%INPUT_BUF_SIZE = b%INPUT_BUF_SIZE := by
  simp [slotOf]

@[simp] lemma slotOf_mod (a : ℕ) : slotOf (a%INPUT_BUF_SIZE) = slotOf a := by simp [slotOf]

lemma pred_toNat (n : UInt32) : (n-1).toNat = (n.toNat+(2^32-1))%2^32 := by
  rw [UInt32.toNat_sub,add_comm]
  rfl

lemma succ_toNat (n : UInt32) : (n+1).toNat = (n.toNat+1)%2^32 := by simp

lemma ring_distance {k : Cons} {slot : ℕ → UInt8} {hist : List UInt8} {taken : ℕ}
    (h : Ring.Holds INPUT_BUF_SIZE (2^32) slot k.r.toNat k.e.toNat hist taken) :
    (k.e-k.r).toNat = hist.length-taken := by
  rw [← h.distance size_lt,UInt32.toNat_sub]
  congr 1
  have := k.r.toNat_lt
  omega

/-- The ring from `r` to `e` holds the unread committed bytes and then the line. -/
structure Rep (k : Cons) (d : Editor) : Prop where
  ring : Ring.Holds INPUT_BUF_SIZE (2^32) (fun j => k.buf (slotOf j)) k.r.toNat k.e.toNat
    (d.committed++d.line) d.taken
  write : k.w.toNat = d.committed.length%2^32
  taken_le : d.taken ≤ d.committed.length
  plain : newline ∉ d.line
  room : d.line ≠ [] → d.unread < INPUT_BUF_SIZE

namespace Rep
variable {k : Cons} {d : Editor} {c : UInt8}

section
variable (h : Rep k d)
include h

lemma unread_eq : (d.committed++d.line).length-d.taken = d.unread := by
  have := h.taken_le
  rw [length_append,Editor.unread]
  omega

lemma unread_le : d.unread ≤ INPUT_BUF_SIZE := h.unread_eq ▸ h.ring.unread_le

/-- `cons.e-cons.r` counts the bytes in the ring. -/
lemma distance : (k.e-k.r).toNat = d.unread := by
  rw [← h.unread_eq,ring_distance h.ring]

/-- `cons.w-cons.r` counts the committed ones. -/
lemma committed_distance : (k.w-k.r).toNat = d.committed.length-d.taken := by
  have hu := h.unread_le
  have hs := size_lt
  have ht := h.taken_le
  rw [Editor.unread] at hu
  rw [UInt32.toNat_sub,h.write,h.ring.reader]
  omega

lemma edited_iff : k.e ≠ k.w ↔ d.line ≠ [] := by
  have hu := h.unread_le
  have hs := size_lt
  rw [Editor.unread] at hu
  have hlen : k.e = k.w ↔ d.line.length = 0 := by
    rw [← UInt32.toNat_inj,h.write,h.ring.writer,length_append]
    omega
  rw [Ne,hlen,length_eq_zero_iff]

lemma not_full_iff : k.e-k.r < UInt32.ofNat INPUT_BUF_SIZE ↔ d.unread < INPUT_BUF_SIZE := by
  rw [UInt32.lt_iff_toNat_lt,h.distance,toNat_size]

lemma erase (hl : d.line ≠ []) : Rep { k with e := k.e-1 } { d with line := d.line.dropLast } where
  ring := by
    have hne : d.taken < (d.committed++d.line).length := by
      have := length_pos_of_ne_nil hl
      have := h.taken_le
      rw [length_append]
      omega
    have hr := h.ring.retract hne (by decide)
    rw [dropLast_append_of_ne_nil hl] at hr
    simpa only [pred_toNat] using hr
  write := h.write
  taken_le := h.taken_le
  plain := fun hm => h.plain (mem_of_mem_dropLast hm)
  room := fun _ => by
    have := h.room hl
    simp only [Editor.unread,length_dropLast] at this ⊢
    omega

lemma last_ne (hl : d.line ≠ []) : k.buf (slotOf (k.e-1).toNat) ≠ newline := by
  have hne : d.taken < (d.committed++d.line).length := by
    have := length_pos_of_ne_nil hl
    have := h.taken_le
    rw [length_append]
    omega
  have hb := h.ring.back size_dvd (by decide) hne
  rw [List.getLast?_append_of_ne_nil _ hl,slotOf_mod,← pred_toNat] at hb
  intro he
  rw [he] at hb
  exact h.plain (mem_of_getLast? hb)

lemma killLine : Rep (k.killLine d.line.length) { d with line := [] } := by
  induction hn : d.line.length generalizing k d with
  | zero =>
    have hl : d.line = [] := length_eq_zero_iff.mp hn
    rw [← hl]
    exact h
  | succ n ih =>
    have hl : d.line ≠ [] := ne_nil_of_length_eq_add_one hn
    rw [Cons.killLine,if_pos ⟨h.edited_iff.mpr hl,h.last_ne hl⟩]
    have hd : d.line.dropLast.length = n := by rw [length_dropLast,hn]; rfl
    have := ih (h.erase hl) hd
    exact this

lemma line_distance : (k.e-k.w).toNat = d.line.length := by
  have hu := h.unread_le
  have hs := size_lt
  rw [Editor.unread] at hu
  rw [UInt32.toNat_sub,h.write,h.ring.writer,length_append]
  omega

/-- A character is stored, and the line is committed with it if it has to be. -/
lemma insert (hroom : d.unread < INPUT_BUF_SIZE) (c : UInt8) :
    Rep (if (k.store c).commits c then (k.store c).commit else k.store c) (d.insert c) := by
  have hring : Ring.Holds INPUT_BUF_SIZE (2^32) (fun j => (k.store c).buf (slotOf j))
      (k.store c).r.toNat (k.store c).e.toNat (d.committed++(d.line++[c])) d.taken := by
    have hslot : ∀ j, update (fun j => k.buf (slotOf j)) (k.e.toNat%INPUT_BUF_SIZE) c
        (j%INPUT_BUF_SIZE) = (k.store c).buf (slotOf (j%INPUT_BUF_SIZE)) := fun j => by
      simp only [Cons.store,update_apply,slotOf_eq_iff,Nat.mod_mod]
    have hr : Ring.Holds _ _ (fun j => (k.store c).buf (slotOf j)) _ _ _ _ :=
      (h.ring.push size_dvd (h.unread_eq ▸ hroom) c).congr hslot
    rw [append_assoc] at hr
    simpa only [Cons.store,succ_toNat] using hr
  have hunread : (d.committed++(d.line++[c])).length-d.taken =
      Editor.unread { d with line := d.line++[c] } := by
    have := h.taken_le
    simp only [length_append,Editor.unread]
    omega
  have hcommits : (k.store c).commits c = true ↔
      c = newline ∨ c = C 'D' ∨ Editor.unread { d with line := d.line++[c] } = INPUT_BUF_SIZE := by
    rw [← hunread,← ring_distance hring,Cons.commits]
    simp only [Bool.or_eq_true,decide_eq_true_eq,or_assoc,← UInt32.toNat_inj,toNat_size]
  by_cases hc : (k.store c).commits c = true
  · rw [if_pos hc,Editor.insert,if_pos (hcommits.mp hc)]
    refine ⟨?_,hring.writer,?_,not_mem_nil,fun hl => absurd rfl hl⟩
    · rw [append_nil]
      exact hring
    · have := h.taken_le
      simp only [length_append]
      omega
  · rw [if_neg hc,Editor.insert,if_neg (mt hcommits.mpr hc)]
    have hnot := mt hcommits.mpr hc
    simp only [not_or] at hnot
    refine ⟨hring,h.write,h.taken_le,?_,fun _ => ?_⟩
    · rw [mem_append,mem_singleton,not_or]
      exact ⟨h.plain,Ne.symm hnot.1⟩
    · exact lt_of_le_of_ne (hunread ▸ hring.unread_le) hnot.2.2

/-- The handler is the editor. -/
lemma type (c : UInt8) : Rep (k.consoleintr c).1 (d.type c) := by
  unfold Cons.consoleintr Editor.type
  by_cases hp : c = C 'P'
  · rw [if_pos hp,if_pos (.inr hp)]
    exact h
  rw [if_neg hp]
  by_cases hu : c = C 'U'
  · have h0 : ¬(c = 0 ∨ c = C 'P') := by rw [hu]; decide
    have hdrop : d.line.rdropWhile (· ≠ newline) = [] := by
      rw [rdropWhile_eq_nil_iff]
      intro x hx
      simpa using ne_of_mem_of_not_mem hx h.plain
    rw [if_pos hu,if_neg h0,if_pos hu,h.line_distance,hdrop]
    exact h.killLine
  rw [if_neg hu]
  by_cases hb : c = C 'H' ∨ c = delete
  · have h0 : ¬(c = 0 ∨ c = C 'P') := by obtain rfl | rfl := hb <;> decide
    rw [if_pos hb,if_neg h0,if_neg hu,if_pos hb]
    by_cases hl : d.line = []
    · have he : ¬k.e ≠ k.w := fun he => h.edited_iff.mp he hl
      have hd : d.line.dropLast = d.line := by rw [hl]; rfl
      rw [if_neg he,hd]
      exact h
    · rw [if_pos (h.edited_iff.mpr hl)]
      exact h.erase hl
  rw [if_neg hb]
  by_cases h0 : c = 0
  · have hn : ¬(c ≠ 0 ∧ k.e-k.r < UInt32.ofNat INPUT_BUF_SIZE) := fun hn => hn.1 h0
    rw [if_neg hn,if_pos (.inl h0)]
    exact h
  rw [if_neg (not_or.mpr ⟨h0,hp⟩),if_neg hu,if_neg hb]
  by_cases hf : d.unread < INPUT_BUF_SIZE
  · rw [if_pos ⟨h0,h.not_full_iff.mpr hf⟩,if_pos hf]
    have := h.insert hf (if c = carriageReturn then newline else c)
    dsimp only
    split_ifs at this ⊢ <;> exact this
  · have hn : ¬(c ≠ 0 ∧ k.e-k.r < UInt32.ofNat INPUT_BUF_SIZE) := fun hn => hf (h.not_full_iff.mp hn.2)
    rw [if_neg hn,if_neg hf]
    exact h

lemma take (hne : k.r ≠ k.w) : Rep { k with r := k.r+1 } { d with taken := d.taken+1 } ∧
      d.next = some (k.buf (slotOf k.r.toNat)) := by
  have hlt : d.taken < d.committed.length := by
    refine lt_of_le_of_ne h.taken_le fun he => hne (UInt32.toNat_inj.mp ?_)
    rw [h.ring.reader,h.write,he]
  have hlt' : d.taken < (d.committed++d.line).length := by
    rw [length_append]
    omega
  refine ⟨⟨?_,h.write,hlt,h.plain,fun hl => ?_⟩,?_⟩
  · simpa only [succ_toNat] using h.ring.pop hlt'
  · have := h.room hl
    simp only [Editor.unread] at this ⊢
    omega
  · have hf := h.ring.front size_dvd hlt'
    rwa [List.getElem?_append_left hlt,slotOf_mod] at hf

lemma next_iff : d.next = some c ↔ k.r ≠ k.w ∧ k.buf (slotOf k.r.toNat) = c := by
  by_cases he : k.r = k.w
  · have hd := h.committed_distance
    rw [he,UInt32.sub_self] at hd
    have hn : d.next = none := getElem?_eq_none (Nat.sub_eq_zero_iff_le.mp hd.symm)
    simp [hn,he]
  · simp [(h.take he).2,he]

lemma slot_eq (j : ℕ) : slotOf (k.r.toNat+j) = slotOf (d.taken+j) := by
  rw [slotOf_eq_iff,h.ring.reader,Nat.add_mod,Nat.mod_mod_of_dvd _ size_dvd,← Nat.add_mod]

/-- The unread committed bytes are in the ring. -/
lemma unread_byte {j : ℕ} (hj : j < (k.w-k.r).toNat) :
    d.committed[d.taken+j]? = some (k.buf (slotOf (k.r.toNat+j))) := by
  rw [h.committed_distance] at hj
  have hlt : d.taken+j < (d.committed++d.line).length := by
    rw [length_append]
    omega
  have hs := h.ring.slots (d.taken+j) (by omega) hlt
  rwa [List.getElem?_append_left (by omega),slotOf_mod,← h.slot_eq] at hs

end

lemma killLine_buf (n : ℕ) (k : Cons) : (k.killLine n).buf = k.buf := by
  induction n generalizing k with
  | zero => rfl
  | succ n ih =>
    rw [Cons.killLine]
    split_ifs
    · exact ih _
    · rfl

/-- No unread committed byte is overwritten. -/
lemma keeps (h : Rep k d) (c : UInt8) {j : ℕ} (hj : j < (k.w-k.r).toNat) :
    (k.consoleintr c).1.buf (slotOf (k.r.toNat+j)) = k.buf (slotOf (k.r.toNat+j)) := by
  rw [h.committed_distance] at hj
  have hlt : d.taken+j < (d.committed++d.line).length := by
    rw [length_append]
    omega
  -- a byte is only stored while there is room, and then not into the slot of one that is there
  have hstore : d.unread < INPUT_BUF_SIZE → ∀ c, (k.store c).buf (slotOf (k.r.toNat+j)) =
      k.buf (slotOf (k.r.toNat+j)) := by
    intro hroom c
    refine update_of_ne ?_ _ _
    rw [h.slot_eq,Ne,slotOf_eq_iff]
    exact h.ring.slot_free size_dvd (h.unread_eq ▸ hroom) (by omega) hlt
  unfold Cons.consoleintr
  by_cases hf : d.unread < INPUT_BUF_SIZE
  · have hkeep := hstore hf
    dsimp only
    generalize (if c = carriageReturn then newline else c) = c'
    split_ifs
    all_goals first | rfl | exact congrFun (killLine_buf _ _) _ | exact hkeep _
  · have hn : ¬(c ≠ 0 ∧ k.e-k.r < UInt32.ofNat INPUT_BUF_SIZE) := fun hn => hf (h.not_full_iff.mp hn.2)
    rw [if_neg hn]
    split_ifs
    all_goals first | rfl | exact congrFun (killLine_buf _ _) _

end Rep

/-! ### Readers -/

/-- A call of `consoleread` in progress with `n` bytes still to go has copied the others, none of
them a newline or a control-d. -/
def Pc.Partial (l : List UInt8) : Pc → Prop
  | .want n target | .head n target | .asleep n target =>
    (l.length : ℤ) = target-n ∧ newline ∉ l ∧ C 'D' ∉ l
  | _ => True

structure Inv (s : Sys) : Prop where
  rep : Rep s.cons (Editor.after s.hist)
  got : s.got = (Editor.after s.hist).given
  part : ∀ p, (s.pc p).Partial (s.copied p)

lemma init_inv (buf : Fin INPUT_BUF_SIZE → UInt8) (killed : Pid → Bool) : Inv (init buf killed) where
  rep := ⟨Ring.holds_empty _ _ _,rfl,le_rfl,not_mem_nil,fun h => absurd rfl h⟩
  got := rfl
  part _ := trivial

/-- The copies to the readers succeed. -/
def Copied : Event → Prop
  | .pass _ ok => ok = true
  | _ => True

instance (e : Event) : Decidable (Copied e) := by
  unfold Copied
  split <;> infer_instance

section Steps
variable {s t : Sys} {p : Pid} {n target : ℤ}

@[simp] lemma goto_pc (s : Sys) (p : Pid) (q : Pc) : (s.goto p q).pc p = q := by simp [Sys.goto]

lemma goto_pc_ne (s : Sys) {p q : Pid} (r : Pc) (h : q ≠ p) : (s.goto p r).pc q = s.pc q := by
  simp [Sys.goto,h]

lemma partial_wakeup {q : Pc} {l : List UInt8} (h : q.Partial l) : q.wakeup.Partial l := by
  cases q <;> exact h

section
variable (h : Inv s)
include h

/-- A step that leaves the ring and what was copied alone. -/
lemma Inv.quiet (hc : t.cons = s.cons) (hh : t.hist = s.hist) (hg : t.got = s.got)
    (hp : ∀ p, (t.pc p).Partial (t.copied p)) : Inv t where
  rep := by rw [hc,hh]; exact h.rep
  got := by rw [hg,hh]; exact h.got
  part := hp

lemma Inv.goto {q : Pc} (hq : q.Partial (s.copied p)) : Inv (s.goto p q) := by
  refine h.quiet rfl rfl rfl fun p' => ?_
  by_cases hp : p' = p
  · subst hp
    rw [goto_pc]
    exact hq
  · rw [goto_pc_ne _ _ hp]
    exact h.part p'

lemma Inv.release : Inv s.release := h.quiet rfl rfl rfl h.part

/-- The handler takes nothing out and moves a reader at most by waking it up. -/
lemma Inv.typed (c : UInt8) : Inv (typed s c) where
  rep := by
    change Rep _ (Editor.after (s.hist++[.typed c]))
    rw [Editor.after_append]
    exact h.rep.type c
  got := by
    change s.got = (Editor.after (s.hist++[.typed c])).given
    rw [Editor.after_append,Editor.given_typed h.rep.taken_le]
    exact h.got
  part p := by
    change Pc.Partial (s.copied p) (if (s.cons.consoleintr c).2 = true then _ else _)
    generalize (s.cons.consoleintr c).2 = woken
    cases woken
    · exact h.part p
    · exact partial_wakeup (h.part p)

lemma Inv.copies (hne : s.cons.r ≠ s.cons.w) (hd : s.next ≠ C 'D') {q : Pc}
    (hq : q.Partial (s.copied p++[s.next])) : Inv ((s.take.copyout p s.next).goto p q) := by
  obtain ⟨hrep,hnext⟩ := h.rep.take hne
  refine ⟨?_,?_,fun p' => ?_⟩
  · change Rep _ (Editor.after (s.hist++[.took]))
    rw [Editor.after_append]
    exact hrep
  · change s.got++[s.next] = (Editor.after (s.hist++[.took])).given
    rw [Editor.after_append,Editor.given_took hnext,← h.got]
    change _ = s.got++[s.next].filter _
    rw [filter_cons_of_pos (by simpa using hd)]
    rfl
  · by_cases hp : p' = p
    · subst hp
      rw [goto_pc]
      change q.Partial (update s.copied p' (s.copied p'++[s.next]) p')
      rwa [update_self]
    · rw [goto_pc_ne _ _ hp]
      change (s.pc p').Partial (update s.copied p (s.copied p++[s.next]) p')
      rw [update_of_ne hp]
      exact h.part p'

lemma Inv.consumes (hne : s.cons.r ≠ s.cons.w) (hd : s.next = C 'D') {v : ℤ} :
    Inv (s.take.goto p (.ret v)) := by
  obtain ⟨hrep,hnext⟩ := h.rep.take hne
  refine Inv.goto (s := s.take) ⟨?_,?_,h.part⟩ trivial
  · change Rep _ (Editor.after (s.hist++[.took]))
    rw [Editor.after_append]
    exact hrep
  · change s.got = (Editor.after (s.hist++[.took])).given
    rw [Editor.after_append,Editor.given_took hnext,← h.got]
    change _ = s.got++[s.next].filter _
    rw [filter_cons_of_neg (by simpa using hd)]
    exact (append_nil _).symm

lemma Inv.ret (p : Pid) (v : ℤ) : Inv (s.goto p (.ret v)) := h.goto trivial

lemma Inv.pass (hp : s.pc p = .head n target) : Inv (consolereadPass s p true n target) := by
  have hpart := h.part p
  rw [hp] at hpart
  obtain ⟨hlen,hnl,hcd⟩ := hpart
  simp only [consolereadPass,if_true]
  split_ifs with hn he hk hd hlt hnew
  · exact (h.ret p _).release
  · exact (h.goto (q := .asleep n target) ⟨hlen,hnl,hcd⟩).release
  · exact (h.ret p _).release
  · exact (h.consumes he hd).release
  · exact (h.copies (q := .ret _) he hd trivial).release
  · refine h.copies he hd ⟨?_,?_,?_⟩
    · rw [length_append,length_singleton]
      push_cast
      omega
    · rw [mem_append,mem_singleton,not_or]
      exact ⟨hnl,Ne.symm hnew⟩
    · rw [mem_append,mem_singleton,not_or]
      exact ⟨hcd,Ne.symm hd⟩
  · exact (h.ret p _).release

theorem step_inv {e : Event} (hc : Copied e) (hs : step s e = some t) : Inv t := by
  cases e with
  | type c =>
    obtain ⟨-,hs⟩ := Option.ite_none_right_eq_some.mp hs
    cases hs
    exact h.typed c
  | read p n =>
    have ht : t = Sys.goto { s with copied := update s.copied p [] } p (.want n n) := by
      simp only [step] at hs
      split at hs <;> cases hs <;> rfl
    rw [ht]
    refine h.quiet rfl rfl rfl fun p' => ?_
    by_cases hp : p' = p
    · subst hp
      rw [goto_pc]
      exact (by simp [Sys.goto,Pc.Partial])
    · rw [goto_pc_ne _ _ hp]
      simpa [Sys.goto,hp] using h.part p'
  | acquire p =>
    simp only [step] at hs
    split at hs
    · rename_i n target hl hp
      cases hs
      have hpart := h.part p
      rw [hp] at hpart
      exact (h.goto (q := .head n target) hpart).quiet rfl rfl rfl
        (h.goto (q := .head n target) hpart).part
    · cases hs
  | pass p ok =>
    simp only [step] at hs
    split at hs
    · rename_i n target hp
      cases hs
      rw [show ok = true from hc]
      exact h.pass hp
    · cases hs
  | kill p =>
    cases hs
    exact Inv.goto (s := { s with killed := update s.killed p true })
      (h.quiet rfl rfl rfl h.part) (partial_wakeup (h.part p))

end

/-- A pass of the loop of `consoleread` from `s` to `t`: a call returns what it has copied, at most
one line; it returns 0 exactly when it has copied nothing and the next committed byte is a
control-d, which it consumes; and one that it finds later stays. -/
structure Pass (s t : Sys) (p : Pid) (n target : ℤ) : Prop where
  line : ∀ v, t.pc p = .ret v → v ≠ -1 →
    v = (t.copied p).length ∧ newline ∉ (t.copied p).dropLast
  killed : t.pc p = .ret (-1) → s.killed p = true ∧ s.cons.r = s.cons.w
  zero : 0 < target →
    (t.pc p = .ret 0 ↔ s.copied p = [] ∧ (Editor.after s.hist).next = some (C 'D'))
  eof : 0 < n → (Editor.after s.hist).next = some (C 'D') →
    t.cons.r = if s.copied p = [] then s.cons.r+1 else s.cons.r

lemma Pass.of_ret {v : ℤ} (hd : (Editor.after s.hist).next = some (C 'D') ↔
      s.cons.r ≠ s.cons.w ∧ s.next = C 'D') (ht : t.pc p = .ret v)
    (hline : v ≠ -1 → v = (t.copied p).length ∧ newline ∉ (t.copied p).dropLast)
    (hkilled : v = -1 → s.killed p = true ∧ s.cons.r = s.cons.w)
    (hzero : 0 < target → (v = 0 ↔ s.copied p = [] ∧ s.cons.r ≠ s.cons.w ∧ s.next = C 'D'))
    (heof : 0 < n → s.cons.r ≠ s.cons.w → s.next = C 'D' →
      t.cons.r = if s.copied p = [] then s.cons.r+1 else s.cons.r) : Pass s t p n target where
  line v' hv := by
    cases ht.symm.trans hv
    exact hline
  killed hv := by
    cases ht.symm.trans hv
    exact hkilled rfl
  zero h := by
    rw [ht,Pc.ret.injEq,hd]
    exact hzero h
  eof hn hd' := heof hn (hd.mp hd').1 (hd.mp hd').2

lemma Inv.reads (h : Inv s) (hp : s.pc p = .head n target) :
    Pass s (consolereadPass s p true n target) p n target := by
  have hpart := h.part p
  rw [hp] at hpart
  obtain ⟨hlen,hnl,-⟩ := hpart
  have hnl' : newline ∉ (s.copied p).dropLast := fun hm => hnl (mem_of_mem_dropLast hm)
  have hnext := h.rep.next_iff (c := C 'D')
  simp only [consolereadPass,if_true]
  split_ifs with hn he hk hd hlt hnew
  · refine Pass.of_ret hnext (goto_pc _ _ _) (fun hv => absurd rfl hv) (fun _ => ⟨hk,he⟩) (fun _ => ?_)
      fun _ hne => absurd he hne
    simp [he]
  · have hpc : ((s.goto p (.asleep n target)).release).pc p = .asleep n target := goto_pc _ _ _
    refine ⟨fun v hv => ?_,fun hv => ?_,fun _ => ⟨fun hv => ?_,fun hv =>
      absurd he (hnext.mp hv.2).1⟩,fun _ hd => absurd he (hnext.mp hd).1⟩ <;>
      cases hpc.symm.trans hv
  · have hne : s.copied p ≠ [] := by
      intro h0
      rw [h0] at hlen
      simp at hlen
      omega
    refine Pass.of_ret hnext (goto_pc _ _ _) (fun _ => ⟨hlen.symm,hnl'⟩) (by omega) (fun _ => ?_)
      fun _ _ _ => (if_neg hne).symm
    simp only [hne,false_and,iff_false]
    omega
  · have h0 : (s.copied p).length = 0 := by omega
    have hnil := length_eq_zero_iff.mp h0
    refine Pass.of_ret hnext (goto_pc _ _ _) (fun _ => ⟨hlen.symm,hnl'⟩) (by omega) (fun _ => ?_)
      fun _ _ _ => (if_pos hnil).symm
    simp only [hnil,he,hd,not_false_eq_true,and_self,iff_true,ne_eq]
    omega
  · have hcopied : (((s.take.copyout p s.next).goto p (.ret (target-(n-1)))).release).copied p =
        s.copied p++[s.next] := update_self _ _ _
    refine Pass.of_ret hnext (goto_pc _ _ _) (fun _ => ?_) (by omega) (fun _ => ?_)
      fun _ _ hd' => absurd hd' hd
    · rw [hcopied,dropLast_concat,length_append,length_singleton]
      push_cast
      exact ⟨by omega,hnl⟩
    · simp only [hd,and_false,iff_false]
      omega
  · have hpc : ((s.take.copyout p s.next).goto p (.head (n-1) target)).pc p = .head (n-1) target :=
      goto_pc _ _ _
    refine ⟨fun v hv => ?_,fun hv => ?_,fun _ => ⟨fun hv => ?_,fun hv =>
      absurd (hnext.mp hv.2).2 hd⟩,fun _ hd' => absurd (hnext.mp hd').2 hd⟩ <;>
      cases hpc.symm.trans hv
  · refine Pass.of_ret hnext (goto_pc _ _ _) (fun _ => ⟨hlen.symm,hnl'⟩) (by omega) (fun ht => ?_)
      fun hn' => absurd hn' hn
    constructor
    · omega
    · rintro ⟨h0,-⟩
      rw [h0] at hlen
      simp at hlen
      omega

lemma step_keeps {e : Event} (h : Inv s) (hs : step s e = some t) {j : ℕ}
    (hj : j < (s.cons.w-s.cons.r).toNat) :
    t.cons.buf (slotOf (s.cons.r.toNat+j)) = s.cons.buf (slotOf (s.cons.r.toNat+j)) := by
  cases e with
  | type c =>
    obtain ⟨-,hs⟩ := Option.ite_none_right_eq_some.mp hs
    cases hs
    exact h.rep.keeps c hj
  | read p n =>
    simp only [step] at hs
    split at hs <;> cases hs <;> rfl
  | acquire p =>
    simp only [step] at hs
    split at hs <;> cases hs
    rfl
  | pass p ok =>
    simp only [step] at hs
    split at hs
    · cases hs
      unfold consolereadPass
      split_ifs <;> rfl
    · cases hs
  | kill p =>
    cases hs
    rfl

/-- The character a step types, and the one the editor is told. -/
def Event.char : Event → Option UInt8
  | type c => some c
  | _ => none

def Obs.char : Obs → Option UInt8
  | typed c => some c
  | took => none

lemma step_typed {e : Event} (hs : step s e = some t) :
    t.hist.filterMap Obs.char = s.hist.filterMap Obs.char++[e].filterMap Event.char := by
  cases e with
  | type c =>
    obtain ⟨-,hs⟩ := Option.ite_none_right_eq_some.mp hs
    cases hs
    simp [typed,Obs.char,Event.char]
  | read p n =>
    simp only [step] at hs
    split at hs <;> cases hs <;> exact (append_nil _).symm
  | acquire p =>
    simp only [step] at hs
    split at hs <;> cases hs
    exact (append_nil _).symm
  | pass p ok =>
    simp only [step] at hs
    split at hs
    · cases hs
      unfold consolereadPass
      split_ifs <;>
        simp [Sys.take,Sys.goto,Sys.release,Sys.copyout,filterMap_cons,Obs.char,Event.char]
    · cases hs
  | kill p =>
    cases hs
    exact (append_nil _).symm

/-- The editor is told exactly the characters typed in a run, in their order. -/
lemma run_typed {C : Sys → Event → Prop} {es : List Event} (h : Runs step C s es t) :
    t.hist.filterMap Obs.char = s.hist.filterMap Obs.char++es.filterMap Event.char := by
  induction h with
  | nil s => exact (append_nil _).symm
  | cons _ hs _ ih => rw [ih,step_typed hs,append_assoc,← filterMap_append,singleton_append]

end Steps

/-- For every interleaving of typed characters and reads by any processes whose copies succeed, and
past any number of wraparounds of the indices: the indices stay in order and within the size of the
ring; the reference editor has committed what is before `w` and holds the rest in its line; the bytes
copied out are those that it hands out, the unread committed ones are in the ring and no step
overwrites them; and every pass of a read is as `Pass` says. -/
theorem console_line_discipline (buf : Fin INPUT_BUF_SIZE → UInt8) (killed : Pid → Bool)
    (es : List Event) (s : Sys) (hrun : Runs step (fun _ e => Copied e) (init buf killed) es s) :
    -- the indices
    (s.cons.w-s.cons.r).toNat ≤ (s.cons.e-s.cons.r).toNat ∧
    (s.cons.e-s.cons.r).toNat ≤ INPUT_BUF_SIZE ∧
    (s.cons.w-s.cons.r).toNat = (Editor.after s.hist).committed.length-(Editor.after s.hist).taken ∧
    (s.cons.e-s.cons.r).toNat = (Editor.after s.hist).unread ∧
    (Editor.after s.hist).taken ≤ (Editor.after s.hist).committed.length ∧
    s.hist.filterMap Obs.char = es.filterMap Event.char ∧
    -- the bytes
    s.got = (Editor.after s.hist).given ∧
    (∀ j < (s.cons.w-s.cons.r).toNat, (Editor.after s.hist).committed[(Editor.after s.hist).taken+j]? =
      some (s.cons.buf (slotOf (s.cons.r.toNat+j)))) ∧
    (∀ e t, step s e = some t → ∀ j < (s.cons.w-s.cons.r).toNat,
      t.cons.buf (slotOf (s.cons.r.toNat+j)) = s.cons.buf (slotOf (s.cons.r.toNat+j))) ∧
    -- the reads
    ∀ p n target t, s.pc p = .head n target → step s (.pass p true) = some t →
      Pass s t p n target := by
  have h : Inv s := hrun.invariant (fun _ _ _ hi hc hs => step_inv hi hc hs) (init_inv buf killed)
  refine ⟨?_,?_,h.rep.committed_distance,h.rep.distance,h.rep.taken_le,run_typed hrun,h.got,
    fun j hj => h.rep.unread_byte hj,fun e t hs j hj => ?_,
    fun p n target t hp hs => ?_⟩
  · rw [h.rep.committed_distance,h.rep.distance,Editor.unread]
    omega
  · rw [h.rep.distance]
    exact h.rep.unread_le
  · exact step_keeps h hs hj
  · simp only [step,hp] at hs
    cases hs
    exact h.reads hp

/-- A process types `hi`, deletes the `i` and ends the line; process 7 reads it. -/
def oneLine : List Event :=
  [.type 104,.type 105,.type delete,.type carriageReturn,.read 7 10,.acquire 7,.pass 7 true,
   .pass 7 true]

theorem console_line_discipline_oneLine : ∃ s,
    Runs step (fun _ e => Copied e) (init (fun _ => 0) fun _ => false) oneLine s ∧
      s.got = [104,newline] ∧ s.pc 7 = .ret 2 ∧ s.got = (Editor.after s.hist).given := by
  obtain ⟨s,hr,hg,hp⟩ := Runs.exists_of_execIf step (fun _ e => Copied e)
    (init (fun _ => 0) fun _ => false) oneLine (fun s => s.got = [104,newline] ∧ s.pc 7 = .ret 2)
    (by decide +kernel)
  exact ⟨s,hr,hg,hp,(console_line_discipline _ _ _ s hr).2.2.2.2.2.2.1⟩

end Xv6.Console
