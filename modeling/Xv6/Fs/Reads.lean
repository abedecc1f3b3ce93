import Xv6.Fs.Logged
import Xv6.Fs.Ownership

/-! Reads outside of a transaction. `fileread` and `dirlookup` use the same `bmap` as writers do,
but no file has a hole in any state of any run, so that they never come to `log_write`. -/
namespace Xv6.Fs

open Itable (Stage)

/-- How a function of `fs.c` ends when no transaction is under way: the first call of `log_write`
panics. -/
def Logged.outside {α : Type} (x : Logged α) : Except String α :=
  match x.trace with
  | [] => x.result
  | _::_ => .error "log_write outside of trans"

/-- The fields of an inode in the table together with the disk. -/
def State.data (s : State) (i : Slot) : Data Store := ⟨(s.table.inode i).d,s.store⟩

/-- The steps of the system with those of `fileread`, which locks the inode of an open file, reads
it and unlocks it again; the reading itself changes nothing. -/
inductive ReadEvent
  | call (e : Event)
  | ilock (p : Fin NPROC) (f : Fin NFILE)
  | iunlock (p : Fin NPROC) (f : Fin NFILE) (i : Slot)

def stepRead (sb : Superblock) (c : Sys) : ReadEvent → Option Sys
  | .call e => step sb c e
  | .ilock p f =>
    match c.thread p,lockFile p f c.state with
    | none,.ok (_,t) => some { c with state := t }
    | _,_ => none
  | .iunlock p f i =>
    match c.thread p,unlockFile p f i c.state with
    | none,.ok (_,t) => some { c with state := t }
    | _,_ => none

variable {sb : DiskSb}

lemma Base.stepRead {c d : Sys} {e : ReadEvent} (h : Base sb c.state)
    (hd : stepRead sb c e = some d) : Base sb d.state := by
  cases e with
  | call e =>
    have hd : step sb c e = some d := hd
    exact h.runs (Lib.Runs.cons (C := fun _ _ => True) trivial hd (.nil d))
  | ilock p f =>
    simp only [Fs.stepRead] at hd
    split at hd
    · rename_i i t _ ht
      obtain rfl := Option.some.inj hd
      exact h.lockFile ht
    · cases hd
  | iunlock p f i =>
    simp only [Fs.stepRead] at hd
    split at hd
    · rename_i u t _ ht
      obtain rfl := Option.some.inj hd
      exact h.eval (a := .unlockFile f i) ht
    · cases hd

lemma Logged.outside_readi {x : Data Store} (hf : x.Full) (out : ℕ → ℕ → Bool) (off n : ℕ) :
    ∃ r l, outside (sb.logged.readi out off n x) = .ok (r,l,x) := by
  obtain ⟨r,l,hr⟩ := Data.readi_ok sb hf out off n
  refine ⟨r,l,?_⟩
  rw [outside,readi_trace hf]
  exact (readi_result sb out off n x).trans hr

lemma Logged.outside_dirlookup {x : Data Store} (hf : x.Full) (name : List UInt8) :
    outside (sb.logged.dirlookup name (x.rounds 0) 0 x) =
      sb.blocks.dirlookup name (x.rounds 0) 0 x ∧
    outside (sb.logged.dirlookup name (x.rounds 0) 0 x) ≠ .error "log_write outside of trans" := by
  have h : outside (sb.logged.dirlookup name (x.rounds 0) 0 x) =
      sb.blocks.dirlookup name (x.rounds 0) 0 x := by
    rw [outside,Blocks.dirlookup,entryLoop_trace hf]
    exact entryLoop_result sb _ _ _ _ _ x
  refine ⟨h,?_⟩
  rw [h,Blocks.dirlookup]
  rcases Data.entryLoop_or sb hf "dirlookup read" (fun e off =>
    if e.inum ≠ 0 ∧ namecmp name e.name = 0 then some (some (e.inum,off)) else none)
    (fun _ => none) (x.rounds 0) 0 with ⟨b,hb⟩ | hb
  · rw [hb]
    exact nofun
  · rw [hb]
    intro he
    exact absurd (Except.error.inj he) (by decide)

variable (sb) in
/-- No file gets a hole: in every state of every run, whatever the calls, their arguments and their
failures, an inode in use has a block for each of the `BSIZE`-byte pieces below its size. So
`readi` of a locked inode allocates nothing and changes nothing, and outside of a transaction
neither it nor `dirlookup` comes to the panic of `log_write`. -/
theorem no_holes (disk : ℕ → Dinode) (st : Store) (h : Image sb disk st)
    (es : List ReadEvent) (c : Sys)
    (hr : Lib.Runs (stepRead sb) (fun _ _ => True) (boot disk st) es c) :
    (∀ k, (c.state.dinode k).type ≠ 0 → ∀ bn, bn*BSIZE < (c.state.dinode k).size →
      Data.ptr ⟨c.state.dinode k,c.state.store⟩ (Data.dataPos bn) ≠ 0) ∧
    ∀ (p : Fin NPROC) (i : Slot), (p.val,Stage.hold) ∈ (c.state.table.inode i).refs →
      (∀ out off n, (sb.logged.readi out off n (c.state.data i)).trace = [] ∧
        ∃ r l, Logged.outside (sb.logged.readi out off n (c.state.data i)) =
          .ok (r,l,c.state.data i)) ∧
      ∀ name, Logged.outside (sb.logged.dirlookup name ((c.state.data i).rounds 0) 0
          (c.state.data i)) ≠ .error "log_write outside of trans" := by
  have hb : Base sb c.state :=
    hr.invariant (I := fun c => Base sb c.state) (fun _ _ _ hc _ hd => hc.stepRead hd)
      (Base.boot h)
  refine ⟨fun k hk => (hb.full k hk).ptr_ne,fun p i hm => ?_⟩
  have hf := hb.full_locked hm rfl
  exact ⟨fun out off n => ⟨Logged.readi_trace hf out off n,Logged.outside_readi hf out off n⟩,
    fun name => (Logged.outside_dirlookup hf name).2⟩

/-- The small image, with the block numbers of a disk. -/
def smallDiskSb : DiskSb :=
  { smallSb with magic := 0, nlog := 0, logstart := 2, inodestart := 2, bmapstart := 3 }

def file0 : Fin NFILE := ⟨0,by decide⟩

theorem no_holes_root : ∃ c : Sys, ∀ out off n, ∃ r l,
    Logged.outside (smallDiskSb.logged.readi out off n (c.state.data slot0)) =
      .ok (r,l,c.state.data slot0) := by
  obtain ⟨c,hr,hm⟩ := Lib.Runs.exists_of_execIf (stepRead smallSb) (fun _ _ => True)
    (boot smallDisk smallStore)
    ((wholeCall proc0 (.open [47] 0) 8).map .call++[.ilock proc0 file0])
    (fun c => (proc0.val,Stage.hold) ∈ (c.state.table.inode slot0).refs) (by decide +kernel)
  obtain ⟨-,h⟩ := no_holes smallDiskSb smallDisk smallStore small_image _ c hr
  exact ⟨c,fun out off n => ((h proc0 slot0 hm).1 out off n).2⟩

end Xv6.Fs
