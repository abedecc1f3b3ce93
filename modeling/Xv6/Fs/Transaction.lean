import Xv6.Fs.Open
import Xv6.Fs.Unlink

/-! The transactions of the system calls. A call passes blocks to `log_write` between `begin_op` and
`end_op`, and there are to be no more of them than `begin_op` has reserved. Here are the calls that
are one transaction. -/
namespace Xv6.Fs
open View Logged

open Lib (Few Traced)
open Lib.Prog (wp_act wp_bind wp_ite wp_perform)

/-- What `exec` does to the file system: it looks for the file and reads from it, at offsets that
depend on what it finds there, until it has the program or gives up. -/
def execRead (ip : Slot) : List (ℕ×ℕ) → Code Unit
  | [] => return ()
  | (off,n)::rest => do
    let _ ← perform (.readi ip off n)
    execRead ip rest

def exec (path : List UInt8) (reads : List (ℕ×ℕ)) : Code ℤ := do
  match ← namei path with
  | none => return -1
  | some ip =>
    perform (.ilock ip)
    execRead ip reads
    iunlockput ip
    return 0

/-- The blocks logged so far fit the reservation of one operation. -/
def View.Fits (v : View) : Prop := v.log.toFinset.card ≤ MAXOPBLOCKS

/-- What a transaction finds when it begins. -/
structure Begun (sb : DiskSb) (p : Fin NPROC) (v : View) : Prop where
  image : Image sb v.inode v.store
  tree : v.Tree
  held : v.held = []
  log : v.log = []
  cwd : v.HasCwd p
  nlink : ∀ k, toShort (v.inode k).nlink = (v.inode k).nlink
  free : FreeFiles v.file
  /-- The bitmap is in one block. -/
  size : sb.size ≤ BPB

namespace Begun
variable {sb : DiskSb} {p : Fin NPROC} {v : View}

lemma unlocked (h : Begun sb p v) : v.Unlocked := .of_held h.held

lemma fits (h : Begun sb p v) {w : View} {d k : ℕ} {l : List ℕ} {n : ℕ} (hw : w.log = v.log++l)
    (hl : Few (sb.metas {d,k}) n l) (hn : n ≤ 7) : w.Fits := by
  have hcard : (sb.metas {d,k}).card ≤ 1+({d,k} : Finset ℕ).card := metas_card h.size
  have htwo : ({d,k} : Finset ℕ).card ≤ 2 := Finset.card_le_two
  have hle := hl.card_le
  rw [View.Fits,hw,h.log,List.nil_append]
  show _ ≤ 10
  omega

lemma fits_self (h : Begun sb p v) : v.Fits := by
  rw [View.Fits,h.log]
  exact Nat.zero_le _

end Begun

namespace Solo
variable {sb : DiskSb} {p : Fin NPROC} {v : View}

lemma wp_writei {α : Type} {c : ℤ → Code α} {Q : α → View → Prop} {E : View → Stop → Prop} {i : Slot}
    {k off n : ℕ} {src : ℕ → ℕ → List UInt8×Bool} (hi : Image sb v.inode v.store)
    (hm : ⟨i,k,.locked⟩ ∈ v.held) (hty : (v.inode k).type ≠ 0)
    (h : ∀ r s l, Image sb s.inode s.store → Files.Keeps {k} v.files s →
      (s.inode k).type = (v.inode k).type → Costs sb k (2*Logged.span off n) l →
      (c r).Wp (spec sb p E) (v.after s l) Q) :
    (perform (.writei i src off n) >>= c).Wp (spec sb p E) v Q := by
  obtain ⟨r,y,hw,-,hg,-⟩ := Data.writei_spec (x := v.data k) src off n ⟨hi.own,rfl,hty⟩
    (hi.full k hty)
  have hres : (Logged.writeData sb k (sb.logged.writei src off n (v.data k))).result = .ok (r,y) := by
    rw [writeData_result,writei_result,hw]
  refine wp_act ⟨k,hm,?_⟩
  unfold Wrote
  rw [hres]
  intro himage
  rw [write_eq]
  refine h r _ _ himage (.grow hi hty hg) ?_ fun ks hks =>
    writeData_few hks (writei_few ..)
  show (Function.update v.inode k y.d k).type = _
  rw [Function.update_self,hg.d_eq]
  rfl

variable (h : Begun sb p v)
include h

lemma fits_sysLink (old new : List UInt8) :
    (sysLink old new).Wp (spec sb p fun _ _ => True) v fun _ w => w.Fits := by
  refine wp_sysLink h.image h.tree h.held h.cwd (fun _ => trivial) (fun k _ => h.nlink k)
    (fun s l d k _ _ hl => h.fits (w := v.after s l) rfl hl (by omega))
    fun _ k d name ip s t l _ _ hk _ hs _ _ hent hl _ => ?_
  have hsk : (s.inode k).type = (v.inode k).type := by
    rw [hs,Files.setInode_self]
  refine wp_bind (wp_put (h := ⟨ip,k,.seen⟩) hent.image mem_hold rfl ?_ (fun _ => ?_)
    fun _ u l' _ _ _ hl' => ?_)
  · exact (hent.type k).trans_ne (hsk.trans_ne hk.1)
  · exact h.fits (w := ((v.after t l).hold ⟨ip,k,.seen⟩).drop ⟨ip,k,.seen⟩) rfl hl (by omega)
  · simp only [hold_after,after_after,hold_drop]
    exact h.fits (w := v.after u (l++l')) rfl (hl.append (hl' _ (by simp))) (by omega)

variable (path : List UInt8)
include path

lemma fits_sysUnlink : (sysUnlink path).Wp (spec sb p fun _ _ => True) v fun _ w => w.Fits :=
  wp_sysUnlink h.image h.tree h.held h.cwd (fun _ _ _ => trivial) (fun _ _ _ _ _ _ _ => trivial)
    h.fits_self fun _ d _ k m t l _ _ _ _ _ _ _ _ _ hl _ => h.fits (w := v.after t l) rfl hl (by omega)

lemma fits_sysCreate {type : ℕ} (h0 : type ≠ 0) (hT : type ≠ T_FILE) (major minor : ℤ) :
    (sysCreate sb path type major minor).Wp (spec sb p fun _ _ => True) v
      fun _ w => w.Fits := by
  unfold sysCreate
  split
  · exact h.fits_self
  · refine wp_bind (wp_create h.image h.tree h.held (fun _ _ _ _ => trivial) h.cwd h0
      (fun s l d k _ _ hl => h.fits (w := v.after s l) rfl hl (by omega))
      (fun _ _ _ _ _ _ _ hf => absurd hf hT) fun d name dp _ hd k ip t l hmade hl hw => ?_)
    have hne := (hmade.dir hd.1).1
    refine wp_createDone hmade.image (List.mem_cons_of_mem _ mem_hold) (hmade.dir hd.1).2
      fun s l' hs hks hl' => ?_
    simp only [hold_after,after_after]
    rw [hold_hold_drop fun he => hne (congrArg Held.inum he).symm]
    have hl'' : Few (sb.metas {d,k}) 6 (l++l') := hl.append (hl' _ (by simp))
    refine wp_bind (wp_iunlockput hs mem_hold ?_ (fun _ => ?_) fun _ u l'' _ _ _ hlu => ?_)
    · exact hks.used hne.symm (hmade.node.trans_ne h0)
    · rw [hold_drop]
      exact h.fits (w := v.after s (l++l')) rfl hl'' (by omega)
    · simp only [hold_after,after_after,hold_drop]
      exact h.fits (w := v.after u _) rfl (hl''.append (hlu _ (by simp))) (by omega)

lemma fits_sysOpen (omode : ℕ) :
    (sysOpen sb path omode).Wp (spec sb p fun _ _ => True) v fun _ w => w.Fits := by
  unfold sysOpen
  split
  · exact h.fits_self
  · refine wp_ite (fun _ => ?_) fun _ => ?_
    · rw [create_eq]
      refine wp_bind (wp_bind (wp_nameiparent h.tree h.unlocked (fun _ _ _ _ => trivial) h.cwd
        (fun _ => h.fits_self) fun d name dp m hp hm hw hk => ?_))
      refine Lib.Prog.Wp.of_bind (wp_createOpen h.image h.tree h.held (fun _ _ _ _ _ _ => trivial) hm hw
        hk (Files.parent_eq_some.mp hp).2.2 h.free ?_ ?_ ?_)
      · exact fun s l k _ _ _ hl => h.fits (w := v.after s l) rfl hl (by omega)
      · exact fun t l k ip _ _ _ _ hl => h.fits (w := v.after t l) rfl hl (by omega)
      · exact fun fd w l k _ hlog hl => h.fits hlog hl (by omega)
    · exact wp_openPlain h.image h.tree h.held (fun _ _ _ _ => trivial) h.cwd h.free h.fits_self
        fun fd w l k hlog hl => h.fits (d := k) (k := k) hlog (hl _ (by simp)) (by omega)

/-- `sys_chdir` puts the old directory, which may have been removed in the meantime. -/
lemma fits_sysChdir : (sysChdir path).Wp (spec sb p fun _ _ => True) v fun _ w => w.Fits := by
  unfold sysChdir
  split
  · exact h.fits_self
  refine wp_bind (wp_namei h.tree h.unlocked (fun _ _ _ _ => trivial) h.cwd (fun _ => h.fits_self)
    fun k ip m _ hm hw hk => ?_)
  refine wp_ilock h.unlocked hm hk.1 (wp_act ⟨k,mem_hold,wp_ite (fun _ => ?_) fun _ => ?_⟩)
  · exact wp_putback hk hw.hold_mode h.fits_self
  · refine wp_act ⟨k,mem_hold,?_⟩
    obtain ⟨i,hi,hmem⟩ := h.cwd
    refine wp_act ⟨i,hi,hmem,?_⟩
    refine wp_bind (wp_put (h := ⟨i,v.name i,.fresh⟩) h.image List.mem_cons_self rfl
      (h.tree.found i (List.ne_nil_of_mem hmem)) (fun _ => ?_) fun _ s l _ _ _ hl => ?_)
    · exact wp_act h.fits_self
    · exact wp_act (h.fits (d := v.name i) (k := v.name i) rfl (hl _ (by simp)) (by omega))

lemma fits_exec (reads : List (ℕ×ℕ)) :
    (exec path reads).Wp (spec sb p fun _ _ => True) v fun _ w => w.Fits := by
  refine wp_bind (wp_namei h.tree h.unlocked (fun _ _ _ _ => trivial) h.cwd (fun _ => h.fits_self)
    fun k ip m _ hm hw hk => ?_)
  refine wp_ilock h.unlocked hm hk.1 ?_
  have hread : (execRead ip reads).Wp (spec sb p fun _ _ => True) (v.hold ⟨ip,k,.locked⟩)
      fun _ w => w = v.hold ⟨ip,k,.locked⟩ := by
    induction reads with
    | nil => rfl
    | cons r rest ih => exact wp_act ⟨k,mem_hold,fun _ _ _ => ih⟩
  refine hread.bind fun _ w hv => ?_
  subst hv
  exact wp_putback hk hw.hold_mode h.fits_self

end Solo
end Xv6.Fs
