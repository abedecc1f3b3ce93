import Xv6.Fs.Link

/-! `sys_open`, run alone. It takes back what it has done when it fails, except that a file which
it has created stays. -/
namespace Xv6.Fs
open View List Solo

open Lib (Few)
open Lib.Prog (wp_act wp_bind wp_ite wp_perform)

/-- There is no free `struct file`, or no free descriptor. -/
def NoFile (file : Fin NFILE → File) (proc : Proc) : Prop :=
  (∀ f, (file f).ref ≠ 0) ∨ ∀ fd, (proc.ofile fd).isSome

/-- A `struct file` that is not in use is as `fileclose` leaves it. -/
def FreeFiles (file : Fin NFILE → File) : Prop := ∀ f, (file f).ref = 0 → (file f).closed = file f

namespace View
variable (v : View) (f : Fin NFILE) (x y : File)

def setFile : View := { v with file := Function.update v.file f x }

@[simp] lemma setFile_self : (v.setFile f x).file f = x := Function.update_self ..

lemma setFile_setFile : (v.setFile f x).setFile f y = v.setFile f y := by
  rw [setFile,setFile,setFile,Function.update_idem]

lemma setFile_eq : v.setFile f (v.file f) = v := by
  rw [setFile,Function.update_eq_self]

end View

namespace Solo
variable {sb : DiskSb} {p : Fin NPROC} {E : View → Stop → Prop} {v : View} {ip : Slot} {k : ℕ}

lemma wp_itrunc {α : Type} {c : Unit → Code α} {Q : α → View → Prop}
    (hi : Image sb v.inode v.store) (hm : ⟨ip,k,.locked⟩ ∈ v.held)
    (hty : (v.inode k).type ≠ 0)
    (h : ∀ s l, Image sb s.inode s.store → Files.Keeps {k} v.files s → Costs sb k 0 l →
      (c ()).Wp (spec sb p E) (v.after s l) Q) :
    (perform (.itrunc ip) >>= c).Wp (spec sb p E) v Q := by
  obtain ⟨st,hst,hblock,-⟩ := Data.itrunc_spec (x := v.data k) ⟨hi.own,rfl,hty⟩
  have hptr : ∀ pos, (v.data k).ptr pos ≠ 0 → (v.data k).ptr pos < sb.size := fun pos h0 =>
    (hi.own.mark k pos hty h0).2.1
  refine wp_act ⟨k,hm,?_⟩
  have hres : (do return ((),← Logged.truncate sb k (v.data k)) : Logged (Unit×Data Store)).result =
      .ok ((),⟨(v.data k).d.trunc,st⟩) := by
    rw [Lib.Traced.bind_result,Logged.truncate_result,hst]
    rfl
  have hcost : Costs sb k 0 (do return ((),← Logged.truncate sb k (v.data k)) :
      Logged (Unit×Data Store)).trace := fun ks hks =>
    (Logged.truncate_few hks hptr).bind (m := 0) fun _ _ => .nil
  unfold Wrote
  rw [hres]
  exact fun himage => h _ _ himage (.of_block v.files k _ hblock) hcost

lemma wp_filecloseNone {f : Fin NFILE} {Q : Option Slot → View → Prop} (hf : (v.file f).ref = 1)
    (hkind : (v.file f).kind = .none) (hQ : Q none (v.setFile f (v.file f).closed)) :
    (perform (.fileclose f)).Wp (spec sb p E) v Q := by
  refine wp_perform ?_
  simp only [spec,pre]
  rw [if_neg (by omega),if_neg (by omega),if_pos hkind]
  exact hQ

/-- The file that `fdalloc` finds no descriptor for is closed again. -/
lemma wp_filecloseNew {f : Fin NFILE} {Q : Option Slot → View → Prop} (hfree : FreeFiles v.file)
    (hf : (v.file f).ref = 0) (hQ : Q none v) :
    (perform (.fileclose f)).Wp (spec sb p E) (v.setFile f { v.file f with ref := 1 }) Q := by
  have hclosed := hfree f hf
  have hself := v.setFile_self f { v.file f with ref := 1 }
  refine wp_filecloseNone (by rw [hself]) ?_ ?_
  · rw [hself]
    exact congrArg File.kind hclosed.symm
  · have hback : ({ v.file f with ref := 1 } : File).closed = v.file f := hclosed
    rw [hself,setFile_setFile,hback,setFile_eq]
    exact hQ

variable {Q : ℤ → View → Prop}

/-- `sys_open` once the inode is locked. -/
lemma wp_openInode {omode : ℕ} (hi : Image sb v.inode v.store)
    (hw : (v.hold ⟨ip,k,.locked⟩).Wf) (hk : v.Kept k) (hfree : FreeFiles v.file)
    (hfail : (v.inode k).type = T_DEVICE ∨ NoFile v.file (v.proc p) → Q (-1) v)
    (hok : ∀ fd : Fin NOFILE, ∀ w l, ¬NoFile v.file (v.proc p) → w.log = v.log++l → Costs sb k 0 l →
      Q fd.val w) : (openInode ip omode).Wp (spec sb p E) (v.hold ⟨ip,k,.locked⟩) Q := by
  have hput : Q (-1) v → ((do iunlockput ip; return -1) : Code ℤ).Wp (spec sb p E)
      (v.hold ⟨ip,k,.locked⟩) Q := fun hq => wp_putback hk hw hq
  refine wp_act ⟨k,mem_hold,wp_ite (fun hdev => hput (hfail (.inl hdev.1))) fun hdev => ?_⟩
  refine wp_act ?_
  simp only [spec,pre]
  split
  · rename_i f hf
    have hf1 := find?_some hf
    have hf0 : (v.file f).ref = 0 := of_decide_eq_true hf1
    refine wp_act ?_
    simp only [pre]
    split
    · rename_i fd hfd
      have hfd1 := find?_some hfd
      have hfd0 : ((v.proc p).ofile fd).isNone := hfd1
      have hsome : ¬NoFile v.file (v.proc p) := by
        rintro (h | h)
        · exact h f hf0
        · rw [← Option.not_isSome,h fd] at hfd0
          cases hfd0
      refine wp_act ⟨k,mem_hold,wp_ite (fun htrunc => ?_) fun htrunc => ?_⟩
      · refine wp_itrunc hi mem_hold hk.1 fun s l _ _ hl => ?_
        refine wp_act ⟨k,mem_hold,?_⟩
        exact hok fd _ l hsome rfl hl
      · refine wp_act ⟨k,mem_hold,?_⟩
        exact hok fd _ [] hsome (append_nil _).symm fun _ _ => .nil
    · rename_i hnone
      have hall : ∀ fd, ((v.proc p).ofile fd).isSome := by
        intro fd
        have h : ¬((v.proc p).ofile fd).isNone := find?_eq_none.mp hnone fd (mem_finRange fd)
        rwa [Option.isNone_iff_eq_none,← ne_eq,← Option.isSome_iff_ne_none] at h
      refine wp_bind (wp_filecloseNew (v := v.hold ⟨ip,k,.locked⟩) hfree hf0 ?_)
      exact hput (hfail (.inr (.inr hall)))
  · rename_i hnone
    refine hput (hfail (.inr (.inl fun f => ?_)))
    exact fun h0 => find?_eq_none.mp hnone f (mem_finRange f) (decide_eq_true h0)

/-- `sys_open` with `O_CREATE`, once the directory is found. -/
def createOpen (sb : Superblock) (dp : Slot) (name : List UInt8) (omode : ℕ) : Code ℤ := do
  match ← createIn sb dp name T_FILE 0 0 with
  | none => return -1
  | some ip => openInode ip omode

def openFound (sb : Superblock) (omode : ℕ) : Option (Slot×List UInt8) → Code ℤ
  | none => return -1
  | some (dp,name) => createOpen sb dp name omode

lemma wp_createOpen {dp : Slot} {d omode : ℕ} {m : Mode} {name : List UInt8}
    (hi : Image sb v.inode v.store) (ht : v.Tree) (h0 : v.held = [])
    (hE : ∀ w g, w.others = v.others → w.held = g::v.held → g.slot = dp → w.TableFull →
      E w (.panic "iget: no inodes")) (hm : m.stage = .idle) (hw : (v.hold ⟨dp,d,m⟩).Wf)
    (hk : v.Kept d) (hdir : (v.inode d).type = T_DIR) (hfree : FreeFiles v.file)
    (hfail : ∀ s l k, ¬CanMake sb v.files d name →
      Image sb s.inode s.store → Files.Keeps ∅ v.files s →
      Few (sb.metas {d,k}) 6 l → Q (-1) (v.after s l))
    (hleft : ∀ t l k ip, CanMake sb v.files d name → NoFile v.file (v.proc p) →
      Created sb v.files t T_FILE 0 0 d k name →
      ((v.hold ⟨dp,d,.locked⟩).hold ⟨ip,k,.locked⟩).Wf → Few (sb.metas {d,k}) 6 l →
      Q (-1) (v.after t l))
    (hok : ∀ fd : Fin NOFILE, ∀ w l k, ¬NoFile v.file (v.proc p) → w.log = v.log++l →
      Few (sb.metas {d,k}) 6 l → Q fd.val w) :
    (createOpen sb dp name omode).Wp (spec sb p E) (v.hold ⟨dp,d,m⟩) Q := by
  refine wp_bind (wp_createIn hi ht h0 hE hm hw hk hdir (by decide)
    (fun s l k hwhy => hfail s l k (hwhy.resolve_left (by decide)))
    (fun k j hthere hkj _ _ hwj => ?_) fun k ip t l hmade hl hwl => ?_)
  · refine wp_openInode hi hwj hkj hfree (fun _ => ?_) fun fd w l hno hlog hl =>
      hok fd w l k hno hlog ((hl _ (by simp)).le (by omega))
    have h := hfail v.files [] 0 (fun hc => ?_) hi (.refl _) .nil
    · rwa [after_self] at h
    · cases hc.1.symm.trans hthere
  · have hne := (hmade.dir hk.1).1
    have hwl' : (((v.after t l).hold ⟨dp,d,.locked⟩).hold ⟨ip,k,.locked⟩).Wf :=
      hwl.of_eq rfl rfl rfl
    have hcan : CanMake sb v.files d name :=
      ⟨hmade.absent,⟨k,hmade.pos,hmade.lt,hmade.free⟩,hmade.room (by decide)⟩
    have hnew := hmade.new (by decide) (by decide) hne.symm
    have hkk : (v.after t l).Kept k := by
      refine ⟨?_,.inl ?_⟩
      · show (t.inode k).type ≠ 0
        rw [hnew]
        exact (by decide : T_FILE ≠ 0)
      · show (t.inode k).nlink ≠ 0
        rw [hnew]
        exact one_ne_zero
    rw [createDone,if_neg (by decide)]
    refine wp_putback_below (hmade.kept (by decide) hk) hwl'
      (fun he => hne (congrArg Held.inum he).symm) ?_
    refine wp_openInode hmade.image hwl'.swap.tail hkk hfree (fun hno => ?_)
      fun fd w l' hno hlog hl' => ?_
    · refine hleft t l k ip hcan (hno.resolve_left ?_) hmade hwl hl
      show (t.inode k).type ≠ T_DEVICE
      rw [hnew]
      exact (by decide : T_FILE ≠ T_DEVICE)
    · refine hok fd w (l++l') k hno ?_ ((hl.append (hl' _ (by simp))).le (by omega))
      rw [hlog]
      exact append_assoc ..

lemma wp_openPlain {omode : ℕ} {path : List UInt8}
    (hi : Image sb v.inode v.store) (ht : v.Tree) (h0 : v.held = [])
    (hE : MayFill E v) (hcwd : v.HasCwd p) (hfree : FreeFiles v.file) (hfail : Q (-1) v)
    (hok : ∀ fd : Fin NOFILE, ∀ w l k, w.log = v.log++l → Costs sb k 0 l → Q fd.val w) :
    (do
      match ← namei path with
      | none => return -1
      | some ip =>
        perform (.ilock ip)
        let d := (← perform (.peek ip)).2
        if d.type = T_DIR ∧ omode ≠ O_RDONLY then
          iunlockput ip
          return -1
        openInode ip omode : Code ℤ).Wp (spec sb p E) v Q := by
  have hu : v.Unlocked := .of_held h0
  refine wp_bind (wp_namei ht hu hE hcwd (fun _ => hfail) fun k ip m _ hm hw hk => ?_)
  refine wp_ilock hu hm hk.1 (wp_act ⟨k,mem_hold,wp_ite (fun hdir => ?_) fun hdir => ?_⟩)
  · exact wp_putback hk hw.hold_mode hfail
  · exact wp_openInode hi hw.hold_mode hk hfree (fun _ => hfail) fun fd w l _ hlog hl => hok fd w l k hlog hl

end Solo

/-- `sys_open` with `O_CREATE` makes a file and then finds no `struct file` or no descriptor for it:
the path leads to a directory without the name, an inode and an entry of the inode table are free,
and there is room in the directory. The table of inodes has to suffice for the walk itself, too,
which is why the walk is run here. -/
def LeavesFile (sb : DiskSb) (p : Fin NPROC) (s : State) (path : List UInt8) (omode : ℕ) : Prop :=
  omode &&& O_CREATE ≠ 0 ∧ ∃ path' dp name t, argstr path = some path' ∧
    (nameiparent path').run (eval sb p) s = .ok (some (dp,name),t) ∧
    (∃ i, (t.table.inode i).ref = 0) ∧
    Solo.CanMake sb s.view.files (t.table.inode dp).inum name ∧
    NoFile s.file (s.proc p)

section
variable {sb : DiskSb} {p : Fin NPROC} {s t : State}

/-- The run of `sys_open` with `O_CREATE`, split after `nameiparent`. -/
lemma sysOpen_run {path path' : List UInt8} {omode : ℕ} {r : Option (Slot×List UInt8)} {t : State}
    (ha : argstr path = some path') (ho : omode &&& O_CREATE ≠ 0)
    (hr : (nameiparent path').run (eval sb p) s = .ok (r,t)) :
    (sysOpen sb path omode).run (eval sb p) s =
      (Solo.openFound sb omode r).run (eval sb p) t := by
  rw [sysOpen,ha]
  dsimp only
  rw [if_pos ho,Lib.Prog.run_bind,create_eq,Lib.Prog.run_bind,hr]
  cases r with
  | none => rfl
  | some q =>
    obtain ⟨dp,name⟩ := q
    rw [openFound,createOpen,Lib.Prog.run_bind]
    rfl

/-- An inode that was free has got an entry of the table that no one uses. -/
lemma Good.slot_free {dp ip : Slot} {d k : ℕ} {m : Mode} (hg : Good sb p (s.view.hold ⟨dp,d,m⟩) t)
    (ht : s.view.Tree) (hk : (s.dinode k).type = 0) (hd : (s.dinode d).type ≠ 0)
    (hw : ((s.view.hold ⟨dp,d,.locked⟩).hold ⟨ip,k,.locked⟩).Wf) : (t.table.inode ip).ref = 0 := by
  have hne : ip ≠ dp := by
    intro he
    have hinum : k = d := (hw.held ⟨ip,k,.locked⟩ mem_hold ⟨dp,d,.locked⟩
      (mem_cons_of_mem _ mem_hold)).mp he
    exact hd (hinum ▸ hk)
  have hother : s.view.others ip = [] := by
    by_contra hother
    have hname : k = s.view.name ip := (hw.other ⟨ip,k,.locked⟩ mem_hold ip hother).mp rfl
    exact ht.found ip hother (hname ▸ hk)
  rw [hg.ref_eq,hold,mine_cons_ne hne]
  show 0+(s.view.others ip).length = 0
  rw [hother]
  rfl

/-- A call that leaves no file behind has done nothing when it fails. -/
lemma Quiet.failed_open (h : Quiet sb p s) (ht : s.view.Tree) (hfree : FreeFiles s.file)
    {path : List UInt8} {omode : ℕ} (hno : ¬LeavesFile sb p s path omode)
    (hr : (sysOpen sb path omode).run (eval sb p) s = .ok (-1,t)) :
    Restored s t := by
  cases ha : argstr path with
  | none =>
    refine h.restored h.good (x := sysOpen sb path omode) ?_ hr
    rw [sysOpen,ha]
    exact fun _ => ⟨_,[],after_self.symm,.refl _⟩
  | some path' =>
    by_cases ho : omode &&& O_CREATE ≠ 0
    · rcases h.namex_good ht true path' with ⟨he,-⟩ | ⟨t₁,ho₁,hg,-⟩ |
        ⟨dp,d,m,name,t₁,ho₁,hm,hw,hk,hg,hp⟩
      · rw [sysOpen,ha] at hr
        dsimp only at hr
        rw [if_pos ho,Lib.Prog.run_bind,create_eq,Lib.Prog.run_bind,
          show nameiparent path' = Fs.namex true path' from rfl,he] at hr
        cases hr
      · rw [sysOpen_run ha ho ho₁] at hr
        exact h.restored hg (x := openFound sb omode none)
          (fun _ => ⟨_,[],after_self.symm,.refl _⟩) hr
      · rw [sysOpen_run ha ho ho₁] at hr
        refine h.restored hg (x := openFound sb omode (some (dp,name))) ?_ hr
        have hdir : (s.view.inode d).type = T_DIR := (Files.parent_eq_some.mp hp).2.2
        refine wp_createOpen h.good.image ht rfl (fun _ _ _ _ _ _ => trivial) hm hw hk hdir hfree
          (fun f l _ _ _ hkeep _ _ => ⟨f,l,rfl,hkeep⟩) (fun f l k ip hcan hnofile hmade hwl _ _ => ?_)
          fun fd _ _ _ _ _ _ hfd => ?_
        · refine absurd ⟨ho,path',dp,name,t₁,ha,ho₁,⟨ip,?_⟩,?_,hnofile⟩ hno
          · exact hg.slot_free ht hmade.free hk.1 hwl
          · rw [hg.inum mem_hold]
            exact hcan
        · omega
    · refine h.restored h.good (x := sysOpen sb path omode) ?_ hr
      rw [sysOpen,ha]
      dsimp only
      rw [if_neg ho]
      exact wp_openPlain h.good.image ht rfl (fun _ _ _ _ => trivial) h.cwd hfree
        (fun _ => ⟨_,[],after_self.symm,.refl _⟩) fun fd _ _ _ _ _ hfd => by omega

/-- A call that leaves a file behind returns -1 and has changed the directory. -/
lemma Quiet.leaves_file (h : Quiet sb p s) (ht : s.view.Tree) (hn : sb.ninodes ≤ 65536)
    (hfree : FreeFiles s.file) {path : List UInt8} {omode : ℕ}
    (hl : LeavesFile sb p s path omode) : ∃ t d name k,
      (sysOpen sb path omode).run (eval sb p) s = .ok (-1,t) ∧
      (s.dinode d).type = T_DIR ∧ s.view.files.dirMap d name = none ∧
      t.view.files.dirMap d name = some k := by
  obtain ⟨ho,path',dp,name,t₁,ha,hr,⟨i,hi⟩,hcan,hnofile⟩ := hl
  have hr' : (Fs.namex true path').run (eval sb p) s = .ok (some (dp,name),t₁) := hr
  rw [sysOpen_run ha ho hr]
  rcases h.namex_good ht true path' with ⟨he,-⟩ | ⟨t₂,hr₂,-⟩ | ⟨dp',d,m,name',t₂,hr₂,hm,hw,hk,hg,hp⟩
  · cases he.symm.trans hr'
  · cases hr₂.symm.trans hr'
  cases hr₂.symm.trans hr'
  have hdir : (s.view.inode d).type = T_DIR := (Files.parent_eq_some.mp hp).2.2
  rw [hg.inum mem_hold] at hcan
  have hx : (createOpen sb dp name omode).Wp (spec sb p fun _ _ => False)
      (s.view.hold ⟨dp,d,m⟩) fun r w => r = -1 ∧ ∃ f l k, w = s.view.after f l ∧
        Solo.Created sb s.view.files f T_FILE 0 0 d k name := by
    refine wp_createOpen h.good.image ht rfl (fun w g ho hh hslot hfull => ?_) hm hw hk hdir hfree
      (fun _ _ _ hnot => absurd hcan hnot) (fun f l k _ _ _ hmade _ _ => ⟨rfl,f,l,k,rfl,hmade⟩)
      fun _ _ _ _ hsome => absurd hnofile hsome
    have hsum := hg.ref_eq i
    rw [hi] at hsum
    rcases hfull i with hother | ⟨g',hg',hslot'⟩
    · rw [ho] at hother
      have := length_pos_iff.mpr hother
      have hsame : (s.view.hold ⟨dp,d,m⟩).others i = s.view.others i := rfl
      rw [hsame] at hsum
      omega
    · rw [hh] at hg'
      obtain rfl := mem_singleton.mp hg'
      rw [hslot] at hslot'
      subst hslot'
      rw [hold,mine_cons_self (h := ⟨dp,d,m⟩),length_cons] at hsum
      omega
  rcases run hg hx with ⟨e,w,-,hfalse⟩ | ⟨r,t,w,hr₃,hg',rfl,f,l,k,rfl,hmade⟩
  · cases hfalse
  · refine ⟨t,d,cut name,k,hr₃,hdir,hcan.1,?_⟩
    have hf : t.view.files = f := by
      show Files.mk t.dinode t.store = f
      rw [hg'.inode,hg'.store]
      rfl
    rw [hf,hmade.dirMap (by decide) hn hdir (ht.dirs d hdir)]
    exact Function.update_self ..

end

/-- A failed `sys_open` leaves everything as it was, exactly if it has not created a file first that
it finds no descriptor for. -/
theorem failed_open_changes_nothing (sb : DiskSb) (p : Fin NPROC) (s : State) (h : Quiet sb p s)
    (ht : s.view.Tree) (hn : sb.ninodes ≤ 65536) (hfree : FreeFiles s.file) (path : List UInt8)
    (omode : ℕ) :
    (∀ t, (sysOpen sb path omode).run (eval sb p) s = .ok (-1,t) →
      Restored s t) ↔ ¬LeavesFile sb p s path omode := by
  constructor
  · intro hall hl
    obtain ⟨t,d,name,k,hr,hdir,hnone,hsome⟩ := h.leaves_file ht hn hfree hl
    have hmap := (hall t hr).dirMap hdir
    rw [hmap,hnone] at hsome
    cases hsome
  · exact fun hno t hr => h.failed_open ht hfree hno hr

/-- The small image without another inode. -/
def lastSb : DiskSb := { smallDiskSb with ninodes := 2 }

/-- `open("/a", O_CREATE)` fails in `ialloc`. -/
theorem failed_open_ialloc : ∃ t,
    (sysOpen lastSb [47,97] O_CREATE).run (eval lastSb proc0) (boot smallDisk smallStore).state =
      .ok (-1,t) ∧ Restored (boot smallDisk smallStore).state t := by
  obtain ⟨t,ht,-⟩ := Lib.Prog.exists_of_run (eval lastSb proc0)
    (sysOpen lastSb [47,97] O_CREATE) (boot smallDisk smallStore).state (-1) (fun _ => True)
    (by decide +kernel)
  have hno : ¬LeavesFile lastSb proc0 (boot smallDisk smallStore).state [47,97] O_CREATE := by
    rintro ⟨-,-,-,-,-,-,-,-,-,hfile | hfd⟩
    · exact hfile ⟨0,by decide⟩ rfl
    · exact absurd (hfd ⟨0,by decide⟩) (by decide)
  exact ⟨t,ht,(failed_open_changes_nothing lastSb proc0 _
    (.boot (image_small rfl (by decide) (by decide))) small_tree (by decide) (fun _ _ => rfl) [47,97]
    O_CREATE).mpr hno t ht⟩

/-- Process 0 opens `/` with all its descriptors, and then `/a` with `O_CREATE`: the call fails and
the root directory has the new entry. -/
theorem open_leaves_entry : ∃ (s : Sys) (t : State),
    Lib.Runs (step smallSb) (fun _ _ => True) (boot smallDisk smallStore)
      (List.replicate NOFILE (wholeCall proc0 (.open [47] O_RDONLY) 8)).flatten s ∧
    (sysOpen smallSb [47,97] (O_CREATE ||| O_WRONLY)).run (eval smallSb proc0) s.state =
      .ok (-1,t) ∧
    s.state.view.files.dirMap ROOTINO [97] = none ∧
    t.view.files.dirMap ROOTINO [97] = some 2 := by
  obtain ⟨s,hs,hrun,hnone⟩ := Lib.Runs.exists_of_execIf (step smallSb) (fun _ _ => True)
    (boot smallDisk smallStore)
    (replicate NOFILE (wholeCall proc0 (.open [47] O_RDONLY) 8)).flatten
    (fun s => ((sysOpen smallSb [47,97] (O_CREATE ||| O_WRONLY)).run (eval smallSb proc0)
      s.state).toOption.any (fun r => r.1 = -1 ∧ r.2.view.files.dirMap ROOTINO [97] = some 2) ∧
      s.state.view.files.dirMap ROOTINO [97] = none) (by decide +kernel)
  obtain ⟨t,ht,hsome⟩ := Lib.Prog.exists_of_run (eval smallSb proc0) _ s.state (-1)
    (fun t => t.view.files.dirMap ROOTINO [97] = some 2) hrun
  exact ⟨s,t,hs,ht,hnone,hsome⟩

end Xv6.Fs
