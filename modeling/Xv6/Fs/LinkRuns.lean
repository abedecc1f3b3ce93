import Xv6.Fs.LinkCount

/-! Sequences of `link` and `unlink` calls. The calls keep the links in good order, until a count
leaves the range of a `short`. -/
namespace Xv6.Fs
open Files List Finset Option Data UInt8

/-- The state between calls: no reference is at work, the references are for inodes in use, and the
links are in good order. -/
structure Consistent (sb : DiskSb) (s : State) : Prop where
  base : Base sb s
  idle : ∀ i, ∀ r ∈ (s.table.inode i).refs, r.2 = .idle
  scans : s.table.scans = []
  cwd : ∀ p i, (s.proc p).cwd = some i → (p.val,.idle) ∈ (s.table.inode i).refs
  found : ∀ k, s.view.Shared k → (s.dinode k).type ≠ 0
  linked : Files.Linked sb s.view.files

section
variable {sb : DiskSb} {p : Fin NPROC} {s t : State} {d k m : ℕ} {name : List UInt8} {f : Files}

lemma View.shared_iff : s.view.Shared k ↔ ∃ i, (s.table.inode i).refs ≠ [] ∧
    (s.table.inode i).inum = k :=
  or_iff_left fun ⟨_,hg,_⟩ => nomatch hg

namespace Consistent

lemma quiet (h : Consistent sb s) (hp : (s.proc p).cwd.isSome) : Quiet sb p s := by
  obtain ⟨i,hi⟩ := isSome_iff_exists.mp hp
  exact ⟨h.base,h.idle,h.scans,i,hi,h.cwd p i hi⟩

lemma kept (h : Consistent sb s) (hs : s.view.files.Entry d m name k) : s.view.Kept k :=
  ⟨h.linked.named d m name k hs,.inl (h.linked.pos hs).ne'⟩

lemma tree (h : Consistent sb s) : s.view.Tree where
  root := h.kept (h.linked.dot ROOTINO h.linked.root)
  dirs := h.linked.dirs
  named d name k hd hk := by
    obtain ⟨m,hm⟩ := Lib.Slots.exists_of_lookup hk
    have hs : s.view.files.Entry d m name k := by
      rw [Files.Entry,table_dir hd]
      exact hm
    exact h.kept hs
  found i hi := h.found _ (.inl ⟨i,hi,rfl⟩)

/-- What a call may leave of the files: all that is referred to is still there. -/
structure Next (sb : DiskSb) (s : State) (f : Files) : Prop where
  linked : Files.Linked sb f
  found : ∀ k, s.view.Shared k → (f.inode k).type ≠ 0

lemma next (h : Consistent sb s) {l : List ℕ} (hg : Good sb p (s.view.after f l) t)
    (hf : Next sb s f) : Consistent sb t := by
  have hfiles : t.view.files = f := by
    show Files.mk t.dinode t.store = f
    rw [hg.inode,hg.store]
    rfl
  have hrefs : ∀ i, (t.table.inode i).refs.Perm (s.table.inode i).refs := fun i => (hg.slot i).refs
  refine ⟨hg.base,fun i r hr => h.idle i r ((hrefs i).mem_iff.mp hr),hg.scans.trans h.scans,
    fun q i hi => ?_,fun k hk => ?_,hfiles ▸ hf.linked⟩
  · rw [hg.proc] at hi
    exact (hrefs i).mem_iff.mpr (h.cwd q i hi)
  · obtain ⟨i,hi,rfl⟩ := View.shared_iff.mp hk
    have hne : (s.table.inode i).refs ≠ [] := fun hnil => hi (perm_nil.mp (hnil ▸ hrefs i))
    rw [hg.inode]
    refine hf.found _ (View.shared_iff.mpr ⟨i,hne,?_⟩)
    exact ((hg.slot i).name hne).symm

lemma next_keeps (h : Consistent sb s) (hf : Image sb f.inode f.store)
    (hk : Files.Keeps ∅ s.view.files f) : Next sb s f :=
  ⟨h.linked.keeps hf hk,fun k hs => hk.used (by simp) (h.found k hs)⟩

lemma next_link (h : Consistent sb s) {u : Files} (hn : sb.ninodes ≤ 65536)
    (hk : (s.dinode k).type ≠ 0) (hkd : (s.dinode k).type ≠ T_DIR) (hlt : (s.dinode k).nlink ≠ 32767)
    (hu : u = s.view.files.setInode k { s.dinode k with nlink := toShort ((s.dinode k).nlink+1) })
    (hd : (u.inode d).type = T_DIR) (hnone : u.dirMap d (cut name) = none)
    (hent : Files.Entered sb u f d (Dirent.slot ⟨k%65536,strncpy DIRSIZ name⟩)) :
    Next sb s f ∧ (f.inode k).nlink ≠ 0 := by
  have hnl : toShort ((s.dinode k).nlink+1) = (s.dinode k).nlink+1 := by
    have h0 : (s.dinode k).nlink = _ := h.linked.nlink k hk
    have h1 : (s.dinode k).nlink ≤ 32767 := h.linked.fits k hk
    refine toShort_eq ?_ ?_ <;> omega
  have huk : u.inode k = { s.dinode k with nlink := (s.dinode k).nlink+1 } := by
    rw [hu,setInode_self,hnl]
  have huo : ∀ j, j ≠ k → u.inode j = s.dinode j := fun j hj => by
    rw [hu]
    exact Function.update_of_ne hj ..
  have htype : ∀ j, (f.inode j).type = (s.dinode j).type := by
    intro j
    rw [hent.type]
    by_cases hj : j = k
    · rw [hj,huk]
    · rw [huo j hj]
  have htab : ∀ j, u.table j = s.view.files.table j := fun j => by
    rw [hu]
    refine table_setInode ?_ ?_ ?_ j <;> rfl
  have hsd : (s.dinode d).type = T_DIR := by rw [← htype d,hent.type,hd]
  have hdk : d ≠ k := by
    rintro rfl
    exact hkd hsd
  have hfile : ∀ j, j ≠ k → u.file j = s.view.files.file j := fun j hj => by
    rw [hu]
    exact setInode_file _ hj _
  have hpos := h.linked.used k hk
  rw [Nat.mod_eq_of_lt (by omega),slot_strncpy (by omega)] at hent
  obtain ⟨m,hm,hfree,hput⟩ := hent.slots
  rw [← table_dir hd,htab] at hm hfree hput
  rw [← table_dir ((hent.type d).trans hd)] at hput
  have hcount : ∀ j, (s.dinode j).type ≠ 0 →
      (f.inode j).nlink = (s.dinode j).nlink+if j = k then 1 else 0 := by
    intro j hj
    have hfu : (f.inode j).nlink = (u.inode j).nlink := by
      by_cases hjd : j = d
      · rw [hjd,hent.nlink]
      · exact hent.keeps.nlink hjd (by rwa [← hent.type,htype])
    rw [hfu]
    split_ifs with hjk
    · rw [hjk,huk]
    · rw [huo j hjk,Int.add_zero]
  have hdirs : f.Directories := by
    intro j hj
    rw [htype] at hj
    have hjk : j ≠ k := by
      rintro rfl
      exact hkd hj
    have huj : (u.file j).Directory := hfile j hjk ▸ h.linked.dirs j hj
    by_cases hjd : j = d
    · subst hjd
      exact hent.directory hd huj hnone
    · exact hent.keeps.directory hent.image hjd (by rw [huo j hjk]; exact type_dir (s := s.view.files) hj) huj
  have hmap : s.view.files.dirMap d (cut name) = none := by
    rw [Files.dirMap,← hfile d hdk]
    exact hnone
  refine ⟨⟨h.linked.insert hsd hk hkd hlt hmap hdirs htype hcount (fun j hj => ?_) hm hfree hput,
    fun j hs => ?_⟩,?_⟩
  · rw [hent.keeps.table hj,htab]
  · rw [htype]
    exact h.found j hs
  · rw [hcount k hk,if_pos rfl,show (s.dinode k).nlink = _ from h.linked.nlink k hk]
    omega

lemma entry (hd : (s.dinode d).type = T_DIR)
    (hslot : (s.view.files.file d).slots[m]? = some (some (name,k))) :
    s.view.files.Entry d m name k := by
  rw [Files.Entry,table_dir hd]
  exact hslot

lemma empty_of_drop (hempty : (s.dinode k).type = T_DIR → 2 ≤ (s.view.data k).slots.length →
    ∀ o ∈ (s.view.data k).slots.drop 2, o = none) : Files.Linked.Empty s.view.files k := by
  intro n name i hn he
  have hdir := dir_of_table he
  rw [Files.Entry,table_dir hdir] at he
  have hlt := (List.getElem?_eq_some_iff.mp he).choose
  have hmem : (s.view.files.file k).slots[n]? = ((s.view.data k).slots.drop 2)[n-2]? := by
    rw [getElem?_drop,Nat.add_sub_cancel' hn]
    rfl
  rw [hmem] at he
  cases hempty hdir (hn.trans hlt.le) _ (mem_of_getElem? he)

lemma toShort_pred (h : Consistent sb s) (hs : s.view.files.Entry d m name k) :
    toShort ((s.dinode k).nlink+ -1) = (s.dinode k).nlink-1 := by
  have h0 : 0 < (s.dinode k).nlink := h.linked.pos hs
  have h1 : (s.dinode k).nlink ≤ 32767 := h.linked.fits k (h.linked.named d m name k hs)
  refine toShort_eq ?_ ?_ <;> omega

/-- The directory of the entry that `sys_unlink` erases has other links. -/
lemma stays (h : Consistent sb s) (hm : 2 ≤ m) (hs : s.view.files.Entry d m name k) (hdk : d ≠ k)
    (hempty : Files.Linked.Empty s.view.files k) : Solo.Stays s.view d k := by
  intro hk
  have hd := dir_of_table hs
  have h2 := h.linked.links_parent hm hs hdk hk hempty
  have hnl : (s.dinode d).nlink = _ := h.linked.nlink d (type_dir hd)
  refine .inl ?_
  rw [show toShort ((s.view.inode d).nlink+ -1) = _ from h.toShort_pred (h.linked.dot d hd)]
  omega

lemma next_unlink (h : Consistent sb s) (hm : 2 ≤ m) (hs : s.view.files.Entry d m name k)
    (hdk : d ≠ k) (hempty : Files.Linked.Empty s.view.files k)
    (hshare : (s.dinode k).type = T_DIR → ¬s.view.Shared k)
    (hf : Solo.Unlinked sb s.view f d k m) : Next sb s f := by
  have hd := dir_of_table hs
  have hk := h.linked.named d m name k hs
  have hpred := h.toShort_pred hs
  have hone : (s.dinode k).type = T_DIR → (s.dinode k).nlink = 1 := fun hdir => by
    rw [show (s.dinode k).nlink = _ from h.linked.nlink k hk,
      h.linked.links_empty hm hs hdir hempty]
    rfl
  have hfree := hf.freed
  have hkept := hf.kept
  have hdf := hf.dir
  simp only [show s.view.inode = s.dinode from rfl,hpred] at hfree hkept hdf
  have hnode : (f.inode k).type = 0 ∧ (s.dinode k).nlink = 1 ∧ ¬s.view.Shared k ∨
      (s.dinode k).type ≠ T_DIR ∧ (f.inode k).type = (s.dinode k).type ∧
        (f.inode k).nlink = (s.dinode k).nlink-1 := by
    by_cases hlast : (s.dinode k).nlink-1 = 0 ∧ ¬s.view.Shared k
    · exact .inl ⟨hfree hlast,by omega,hlast.2⟩
    · refine .inr ⟨fun hdir => hlast ⟨by rw [hone hdir]; rfl,hshare hdir⟩,?_,?_⟩
      all_goals rw [(hkept hlast).1]
  have htype : ∀ j, j ≠ k → (f.inode j).type = (s.dinode j).type := by
    intro j hj
    by_cases hjd : j = d
    · rw [hjd,hdf]
    · exact hf.keeps.type j (by simp [hjd,hj])
  have hfd : (f.inode d).type = T_DIR := (htype d hdk).trans hd
  have hun : Files.Unnamed s.view.files f d m k := by
    refine ⟨fun j hj => ?_,htype,hnode.imp_left fun hn => ⟨hn.1,hn.2.1⟩,fun j hj hused => ?_,?_,
      fun j hjd hjk => hf.keeps.table (by simp [hjd,hjk])⟩
    · by_cases hjd : j = d
      · exact hjd ▸ hf.directory
      · have hjk : j ≠ k := by
          rintro rfl
          rcases hnode with ⟨h0,-⟩ | ⟨hne,heq,-⟩
          · rw [h0] at hj
            cases hj
          · exact hne (heq ▸ hj)
        have hsj := htype j hjk ▸ hj
        exact hf.keeps.directory hf.image (by simp [hjd,hjk]) (type_dir (s := s.view.files) hsj)
          (h.linked.dirs j hsj)
    · by_cases hjd : j = d
      · subst hjd
        have hnl : (f.inode j).nlink = if (s.dinode k).type = T_DIR
            then toShort ((s.dinode j).nlink+ -1) else (s.dinode j).nlink := by rw [hdf]
        rw [hnl,h.toShort_pred (h.linked.dot j hd)]
        by_cases hdir : (s.dinode k).type = T_DIR
        · rw [if_pos hdir,if_pos ⟨hdir,rfl⟩]
          rfl
        · rw [if_neg hdir,if_neg fun hc => hdir hc.1,Int.sub_zero]
          rfl
      · rw [if_neg fun hc => hjd hc.2,Int.sub_zero]
        exact hf.keeps.nlink (by simp [hjd,hj]) hused
    · rw [table_dir hfd,table_dir hd]
      exact hf.slots
  refine ⟨h.linked.erase hun hs hm hdk hempty,fun j hj => ?_⟩
  by_cases hjk : j = k
  · subst hjk
    rcases hnode with ⟨-,-,hno⟩ | ⟨-,heq,-⟩
    · exact absurd hj hno
    · rw [heq]
      exact hk
  · rw [htype j hjk]
    exact h.found j hj

end Consistent
end

/-- The calls that make and remove links. -/
inductive LinkCall
  | link (old new : List UInt8)
  | unlink (path : List UInt8)

def LinkCall.code : LinkCall → Code ℤ
  | .link old new => sysLink old new
  | .unlink path => sysUnlink path

/-- One call after the other: a process that exists makes a call, which returns. -/
def linkStep (sb : Superblock) (s : State) (e : Fin NPROC×LinkCall) : Option State :=
  if (s.proc e.1).cwd.isSome then (e.2.code.run (eval sb e.1) s).toOption.map Prod.snd else none

/-- A file that gets a link has less than 32767, and a directory that loses its entry is not in use
by anyone. -/
def LinkOk (s : State) (e : Fin NPROC×LinkCall) : Prop :=
  match e.2 with
  | .link old _ => ∀ path k, argstr old = some path →
      s.view.files.walk (s.view.start e.1 path) (comps path) = some k → (s.dinode k).nlink ≠ 32767
  | .unlink path => ∀ path' d name k, argstr path = some path' →
      s.view.files.parent (s.view.start e.1 path') (comps path') = some (d,name) →
      s.view.files.dirMap d (cut name) = some k → (s.dinode k).type = T_DIR → ¬s.view.Shared k

namespace Consistent
variable {sb : DiskSb} {p : Fin NPROC} {s t : State} {c : LinkCall}

/-- A view that agrees with a consistent state after the call. -/
def Leads (sb : DiskSb) (s : State) (w : View) : Prop :=
  ∃ f l, w = s.view.after f l ∧ Next sb s f

variable (h : Consistent sb s)
include h

lemma leads_self : Leads sb s s.view :=
  ⟨s.view.files,[],s.view.after_self.symm,h.linked,h.found⟩

lemma not_lt_one {d k : ℕ} {key : List UInt8} (hd : (s.dinode d).type = T_DIR)
    (hk : s.view.files.dirMap d key = some k) : ¬(s.dinode k).nlink < 1 := by
  obtain ⟨m,hm⟩ := Lib.Slots.exists_of_lookup hk
  have hpos : 0 < (s.dinode k).nlink := h.linked.pos (entry hd hm)
  omega

lemma wp_unlink (hp : (s.proc p).cwd.isSome) (path : List UInt8)
    {Q : ℤ → View → Prop} (hfail : Q (-1) s.view)
    (hok : ∀ path' d name k m f l, argstr path = some path' →
      s.view.files.parent (s.view.start p path') (comps path') = some (d,name) →
      s.view.files.dirMap d (cut name) = some k → 2 ≤ m → s.view.files.Entry d m (cut name) k →
      d ≠ k → Files.Linked.Empty s.view.files k →
      Solo.Unlinked sb s.view f d k m → Q 0 (s.view.after f l)) :
    (sysUnlink path).Wp (Solo.spec sb p fun _ e => e ≠ .panic "unlink: nlink < 1") s.view Q := by
  have hq := h.quiet hp
  refine Solo.wp_sysUnlink hq.good.image h.tree rfl hq.cwd (fun _ _ he => he)
    (fun _ d key k hd hk hlt => absurd hlt (h.not_lt_one hd hk)) hfail
    fun path' d name k m f l hpath hpar hd hdot hdotdot hslot hdk hempty _ _ hun => ?_
  have hs := entry hd hslot
  have hdir : (s.view.files.file d).Directory := h.linked.dirs d hd
  have hm : 2 ≤ m := by
    by_contra hlt
    obtain rfl | rfl : m = 0 ∨ m = 1 := by omega
    · exact hdot (hs.inj (h.linked.dot d hd)).1
    · obtain ⟨e,he,-⟩ := h.linked.dotdot d hd
      exact hdotdot (hs.inj he).1
  have hempty' := empty_of_drop hempty
  exact hok path' d name k m f l hpath hpar (hdir.distinct.lookup_eq_some.mpr ⟨m,hslot⟩) hm hs hdk
    hempty' (hun (h.stays hm hs hdk hempty'))

lemma wp_code (hn : sb.ninodes ≤ 65536) (hp : (s.proc p).cwd.isSome) (hc : LinkOk s (p,c)) :
    c.code.Wp (Solo.spec sb p fun _ e => e ≠ .panic "unlink: nlink < 1") s.view
      fun _ w => Leads sb s w := by
  have hq := h.quiet hp
  cases c with
  | link old new =>
    refine Solo.wp_sysLink hq.good.image h.tree rfl hq.cwd (fun _ => by decide)
      (fun k hk => h.linked.toShort_nlink hk)
      (fun f l _ _ hf hk _ => ⟨f,l,rfl,h.next_keeps hf hk⟩)
      fun path k d name ip u f l hpath hwalk hk hkd hu hd hnone hent _ hw => ?_
    obtain ⟨hnext,h0⟩ := h.next_link hn hk.1 hkd (hc path k hpath hwalk) hu hd hnone hent
    refine Lib.Prog.wp_bind (Solo.wp_iput_keep View.mem_hold rfl (fun hl => h0 hl.2) ?_)
    rw [View.hold_drop]
    exact ⟨f,l,rfl,hnext⟩
  | unlink path =>
    refine h.wp_unlink hp path h.leads_self
      fun path' d name k m f l hpath hpar hk hm hs hdk hempty hun => ⟨f,l,rfl,?_⟩
    exact h.next_unlink hm hs hdk hempty (hc path' d name k hpath hpar hk) hun

lemma step (hn : sb.ninodes ≤ 65536) {e : Fin NPROC×LinkCall}
    (hc : LinkOk s e) (hs : linkStep sb s e = some t) : Consistent sb t := by
  obtain ⟨hp,hs⟩ := ite_none_right_eq_some.mp hs
  obtain ⟨⟨r,u⟩,hr,rfl⟩ := map_eq_some_iff.mp hs
  rcases Solo.run (h.quiet hp).good (h.wp_code hn hp hc) with ⟨a,w,ha,-⟩ | ⟨r',u',w,hr',hg,hw⟩
  · rw [ha] at hr
    cases hr
  · rw [hr'] at hr
    cases hr
    obtain ⟨f,l,rfl,hf⟩ := hw
    exact h.next hg hf

lemma no_panic (hp : (s.proc p).cwd.isSome) (path : List UInt8) :
    (sysUnlink path).run (eval sb p) s ≠ .error (.panic "unlink: nlink < 1") := by
  intro he
  have hw := h.wp_unlink hp path (Q := fun _ _ => True) trivial
    fun _ _ _ _ _ _ _ _ _ _ _ _ _ _ _ => trivial
  rcases Solo.run (h.quiet hp).good hw with ⟨a,w,ha,hne⟩ | ⟨r,u,w,hr,-,-⟩
  · rw [he] at ha
    cases ha
    exact hne rfl
  · rw [he] at hr
    cases hr

end Consistent

/-- Link counts do not wrap as long as no file with 32767 links gets one more and no directory is
removed that someone uses: every inode that an entry names is in use and has a positive count, and
`sys_unlink` never panics over a count. -/
theorem link_counts_positive (sb : DiskSb) (hn : sb.ninodes ≤ 65536) (s t : State)
    (calls : List (Fin NPROC×LinkCall)) (h : Consistent sb s)
    (hr : Lib.Runs (linkStep sb) LinkOk s calls t) :
    (∀ d m name k, t.view.files.Entry d m name k →
      (t.dinode k).type ≠ 0 ∧ 0 < (t.dinode k).nlink) ∧
    ∀ p path, (t.proc p).cwd.isSome →
      (sysUnlink path).run (eval sb p) t ≠ .error (.panic "unlink: nlink < 1") := by
  have ht : Consistent sb t :=
    hr.invariant (I := Consistent sb) (fun s e t hs hc he => hs.step hn hc he) h
  exact ⟨fun d m name k hs => ⟨ht.linked.named d m name k hs,ht.linked.pos hs⟩,
    fun p path hp => ht.no_panic hp path⟩

/-! A file with 32767 links: one in the root directory, the others in 43 directories. -/

def crowdedSb : DiskSb := ⟨⟨2000,1954,200⟩,0,30,2,32,45⟩

/-- The inode of the file; those below are the root and the other directories. -/
def crowdedFile : ℕ := 45

def crowdedLen (k : ℕ) : ℕ :=
  if k = ROOTINO then 46 else if 2 ≤ k ∧ k < crowdedFile then 764 else 0

/-- Directory `k` has up to twelve blocks, from block `100+12*k`. -/
def crowdedBlocks (k : ℕ) : ℕ :=
  if k = ROOTINO then 1 else if 2 ≤ k ∧ k < crowdedFile then 12 else 0

def crowdedName (m : ℕ) : List UInt8 := [UInt8.ofNat (1+m/128),UInt8.ofNat (1+m%128),1]

/-- Entry `m` of directory `k`: the root has one for the file and those of the directories, the
others have only entries for the file. -/
def crowdedSlot (k m : ℕ) : List UInt8×ℕ :=
  if m = 0 then (dot,k) else if m = 1 then (dotdot,ROOTINO)
  else (crowdedName m,if k = ROOTINO ∧ 3 ≤ m then m-1 else crowdedFile)

def crowdedEnt (k m : ℕ) : Dirent := ⟨(crowdedSlot k m).2,strncpy DIRSIZ (crowdedSlot k m).1⟩

def crowdedDisk (k : ℕ) : Dinode :=
  if k = crowdedFile then ⟨T_FILE,0,0,32767,0,fun _ => 0⟩
  else if 0 < k ∧ k < crowdedFile then
    ⟨T_DIR,0,0,if k = ROOTINO then 44 else 1,crowdedLen k*DIRENT,
      fun j => if j.val < crowdedBlocks k then 100+12*k+j.val else 0⟩
  else .fresh 0

def crowdedStore : Store where
  bitmap b := b < 46 ∨ 100 ≤ b ∧ (b-100)%12 < crowdedBlocks ((b-100)/12)
  block b i := (crowdedEnt ((b-100)/12) ((b-100)%12*64+i.val/DIRENT)).encode.getD (i.val%DIRENT) 0

section Crowded
variable {k m : ℕ}

lemma crowded_cases (hk : (crowdedDisk k).type ≠ 0) : k = crowdedFile ∨ 0 < k ∧ k < crowdedFile := by
  by_contra hno
  rw [not_or] at hno
  rw [crowdedDisk,if_neg hno.1,if_neg hno.2] at hk
  exact hk rfl

lemma crowded_dir (h0 : 0 < k) (hk : k < crowdedFile) : crowdedDisk k =
    ⟨T_DIR,0,0,if k = ROOTINO then 44 else 1,crowdedLen k*DIRENT,
      fun j => if j.val < crowdedBlocks k then 100+12*k+j.val else 0⟩ := by
  rw [crowdedDisk,if_neg hk.ne,if_pos ⟨h0,hk⟩]

lemma crowded_type : (crowdedDisk k).type = T_DIR ↔ 0 < k ∧ k < crowdedFile := by
  constructor
  · intro h
    rcases crowded_cases (k := k) (by rw [h]; decide) with rfl | hk
    · cases h
    · exact hk
  · intro hk
    rw [crowded_dir hk.1 hk.2]

/-- The root, the other directories, and no directory. -/
lemma crowded_sizes (k : ℕ) : k = 1 ∧ crowdedLen k = 46 ∧ crowdedBlocks k = 1 ∨
    (2 ≤ k ∧ k < 45) ∧ crowdedLen k = 764 ∧ crowdedBlocks k = 12 ∨
    (k = 0 ∨ 45 ≤ k) ∧ crowdedLen k = 0 ∧ crowdedBlocks k = 0 := by
  by_cases h1 : k = 1
  · exact .inl ⟨h1,if_pos h1,if_pos h1⟩
  · by_cases h2 : 2 ≤ k ∧ k < 45
    · exact .inr (.inl ⟨h2,(if_neg h1).trans (if_pos h2),(if_neg h1).trans (if_pos h2)⟩)
    · exact .inr (.inr ⟨by omega,(if_neg h1).trans (if_neg h2),(if_neg h1).trans (if_neg h2)⟩)

lemma crowdedBlocks_le (k : ℕ) : crowdedBlocks k ≤ NDIRECT := by
  have := crowded_sizes k
  simp only [NDIRECT]
  omega

lemma crowded_ptr {p : Pos} (h : crowdedStore.ptr (crowdedDisk k) p ≠ 0) (hk : (crowdedDisk k).type ≠ 0) :
    ∃ j : Fin (NDIRECT+1), p = .addr j ∧ 0 < k ∧ k < crowdedFile ∧ j.val < crowdedBlocks k ∧
      crowdedStore.ptr (crowdedDisk k) p = 100+12*k+j.val := by
  rcases crowded_cases hk with rfl | ⟨h0,hlt⟩
  · exact absurd (Store.ptr_zero (fun _ => rfl) p) h
  · have hd := crowded_dir h0 hlt
    cases p with
    | addr j =>
      rw [Store.ptr,hd] at h ⊢
      obtain ⟨hj,-⟩ := ite_ne_right_iff.mp h
      exact ⟨j,rfl,h0,hlt,hj,if_pos hj⟩
    | entry j =>
      have hind : (crowdedDisk k).ind = 0 := by
        rw [Dinode.ind,hd]
        exact if_neg (Nat.not_lt.mpr (crowdedBlocks_le k))
      rw [Store.ptr,if_pos hind] at h
      exact absurd rfl h

lemma crowded_own : Own crowdedSb.toSuperblock crowdedDisk crowdedStore := by
  have h12 := crowdedBlocks_le
  simp only [NDIRECT] at h12
  have hstart : crowdedSb.dataStart = 46 := by decide
  have hsize : crowdedSb.size = 2000 := by decide
  refine ⟨by decide,by decide,fun b hb => decide_eq_true (.inl (hstart ▸ hb)),fun k p hk hp => ?_,
    fun k p k' p' hk hk' hp he => ?_,fun b hb _ hm => ?_⟩
  · obtain ⟨j,rfl,h0,hlt,hj,hptr⟩ := crowded_ptr hp hk
    have := h12 k
    rw [hptr]
    have hdiv : (100+12*k+j.val-100)/12 = k := by omega
    have hmod : (100+12*k+j.val-100)%12 = j.val := by omega
    rw [hstart,hsize]
    simp only [crowdedFile] at hlt
    refine ⟨by omega,by omega,?_⟩
    refine decide_eq_true (.inr ⟨by omega,?_⟩)
    rw [hdiv,hmod]
    exact hj
  · obtain ⟨j,rfl,-,-,hj,hptr⟩ := crowded_ptr hp hk
    obtain ⟨j',rfl,-,-,hj',hptr'⟩ := crowded_ptr (he ▸ hp) hk'
    have := h12 k
    have := h12 k'
    rw [hptr,hptr'] at he
    obtain rfl : k = k' := by omega
    exact ⟨rfl,congrArg Pos.addr (Fin.ext (by omega))⟩
  · obtain hb' | ⟨h100,hlt⟩ := of_decide_eq_true hm
    · rw [hstart] at hb
      omega
    · set k := (b-100)/12 with hk
      have hdir : 0 < k ∧ k < crowdedFile := by
        have := crowded_sizes k
        simp only [crowdedFile]
        omega
      have hj : (b-100)%12 < NDIRECT+1 := by
        have := h12 k
        simp only [NDIRECT]
        omega
      refine ⟨k,.addr ⟨(b-100)%12,hj⟩,?_,?_⟩
      · exact type_dir (s := ⟨crowdedDisk,crowdedStore⟩) (crowded_type.mpr hdir)
      · rw [Store.ptr,crowded_dir hdir.1 hdir.2]
        refine (if_pos hlt).trans ?_
        show 100+12*k+(b-100)%12 = b
        omega

lemma crowded_len (hm : m < crowdedLen k) : 0 < k ∧ k < crowdedFile ∧ m < 764 ∧
    m*DIRENT/BSIZE < crowdedBlocks k := by
  have := crowded_sizes k
  simp only [crowdedFile,DIRENT,BSIZE]
  omega

lemma crowded_full (hk : (crowdedDisk k).type ≠ 0) : Data.Full ⟨crowdedDisk k,crowdedStore⟩ := by
  rcases crowded_cases hk with rfl | ⟨h0,hlt⟩
  · exact ⟨Nat.zero_le _,fun bn h => absurd h (Nat.not_lt_zero _)⟩
  · have hd := crowded_dir h0 hlt
    have hsizes := crowded_sizes k
    have hsize : (crowdedDisk k).size = crowdedLen k*DIRENT := by rw [hd]
    refine ⟨?_,fun bn hbn => ?_⟩
    · show (crowdedDisk k).size ≤ _
      rw [hsize]
      exact (Nat.mul_le_mul_right _ (by omega : crowdedLen k ≤ 764)).trans (by decide)
    · replace hbn : bn*BSIZE < (crowdedDisk k).size := hbn
      rw [hsize] at hbn
      have hb : bn < crowdedBlocks k := by
        simp only [DIRENT,BSIZE] at hbn
        omega
      have hb' := hb.trans_le (crowdedBlocks_le k)
      rw [dataPos,dif_pos hb']
      show (crowdedDisk k).addrs _ ≠ 0
      rw [hd]
      simp only [if_pos hb]
      omega

lemma crowded_image : Image crowdedSb.toSuperblock crowdedDisk crowdedStore :=
  ⟨crowded_own,fun _ => crowded_full⟩

abbrev crowded : Files := ⟨crowdedDisk,crowdedStore⟩

lemma crowdedName_ne (hm : m < 764) : (0 : UInt8) ∉ crowdedName m := by
  have hne : ∀ n, n < 128 → ofNat (1+n) ≠ 0 := fun n hn h => by
    have h' := congrArg toNat h
    rw [toNat_ofNat_of_lt' (by simp only [size]; omega)] at h'
    exact absurd h' (by simp)
  intro h
  rcases mem_cons.mp h with h | h
  · exact hne (m/128) (by omega) h.symm
  · rcases mem_cons.mp h with h | h
    · exact hne (m%128) (by omega) h.symm
    · exact absurd (List.mem_singleton.mp h) (by decide)

lemma crowdedName_inj {n : ℕ} (hm : m < 764) (hn : n < 764) (h : crowdedName m = crowdedName n) :
    m = n := by
  simp only [crowdedName,cons.injEq,and_true] at h
  have h₁ := congrArg toNat h.1
  have h₂ := congrArg toNat h.2
  rw [toNat_ofNat_of_lt' (by simp only [size]; omega),
    toNat_ofNat_of_lt' (by simp only [size]; omega)] at h₁ h₂
  omega

lemma crowdedSlot_pos (hm : m < crowdedLen k) : 0 < (crowdedSlot k m).2 ∧ (crowdedSlot k m).2 ≤ 45 := by
  have hlen := crowded_len hm
  have hsizes := crowded_sizes k
  simp only [crowdedSlot,crowdedFile,show ROOTINO = 1 from rfl] at *
  split_ifs <;> simp only <;> omega

lemma crowdedSlot_cut (hm : m < crowdedLen k) : cut (crowdedSlot k m).1 = (crowdedSlot k m).1 := by
  have hlt := (crowded_len hm).2.2.1
  unfold crowdedSlot
  split_ifs with h0 h1
  · exact (by decide : cut dot = dot)
  · exact (by decide : cut dotdot = dotdot)
  all_goals
    show ((crowdedName m).take DIRSIZ).takeWhile (· ≠ 0) = crowdedName m
    rw [take_of_length_le (show 3 ≤ DIRSIZ by decide)]
    exact takeWhile_eq_self (crowdedName_ne hlt)

lemma crowded_entAt (hm : m < crowdedLen k) :
    (crowded.file k).entAt m = crowdedEnt k m := by
  obtain ⟨h0,hk,hlt,hb⟩ := crowded_len hm
  have hvalid : (crowdedEnt k m).Valid :=
    ⟨(crowdedSlot_pos hm).2.trans_lt (by decide),strncpy_length _ _⟩
  have hptr : (crowded.file k).ptr (dataPos (m*DIRENT/BSIZE)) = 100+12*k+m*DIRENT/BSIZE := by
    rw [dataPos,dif_pos (hb.trans_le (crowdedBlocks_le k))]
    show (crowdedDisk k).addrs _ = _
    rw [crowded_dir h0 hk]
    exact if_pos hb
  have hb12 : m*DIRENT/BSIZE < 12 := hb.trans_le (crowdedBlocks_le k)
  have hbase : ∀ q, q < 12 → (100+12*k+q-100)/12 = k ∧ (100+12*k+q-100)%12 = q := by omega
  obtain ⟨h1,h2⟩ := hbase _ hb12
  rw [entAt,hptr]
  have hbytes : bytes (crowdedStore.block (100+12*k+m*DIRENT/BSIZE)) (m*DIRENT%BSIZE) DIRENT =
      (crowdedEnt k m).encode := by
    refine ext_getElem ?_ fun i hi hi' => ?_
    · rw [hvalid.length,bytes,length_map,length_range]
    · rw [bytes,length_map,length_range] at hi
      simp only [bytes,getElem_map,getElem_range]
      have hin : m*DIRENT%BSIZE+i < BSIZE := by
        simp only [DIRENT,BSIZE] at hi ⊢
        omega
      have h3 : m*DIRENT/BSIZE*64+(m*DIRENT%BSIZE+i)/DIRENT = m := by
        simp only [DIRENT,BSIZE] at hi ⊢
        omega
      have h4 : (m*DIRENT%BSIZE+i)%DIRENT = i := by
        simp only [DIRENT,BSIZE] at hi ⊢
        omega
      rw [Block.byte,dif_pos hin,crowdedStore]
      simp only [h1,h2,h3,h4]
      rw [getD_eq_getElem?_getD,getElem?_eq_getElem hi',getD_some]
  show Dirent.decode (bytes (crowdedStore.block _) _ _) = _
  rw [hbytes,hvalid.decode]

lemma crowded_table (k : ℕ) :
    crowded.table k = (List.range (crowdedLen k)).map fun m => some (crowdedSlot k m) := by
  by_cases hk : 0 < k ∧ k < crowdedFile
  · rw [table_dir (crowded_type.mpr hk),slots,ents]
    have hsize : (crowded.file k).d.size/DIRENT = crowdedLen k := by
      show (crowdedDisk k).size/DIRENT = _
      rw [crowded_dir hk.1 hk.2]
      exact Nat.mul_div_cancel _ (by decide)
    rw [hsize,List.map_map]
    refine map_congr_left fun m hm => ?_
    rw [List.mem_range] at hm
    rw [Function.comp_apply,crowded_entAt hm,crowdedEnt,
      slot_strncpy (crowdedSlot_pos hm).1.ne',crowdedSlot_cut hm]
  · rw [table_not_dir fun h => hk (crowded_type.mp h)]
    have := crowded_sizes k
    simp only [crowdedFile] at hk
    rw [show crowdedLen k = 0 by omega]
    rfl

lemma crowded_entry {name : List UInt8} {i : ℕ} :
    crowded.Entry k m name i ↔ m < crowdedLen k ∧ crowdedSlot k m = (name,i) := by
  rw [Files.Entry,crowded_table,getElem?_map]
  by_cases hm : m < crowdedLen k
  · rw [getElem?_range hm]
    simp [hm]
  · rw [getElem?_eq_none (by rw [length_range]; omega)]
    simp [hm]

lemma crowded_countP {j : ℕ} (hk : 2 ≤ k ∧ k < 45) : (crowded.table k).countP (Files.Names j) =
    (if j = 1 then 1 else 0)+if j = crowdedFile then 762 else 0 := by
  have hlen : crowdedLen k = 2+762 := by
    have := crowded_sizes k
    omega
  have hroot : k ≠ ROOTINO := by
    simp only [show ROOTINO = 1 from rfl]
    omega
  have hrest : ∀ m, Files.Names j (some (crowdedSlot k (2+m))) = decide (j = crowdedFile) := by
    intro m
    have hs : crowdedSlot k (2+m) = (crowdedName (2+m),crowdedFile) := by
      rw [crowdedSlot,if_neg (by omega),if_neg (by omega),if_neg fun h => hroot h.1]
    have hdot : crowdedName (2+m) ≠ dot := fun h => by cases congrArg length h
    rw [hs,Bool.eq_iff_iff,names_some,decide_eq_true_iff]
    exact and_iff_right hdot
  have hfirst : (List.range 2).countP (fun m => Files.Names j (some (crowdedSlot k m))) =
      if j = 1 then 1 else 0 := by
    have h0 : Files.Names j (some (crowdedSlot k 0)) = false := by
      rw [Bool.eq_false_iff,ne_eq,names_some]
      exact fun h => h.1 rfl
    have h1 : Files.Names j (some (crowdedSlot k 1)) = decide (j = 1) := by
      rw [Bool.eq_iff_iff,show crowdedSlot k 1 = (dotdot,ROOTINO) from rfl,names_some,
        decide_eq_true_iff]
      exact and_iff_right (by decide)
    rw [show List.range 2 = [0,1] from rfl,countP_cons,countP_cons,h0,h1]
    simp
  rw [crowded_table,hlen,List.countP_map,List.range_add,List.countP_append,List.countP_map]
  refine congrArg₂ (·+·) hfirst ?_
  by_cases hj : j = crowdedFile
  · rw [if_pos hj,countP_eq_length.mpr,length_range]
    intro m _
    exact (hrest m).trans (decide_eq_true hj)
  · rw [if_neg hj,countP_eq_zero.mpr]
    intro m _
    simp [hrest,hj]

lemma crowded_root : ∀ j < 46, (crowded.table ROOTINO).countP (Files.Names j) =
    (if 0 < j then 1 else 0) := by
  rw [crowded_table]
  decide +kernel

/-- The file is linked from the root and 762 times from each of 43 directories. -/
lemma crowded_links {j : ℕ} (h0 : 0 < j) (hj : j < 46) : crowded.links crowdedSb.toSuperblock j =
    1+43*((if j = 1 then 1 else 0)+if j = crowdedFile then 762 else 0) := by
  have hsum : ∀ d ∈ Finset.range 200, (crowded.table d).countP (Files.Names j) =
      (if d = ROOTINO then 1 else 0)+
        if d ∈ Finset.Ico 2 45 then (if j = 1 then 1 else 0)+(if j = crowdedFile then 762 else 0)
        else 0 := by
    intro d _
    have hr : ROOTINO = 1 := rfl
    rcases crowded_sizes d with ⟨rfl,-⟩ | ⟨hd,-⟩ | ⟨hd,hlen,-⟩
    · rw [if_pos hr.symm,if_neg (by simp),Nat.add_zero]
      exact (crowded_root j hj).trans (if_pos h0)
    · rw [crowded_countP hd,if_neg (by omega : d ≠ ROOTINO),if_pos (mem_Ico.mpr hd),
        Nat.zero_add]
    · rw [crowded_table,hlen,if_neg (by omega),if_neg (by rw [mem_Ico]; omega)]
      rfl
  rw [links,show crowdedSb.ninodes = 200 from rfl,sum_congr rfl hsum,
    sum_add_distrib,sum_ite_eq',if_pos (by decide),sum_ite_mem,
    inter_eq_right.mpr (by rw [range_eq_Ico]; exact Finset.Ico_subset_Ico (by omega) (by omega)),
    sum_const,Nat.card_Ico]
  rfl

lemma crowded_directories : crowded.Directories := by
  intro k hk
  have hdir := crowded_type.mp hk
  refine ⟨crowded_full (type_dir (s := crowded) hk),⟨crowdedLen k,?_⟩,?_⟩
  · show (crowdedDisk k).size = _
    rw [crowded_dir hdir.1 hdir.2]
    exact Nat.mul_comm ..
  · rw [← table_dir hk]
    intro m n key i i' hm hn
    obtain ⟨hm,he⟩ := crowded_entry.mp hm
    obtain ⟨hn,he'⟩ := crowded_entry.mp hn
    have hkey : (crowdedSlot k m).1 = (crowdedSlot k n).1 := by rw [he,he']
    have hlen : ∀ a, (crowdedName a).length = 3 := fun _ => rfl
    have hm' := (crowded_len hm).2.2.1
    have hn' := (crowded_len hn).2.2.1
    clear he he' hm hn
    unfold crowdedSlot at hkey
    -- the names have one, two and three bytes
    split_ifs at hkey
    all_goals first
      | omega
      | exact crowdedName_inj hm' hn' hkey
      | exact absurd (congrArg length hkey) (by simp [hlen,dot,dotdot])

lemma crowded_entry_cases {name : List UInt8} {i : ℕ} (hm : 2 ≤ m) (h : crowded.Entry k m name i) :
    i = crowdedFile ∨ k = ROOTINO ∧ m = i+1 ∧ 2 ≤ i ∧ i < crowdedFile := by
  obtain ⟨hlt,he⟩ := crowded_entry.mp h
  rw [crowdedSlot,if_neg (by omega),if_neg (by omega),Prod.mk.injEq] at he
  have hsizes := crowded_sizes k
  obtain ⟨-,he⟩ := he
  simp only [crowdedFile,show ROOTINO = 1 from rfl] at he ⊢
  split_ifs at he <;> omega

lemma crowded_linked : crowded.Linked crowdedSb.toSuperblock where
  used k hk := by
    show 0 < k ∧ k < 200
    rcases crowded_cases hk with rfl | hk
    · decide
    · simp only [crowdedFile] at hk
      omega
  root := by decide
  dirs := crowded_directories
  dot d hd := by
    have := crowded_sizes d
    have hd := crowded_type.mp hd
    simp only [crowdedFile] at hd
    exact crowded_entry.mpr ⟨by omega,rfl⟩
  dotdot d hd := by
    have := crowded_sizes d
    have hd := crowded_type.mp hd
    simp only [crowdedFile] at hd
    refine ⟨ROOTINO,crowded_entry.mpr ⟨by omega,rfl⟩,?_⟩
    by_cases h1 : d = ROOTINO
    · exact .inl ⟨h1,rfl⟩
    · have hr : ROOTINO = 1 := rfl
      refine .inr ⟨d+1,crowdedName (d+1),by omega,crowded_entry.mpr ⟨show d+1 < 46 by omega,?_⟩⟩
      rw [crowdedSlot,if_neg (by omega),if_neg (by omega),if_pos ⟨rfl,by omega⟩,
        Nat.add_sub_cancel]
  named d m name k h := by
    obtain ⟨hlt,he⟩ := crowded_entry.mp h
    obtain ⟨h0,h45⟩ := crowdedSlot_pos hlt
    rw [he] at h0 h45
    by_cases hk : k = crowdedFile
    · rw [hk]
      decide
    · refine type_dir (s := crowded) (crowded_type.mpr ⟨h0,?_⟩)
      simp only [crowdedFile] at hk ⊢
      omega
  tree d m name k hm h hk := by
    have hk := crowded_type.mp hk
    rcases crowded_entry_cases hm h with rfl | ⟨rfl,rfl,h2,hlt⟩
    · exact absurd hk.2 (Nat.lt_irrefl _)
    · have hr : ROOTINO = 1 := rfl
      have := crowded_sizes k
      refine ⟨by omega,crowded_entry.mpr ⟨?_,rfl⟩,fun m' name' hm' h' => ?_⟩
      · simp only [crowdedFile] at hlt
        omega
      · rcases crowded_entry_cases hm' h' with rfl | ⟨-,rfl,-⟩
        · exact absurd hk.2 (Nat.lt_irrefl _)
        · rfl
  nlink k hk := by
    rcases crowded_cases hk with rfl | hk
    · rw [crowded_links (by decide) (by decide)]
      decide
    · have hk' := hk
      simp only [crowdedFile] at hk'
      rw [crowded_links hk.1 (by omega),if_neg hk.2.ne]
      show (crowdedDisk k).nlink = _
      rw [crowded_dir hk.1 hk.2]
      split_ifs <;> simp_all [ROOTINO]
  fits k hk := by
    show (crowdedDisk k).nlink ≤ _
    rcases crowded_cases hk with rfl | hk
    · decide
    · rw [crowded_dir hk.1 hk.2]
      dsimp only
      split_ifs <;> decide

/-- The state that the system boots with. -/
def crowdedBoot : State := (boot crowdedDisk crowdedStore).state

lemma crowded_consistent : Consistent crowdedSb crowdedBoot := by
  have hq : Quiet crowdedSb proc0 crowdedBoot := .boot crowded_image
  refine ⟨hq.base,hq.idle,hq.scans,fun p i hi => ?_,fun k hk => ?_,crowded_linked⟩
  · obtain ⟨rfl,rfl⟩ := boot_cwd crowdedDisk crowdedStore hi
    exact List.mem_singleton_self _
  · obtain ⟨i,hi,rfl⟩ := View.shared_iff.mp hk
    rcases boot_refs crowdedDisk crowdedStore i with ⟨rfl,-⟩ | hnil
    · decide
    · exact absurd hnil hi

lemma crowded_unlinkOk : LinkOk crowdedBoot (proc0,.unlink [47,1,3,1]) := by
  intro path d name k hpath hpar hk hdir
  obtain rfl : [47,1,3,1] = path := some.inj hpath
  have hpar' : crowdedBoot.view.files.parent (crowdedBoot.view.start proc0 [47,1,3,1])
      (comps [47,1,3,1]) = some (ROOTINO,[1,3,1]) := by decide +kernel
  obtain ⟨rfl,rfl⟩ := Prod.mk.inj (some.inj (hpar'.symm.trans hpar))
  have hk' : crowdedBoot.view.files.dirMap ROOTINO (cut [1,3,1]) = some crowdedFile := by
    decide +kernel
  obtain rfl := some.inj (hk'.symm.trans hk)
  exact absurd hdir (by decide)

end Crowded

-- `unlink` of the entry in the root directory leaves 32766 links
theorem link_counts_positive_crowded : ∃ t,
    Lib.Runs (linkStep crowdedSb.toSuperblock) LinkOk crowdedBoot [(proc0,.unlink [47,1,3,1])] t ∧
    (t.dinode crowdedFile).nlink = 32766 ∧
    ∀ d m name k, t.view.files.Entry d m name k →
      (t.dinode k).type ≠ 0 ∧ 0 < (t.dinode k).nlink := by
  obtain ⟨t,ht,hn⟩ := Lib.Prog.exists_of_run (eval crowdedSb.toSuperblock proc0)
    (sysUnlink [47,1,3,1]) crowdedBoot 0 (fun t => (t.dinode crowdedFile).nlink = 32766)
    (by decide +kernel)
  have hstep : linkStep crowdedSb.toSuperblock crowdedBoot (proc0,.unlink [47,1,3,1]) = some t := by
    rw [linkStep,if_pos (by decide),LinkCall.code,ht]
    rfl
  have hr := Lib.Runs.cons crowded_unlinkOk hstep (.nil t)
  exact ⟨t,hr,hn,(link_counts_positive crowdedSb (by decide) crowdedBoot t _ crowded_consistent hr).1⟩

/-- One more link and the count wraps: the file has 32768 entries and the count -32768, and to
remove one of the entries makes the kernel panic. -/
theorem link_count_wraps : Consistent crowdedSb crowdedBoot ∧
    ∃ t, linkStep crowdedSb.toSuperblock crowdedBoot (proc0,.link [47,1,3,1] [47,103]) = some t ∧
      t.view.files.dirMap ROOTINO [103] = some crowdedFile ∧
      (t.dinode crowdedFile).nlink = -32768 ∧
      (sysUnlink [47,103]).run (eval crowdedSb.toSuperblock proc0) t =
        .error (.panic "unlink: nlink < 1") := by
  obtain ⟨t,ht,hmap,hn,hu⟩ := Lib.Prog.exists_of_run (eval crowdedSb.toSuperblock proc0)
    (sysLink [47,1,3,1] [47,103]) crowdedBoot 0
    (fun t => t.view.files.dirMap ROOTINO [103] = some crowdedFile ∧
      (t.dinode crowdedFile).nlink = -32768 ∧
      Lib.Prog.failsWith (.panic "unlink: nlink < 1")
        ((sysUnlink [47,103]).run (eval crowdedSb.toSuperblock proc0) t) = true)
    (by decide +kernel)
  refine ⟨crowded_consistent,t,?_,hmap,hn,Lib.Prog.eq_error_of_failsWith hu⟩
  rw [linkStep,if_pos (by decide),LinkCall.code,ht]
  rfl

/-- The directories stay a tree with exact counts: the count of an inode in use is the number of its
links, and a directory other than the root has one entry, in the directory that its `..` names. -/
theorem link_counts_exact (sb : DiskSb) (hn : sb.ninodes ≤ 65536) (s t : State)
    (calls : List (Fin NPROC×LinkCall)) (h : Consistent sb s)
    (hr : Lib.Runs (linkStep sb) LinkOk s calls t) :
    (∀ k, (t.dinode k).type ≠ 0 → (t.dinode k).nlink = t.view.files.links sb k) ∧
    ∀ k, (t.dinode k).type = T_DIR → k ≠ ROOTINO → ∃ d m name, 2 ≤ m ∧
      t.view.files.Entry d m name k ∧ t.view.files.Entry k 1 dotdot d ∧
      ∀ d' m' name', 2 ≤ m' → t.view.files.Entry d' m' name' k → d' = d ∧ m' = m := by
  have hl := (hr.invariant (I := Consistent sb) (fun s e t hs hc he => hs.step hn hc he) h).linked
  refine ⟨hl.nlink,fun k hk hroot => ?_⟩
  obtain ⟨d,hd,⟨rfl,-⟩ | ⟨m,name,hm,hs⟩⟩ := hl.dotdot k hk
  · exact absurd rfl hroot
  refine ⟨d,m,name,hm,hs,hd,fun d' m' name' hm' hs' => ?_⟩
  obtain ⟨-,hd',-⟩ := hl.tree d' m' name' k hm' hs' hk
  obtain rfl := (hd.inj hd').2
  exact ⟨rfl,(hl.tree d m name k hm hs hk).2.2 m' name' hm' hs'⟩

-- the entry in the root directory is removed, and the file gets another one there under the name `a`,
-- by way of one of the other directories
theorem link_counts_exact_crowded : ∃ t, Lib.Runs (linkStep crowdedSb.toSuperblock) LinkOk crowdedBoot
      [(proc0,.unlink [47,1,3,1]),(proc0,.link [47,1,4,1,47,1,3,1] [47,97])] t ∧
    t.view.files.dirMap ROOTINO (cut [97]) = some crowdedFile ∧
    t.view.files.links crowdedSb.toSuperblock crowdedFile = 32767 := by
  have hrun : ((linkStep crowdedSb.toSuperblock crowdedBoot (proc0,.unlink [47,1,3,1])).bind fun s =>
      (linkStep crowdedSb.toSuperblock s (proc0,.link [47,1,4,1,47,1,3,1] [47,97])).map fun t =>
        decide ((s.view.files.walk (s.view.start proc0 [47,1,4,1,47,1,3,1])
            (comps [47,1,4,1,47,1,3,1]) = some crowdedFile ∧ (s.dinode crowdedFile).nlink = 32766) ∧
          t.view.files.dirMap ROOTINO (cut [97]) = some crowdedFile ∧
          (t.dinode crowdedFile).type ≠ 0 ∧ (t.dinode crowdedFile).nlink = 32767)) = some true := by
    decide +kernel
  obtain ⟨s,hs,hrun⟩ := bind_eq_some_iff.mp hrun
  obtain ⟨t,ht,hrun⟩ := map_eq_some_iff.mp hrun
  obtain ⟨⟨hwalk,hn⟩,hmap,hty,hn'⟩ := of_decide_eq_true hrun
  have hok : LinkOk s (proc0,.link [47,1,4,1,47,1,3,1] [47,97]) := by
    intro path k hpath hk
    obtain rfl : [47,1,4,1,47,1,3,1] = path := some.inj hpath
    obtain rfl := some.inj (hwalk.symm.trans hk)
    rw [hn]
    decide
  have hr := Lib.Runs.cons crowded_unlinkOk hs (.cons hok ht (.nil t))
  refine ⟨t,hr,hmap,?_⟩
  have hlinks := (link_counts_exact crowdedSb (by decide) _ _ _ crowded_consistent hr).1 crowdedFile hty
  rw [hn'] at hlinks
  exact Int.ofNat.inj hlinks.symm

end Xv6.Fs
