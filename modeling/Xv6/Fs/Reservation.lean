import Xv6.Fs.Transaction

/-! All system calls, divided into their transactions, and the blocks that each of these logs. For
the calls with several of them the references of open files are accounted for in between. -/
namespace Xv6.Fs
open Finset List Solo
open Function (update update_idem update_self update_of_ne update_eq_self)

open Itable (Ref)
open Lib (Few Traced)
open Lib.Prog (wp_act wp_bind wp_ite wp_perform)

/-! ### The references of open files -/

/-- The open files that have a reference of process `q` to entry `i`. -/
def openFiles (file : Fin NFILE → File) (i : Slot) (q : Fin NPROC) : Finset (Fin NFILE) :=
  Finset.univ.filter fun f => (file f).kind ≠ .none ∧ (file f).ip = i ∧ (file f).owner = q

variable {f : Fin NFILE}

lemma mem_openFiles {file : Fin NFILE → File} {i : Slot} {q : Fin NPROC} :
    f ∈ openFiles file i q ↔ (file f).kind ≠ .none ∧ (file f).ip = i ∧ (file f).owner = q := by
  simp [openFiles]

lemma card_openFiles_update (file : Fin NFILE → File) (f : Fin NFILE) (x : File) (i : Slot)
    (q : Fin NPROC) :
    (openFiles (update file f x) i q).card+(if f ∈ openFiles file i q then 1 else 0) =
      (openFiles file i q).card+(if x.kind ≠ .none ∧ x.ip = i ∧ x.owner = q then 1 else 0) := by
  have herase : (openFiles file i q).card =
      ((openFiles file i q).erase f).card+(if f ∈ openFiles file i q then 1 else 0) := by
    split_ifs with hf
    · exact (card_erase_add_one hf).symm
    · rw [erase_eq_of_notMem hf,Nat.add_zero]
  have hupd : openFiles (update file f x) i q =
      if x.kind ≠ .none ∧ x.ip = i ∧ x.owner = q then insert f ((openFiles file i q).erase f)
      else (openFiles file i q).erase f := by
    ext g
    by_cases hg : g = f
    · subst hg
      rw [mem_openFiles,update_self]
      split_ifs with hx <;> simp [hx]
    · rw [mem_openFiles,update_of_ne hg]
      split_ifs with hx <;> simp [hg,mem_openFiles]
  have hcard : (openFiles (update file f x) i q).card =
      ((openFiles file i q).erase f).card+
        (if x.kind ≠ .none ∧ x.ip = i ∧ x.owner = q then 1 else 0) := by
    rw [hupd]
    split_ifs
    · exact card_insert_of_notMem (notMem_erase f _)
    · rfl
  omega

namespace View

/-- Each open file and each current directory has its own reference among those that the call
finds. -/
structure Booked (v : View) : Prop where
  owned : ∀ f, (v.file f).kind ≠ .none → (v.file f).owned
  refs : ∀ i q, (openFiles v.file i q).card+(if (v.proc q).cwd = some i then 1 else 0) ≤
    (v.others i).count (q.val,.idle)

namespace Booked
variable {v w : View} {f : Fin NFILE}

lemma file_mem (h : v.Booked) (hf : (v.file f).kind ≠ .none) :
    ((v.file f).owner.val,.idle) ∈ v.others (v.file f).ip := by
  have hpos : 0 < (openFiles v.file (v.file f).ip (v.file f).owner).card :=
    card_pos.mpr ⟨f,mem_openFiles.mpr ⟨hf,rfl,rfl⟩⟩
  have := h.refs (v.file f).ip (v.file f).owner
  exact count_pos_iff.mp (by omega)

lemma cwd_mem (h : v.Booked) {p : Fin NPROC} {i : Slot} (hi : (v.proc p).cwd = some i) :
    (p.val,.idle) ∈ v.others i := by
  have := h.refs i p
  rw [if_pos hi] at this
  exact count_pos_iff.mp (by omega)

lemma change (h : v.Booked) {x : File} (hfile : w.file = update v.file f x)
    (hcwd : ∀ q, (w.proc q).cwd = (v.proc q).cwd) (hx : x.kind ≠ .none → x.owned)
    (hrefs : ∀ i (q : Fin NPROC), (v.others i).count (q.val,.idle)+
        (if x.kind ≠ .none ∧ x.ip = i ∧ x.owner = q then 1 else 0) ≤
      (w.others i).count (q.val,.idle)+(if f ∈ openFiles v.file i q then 1 else 0)) : w.Booked where
  owned g hg := by
    rw [hfile] at hg ⊢
    by_cases hgf : g = f
    · subst hgf
      rw [update_self] at hg ⊢
      exact hx hg
    · rw [update_of_ne hgf] at hg ⊢
      exact h.owned g hg
  refs i q := by
    have h₁ := h.refs i q
    have h₂ := card_openFiles_update v.file f x i q
    have h₃ := hrefs i q
    rw [hfile,hcwd]
    omega

lemma of_cwd (h : v.Booked) (hfile : w.file = v.file) (ho : w.others = v.others)
    (hcwd : ∀ q, (w.proc q).cwd = (v.proc q).cwd) : w.Booked where
  owned := by
    rw [hfile]
    exact h.owned
  refs i q := by
    rw [hfile,ho,hcwd]
    exact h.refs i q

end Booked

lemma cwd_ofile (proc : Fin NPROC → Proc) (p q : Fin NPROC) (o : Fin NOFILE → Option (Fin NFILE)) :
    (update proc p { proc p with ofile := o } q).cwd = (proc q).cwd := by
  by_cases hq : q = p
  · rw [hq,update_self]
  · rw [update_of_ne hq]

lemma count_take {v : View} (hf : (v.file f).kind ≠ .none) (i : Slot)
    (q : Fin NPROC) : (v.others i).count (q.val,.idle) ≤
      (update v.others (v.file f).ip
        ((v.others (v.file f).ip).erase ((v.file f).owner.val,.idle)) i).count (q.val,.idle)+
      (if f ∈ openFiles v.file i q then 1 else 0) := by
  by_cases hi : i = (v.file f).ip
  · subst hi
    rw [update_self,count_erase]
    by_cases hq : (v.file f).owner = q
    · rw [if_pos (mem_openFiles.mpr ⟨hf,rfl,hq⟩)]
      split_ifs <;> omega
    · rw [if_neg]
      · omega
      · intro he
        exact hq (Fin.ext (congrArg Prod.fst (beq_iff_eq.mp he)))
  · rw [update_of_ne hi]
    omega

end View

/-- The effect of a part, with the blocks that it has passed to `log_write` if it is a transaction
and comes to its `end_op`. -/
def evalPart (sb : DiskSb) (p : Fin NPROC) :
    (a : Part) → State → Traced (List ℕ) Stop (a.Ret×State)
  | .act a,s =>
    if Logged.act sb s a = [] then ⟨[],eval sb p a s⟩
    else .fail (.panic "log_write outside of trans")
  | .op x,s =>
    match (x.traced (Solo.evalLogged sb p) s).result with
    | .ok r => ⟨[(x.traced (Solo.evalLogged sb p) s).trace],.ok r⟩
    | .error e => .fail e

namespace Parts
variable (sb : DiskSb) (p : Fin NPROC)

def sysExec (path : List UInt8) (reads : List (ℕ×ℕ)) : Parts ℤ := transaction (exec path reads)

/-- What the parts ask of a view and leave. -/
def pre (a : Part) (v : View) (P : a.Ret → View → Prop) : Prop :=
  match a,P with
  | .act a,P => Solo.pre sb p (fun _ _ => True) a v P
  | .op x,P => x.Wp (Solo.spec sb p fun _ _ => True) { v with log := [] } fun r w => w.Fits ∧ P r w

def spec : Lib.Spec Part Part.Ret View := ⟨pre sb p⟩

variable {sb p}

lemma sound {a : Part} {v : View} {s : State} {P : a.Ret → View → Prop} (hg : Good sb p v s)
    (hp : (spec sb p).pre a v P) :
    (∀ l ∈ (evalPart sb p a s).trace, l.toFinset.card ≤ MAXOPBLOCKS) ∧
      ∀ r t, (evalPart sb p a s).result = .ok (r,t) → ∃ w, Good sb p w t ∧ P r w := by
  cases a with
  | act a =>
    simp only [evalPart]
    split
    · refine ⟨fun l hl => (nomatch hl),fun r t hr => ?_⟩
      rcases Solo.sound sb p (fun _ _ => True) hg hp with ⟨e,w,he,-⟩ | ⟨r',t',w,hr',hw,hP,-⟩
      · cases hr.symm.trans he
      · cases hr.symm.trans hr'
        exact ⟨w,hw,hP⟩
    · exact ⟨fun l hl => (nomatch hl),fun r t hr => nomatch hr⟩
  | op x =>
    have hg' : Good sb p { v with log := [] } s := ⟨hg.base,hg.inode,hg.store,hg.scans,hg.file,
      hg.proc,hg.slot,hg.idle⟩
    simp only [evalPart]
    rcases ends hg' hp with ⟨e,w,he,-⟩ | ⟨r,t,w,hr,hw,⟨hfits,hP⟩,hlog⟩
    · rw [he]
      exact ⟨fun l hl => (nomatch hl),fun r t hr => nomatch hr⟩
    · rw [hr]
      refine ⟨forall_mem_singleton.mpr ?_,fun r' t' h => ?_⟩
      · rw [← nil_append (Lib.Traced.trace _),← hlog]
        exact hfits
      · cases h
        exact ⟨w,hw,hP⟩

lemma trace_fits {α : Type} {x : Parts α} {v : View} {s : State} {Q : α → View → Prop}
    (hg : Good sb p v s) (hx : x.Wp (spec sb p) v Q) :
    ∀ l ∈ (x.traced (evalPart sb p) s).trace, l.toFinset.card ≤ MAXOPBLOCKS :=
  Lib.Prog.Wp.emits (S := spec sb p) sound hg hx

lemma fork_trace (q : Fin NPROC) (s : State) :
    ((call sb (.fork q)).traced (evalPart sb p) s).trace = [] := by
  have hnil : (evalPart sb p (.act (.fork q)) s).trace = [] := by
    rw [evalPart]
    split <;> rfl
  change (evalPart sb p (.act (.fork q)) s >>= fun r => pure ((0 : ℤ),r.2)).trace = []
  cases hr : (evalPart sb p (.act (.fork q)) s).result with
  | ok r =>
    rw [Traced.bind_of_ok hr,hnil]
    rfl
  | error e => rw [Traced.bind_of_error hr,hnil]

/-- What the parts of a call find when they begin. -/
structure Between (sb : DiskSb) (v : View) : Prop where
  image : Image sb v.inode v.store
  held : v.held = []
  found : ∀ i, v.others i ≠ [] → (v.inode (v.name i)).type ≠ 0
  name : ∀ i j, v.others i ≠ [] → v.others j ≠ [] → v.name i = v.name j → i = j
  booked : v.Booked
  size : sb.size ≤ BPB

namespace Between
variable {v w : View} {i : Slot} {q : Fin NPROC} {l : List ℕ} {k n : ℕ}

lemma fits (h : Between sb v) (hw : w.log = l) (hl : Solo.Costs sb k n l) (hn : n ≤ 8) : w.Fits := by
  have hcard : (sb.metas {k}).card ≤ 1+({k} : Finset ℕ).card := Logged.metas_card h.size
  have hle := (hl {k} (Finset.mem_singleton_self k)).card_le
  rw [card_singleton] at hcard
  rw [View.Fits,hw]
  show _ ≤ 10
  omega

lemma of_file (h : Between sb v) (hi : w.inode = v.inode) (hs : w.store = v.store)
    (hh : w.held = v.held) (ho : w.others = v.others) (hn : w.name = v.name)
    (hb : w.Booked) : Between sb w where
  image := by
    rw [hi,hs]
    exact h.image
  held := hh.trans h.held
  found i hne := by
    rw [ho] at hne
    rw [hi,hn]
    exact h.found i hne
  name i j := by
    rw [ho,hn]
    exact h.name i j
  booked := hb
  size := h.size

/-- One of the references found at the start has been taken and put. -/
lemma put (h : Between sb v) (hm : (q.val,.idle) ∈ v.others i)
    (ho : w.others = update v.others i ((v.others i).erase (q.val,.idle)))
    (hn : w.name = v.name) (hh : w.held = []) (hb : w.Booked)
    (hi : Image sb w.inode w.store)
    (hf : ∀ j, v.others j ≠ [] → (j = i → w.others i ≠ []) → (w.inode (v.name j)).type ≠ 0) :
    Between sb w := by
  have hne : ∀ j, w.others j ≠ [] → v.others j ≠ [] := by
    intro j hj
    by_cases hji : j = i
    · subst hji
      exact ne_nil_of_mem hm
    · rwa [ho,update_of_ne hji] at hj
  refine ⟨hi,hh,fun j hj => ?_,fun j j' hj hj' hname => ?_,hb,h.size⟩
  · rw [hn]
    exact hf j (hne j hj) fun hji => hji ▸ hj
  · rw [hn] at hname
    exact h.name j j' (hne j hj) (hne j' hj') hname

/-- One of the references found at the start has been used to write to its inode and left to the
open file again. -/
lemma pass (h : Between sb v) (hkind : (v.file f).kind ≠ .none)
    (hi : Image sb w.inode w.store) (hh : w.held = [])
    (htype : ∀ j, (w.inode j).type = (v.inode j).type)
    (ho : w.others = update v.others (v.file f).ip
      ((q.val,.idle)::(v.others (v.file f).ip).erase ((v.file f).owner.val,.idle)))
    (hn : w.name = v.name) (hp : w.proc = v.proc)
    (hf : w.file = update v.file f { v.file f with owner := q, owned := true }) : Between sb w := by
  have hne : ∀ j, w.others j ≠ [] → v.others j ≠ [] := by
    intro j hj
    by_cases hji : j = (v.file f).ip
    · rw [hji]
      exact ne_nil_of_mem (h.booked.file_mem hkind)
    · rwa [ho,update_of_ne hji] at hj
  refine ⟨hi,hh,fun j hj => ?_,fun j j' hj hj' he => ?_,?_,h.size⟩
  · rw [htype,hn]
    exact h.found j (hne j hj)
  · rw [hn] at he
    exact h.name j j' (hne j hj) (hne j' hj') he
  · refine h.booked.change hf (fun _ => by rw [hp]) (fun _ => rfl) fun i q' => ?_
    have hcount := View.count_take hkind i q'
    rw [ho]
    by_cases hi : i = (v.file f).ip
    · subst hi
      rw [update_self] at hcount ⊢
      rw [count_cons]
      by_cases hq : q = q'
      · rw [if_pos ⟨hkind,rfl,hq⟩,if_pos (by rw [hq]; exact beq_self_eq_true _)]
        omega
      · rw [if_neg fun hx => hq hx.2.2]
        omega
    · rw [if_neg fun hx => hi hx.2.1.symm,update_of_ne hi]
      omega

end Between

section
variable {v u : View} {i : Slot} {q : Fin NPROC} {α : Type}

lemma wp_put {c : ℤ → Parts α} {Q : α → View → Prop} (h : Between sb v)
    (hm : (q.val,.idle) ∈ v.others i) (hi : u.inode = v.inode) (hs : u.store = v.store)
    (hh : u.held = [⟨i,v.name i,.fresh⟩])
    (ho : u.others = update v.others i ((v.others i).erase (q.val,.idle)))
    (hn : u.name = v.name)
    (hc : ∀ w, (u.Booked → Between sb w) → w.proc = u.proc → (c 0).Wp (spec sb p) w Q) :
    (transaction (do iput i; return 0) >>= c).Wp (spec sb p) u Q := by
  have hne : v.others i ≠ [] := ne_nil_of_mem hm
  have hty : (v.inode (v.name i)).type ≠ 0 := h.found i hne
  have hdrop : ∀ w : View, w.held = u.held → (w.drop ⟨i,v.name i,.fresh⟩).held = [] := by
    intro w hw
    rw [View.drop,hw,hh,erase_cons_head]
  refine wp_act (wp_bind (Solo.wp_put (v := { u with log := [] }) (h := ⟨i,v.name i,.fresh⟩) ?_ ?_ rfl
    ?_ (fun _ => ⟨?_,?_⟩) fun hl s l hs' hk hsk hcost => ⟨?_,?_⟩))
  · show Image sb u.inode u.store
    rw [hi,hs]
    exact h.image
  · show _ ∈ u.held
    rw [hh]
    exact List.mem_singleton_self _
  · show (u.inode _).type ≠ 0
    rw [hi]
    exact hty
  · exact Nat.zero_le _
  · refine hc _ (fun hb => ?_) rfl
    refine h.put hm ho hn (hdrop _ rfl) ⟨hb.owned,hb.refs⟩ ?_ fun j hj _ => ?_
    · show Image sb u.inode u.store
      rw [hi,hs]
      exact h.image
    · show (u.inode _).type ≠ 0
      rw [hi]
      exact h.found j hj
  · exact h.fits rfl hcost (by omega)
  · refine hc _ (fun hb => ?_) rfl
    refine h.put hm ho hn (hdrop _ rfl) ⟨hb.owned,hb.refs⟩ hs' fun j hj hji => ?_
    -- the inode that has been freed has no reference left
    have hsole : u.others i = [] := hl.1.1
    have hjk : v.name j ≠ v.name i := fun he => hji (h.name j i hj hne he) hsole
    have hfiles : (v.inode (v.name j)).type = (u.inode (v.name j)).type := by rw [hi]
    exact hk.used hjk (hfiles ▸ h.found j hj)

lemma wp_closeFile {Q : Unit → View → Prop} (h : Between sb v)
    (hQ : ∀ w, Between sb w → w.proc = v.proc → Q () w) : (closeFile f).Wp (spec sb p) v Q := by
  refine wp_act ?_
  simp only [spec,pre,Solo.pre]
  split
  · trivial
  split
  · refine hQ _ (h.of_file rfl rfl rfl rfl rfl (h.booked.change rfl (fun _ => rfl) (h.booked.owned f)
      fun i q => ?_)) rfl
    simp only [mem_openFiles]
    exact le_rfl
  split
  · rename_i hkind
    refine hQ _ (h.of_file rfl rfl rfl rfl rfl (h.booked.change rfl (fun _ => rfl)
      (fun hx => absurd rfl hx) fun i q => ?_)) rfl
    rw [if_neg fun hx => hx.1 rfl]
    exact Nat.le_add_right ..
  · rename_i hkind
    have hm := h.booked.file_mem hkind
    refine ⟨h.booked.owned f hkind,hm,wp_put h hm rfl rfl ?_ rfl rfl fun w hw hproc => ?_⟩
    · show _::v.held = _
      rw [h.held]
    · refine hQ w (hw (h.booked.change rfl (fun _ => rfl) (fun hx => absurd rfl hx) fun i q => ?_)) hproc
      rw [if_neg fun hx => hx.1 rfl,Nat.add_zero]
      exact View.count_take hkind i q

/-- A round of `filewrite`: the blocks of `n1` bytes with the indirect block for each, the bitmap and
the inode. -/
lemma wp_writeChunk {src : ℕ → ℕ → List UInt8×Bool} {off n1 : ℕ} {c : ℤ → Parts α}
    {Q : α → View → Prop} (h : Between sb v) (hkind : (v.file f).kind ≠ .none) (hn : n1 ≤ chunk)
    (hc : ∀ r w, Between sb w → (w.file f).kind ≠ .none → (c r).Wp (spec sb p) w Q) :
    (transaction (writeChunk f src off n1) >>= c).Wp (spec sb p) v Q := by
  have hm := h.booked.file_mem hkind
  have hne : v.others (v.file f).ip ≠ [] := ne_nil_of_mem hm
  have hty : (v.inode (v.name (v.file f).ip)).type ≠ 0 := h.found _ hne
  refine wp_act (wp_act ⟨h.booked.owned f hkind,hm,?_,hty,?_⟩)
  · rintro ⟨g,hg,-⟩
    have hg : g ∈ v.held := hg
    rw [h.held] at hg
    cases hg
  have hspan : Logged.span off n1 ≤ 4 := by
    have hB : BSIZE = 1024 := rfl
    have hC : chunk = 3072 := rfl
    unfold Logged.span
    rw [hB]
    split <;> omega
  refine wp_writei h.image mem_cons_self hty fun r s l hs hk htype hcost => ?_
  refine wp_act ⟨v.name (v.file f).ip,mem_cons_self,?_,?_⟩
  · exact h.fits (nil_append l) hcost (by omega)
  have hall : ∀ j, (s.inode j).type = (v.inode j).type := by
    intro j
    by_cases hj : j = v.name (v.file f).ip
    · rw [hj]
      exact htype
    · exact hk.type j hj
  have hothers : update (update v.others (v.file f).ip
      ((v.others (v.file f).ip).erase ((v.file f).owner.val,.idle))) (v.file f).ip
        ((p.val,.idle)::update v.others (v.file f).ip
          ((v.others (v.file f).ip).erase ((v.file f).owner.val,.idle)) (v.file f).ip) =
      update v.others (v.file f).ip
        ((p.val,.idle)::(v.others (v.file f).ip).erase ((v.file f).owner.val,.idle)) := by
    rw [update_self,update_idem]
  have hfile : update (update v.file f { v.file f with owned := false }) f
      { update v.file f { v.file f with owned := false } f with owner := p, owned := true } =
      update v.file f { v.file f with owner := p, owned := true } := by
    rw [update_self,update_idem]
  refine hc r _ (h.pass hkind hs ?_ hall hothers (update_eq_self ..) rfl hfile) ?_
  · show (_::v.held).erase _ = []
    rw [erase_cons_head,h.held]
  · refine (congrArg File.kind (congrFun hfile f)).trans_ne ?_
    rw [update_self]
    exact hkind

lemma wp_filewriteLoop {src : ℕ → ℕ → List UInt8×Bool} {n : ℕ} (h : Between sb v)
    (hkind : (v.file f).kind ≠ .none) (fuel i off : ℕ) :
    (filewriteLoop f src n fuel i off).Wp (spec sb p) v fun _ _ => True := by
  induction fuel generalizing v i off with
  | zero => trivial
  | succ fuel ih =>
    rw [filewriteLoop]
    refine wp_ite (fun _ => ?_) fun _ => trivial
    exact wp_writeChunk h hkind (min_le_right ..) fun r w hw hk =>
      wp_ite (fun _ => trivial) fun _ => ih hw hk _ _

lemma wp_closeAll {Q : Unit → View → Prop} (fds : List (Fin NOFILE)) (h : Between sb v)
    (hQ : ∀ w, Between sb w → (w.proc p).cwd = (v.proc p).cwd → Q () w) :
    (closeAll fds).Wp (spec sb p) v Q := by
  induction fds generalizing v with
  | nil => exact hQ v h rfl
  | cons fd fds ih =>
    rw [closeAll]
    refine wp_act ?_
    simp only [spec,pre,Solo.pre]
    cases (v.proc p).ofile fd with
    | none => exact ih h hQ
    | some f =>
      refine wp_bind (wp_closeFile h fun w hw hproc => wp_act ?_)
      refine ih (hw.of_file rfl rfl rfl rfl rfl (hw.booked.of_cwd rfl rfl fun q =>
        View.cwd_ofile ..)) fun u hu hcwd => hQ u hu ?_
      rw [hcwd,← hproc]
      exact View.cwd_ofile ..

lemma wp_sysClose (h : Between sb v) (fd : ℕ) :
    (sysClose fd).Wp (spec sb p) v fun _ _ => True := by
  unfold sysClose
  split
  · refine wp_act ?_
    simp only [spec,pre,Solo.pre]
    cases (v.proc p).ofile ⟨fd,_⟩ with
    | none => trivial
    | some f =>
      refine wp_act (wp_bind (wp_closeFile (h.of_file rfl rfl rfl rfl rfl (h.booked.of_cwd rfl rfl
        fun q => View.cwd_ofile ..)) fun _ _ _ => trivial))
  · trivial

lemma wp_exit (h : Between sb v) {i : Slot} (hi : (v.proc p).cwd = some i) :
    exit.Wp (spec sb p) v fun _ _ => True := by
  refine wp_bind (wp_closeAll _ h fun w hw hcwd => ?_)
  have hwi : (w.proc p).cwd = some i := hcwd.trans hi
  have hm := hw.booked.cwd_mem hwi
  refine wp_act ⟨i,hwi,hm,wp_put hw hm rfl rfl ?_ rfl rfl fun _ _ _ => wp_act trivial⟩
  show _::w.held = _
  rw [hw.held]

lemma wp_sysWrite (h : Between sb v) (fd : ℕ) (src : ℕ → ℕ → List UInt8×Bool) (off n : ℕ) :
    (sysWrite fd src off n).Wp (spec sb p) v fun _ _ => True := by
  unfold sysWrite
  split
  · refine wp_act ?_
    simp only [spec,pre,Solo.pre]
    cases (v.proc p).ofile ⟨fd,_⟩ with
    | none => trivial
    | some f =>
      refine wp_ite (fun _ => trivial) fun hf => wp_filewriteLoop h ?_ _ _ _
      rw [not_or,not_not] at hf
      rw [hf.2]
      simp
  · trivial

/-- No part of a call logs more blocks than there are in the reservation. -/
lemma wp_call (h : Begun sb p v) (hb : Between sb v) (c : Call) (hc : ∀ q, c ≠ .fork q) :
    (call sb c).Wp (spec sb p) v fun _ _ => True := by
  have hone : ∀ x : Code ℤ, x.Wp (Solo.spec sb p fun _ _ => True) v (fun _ w => w.Fits) →
      (transaction x).Wp (spec sb p) v fun _ _ => True := by
    intro x hx
    have hv : { v with log := [] } = v := by rw [← h.log]
    refine wp_perform ?_
    show x.Wp _ { v with log := [] } _
    rw [hv]
    exact hx.mono fun _ _ hw => ⟨hw,trivial⟩
  cases c with
  | «open» path omode => exact wp_ite (fun _ => hone _ (fits_sysOpen h ..)) fun _ => trivial
  | mkdir path => exact hone _ (Solo.fits_sysCreate h path (by decide) (by decide) 0 0)
  | mknod path major minor =>
    exact hone _ (Solo.fits_sysCreate h path (by decide) (by decide) major minor)
  | link old new => exact wp_ite (fun _ => hone _ (fits_sysLink h ..)) fun _ => trivial
  | unlink path => exact wp_ite (fun _ => hone _ (fits_sysUnlink h ..)) fun _ => trivial
  | chdir path => exact hone _ (fits_sysChdir h ..)
  | close fd => exact wp_sysClose hb fd
  | exit =>
    obtain ⟨i,hi,-⟩ := h.cwd
    exact wp_exit hb hi
  | fork q => exact absurd rfl (hc q)
  | write fd src off n => exact wp_sysWrite hb fd src off n

end
end Parts

/-- The files and the processes between two calls have their references. -/
lemma Quiet.between {sb : DiskSb} {p : Fin NPROC} {s : State} (h : Quiet sb p s) (ht : s.view.Tree)
    (hb : s.view.Booked) (hsize : sb.size ≤ BPB) : Parts.Between sb s.view where
  image := h.good.image
  held := rfl
  found := ht.found
  name := h.base.unique
  booked := hb
  size := hsize

/-- Every operation fits its reservation: whatever the call, its arguments and its outcome, the
blocks that it logs between a `begin_op` and the matching `end_op` are at most `MAXOPBLOCKS`. -/
theorem operations_fit_log (sb : DiskSb) (p : Fin NPROC) (s : State) (h : Quiet sb p s)
    (ht : s.view.Tree) (hfit : ∀ k, (s.dinode k).Fits) (hfree : FreeFiles s.file)
    (hb : s.view.Booked) (hsize : sb.size ≤ BPB) :
    (∀ c, ∀ l ∈ ((Parts.call sb c).traced (evalPart sb p) s).trace,
      l.toFinset.card ≤ MAXOPBLOCKS) ∧
    ∀ path reads, ∀ l ∈ ((Parts.sysExec path reads).traced (evalPart sb p) s).trace,
      l.toFinset.card ≤ MAXOPBLOCKS := by
  have hbegun : Begun sb p s.view :=
    ⟨h.good.image,ht,rfl,rfl,h.cwd,fun k => (hfit k).nlink,hfree,hsize⟩
  have hbetween := h.between ht hb hsize
  constructor
  · intro c
    by_cases hc : ∀ q, c ≠ .fork q
    · exact Parts.trace_fits h.good (Parts.wp_call hbegun hbetween c hc)
    · obtain ⟨q,hq⟩ := not_forall_not.mp hc
      -- `fork` has no transaction
      subst hq
      rw [Parts.fork_trace]
      exact fun l hl => nomatch hl
  · intro path reads
    refine Parts.trace_fits (Q := fun _ _ => True) h.good (wp_perform ?_)
    exact (fits_exec hbegun path reads).mono fun _ _ hw => ⟨hw,trivial⟩

lemma booked_boot (disk : ℕ → Dinode) (st : Store) : (boot disk st).state.view.Booked where
  owned _ h := absurd rfl h
  refs i q := by
    have hnone : openFiles (boot disk st).state.view.file i q = ∅ :=
      filter_false_of_mem fun _ _ h => h.1 rfl
    rw [hnone,card_empty,Nat.zero_add]
    split_ifs with h
    · obtain ⟨rfl,rfl⟩ := boot_cwd disk st h
      exact List.count_pos_iff.mpr (List.mem_singleton_self _)
    · exact Nat.zero_le _

/-- `mkdir("/a")` is one transaction, which logs four blocks. -/
theorem operations_fit_log_mkdir :
    ((Parts.call smallSb (.mkdir [47,97])).traced (evalPart smallDiskSb proc0)
      (boot smallDisk smallStore).state).trace.map (·.toFinset.card) = [4] ∧
    ∀ l ∈ ((Parts.call smallSb (.mkdir [47,97])).traced (evalPart smallDiskSb proc0)
      (boot smallDisk smallStore).state).trace, l.toFinset.card ≤ MAXOPBLOCKS :=
  ⟨by decide +kernel,(operations_fit_log smallDiskSb proc0 _ (.boot small_image) small_tree small_fits
    (fun _ _ => rfl) (booked_boot ..) (by decide)).1 (.mkdir [47,97])⟩

end Xv6.Fs
