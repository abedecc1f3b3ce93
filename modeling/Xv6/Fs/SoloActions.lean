import Xv6.Fs.Solo

/-! Each action of a process that runs alone ends as it is described. -/
namespace Xv6.Fs
open List State
open Function (update update_self update_apply update_of_ne update_eq_self)

open Itable (Entry Op Ref Stage Scan Table)
open Lib (Traced)

lemma View.Sole.unique {v : View} {i : Slot} (hs : v.Sole i) {g h : Held} (hg : g ∈ v.held)
    (hgi : g.slot = i) (hh : h ∈ v.held) (hhi : h.slot = i) : g = h := by
  have hlen : (mine v.held i).length = 1 := by
    rw [← hs.2]
    exact countP_eq_length_filter.symm
  obtain ⟨a,ha⟩ := length_eq_one_iff.mp hlen
  have hg' : g ∈ mine v.held i := mem_mine.mpr ⟨hg,hgi⟩
  have hh' : h ∈ mine v.held i := mem_mine.mpr ⟨hh,hhi⟩
  rw [ha,mem_singleton] at hg' hh'
  rw [hg',hh']

lemma View.Sole.erase {v : View} {h : Held} (hs : v.Sole h.slot) (hh : h ∈ v.held) :
    mine (v.held.erase h) h.slot = [] := by
  have hlen : (mine v.held h.slot).length = 1 := by
    rw [← hs.2]
    exact countP_eq_length_filter.symm
  rw [(mine_erase_self hh).length_eq,length_cons] at hlen
  exact length_eq_zero_iff.mp (by omega)

lemma Mode.idle_cases {m : Mode} (h : m.stage = .idle) : m = .fresh ∨ m = .seen := by
  cases m with
  | fresh => exact .inl rfl
  | seen => exact .inr rfl
  | locked => cases h
  | freeing => cases h
  | dropping => cases h

lemma Logged.writeData_result {sb : DiskSb} {k : ℕ} {f : Logged (ℤ×Data Store)} :
    (writeData sb k f).result = f.result := by
  unfold writeData
  rw [Traced.bind_result]
  cases f.result with
  | error m => rfl
  | ok r =>
    simp only [bind,Except.bind]
    split <;> rfl

lemma Logged.truncate_result {sb : DiskSb} {k : ℕ} {x : Data Store} :
    (truncate sb k x).result = x.itrunc := by
  unfold truncate
  rw [Traced.bind_result,itrunc_result]
  cases x.itrunc <;> rfl

lemma Logged.release_result {sb : DiskSb} {k : ℕ} {x y : Data Store} (h : x.itrunc = .ok y) :
    (release sb k x).result = .ok ⟨x.d.freed,y.st⟩ := by
  unfold release
  rw [Traced.bind_result,truncate_result,h]
  rfl

namespace Solo
variable {sb : DiskSb} {p : Fin NPROC} {E : View → Stop → Prop} {v w : View} {s t : State}
variable {i : Slot} {k : ℕ}

variable (sb p) in
/-- An action with the blocks that it passes to `log_write`. -/
def evalLogged (a : Act) (s : State) : Traced ℕ Stop (a.Ret×State) :=
  ⟨Logged.act sb s a,eval sb p a s⟩

variable (sb p E) in
/-- An action ends as described. -/
abbrev EndsAs (a : Act) (v : View) (s : State) (P : a.Ret → View → Prop) : Prop :=
  Lib.Prog.Ends (Good sb p) View.log E P v (evalLogged sb p a s)

variable (sb p E v s) in
/-- Whatever `pre` describes, the action ends as described. -/
abbrev Does (a : Act) : Prop := ∀ P : a.Ret → View → Prop, pre sb p E a v P → EndsAs sb p E a v s P

lemma ends_ok {a : Act} {P : a.Ret → View → Prop} {r : a.Ret}
    (he : eval sb p a s = .ok (r,t)) (hl : w.log = v.log++Logged.act sb s a)
    (hg : Good sb p w t) (hP : P r w) : EndsAs sb p E a v s P :=
  .inr ⟨r,t,w,he,hg,hP,hl⟩

lemma ends_silent {a : Act} {P : a.Ret → View → Prop} {r : a.Ret} (ha : Logged.act sb s a = [])
    (he : eval sb p a s = .ok (r,t)) (hP : P r w) (hl : w.log = v.log)
    (hg : Good sb p w t) : EndsAs sb p E a v s P :=
  ends_ok he (by rw [ha,append_nil,hl]) hg hP

lemma ends_error {a : Act} {P : a.Ret → View → Prop} {e : Stop}
    (he : eval sb p a s = .error e) (hl : w.log = v.log++Logged.act sb s a)
    (hE : E w e) : EndsAs sb p E a v s P :=
  .inl ⟨e,w,he,hE,hl⟩

section
variable (hg : Good sb p v s)
include hg

lemma shift {h : Held} (hm : h ∈ v.held) (hs : List Held) {n : Entry}
    (hb : Base sb (s.put h.slot n (s.table.dinode h.slot)))
    (hnum : n.inum = (s.table.inode h.slot).inum)
    (hslot : ∀ g ∈ hs, g.slot = h.slot ∧ g.inum = h.inum)
    (hrefs : n.refs = hs.map (fun g => (p.val,g.mode.stage))++
      (s.table.inode h.slot).refs.erase (p.val,h.mode.stage))
    (hseen : ∀ g ∈ hs++mine (v.held.erase h) h.slot, g.mode = .seen → n.valid) :
    Good sb p { v with held := hs++v.held.erase h } (s.put h.slot n (s.table.dinode h.slot)) :=
  hg.step hm hs hb hnum hslot hrefs hseen (by rw [hg.dinode hm,update_eq_self]) hg.store.symm rfl rfl
    rfl rfl rfl rfl

lemma ilock : Does sb p E v s (.ilock i) := by
  rintro P ⟨k,m,hm,hst,hty,hp⟩
  have hidle : (p.val,.idle) ∈ (s.table.inode i).refs := hst ▸ hg.mem hm
  split at hp
  · rename_i hl
    exact ends_error (ilock_sleeps hidle (hg.ref_pos hm) (mt hg.holder.mp (not_not.mpr hl)))
      (append_nil _).symm hp
  · rename_i hl
    have hd : s.table.dinode i = v.inode k := hg.dinode hm
    obtain ⟨t,ht⟩ := ilock_exists hidle (hg.ref_pos hm) (hg.holder.mpr hl)
      fun _ => by rw [hd]; exact hty
    have hb := hg.base.ilock ht
    obtain ⟨-,-,-,rfl⟩ := ilock_ok ht
    refine ends_silent rfl ht hp rfl (shift hg hm [⟨i,k,.locked⟩] hb rfl
      (forall_mem_singleton.mpr ⟨rfl,rfl⟩) ?_ fun _ _ _ => rfl)
    rw [hst]
    rfl

lemma iunlock : Does sb p E v s (.iunlock i) := by
  rintro P ⟨k,hm,hp⟩
  obtain ⟨hn,hv⟩ := (hg.base.sync i).held _ (hg.mem hm) rfl
  have ht := iunlock_exists (hg.mem hm) (hg.ref_pos hm) hn
  exact ends_silent rfl ht hp rfl (shift hg hm [⟨i,k,.seen⟩] (hg.base.iunlock ht) rfl
    (forall_mem_singleton.mpr ⟨rfl,rfl⟩) rfl fun _ _ _ => hv)

lemma iputTest : Does sb p E v s (.iputTest i) := by
  rintro P ⟨k,m,hm,hst,hp⟩
  have hidle : (p.val,.idle) ∈ (s.table.inode i).refs := hst ▸ hg.mem hm
  have hd : s.table.dinode i = v.inode k := hg.dinode hm
  have hvalid : (s.table.inode i).valid → (s.table.inode i).d = v.inode k := by
    intro hv
    rw [← hd]
    exact ((hg.base.sync i).synced (ne_nil_of_mem hidle) hv).2
  have hsole : (s.table.inode i).ref = 1 ↔ v.Sole i := hg.sole hm
  obtain ⟨b,t,ht⟩ := iputTest_exists hidle fun hl => by
    rw [hg.holder]
    rintro ⟨g,hg',hgi,hgl⟩
    obtain rfl := (hsole.mp hl.1).unique hg' hgi hm rfl
    rw [hst] at hgl
    cases hgl
  have hb := hg.base.iputTest ht
  obtain ⟨-,⟨rfl,hlast,-,rfl⟩ | ⟨rfl,hlast,rfl⟩⟩ := iputTest_ok ht
  · have hzero : (v.inode k).nlink = 0 := by
      rw [← hvalid hlast.2.1]
      exact hlast.2.2
    rw [if_pos ⟨hsole.mp hlast.1,hzero⟩] at hp
    refine ends_silent rfl ht hp.1 rfl (shift hg hm [⟨i,k,.freeing⟩] hb rfl
      (forall_mem_singleton.mpr ⟨rfl,rfl⟩) ?_ fun _ _ _ => hlast.2.1)
    rw [hst]
    rfl
  · refine ends_silent (w := v.drop ⟨i,k,m⟩) rfl ht ?_ rfl
      (shift hg hm [] hb rfl nofun (by rw [hst]; rfl) (hg.seen_erase rfl))
    split at hp
    · rename_i hc
      rcases Mode.idle_cases hst with rfl | rfl
      · exact hp.2 rfl
      · -- the entry has been seen to be valid, so the last reference would have been found
        have hv := (hg.slot i).seen _ (mem_mine.mpr ⟨hm,rfl⟩) rfl
        refine absurd ⟨hsole.mpr hc.1,hv,?_⟩ hlast
        rw [hvalid hv]
        exact hc.2
    · exact hp

/-- `itrunc` on an inode that the call has for itself. -/
lemma truncates {m : Mode} (hm : ⟨i,k,m⟩ ∈ v.held) (hl : m.stage.locks) :
    ∃ st, s.data i = v.data k ∧ (v.data k).itrunc = .ok ⟨(v.inode k).trunc,st⟩ ∧
      ∀ x, (s.data i).itrunc = .ok x → x = ⟨(v.inode k).trunc,st⟩ := by
  obtain ⟨hdata,hty⟩ : s.data i = v.data k ∧ (v.inode k).type ≠ 0 := hg.locked hm hl
  obtain ⟨st,hx,-⟩ := Data.itrunc_spec (x := v.data k) ⟨hg.image.own,rfl,hty⟩
  refine ⟨st,hdata,hx,fun x hx' => ?_⟩
  rw [hdata,hx] at hx'
  exact (Except.ok.inj hx').symm

lemma iputFree : Does sb p E v s (.iputFree i) := by
  rintro P ⟨k,hm,hs,hp⟩
  obtain ⟨st,hdata,hx,htr⟩ := truncates hg hm rfl
  obtain ⟨t,ht⟩ := iputFree_exists (hg.mem hm) (hdata ▸ hx)
  have hb := hg.base.iputFree ht
  obtain ⟨-,x,hx',rfl⟩ := iputFree_ok ht
  obtain rfl := htr x hx'
  have hd : (s.table.inode i).d = v.inode k := congrArg Data.d hdata
  have hres : (do return ((),← Logged.release sb k (v.data k)) : Logged (Unit×Data Store)).result =
      .ok ((),⟨(v.inode k).freed,st⟩) := by
    rw [Traced.bind_result,Logged.release_result hx]
    rfl
  have htrace : (do return ((),← Logged.release sb k (v.data k)) : Logged (Unit×Data Store)).trace =
      Logged.act sb s (.iputFree i) := by
    rw [Traced.bind_of_ok (Logged.release_result hx),Logged.act,hdata,hg.inum hm]
    exact append_nil _
  unfold Wrote at hp
  rw [hres,htrace] at hp
  have hgood : Good sb p ((v.write k ⟨(v.inode k).freed,st⟩
      (Logged.act sb s (.iputFree i))).move ⟨i,k,.freeing⟩ .dropping)
      { s.put i (freedEntry (s.table.inode i) p) (s.table.inode i).d.freed with store := st } := by
    refine hg.step hm [⟨i,k,.dropping⟩] hb rfl (forall_mem_singleton.mpr ⟨rfl,rfl⟩) rfl
      ?_ ?_ rfl rfl rfl rfl rfl rfl rfl
    · rw [hs.erase hm,append_nil]
      exact forall_mem_singleton.mpr nofun
    · rw [hd]
      rfl
  exact ends_ok ht rfl hgood (hp hgood.image)

lemma iputDrop : Does sb p E v s (.iputDrop i) := by
  rintro P ⟨k,hm,hp⟩
  have ht := drop_exists (hg.mem hm)
  exact ends_silent rfl ht hp rfl
    (shift hg hm [] (hg.base.iputDrop ht) rfl nofun rfl (hg.seen_erase rfl))

lemma peek : Does sb p E v s (.peek i) := by
  rintro P ⟨k,hm,hp⟩
  obtain ⟨hdata,-⟩ := hg.locked hm rfl
  refine ends_silent (r := ((s.table.inode i).inum,(s.table.inode i).d)) (w := v) rfl rfl ?_ rfl hg
  rw [hg.inum hm,show (s.table.inode i).d = v.inode k from congrArg Data.d hdata]
  exact hp

lemma iget : Does sb p E v s (.iget k) := by
  intro P hp
  rcases hg.iget k none with ⟨hf,he⟩ | ⟨i,t,ht,hgood⟩
  · exact ends_error he (append_nil _).symm (hp.1 hf)
  · exact ends_silent rfl ht (hp.2 i hgood.wf) rfl hgood

lemma idupCwd : Does sb p E v s .idupCwd := by
  rintro P ⟨i,hc,hi,hp⟩
  have hmem := hg.other_mem hi
  have hd : s.table.dinode i = s.dinode (s.table.inode i).inum :=
    hg.base.dinode_eq (ne_nil_of_mem hmem)
  have hdup : entryOp p i .idup s =
      .ok ((),s.put i (sharedEntry (s.table.inode i) p) (s.table.dinode i)) :=
    entryOp_eq (if_pos (.inl hmem))
  have ht : Fs.idupCwd p s = .ok (i,s.put i (sharedEntry (s.table.inode i) p) (s.table.dinode i)) := by
    refine bind_ok.mpr ⟨s,s,rfl,?_⟩
    rw [hg.proc,hc]
    exact bind_ok.mpr ⟨(),_,hdup,rfl⟩
  have hne : v.others i ≠ [] := ne_nil_of_mem hi
  have hgood : Good sb p (v.get i (v.name i))
      (s.put i (sharedEntry (s.table.inode i) p) (s.table.dinode i)) := by
    have hb : Base sb (s.put i (sharedEntry (s.table.inode i) p) (s.table.dinode i)) :=
      hg.base.eval (p := p) (a := .idupCwd) ht
    refine hg.of_slot i hb ?_ hg.store hg.scans hg.file hg.proc ?_ (hg.idle i)
      fun j hj => ⟨put_inode_ne _ _ _ _ hj,?_,rfl,rfl⟩
    · rw [hg.base.put_dinode (ne_nil_of_mem hmem),hd,update_eq_self]
      exact hg.inode
    · rw [put_inode,View.get,mine_cons_self ⟨i,v.name i,.fresh⟩ v.held]
      exact ⟨(hg.slot i).refs.cons _,forall_mem_cons.mpr ⟨(hg.slot i).name hne,(hg.slot i).inum⟩,
        (hg.slot i).name,forall_mem_cons.mpr ⟨(by simp),(hg.slot i).seen⟩⟩
    · rw [View.get,mine_cons_ne (h := ⟨i,v.name i,.fresh⟩) hj]
  exact ends_silent rfl ht (hp hgood.wf) rfl hgood

lemma read (hm : ⟨i,k,.locked⟩ ∈ v.held) {β : Type} {msg : String}
    {stop : Dirent → ℕ → Option β} {last : ℕ → β} (left : Data Store → ℕ) {off : ℕ} {P : β → Prop}
    (hp : Read E v (sb.blocks.entryLoop msg stop last (left (v.data k)) off (v.data k)) P) :
    (E v (.panic msg) ∧ onData p i (fun x => sb.blocks.entryLoop msg stop last (left x) off x) s
      = .error (.panic msg)) ∨ ∃ b, P b ∧
      onData p i (fun x => sb.blocks.entryLoop msg stop last (left x) off x) s = .ok (b,s) := by
  obtain ⟨hdata,hty⟩ : s.data i = v.data k ∧ (v.inode k).type ≠ 0 := hg.locked hm rfl
  rw [← hdata] at hp
  have hf : (s.data i).Full := hdata ▸ hg.image.full k hty
  rcases Data.entryLoop_or sb hf msg stop last (left (s.data i)) off with ⟨b,hb⟩ | hb
  · rw [hb] at hp
    refine .inr ⟨b,hp,?_⟩
    have h := onData_exists (f := fun x => sb.blocks.entryLoop msg stop last (left x) off x)
      (hg.mem hm) hb
    exact h.trans (congrArg (fun t => Except.ok (b,t)) (hg.base.entryLoop (hg.mem hm) hb))
  · rw [hb] at hp
    exact .inl ⟨hp,onData_error (hg.mem hm) hb⟩

lemma dirlookup {name : List UInt8} : Does sb p E v s (.dirlookup i name) := by
  rintro P ⟨k,hm,hdir,hp⟩
  obtain ⟨hdata,hty⟩ : s.data i = v.data k ∧ (v.inode k).type ≠ 0 := hg.locked hm rfl
  have hd : (s.table.inode i).d = v.inode k := congrArg Data.d hdata
  have hact : Logged.act sb s (.dirlookup i name) = [] := by
    rw [Logged.act,hd,if_neg (not_not.mpr hdir),hdata]
    exact Logged.entryLoop_trace (hg.image.full k hty) ..
  have hcheck : ¬(s.table.inode i).d.type ≠ T_DIR := by rw [hd]; exact not_not.mpr hdir
  rcases read hg hm (fun x => x.rounds 0) hp with ⟨hE,he⟩ | ⟨o,ho,hread⟩
  · refine ends_error (w := v) ?_ (by rw [hact,append_nil]) hE
    refine bind_error.mpr (.inr ⟨s,s,rfl,?_⟩)
    rw [if_neg hcheck]
    exact bind_error.mpr (.inl he)
  · cases o with
    | none =>
      refine ends_silent hact (bind_ok.mpr ⟨s,s,rfl,?_⟩) ho rfl hg
      rw [if_neg hcheck]
      exact bind_ok.mpr ⟨none,s,hread,rfl⟩
    | some r =>
      rcases hg.iget r.1 none with ⟨hf,he⟩ | ⟨j,t,ht,hgood⟩
      · refine ends_error (w := v) ?_ (by rw [hact,append_nil]) (ho.1 hf)
        refine bind_error.mpr (.inr ⟨s,s,rfl,?_⟩)
        rw [if_neg hcheck]
        exact bind_error.mpr (.inr ⟨some r,s,hread,bind_error.mpr (.inl he)⟩)
      · refine ends_silent hact (bind_ok.mpr ⟨s,s,rfl,?_⟩) (ho.2 j hgood.wf) rfl hgood
        rw [if_neg hcheck]
        exact bind_ok.mpr ⟨some r,s,hread,bind_ok.mpr ⟨j,t,ht,rfl⟩⟩

lemma isdirempty : Does sb p E v s (.isdirempty i) := by
  rintro P ⟨k,hm,hp⟩
  obtain ⟨hdata,hty⟩ : s.data i = v.data k ∧ (v.inode k).type ≠ 0 := hg.locked hm rfl
  have hact : Logged.act sb s (.isdirempty i) = [] := by
    rw [Logged.act,hdata]
    exact Logged.entryLoop_trace (hg.image.full k hty) ..
  rcases read hg hm (fun x => x.rounds (2*DIRENT)) hp with ⟨hE,he⟩ | ⟨b,hb,hread⟩
  · exact ends_error (w := v) he (by rw [hact,append_nil]) hE
  · exact ends_silent hact hread hb rfl hg

lemma readi {off n : ℕ} : Does sb p E v s (.readi i off n) := by
  rintro P ⟨k,hm,hp⟩
  obtain ⟨hdata,hty⟩ : s.data i = v.data k ∧ (v.inode k).type ≠ 0 := hg.locked hm rfl
  have hf : (s.data i).Full := hdata ▸ hg.image.full k hty
  obtain ⟨r,got,hr⟩ := Data.readi_ok sb hf (fun _ _ => true) off n
  have hread : Fs.readi sb p i off n s = .ok ((r,got),s) := by
    refine (onData_exists (hg.mem hm) (a := (r,got)) (x := s.data i) ?_).trans ?_
    · show (Blocks.readi _ _ off n (s.data i) >>= _) = _
      rw [hr]
      rfl
    · exact congrArg (fun t => Except.ok ((r,got),t)) (s.put_self i)
  exact ends_silent (Logged.readi_trace hf _ off n) hread (hp r got (hdata ▸ hr)) rfl hg

/-- `writei` on a locked inode, whatever computes its arguments. -/
lemma wrote (hm : ⟨i,k,.locked⟩ ∈ v.held) {f : Logged (ℤ×Data Store)}
    {g : Data Store → Except String (ℤ×Data Store)} (hf : f.result = g (v.data k))
    (hw : Base.Writes sb g) {P : ℤ → View → Prop}
    (hp : Wrote sb E v k (Logged.writeData sb k f) P) :
    (∃ m, writeData p i g s = .error (.panic m) ∧
      E (v.emit (Logged.writeData sb k f).trace) (.panic m)) ∨
    ∃ r t w, writeData p i g s = .ok (r,t) ∧ Good sb p w t ∧
      w.log = v.log++(Logged.writeData sb k f).trace ∧ P r w := by
  obtain ⟨hdata,hty⟩ : s.data i = v.data k ∧ (v.inode k).type ≠ 0 := hg.locked hm rfl
  unfold Wrote at hp
  rw [Logged.writeData_result,hf] at hp
  cases hx : g (v.data k) with
  | error m =>
    rw [hx] at hp
    exact .inl ⟨m,bind_error.mpr (.inl (onData_error (hg.mem hm) (hdata ▸ hx : g (s.data i) = _))),hp⟩
  | ok ry =>
    obtain ⟨r,y⟩ := ry
    rw [hx] at hp
    have hx' : g (s.data i) = .ok (r,y) := hdata ▸ hx
    have ht := writeData_exists (hg.mem hm) hx'
    obtain ⟨-,-,-,hsame⟩ := hw _ v.inode k r y ⟨hg.image.own,rfl,hty⟩ (hg.image.full k hty) hx
    have hdisk : (if r = -1 then s.table.dinode i else y.d) = y.d := by
      split
      · rename_i hr
        rw [hg.dinode hm,hsame hr]
      · rfl
    rw [hdisk] at ht
    have hgood : Good sb p (v.write k y (Logged.writeData sb k f).trace) (s.change i y.d y.d y.st) :=
      hg.change hm (hg.base.writeData hw ht) rfl rfl rfl rfl rfl rfl rfl rfl
    exact .inr ⟨r,_,_,ht,hgood,rfl,hp hgood.image⟩

lemma dirwrite {name : List UInt8} {inum : ℕ} : Does sb p E v s (.dirwrite i name inum) := by
  rintro P ⟨k,hm,hp⟩
  have hact : Logged.act sb s (.dirwrite i name inum) =
      (Logged.writeData sb k (sb.logged.dirwrite (v.data k) name inum)).trace := by
    rw [Logged.act,(hg.locked hm rfl).1,hg.inum hm]
  rcases wrote hg hm (Logged.dirwrite_result sb _ name inum) (Base.writes_dirwrite name inum) hp
    with ⟨m,he,hE⟩ | ⟨r,t,w,ht,hgood,hl,hP⟩
  · exact ends_error (bind_error.mpr (.inl he)) (by rw [hact]; rfl) hE
  · exact ends_ok (bind_ok.mpr ⟨r,t,ht,rfl⟩) (by rw [hact,hl]) hgood hP

lemma erase {off : ℕ} : Does sb p E v s (.erase i off) := by
  rintro P ⟨k,hm,hp⟩
  have hact : Logged.act sb s (.erase i off) =
      (Logged.writeData sb k (sb.logged.writeEntry (v.data k) .zero off)).trace := by
    rw [Logged.act,(hg.locked hm rfl).1,hg.inum hm]
  rcases wrote hg hm (Logged.writei_result sb _ off DIRENT _) (Base.writes_writei _ off DIRENT) hp
    with ⟨m,he,hE⟩ | ⟨r,t,w,ht,hgood,hl,hP⟩
  · exact ends_error (bind_error.mpr (.inl he)) (by rw [hact]; rfl) hE
  · split at hP
    · rename_i hr
      refine ends_ok (r := ()) (bind_ok.mpr ⟨r,t,ht,?_⟩) (by rw [hact]; exact hl) hgood hP
      rw [if_neg (not_not.mpr hr)]
      rfl
    · rename_i hr
      refine ends_error (bind_error.mpr (.inr ⟨r,t,ht,?_⟩)) (by rw [hact]; exact hl) hP
      rw [if_pos hr]
      rfl

lemma writei {src : ℕ → ℕ → List UInt8×Bool} {off n : ℕ} :
    Does sb p E v s (.writei i src off n) := by
  rintro P ⟨k,hm,hp⟩
  have hact : Logged.act sb s (.writei i src off n) =
      (Logged.writeData sb k (sb.logged.writei src off n (v.data k))).trace := by
    rw [Logged.act,(hg.locked hm rfl).1,hg.inum hm]
  rcases wrote hg hm (Logged.writei_result sb src off n _) (Base.writes_writei src off n) hp
    with ⟨m,he,hE⟩ | ⟨r,t,w,ht,hgood,hl,hP⟩
  · exact ends_error he (by rw [hact]; rfl) hE
  · exact ends_ok ht (by rw [hact,hl]) hgood hP

lemma set {f : Dinode → Dinode} (P : View → Prop)
    (hp : Set sb v i f P) (hbase : ∀ t, setDinode p i f s = .ok ((),t) → Base sb t) :
    ∃ k t w, ⟨i,k,.locked⟩ ∈ v.held ∧ setDinode p i f s = .ok ((),t) ∧ Good sb p w t ∧
      w.log = v.log++[sb.IBLOCK (s.table.inode i).inum] ∧ P w := by
  obtain ⟨k,hm,hp⟩ := hp
  obtain ⟨t,ht⟩ := setDinode_exists (f := f) (hg.mem hm)
  have hb := hbase t ht
  obtain ⟨-,rfl⟩ := setDinode_ok ht
  have hd : (s.table.inode i).d = v.inode k := congrArg Data.d (hg.locked hm rfl).1
  rw [hd] at hb ht
  have hgood : Good sb p (v.write k ⟨f (v.inode k),v.store⟩ [sb.IBLOCK k])
      (s.change i (f (v.inode k)) (f (v.inode k)) s.store) :=
    hg.change hm hb rfl hg.store.symm rfl rfl rfl rfl rfl rfl
  exact ⟨k,_,_,hm,ht,hgood,by rw [hg.inum hm]; rfl,hp hgood.image⟩

lemma addNlink {δ : ℤ} : Does sb p E v s (.addNlink i δ) := by
  intro P hp
  obtain ⟨k,t,w,-,ht,hgood,hl,hP⟩ := set (f := fun d => { d with nlink := toShort (d.nlink+δ) }) hg
    (P ()) hp fun t ht => hg.base.eval (p := p) (a := .addNlink i δ) (r := ()) ht
  exact ends_ok (r := ()) ht hl hgood hP

lemma clearNlink : Does sb p E v s (.clearNlink i) := by
  intro P hp
  obtain ⟨k,t,w,-,ht,hgood,hl,hP⟩ := set (f := fun d => { d with nlink := 0 }) hg (P ()) hp
    fun t ht => hg.base.eval (p := p) (a := .clearNlink i) (r := ()) ht
  exact ends_ok (r := ()) ht hl hgood hP

lemma setup {major minor : ℤ} : Does sb p E v s (.setup i major minor) := by
  intro P hp
  obtain ⟨k,t,w,-,ht,hgood,hl,hP⟩ := set (f := fun d =>
      { d with major := toShort major, minor := toShort minor, nlink := 1 }) hg (P ()) hp
    fun t ht => hg.base.eval (p := p) (a := .setup i major minor) (r := ()) ht
  exact ends_ok (r := ()) ht hl hgood hP

lemma itrunc : Does sb p E v s (.itrunc i) := by
  rintro P ⟨k,hm,hp⟩
  obtain ⟨st,hdata,hx,htr⟩ := truncates hg hm rfl
  obtain ⟨t,ht⟩ := itrunc_exists (hg.mem hm) (hdata ▸ hx : Data.itrunc (s.data i) = _)
  have hb := hg.base.itrunc ht
  obtain ⟨-,x,hx',rfl⟩ := itrunc_ok ht
  obtain rfl := htr x hx'
  have hres : (do return ((),← Logged.truncate sb k (v.data k)) : Logged (Unit×Data Store)).result =
      .ok ((),⟨(v.inode k).trunc,st⟩) := by
    rw [Traced.bind_result,Logged.truncate_result,hx]
    rfl
  have htrace : (do return ((),← Logged.truncate sb k (v.data k)) : Logged (Unit×Data Store)).trace =
      Logged.act sb s (.itrunc i) := by
    rw [Traced.bind_of_ok (Logged.truncate_result.trans hx),Logged.act,hdata,hg.inum hm]
    exact append_nil _
  unfold Wrote at hp
  rw [hres,htrace] at hp
  have hgood : Good sb p (v.write k ⟨(v.inode k).trunc,st⟩ (Logged.act sb s (.itrunc i)))
      (s.change i (v.inode k).trunc (v.inode k).trunc st) :=
    hg.change hm hb rfl rfl rfl rfl rfl rfl rfl rfl
  exact ends_ok ht rfl hgood (hp hgood.image)

lemma good_inode (hb : Base sb t)
    (hi : t.table.inode = s.table.inode) (hd : t.dinode = w.inode) (hst : t.store = w.store)
    (hs : t.table.scans = w.scans) (hf : t.file = w.file) (hpr : t.proc = w.proc)
    (h₁ : w.held = v.held) (h₂ : w.others = v.others) (h₃ : w.name = v.name) : Good sb p w t := by
  refine ⟨hb,hd,hst,hs,hf,hpr,?_,?_⟩
  · rw [hi,h₁,h₂,h₃]
    exact hg.slot
  · rw [h₂]
    exact hg.idle

lemma good_scan {T : Table} {l : List Scan} (hb : Base sb { s with table := T })
    {l' : List Scan} (hT : T = { s.table with scans := l }) (hl : l = l') :
    Good sb p { v with scans := l' } { s with table := T } := by
  subst hT
  exact good_inode hg hb rfl hg.inode hg.store hl hg.file hg.proc rfl rfl rfl

lemma ialloc {type : ℕ} : Does sb p E v s (.ialloc type) := by
  intro P hp
  have ht : eval sb p (.ialloc type) s = .ok (⟨p.val,ROOTDEV,type,1,false⟩,
    { s with table := { s.table with scans := ⟨p.val,ROOTDEV,type,1,false⟩::s.table.scans } }) := rfl
  exact ends_silent rfl ht hp rfl (good_scan hg (hg.base.eval ht) rfl (by rw [hg.scans]))

lemma scan {c : Scan} : Does sb p E v s (.scan c) := by
  rintro P ⟨hc,hp⟩
  have hc' : c ∈ s.table.scans := by
    rw [hg.scans]
    exact hc
  have hdev : c.dev = ROOTDEV := hg.base.scan c hc'
  have hdin : ∀ k, s.table.disk ROOTDEV k = v.inode k := fun k => congrFun hg.inode k
  split at hp
  · rename_i hf
    have hact : Logged.act sb s (.scan c) = [] := if_neg fun h => by simp [hf] at h
    have hb := hg.base.setScans (l := s.table.scans.erase c) fun c' h =>
      hg.base.scan c' (mem_of_mem_erase h)
    have hg' : Good sb p { v with scans := v.scans.erase c }
        { s with table := { s.table with scans := s.table.scans.erase c } } :=
      good_scan hg hb rfl (by rw [hg.scans])
    rcases hg'.iget c.inum (some c.type) with ⟨hfull,he⟩ | ⟨i,t,ht,hgood⟩
    · refine ends_error (w := { v with scans := v.scans.erase c }) ?_ (by rw [hact,append_nil])
        (hp.1 hfull)
      refine bind_error.mpr (.inr ⟨s,s,rfl,?_⟩)
      rw [if_neg (not_not.mpr hc'),if_pos hf]
      exact bind_error.mpr (.inr ⟨(),_,modify_ok.mpr rfl,bind_error.mpr (.inl he)⟩)
    · refine ends_silent hact (bind_ok.mpr ⟨s,s,rfl,?_⟩) (hp.2 i hgood.wf) rfl hgood
      rw [if_neg (not_not.mpr hc'),if_pos hf]
      exact bind_ok.mpr ⟨(),_,modify_ok.mpr rfl,bind_ok.mpr ⟨i,t,ht,rfl⟩⟩
  · rename_i hf
    have hf' : c.found = false := Bool.eq_false_iff.mpr hf
    have heval : ∀ r, (if c.inum < sb.ninodes then
        if (s.dinode c.inum).type = 0 then (Sum.inl { c with found := true } : Scan⊕Option Slot)
        else .inl { c with inum := c.inum+1 } else .inr none) = r →
      eval sb p (.scan c) s =
        .ok (r,{ s with table := s.table.scan sb.ninodes c }) := by
      rintro r rfl
      refine bind_ok.mpr ⟨s,s,rfl,?_⟩
      rw [if_neg (not_not.mpr hc'),if_neg hf]
      refine bind_ok.mpr ⟨(),_,set_ok.mpr rfl,?_⟩
      split
      · split <;> rfl
      · rfl
    split at hp
    · rename_i hlt
      split at hp
      · rename_i h0
        have h0' : (s.dinode c.inum).type = 0 := by rw [hg.inode]; exact h0
        have ht := heval (.inl { c with found := true }) (by rw [if_pos hlt,if_pos h0'])
        have htab : s.table.scan sb.ninodes c =
            ({ s.table with scans := { c with found := true }::s.table.scans.erase c } : Table).setDisk
              ROOTDEV c.inum (.fresh c.type) := by
          have h0'' : (s.table.disk c.dev c.inum).type = 0 := by rw [hdev]; exact h0'
          rw [Table.scan,if_neg hf,if_pos hlt,if_pos h0'',hdev]
        have hact : Logged.act sb s (.scan c) = [sb.IBLOCK c.inum] := if_pos ⟨hf',hlt,h0'⟩
        have hgood : Good sb p { v with
              inode := update v.inode c.inum (.fresh c.type)
              scans := { c with found := true }::v.scans.erase c
              log := v.log++[sb.IBLOCK c.inum] }
            { s with table := s.table.scan sb.ninodes c } := by
          refine good_inode hg (hg.base.eval ht) (by rw [htab]; rfl) ?_ hg.store ?_ hg.file hg.proc rfl
            rfl rfl
          · funext k
            show (s.table.scan sb.ninodes c).disk ROOTDEV k =
              update v.inode c.inum (.fresh c.type) k
            rw [htab,Table.disk_setDisk,update_apply]
            simp only [true_and]
            split
            · rfl
            · exact hdin k
          · rw [htab,← hg.scans]
            rfl
        exact ends_ok ht (by rw [hact]) hgood (hp hgood.image)
      · rename_i h0
        have h0' : ¬(s.dinode c.inum).type = 0 := by rw [hg.inode]; exact h0
        have ht := heval (.inl { c with inum := c.inum+1 }) (by rw [if_pos hlt,if_neg h0'])
        have htab : s.table.scan sb.ninodes c =
            { s.table with scans := { c with inum := c.inum+1 }::s.table.scans.erase c } := by
          have h0'' : ¬(s.table.disk c.dev c.inum).type = 0 := by rw [hdev]; exact h0'
          rw [Table.scan,if_neg hf,if_pos hlt,if_neg h0'']
        exact ends_silent (if_neg fun h => h0' h.2.2) ht hp rfl
          (good_scan hg (hg.base.eval ht) htab (by rw [hg.scans]))
    · rename_i hlt
      have ht := heval (.inr none) (by rw [if_neg hlt])
      have htab : s.table.scan sb.ninodes c = { s.table with scans := s.table.scans.erase c } := by
        rw [Table.scan,if_neg hf,if_neg hlt]
      exact ends_silent (if_neg fun h => hlt h.2.1) ht hp rfl
        (good_scan hg (hg.base.eval ht) htab (by rw [hg.scans]))

/-! Open files and descriptors. -/

lemma filealloc : Does sb p E v s .filealloc := by
  intro P hp
  simp only [pre] at hp
  cases hf : (List.finRange NFILE).find? fun f => (v.file f).ref = 0 with
  | some f =>
    rw [hf] at hp
    refine ends_silent (r := some f) (t := { s with
      file := update v.file f { v.file f with ref := 1 } }) rfl (bind_ok.mpr ⟨s,s,rfl,?_⟩)
      hp rfl ?_
    · rw [hg.file,hf]
      rfl
    · exact good_inode hg (hg.base.setFiles rfl rfl) rfl hg.inode hg.store hg.scans rfl hg.proc rfl
        rfl rfl
  | none =>
    rw [hf] at hp
    refine ends_silent (r := none) rfl (bind_ok.mpr ⟨s,s,rfl,?_⟩) hp rfl hg
    rw [hg.file,hf]
    rfl

lemma fdalloc {f : Fin NFILE} : Does sb p E v s (.fdalloc f) := by
  intro P hp
  simp only [pre] at hp
  cases hf : (List.finRange NOFILE).find? fun fd => ((v.proc p).ofile fd).isNone with
  | some fd =>
    rw [hf] at hp
    refine ends_silent (r := some fd) (t := { s with proc := update v.proc p { v.proc p with
      ofile := update (v.proc p).ofile fd (some f) } }) rfl (bind_ok.mpr ⟨s,s,rfl,?_⟩) hp rfl
      ?_
    · rw [hg.proc,hf,← hg.proc]
      rfl
    · exact good_inode hg (hg.base.setFiles rfl rfl) rfl hg.inode hg.store hg.scans hg.file rfl rfl
        rfl rfl
  | none =>
    rw [hf] at hp
    refine ends_silent (r := none) rfl (bind_ok.mpr ⟨s,s,rfl,?_⟩) hp rfl hg
    rw [hg.proc,hf]
    rfl

lemma fdget {fd : Fin NOFILE} : Does sb p E v s (.fdget fd) := by
  intro P hp
  refine ends_silent (r := ((s.proc p).ofile fd).map fun f => (f,s.file f)) (w := v) rfl rfl ?_ rfl hg
  rw [hg.proc,hg.file]
  exact hp

lemma fdclear {fd : Fin NOFILE} : Does sb p E v s (.fdclear fd) := by
  intro P hp
  refine ends_silent (r := ()) (t := { s with proc := update s.proc p { s.proc p with
    ofile := update (s.proc p).ofile fd none } }) rfl rfl hp rfl ?_
  exact good_inode hg (hg.base.setFiles rfl rfl) rfl hg.inode hg.store hg.scans hg.file
    (by rw [hg.proc]) rfl rfl rfl

lemma openFile {f : Fin NFILE} {omode : ℕ} : Does sb p E v s (.openFile f i omode) := by
  rintro P ⟨k,hm,hp⟩
  have hd : (s.table.inode i).d = v.inode k := congrArg Data.d (hg.locked hm rfl).1
  refine ends_silent (r := ()) (t := { s with
    file := update s.file f ((s.file f).opened (s.table.inode i).d p i omode) }) rfl rfl hp rfl
    ?_
  exact good_inode hg (hg.base.setFiles rfl rfl) rfl hg.inode hg.store hg.scans
    (by rw [hg.file,hd]) hg.proc rfl rfl rfl

lemma setCwd {j : Option Slot} : Does sb p E v s (.setCwd j) := by
  intro P hp
  refine ends_silent (r := ()) (t := { s with proc := update s.proc p { s.proc p with
    cwd := j, leaving := false } }) rfl rfl hp rfl ?_
  exact good_inode hg (hg.base.setFiles rfl rfl) rfl hg.inode hg.store hg.scans hg.file
    (by rw [hg.proc]) rfl rfl rfl

lemma good_take {q : Fin NPROC} {m : Mode} (hi : (q.val,.idle) ∈ v.others i)
    (hs : m ≠ .seen) (hb : Base sb t) (hrefs : (t.table.inode i).refs.Perm
      ((p.val,m.stage)::(s.table.inode i).refs.erase (q.val,.idle)))
    (hnum : (t.table.inode i).inum = (s.table.inode i).inum)
    (hvalid : (s.table.inode i).valid → (t.table.inode i).valid)
    (hj : ∀ j, j ≠ i → t.table.inode j = s.table.inode j) (hd : t.dinode = s.dinode)
    (hst : t.store = s.store) (hsc : t.table.scans = s.table.scans) (hf : t.file = w.file)
    (hpr : t.proc = w.proc) (h₁ : w.inode = v.inode) (h₂ : w.store = v.store)
    (h₃ : w.scans = v.scans) (h₄ : w.held = (v.take i q m).held)
    (h₅ : w.others = (v.take i q m).others) (h₆ : w.name = v.name) : Good sb p w t := by
  have hothers : w.others i = (v.others i).erase (q.val,.idle) := by
    rw [h₅]
    exact update_self _ _ _
  refine hg.of_slot i hb (by rw [hd,h₁]; exact hg.inode) (by rw [hst,h₂]; exact hg.store)
    (by rw [hsc,h₃]; exact hg.scans) hf hpr ?_ ?_ fun j hji => ⟨hj j hji,?_,?_,by rw [h₆]⟩
  · rw [h₄,hothers,h₆,View.take,mine_cons_self ⟨i,v.name i,m⟩ v.held]
    have hne : v.others i ≠ [] := ne_nil_of_mem hi
    refine ⟨?_,?_,fun _ => hnum.trans ((hg.slot i).name hne),?_⟩
    · refine hrefs.trans (List.Perm.cons _ ?_)
      have hmid : ((mine v.held i).map (fun h => (p.val,h.mode.stage))++v.others i).Perm
          ((q.val,.idle)::((mine v.held i).map (fun h => (p.val,h.mode.stage))++
            (v.others i).erase (q.val,.idle))) :=
        ((perm_cons_erase hi).append_left _).trans perm_middle
      have := ((hg.slot i).refs.trans hmid).erase (q.val,.idle)
      rwa [erase_cons_head] at this
    · rw [hnum]
      exact forall_mem_cons.mpr ⟨(hg.slot i).name hne,(hg.slot i).inum⟩
    · exact forall_mem_cons.mpr ⟨fun h => absurd h hs,
        fun g hg' hm => hvalid ((hg.slot i).seen g hg' hm)⟩
  · rw [hothers]
    exact fun r hr => hg.idle i r (mem_of_mem_erase hr)
  · rw [h₄,View.take,mine_cons_ne (h := ⟨i,v.name i,m⟩) hji]
  · rw [h₅]
    exact update_of_ne hji _ _

end

lemma pass_exists {q : Fin NPROC} (hi : (q.val,.idle) ∈ (s.table.inode i).refs) :
    entryOp q i (.pass p.val) s =
      .ok ((),s.put i (passedEntry (s.table.inode i) q p) (s.table.dinode i)) :=
  entryOp_eq (if_pos hi)

section
variable (hg : Good sb p v s)
include hg

/-- The disk is as it was after a step with an entry that is in use. -/
lemma put_same_dinode (hne : (s.table.inode i).refs ≠ []) (n : Entry) :
    (s.put i n (s.table.dinode i)).dinode = s.dinode := by
  rw [hg.base.put_dinode hne,hg.base.dinode_eq hne,update_eq_self]

lemma fileclose {f : Fin NFILE} : Does sb p E v s (.fileclose f) := by
  intro P hp
  simp only [pre,← hg.file] at hp
  split at hp
  · rename_i hlt
    refine ends_error (w := v) (bind_error.mpr (.inr ⟨s,s,rfl,?_⟩)) (append_nil _).symm hp
    dsimp only
    rw [if_pos hlt]
    rfl
  · rename_i hlt
    split at hp
    · rename_i hgt
      refine ends_silent (r := none) (t := { s with
        file := update s.file f { s.file f with ref := (s.file f).ref-1 } }) rfl
        (bind_ok.mpr ⟨s,s,rfl,?_⟩) hp rfl ?_
      · dsimp only
        rw [if_neg hlt,if_pos hgt]
        rfl
      · exact good_inode hg (hg.base.setFiles rfl rfl) rfl hg.inode hg.store hg.scans rfl hg.proc rfl
          rfl rfl
    · rename_i hgt
      split at hp
      · rename_i hk
        refine ends_silent (r := none) (t := { s with
          file := update s.file f (s.file f).closed }) rfl (bind_ok.mpr ⟨s,s,rfl,?_⟩) hp rfl ?_
        · dsimp only
          rw [if_neg hlt,if_neg hgt]
          refine bind_ok.mpr ⟨(),_,set_ok.mpr rfl,?_⟩
          rw [if_pos hk]
          rfl
        · exact good_inode hg (hg.base.setFiles rfl rfl) rfl hg.inode hg.store hg.scans rfl hg.proc rfl
            rfl rfl
      · rename_i hk
        obtain ⟨ho,hi,hp⟩ := hp
        have ht : eval sb p (.fileclose f) s = .ok (some (s.file f).ip,
            { s.put (s.file f).ip (passedEntry (s.table.inode (s.file f).ip) (s.file f).owner p)
                (s.table.dinode (s.file f).ip) with
              file := update s.file f (s.file f).closed }) := by
          refine bind_ok.mpr ⟨s,s,rfl,?_⟩
          dsimp only
          rw [if_neg hlt,if_neg hgt]
          refine bind_ok.mpr ⟨(),_,set_ok.mpr rfl,?_⟩
          rw [if_neg hk,if_neg (by rw [ho]; decide)]
          exact bind_ok.mpr ⟨(),_,pass_exists (s := { s with
            file := update s.file f (s.file f).closed }) (hg.other_mem hi),rfl⟩
        refine ends_silent rfl ht hp rfl (good_take hg hi (by decide) (hg.base.fileclose ht) ?_ ?_ ?_ ?_
          (put_same_dinode hg (ne_nil_of_mem (hg.other_mem hi)) _) rfl rfl rfl ?_ rfl rfl rfl rfl
          rfl rfl)
        · exact .of_eq (congrArg Entry.refs (put_inode ..))
        · exact (congrArg Entry.inum (put_inode ..)).trans rfl
        · intro h
          exact (congrArg Entry.valid (put_inode ..)).trans h
        · exact fun j hj => put_inode_ne _ _ _ _ hj
        · exact hg.proc

lemma leaveCwd : Does sb p E v s .leaveCwd := by
  rintro P ⟨i,hc,hi,hp⟩
  have ht : Fs.leaveCwd p s = .ok (i,{ s with
      proc := update s.proc p { s.proc p with leaving := true } }) := by
    refine bind_ok.mpr ⟨s,s,rfl,?_⟩
    rw [hg.proc,hc,← hg.proc]
    rfl
  refine ends_silent rfl ht hp rfl (good_take hg hi (by decide) (hg.base.setFiles rfl rfl) ?_ rfl id
    (fun _ _ => rfl) rfl rfl rfl hg.file ?_ rfl rfl rfl rfl rfl rfl)
  · exact perm_cons_erase (hg.other_mem hi)
  · show update s.proc p { s.proc p with leaving := true } = _
    rw [hg.proc]

lemma lockFile {f : Fin NFILE} : Does sb p E v s (.lockFile f) := by
  intro P hp
  simp only [pre,← hg.file] at hp
  obtain ⟨ho,hi,hl,hty,hp⟩ := hp
  have hmem := hg.other_mem hi
  have hne := ne_nil_of_mem hmem
  have hd : s.table.dinode (s.file f).ip = v.inode (v.name (s.file f).ip) := by
    rw [hg.base.dinode_eq hne,hg.inode,(hg.slot _).name (ne_nil_of_mem hi)]
  have hput : ((s.put (s.file f).ip (passedEntry (s.table.inode (s.file f).ip) (s.file f).owner p)
      (s.table.dinode (s.file f).ip)).table.inode (s.file f).ip) =
      passedEntry (s.table.inode (s.file f).ip) (s.file f).owner p := put_inode ..
  obtain ⟨u,hu⟩ := ilock_exists (p := p) (i := (s.file f).ip) (s := s.put (s.file f).ip
      (passedEntry (s.table.inode (s.file f).ip) (s.file f).owner p) (s.table.dinode (s.file f).ip))
    (by rw [hput]; exact mem_cons_self)
    (by
      rw [hput]
      show 1 ≤ (s.table.inode (s.file f).ip).ref
      rw [(hg.base.sync _).ref_eq]
      exact length_pos_of_mem hmem)
    (by rw [hput]; exact hg.holder.mpr hl)
    (fun _ => by rw [put_dinode (n := passedEntry _ _ _) rfl rfl,hd]; exact hty)
  have ht : ∃ t, Fs.lockFile p f s = .ok ((s.file f).ip,t) := by
    refine ⟨{ u with file := update u.file f { u.file f with owned := false } },
      bind_ok.mpr ⟨s,s,rfl,?_⟩⟩
    dsimp only
    rw [if_neg (by rw [ho]; decide)]
    exact bind_ok.mpr ⟨(),_,pass_exists hmem,bind_ok.mpr ⟨(),_,hu,bind_ok.mpr ⟨(),_,modify_ok.mpr rfl,
      rfl⟩⟩⟩
  obtain ⟨t,ht⟩ := ht
  have hb := hg.base.lockFile ht
  obtain ⟨-,-,-,-,-,rfl⟩ := lockFile_ok ht
  refine ends_silent rfl ht hp rfl (good_take hg hi (by decide) hb ?_ ?_ ?_ ?_
    (put_same_dinode hg hne _) rfl rfl rfl ?_ rfl rfl rfl rfl rfl rfl)
  · refine .of_eq ((congrArg Entry.refs (put_inode ..)).trans ?_)
    show (p.val,_)::List.erase (_::_) _ = _
    rw [erase_cons_head]
    rfl
  · exact (congrArg Entry.inum (put_inode ..)).trans rfl
  · intro _
    exact congrArg Entry.valid (put_inode ..)
  · exact fun j hj => put_inode_ne _ _ _ _ hj
  · exact hg.proc

lemma unlockFile {f : Fin NFILE} : Does sb p E v s (.unlockFile f i) := by
  rintro P ⟨k,hm,hp⟩
  have hd : s.table.dinode i = v.inode k := hg.dinode hm
  have hne : (s.table.inode i).refs ≠ [] := ne_nil_of_mem (hg.mem hm)
  obtain ⟨hn,hv⟩ := (hg.base.sync i).held _ (hg.mem hm) rfl
  have hu := iunlock_exists (hg.mem hm) (hg.ref_pos hm) hn
  have ht : eval sb p (.unlockFile f i) s = .ok ((),{ s.put i
      { (s.table.inode i).move p.val .hold .idle with holder := none } (s.table.dinode i) with
      file := update s.file f { s.file f with owner := p, owned := true } }) :=
    bind_ok.mpr ⟨(),_,hu,modify_ok.mpr rfl⟩
  refine ends_silent rfl ht hp rfl ?_
  have hothers : (v.leave ⟨i,k,.locked⟩ p).others i = (p.val,.idle)::v.others i :=
    update_self _ _ _
  have hname : (v.leave ⟨i,k,.locked⟩ p).name i = k := update_self _ _ _
  refine hg.of_slot i (hg.base.eval ht) ((put_same_dinode hg hne _).trans hg.inode) hg.store hg.scans
    (by rw [← hg.file]) hg.proc ?_ ?_ fun j hj => ⟨put_inode_ne _ _ _ _ hj,?_,?_,?_⟩
  · have hentry : ({ s.put i { (s.table.inode i).move p.val .hold .idle with holder := none }
        (s.table.dinode i) with file := update s.file f { s.file f with
          owner := p, owned := true } } : State).table.inode i =
        { (s.table.inode i).move p.val .hold .idle with holder := none } := put_inode ..
    rw [hentry]
    refine ⟨?_,?_,fun _ => ?_,fun _ _ _ => hv⟩
    · show ((p.val,Stage.idle)::(s.table.inode i).refs.erase (p.val,.hold)).Perm
        ((mine (v.held.erase ⟨i,k,.locked⟩) i).map _++(v.leave ⟨i,k,.locked⟩ p).others i)
      rw [hothers]
      exact ((hg.erase_refs hm).cons _).trans perm_middle.symm
    · intro g hg'
      obtain ⟨h₁,h₂⟩ := mem_mine.mp hg'
      have := hg.inum (mem_of_mem_erase h₁)
      rw [h₂] at this
      exact this
    · exact (hg.inum hm).trans hname.symm
  · show ∀ r ∈ (v.leave ⟨i,k,.locked⟩ p).others i, r.2 = .idle
    rw [hothers]
    exact forall_mem_cons.mpr ⟨rfl,hg.idle i⟩
  · exact mine_erase_ne hm hj
  · exact update_of_ne hj _ _
  · exact update_of_ne hj _ _

end

variable (sb p E) in
/-- Every action ends as described. -/
theorem sound {a : Act} {P : a.Ret → View → Prop} (hg : Good sb p v s)
    (hp : (spec sb p E).pre a v P) : EndsAs sb p E a v s P := by
  cases a with
  | iget k => exact iget hg P hp
  | idupCwd => exact idupCwd hg P hp
  | ilock i => exact ilock hg P hp
  | iunlock i => exact iunlock hg P hp
  | iputTest i => exact iputTest hg P hp
  | iputFree i => exact iputFree hg P hp
  | iputDrop i => exact iputDrop hg P hp
  | peek i => exact peek hg P hp
  | dirlookup dp name => exact dirlookup hg P hp
  | dirwrite dp name inum => exact dirwrite hg P hp
  | isdirempty i => exact isdirempty hg P hp
  | erase dp off => exact erase hg P hp
  | addNlink i δ => exact addNlink hg P hp
  | clearNlink i => exact clearNlink hg P hp
  | setup i major minor => exact setup hg P hp
  | itrunc i => exact itrunc hg P hp
  | readi i off n => exact readi hg P hp
  | writei i src off n => exact writei hg P hp
  | ialloc type => exact ialloc hg P hp
  | scan c => exact scan hg P hp
  | filealloc => exact filealloc hg P hp
  | fdalloc f => exact fdalloc hg P hp
  | fdget fd => exact fdget hg P hp
  | fdclear fd => exact fdclear hg P hp
  | fileclose f => exact fileclose hg P hp
  | openFile f i omode => exact openFile hg P hp
  | unlockFile f i => exact unlockFile hg P hp
  | lockFile f => exact lockFile hg P hp
  | leaveCwd => exact leaveCwd hg P hp
  | setCwd j => exact setCwd hg P hp
  | fork q => exact hp.elim
  | nlinkPanic => exact ends_error rfl (append_nil _).symm hp

/-- A program that runs alone ends as it is proved to do over views. -/
theorem ends {α : Type} {x : Code α} {Q : α → View → Prop} (hg : Good sb p v s)
    (hx : x.Wp (spec sb p E) v Q) :
    Lib.Prog.Ends (Good sb p) View.log E Q v (x.traced (evalLogged sb p) s) :=
  hx.ends (fun hg hp => sound sb p E hg hp) hg

end Solo
end Xv6.Fs
