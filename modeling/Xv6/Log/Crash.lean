import Xv6.Log.Program
import Xv6.Lib.Writes

/-! Crash atomicity of the log. `commit` and `recover_from_log` are run as the sequences of
single-block writes they perform, and may stop after any of them. -/
namespace Xv6.Log
open Xv6.Lib List
open Function (update update_self update_of_ne)

/-- A running kernel as far as the log sees it. `buf b` is what `bread` returns for block `b`:
the cached contents, or those on disk when the block is not cached. -/
structure Mach where
  disk : Disk
  buf : Disk
  lh : LogHeader

namespace Mach

def exec (m : Mach) : Stmt → Mach
  | .memmove dst src => { m with buf := update m.buf dst (m.buf src) }
  | .putHead b => { m with buf := update m.buf b (m.lh.fill (m.buf b)) }
  | .getHead b => { m with lh := LogHeader.read (m.buf b) }
  | .bwrite b => { m with disk := update m.disk b (m.buf b) }
  | .clear => { m with lh := { m.lh with n := 0 } }
  | .bread _ | .bunpin _ | .brelse _ => m

def run (m : Mach) (ss : List Stmt) : Mach := ss.foldl exec m

/-- The `bwrite`s performed by a list of statements, in order. -/
def writes (m : Mach) : List Stmt → List (ℕ × Block)
  | [] => []
  | .bwrite b::ss => (b,m.buf b)::writes (m.exec (.bwrite b)) ss
  | s::ss => writes (m.exec s) ss

lemma run_append (m : Mach) (ss rs : List Stmt) : m.run (ss++rs) = (m.run ss).run rs :=
  foldl_append

lemma writes_append (m : Mach) (ss rs : List Stmt) :
    m.writes (ss++rs) = m.writes ss++(m.run ss).writes rs := by
  induction ss generalizing m with
  | nil => rfl
  | cons s ss ih => cases s <;> simp [writes,run,ih]

theorem run_disk (m : Mach) (ss : List Stmt) : (m.run ss).disk = applyWrites m.disk (m.writes ss) := by
  induction ss generalizing m with
  | nil => rfl
  | cons s ss ih =>
    change ((m.exec s).run ss).disk = _
    rw [ih]
    cases s <;> rfl

/-- The machine after a reboot: nothing cached, and the log header still to be read. -/
def boot (d : Disk) : Mach := ⟨d,d,⟨0,fun _ => 0⟩⟩

end Mach

section Loops
variable (L : Layout)

/-- A loop of `log.c` over the log: it writes the `dst t` in order, from the unchanged
buffers `src t`. Both `write_log` and `install_trans` have this form. -/
lemma loop_writes (m : Mach) (body : ℕ → List Stmt) (dst src : ℕ → ℕ) (ts : List ℕ)
    (hbody : ∀ t ∈ ts, ∀ m : Mach, m.writes (body t) = [(dst t,m.buf (src t))] ∧
      m.run (body t) = ⟨update m.disk (dst t) (m.buf (src t)),
        update m.buf (dst t) (m.buf (src t)),m.lh⟩)
    (hsep : ∀ t ∈ ts, ∀ u ∈ ts, src t ≠ dst u) :
    m.writes (ts.flatMap body) = ts.map (fun t => (dst t,m.buf (src t))) ∧
    (m.run (ts.flatMap body)).buf = applyWrites m.buf (ts.map fun t => (dst t,m.buf (src t))) ∧
    (m.run (ts.flatMap body)).lh = m.lh := by
  induction ts generalizing m with
  | nil => exact ⟨rfl,rfl,rfl⟩
  | cons t ts ih =>
    obtain ⟨hw,hr⟩ := hbody t mem_cons_self m
    obtain ⟨h₁,h₂,h₃⟩ := ih (m.run (body t)) (fun u hu => hbody u (mem_cons_of_mem _ hu))
      (fun u hu v hv => hsep u (mem_cons_of_mem _ hu) v (mem_cons_of_mem _ hv))
    have hsrc : ts.map (fun u => (dst u,(m.run (body t)).buf (src u))) =
        ts.map (fun u => (dst u,m.buf (src u))) := by
      apply map_congr_left
      intro u hu
      rw [hr]
      simp only
      rw [update_of_ne (hsep u (mem_cons_of_mem _ hu) t mem_cons_self)]
    rw [hsrc] at h₁ h₂
    rw [flatMap_cons,Mach.writes_append,Mach.run_append]
    refine ⟨?_,?_,?_⟩
    · rw [hw,h₁]; rfl
    · rw [h₂,hr]; rfl
    · rw [h₃,hr]

end Loops

/-- What `write_log` writes: the cached contents, into the data blocks of the log. -/
def logWrites (L : Layout) (m : Mach) : List (ℕ × Block) :=
  (List.range m.lh.n).map fun t => (L.start+t+1,m.buf (m.lh.block t))

/-- What installing the transaction writes: the cached contents, to the home blocks. -/
def homeWrites (m : Mach) : List (ℕ × Block) :=
  (List.range m.lh.n).map fun t => (m.lh.block t,m.buf (m.lh.block t))

variable {L : Layout} {m : Mach}

lemma mem_logWrites {w : ℕ × Block} (h : w ∈ logWrites L m) : ∃ t < m.lh.n, w.1 = L.start+t+1 := by
  obtain ⟨t,ht,rfl⟩ := mem_map.mp h
  exact ⟨t,mem_range.mp ht,rfl⟩

lemma logWrites_nodup (L : Layout) (m : Mach) : ((logWrites L m).map Prod.fst).Nodup := by
  rw [logWrites,map_map]
  exact List.Nodup.map (fun a b e => by simpa using e) nodup_range

lemma outside_ne {lh : LogHeader} (h : lh.Fits L) {t u : ℕ} (ht : t < lh.n)
    (hu : u < lh.n) : lh.block t ≠ L.start+u+1 := by
  have hs := h.lt_size
  intro e
  exact h.outside t ht ⟨by omega,by omega⟩

lemma writeLog_spec (L : Layout) (m : Mach) (h : m.lh.Fits L) :
    m.writes (writeLog L m.lh) = logWrites L m ∧
    (m.run (writeLog L m.lh)).buf = applyWrites m.buf (logWrites L m) ∧
    (m.run (writeLog L m.lh)).lh = m.lh := by
  apply loop_writes
  · intro t _ m'
    simp [writeLogBody,Mach.writes,Mach.run,Mach.exec]
  · intro t ht u hu
    exact outside_ne h (mem_range.mp ht) (mem_range.mp hu)

lemma writeHead_spec (L : Layout) (m : Mach) :
    m.writes (writeHead L) = [(L.start,m.lh.fill (m.buf L.start))] ∧
    (m.run (writeHead L)).buf = update m.buf L.start (m.lh.fill (m.buf L.start)) ∧
    (m.run (writeHead L)).lh = m.lh := by
  simp [writeHead,Mach.writes,Mach.run,Mach.exec]

/-- `log.lh.n = 0; write_head()`, the end of both `commit` and `recover_from_log`. -/
lemma clear_writes (L : Layout) (m : Mach) : m.writes ([.clear]++writeHead L) =
    [(L.start,LogHeader.fill ⟨0,m.lh.block⟩ (m.buf L.start))] := by
  simp [writeHead,Mach.writes,Mach.exec]

lemma installTrans_spec (L : Layout) (r : Bool) (m : Mach) (lh : LogHeader)
    (hsep : ∀ t < lh.n, ∀ u < lh.n, L.start+t+1 ≠ lh.block u) :
    m.writes (installTrans L r lh) =
      (List.range lh.n).map (fun t => (lh.block t,m.buf (L.start+t+1))) ∧
    (m.run (installTrans L r lh)).buf = applyWrites m.buf
      ((List.range lh.n).map fun t => (lh.block t,m.buf (L.start+t+1))) ∧
    (m.run (installTrans L r lh)).lh = m.lh := by
  apply loop_writes
  · intro t _ m'
    cases r <;> simp [installBody,Mach.writes,Mach.run,Mach.exec]
  · intro t ht u hu
    exact hsep t (mem_range.mp ht) u (mem_range.mp hu)

lemma commit_writes (L : Layout) (m : Mach) (h : m.lh.Fits L) (hn : 0 < m.lh.n) :
    ∃ hb, m.writes (commit L m.lh) = logWrites L m++(L.start,m.lh.fill (m.buf L.start))::
      (homeWrites m++[(L.start,LogHeader.fill ⟨0,m.lh.block⟩ hb)]) := by
  obtain ⟨w₁,b₁,l₁⟩ := writeLog_spec L m h
  have hs := h.lt_size
  generalize hm₁ : m.run (writeLog L m.lh) = m₁ at b₁ l₁
  have hstart : m₁.buf L.start = m.buf L.start := by
    rw [b₁]
    apply applyWrites_of_not_mem
    intro w hw
    obtain ⟨t,ht,e⟩ := mem_logWrites hw
    omega
  obtain ⟨w₂,b₂,l₂⟩ := writeHead_spec L m₁
  generalize hm₂ : m₁.run (writeHead L) = m₂ at b₂ l₂
  -- the log blocks now hold the cached contents, which is what installing copies home
  have hlog (t : ℕ) (ht : t < m.lh.n) : m₂.buf (L.start+t+1) = m.buf (m.lh.block t) := by
    rw [b₂,update_of_ne (by omega),b₁]
    exact applyWrites_of_mem m.buf _ (logWrites_nodup L m)
      (mem_map.mpr ⟨t,mem_range.mpr ht,rfl⟩)
  obtain ⟨w₃,b₃,l₃⟩ := installTrans_spec L false m₂ m.lh
    (fun t ht u hu => (outside_ne h hu ht).symm)
  have hhome : (List.range m.lh.n).map (fun t => (m.lh.block t,m₂.buf (L.start+t+1))) =
      homeWrites m := by
    apply map_congr_left
    intro t ht
    rw [hlog t (mem_range.mp ht)]
  rw [hhome] at w₃
  have hlh : m₂.lh = m.lh := l₂.trans l₁
  have hcommit : commit L m.lh = writeLog L m.lh++(writeHead L++
      (installTrans L false m.lh++([.clear]++writeHead L))) := by
    simp [commit,hn]
  refine ⟨(m₂.run (installTrans L false m.lh)).buf L.start,?_⟩
  rw [hcommit,Mach.writes_append,hm₁,w₁,Mach.writes_append,hm₂,w₂,Mach.writes_append,w₃,
    clear_writes,l₁,hstart,l₃,hlh]
  rfl

/-- The disk after a crash when `k` of the writes of `commit` have been performed. -/
def crashAt (L : Layout) (m : Mach) (k : ℕ) : Disk :=
  applyWrites m.disk ((m.writes (commit L m.lh)).take k)

/-- The writes of `recover_from_log` on a freshly booted machine. -/
def recoverWrites (L : Layout) (d : Disk) : List (ℕ × Block) :=
  let m := (Mach.boot d).run (readHead L)
  m.writes (recoverRest L m.lh)

/-- Reboots until some run of `recover_from_log` completes; any number of runs before it
may crash after any of their writes. -/
inductive Recovers (L : Layout) : Disk → Disk → Prop
  | complete (d) : Recovers L d (applyWrites d (recoverWrites L d))
  | crash {d r} (k : ℕ) (again : Recovers L (applyWrites d ((recoverWrites L d).take k)) r) :
      Recovers L d r

/-- Equality of all blocks outside the log area. -/
def EqOutside (L : Layout) (d e : Disk) : Prop := ∀ b, ¬L.Area b → d b = e b

/-- The header on disk. -/
def head (L : Layout) (d : Disk) : LogHeader := LogHeader.read (d L.start)

/-- What installing the transaction recorded on disk writes. -/
def installs (L : Layout) (d : Disk) : List (ℕ × Block) :=
  (List.range (head L d).n).map fun t => ((head L d).block t,d (L.start+t+1))

/-- The disk a recovery from `d` is to produce, outside the log area. -/
def replayed (L : Layout) (d : Disk) : Disk := applyWrites d (installs L d)

/-- The transaction recorded on disk stays clear of the log area. -/
structure Sound (L : Layout) (d : Disk) : Prop where
  lt_size : (head L d).n < L.size
  outside : ∀ t < (head L d).n, ¬L.Area ((head L d).block t)

lemma area_start (L : Layout) : L.Area L.start := ⟨le_rfl,by have := L.size_pos; omega⟩

lemma recoverWrites_eq (L : Layout) (d : Disk) (h : Sound L d) :
    ∃ hb, recoverWrites L d =
      installs L d++[(L.start,LogHeader.fill ⟨0,(head L d).block⟩ hb)] := by
  have hs := h.lt_size
  have hm : (Mach.boot d).run (readHead L) = ⟨d,d,head L d⟩ := rfl
  obtain ⟨w,b,l⟩ := installTrans_spec L true ⟨d,d,head L d⟩ (head L d) (by
    intro t ht u hu e
    exact h.outside u hu ⟨by omega,by omega⟩)
  unfold recoverWrites
  rw [hm]
  simp only [recoverRest,append_assoc]
  rw [Mach.writes_append,w,clear_writes,l]
  exact ⟨_,rfl⟩

variable {d e r : Disk}

/-- Writes outside the log area change neither the recorded transaction nor what it installs. -/
lemma installs_congr (hs : (head L d).n < L.size)
    (h : ∀ b, L.Area b → e b = d b) : head L e = head L d ∧ installs L e = installs L d := by
  have hh : head L e = head L d := by rw [head,h _ (area_start L)]; rfl
  refine ⟨hh,?_⟩
  unfold installs
  rw [hh]
  apply map_congr_left
  intro t ht
  have ht := mem_range.mp ht
  rw [h (L.start+t+1) ⟨by omega,by omega⟩]

lemma Sound.congr (h : Sound L d) (he : head L e = head L d) : Sound L e := by
  constructor
  · rw [he]; exact h.lt_size
  · rw [he]; exact h.outside

lemma sound_of_clear (h : (head L d).n = 0) : Sound L d := by
  constructor
  · rw [h]; exact L.size_pos
  · intro t ht; omega

lemma replayed_of_clear (h : (head L d).n = 0) : replayed L d = d := by
  simp [replayed,installs,h]

/-- Part of an installation, repeated or not, does not change what a recovery will produce. -/
lemma replayed_of_partial (h : Sound L d) (k : ℕ) :
    Sound L (applyWrites d ((installs L d).take k)) ∧
    replayed L (applyWrites d ((installs L d).take k)) = replayed L d := by
  have ha : ∀ b, L.Area b → applyWrites d ((installs L d).take k) b = d b := by
    intro b hb
    apply applyWrites_of_not_mem
    intro w hw e
    obtain ⟨t,ht,rfl⟩ := mem_map.mp (mem_of_mem_take hw)
    subst e
    exact h.outside t (mem_range.mp ht) hb
  obtain ⟨hh,hi⟩ := installs_congr h.lt_size ha
  refine ⟨h.congr hh,?_⟩
  unfold replayed
  rw [hi]
  exact applyWrites_absorb d _ _ fun w hw => ⟨w,mem_of_mem_take hw,rfl⟩

lemma eqOutside_update {b : ℕ} (hb : L.Area b) (v : Block) : EqOutside L (update d b v) d := by
  intro c hc
  exact update_of_ne (fun e : c = b => hc (e ▸ hb)) _ _

lemma EqOutside.trans {a b c : Disk} (h : EqOutside L a b) (h' : EqOutside L b c) :
    EqOutside L a c := fun x hx => (h x hx).trans (h' x hx)

lemma recover_cleared (hb : Block) (lh : LogHeader) :
    (head L (update d L.start (LogHeader.fill ⟨0,lh.block⟩ hb))).n = 0 := by
  unfold head
  rw [update_self]
  exact read_fill_zero _ _ rfl

theorem recover_complete (h : Sound L d) :
    EqOutside L (applyWrites d (recoverWrites L d)) (replayed L d) ∧
    (head L (applyWrites d (recoverWrites L d))).n = 0 := by
  obtain ⟨hb,e⟩ := recoverWrites_eq L d h
  rw [e,applyWrites_append]
  exact ⟨eqOutside_update (area_start L) _,recover_cleared hb _⟩

/-- A crash at any point of `recover_from_log` leaves a disk from which recovery still
produces the same blocks. -/
theorem recover_crash (h : Sound L d) (k : ℕ) :
    Sound L (applyWrites d ((recoverWrites L d).take k)) ∧
    EqOutside L (replayed L (applyWrites d ((recoverWrites L d).take k))) (replayed L d) := by
  obtain ⟨hb,e⟩ := recoverWrites_eq L d h
  rcases Nat.lt_or_ge (installs L d).length k with hk | hk
  · rw [take_of_length_le (by rw [e]; simp; omega)]
    obtain ⟨h₁,h₂⟩ := recover_complete h
    exact ⟨sound_of_clear h₂,by rw [replayed_of_clear h₂]; exact h₁⟩
  · rw [e,take_append_of_le_length hk]
    obtain ⟨h₁,h₂⟩ := replayed_of_partial h k
    exact ⟨h₁,fun b _ => by rw [h₂]⟩

/-- However often recovery is interrupted, the completed run produces the replayed disk. -/
theorem Recovers.spec (hr : Recovers L d r) (h : Sound L d) :
    EqOutside L r (replayed L d) ∧ (head L r).n = 0 := by
  induction hr with
  | complete d => exact recover_complete h
  | crash k _ ih =>
    obtain ⟨h₁,h₂⟩ := recover_crash h k
    obtain ⟨h₃,h₄⟩ := ih h₁
    exact ⟨h₃.trans h₂,h₄⟩

/-- The disk with every logged block replaced by its cached contents. -/
def committed (m : Mach) : Disk := fun b => if b ∈ m.lh.blocks then m.buf b else m.disk b

lemma applyWrites_home (m : Mach) (d : Disk) (b : ℕ) :
    applyWrites d (homeWrites m) b = if b ∈ m.lh.blocks then m.buf b else d b := by
  have hw : homeWrites m = m.lh.blocks.map fun b => (b,m.buf b) := by
    simp [homeWrites,LogHeader.blocks]
  rw [hw]
  induction m.lh.blocks generalizing d with
  | nil => simp
  | cons c cs ih =>
    rw [map_cons,applyWrites_cons,ih]
    by_cases hb : b ∈ cs
    · simp [hb]
    · by_cases e : b = c
      · subst e; simp [hb]
      · simp [hb,e]

lemma committed_eq (m : Mach) : committed m = applyWrites m.disk (homeWrites m) := by
  funext b
  rw [applyWrites_home]
  rfl

lemma logWrites_outside (h : m.lh.Fits L) (d : Disk) (k : ℕ) :
    EqOutside L (applyWrites d ((logWrites L m).take k)) d ∧
    applyWrites d ((logWrites L m).take k) L.start = d L.start := by
  have hs := h.lt_size
  constructor
  · intro b hb
    apply applyWrites_of_not_mem
    intro w hw e
    obtain ⟨t,ht,e'⟩ := mem_logWrites (mem_of_mem_take hw)
    exact hb ⟨by omega,by omega⟩
  · apply applyWrites_of_not_mem
    intro w hw e
    obtain ⟨t,ht,e'⟩ := mem_logWrites (mem_of_mem_take hw)
    omega

/-- The disk right after the first `write_head`, the commit point. -/
def headWritten (L : Layout) (m : Mach) : Disk :=
  update (applyWrites m.disk (logWrites L m)) L.start (m.lh.fill (m.buf L.start))

/-- It records exactly the transaction, and differs from the old disk in the log only. -/
lemma headWritten_spec (h : m.lh.Fits L) :
    installs L (headWritten L m) = homeWrites m ∧ Sound L (headWritten L m) ∧
    EqOutside L (headWritten L m) m.disk := by
  have hs := h.lt_size
  have hhead : head L (headWritten L m) = LogHeader.read (m.lh.fill (m.buf L.start)) := by
    simp [head,headWritten]
  obtain ⟨hn,hb⟩ := read_fill h (m.buf L.start)
  rw [← hhead] at hn hb
  refine ⟨?_,⟨by rw [hn]; exact hs,?_⟩,?_⟩
  · unfold installs homeWrites
    rw [hn]
    apply map_congr_left
    intro t ht
    have ht := mem_range.mp ht
    have hd : headWritten L m (L.start+t+1) = m.buf (m.lh.block t) := by
      unfold headWritten
      rw [update_of_ne (by omega)]
      exact applyWrites_of_mem m.disk _ (logWrites_nodup L m)
        (mem_map.mpr ⟨t,mem_range.mpr ht,rfl⟩)
    rw [hb t ht,hd]
  · intro t ht
    rw [hn] at ht
    rw [hb t ht]
    exact h.outside t ht
  · apply (eqOutside_update (area_start L) _).trans
    have := (logWrites_outside h m.disk (logWrites L m).length).1
    rwa [take_length] at this

lemma applyWrites_home_congr (h : EqOutside L d e) :
    EqOutside L (applyWrites d (homeWrites m)) (applyWrites e (homeWrites m)) := by
  intro b hb
  exact applyWrites_congr _ _ _ _ (.inr (h b hb))

/-- All of `commit`: the header is clear again and the transaction is installed. -/
theorem commit_complete (h : m.lh.Fits L) (hclean : (head L m.disk).n = 0) :
    EqOutside L (m.run (commit L m.lh)).disk (committed m) ∧
    (head L (m.run (commit L m.lh)).disk).n = 0 := by
  rw [Mach.run_disk]
  rcases Nat.eq_zero_or_pos m.lh.n with hn | hn
  · have hc : m.writes (commit L m.lh) = [] := by simp [commit,hn,Mach.writes]
    have hb : m.lh.blocks = [] := by simp [LogHeader.blocks,hn]
    rw [hc]
    exact ⟨fun b _ => by simp [committed,hb],hclean⟩
  · obtain ⟨hb,e⟩ := commit_writes L m h hn
    rw [e,applyWrites_append,applyWrites_cons,applyWrites_append]
    refine ⟨?_,recover_cleared hb m.lh⟩
    apply (eqOutside_update (area_start L) _).trans
    rw [committed_eq]
    exact applyWrites_home_congr (headWritten_spec h).2.2

/-- A crash at any write of `commit`: recovery will produce the old disk until the first
`write_head` is performed, and the new one from then on. -/
theorem commit_crash (h : m.lh.Fits L) (hclean : (head L m.disk).n = 0)
    (k : ℕ) : Sound L (crashAt L m k) ∧
    EqOutside L (replayed L (crashAt L m k)) (if k ≤ m.lh.n then m.disk else committed m) := by
  rcases Nat.eq_zero_or_pos m.lh.n with hn | hn
  · have hc : m.writes (commit L m.lh) = [] := by simp [commit,hn,Mach.writes]
    have hb : m.lh.blocks = [] := by simp [LogHeader.blocks,hn]
    have hcrash : crashAt L m k = m.disk := by simp [crashAt,hc]
    have hcomm : committed m = m.disk := by funext b; simp [committed,hb]
    rw [hcrash,hcomm,replayed_of_clear hclean]
    exact ⟨sound_of_clear hclean,fun b _ => by simp⟩
  obtain ⟨hb,e⟩ := commit_writes L m h hn
  have hlen : (logWrites L m).length = m.lh.n := by simp [logWrites]
  have hhome : (homeWrites m).length = m.lh.n := by simp [homeWrites]
  rcases Nat.lt_or_ge m.lh.n k with hk | hk
  · rw [if_neg (by omega)]
    obtain ⟨hi,hsound,hout⟩ := headWritten_spec h
    rcases Nat.lt_or_ge (m.lh.n+1+m.lh.n) k with hk' | hk'
    · -- every write has been performed
      obtain ⟨h₁,h₂⟩ := commit_complete h hclean
      have hall : crashAt L m k = (m.run (commit L m.lh)).disk := by
        rw [Mach.run_disk,crashAt,take_of_length_le]
        rw [e]
        simp only [length_append,length_cons,length_nil]
        omega
      rw [hall,replayed_of_clear h₂]
      exact ⟨sound_of_clear h₂,h₁⟩
    · -- some of the home blocks are installed, and recovery installs all of them again
      have hpart : crashAt L m k = applyWrites (headWritten L m)
          ((installs L (headWritten L m)).take (k-(m.lh.n+1))) := by
        rw [hi,crashAt,e,take_append,take_of_length_le (by omega),applyWrites_append,
          show k-(logWrites L m).length = (k-(m.lh.n+1))+1 by omega,take_succ_cons,
          applyWrites_cons,take_append_of_le_length (by omega)]
        rfl
      obtain ⟨h₁,h₂⟩ := replayed_of_partial hsound (k-(m.lh.n+1))
      rw [hpart]
      refine ⟨h₁,?_⟩
      rw [h₂,replayed,hi,committed_eq]
      exact applyWrites_home_congr hout
  · -- the header still says that there is no transaction
    rw [if_pos hk]
    have hpart : crashAt L m k = applyWrites m.disk ((logWrites L m).take k) := by
      rw [crashAt,e,take_append_of_le_length (by omega)]
    obtain ⟨h₁,h₂⟩ := logWrites_outside h m.disk k
    have hc : (head L (crashAt L m k)).n = 0 := by
      rw [hpart,head,h₂]
      exact hclean
    rw [replayed_of_clear hc,hpart]
    exact ⟨hpart ▸ sound_of_clear hc,h₁⟩

/-- Among the first `k` writes of `commit` there is a `write_head`. -/
def HeadPerformed (L : Layout) (m : Mach) (k : ℕ) : Prop :=
  ∃ hb, (L.start,hb) ∈ (m.writes (commit L m.lh)).take k

lemma headPerformed_iff (h : m.lh.Fits L) (k : ℕ) :
    HeadPerformed L m k ↔ 0 < m.lh.n ∧ m.lh.n < k := by
  rcases Nat.eq_zero_or_pos m.lh.n with hn | hn
  · have hc : m.writes (commit L m.lh) = [] := by simp [commit,hn,Mach.writes]
    simp [HeadPerformed,hc,hn]
  obtain ⟨hb,e⟩ := commit_writes L m h hn
  have hlen : (logWrites L m).length = m.lh.n := by simp [logWrites]
  constructor
  · rintro ⟨hb',hmem⟩
    refine ⟨hn,?_⟩
    by_contra hk
    rw [e,take_append_of_le_length (by omega)] at hmem
    obtain ⟨t,ht,e'⟩ := mem_logWrites (mem_of_mem_take hmem)
    simp only at e'
    omega
  · rintro ⟨_,hk⟩
    refine ⟨m.lh.fill (m.buf L.start),?_⟩
    rw [e,take_append,show k-(logWrites L m).length = (k-(m.lh.n+1))+1 by omega,
      take_succ_cons]
    exact mem_append_right _ mem_cons_self

/-- A transaction as `commit` finds it: the in-memory header and the cached contents. -/
structure Txn where
  lh : LogHeader
  buf : Disk

def Txn.on (t : Txn) (d : Disk) : Mach := ⟨d,t.buf,t.lh⟩

/-- The whole effect of a transaction on a disk. -/
def Txn.apply (d : Disk) (t : Txn) : Disk := committed (t.on d)

/-- A crash while the transactions are committed one after another: `Crashes L d ts j c`
leaves the disk `c` when the header of exactly the first `j` of them has been written. -/
inductive Crashes (L : Layout) : Disk → List Txn → ℕ → Disk → Prop
  | between (d ts) : Crashes L d ts 0 d
  | before {d t ts k} (h : ¬HeadPerformed L (t.on d) k) :
      Crashes L d (t::ts) 0 (crashAt L (t.on d) k)
  | within {d t ts k} (h : HeadPerformed L (t.on d) k) :
      Crashes L d (t::ts) 1 (crashAt L (t.on d) k)
  | later {d t ts j c} (rest : Crashes L ((t.on d).run (commit L t.lh)).disk ts j c) :
      Crashes L d (t::ts) (j+1) c

lemma Txn.apply_congr (h : EqOutside L d e) (t : Txn) : EqOutside L (t.apply d) (t.apply e) := by
  intro b hb
  by_cases hm : b ∈ t.lh.blocks <;> simp [Txn.apply,committed,Txn.on,hm,h b hb]

lemma applyAll_congr (h : EqOutside L d e) (ts : List Txn) :
    EqOutside L (ts.foldl Txn.apply d) (ts.foldl Txn.apply e) := by
  induction ts generalizing d e with
  | nil => exact h
  | cons t ts ih => exact ih (t.apply_congr h)

lemma crash_recovers (h : m.lh.Fits L) (hclean : (head L m.disk).n = 0)
    {k : ℕ} (hr : Recovers L (crashAt L m k) r) : (¬HeadPerformed L m k → EqOutside L r m.disk) ∧
    (HeadPerformed L m k → EqOutside L r (committed m)) ∧ (head L r).n = 0 := by
  obtain ⟨hsound,hout⟩ := commit_crash h hclean k
  obtain ⟨h₁,h₂⟩ := hr.spec hsound
  refine ⟨?_,?_,h₂⟩
  · intro hp
    rw [headPerformed_iff h] at hp
    have := h₁.trans hout
    split_ifs at this with hk
    · exact this
    · have hb : m.lh.blocks = [] := by
        have : m.lh.n = 0 := by omega
        simp [LogHeader.blocks,this]
      have hc : committed m = m.disk := by funext b; simp [committed,hb]
      rwa [hc] at this
  · intro hp
    rw [headPerformed_iff h] at hp
    have := h₁.trans hout
    rwa [if_neg (by omega)] at this

/-- Crash atomicity. A crash at any write of `commit`, followed by any number of interrupted
recoveries, recovers the old disk if no `write_head` was performed and the disk with every
logged block replaced by its cached contents if one was; and over a sequence of transactions
exactly those whose header was written are recovered, each wholly. -/
theorem crash_atomic (L : Layout) :
    (∀ (m : Mach) (k : ℕ) (r : Disk), m.lh.Fits L → (head L m.disk).n = 0 →
      Recovers L (crashAt L m k) r →
      (¬HeadPerformed L m k → EqOutside L r m.disk) ∧
      (HeadPerformed L m k → EqOutside L r (committed m))) ∧
    ∀ (d : Disk) (ts : List Txn) (j : ℕ) (c r : Disk), (∀ t ∈ ts, t.lh.Fits L) →
      (head L d).n = 0 → Crashes L d ts j c → Recovers L c r →
      EqOutside L r ((ts.take j).foldl Txn.apply d) ∧ (head L r).n = 0 := by
  constructor
  · intro m k r h hclean hr
    obtain ⟨h₁,h₂,_⟩ := crash_recovers h hclean hr
    exact ⟨h₁,h₂⟩
  · intro d ts j c r hfit hclean hcrash hr
    induction hcrash with
    | between d ts =>
      obtain ⟨h₁,h₂⟩ := hr.spec (sound_of_clear hclean)
      rw [replayed_of_clear hclean] at h₁
      exact ⟨h₁,h₂⟩
    | @before d t ts k hp =>
      obtain ⟨h₁,_,h₃⟩ := crash_recovers (m := t.on d) (hfit t mem_cons_self) hclean hr
      exact ⟨h₁ hp,h₃⟩
    | @within d t ts k hp =>
      obtain ⟨_,h₂,h₃⟩ := crash_recovers (m := t.on d) (hfit t mem_cons_self) hclean hr
      exact ⟨h₂ hp,h₃⟩
    | @later d t ts j c rest ih =>
      have hc := commit_complete (m := t.on d) (hfit t mem_cons_self) hclean
      obtain ⟨h₁,h₂⟩ := ih (fun u hu => hfit u (mem_cons_of_mem _ hu)) hc.2 hr
      refine ⟨h₁.trans ?_,h₂⟩
      rw [take_succ_cons,foldl_cons]
      exact applyAll_congr hc.1 _

/-- One logged block, and a crash right after the header is written. -/
def oneBlock : Mach := ⟨fun _ _ => 0,fun _ _ => 7,⟨1,fun _ => 40⟩⟩

lemma oneBlock_fits : oneBlock.lh.Fits mkfsLog where
  le_logsize := by decide
  lt_size := by decide
  entry_lt := fun _ _ => show 40 < 2^32 by decide
  outside := fun _ _ => show ¬Layout.Area mkfsLog 40 by decide

theorem crash_atomic_oneBlock : EqOutside mkfsLog
    (applyWrites (crashAt mkfsLog oneBlock 2)
      (recoverWrites mkfsLog (crashAt mkfsLog oneBlock 2)))
    (committed oneBlock) ∧ (committed oneBlock 40).byte 0 = 7 :=
  ⟨((crash_atomic mkfsLog).1 oneBlock 2 _ oneBlock_fits (by decide) (.complete _)).2
    ((headPerformed_iff oneBlock_fits 2).mpr (by decide)),by decide⟩

end Xv6.Log
