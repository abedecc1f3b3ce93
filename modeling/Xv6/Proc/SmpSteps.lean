import Xv6.Proc.SmpInv

/-! The steps that make a process, start it and switch between stacks, and with them every step of
every CPU. -/
namespace Xv6.Smp
open Xv6.Process Xv6.Lib Option List

variable {C : Type} {n : ℕ} {s t : Sys C n} {c : C} {p q : Fin n} {k k' : Pc n}

lemma Stack.proc_eq_some {x : Stack C n} : x.proc = some p ↔ x = .kstack p := by
  cases x with
  | sched c => exact ⟨nofun,nofun⟩
  | kstack r => exact ⟨fun h => congrArg _ (some_inj.mp h),fun h => by rw [h]; rfl⟩

lemma Stack.proc_ne_none {x : Stack C n} (h : x.proc ≠ none) : ∃ p, x = .kstack p := by
  obtain ⟨p,hp⟩ := ne_none_iff_exists'.mp h
  exact ⟨p,Stack.proc_eq_some.mp hp⟩

lemma Ok.stack_sched (O : Ok s c) (h : (s.cpu c).regs.stack.proc = none) :
    (s.cpu c).regs.stack = .sched c := by
  cases hs : (s.cpu c).regs.stack with
  | sched c' => rw [O.own c' hs]
  | kstack p =>
    rw [hs] at h
    cases h

/-- The scheduler's own code. -/
lemma Ok.scheduler (O : Ok s c) (hk : (s.cpu c).regs.pc = k) (hl : ∀ o, k.Legal o → o = none) :
    (s.cpu c).regs.stack = .sched c ∧ (s.cpu c).proc = k.target := by
  have hstk := O.stack_sched (hl _ (hk ▸ O.legal))
  refine ⟨hstk,?_⟩
  rw [O.cpu_proc,Ctx.current,hstk,hk]

/-! ### Making a process -/

/-- Steps of `fork` on the slot `q` of the child. -/
lemma Inv.making (I : Inv s) (hk : (s.cpu c).regs.pc = k) (hs : (s.cpu c).regs.stack = .kstack p)
    (hcpu : t.cpu c = { s.cpu c with regs := ⟨(s.cpu c).regs.stack,k'⟩ })
    (hother : ∀ c', c' ≠ c → t.cpu c' = s.cpu c')
    (hlock : ∀ r, (t.proc r).lock = (s.proc r).lock) (hspin : t.spin = s.spin)
    (hsame : ∀ r, r ≠ q → t.proc r = s.proc r) (hmaker : ∀ r, r ≠ q → t.maker r = s.maker r)
    (hpanic : t.panicked = s.panicked)
    (hh : k.holds (some p) = some q) (hh' : k'.holds (some p) = some q)
    (hl : k'.locks = k.locks) (hleg : k'.Legal (some p))
    (hplain : k.Shows = (· = .running) ∧ k'.Shows = (· = .running) ∧ k.target = none ∧ k'.target = none)
    (hleave : ∀ w j, k' ≠ .schedLoad w j) (halloc : ∀ r, k = .allocInit r → r = q)
    (hst : (s.proc q).state = .unused ∨ (s.proc q).state = .used ∧ k.child = some q)
    (hrun : (t.proc q).state ≠ .running)
    (hfresh : (t.proc q).state ≠ .unused → k' ≠ .allocInit q →
      (t.proc q).context = ⟨.kstack q,.forkret⟩)
    (hown : ∀ r, k'.child = some r → r = q ∧ t.maker q = some p ∧ (t.proc q).state = .used) :
    Inv t := by
  subst hk
  have O := I.ok c
  have hnr : (s.proc q).state ≠ .running := by
    rcases hst with h | ⟨h,-⟩ <;> simp [h]
  have hholds : (s.cpu c).regs.holds = some q := by rw [Ctx.holds,hs]; exact hh
  have hpc := O.proc_of_stack hs
  -- no CPU has the child as its process
  have hnone : ∀ c', (s.cpu c').proc ≠ some q := by
    intro c' hc'
    by_cases hcc : c' = c
    · subst hcc
      have := O.shows q hc'
      rw [hplain.1] at this
      exact hnr this
    · exact I.not_elsewhere hholds hnr hcc hc'
  have hpq : p ≠ q := fun h => hnone c (h ▸ hpc)
  have f : Frame s t c := by
    refine ⟨hother,fun c' r _ => by rw [hlock],fun c' l _ => by rw [hspin],fun c' r _ hr => ?_⟩
    rw [hsame r fun h => hnone c' (h ▸ hr)]
    exact ⟨rfl,rfl⟩
  have hstk := f.same (·.regs.stack) (by rw [hcpu])
  have hoff : ∀ r, t.Off r ↔ s.Off r := fun r => by simp only [Sys.Off,hstk]
  have ok : Ok t c := by
    refine O.goto rfl hcpu hlock hspin (hs ▸ hleg) hplain.2.2.1 hplain.2.2.2 (fun r hr => ?_) ?_ hl
      fun r w j _ h => absurd h (hleave w j)
    · have hrq : r ≠ q := fun h => hnone c (h ▸ hr)
      have := O.shows r hr
      rw [hplain.1] at this
      rw [hsame r hrq,hplain.2.1]
      exact this
    · rw [hs]
      exact hh'.trans hh.symm
  have hpos : ∀ r, r ≠ q → (∀ c', (t.cpu c').regs.pc ≠ .allocInit r) →
      ∀ c', (s.cpu c').regs.pc ≠ .allocInit r := fun r hr => f.alloc fun h => hr (halloc r h)
  have hk' : (t.cpu c).regs.pc = k' := by rw [hcpu]
  refine I.of_same f ok (by rw [hcpu]) (fun r hr => ?_) (fun r hr hu ha => ?_) (fun r hu ha => ?_)
    (fun r j q' ht hj => ?_) hpanic
  · rwa [hsame r fun h => hrun (h ▸ hr)] at hr
  · by_cases hrq : r = q
    · subst hrq
      rw [hfresh (fun h => hu (by simp [h])) (hk' ▸ ha c)]
      exact ⟨rfl,.inl rfl,some_ne_none _⟩
    · rw [hsame r hrq] at hu ⊢
      exact I.saved r ((hoff r).mp hr) hu (hpos r hrq ha)
  · by_cases hrq : r = q
    · subst hrq
      exact hfresh (by simp [hu]) (hk' ▸ ha c)
    · rw [hsame r hrq] at hu ⊢
      exact I.fresh r hu (hpos r hrq ha)
  · -- the parent's thread, another thread, or the child that has been started
    by_cases hrp : r = p
    · subst hrp
      have hjk : j = k' := by
        rcases ht with ⟨c',hr⟩ | ⟨ho,-⟩
        · have : c' = c := I.unique c' c r
            ((I.ok c').proc_of_stack ((hstk c').symm.trans (congrArg Ctx.stack hr))) hpc
          rw [← hk',← this,hr]
        · exact absurd hs ((hoff r).mp ho c)
      obtain ⟨rfl,h⟩ := hown q' (hjk ▸ hj)
      exact h
    · have hthread : s.Thread r j := by
        rcases ht with ⟨c',hr⟩ | ⟨ho,hu,hctx⟩
        · refine .inl ⟨c',?_⟩
          by_cases hcc : c' = c
          · rw [hcc,hcpu] at hr
            exact absurd (Stack.kstack.inj (hs.symm.trans (congrArg Ctx.stack hr))).symm hrp
          · rw [← hother c' hcc]
            exact hr
        · by_cases hrq : r = q
          · -- its context is the start of forkret, where nothing is being made
            subst hrq
            by_cases ha : k' = .allocInit r
            · have := (hown r (by rw [ha]; rfl)).2.2
              rw [this] at hu
              simp at hu
            · rw [hfresh (fun h => by rw [h] at hu; simp at hu) ha] at hctx
              cases hctx
              cases hj
          · rw [hsame r hrq] at hu hctx
            exact .inr ⟨(hoff r).mp ho,hu,hctx⟩
      have hc := I.child r j q' hthread hj
      have hq' : q' ≠ q := by
        rintro rfl
        rcases hst with h | ⟨-,h⟩
        · rw [hc.2] at h
          cases h
        · have := (I.child p _ q' (Inv.thread hs) h).1
          exact hrp (some_inj.mp (hc.1.symm.trans this))
      rw [hsame q' hq',hmaker q' hq']
      exact hc

/-! ### The scheduler's thread -/

variable [DecidableEq C]

section
variable (I : Inv s)
include I

/-- A step of the scheduler on its own stack; it may make a process running. -/
lemma Inv.scheduling {o : Option (Fin n)} {x : Ctx C n}
    (hk : (s.cpu c).regs.pc = k) (hstk : (s.cpu c).regs.stack = .sched c)
    (hcpu : t.cpu = Function.update s.cpu c
      { s.cpu c with proc := o, context := x, regs := ⟨(s.cpu c).regs.stack,k'⟩ })
    (hproc : ∀ r, (t.proc r).lock = (s.proc r).lock ∧ (t.proc r).context = (s.proc r).context)
    (hst : ∀ r, (t.proc r).state = (s.proc r).state ∨
      (s.proc r).state = .runnable ∧ (t.proc r).state = .running ∧ o = some r)
    (hrest : t.spin = s.spin ∧ t.maker = s.maker ∧ t.made = s.made ∧ t.panicked = s.panicked)
    (hfree : ∀ c' r, c' ≠ c → o = some r → (s.cpu c').proc ≠ some r)
    (hold : ∀ r, (s.cpu c).proc = some r → (s.proc r).state = .running → o = some r)
    (hl : k'.Legal none) (ho : o = k'.target) (hh : k'.holds none = k.holds none)
    (hlocks : k'.locks = k.locks) (hs : ∀ p, o = some p → k'.Shows (t.proc p).state)
    (hx : ∀ p, k' = .load p → x = ⟨.sched c,.back p⟩) : After s t := by
  subst hk
  have O := I.ok c
  have hc : t.cpu c = { s.cpu c with proc := o, context := x, regs := ⟨.sched c,k'⟩ } := by
    rw [hcpu,Function.update_self,hstk]
  have hholds : k'.holds none = (s.cpu c).regs.holds := by rw [hh,Ctx.holds,hstk]; rfl
  have f : Frame s t c := by
    refine ⟨fun c' h => by rw [hcpu,Function.update_of_ne h],fun c' r _ => by rw [(hproc r).1],
      fun c' l _ => by rw [hrest.1],fun c' r h h' => ⟨?_,(hproc r).2⟩⟩
    rcases hst r with h'' | ⟨-,-,h''⟩
    · exact h''
    · exact absurd h' (hfree c' r h h'')
  have ok : Ok t c := by
    refine .of_cpu hc hl (fun c' h => (Stack.sched.inj h).symm) ho ?_ O.intr (fun q => ?_)
      (fun l => ?_) hs (fun p hp => hx p (hp.resolve_left (by simp))) (by simp)
    · show _ = k'.locks.length+(k'.holds none).toList.length
      rw [hlocks,hholds]
      exact O.noff
    · show _ ↔ k'.holds none = some q
      rw [(hproc q).1,hholds]
      exact O.lock q
    · show _ ↔ l ∈ k'.locks
      rw [hrest.1,hlocks]
      exact O.spin l
  have hp : (t.cpu c).proc = o := by rw [hc]
  have hoff : ∀ r, t.Off r → s.Off r := fun r => f.off (by rw [hstk]; simp)
  have hpos : ∀ r, (∀ c', (t.cpu c').regs.pc ≠ .allocInit r) →
      ∀ c', (s.cpu c').regs.pc ≠ .allocInit r := fun r => f.alloc fun ha => by
    have hleg := O.legal
    rw [ha,hstk] at hleg
    exact hleg rfl
  refine ⟨⟨fun c' => ?_,fun c₁ c₂ r h₁ h₂ => ?_,fun r hr => ?_,fun r hr hu ha => ?_,fun r hu ha => ?_,
    fun r j q ht hj => ?_,hrest.2.2.2 ▸ I.calm⟩,fun r => ⟨(congrFun hrest.2.2.1 r).ge,fun _ h => ?_⟩⟩
  · by_cases hcc : c' = c
    · exact hcc ▸ ok
    · exact f.ok hcc (I.ok c')
  · by_cases hc₁ : c₁ = c
    · by_cases hc₂ : c₂ = c
      · rw [hc₁,hc₂]
      · rw [f.cpu c₂ hc₂] at h₂
        exact absurd h₂ (hfree c₂ r hc₂ (by rwa [← hp,← hc₁]))
    · rw [f.cpu c₁ hc₁] at h₁
      by_cases hc₂ : c₂ = c
      · exact absurd h₁ (hfree c₁ r hc₁ (by rwa [← hp,← hc₂]))
      · rw [f.cpu c₂ hc₂] at h₂
        exact I.unique c₁ c₂ r h₁ h₂
  · rcases hst r with h | ⟨-,-,h⟩
    · rw [h] at hr
      obtain ⟨c',hc'⟩ := I.parked r hr
      by_cases hcc : c' = c
      · exact ⟨c,hp.trans (hold r (hcc ▸ hc') hr)⟩
      · exact ⟨c',f.cpu c' hcc ▸ hc'⟩
    · exact ⟨c,hp.trans h⟩
  · rw [(hproc r).2]
    refine I.saved r (hoff r hr) ?_ (hpos r ha)
    rcases hst r with h | ⟨h,-⟩
    · rwa [← h]
    · simp [h]
  · rw [(hproc r).2]
    refine I.fresh r ?_ (hpos r ha)
    rcases hst r with h | ⟨-,h,-⟩
    · rwa [← h]
    · rw [h] at hu
      cases hu
  · have hthread : s.Thread r j := by
      rcases ht with ⟨c',hr⟩ | ⟨ho,hu,hctx⟩
      · by_cases hcc : c' = c
        · rw [hcc,hc] at hr
          cases congrArg Ctx.stack hr
        · exact .inl ⟨c',f.cpu c' hcc ▸ hr⟩
      · refine .inr ⟨hoff r ho,?_,(hproc r).2 ▸ hctx⟩
        rcases hst r with h | ⟨h,-⟩
        · rwa [← h]
        · simp [h]
    have hchild := I.child r j q hthread hj
    rw [hrest.2.1]
    rcases hst q with h | ⟨h,-⟩
    · rwa [h]
    · rw [hchild.2] at h
      cases h
  · rcases hst r with h' | ⟨h',-⟩
    · rwa [h']
    · rw [h'] at h
      simp at h

lemma Inv.pick {found : Bool} (hk : (s.cpu c).regs.pc = .test p found)
    (hst : (s.proc p).state = .runnable) :
    After s (((s.setState p .running).setCpu c fun u => { u with proc := some p }).goto c
      (.save p)) := by
  have O := I.ok c
  obtain ⟨hstk,hcur⟩ := O.scheduler hk fun _ => id
  have hholds : (s.cpu c).regs.holds = some p := by rw [Ctx.holds,hk]; rfl
  have hp : ((s.setState p .running).proc p) = { s.proc p with state := .running } :=
    setProc_proc ..
  have hr : ∀ r, r ≠ p → (s.setState p .running).proc r = s.proc r := fun r h =>
    setProc_proc_ne _ _ _ h
  refine I.scheduling hk hstk (goto_setCpu ..) (fun r => ?_) (fun r => ?_) ⟨rfl,rfl,rfl,rfl⟩
    (fun c' r h h' => ?_) (fun r h => ?_) rfl rfl rfl rfl (fun r h => ?_) (by simp)
  · by_cases h : r = p
    · subst h
      exact ⟨(congrArg Proc.lock hp :),(congrArg Proc.context hp :)⟩
    · exact ⟨congrArg Proc.lock (hr r h),congrArg Proc.context (hr r h)⟩
  · by_cases h : r = p
    · exact .inr ⟨h ▸ hst,h ▸ congrArg Proc.state hp,h ▸ rfl⟩
    · exact .inl (congrArg Proc.state (hr r h))
  · obtain rfl := some_inj.mp h'
    exact I.not_elsewhere hholds (by simp [hst]) h
  · cases hcur.symm.trans h
  · cases h
    exact congrArg Proc.state hp

/-- The first half of the scheduler's `swtch`. -/
lemma Inv.saveHome (hk : (s.cpu c).regs.pc = .save p) :
    After s ((s.setCpu c fun u => { u with context := ⟨u.regs.stack,.back p⟩ }).goto c
      (.load p)) := by
  have O := I.ok c
  obtain ⟨hstk,hcur⟩ := O.scheduler hk fun _ => id
  refine I.scheduling hk hstk (goto_setCpu ..) (fun _ => ⟨rfl,rfl⟩) (fun _ => .inl rfl)
    ⟨rfl,rfl,rfl,rfl⟩ (fun c' r h h' h'' => h (I.unique c' c r h'' h')) (fun r h _ => h) rfl hcur
    rfl rfl (fun r h => ?_) fun r h => ?_
  · exact (O.shows_at hk h :)
  · rw [← Pc.load.inj h,hstk]

lemma Inv.back (hk : (s.cpu c).regs.pc = .back p) :
    After s ((s.setCpu c fun u => { u with proc := none }).goto c (.unlock p true)) := by
  have O := I.ok c
  obtain ⟨hstk,hcur⟩ := O.scheduler hk fun _ => id
  refine I.scheduling hk hstk (goto_setCpu ..) (fun _ => ⟨rfl,rfl⟩) (fun _ => .inl rfl)
    ⟨rfl,rfl,rfl,rfl⟩ nofun (fun r h h' => ?_) rfl rfl rfl rfl nofun nofun
  exact absurd h' (O.shows_at hk h)

/-! ### Switching stacks -/

/-- The second half of a `swtch`: CPU `c` goes on in another context, with the locks it has. -/
lemma Inv.switch {x : Ctx C n} (hk : (s.cpu c).regs.pc = k)
    (hx : (s.setCpu c fun u => { u with regs := x }) = t) (hl : x.pc.Legal x.stack.proc)
    (hown : ∀ c', x.stack = .sched c' → c' = c) (hcur : (s.cpu c).proc = x.current)
    (hh : x.holds = (s.cpu c).regs.holds) (hlocks : x.pc.locks = k.locks)
    (hshows : ∀ p, (s.cpu c).proc = some p → x.pc.Shows (s.proc p).state)
    (hhome : ∀ p, x.stack = .kstack p ∨ x.pc = .load p → (s.cpu c).context = ⟨.sched c,.back p⟩)
    (hleave : ∀ p w j, x ≠ ⟨.kstack p,.schedLoad w j⟩) (halloc : ∀ r, k ≠ .allocInit r)
    (hsaved : ∀ r, t.Off r → (s.proc r).state ∉ [.zombie,.unused] →
      s.Off r ∨ (s.proc r).context.Saved r)
    (hthread : ∀ r j, t.Thread r j → ∃ i, s.Thread r i ∧ i.child = j.child) : After s t := by
  subst hk hx
  have O := I.ok c
  have f : Frame s (s.setCpu c fun u => { u with regs := x }) c :=
    ⟨fun c' h => setCpu_cpu_ne _ _ _ h,fun _ _ _ => Iff.rfl,fun _ _ _ => Iff.rfl,
      fun _ _ _ _ => ⟨rfl,rfl⟩⟩
  refine ⟨I.of_same f ?_ (by rw [setCpu_cpu]) (fun _ h => h) (fun r hr hu ha => ?_)
    (fun r hu ha => I.fresh r hu (f.alloc (halloc r) ha)) (fun r j q h hj => ?_) rfl,
    fun r => ⟨le_rfl,fun _ h => h⟩⟩
  · refine .of_cpu (setCpu_cpu ..) hl hown hcur ?_ O.intr (fun q => ?_) (fun l => ?_) hshows hhome
      fun p w j h => absurd h (hleave p w j)
    · show _ = x.pc.locks.length+x.holds.toList.length
      rw [hlocks,hh]
      exact O.noff
    · show _ ↔ x.holds = some q
      rw [hh]
      exact O.lock q
    · show _ ↔ l ∈ x.pc.locks
      rw [hlocks]
      exact O.spin l
  · exact (hsaved r hr hu).elim (fun h => I.saved r h hu (f.alloc (halloc r) ha)) id
  · obtain ⟨i,hi,hc⟩ := hthread r j h
    exact I.child r i q hi (hc.trans hj)

lemma Inv.resume (hk : (s.cpu c).regs.pc = .load p) :
    After s (s.setCpu c fun u => { u with regs := (s.proc p).context }) := by
  have O := I.ok c
  obtain ⟨hstk,hcur⟩ := O.scheduler hk fun _ => id
  have hrun : (s.proc p).state = .running :=
    O.shows_at hk hcur
  have hlk : (s.proc p).lock = some c := (O.lock p).mpr (by rw [Ctx.holds,hk]; rfl)
  have hoff : s.Off p := fun c' h => by
    obtain rfl := I.unique c c' p hcur ((I.ok c').proc_of_stack h)
    rw [hstk] at h
    cases h
  have hsaved : (s.proc p).context.Saved p := by
    refine I.saved p hoff (by simp [hrun]) fun c' h => ?_
    have := ((I.ok c').lock p).mpr (by rw [Ctx.holds,h]; rfl)
    rw [hlk] at this
    rw [← some_inj.mp this,hk] at h
    cases h
  have hctx : (s.proc p).context.holds = some p ∧ (s.proc p).context.pc.locks = [] ∧
      (s.proc p).context.pc.Shows .running ∧ ∀ w j, (s.proc p).context.pc ≠ .schedLoad w j := by
    obtain ⟨h₁,h₂,h₃⟩ := hsaved
    rw [Ctx.holds,h₁]
    rcases h₂ with h₂ | ⟨w,j,ie,h₂⟩ <;> rw [h₂] at h₃ ⊢
    · exact ⟨rfl,rfl,rfl,(by simp)⟩
    · exact ⟨h₃.1.symm,rfl,rfl,(by simp)⟩
  generalize ht : (s.setCpu c fun u => { u with regs := (s.proc p).context }) = t
  have hother : ∀ c', c' ≠ c → t.cpu c' = s.cpu c' := fun c' h => by simp [← ht,h]
  have hback : ∀ r, t.Off r → s.Off r := by
    intro r h c' h'
    by_cases hcc : c' = c
    · rw [hcc,hstk] at h'
      cases h'
    · exact h c' (hother c' hcc ▸ h')
  refine I.switch hk ht (by rw [hsaved.1]; exact hsaved.2.2) (fun c' h => ?_) ?_ ?_ hctx.2.1
    (fun r h => ?_) (fun r h => ?_) (fun r w j h => hctx.2.2.2 w j (congrArg Ctx.pc h)) (by simp)
    (fun r h _ => .inl (hback r h)) fun r j h => ?_
  · cases hsaved.1.symm.trans h
  · rw [hcur,Ctx.current,hsaved.1]
    rfl
  · rw [hctx.1,Ctx.holds,hk]
    rfl
  · obtain rfl := some_inj.mp (hcur.symm.trans h)
    rw [hrun]
    exact hctx.2.2.1
  · rcases h with h | h
    · obtain rfl := Stack.kstack.inj (hsaved.1.symm.trans h)
      exact O.home p (.inr hk)
    · have := hsaved.2.1
      rw [h] at this
      rcases this with h | ⟨_,_,_,h⟩ <;> cases h
  · refine ⟨j,?_,rfl⟩
    rcases h with ⟨c',hr⟩ | ⟨ho,hu,hc⟩
    · by_cases hcc : c' = c
      · rw [hcc,← ht,setCpu_cpu] at hr
        obtain rfl := Stack.kstack.inj (hsaved.1.symm.trans (congrArg Ctx.stack hr))
        exact .inr ⟨hoff,by simp [hrun],hr⟩
      · exact .inl ⟨c',hother c' hcc ▸ hr⟩
    · rw [← ht] at hu hc
      exact .inr ⟨hback r ho,hu,hc⟩

/-- The first half of `swtch` in `sched`. -/
lemma Inv.schedSave {w : Why n} {j : Pc n} {intena : Bool}
    (hk : (s.cpu c).regs.pc = .schedSave p w j intena) : After s ((s.setProc p fun r =>
      { r with context := ⟨(s.cpu c).regs.stack,.resumed w j intena⟩ }).goto c
      (.schedLoad w j)) := by
  have O := I.ok c
  have hleg : (Pc.schedSave p w j intena).Legal (s.cpu c).regs.stack.proc := hk ▸ O.legal
  have hstk := Stack.proc_eq_some.mp hleg.1
  have hcur := O.proc_of_stack hstk
  have hstate : (s.proc p).state = w.state :=
    O.shows_at hk hcur
  generalize ht : (s.setProc p fun r =>
    { r with context := ⟨(s.cpu c).regs.stack,.resumed w j intena⟩ }).goto c (.schedLoad w j) = t
  have hcpu : t.cpu c = { s.cpu c with regs := ⟨(s.cpu c).regs.stack,.schedLoad w j⟩ } := by
    simp [← ht,Sys.goto]
  have hp : t.proc p = { s.proc p with context := ⟨.kstack p,.resumed w j intena⟩ } := by
    simp [← ht,Sys.goto,hstk]
  have hr : ∀ r, r ≠ p → t.proc r = s.proc r := fun r h => by simp [← ht,Sys.goto,h]
  have hsame : ∀ r, (t.proc r).lock = (s.proc r).lock ∧ (t.proc r).state = (s.proc r).state := by
    intro r
    by_cases h : r = p
    · rw [h,hp]
      exact ⟨rfl,rfl⟩
    · rw [hr r h]
      exact ⟨rfl,rfl⟩
  have f : Frame s t c := by
    refine ⟨fun c' h => by simp [← ht,Sys.goto,h],fun c' r _ => by rw [(hsame r).1],
      fun c' l _ => by simp [← ht,Sys.goto],fun c' r h h' => ?_⟩
    rw [hr r fun e => h (I.unique c' c p (e ▸ h') hcur)]
    exact ⟨rfl,rfl⟩
  have ok : Ok t c := by
    refine O.goto hk hcpu (fun r => (hsame r).1) (by simp [← ht,Sys.goto]) hleg.2 rfl rfl
      (fun r h => ?_) rfl rfl fun r w' j' h h' => ?_
    · rw [(hsame r).2]
      exact (O.shows_at hk h :)
    · obtain rfl := Stack.kstack.inj (hstk.symm.trans h)
      cases h'
      exact ⟨intena,by rw [hp]⟩
  have hoff : ∀ r, t.Off r → s.Off r ∧ r ≠ p := by
    intro r h
    have : s.Off r := by simpa only [Sys.Off,f.same (·.regs.stack) (by rw [hcpu])] using h
    exact ⟨this,fun e => this c (e ▸ hstk)⟩
  have hpos : ∀ r, (∀ c', (t.cpu c').regs.pc ≠ .allocInit r) →
      ∀ c', (s.cpu c').regs.pc ≠ .allocInit r := fun r => f.alloc (by rw [hk]; simp)
  refine ⟨I.of_same f ok (by rw [hcpu]) (fun r h => (hsame r).2 ▸ h) (fun r h hu ha => ?_)
    (fun r hu ha => ?_) (fun r i q h hi => ?_) (by simp [← ht,Sys.goto]),
    fun r => ⟨by simp [← ht,Sys.goto],fun _ h => by rwa [(hsame r).2]⟩⟩
  · obtain ⟨ho,hrp⟩ := hoff r h
    rw [hr r hrp] at hu ⊢
    exact I.saved r ho hu (hpos r ha)
  · have hrp : r ≠ p := by
      rintro rfl
      rw [(hsame r).2,hstate] at hu
      cases w <;> cases hu
    rw [hr r hrp] at hu ⊢
    exact I.fresh r hu (hpos r ha)
  · rw [(hsame q).2,show t.maker = s.maker by simp [← ht,Sys.goto]]
    rcases h with ⟨c',h⟩ | ⟨ho,hu,hc⟩
    · by_cases hcc : c' = c
      · rw [hcc,hcpu] at h
        have hrp := Stack.kstack.inj (hstk.symm.trans (congrArg Ctx.stack h))
        subst hrp
        refine I.child p _ q (Inv.thread hstk) ?_
        rw [← show Pc.schedLoad w j = i from congrArg Ctx.pc h] at hi
        rw [hk]
        exact hi
      · exact I.child r i q (.inl ⟨c',f.cpu c' hcc ▸ h⟩) hi
    · obtain ⟨ho,hrp⟩ := hoff r ho
      rw [hr r hrp] at hu hc
      exact I.child r i q (.inr ⟨ho,hu,hc⟩) hi

/-- The second half: the CPU goes on in its scheduler. -/
lemma Inv.schedLoad {w : Why n} {j : Pc n} (hk : (s.cpu c).regs.pc = .schedLoad w j) :
    After s (s.setCpu c fun u => { u with regs := u.context }) := by
  have O := I.ok c
  have hleg : (Pc.schedLoad w j).Legal (s.cpu c).regs.stack.proc := hk ▸ O.legal
  obtain ⟨p,hw⟩ : ∃ p, w.proc = p := ⟨_,rfl⟩
  have hstk := Stack.proc_eq_some.mp hleg.1
  rw [hw] at hstk
  have hcur := O.proc_of_stack hstk
  have hhome := O.home p (.inl hstk)
  have hstate : (s.proc p).state = w.state :=
    O.shows_at hk hcur
  have hregs : (s.cpu c).regs = ⟨.kstack p,.schedLoad w j⟩ := by rw [← hstk,← hk]
  obtain ⟨ie,hctx⟩ := O.leaving p w j hregs
  have hsaved : (s.proc p).state ≠ .zombie → (s.proc p).context.Saved p := by
    intro hz
    rw [hctx]
    rw [hstk] at hleg
    exact ⟨rfl,.inr ⟨w,j,ie,rfl⟩,hleg.1,hstate ▸ hz,hleg.2⟩
  generalize ht : (s.setCpu c fun u => { u with regs := u.context }) = t
  have hx : (s.setCpu c fun u => { u with regs := ⟨.sched c,.back p⟩ }) = t := by
    rw [← ht,Sys.setCpu,Sys.setCpu,hhome]
  have hcpu : (t.cpu c).regs = ⟨.sched c,.back p⟩ := by rw [← hx,setCpu_cpu]
  have hother : ∀ c', c' ≠ c → t.cpu c' = s.cpu c' := fun c' h => by simp [← ht,h]
  have hoff : ∀ r, t.Off r → r ≠ p → s.Off r := by
    intro r h hrp c' h'
    by_cases hcc : c' = c
    · rw [hcc] at h'
      exact hrp (Stack.kstack.inj (hstk.symm.trans h')).symm
    · exact h c' (hother c' hcc ▸ h')
  refine I.switch hk hx rfl (fun c' h => (Stack.sched.inj h).symm) hcur ?_ rfl (fun r h => ?_) ?_ (by simp)
    (by simp) (fun r h hu => ?_) fun r i h => ?_
  · rw [Ctx.holds,Ctx.holds,hk]
    exact congrArg some hw.symm
  · obtain rfl := some_inj.mp (hcur.symm.trans h)
    rw [hstate]
    exact w.state_ne_running
  · rintro r (h | h) <;> cases h
  · by_cases hrp : r = p
    · subst hrp
      exact .inr (hsaved fun h => hu (by simp [h]))
    · exact .inl (hoff r h hrp)
  · by_cases hrp : r = p
    · subst hrp
      -- the thread has been left in the context that the first half saved
      have hi : i = .resumed w j ie := by
        rcases h with ⟨c',h⟩ | ⟨-,-,h⟩
        · by_cases hcc : c' = c
          · rw [hcc,hcpu] at h
            cases h
          · rw [hother c' hcc] at h
            exact absurd (I.unique c' c r ((I.ok c').proc_of_stack (congrArg Ctx.stack h)) hcur) hcc
        · rw [← ht] at h
          exact (congrArg Ctx.pc (hctx.symm.trans h)).symm
      exact ⟨_,Inv.thread hstk,by rw [hk,hi]; rfl⟩
    · refine ⟨i,?_,rfl⟩
      rcases h with ⟨c',h⟩ | ⟨ho,hu,hc⟩
      · by_cases hcc : c' = c
        · rw [hcc,hcpu] at h
          cases h
        · exact .inl ⟨c',hother c' hcc ▸ h⟩
      · rw [← ht] at hu hc
        exact .inr ⟨hoff r ho hrp,hu,hc⟩

/-! ### Every step -/

omit [DecidableEq C] in
/-- What `sched` checks is so whenever it is reached. -/
lemma Inv.sched_checks {w : Why n} {j : Pc n} (hk : (s.cpu c).regs.pc = .sched w j) :
    (s.cpu c).proc = some w.proc ∧ (s.proc w.proc).lock = some c ∧
      (s.proc w.proc).state ≠ .running := by
  have O := I.ok c
  have hleg : (Pc.sched w j).Legal (s.cpu c).regs.stack.proc := hk ▸ O.legal
  have hcur := O.proc_of_stack (Stack.proc_eq_some.mp hleg.1)
  refine ⟨hcur,(O.lock w.proc).mpr (by rw [Ctx.holds,hk]; rfl),?_⟩
  rw [show (s.proc w.proc).state = w.state from O.shows_at hk hcur]
  exact w.state_ne_running

/-- The only check of `sched` that can fail is the one on the number of locks. -/
lemma Inv.sched {w : Why n} {j : Pc n} (hk : (s.cpu c).regs.pc = .sched w j)
    (h : Smp.sched s c w j = some t) : After s t := by
  have O := I.ok c
  have hleg : (Pc.sched w j).Legal (s.cpu c).regs.stack.proc := hk ▸ O.legal
  obtain ⟨hcur,hlk,hst⟩ := I.sched_checks hk
  have hno := O.noff
  rw [Ctx.holds,hk] at hno
  have hno : (s.cpu c).noff = (j.locks.diff w.relock).length+1 := hno
  rw [Smp.sched,hcur] at h
  simp only [] at h
  rw [if_neg (not_not.mpr hlk)] at h
  by_cases h₁ : (s.cpu c).noff = 1
  · rw [if_neg (not_not.mpr h₁),if_neg hst,O.intr_off (by omega),if_neg (by simp)] at h
    cases h
    have hd : j.locks.diff w.relock = [] := eq_nil_of_length_eq_zero (by omega)
    have hlocks : j.locks = w.relock := by
      cases w with
      | yield p => exact hleg.2.2.1 rfl
      | exit p => exact hleg.2.2.1 rfl
      | sleep p lk =>
        have hp := perm_cons_erase (hleg.2.1 lk (mem_singleton_self _))
        rw [Why.relock,diff_cons,diff_nil] at hd
        rw [hd] at hp
        exact perm_singleton.mp hp
    exact I.goto hk (.of ⟨hleg.1,hleg.1,hlocks,hleg.2.2.2⟩ rfl rfl (.inr rfl)) rfl rfl hd.symm
  · rw [if_pos h₁] at h
    cases h
    exact ⟨⟨fun c' => ⟨(I.ok c').1,(I.ok c').2,(I.ok c').3,(I.ok c').4,(I.ok c').5,(I.ok c').6,
      (I.ok c').7,(I.ok c').8,(I.ok c').9,(I.ok c').10⟩,I.unique,I.parked,I.saved,I.fresh,I.child,
      .inr rfl⟩,fun r => ⟨le_rfl,fun _ h => h⟩⟩

lemma Inv.wakeupHeld {chan : ℕ} (hk : (s.cpu c).regs.pc = .wakeupHeld chan q k)
    (h : run s c = some t) : After s t := by
  have hl : (Pc.wakeupHeld chan q k).Legal (s.cpu c).regs.stack.proc := hk ▸ (I.ok c).legal
  have hn : Next (s.cpu c).regs.stack.proc (.wakeupHeld chan q k) (.wakeupRelease chan q k) :=
    .of hl rfl rfl (.inr rfl)
  simp only [run,hk] at h
  split_ifs at h with hst <;> cases h
  · refine I.set hk rfl (fun _ => ⟨rfl,rfl⟩) (by simp [hst.1,Ordinary]) (by simp [hst.1]) hn
      (fun p hp => ?_) rfl rfl
    have := (I.ok c).shows_at hk hp
    have hpq : p ≠ q := by
      rintro rfl
      rw [hst.1] at this
      cases this
    rwa [setProc_proc_ne _ _ _ hpq]
  · exact I.goto hk hn rfl rfl rfl

lemma Inv.killHeld {pid : Int32} (hk : (s.cpu c).regs.pc = .killHeld pid q)
    (h : run s c = some t) : After s t := by
  have hl : (Pc.killHeld pid q).Legal (s.cpu c).regs.stack.proc := hk ▸ (I.ok c).legal
  have hn (found) : Next (s.cpu c).regs.stack.proc (.killHeld pid q) (.killRelease pid q found) :=
    .of hl rfl rfl (.inr rfl)
  simp only [run,hk] at h
  split_ifs at h <;> cases h
  · refine I.set hk rfl (fun _ => ⟨rfl,rfl⟩) ?_ ?_ (hn true) (fun p hp => ?_) rfl rfl
    · dsimp only
      split_ifs with hst
      · simp [hst,Ordinary]
      · exact .inl rfl
    · dsimp only
      split_ifs with hst
      · simp [hst]
      · exact .inl rfl
    · have := (I.ok c).shows_at hk hp
      by_cases hpq : p = q
      · subst hpq
        rw [setProc_proc]
        dsimp only
        rw [show (s.proc p).state = .running from this]
        rfl
      · rwa [setProc_proc_ne _ _ _ hpq]
  · exact I.goto hk (hn false) rfl rfl rfl

lemma Inv.waitHeld (hk : (s.cpu c).regs.pc = .waitHeld q) (h : run s c = some t) : After s t := by
  have hl : (Pc.waitHeld q).Legal (s.cpu c).regs.stack.proc := hk ▸ (I.ok c).legal
  have hn (found) : Next (s.cpu c).regs.stack.proc (.waitHeld q) (.waitRelease q found) :=
    .of hl rfl rfl (.inr rfl)
  simp only [run,hk] at h
  split_ifs at h with hst <;> cases h
  · refine I.set hk rfl (fun _ => ⟨rfl,rfl⟩) (by simp [hst,Ordinary]) (by simp [hst]) (hn true)
      (fun p hp => ?_) rfl rfl
    have := (I.ok c).shows_at hk hp
    have hpq : p ≠ q := by
      rintro rfl
      rw [hst] at this
      cases this
    rwa [setProc_proc_ne _ _ _ hpq]
  · exact I.goto hk (hn false) rfl rfl rfl

/-- The caller of `sched` sets the state of its own process. -/
lemma Inv.setOwn {g : Proc C n → Proc C n} (hk : (s.cpu c).regs.pc = k)
    (hstk : (s.cpu c).regs.stack.proc = some p) (hplain : k.Shows = (· = .running))
    (hh : k.holds (some p) = some p) (hg : ∀ r, (g r).lock = r.lock ∧ (g r).context = r.context)
    (ho : Ordinary .running (g (s.proc p)).state)
    (hn : Next (some p) k k') (hs : k'.Shows (g (s.proc p)).state)
    (hh' : k'.holds (some p) = some p) (hl : k'.locks = k.locks) :
    After s ((s.setProc p g).goto c k') := by
  have hcur := (I.ok c).proc_of_stack (Stack.proc_eq_some.mp hstk)
  have hrun : (s.proc p).state = .running := by
    have := (I.ok c).shows p hcur
    rwa [hk,hplain] at this
  refine I.set hk (by rwa [hstk]) hg (hrun ▸ ho) (.inr (.inr hcur)) (by rwa [hstk]) (fun r hr => ?_)
    (by rwa [hstk]) hl
  obtain rfl := some_inj.mp (hcur.symm.trans hr)
  rwa [setProc_proc]

lemma Inv.allocHeld (hk : (s.cpu c).regs.pc = .allocHeld q) (h : run s c = some t) : After s t := by
  have hl : (Pc.allocHeld q).Legal (s.cpu c).regs.stack.proc := hk ▸ (I.ok c).legal
  obtain ⟨p,hs⟩ := Stack.proc_ne_none hl
  have hcur := (I.ok c).proc_of_stack hs
  simp only [run,hk] at h
  split_ifs at h with hst
  · have hcpu : t.cpu c = { s.cpu c with regs := ⟨(s.cpu c).regs.stack,.allocInit q⟩ } := by
      simp [← some_inj.mp h,Sys.goto]
    have hq : t.proc q = { s.proc q with pid := s.nextpid, state := .used } := by
      simp [← some_inj.mp h,Sys.goto]
    have hr : ∀ r, r ≠ q → t.proc r = s.proc r := fun r hrq => by
      simp [← some_inj.mp h,Sys.goto,hrq]
    have hmaker : t.maker = Function.update s.maker q (some p) := by
      simp [← some_inj.mp h,Sys.goto,hcur]
    have hmade : t.made = Function.update s.made q (s.made q+1) := by
      simp [← some_inj.mp h,Sys.goto]
    refine ⟨I.making (q := q) hk hs hcpu
      (fun c' hc => by simp [← some_inj.mp h,Sys.goto,hc]) (fun r => ?_)
      (by simp [← some_inj.mp h,Sys.goto]) hr (fun r hrq => by simp [hmaker,hrq])
      (by simp [← some_inj.mp h,Sys.goto]) rfl rfl rfl (some_ne_none _) ⟨rfl,rfl,rfl,rfl⟩ (by simp) (by simp)
      (.inl hst) (by simp [hq]) (fun _ hne => absurd rfl hne) (fun r hrq => ?_),fun r => ?_⟩
    · by_cases hrq : r = q
      · rw [hrq,hq]
      · rw [hr r hrq]
    · refine ⟨(some_inj.mp hrq).symm,by simp [hmaker],by rw [hq]⟩
    · rw [hmade]
      by_cases hrq : r = q
      · subst hrq
        simp
      · rw [hr r hrq]
        simp [hrq]
  · cases h
    exact I.goto hk (.of hl rfl rfl (.inr rfl)) rfl rfl rfl

/-- `fork` changes the fields of the child that it is making. -/
lemma Inv.forkSet {g : Proc C n → Proc C n} (hk : (s.cpu c).regs.pc = k)
    (hs : (s.cpu c).regs.stack = .kstack p) (hchild : k.child = some q)
    (hg : ∀ r, (g r).lock = r.lock) (hh : k.holds (some p) = some q)
    (hh' : k'.holds (some p) = some q) (hl : k'.locks = k.locks) (hleg : k'.Legal (some p))
    (hplain : k.Shows = (· = .running) ∧ k'.Shows = (· = .running) ∧ k.target = none ∧ k'.target = none)
    (hleave : ∀ w j, k' ≠ .schedLoad w j) (halloc : ∀ r, k = .allocInit r → r = q)
    (hrun : ∀ r, r.state = .used → (g r).state ≠ .running)
    (hfresh : (g (s.proc q)).state ≠ .unused → (g (s.proc q)).context = ⟨.kstack q,.forkret⟩)
    (hown : k'.child = none ∨ k'.child = some q ∧ ∀ r, r.state = .used → (g r).state = .used) :
    After s ((s.setProc q g).goto c k') := by
  have hc := I.child p k q (.inl ⟨c,by rw [← hs,← hk]⟩) hchild
  generalize ht : (s.setProc q g).goto c k' = t
  have hproc : t.proc = (s.setProc q g).proc := by simp [← ht,Sys.goto]
  have hq : t.proc q = g (s.proc q) := by rw [hproc]; exact setProc_proc ..
  have hr : ∀ r, r ≠ q → t.proc r = s.proc r := fun r h => by
    rw [hproc]
    exact setProc_proc_ne _ _ _ h
  refine ⟨I.making (q := q) hk hs (by simp [← ht,Sys.goto]) (fun c' hc => by simp [← ht,Sys.goto,hc])
    (fun r => ?_) (by simp [← ht,Sys.goto]) hr (fun r _ => by simp [← ht,Sys.goto])
    (by simp [← ht,Sys.goto]) hh hh' hl hleg hplain hleave halloc (.inr ⟨hc.2,hchild⟩)
    (hq ▸ hrun _ hc.2) (fun hu _ => ?_) (fun r hr => ?_),fun r => ⟨by simp [← ht,Sys.goto],fun _ h => ?_⟩⟩
  · by_cases h : r = q
    · rw [h,hq]
      exact hg _
    · rw [hr r h]
  · rw [hq] at hu ⊢
    exact hfresh hu
  · rcases hown with h | ⟨h,h'⟩
    · rw [h] at hr
      cases hr
    · rw [h] at hr
      refine ⟨(some_inj.mp hr).symm,?_,hq ▸ h' _ hc.2⟩
      rw [← hc.1]
      simp [← ht,Sys.goto]
  · by_cases hrq : r = q
    · rw [hrq,hc.2] at h
      simp at h
    · rwa [hr r hrq]

/-- The instructions at a position keep the invariant. -/
theorem Inv.run (h : run s c = some t) : After s t := by
  have O := I.ok c
  have hl := O.legal
  cases hk : (s.cpu c).regs.pc <;> rw [hk] at hl <;> simp only [Smp.run,hk] at h
  case loop i found =>
    split at h
    · exact I.acquire hk h (.of hl rfl rfl (.inr rfl)) rfl rfl rfl rfl
    · cases h
      refine I.flip hk (fun u => ⟨rfl,rfl,rfl,rfl⟩) (fun _ => ?_) (.of hl rfl rfl (.inr rfl))
        rfl rfl rfl
      rw [O.noff,Ctx.holds,hk]
      rfl
  case test p found =>
    split_ifs at h with hst <;> cases h
    · exact I.pick hk hst
    · exact I.goto hk (.of hl rfl rfl (.inr rfl)) rfl rfl rfl
  case save p =>
    cases h
    exact I.saveHome hk
  case load p =>
    cases h
    exact I.resume hk
  case back p =>
    cases h
    exact I.back hk
  case unlock | wakeupRelease | allocRelease | forkCopy =>
    exact I.release hk h (.of hl rfl rfl (.inr rfl)) rfl rfl rfl rfl
  case visit | yieldAcquire | sleepAcquire | forkAcquire =>
    exact I.acquire hk h (.of hl rfl rfl (.inr rfl)) rfl rfl rfl rfl
  case forkFail | forkUnlock =>
    exact I.release hk h (.of ⟨hl,nodup_nil⟩ rfl rfl (.inr rfl)) rfl rfl rfl rfl
  case exitWait | forkWait | waitStart =>
    exact I.acquireSpin hk h (.of hl rfl rfl (.inr rfl)) rfl rfl not_mem_nil rfl
  case idle | handler => cases h
  case wakeup chan i k =>
    split at h
    · split_ifs at h
      · cases h
        exact I.goto hk (.of hl rfl rfl (.inr rfl)) rfl rfl rfl
      · exact I.acquire hk h (.of hl rfl rfl (.inr rfl)) rfl rfl rfl rfl
    · cases h
      exact I.goto hk (.ret hl.1 hl.2 rfl rfl) (Pc.shows_eq hl.1) hl.1 rfl
  case wakeupHeld chan q k => exact I.wakeupHeld hk (by simpa only [Smp.run,hk] using h)
  case visitHeld q set k =>
    have A : After s (s.setProc q fun r => { r with killed := r.killed || set }) :=
      I.touch hk rfl (fun _ => ⟨rfl,rfl,rfl⟩) (.of hl rfl rfl (.inr rfl))
    exact A.trans (A.1.release hk h (.ret hl.1 hl.2 rfl rfl)
      (Pc.shows_eq hl.1) rfl hl.1 rfl)
  case yieldSet p k =>
    cases h
    refine I.setOwn hk hl.1 rfl rfl (fun _ => ⟨rfl,rfl⟩) (by simp [Ordinary])
      (.of ?_ rfl rfl (.inr rfl)) rfl rfl ?_
    · exact ⟨rfl,by simp [Why.relock],fun _ => hl.2.1,hl.1 ▸ hl.2.2⟩
    · show k.locks.diff [] = []
      rw [diff_nil,hl.2.1]
  case sleepRelease p chan lk k =>
    exact I.releaseSpin hk h (.of hl rfl rfl (.inr rfl)) hl.2.1 rfl rfl rfl
  case sleepSet p chan lk k =>
    cases h
    refine I.setOwn hk hl.1 rfl rfl (fun _ => ⟨rfl,rfl⟩) (by simp [Ordinary])
      (.of ?_ rfl rfl (.inr rfl)) rfl rfl ?_
    · exact ⟨rfl,fun l h => mem_singleton.mp h ▸ hl.2.1,by simp [Why.relock],hl.1 ▸ hl.2.2⟩
    · show k.locks.diff [lk] = k.locks.erase lk
      rw [diff_cons,diff_nil]
  case sched w k => exact I.sched hk h
  case schedSave p w k intena =>
    cases h
    exact I.schedSave hk
  case schedLoad w k =>
    cases h
    exact I.schedLoad hk
  case resumed w k intena =>
    cases h
    exact I.flip hk (fun u => ⟨rfl,rfl,rfl,rfl⟩) O.intr (.of hl rfl rfl (.inr rfl)) rfl rfl rfl
  case woken w k =>
    cases w with
    | yield p =>
      exact I.release hk h (.ret hl.2.2.2.1 hl.2.2.2.2 rfl rfl)
        (Pc.shows_eq hl.2.2.2.1) rfl hl.2.2.2.1 hl.2.2.1
    | sleep p lk =>
      cases h
      have A : After s (s.setProc p fun r => { r with chan := 0 }) :=
        I.touch hk rfl (fun _ => ⟨rfl,rfl,rfl⟩) (.of hl rfl rfl (.inr rfl))
      exact A.trans (A.1.goto hk (.of ⟨hl.1,hl.2.2⟩ rfl rfl (.inr rfl)) rfl rfl rfl)
    | exit p => exact absurd rfl hl.2.1
  case sleepUnlock p lk k =>
    exact I.release hk h (.of ⟨by simp [hl.1],hl.2⟩ rfl rfl (.inr rfl)) rfl rfl rfl rfl
  case sleepRelock lk k =>
    exact I.acquireSpin hk h (.ret hl.2.2.1 hl.2.2.2 rfl rfl)
      (Pc.shows_eq hl.2.2.1) hl.2.2.1 not_mem_nil hl.2.1
  case exitBody =>
    obtain ⟨p,hs⟩ := Stack.proc_ne_none hl
    rw [O.proc_of_stack hs] at h
    exact I.acquire hk h (.of (by rw [hs]; rfl) rfl rfl (.inr rfl)) rfl rfl rfl rfl
  case exitSet p =>
    cases h
    exact I.setOwn hk hl rfl rfl (fun _ => ⟨rfl,rfl⟩) (by simp [Ordinary]) (.of rfl rfl rfl (.inr rfl))
      rfl
      rfl rfl
  case exitRelease p =>
    exact I.releaseSpin hk h (.of ⟨hl,by simp [Why.relock],fun _ => rfl,rfl,by simp [show _ = _ from hl],
      nodup_nil⟩ rfl rfl (.inr rfl)) (mem_singleton_self _) rfl rfl rfl
  case kill pid i | alloc i =>
    split at h
    · exact I.acquire hk h (.of hl rfl rfl (.inr rfl)) rfl rfl rfl rfl
    · cases h
      exact I.goto hk (.of ⟨hl,nodup_nil⟩ rfl rfl (.inr rfl)) rfl rfl rfl
  case killHeld pid q => exact I.killHeld hk (by simpa only [Smp.run,hk] using h)
  case killRelease pid q found =>
    cases found
    · exact I.release hk h (.of hl rfl rfl (.inr rfl)) rfl rfl rfl rfl
    · exact I.release hk h (.of ⟨hl,nodup_nil⟩ rfl rfl (.inr rfl)) rfl rfl rfl rfl
  case allocHeld q => exact I.allocHeld hk (by simpa only [Smp.run,hk] using h)
  case allocInit q =>
    cases h
    obtain ⟨p,hs⟩ := Stack.proc_ne_none hl
    exact I.forkSet hk hs rfl (fun _ => rfl) rfl rfl rfl (some_ne_none _) ⟨rfl,rfl,rfl,rfl⟩ (by simp)
      (fun r h => (Pc.allocInit.inj h).symm) (fun r h => by simp [h]) (fun _ => rfl)
      (.inr ⟨rfl,fun r h => h⟩)
  case forkParent q =>
    exact I.releaseSpin hk h (.of hl rfl rfl (.inr rfl)) (mem_singleton_self _) rfl rfl rfl
  case forkStart q =>
    cases h
    obtain ⟨p,hs⟩ := Stack.proc_ne_none hl
    have hc := I.child p _ q (Inv.thread hs) (by rw [hk]; rfl)
    have hlk : (s.proc q).lock = some c := (O.lock q).mpr (by rw [Ctx.holds,hk]; rfl)
    refine I.forkSet hk hs rfl (fun _ => rfl) rfl rfl rfl (some_ne_none _) ⟨rfl,rfl,rfl,rfl⟩ (by simp) (by simp)
      (fun _ _ => (by simp)) (fun _ => ?_) (.inl rfl)
    refine I.fresh q hc.2 fun c' ha => ?_
    have := ((I.ok c').lock q).mpr (by rw [Ctx.holds,ha]; rfl)
    rw [hlk] at this
    rw [← some_inj.mp this,hk] at ha
    cases ha
  case forkret =>
    obtain ⟨p,hs⟩ := Stack.proc_ne_none hl
    rw [O.proc_of_stack hs] at h
    exact I.release hk h (.of ⟨hl,nodup_nil⟩ rfl rfl (.inr rfl)) rfl
      (by rw [hs]; rfl) rfl rfl
  case waitScan i =>
    split at h
    · exact I.acquire hk h (.of hl rfl rfl (.inr rfl)) rfl rfl rfl rfl
    · cases h
      exact I.goto hk (.of hl rfl rfl (.inr rfl)) rfl rfl rfl
  case waitHeld q => exact I.waitHeld hk (by simpa only [Smp.run,hk] using h)
  case waitRelease q found =>
    cases found
    · exact I.release hk h (.of hl rfl rfl (.inr rfl)) rfl rfl rfl rfl
    · exact I.release hk h (.of hl rfl rfl (.inr rfl)) rfl rfl rfl rfl
  case waitDone found =>
    exact I.releaseSpin hk h (.of ⟨hl,nodup_nil⟩ rfl rfl (.inr rfl))
      (mem_singleton_self _) rfl rfl rfl

end

omit [DecidableEq C] in
lemma Ok.stack_of_proc (O : Ok s c) (hp : (s.cpu c).proc = some p)
    (ht : (s.cpu c).regs.pc.target = none) : (s.cpu c).regs.stack = .kstack p := by
  have h := O.cpu_proc
  rw [hp,Ctx.current,ht] at h
  split at h
  · cases h
  · rename_i hs
    rw [hs,some_inj.mp h]

lemma Inv.callIdle (I : Inv s) (h : (if (s.cpu c).regs.pc = .idle [] then some (s.goto c k) else none) =
    some t) (hl : (s.cpu c).regs.stack.proc ≠ none → k.Legal (s.cpu c).regs.stack.proc)
    (hp : k.plain = true) (hn : k.child = none) (hs : k.Shows = (· = .running))
    (hh : k.holds (s.cpu c).regs.stack.proc = none) (hk : k.locks = []) : After s t := by
  obtain ⟨hidle,h⟩ := ite_none_right_eq_some.mp h
  cases h
  have hleg := (I.ok c).legal
  rw [hidle] at hleg
  exact I.goto hidle (.of (hl hleg.1) rfl hp (.inl hn)) hs hh hk

/-- So do the calls, interrupts and failures. -/
theorem Inv.call {a : Act n} (I : Inv s) (h : call s c a = some t) : After s t := by
  have O := I.ok c
  have hl := O.legal
  cases a with
  | run => cases h
  | interrupt =>
    simp only [Smp.call] at h
    split_ifs at h with hi
    cases h
    have hno := O.noff
    rw [O.intr hi] at hno
    have hlocks : (s.cpu c).regs.pc.locks = [] := eq_nil_of_length_eq_zero (by omega)
    have hholds : (s.cpu c).regs.holds = none := by
      cases hh : (s.cpu c).regs.holds with
      | none => rfl
      | some q =>
        rw [hh,toList_some,length_singleton] at hno
        omega
    exact I.flip rfl (fun u => ⟨rfl,rfl,rfl,rfl⟩) (by simp)
      (.of ⟨nodup_nil,hlocks,hholds,hl⟩ (Pc.plain_of_holds hholds) rfl (.inr rfl))
      (Pc.shows_eq hholds).symm hholds.symm hlocks.symm
  | iret =>
    simp only [Smp.call] at h
    split at h
    · rename_i k hk
      cases h
      rw [hk] at hl
      refine I.flip hk (fun u => ⟨rfl,rfl,rfl,rfl⟩) (fun _ => ?_)
        (.ret hl.2.2.1 hl.2.2.2 rfl rfl) (Pc.shows_eq hl.2.2.1) hl.2.2.1
        hl.2.1
      rw [O.noff,Ctx.holds,hk]
      rfl
    · cases h
  | yield =>
    simp only [Smp.call] at h
    split at h
    · rename_i k p hk hp
      cases h
      rw [hk] at hl
      have hstk := O.stack_of_proc hp (by rw [hk]; rfl)
      exact I.goto hk (.of ⟨by rw [hstk]; rfl,rfl,rfl,hl⟩ rfl rfl (.inr rfl)) rfl rfl rfl
    · cases h
  | acquire l =>
    simp only [Smp.call] at h
    split at h
    · rename_i ls hk
      rw [hk] at hl
      split_ifs at h with hm
      exact I.acquireSpin hk h (.of ⟨hl.1,nodup_cons.mpr ⟨hm,hl.2⟩⟩ rfl rfl (.inr rfl))
        rfl rfl hm rfl
    · rename_i ls k hk
      rw [hk] at hl
      split_ifs at h with hm
      exact I.acquireSpin hk h (.of ⟨nodup_cons.mpr ⟨hm,hl.1⟩,hl.2⟩ rfl rfl (.inr rfl))
        rfl rfl hm rfl
    · cases h
  | release l =>
    simp only [Smp.call] at h
    split at h
    · rename_i ls hk
      rw [hk] at hl
      split_ifs at h with hm
      exact I.releaseSpin hk h (.of ⟨hl.1,hl.2.erase l⟩ rfl rfl (.inr rfl)) hm rfl rfl rfl
    · rename_i ls k hk
      rw [hk] at hl
      split_ifs at h with hm
      exact I.releaseSpin hk h (.of ⟨hl.1.erase l,hl.2⟩ rfl rfl (.inr rfl)) hm rfl rfl rfl
    · cases h
  | sleep chan lk =>
    simp only [Smp.call] at h
    split at h
    · rename_i ls p hk hp
      rw [hk] at hl
      split_ifs at h with hm
      cases h
      have hstk := O.stack_of_proc hp (by rw [hk]; rfl)
      exact I.goto hk (.of ⟨by rw [hstk]; rfl,hm,rfl,hl⟩ rfl rfl (.inr rfl)) rfl rfl rfl
    · rename_i p hk hp
      rw [hk] at hl
      split_ifs at h with hm
      cases h
      have hstk := O.stack_of_proc hp (by rw [hk]; rfl)
      exact I.goto hk (.of ⟨by rw [hstk]; rfl,by simp [hm,Pc.locks],rfl,hl⟩ rfl rfl (.inr rfl))
        rfl rfl rfl
    · cases h
  | wakeup chan =>
    simp only [Smp.call] at h
    split at h
    · rename_i ls hk
      rw [hk] at hl
      cases h
      exact I.goto hk (.of ⟨rfl,hl⟩ rfl rfl (.inr rfl)) rfl rfl rfl
    · rename_i ls k hk
      rw [hk] at hl
      cases h
      exact I.goto hk (.of ⟨rfl,hl⟩ rfl rfl (.inr rfl)) rfl rfl rfl
    · rename_i hk
      rw [hk] at hl
      cases h
      exact I.goto hk (.of ⟨rfl,hl⟩ rfl rfl (.inr rfl)) rfl rfl rfl
    · cases h
  | visit q set =>
    simp only [Smp.call] at h
    split at h
    · rename_i ls hk
      rw [hk] at hl
      cases h
      exact I.goto hk (.of ⟨rfl,hl⟩ rfl rfl (.inr rfl)) rfl rfl rfl
    · rename_i hk
      rw [hk] at hl
      cases h
      exact I.goto hk (.of ⟨rfl,hl⟩ rfl rfl (.inr rfl)) rfl rfl rfl
    · cases h
  | exit | kill pid | fork | wait => exact I.callIdle h id rfl rfl rfl rfl rfl
  | fail =>
    simp only [Smp.call] at h
    split at h
    · rename_i q hk
      rw [hk] at hl
      cases h
      obtain ⟨p,hs⟩ := Stack.proc_ne_none hl
      exact I.forkSet hk hs rfl (fun _ => rfl) rfl rfl rfl (some_ne_none _) ⟨rfl,rfl,rfl,rfl⟩ (by simp)
        (fun r h => (Pc.allocInit.inj h).symm) (fun r h => (by simp)) (fun hu => absurd rfl hu) (.inl rfl)
    · rename_i q hk
      rw [hk] at hl
      cases h
      obtain ⟨p,hs⟩ := Stack.proc_ne_none hl
      exact I.forkSet hk hs rfl (fun _ => rfl) rfl rfl rfl (some_ne_none _) ⟨rfl,rfl,rfl,rfl⟩ (by simp)
        (by simp) (fun r h => (by simp)) (fun hu => absurd rfl hu) (.inl rfl)
    · rename_i q hk
      rw [hk] at hl
      split_ifs at h
      cases h
      exact I.goto hk (.of hl rfl rfl (.inr rfl)) rfl rfl rfl
    · cases h
  | skip =>
    simp only [Smp.call] at h
    split at h
    · rename_i i hk
      rw [hk] at hl
      split_ifs at h
      cases h
      exact I.goto hk (.of hl rfl rfl (.inr rfl)) rfl rfl rfl
    · cases h

theorem Inv.step {e : C×Act n} (I : Inv s) (h : step s e = some t) : After s t := by
  rw [Smp.step] at h
  split_ifs at h
  split at h
  · exact I.run h
  · exact I.call h

omit [DecidableEq C] in
lemma Sys.Initial.inv (h : s.Initial) : Inv s := by
  have hproc : ∀ c p, (s.cpu c).proc ≠ some p := fun c p hp => by
    rw [h.cpu_proc] at hp
    cases hp
  refine ⟨fun c => ⟨?_,?_,?_,?_,?_,fun q => ?_,fun l => ?_,?_,?_,?_⟩,?_,?_,?_,?_,?_,.inl h.panicked⟩
  · rw [h.regs]
    rfl
  · rw [h.regs]
    exact fun c' h => (Stack.sched.inj h).symm
  · rw [h.cpu_proc,h.regs]
    rfl
  · rw [h.noff,h.regs]
    rfl
  · exact fun _ => h.noff c
  · rw [h.lock,h.regs]
    exact ⟨nofun,nofun⟩
  · rw [h.spin,h.regs]
    exact ⟨nofun,nofun⟩
  · exact fun p hp => absurd hp (hproc c p)
  · rw [h.regs]
    rintro p (hp | hp) <;> cases hp
  · rw [h.regs]
    rintro p w k hp
    cases hp
  · exact fun c c' p hp => absurd hp (hproc c p)
  · intro p hp
    rcases h.state p with hs | ⟨hs,-⟩ <;> rw [hs] at hp <;> cases hp
  · intro p _ hp _
    rcases h.state p with hs | ⟨-,hs⟩
    · rw [hs] at hp
      simp at hp
    · rw [hs]
      exact ⟨rfl,.inl rfl,nofun⟩
  · intro p hp _
    rcases h.state p with hs | ⟨hs,-⟩ <;> rw [hs] at hp <;> cases hp
  · rintro p k q (⟨c,hr⟩ | ⟨-,hst,hctx⟩) hk
    · rw [h.regs] at hr
      cases hr
    · rcases h.state p with hs | ⟨-,hs⟩
      · rw [hs] at hst
        simp at hst
      · rw [hs] at hctx
        cases hctx
        cases hk

lemma Inv.runs {es : List (C×Act n)} (I : Inv s) (h : Runs Smp.step (fun _ _ => True) s es t) :
    After s t := by
  induction h with
  | nil s => exact ⟨I,fun p => ⟨le_rfl,fun _ h => h⟩⟩
  | cons _ hs _ ih =>
    have A := I.step hs
    exact A.trans (ih A.1)

omit [DecidableEq C] in
/-- When the lock of a process is free, its state says whether some CPU executes it. -/
lemma Inv.running_iff (I : Inv s) (hlk : (s.proc p).lock = none) :
    (s.proc p).state = .running ↔ ∃! c, (s.cpu c).proc = some p := by
  constructor
  · intro h
    obtain ⟨c,hc⟩ := I.parked p h
    exact ⟨c,hc,fun c' hc' => I.unique c' c p hc' hc⟩
  · rintro ⟨c,hc,-⟩
    have hh : (s.cpu c).regs.holds ≠ some p := fun h => by
      have := ((I.ok c).lock p).mpr h
      rw [hlk] at this
      cases this
    exact (Ctx.shows_iff (I.ok c).legal ((I.ok c).cpu_proc.symm.trans hc) hh).mp
      ((I.ok c).shows p hc)

omit [DecidableEq C] in
lemma Ok.proc_of_executes (O : Ok s c) (h : s.Executes c p) : (s.cpu c).proc = some p := by
  rcases h with h | h
  · exact O.proc_of_stack h
  · exact (O.scheduler h fun _ => id).2

/-- Each process runs on at most one CPU: in every state that the CPUs reach after boot, a process
whose lock is free is running exactly when it is the process of exactly one CPU; no two CPUs
execute on its stack or are about to; from then on its slot becomes runnable after the end of the
process only through `allocproc`; and `sched` finds the lock held and the state changed. -/
theorem runs_on_one_cpu {es : List (C×Act n)} (hs : s.Initial)
    (hr : Runs Smp.step (fun _ _ => True) s es t) :
    (∀ p, (t.proc p).lock = none →
      ((t.proc p).state = .running ↔ ∃! c, (t.cpu c).proc = some p)) ∧
    (∀ p c c', t.Executes c p → t.Executes c' p → c = c') ∧
    (∀ fs u, Runs Smp.step (fun _ _ => True) t fs u → ∀ p, (t.proc p).state ∈ [.zombie,.unused] →
      (u.proc p).state = .runnable → t.made p < u.made p) ∧
    (∀ c w k, (t.cpu c).regs.pc = .sched w k → ∃ p, (t.cpu c).proc = some p ∧
      (t.proc p).lock = some c ∧ (t.proc p).state ≠ .running) ∧
    (t.panicked = none ∨ t.panicked = some "sched locks") := by
  have I := (hs.inv.runs hr).1
  refine ⟨fun p => I.running_iff,fun p c c' h h' => ?_,fun fs u hu p hp hrun => ?_,
    fun c w k hk => ⟨_,I.sched_checks hk⟩,I.calm⟩
  · exact I.unique c c' p ((I.ok c).proc_of_executes h) ((I.ok c').proc_of_executes h')
  · obtain ⟨hle,hdead⟩ := (I.runs hu).2 p
    refine lt_of_le_of_ne hle fun he => ?_
    have := hdead he.symm hp
    rw [hrun] at this
    simp at this

/-- Two CPUs and the first process. -/
def boot : Sys (Fin 2) 1 where
  cpu c := ⟨none,0,false,⟨.sched c,.loop 0 false⟩,false,⟨.sched c,.loop 0 false⟩⟩
  proc p := ⟨none,.runnable,0,false,1,⟨.kstack p,.forkret⟩⟩
  spin _ := none
  nextpid := 2
  panicked := none
  made _ := 1
  maker _ := none

lemma boot_initial : boot.Initial :=
  ⟨fun _ => rfl,fun _ => rfl,fun _ => rfl,fun _ => rfl,fun _ => .inr ⟨rfl,rfl⟩,fun _ => rfl,rfl⟩

theorem runs_on_one_cpu_boot : ∃ t,
    Runs Smp.step (fun _ _ => True) boot
      ((List.replicate 5 (0,.run))++(List.replicate 3 (1,.run))) t ∧
    (t.proc 0).state = .running ∧ ∃! c, (t.cpu c).proc = some 0 := by
  obtain ⟨t,hr,hst,hlk⟩ := Runs.exists_of_execIf Smp.step (fun _ _ => True) boot
    ((List.replicate 5 (0,.run))++(List.replicate 3 (1,.run)))
    (fun t => (t.proc 0).state = .running ∧ (t.proc 0).lock = none) (by decide)
  exact ⟨t,hr,hst,((runs_on_one_cpu boot_initial hr).1 0 hlk).mp hst⟩

end Xv6.Smp
