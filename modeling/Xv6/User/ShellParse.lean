import Xv6.User.ShellTokens

/-! The shell's parser on the characters of a line follows the parser on the tokens of the line; so
it accepts exactly the grammar and returns the tree of the derivation. -/
namespace Xv6.Shell
open List Ulib

/-! ### Tokens -/

section Lex
variable {s toks : Str} {c : UInt8} {t : Token} {ts : List Token}

lemma among_iff (h : 0 ∉ toks) : among toks c = true ↔ c ∈ toks := by
  rw [among,strchr_isSome h,contains_iff_mem]

lemma among_symbols : among symbols c = true ↔ among (str "|();&<") c = true ∨ c = 62 := by
  rw [among_iff (by decide),among_iff (by decide)]
  simp [symbols,str]
  tauto

lemma wordChar_iff : wordChar c = true ↔ among whitespace c = false ∧ among symbols c = false := by
  simp [wordChar]

lemma whitespace_not_symbol (h : among symbols c = true) : among whitespace c = false := by
  rw [among_iff (by decide)] at h
  simp [symbols,str] at h
  obtain rfl | rfl | rfl | rfl | rfl | rfl | rfl := h <;> decide

lemma lex_space (h : among whitespace c = true) (s : Str) : lex (c::s) = lex s := by
  cases s with
  | nil => simp [lex,h]
  | cons d s => simp [lex,h]

lemma lex_gt (s : Str) : lex (62::s) = if deref s = 62 then .gtgt::lex s.tail else .gt::lex s := by
  have hw : among whitespace 62 = false := by decide
  cases s with
  | nil => simp [lex,hw,deref]
  | cons d s => simp [lex,hw,deref]

lemma lex_symbol (h : among (str "|();&<") c = true) (s : Str) : lex (c::s) = symbol c::lex s := by
  have hs : among symbols c = true := among_symbols.mpr (.inl h)
  have hw := whitespace_not_symbol hs
  have hne : c ≠ 62 := by
    rintro rfl
    exact absurd h (by decide)
  cases s with
  | nil => simp [lex,hw,hne,hs]
  | cons d s => simp [lex,hw,hne,hs]

lemma lex_word (h : wordChar c = true) (s : Str) :
    lex (c::s) = .word ((c::s).takeWhile wordChar)::lex ((c::s).dropWhile wordChar) := by
  obtain ⟨hw,hs⟩ := wordChar_iff.mp h
  have hne : c ≠ 62 := by
    rintro rfl
    exact absurd hs (by decide)
  induction s generalizing c with
  | nil => simp [lex,hw,hs,hne,h]
  | cons d s ih =>
    rw [takeWhile_cons_of_pos h,dropWhile_cons_of_pos h]
    simp only [lex,hw,hne,hs,if_false,Bool.false_eq_true]
    by_cases hd : wordChar d = true
    · obtain ⟨hw',hs'⟩ := wordChar_iff.mp hd
      have hne' : d ≠ 62 := by
        rintro rfl
        exact absurd hs' (by decide)
      rw [if_pos hd,ih hd hw' hs' hne']
    · rw [if_neg hd,takeWhile_cons_of_neg hd,dropWhile_cons_of_neg hd]

lemma lex_skip (s : Str) : lex (skip s) = lex s := by
  induction s with
  | nil => rfl
  | cons c s ih =>
    by_cases h : among whitespace c = true
    · rw [skip,dropWhile_cons_of_pos h,lex_space h]
      exact ih
    · rw [skip,dropWhile_cons_of_neg h]

lemma skip_suffix (s : Str) : skip s <:+ s := List.dropWhile_suffix _

lemma skip_head {s' : Str} (h : skip s = c::s') : among whitespace c = false := by
  have := List.head?_dropWhile_not (among whitespace) s
  rw [show s.dropWhile (among whitespace) = c::s' from h] at this
  simpa using this

/-- The code that `gettoken` returns for a token. -/
def Token.code : Token → UInt8
  | .word _ => 97
  | .lt => 60
  | .gt => 62
  | .gtgt => 43
  | .bar => 124
  | .amp => 38
  | .semi => 59
  | .lpar => 40
  | .rpar => 41

/-- A token that begins with one of the symbols `toks`. -/
def Token.starts (toks : Str) : Token → Bool
  | .word _ => false
  | .gtgt => among toks 62
  | t => among toks t.code

/-- The pointers `q` and `eq` enclose the word `w`. -/
structure Encloses (g : Got) (w : Str) : Prop where
  text : g.q = w++g.eq
  pos : 0 < w.length
  chars : ∀ c ∈ w, wordChar c = true
  stop : ∀ c ∈ g.eq.head?, wordChar c = false

lemma symbol_code (h : among (str "|();&<") c = true) :
    (symbol c).code = c ∧ (∀ w, symbol c ≠ .word w) ∧
      ∀ toks, (symbol c).starts toks = among toks c := by
  rw [among_iff (by decide)] at h
  simp [str] at h
  obtain rfl | rfl | rfl | rfl | rfl | rfl := h <;> exact ⟨rfl,nofun,fun _ => rfl⟩

lemma cursor_cases (h0 : 0 ∉ s) :
    (skip s = [] ∧ lex s = []) ∨
    (∃ c s', skip s = c::s' ∧ among (str "|();&<") c = true ∧ lex s = symbol c::lex s') ∨
    (∃ s', skip s = 62::s' ∧
      lex s = if deref s' = 62 then .gtgt::lex s'.tail else .gt::lex s') ∨
    ∃ c s', skip s = c::s' ∧ c ≠ 0 ∧ among (str "|();&<") c = false ∧ c ≠ 62 ∧ wordChar c = true ∧
      lex s = .word ((c::s').takeWhile wordChar)::lex ((c::s').dropWhile wordChar) := by
  have hl := lex_skip s
  cases hs : skip s with
  | nil =>
    rw [hs] at hl
    exact .inl ⟨rfl,hl.symm⟩
  | cons c s' =>
    have hw := skip_head hs
    have hc0 : c ≠ 0 := by
      rintro rfl
      exact h0 ((skip_suffix s).mem (by rw [hs]; exact mem_cons_self))
    rw [hs] at hl
    by_cases h₁ : among (str "|();&<") c = true
    · exact .inr (.inl ⟨c,s',rfl,h₁,hl.symm.trans (lex_symbol h₁ s')⟩)
    · by_cases h₂ : c = 62
      · subst h₂
        exact .inr (.inr (.inl ⟨s',rfl,hl.symm.trans (lex_gt s')⟩))
      · have hword : wordChar c = true := by
          refine wordChar_iff.mpr ⟨hw,?_⟩
          by_contra hn
          exact (among_symbols.mp (by simpa using hn)).elim h₁ h₂
        exact .inr (.inr (.inr ⟨c,s',rfl,hc0,by simpa using h₁,h₂,hword,
          hl.symm.trans (lex_word hword s')⟩))

/-- Nothing but whitespace is left exactly when no token is. -/
lemma skip_eq_nil (h0 : 0 ∉ s) : skip s = [] ↔ lex s = [] := by
  obtain ⟨hs,hl⟩ | ⟨c,s',hs,-,hl⟩ | ⟨s',hs,hl⟩ | ⟨c,s',hs,-,-,-,-,hl⟩ := cursor_cases h0
  · simp [hs,hl]
  · simp [hs,hl]
  · rw [hs,hl]
    split_ifs <;> simp
  · simp [hs,hl]

lemma gettoken_nil (h0 : 0 ∉ s) (h : lex s = []) : (gettoken s).ret = 0 ∧ (gettoken s).ps = [] := by
  have hg : gettoken s = ⟨0,[],[],[]⟩ := by
    simp only [gettoken,(skip_eq_nil h0).mpr h]
    rfl
  rw [hg]
  exact ⟨rfl,rfl⟩

lemma gettoken_cons (h0 : 0 ∉ s) (h : lex s = t::ts) :
    (gettoken s).ret = t.code ∧ lex (gettoken s).ps = ts ∧ (gettoken s).q <:+ s ∧
      (gettoken s).ps <:+ s ∧ ∀ w, t = .word w → Encloses (gettoken s) w := by
  have hsuf := skip_suffix s
  obtain ⟨-,hl⟩ | ⟨c,s',hs,hc,hl⟩ | ⟨s',hs,hl⟩ | ⟨c,s',hs,hc0,hc,hne,hword,hl⟩ := cursor_cases h0
  · rw [hl] at h
    cases h
  · rw [hl] at h
    obtain ⟨rfl,rfl⟩ := List.cons.inj h
    obtain ⟨hcode,hnot,-⟩ := symbol_code hc
    have hc0 : c ≠ 0 := by
      rintro rfl
      exact absurd hc (by decide)
    have hg : gettoken s = ⟨c,c::s',s',skip s'⟩ := by simp [gettoken,hs,hc,hc0]
    rw [hs] at hsuf
    rw [hg]
    exact ⟨hcode.symm,lex_skip s',hsuf,(skip_suffix s').trans ((suffix_cons c s').trans hsuf),
      fun w hw => absurd hw (hnot w)⟩
  · rw [hs] at hsuf
    have hs' := (suffix_cons 62 s').trans hsuf
    have hw : among (str "|();&<") 62 = false := by decide
    rw [hl] at h
    by_cases hd : deref s' = 62
    · rw [if_pos hd] at h
      obtain ⟨rfl,rfl⟩ := List.cons.inj h
      have hg : gettoken s = ⟨43,62::s',s'.tail,skip s'.tail⟩ := by simp [gettoken,hs,hw,hd]
      rw [hg]
      exact ⟨rfl,lex_skip _,hsuf,((skip_suffix _).trans (tail_suffix _)).trans hs',nofun⟩
    · rw [if_neg hd] at h
      obtain ⟨rfl,rfl⟩ := List.cons.inj h
      have hg : gettoken s = ⟨62,62::s',s',skip s'⟩ := by simp [gettoken,hs,hw,hd]
      rw [hg]
      exact ⟨rfl,lex_skip _,hsuf,(skip_suffix _).trans hs',nofun⟩
  · rw [hl] at h
    obtain ⟨rfl,rfl⟩ := List.cons.inj h
    have hg : gettoken s = ⟨97,c::s',(c::s').dropWhile wordChar,skip ((c::s').dropWhile wordChar)⟩ := by
      simp [gettoken,hs,hc,hc0,hne]
    rw [hs] at hsuf
    rw [hg]
    refine ⟨rfl,lex_skip _,hsuf,((skip_suffix _).trans (dropWhile_suffix _)).trans hsuf,?_⟩
    intro w hw
    cases hw
    refine ⟨takeWhile_append_dropWhile.symm,by simp [takeWhile_cons_of_pos hword],
      all_eq_true.mp all_takeWhile,fun d hd => ?_⟩
    have hstop := List.head?_dropWhile_not wordChar (c::s')
    rw [Option.mem_def.mp hd] at hstop
    exact hstop

lemma length_lex_le (s : Str) : (lex s).length ≤ s.length := by
  fun_induction lex s with grind

/-- `peek` looks at the first character of the next token. -/
lemma peek_eq (h0 : 0 ∉ s) (hsub : toks ⊆ symbols) :
    peek s toks = ((lex s).head?.any (Token.starts toks),skip s) := by
  rw [peek]
  congr 1
  obtain ⟨hs,hl⟩ | ⟨c,s',hs,hc,hl⟩ | ⟨s',hs,hl⟩ | ⟨c,s',hs,hc0,-,-,hword,hl⟩ := cursor_cases h0
  · rw [hs,hl]
    rfl
  · have hc0 : c ≠ 0 := by
      rintro rfl
      exact absurd hc (by decide)
    rw [hs,hl,List.head?_cons,Option.any_some,(symbol_code hc).2.2]
    simp [deref,hc0]
  · rw [hs,hl]
    split_ifs <;> simp [deref,Token.starts,Token.code]
  · have hnot : among toks c = false := by
      have hs' := (wordChar_iff.mp hword).2
      have hnul : (0 : UInt8) ∉ symbols := by decide
      rw [Bool.eq_false_iff,ne_eq,among_iff hnul] at hs'
      rw [Bool.eq_false_iff,ne_eq,among_iff fun hm => hnul (hsub hm)]
      exact fun hm => hs' (hsub hm)
    rw [hs,hl,List.head?_cons,Option.any_some]
    simp [deref,Token.starts,hnot]

end Lex

/-! ### Strings -/

/-- A span of the line `L` that is a whole word. -/
structure IsWord (L : Str) (sp : Span) (w : Str) : Prop where
  text : (L.drop sp.q).take (sp.eq-sp.q) = w
  length : sp.eq = sp.q+w.length
  pos : 0 < w.length
  le : sp.eq ≤ L.length
  chars : ∀ c ∈ w, wordChar c = true
  stop : ∀ c ∈ L[sp.eq]?, wordChar c = false

def text (L : Str) (sp : Span) : Str := (L.drop sp.q).take (sp.eq-sp.q)

/-- All strings of the tree are words of the line. -/
def Good (L : Str) (c : Cmd Span) : Prop := ∀ sp ∈ c.strings, IsWord L sp (text L sp)

lemma isWord_span {L w : Str} {g : Got} (h : Encloses g w) (hq : g.q <:+ L) :
    IsWord L (span L.length g) w := by
  obtain ⟨l,rfl⟩ := hq
  have hq := h.text
  have hlen : g.q.length = w.length+g.eq.length := by rw [hq,length_append]
  have hspan : span (l++g.q).length g = ⟨l.length,l.length+w.length⟩ := by
    rw [span,length_append,Nat.add_sub_cancel]
    congr 1
    omega
  rw [hspan]
  constructor
  · change List.take (l.length+w.length-l.length) (List.drop l.length _) = w
    rw [drop_left,hq,Nat.add_sub_cancel_left,take_left]
  · rfl
  · exact h.pos
  · change l.length+w.length ≤ _
    rw [length_append]
    omega
  · exact h.chars
  · intro c hc
    refine h.stop c ?_
    change c ∈ (l++g.q)[l.length+w.length]? at hc
    rwa [List.getElem?_append_right (Nat.le_add_right _ _),Nat.add_sub_cancel_left,hq,
      List.getElem?_append_right le_rfl,Nat.sub_self,← List.head?_eq_getElem?] at hc

section Trees
variable {α β : Type} {a : α} {c : Cmd α} {f : α → β}

lemma map_addArg : (c.addArg a).map f = (c.map f).addArg (f a) := by
  induction c with
  | exec argv => simp [Cmd.addArg,Cmd.map]
  | redir c b m d ih => simp [Cmd.addArg,Cmd.map,ih]
  | _ => rfl

lemma mem_addArg {b : α} (h : b ∈ (c.addArg a).strings) : b = a ∨ b ∈ c.strings := by
  induction c with
  | exec argv =>
    simp only [Cmd.addArg,Cmd.strings,mem_append,mem_singleton] at h ⊢
    exact h.symm
  | redir c e m d ih =>
    simp only [Cmd.addArg,Cmd.strings,mem_append,mem_singleton] at h ⊢
    obtain h | h := h
    · exact (ih h).imp_right .inl
    · exact .inr (.inr h)
  | _ => exact .inr h

end Trees

/-! ### The characters of the line and its tokens -/

/-- The cursor `s` in the line `L`, with the tokens that are left. -/
structure At (L s : Str) (ts : List Token) : Prop where
  nul : 0 ∉ L
  suffix : s <:+ L
  tokens : lex s = ts

/-- The tree `d` of pointers into the line `L` stands for the tree `c` of words. -/
structure Stands (L : Str) (d : Cmd Span) (c : Cmd Str) : Prop where
  good : Good L d
  map : d.map (text L) = c

/-- The two parsers come to the same. -/
inductive Sim (L : Str) : Parsed → Read → Prop
  | ok {d s c ts} (hd : Stands L d c) (hs : At L s ts) : Sim L (.ok (d,s)) (.ok (c,ts))
  | error {e} : Sim L (.error e) (.error e)

section Simulation
variable {L s : Str} {n argc : ℕ} {d d' : Cmd Span} {c c' : Cmd Str} {t : Token}
  {ts : List Token}

namespace At

lemma not_mem (h : At L s ts) : 0 ∉ s := fun hm => h.nul (h.suffix.mem hm)

lemma gettoken_nil (h : At L s []) : (gettoken s).ret = 0 ∧ At L (gettoken s).ps [] := by
  obtain ⟨hret,hps⟩ := Shell.gettoken_nil h.not_mem h.tokens
  exact ⟨hret,h.nul,hps ▸ nil_suffix,by rw [hps]; rfl⟩

lemma gettoken (h : At L s (t::ts)) : (gettoken s).ret = t.code ∧ At L (gettoken s).ps ts ∧
    ∀ w, t = .word w → IsWord L (span L.length (gettoken s)) w := by
  obtain ⟨hret,hl,hq,hps,hw⟩ := gettoken_cons h.not_mem h.tokens
  exact ⟨hret,⟨h.nul,hps.trans h.suffix,hl⟩,fun w e => isWord_span (hw w e) (hq.trans h.suffix)⟩

lemma peek (h : At L s ts) (toks : Str) (hsub : toks.all (among symbols) = true) :
    ∃ s', peek s toks = (ts.head?.any (Token.starts toks),s') ∧ At L s' ts := by
  have hsub' : toks ⊆ symbols := fun c hc =>
    (among_iff (by decide)).mp (all_eq_true.mp hsub c hc)
  exact ⟨skip s,by rw [peek_eq h.not_mem hsub',h.tokens],h.nul,(skip_suffix s).trans h.suffix,
    (lex_skip s).trans h.tokens⟩

lemma peek_symbol (h : At L s ts) (t : Token) (toks : Str) (hsub : toks.all (among symbols) = true)
    (ht : ∀ t', t'.starts toks = decide (t' = t)) :
    ∃ s', Shell.peek s toks = (decide (ts.head? = some t),s') ∧ At L s' ts := by
  obtain ⟨s',hp,hs⟩ := h.peek toks hsub
  refine ⟨s',?_,hs⟩
  rw [hp]
  cases ts.head? with
  | none => rfl
  | some t' => simp [ht]

end At

lemma starts_redir (t : Token) : t.starts (str "<>") = t.target.isSome := by
  cases t <;> rfl

lemma starts_ends (t : Token) : t.starts (str "|)&;") = t.ends := by
  cases t <;> rfl

lemma redircmd_eq {es m f : ℕ} {g : Got} (ht : t.target = some (m,f)) :
    redircmd es d t.code g = .redir d (span es g) m f := by
  cases t <;> cases ht <;> rfl

namespace Stands

lemma nil : Stands L (.exec []) (.exec []) := ⟨nofun,rfl⟩

variable (h : Stands L d c)
include h

lemma redir {sp : Span} {w : Str} {m f : ℕ} (hsp : IsWord L sp w) :
    Stands L (.redir d sp m f) (.redir c w m f) := by
  have htext : text L sp = w := hsp.text
  refine ⟨fun sp' hm => ?_,by rw [Cmd.map,h.map,htext]⟩
  obtain hm | hm := mem_append.mp hm
  · exact h.good sp' hm
  · obtain rfl := mem_singleton.mp hm
    rwa [htext]

lemma addArg {sp : Span} {w : Str} (hsp : IsWord L sp w) : Stands L (d.addArg sp) (c.addArg w) := by
  have htext : text L sp = w := hsp.text
  refine ⟨fun sp' hm => ?_,by rw [map_addArg,h.map,htext]⟩
  obtain rfl | hm := mem_addArg hm
  · rwa [htext]
  · exact h.good sp' hm

lemma append (h' : Stands L d' c') :
    ∀ sp ∈ d.strings++d'.strings, IsWord L sp (text L sp) := fun sp hm =>
  (mem_append.mp hm).elim (h.good sp) (h'.good sp)

lemma pipe (h' : Stands L d' c') : Stands L (.pipe d d') (.pipe c c') :=
  ⟨h.append h',by rw [Cmd.map,h.map,h'.map]⟩

lemma list (h' : Stands L d' c') : Stands L (.list d d') (.list c c') :=
  ⟨h.append h',by rw [Cmd.map,h.map,h'.map]⟩

lemma back : Stands L (.back d) (.back c) := ⟨h.good,by rw [Cmd.map,h.map]⟩

end Stands

namespace Sim

lemma bind {r : Parsed} {q : Read} {f : Cmd Span×Str → Parsed} {g : Cmd Str×List Token → Read}
    (h : Sim L r q) (hf : ∀ d s c ts, Stands L d c → At L s ts → Sim L (f (d,s)) (g (c,ts))) :
    Sim L (r.bind f) (q.bind g) := by
  cases h with
  | ok hd hs => exact hf _ _ _ _ hd hs
  | error => exact .error

lemma after {x y : Parsed} {f : List Token → Read} {r : Read}
    (hx : ∀ us, ts = t::us → Sim L x (f us)) (hy : Sim L y r) :
    Sim L (if decide (ts.head? = some t) = true then x else y) (Tokens.after t ts f r) := by
  rw [Tokens.after]
  by_cases h : ts.head? = some t
  · obtain ⟨us,rfl⟩ := List.head?_eq_some_iff.mp h
    simpa using hx us rfl
  · simpa [h] using hy

end Sim

lemma sim_redirs (hd : Stands L d c) (hs : At L s ts) :
    Sim L (parseredirs L.length n d s) (Tokens.redirs n c ts) := by
  induction n generalizing d c s ts with
  | zero => exact .error
  | succ n ih =>
    obtain ⟨s₁,hp,h₁⟩ := hs.peek (str "<>") (by decide)
    rw [parseredirs,hp]
    cases ts with
    | nil => exact .ok hd h₁
    | cons t ts =>
      obtain ⟨hret,h₂,-⟩ := h₁.gettoken
      simp only [List.head?_cons,Option.any_some,starts_redir,Tokens.redirs,Option.bind_some,
        tail_cons]
      cases ht : t.target with
      | none => exact .ok hd h₁
      | some x =>
        rw [hret,redircmd_eq ht]
        cases ts with
        | nil => simp only [h₂.gettoken_nil.1]; exact .error
        | cons u ts =>
          obtain ⟨hret',h₃,hw⟩ := h₂.gettoken
          simp only [hret']
          cases u with
          | word w => exact ih (hd.redir (hw w rfl)) h₃
          | _ => exact .error

lemma sim_args (hd : Stands L d c) (hs : At L s ts) :
    Sim L (parseargs L.length n d argc s) (Tokens.args n c argc ts) := by
  induction n generalizing d c argc s ts with
  | zero => exact .error
  | succ n ih =>
    obtain ⟨s₁,hp,h₁⟩ := hs.peek (str "|)&;") (by decide)
    rw [parseargs,hp]
    cases ts with
    | nil =>
      obtain ⟨hret,h₂⟩ := h₁.gettoken_nil
      simp only [hret]
      exact .ok hd h₂
    | cons t ts =>
      obtain ⟨hret,h₂,hw⟩ := h₁.gettoken
      simp only [List.head?_cons,Option.any_some,starts_ends,hret]
      cases t with
      | word w =>
        rw [Tokens.args]
        by_cases hlt : argc+1 ≥ MAXARGS
        · rw [if_pos hlt]
          simp only [hlt]
          exact .error
        · rw [if_neg hlt]
          simp only [hlt]
          exact (sim_redirs (hd.addArg (hw w rfl)) h₂).bind fun _ _ _ _ hd' hs' => ih hd' hs'
      | bar | amp | semi | rpar => exact .ok hd h₁
      | lt | gt | gtgt | lpar => exact .error

lemma sim_backs (hd : Stands L d c) (hs : At L s ts) :
    Sim L (parsebacks n d s) (Tokens.backs n c ts) := by
  induction n generalizing d c s ts with
  | zero => exact .error
  | succ n ih =>
    obtain ⟨s₁,hp,h₁⟩ := hs.peek_symbol .amp (str "&") (by decide)
      fun t => by cases t <;> rfl
    rw [parsebacks,hp]
    refine .after (fun us h => ?_) (.ok hd h₁)
    subst h
    exact ih hd.back h₁.gettoken.2.1

lemma parseline_succ (es : ℕ) (s : Str) : parseline es (n+1) s =
    (parsepipe es n s).bind fun r => (parsebacks n r.1 r.2).bind fun r =>
      if (peek r.2 (str ";")).1 then
        (parseline es n (gettoken (peek r.2 (str ";")).2).ps).bind fun q => .ok (.list r.1 q.1,q.2)
      else .ok (r.1,(peek r.2 (str ";")).2) := rfl

lemma parsepipe_succ (es : ℕ) (s : Str) : parsepipe es (n+1) s =
    (parseexec es n s).bind fun r =>
      if (peek r.2 (str "|")).1 then
        (parsepipe es n (gettoken (peek r.2 (str "|")).2).ps).bind fun q => .ok (.pipe r.1 q.1,q.2)
      else .ok (r.1,(peek r.2 (str "|")).2) := rfl

lemma parseexec_succ (es : ℕ) (s : Str) : parseexec es (n+1) s =
    if (peek s (str "(")).1 then parseblock es n (peek s (str "(")).2
    else (parseredirs es n (.exec []) (peek s (str "(")).2).bind fun r =>
      parseargs es n r.1 0 r.2 := rfl

lemma parseblock_succ (es : ℕ) (s : Str) : parseblock es (n+1) s =
    if (peek s (str "(")).1 then
      (parseline es n (gettoken (peek s (str "(")).2).ps).bind fun r =>
        if (peek r.2 (str ")")).1 then parseredirs es n r.1 (gettoken (peek r.2 (str ")")).2).ps
        else .error (.panic "syntax - missing )")
    else .error (.panic "parseblock") := by
  rw [parseblock]
  obtain ⟨b,u⟩ := peek s (str "(")
  cases b with
  | false => rfl
  | true =>
    change Except.bind _ _ = Except.bind _ _
    congr 1
    funext r
    obtain ⟨cmd,v⟩ := r
    dsimp only
    obtain ⟨b,w⟩ := peek v (str ")")
    cases b <;> rfl

/-- On the tokens of the line the four functions do the same. -/
lemma parse_sim (n : ℕ) : ∀ s ts, At L s ts →
    Sim L (parseline L.length n s) (Tokens.line n ts) ∧
    Sim L (parsepipe L.length n s) (Tokens.pipe n ts) ∧
    Sim L (parseexec L.length n s) (Tokens.exec n ts) ∧
    Sim L (parseblock L.length n s) (Tokens.block n ts) := by
  induction n with
  | zero => exact fun s ts _ => ⟨.error,.error,.error,.error⟩
  | succ n ih =>
    intro s ts hs
    obtain ⟨s₁,hp,h₁⟩ := hs.peek_symbol .lpar (str "(") (by decide)
      fun t => by cases t <;> rfl
    refine ⟨?_,?_,?_,?_⟩
    · rw [parseline_succ,Tokens.line]
      refine (ih s ts hs).2.1.bind fun d s c ts hd hs => (sim_backs hd hs).bind ?_
      intro d s c ts hd hs
      obtain ⟨s₁,hp,h₁⟩ := hs.peek_symbol .semi (str ";") (by decide)
        fun t => by cases t <;> rfl
      simp only [hp]
      refine .after (fun us h => ?_) (.ok hd h₁)
      subst h
      exact (ih _ us h₁.gettoken.2.1).1.bind fun _ _ _ _ hd' hs' => .ok (hd.list hd') hs'
    · rw [parsepipe_succ,Tokens.pipe]
      refine (ih s ts hs).2.2.1.bind fun d s c ts hd hs => ?_
      obtain ⟨s₁,hp,h₁⟩ := hs.peek_symbol .bar (str "|") (by decide)
        fun t => by cases t <;> rfl
      simp only [hp]
      refine .after (fun us h => ?_) (.ok hd h₁)
      subst h
      exact (ih _ us h₁.gettoken.2.1).2.1.bind fun _ _ _ _ hd' hs' => .ok (hd.pipe hd') hs'
    · rw [parseexec_succ,Tokens.exec,hp]
      exact .after (fun _ _ => (ih s₁ ts h₁).2.2.2)
        ((sim_redirs .nil h₁).bind fun _ _ _ _ hd hs => sim_args hd hs)
    · rw [parseblock_succ,Tokens.block,hp]
      refine .after (fun us h => ?_) .error
      subst h
      refine (ih _ us h₁.gettoken.2.1).1.bind fun d s c ts hd hs => ?_
      obtain ⟨s₂,hp,h₂⟩ := hs.peek_symbol .rpar (str ")") (by decide)
        fun t => by cases t <;> rfl
      simp only [hp]
      refine .after (fun us h => ?_) .error
      obtain rfl : ts = .rpar::us := h
      exact sim_redirs hd h₂.gettoken.2.1

end Simulation

/-! ### The strings after `nulterminate` -/

section Strings
variable {m L w : Str} {sp : Span} {cmd : Cmd Span}

lemma nulterminate_eq (cmd : Cmd Span) (m : Str) :
    nulterminate cmd m = cmd.strings.foldl (fun m sp => m.set sp.eq 0) m := by
  induction cmd generalizing m with
  | exec argv => rfl
  | redir c a mode fd ih => simp [nulterminate,Cmd.strings,ih]
  | pipe l r ihl ihr => simp [nulterminate,Cmd.strings,ihl,ihr]
  | list l r ihl ihr => simp [nulterminate,Cmd.strings,ihl,ihr]
  | back c ih => exact ih m

lemma foldl_set_ne (l : List Span) (m : Str) {i : ℕ} (h : ∀ sp ∈ l, sp.eq ≠ i) :
    (l.foldl (fun m sp => m.set sp.eq 0) m)[i]? = m[i]? := by
  induction l generalizing m with
  | nil => rfl
  | cons a l ih =>
    rw [foldl_cons,ih _ fun sp hm => h sp (mem_cons_of_mem _ hm),
      List.getElem?_set_ne (h a mem_cons_self)]

lemma foldl_set_zero (l : List Span) (m : Str) {i : ℕ} (h : ∀ c ∈ m[i]?, c = 0) :
    ∀ c ∈ (l.foldl (fun m sp => m.set sp.eq 0) m)[i]?, c = 0 := by
  induction l generalizing m with
  | nil => exact h
  | cons a l ih =>
    refine ih _ fun c hc => ?_
    by_cases he : a.eq = i
    · subst he
      rw [List.getElem?_set_self'] at hc
      obtain ⟨_,-,rfl⟩ := Option.map_eq_some_iff.mp hc
      rfl
    · rw [List.getElem?_set_ne he] at hc
      exact h c hc

lemma foldl_set_mem (l : List Span) (m : Str) (h : sp ∈ l) :
    ∀ c ∈ (l.foldl (fun m sp => m.set sp.eq 0) m)[sp.eq]?, c = 0 := by
  induction l generalizing m with
  | nil => cases h
  | cons a l ih =>
    obtain rfl | h := mem_cons.mp h
    · refine foldl_set_zero l _ fun c hc => ?_
      rw [List.getElem?_set_self'] at hc
      obtain ⟨_,-,rfl⟩ := Option.map_eq_some_iff.mp hc
      rfl
    · exact ih _ h

lemma takeWhile_eq {l : Str} (hw : l.take w.length = w) (h0 : 0 ∉ w)
    (hstop : ∀ c ∈ l[w.length]?, c = 0) : l.takeWhile (· ≠ 0) = w := by
  rw [← take_append_drop w.length l,hw,takeWhile_append_of_pos]
  · have hd : (l.drop w.length).takeWhile (· ≠ 0) = [] := by
      cases hl : l.drop w.length with
      | nil => rfl
      | cons c r =>
        have hc : c = 0 := hstop c (by rw [← List.head?_drop,hl]; rfl)
        rw [hc]
        rfl
    rw [hd,append_nil]
  · intro c hc
    simpa using ne_of_mem_of_not_mem hc h0

/-- No word contains a place where a NUL is written. -/
lemma Good.apart (hg : Good L cmd) {sp' : Span} (hsp : sp ∈ cmd.strings) (hsp' : sp' ∈ cmd.strings) :
    sp'.eq < sp.q ∨ sp.eq ≤ sp'.eq := by
  have hword := hg sp hsp
  by_contra hin
  obtain ⟨j,hj⟩ := Nat.exists_eq_add_of_le (Nat.not_lt.mp fun h => hin (.inl h))
  have hlt : j < (text L sp).length := by
    have := hword.length
    omega
  have htext : (text L sp)[j]? = L[sp'.eq]? := by
    have := hword.length
    rw [hj,text,List.getElem?_take_of_lt (by omega),List.getElem?_drop]
  have hstop := (hg sp' hsp').stop ((text L sp)[j]) (by
    rw [← htext]
    exact List.getElem?_eq_getElem hlt)
  rw [hword.chars _ (getElem_mem hlt)] at hstop
  cases hstop

/-- The tree's pointers lead to its words. -/
lemma cstring_eq (hL : L = m.takeWhile (· ≠ 0)) (h0 : 0 ∉ L) (hg : Good L cmd) (hsp : sp ∈ cmd.strings) :
    cstring (nulterminate cmd m) sp.q = text L sp := by
  have hword := hg sp hsp
  have hpre : L <+: m := hL ▸ takeWhile_prefix _
  have hnul : 0 ∉ text L sp := fun h => h0 (mem_of_mem_drop (mem_of_mem_take h))
  have hlen : sp.q+(text L sp).length ≤ L.length := hword.length ▸ hword.le
  rw [nulterminate_eq]
  refine takeWhile_eq ?_ hnul ?_
  · refine ext_getElem? fun j => ?_
    by_cases hj : j < (text L sp).length
    · have htext : (text L sp)[j]? = L[sp.q+j]? := by
        have hj' : j < sp.eq-sp.q := by
          have := hword.length
          omega
        rw [text,List.getElem?_take_of_lt hj',List.getElem?_drop]
      have hne : ∀ sp' ∈ cmd.strings, sp'.eq ≠ sp.q+j := by
        intro sp' hsp' he
        have := hg.apart hsp hsp'
        have := hword.length
        omega
      rw [List.getElem?_take_of_lt hj,List.getElem?_drop,foldl_set_ne _ _ hne,htext]
      obtain ⟨t,rfl⟩ := hpre
      exact List.getElem?_append_left (by omega)
    · rw [List.getElem?_eq_none (by simp; omega),List.getElem?_eq_none (by omega)]
  · intro c hc
    rw [List.getElem?_drop,← hword.length] at hc
    exact foldl_set_mem _ _ hsp c hc

lemma map_congr {α β : Type} {f g : α → β} (c : Cmd α) (h : ∀ a ∈ c.strings, f a = g a) :
    c.map f = c.map g := by
  induction c with
  | exec argv => exact congrArg _ (map_congr_left h)
  | redir c a mode fd ih =>
    simp only [Cmd.map,Cmd.strings,mem_append,mem_singleton] at h ⊢
    rw [ih fun b hb => h b (.inl hb),h a (.inr rfl)]
  | pipe l r ihl ihr | list l r ihl ihr =>
    simp only [Cmd.map,Cmd.strings,mem_append] at h ⊢
    rw [ihl fun b hb => h b (.inl hb),ihr fun b hb => h b (.inr hb)]
  | back c ih =>
    simp only [Cmd.map,Cmd.strings] at h ⊢
    rw [ih h]

end Strings

/-- The tree that a caller of `parsecmd` sees: the strings are read from memory. -/
def seen (r : Cmd Span×Str) : Cmd Str := r.1.map fun sp => cstring r.2 sp.q

lemma parsecmd_eq (m : Str) : parsecmd m =
    (parseline (m.takeWhile (· ≠ 0)).length (4*(m.takeWhile (· ≠ 0)).length+4)
      (m.takeWhile (· ≠ 0))).bind fun r =>
        if skip r.2 ≠ [] then .error (.panic "syntax") else .ok (r.1,nulterminate r.1 m) := by
  rw [parsecmd]
  change Except.bind _ _ = _
  congr 1

lemma seen_eq {m L : Str} {d : Cmd Span} (hL : L = m.takeWhile (· ≠ 0)) (h0 : 0 ∉ L) (hg : Good L d) :
    seen (d,nulterminate d m) = d.map (text L) :=
  map_congr d fun _ hsp => cstring_eq hL h0 hg hsp

lemma not_mem_line (m : Str) : 0 ∉ m.takeWhile (· ≠ 0) := by
  intro h
  have := all_eq_true.mp all_takeWhile _ h
  simp at this

/-- `parseline` on the whole line follows the parser on its tokens. -/
lemma line_sim (m : Str) : Sim (m.takeWhile (· ≠ 0))
    (parseline (m.takeWhile (· ≠ 0)).length (4*(m.takeWhile (· ≠ 0)).length+4) (m.takeWhile (· ≠ 0)))
    (Tokens.line (4*(m.takeWhile (· ≠ 0)).length+4) (lex (m.takeWhile (· ≠ 0)))) :=
  (parse_sim _ _ _ ⟨not_mem_line m,suffix_refl _,rfl⟩).1

lemma line_sound (L : Str) :
    Yields (Tokens.line (4*L.length+4) (lex L)) (Phrase .line (lex L)) := by
  have hlen := length_lex_le L
  exact (tokens_sound (4*L.length+4) (lex L)).1 (by omega)

/-- What `parsecmd` returns: pointers to words of the line, which are those of a derivation. -/
lemma parsecmd_ok {m L : Str} {r : Cmd Span×Str} (hL : m.takeWhile (· ≠ 0) = L)
    (h : parsecmd m = .ok r) :
    Good L r.1 ∧ r.2 = nulterminate r.1 m ∧ Derives .line (lex L) (r.1.map (text L)) := by
  have hsim := line_sim m
  have hsound := line_sound L
  rw [parsecmd_eq] at h
  rw [hL] at h hsim
  generalize parseline L.length (4*L.length+4) L = x at hsim h
  generalize Tokens.line (4*L.length+4) (lex L) = y at hsim hsound
  cases hsim with
  | error => cases h
  | @ok d s c ts hd hs =>
    simp only [Except.bind] at h
    split_ifs at h with hskip
    cases h
    have hts := (skip_eq_nil hs.not_mem).mp (not_not.mp hskip)
    obtain ⟨vs,hvs,hc⟩ : Phrase .line (lex L) c ts := hsound
    rw [← hs.tokens,hts,append_nil] at hvs
    refine ⟨hd.good,rfl,?_⟩
    rw [hd.map,hvs]
    exact hc

/-- For every string in memory `parsecmd` ends, with a tree or with a panic; and it returns a tree
exactly when the tokens of the string derive from the grammar, namely the tree of the derivation,
whose strings are those of the tokens. -/
theorem parsecmd_grammar (m : Str) :
    ((∃ r, parsecmd m = .ok r) ∨ ∃ msg, parsecmd m = .error (.panic msg)) ∧
    ∀ tree, (∃ r, parsecmd m = .ok r ∧ seen r = tree) ↔
      Derives .line (lex (m.takeWhile (· ≠ 0))) tree := by
  have hsim := line_sim m
  have hsound := line_sound (m.takeWhile (· ≠ 0))
  refine ⟨?_,fun tree => ⟨?_,fun hd => ?_⟩⟩
  · rw [parsecmd_eq]
    generalize parseline _ _ (m.takeWhile (· ≠ 0)) = r at hsim ⊢
    generalize Tokens.line _ (lex (m.takeWhile (· ≠ 0))) = q at hsim hsound
    cases hsim with
    | @error e =>
      cases e with
      | fuel => exact absurd rfl hsound
      | panic msg => exact .inr ⟨msg,rfl⟩
    | @ok d s c ts hd hs =>
      simp only [Except.bind]
      split_ifs
      · exact .inr ⟨_,rfl⟩
      · exact .inl ⟨_,rfl⟩
  · rintro ⟨r,hr,rfl⟩
    obtain ⟨hg,hm,hd⟩ := parsecmd_ok rfl hr
    rw [show r = (r.1,nulterminate r.1 m) by rw [← hm],seen_eq rfl (not_mem_line m) hg]
    exact hd
  · have hlen := length_lex_le (m.takeWhile (· ≠ 0))
    have hfound : Tokens.line (4*(m.takeWhile (· ≠ 0)).length+4) (lex (m.takeWhile (· ≠ 0))) =
        .ok (tree,[]) := by
      simpa only [append_nil,parse] using
        tokens_complete hd [] nofun (4*(m.takeWhile (· ≠ 0)).length+4) (by simp only [need]; omega)
    rw [hfound] at hsim
    generalize hr : parseline _ _ (m.takeWhile (· ≠ 0)) = r at hsim
    cases hsim with
    | @ok d s c ts hd hs =>
      refine ⟨(d,nulterminate d m),?_,(seen_eq rfl (not_mem_line m) hd.good).trans hd.map⟩
      rw [parsecmd_eq,hr]
      exact if_neg (not_not.mpr ((skip_eq_nil hs.not_mem).mpr hs.tokens))

/-- In the tree that `parsecmd` returns every string, read from memory after `nulterminate`, is the
token it was parsed from: the text between its two pointers, which is a word of the line, and the
words are those of a derivation of the line's tokens. No NUL lies inside or at the start of a word. -/
theorem nulterminate_isolates (m : Str) (cmd : Cmd Span) (m' : Str)
    (h : parsecmd m = .ok (cmd,m')) :
    (∀ sp ∈ cmd.strings, cstring m' sp.q = text (m.takeWhile (· ≠ 0)) sp ∧
      IsWord (m.takeWhile (· ≠ 0)) sp (text (m.takeWhile (· ≠ 0)) sp)) ∧
    Derives .line (lex (m.takeWhile (· ≠ 0))) (cmd.map (text (m.takeWhile (· ≠ 0)))) ∧
    ∀ sp ∈ cmd.strings, ∀ sp' ∈ cmd.strings, sp'.eq < sp.q ∨ sp.eq ≤ sp'.eq := by
  obtain ⟨hg,hm,hd⟩ := parsecmd_ok rfl h
  dsimp only at hg hm hd
  refine ⟨fun sp hsp => ⟨?_,hg sp hsp⟩,hd,fun sp hsp sp' hsp' => hg.apart hsp hsp'⟩
  rw [hm]
  exact cstring_eq rfl (not_mem_line m) hg hsp

/-- The line "a>b|c", where the words touch the operators. -/
theorem nulterminate_isolates_touching :
    parsecmd (str "a>b|c") = .ok (.pipe (.redir (.exec [⟨0,1⟩]) ⟨2,3⟩ 1537 1) (.exec [⟨4,5⟩]),
      [97,0,98,0,99]) ∧ cstring [97,0,98,0,99] 2 = str "b" :=
  ⟨rfl,((nulterminate_isolates (str "a>b|c") _ _ rfl).1 ⟨2,3⟩ (by decide)).1⟩

end Xv6.Shell
