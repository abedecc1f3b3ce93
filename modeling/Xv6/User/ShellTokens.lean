import Xv6.User.Shell

/-! The parser of `sh.c` as it acts on tokens: the same functions, with the tokens that are left in
place of `*ps`. They accept exactly the grammar and return the tree of the derivation. -/
namespace Xv6.Shell
open Ulib

/-- A parsing function on tokens returns the tree and the tokens left. -/
abbrev Read := Except Fail (Cmd Str×List Token)

/-- The mode and descriptor of a redirection symbol. -/
def Token.target : Token → Option (ℕ×ℕ)
  | .lt => some (O_RDONLY,0)
  | .gt => some (O_WRONLY ||| O_CREATE ||| O_TRUNC,1)
  | .gtgt => some (O_WRONLY ||| O_CREATE,1)
  | _ => none

/-- Where a simple command ends. -/
def Token.ends : Token → Bool
  | .bar | .rpar | .amp | .semi => true
  | _ => false

namespace Tokens

/-- Go on with `f` if the next token is `t`. -/
def after (t : Token) (ts : List Token) (f : List Token → Read) (r : Read) : Read :=
  if ts.head? = some t then f ts.tail else r

def redirs : ℕ → Cmd Str → List Token → Read
  | 0,_,_ => .error .fuel
  | n+1,c,ts =>
    match ts.head?.bind Token.target,ts.tail with
    | none,_ => .ok (c,ts)
    | some (m,d),.word w::us => redirs n (.redir c w m d) us
    | some _,_ => .error (.panic "missing file for redirection")

def args : ℕ → Cmd Str → ℕ → List Token → Read
  | 0,_,_,_ => .error .fuel
  | _+1,c,_,[] => .ok (c,[])
  | n+1,c,argc,.word w::ts =>
    if argc+1 ≥ MAXARGS then .error (.panic "too many args")
    else (redirs n (c.addArg w) ts).bind fun r => args n r.1 (argc+1) r.2
  | _+1,c,_,t::ts => if t.ends then .ok (c,t::ts) else .error (.panic "syntax")

def backs : ℕ → Cmd Str → List Token → Read
  | 0,_,_ => .error .fuel
  | n+1,c,ts => after .amp ts (backs n (.back c)) (.ok (c,ts))

mutual

def line : ℕ → List Token → Read
  | 0,_ => .error .fuel
  | n+1,ts => (pipe n ts).bind fun r => (backs n r.1 r.2).bind fun r =>
      after .semi r.2 (fun us => (line n us).bind fun q => .ok (.list r.1 q.1,q.2)) (.ok r)

def pipe : ℕ → List Token → Read
  | 0,_ => .error .fuel
  | n+1,ts => (exec n ts).bind fun r =>
      after .bar r.2 (fun us => (pipe n us).bind fun q => .ok (.pipe r.1 q.1,q.2)) (.ok r)

def block : ℕ → List Token → Read
  | 0,_ => .error .fuel
  | n+1,ts =>
    after .lpar ts
      (fun us => (line n us).bind fun r =>
        after .rpar r.2 (redirs n r.1) (.error (.panic "syntax - missing )")))
      (.error (.panic "parseblock"))

def exec : ℕ → List Token → Read
  | 0,_ => .error .fuel
  | n+1,ts => after .lpar ts (fun _ => block n ts)
      ((redirs n (.exec []) ts).bind fun r => args n r.1 0 r.2)

end

end Tokens

/-- A result that is not for want of fuel and, if it is a tree, meets `P`. -/
def Yields (r : Read) (P : Cmd Str → List Token → Prop) : Prop :=
  match r with
  | .ok r => P r.1 r.2
  | .error e => e ≠ .fuel

section Yields
variable {r : Read} {P Q : Cmd Str → List Token → Prop} {t : Token} {ts : List Token}

lemma Yields.bind {f : Cmd Str×List Token → Read} (h : Yields r P)
    (hf : ∀ c us, P c us → Yields (f (c,us)) Q) : Yields (r.bind f) Q := by
  cases r with
  | error e => exact h
  | ok r => exact hf r.1 r.2 h

lemma Yields.mono (h : Yields r P) (hf : ∀ c us, P c us → Q c us) : Yields r Q := by
  cases r with
  | error e => exact h
  | ok r => exact hf r.1 r.2 h

lemma Yields.after {f : List Token → Read} (hf : ∀ us, ts = t::us → Yields (f us) P)
    (hr : Yields r P) : Yields (Tokens.after t ts f r) P := by
  unfold Tokens.after
  split_ifs with h
  · obtain ⟨us,rfl⟩ := List.head?_eq_some_iff.mp h
    exact hf us rfl
  · exact hr

end Yields

variable {rs : List Target}

lemma Redirs.step {t : Token} {m d : ℕ} {w : Str} {ts : List Token}
    (ht : t.target = some (m,d)) (h : Redirs ts rs) : Redirs (t::.word w::ts) ((w,m,d)::rs) := by
  cases t <;> cases ht
  · exact .input h
  · exact .output h
  · exact .append h

lemma wrap_append (rs rs' : List Target) (c : Cmd Str) : wrap (rs++rs') c = wrap rs' (wrap rs c) := by
  simp [wrap]

/-- A word that comes after redirections still goes to the command inside them. -/
lemma wrap_addArg (rs : List Target) (ws : List Str) (w : Str) :
    (wrap rs (.exec ws)).addArg w = wrap rs (.exec (ws++[w])) := by
  suffices h : ∀ c : Cmd Str, (wrap rs c).addArg w = wrap rs (c.addArg w) from h _
  intro c
  induction rs generalizing c with
  | nil => rfl
  | cons t rs ih => exact ih _

section
open Tokens List
variable {n argc : ℕ} {c : Cmd Str} {t : Token} {ts us : List Token} {f : List Token → Read} {r : Read}

@[simp] lemma after_cons : after t (t::ts) f r = f ts := if_pos rfl

lemma ok_bind {r : Cmd Str×List Token} {f : Cmd Str×List Token → Read} :
    (Except.ok r : Read).bind f = f r := rfl

lemma after_of_ne (h : ts.head? ≠ some t) : after t ts f r = r := if_neg h

/-! ### What the functions return -/

lemma redirs_spec (hn : ts.length < n) : Yields (redirs n c ts) fun d us =>
    ∃ vs rs, ts = vs++us ∧ Redirs vs rs ∧ d = wrap rs c := by
  induction n generalizing c ts with
  | zero => omega
  | succ n ih =>
    rw [redirs]
    split
    · exact ⟨[],[],rfl,.nil,rfl⟩
    · rename_i m d w us ht hus
      obtain ⟨t,hh,ht⟩ := Option.bind_eq_some_iff.mp ht
      obtain ⟨ts,rfl⟩ := List.head?_eq_some_iff.mp hh
      cases hus
      refine (ih (by simp only [length_cons] at hn; omega)).mono ?_
      rintro d' us' ⟨vs,rs,rfl,hr,rfl⟩
      exact ⟨_,_,rfl,hr.step ht,rfl⟩
    · nofun

variable {ws : List Str}

lemma args_spec (hc : c = wrap rs (.exec ws))
    (hws : ws.length = argc) (hmax : argc ≤ MAXARGS-1) (hn : ts.length < n) :
    Yields (args n c argc ts) fun d us => ∃ vs ws' rs', ts = vs++us ∧ Words vs ws' rs' ∧
      (ws++ws').length ≤ MAXARGS-1 ∧ d = wrap (rs++rs') (.exec (ws++ws')) := by
  induction n generalizing c argc ts rs ws with
  | zero => omega
  | succ n ih =>
    have hstop : ∀ us, ∃ vs ws' rs', us = vs++us ∧ Words vs ws' rs' ∧
        (ws++ws').length ≤ MAXARGS-1 ∧ c = wrap (rs++rs') (.exec (ws++ws')) := fun us =>
      ⟨[],[],[],rfl,.nil,by simpa [hws] using hmax,by simpa using hc⟩
    cases ts with
    | nil => exact hstop []
    | cons t ts =>
      rw [length_cons] at hn
      cases t with
      | word w =>
        rw [args]
        split_ifs with hlt
        · nofun
        refine (redirs_spec (by omega)).bind fun d us h => ?_
        obtain ⟨vs,rs₁,rfl,hr,rfl⟩ := h
        dsimp only
        rw [length_append] at hn
        have hc' : wrap rs₁ (c.addArg w) = wrap (rs++rs₁) (.exec (ws++[w])) := by
          rw [hc,wrap_addArg,wrap_append]
        refine (ih hc' (by simp [hws]) (by simp only [MAXARGS] at hlt ⊢; omega) (by omega)).mono ?_
        rintro d us' ⟨vs',ws',rs₂,rfl,hw,hle,rfl⟩
        exact ⟨.word w::vs++vs',w::ws',rs₁++rs₂,by simp,.cons hr hw,by simpa using hle,by simp⟩
      | bar | amp | semi | rpar => exact hstop _
      | lt | gt | gtgt | lpar => nofun

lemma backs_eq {k : ℕ} (h : us.head? ≠ some .amp) (hn : k < n) :
    Tokens.backs n c (List.replicate k .amp++us) = .ok (Shell.backs k c,us) := by
  induction k generalizing n c with
  | zero =>
    obtain ⟨n,rfl⟩ := Nat.exists_eq_add_one_of_ne_zero (by omega : n ≠ 0)
    exact after_of_ne h
  | succ k ih =>
    obtain ⟨n,rfl⟩ := Nat.exists_eq_add_one_of_ne_zero (by omega : n ≠ 0)
    exact ih (by omega)

lemma exists_amps (ts : List Token) :
    ∃ k us, ts = List.replicate k .amp++us ∧ us.head? ≠ some .amp := by
  induction ts with
  | nil => exact ⟨0,[],rfl,nofun⟩
  | cons t ts ih =>
    by_cases ht : t = .amp
    · obtain ⟨k,us,rfl,hus⟩ := ih
      exact ⟨k+1,us,by rw [ht]; rfl,hus⟩
    · exact ⟨0,t::ts,rfl,by simpa using ht⟩

/-- The tokens consumed derive from `x`, with the tree `c`. -/
def Phrase (x : Nonterminal) (ts : List Token) (c : Cmd Str) (us : List Token) : Prop :=
  ∃ vs, ts = vs++us ∧ Derives x vs c

/-- With fuel for what is left, the four functions end and are right. -/
lemma tokens_sound (n : ℕ) : ∀ ts : List Token,
    (4*ts.length+4 ≤ n → Yields (line n ts) (Phrase .line ts)) ∧
    (4*ts.length+3 ≤ n → Yields (pipe n ts) (Phrase .pipe ts)) ∧
    (4*ts.length+2 ≤ n → Yields (exec n ts) (Phrase .exec ts)) ∧
    (4*ts.length+1 ≤ n → Yields (block n ts) (Phrase .exec ts)) := by
  induction n with
  | zero => exact fun ts => ⟨by omega,by omega,by omega,by omega⟩
  | succ n ih =>
    intro ts
    refine ⟨fun hn => ?_,fun hn => ?_,fun hn => ?_,fun hn => ?_⟩
    · rw [line]
      refine ((ih ts).2.1 (by omega)).bind fun c us h => ?_
      obtain ⟨vs,rfl,hd⟩ := h
      obtain ⟨k,us,rfl,hus⟩ := exists_amps us
      simp only [length_append,length_replicate] at hn
      rw [backs_eq hus (by omega),ok_bind]
      have hp : Phrase .line (vs++(List.replicate k .amp++us)) (Shell.backs k c) us :=
        ⟨vs++List.replicate k .amp,by simp,.line hd k⟩
      refine .after (fun us h => ?_) hp
      obtain rfl : _ = _::us := h
      rw [length_cons] at hn
      refine ((ih us).1 (by omega)).bind fun c' us' h => ?_
      obtain ⟨vs',rfl,hd'⟩ := h
      exact ⟨vs++List.replicate k .amp++.semi::vs',by simp,.list hd k hd'⟩
    · rw [pipe]
      refine ((ih ts).2.2.1 (by omega)).bind fun c us h => ?_
      obtain ⟨vs,rfl,hd⟩ := h
      have hp : Phrase .pipe (vs++us) c us := ⟨vs,rfl,.single hd⟩
      refine .after (fun us h => ?_) hp
      obtain rfl : _ = _::us := h
      simp only [length_append,length_cons] at hn
      refine ((ih us).2.1 (by omega)).bind fun c' us' h => ?_
      obtain ⟨vs',rfl,hd'⟩ := h
      exact ⟨vs++.bar::vs',by simp,.pipe hd hd'⟩
    · rw [exec]
      refine .after (fun _ _ => (ih ts).2.2.2 (by omega)) ?_
      refine (redirs_spec (by omega)).bind fun c us h => ?_
      obtain ⟨vs,rs,rfl,hr,rfl⟩ := h
      dsimp only
      rw [length_append] at hn
      refine (args_spec rfl rfl (Nat.zero_le _) (by omega)).mono ?_
      rintro c us' ⟨vs',ws,rs',rfl,hw,hle,rfl⟩
      exact ⟨vs++vs',by simp,.simple hr hw hle⟩
    · rw [block]
      refine .after (fun us h => ?_) nofun
      subst h
      rw [length_cons] at hn
      refine ((ih us).1 (by omega)).bind fun c us' h => .after (fun us h' => ?_) nofun
      obtain ⟨vs,rfl,hd⟩ := h
      obtain rfl : us' = .rpar::us := h'
      simp only [length_append,length_cons] at hn
      refine (redirs_spec (by omega)).mono ?_
      rintro d us' ⟨vs',rs,rfl,hr,rfl⟩
      exact ⟨.lpar::vs++.rpar::vs',by simp,.block hd hr⟩

/-! ### Every derivation is found -/

/-- Where a sequence of redirections ends. -/
def NoRedir (ts : List Token) : Prop := ts.head?.bind Token.target = none

/-- What can come after a phrase. -/
def Follow : Nonterminal → List Token → Prop
  | .line,us => ∀ t ∈ us.head?, t = .rpar
  | .pipe,us => ∀ t ∈ us.head?, t = .rpar ∨ t = .semi ∨ t = .amp
  | .exec,us => ∀ t ∈ us.head?, t.ends = true

lemma Follow.noRedir (h : Follow .exec us) : NoRedir us := by
  cases us with
  | nil => rfl
  | cons t us =>
    have ht := h t rfl
    cases t <;> first | rfl | cases ht

lemma redirs_complete (h : Redirs ts rs) (hus : NoRedir us)
    (hn : ts.length < n) : redirs n c (ts++us) = .ok (wrap rs c,us) := by
  induction h generalizing n c with
  | nil =>
    obtain ⟨n,rfl⟩ := Nat.exists_eq_add_one_of_ne_zero (by omega : n ≠ 0)
    rw [nil_append,redirs,hus]
    rfl
  | input _ ih | output _ ih | append _ ih =>
    simp only [length_cons] at hn
    obtain ⟨n,rfl⟩ := Nat.exists_eq_add_one_of_ne_zero (by omega : n ≠ 0)
    exact ih (by omega)

lemma Words.noRedir (h : Words ts ws rs) (hus : Follow .exec us) : NoRedir (ts++us) := by
  cases h with
  | nil => exact hus.noRedir
  | cons => rfl

lemma args_complete {rs' : List Target} {ws' : List Str} (hc : c = wrap rs (.exec ws))
    (hws : ws.length = argc) (h : Words ts ws' rs') (hmax : (ws++ws').length ≤ MAXARGS-1)
    (hus : Follow .exec us) (hn : ts.length < n) :
    args n c argc (ts++us) = .ok (wrap (rs++rs') (.exec (ws++ws')),us) := by
  induction h generalizing n c rs ws argc with
  | nil =>
    obtain ⟨n,rfl⟩ := Nat.exists_eq_add_one_of_ne_zero (by omega : n ≠ 0)
    rw [append_nil,append_nil,← hc]
    cases us with
    | nil => rfl
    | cons t us =>
      have ht := hus t rfl
      cases t <;> first | rfl | cases ht
  | @cons w us' rs₁ ts ws' rs₂ hr hw ih =>
    simp only [length_append,length_cons,MAXARGS] at hmax hn
    obtain ⟨n,rfl⟩ := Nat.exists_eq_add_one_of_ne_zero (by omega : n ≠ 0)
    have hlt : ¬argc+1 ≥ MAXARGS := by simp only [MAXARGS]; omega
    rw [cons_append,cons_append,append_assoc,args,if_neg hlt,
      redirs_complete hr (hw.noRedir hus) (by omega)]
    have hc' : wrap rs₁ (c.addArg w) = wrap (rs++rs₁) (.exec (ws++[w])) := by
      rw [hc,wrap_addArg,wrap_append]
    refine (ih hc' (by simp [hws]) (by simp [MAXARGS]; omega) (by omega)).trans ?_
    simp

def parse : Nonterminal → ℕ → List Token → Read
  | .line => line
  | .pipe => pipe
  | .exec => exec

/-- The fuel that a function needs for `k` tokens. -/
def need (k : ℕ) : Nonterminal → ℕ
  | .line => 4*k+4
  | .pipe => 4*k+3
  | .exec => 4*k+2

lemma Redirs.head (h : Redirs ts rs) : ts.head? ≠ some .lpar := by
  cases h <;> nofun

lemma Words.head (h : Words ts ws rs) : ts.head? ≠ some .lpar := by
  cases h <;> nofun

lemma head_simple {rs' : List Target} {vs : List Token} (hr : Redirs us rs)
    (hw : Words ts ws rs') (hv : Follow .exec vs) : (us++(ts++vs)).head? ≠ some .lpar := by
  cases us with
  | cons t us => exact hr.head
  | nil =>
    cases ts with
    | cons t ts => exact hw.head
    | nil => exact fun h => by cases hv _ h

/-- A phrase in front of what can follow it is parsed to its tree. -/
lemma tokens_complete {x : Nonterminal} (h : Derives x ts c) : ∀ us, Follow x us →
    ∀ n, need ts.length x ≤ n → parse x n (ts++us) = .ok (c,us) := by
  induction h with
  | @line ts c _ k ih =>
    intro us hu n hn
    simp only [need,length_append,length_replicate] at hn
    obtain ⟨n,rfl⟩ := Nat.exists_eq_add_one_of_ne_zero (by omega : n ≠ 0)
    have hp := ih (List.replicate k .amp++us)
      (fun t ht => by
        cases k with
        | zero => exact .inl (hu t ht)
        | succ k => exact .inr (.inr (Option.some.inj ht).symm)) n (by simp only [need]; omega)
    change line (n+1) _ = _
    rw [append_assoc,line,show pipe n _ = _ from hp,ok_bind,
      backs_eq (fun h => nomatch hu _ h) (by omega),ok_bind]
    exact after_of_ne fun h => nomatch hu _ h
  | @list ts c vs d _ k _ ih ih' =>
    intro us hu n hn
    simp only [need,length_append,length_replicate,length_cons] at hn
    obtain ⟨n,rfl⟩ := Nat.exists_eq_add_one_of_ne_zero (by omega : n ≠ 0)
    have hp := ih (List.replicate k .amp++.semi::(vs++us))
      (fun t ht => by
        cases k with
        | zero => exact .inr (.inl (Option.some.inj ht).symm)
        | succ k => exact .inr (.inr (Option.some.inj ht).symm)) n (by simp only [need]; omega)
    have hl := ih' us hu n (by simp only [need]; omega)
    change line (n+1) _ = _
    rw [append_assoc,append_assoc,cons_append,line,show pipe n _ = _ from hp,
      ok_bind,backs_eq (by simp) (by omega),ok_bind,after_cons,show line n _ = _ from hl]
    rfl
  | @single ts c _ ih =>
    intro us hu n hn
    simp only [need] at hn
    obtain ⟨n,rfl⟩ := Nat.exists_eq_add_one_of_ne_zero (by omega : n ≠ 0)
    have he := ih us (fun t ht => by obtain rfl | rfl | rfl := hu t ht <;> rfl) n
      (by simp only [need]; omega)
    change pipe (n+1) _ = _
    rw [pipe,show exec n _ = _ from he,ok_bind]
    exact after_of_ne fun h => by simpa using hu _ h
  | @pipe ts c vs d _ _ ih ih' =>
    intro us hu n hn
    simp only [need,length_append,length_cons] at hn
    obtain ⟨n,rfl⟩ := Nat.exists_eq_add_one_of_ne_zero (by omega : n ≠ 0)
    have he := ih (.bar::(vs++us)) (fun t ht => by cases ht; rfl) n (by simp only [need]; omega)
    have hp := ih' us hu n (by simp only [need]; omega)
    change pipe (n+1) _ = _
    rw [append_assoc,cons_append,pipe,show exec n _ = _ from he,ok_bind,after_cons,
      show pipe n _ = _ from hp]
    rfl
  | @block ts c vs rs _ hr ih =>
    intro us hu n hn
    simp only [need,length_append,length_cons] at hn
    obtain ⟨n,rfl⟩ := Nat.exists_eq_add_one_of_ne_zero (by omega : n ≠ 0)
    obtain ⟨n,rfl⟩ := Nat.exists_eq_add_one_of_ne_zero (by omega : n ≠ 0)
    have hl := ih (.rpar::(vs++us)) (fun t ht => by cases ht; rfl) n (by simp only [need]; omega)
    change exec (n+1+1) _ = _
    rw [cons_append,cons_append,append_assoc,cons_append,exec,after_cons,block,
      after_cons,show line n _ = _ from hl,ok_bind,after_cons]
    exact redirs_complete hr hu.noRedir (by omega)
  | @simple vs rs ts ws rs' hr hw hmax =>
    intro us hu n hn
    simp only [need,length_append] at hn
    obtain ⟨n,rfl⟩ := Nat.exists_eq_add_one_of_ne_zero (by omega : n ≠ 0)
    change exec (n+1) _ = _
    rw [append_assoc,exec,after_of_ne (head_simple hr hw hu),
      redirs_complete hr (hw.noRedir hu) (by omega)]
    exact args_complete rfl rfl hw hmax hu (by omega)

end

end Xv6.Shell
