import Mathlib.Computability.Language
import Xv6.User.Ulib

/-! The matcher of `grep.c` and the language of its expressions. -/
namespace Xv6

open Ulib

namespace Grep

def caret : UInt8 := 94
def star : UInt8 := 42
def dollar : UInt8 := 36
def dot : UInt8 := 46
def newline : UInt8 := 10

lemma length_tail_lt {s : Str} (h : deref s ≠ 0) : s.tail.length < s.length := by
  cases s with
  | nil => exact absurd rfl h
  | cons a s => simp

/-- The string at a pointer. -/
def cstr (s : Str) : Str := s.takeWhile (· ≠ 0)

mutual

/-- Search for `re` at the beginning of `text`. -/
def matchhere (re text : Str) : Bool :=
  if h : deref re = 0 then true
  else
    have := length_tail_lt h
    if deref re.tail = star then matchstar (deref re) re.tail.tail text
    else if deref re = dollar ∧ deref re.tail = 0 then deref text = 0
    else if deref text ≠ 0 ∧ (deref re = dot ∨ deref re = deref text) then
      matchhere re.tail text.tail
    else false
termination_by (re.length,text.length,0)

/-- Search for `c*re` at the beginning of `text`. -/
def matchstar (c : UInt8) (re text : Str) : Bool :=
  if matchhere re text then true
  else if h : deref text ≠ 0 ∧ (deref text = c ∨ c = dot) then
    have := length_tail_lt h.1
    matchstar c re text.tail
  else false
termination_by (re.length,text.length,1)

end

/-- The loop of `match`. -/
def search (re text : Str) : Bool :=
  if matchhere re text then true
  else if h : deref text ≠ 0 then
    have := length_tail_lt h
    search re text.tail
  else false
termination_by text.length

end Grep

def Grep.match (re text : Str) : Bool :=
  if deref re = Grep.caret then Grep.matchhere re.tail text else Grep.search re text

namespace Grep

/-! ### The language of an expression -/

inductive Item
  | char (c : UInt8)
  | star (c : UInt8)

/-- An expression without its `^`: the items from left to right, and whether a `$` ends it. -/
structure Regex where
  items : List Item
  atEnd : Bool

def parse : Str → Regex
  | [] => ⟨[],false⟩
  | [c] => if c = dollar then ⟨[],true⟩ else ⟨[.char c],false⟩
  | c::d::re =>
    if d = Grep.star then ⟨.star c::(parse re).items,(parse re).atEnd⟩
    else ⟨.char c::(parse (d::re)).items,(parse (d::re)).atEnd⟩

/-- `a` is a character that `c` stands for. -/
def Fits (c a : UInt8) : Prop := c = dot ∨ c = a

/-- The words of one character that `c` stands for. -/
def charLang (c : UInt8) : Language UInt8 := {w | ∃ a, Fits c a ∧ w = [a]}

def Item.lang : Item → Language UInt8
  | .char c => charLang c
  | .star c => KStar.kstar (charLang c)

def Regex.lang (r : Regex) : Language UInt8 := (r.items.map Item.lang).prod

/-- A word of `L` stands at the beginning of `text`, and when `e` holds it is all of `text`. -/
def Starts (L : Language UInt8) (e : Bool) (text : Str) : Prop :=
  ∃ w v, text = w++v ∧ w ∈ L ∧ (e = true → v = [])

/-- A word of `L` stands somewhere in `text`, and when `e` holds it stands at its end. -/
def Occurs (L : Language UInt8) (e : Bool) (text : Str) : Prop :=
  ∃ u text', text = u++text' ∧ Starts L e text'

section Language
variable {L : Language UInt8} {e : Bool} {c a : UInt8} {text : Str}

lemma starts_one : Starts 1 e text ↔ (e = true → text = []) := by
  constructor
  · rintro ⟨w,v,rfl,hw,hv⟩ he
    rw [Language.mem_one] at hw
    rw [hw,hv he,List.append_nil]
  · intro h
    exact ⟨[],text,rfl,Language.nil_mem_one,h⟩

lemma starts_mul {K : Language UInt8} :
    Starts (K*L) e text ↔ ∃ w text', text = w++text' ∧ w ∈ K ∧ Starts L e text' := by
  constructor
  · rintro ⟨w,v,rfl,hw,hv⟩
    obtain ⟨x,hx,y,hy,rfl⟩ := Language.mem_mul.mp hw
    exact ⟨x,y++v,by simp,hx,y,v,rfl,hy,hv⟩
  · rintro ⟨x,_,rfl,hx,y,v,rfl,hy,hv⟩
    exact ⟨x++y,v,by simp,Language.append_mem_mul hx hy,hv⟩

lemma starts_char :
    Starts (charLang c*L) e text ↔ ∃ a t, text = a::t ∧ Fits c a ∧ Starts L e t := by
  rw [starts_mul]
  constructor
  · rintro ⟨_,t,rfl,⟨a,ha,rfl⟩,h⟩
    exact ⟨a,t,rfl,ha,h⟩
  · rintro ⟨a,t,rfl,ha,h⟩
    exact ⟨[a],t,rfl,⟨a,ha,rfl⟩,h⟩

/-- Any number of characters: none, or one and then any number. -/
lemma starts_star : Starts (KStar.kstar (charLang c)*L) e text ↔
    Starts L e text ∨ ∃ a t, text = a::t ∧ Fits c a ∧ Starts (KStar.kstar (charLang c)*L) e t := by
  rw [← starts_char,← mul_assoc]
  nth_rewrite 1 [← Language.one_add_self_mul_kstar_eq_kstar (charLang c)]
  rw [add_mul,one_mul]
  constructor
  · rintro ⟨w,v,h,hw | hw,hv⟩
    · exact .inl ⟨w,v,h,hw,hv⟩
    · exact .inr ⟨w,v,h,hw,hv⟩
  · rintro (⟨w,v,h,hw,hv⟩ | ⟨w,v,h,hw,hv⟩)
    · exact ⟨w,v,h,.inl hw,hv⟩
    · exact ⟨w,v,h,.inr hw,hv⟩

lemma occurs_nil : Occurs L e [] ↔ Starts L e [] := by
  constructor
  · rintro ⟨u,t,h,hs⟩
    obtain ⟨rfl,rfl⟩ := List.append_eq_nil_iff.mp h.symm
    exact hs
  · exact fun h => ⟨[],[],rfl,h⟩

lemma occurs_cons : Occurs L e (a::text) ↔ Starts L e (a::text) ∨ Occurs L e text := by
  constructor
  · rintro ⟨u,t,h,hs⟩
    cases u with
    | nil => exact .inl (h ▸ hs)
    | cons b u => exact .inr ⟨u,t,(List.cons.inj h).2,hs⟩
  · rintro (h | ⟨u,t,rfl,hs⟩)
    · exact ⟨[],a::text,rfl,h⟩
    · exact ⟨a::u,t,rfl,hs⟩

end Language

/-! ### The matcher decides it -/

@[simp] lemma cstr_nil : cstr [] = [] := rfl

lemma cstr_of_deref {s : Str} (h : deref s = 0) : cstr s = [] := by
  cases s with
  | nil => rfl
  | cons a s => simp [cstr,show a = 0 from h]

lemma cstr_of_deref_ne {s : Str} (h : deref s ≠ 0) : cstr s = deref s::cstr s.tail := by
  cases s with
  | nil => exact absurd rfl h
  | cons a s => simp [cstr,deref,show a ≠ 0 from h]

lemma cstr_eq_nil_iff {s : Str} : cstr s = [] ↔ deref s = 0 := by
  refine ⟨fun h => ?_,cstr_of_deref⟩
  by_contra hs
  rw [cstr_of_deref_ne hs] at h
  exact List.cons_ne_nil _ _ h

/-- What a case of the matcher reads of the text: a character that `c` stands for. -/
lemma next_iff {P : Str → Prop} {c : UInt8} {text : Str} :
    (∃ a t, cstr text = a::t ∧ Fits c a ∧ P t) ↔
      (deref text ≠ 0 ∧ Fits c (deref text)) ∧ P (cstr text.tail) := by
  by_cases h : deref text = 0
  · simp [cstr_of_deref h,h]
  · rw [cstr_of_deref_ne h]
    constructor
    · rintro ⟨a,t,hat,hfit,hP⟩
      obtain ⟨rfl,rfl⟩ := List.cons.inj hat
      exact ⟨⟨h,hfit⟩,hP⟩
    · rintro ⟨⟨_,hfit⟩,hP⟩
      exact ⟨_,_,rfl,hfit,hP⟩

/-- The text starts with a word of the expression. -/
def Here (re text : Str) : Prop := Starts (parse re).lang (parse re).atEnd text

lemma matchstar_iff_of_matchhere {re : Str}
    (hre : ∀ text, matchhere re text = true ↔ Here (cstr re) (cstr text)) (c : UInt8) (text : Str) :
    matchstar c re text = true ↔
      Starts (KStar.kstar (charLang c)*(parse (cstr re)).lang) (parse (cstr re)).atEnd
        (cstr text) := by
  -- the loop moves on along the text
  induction text with
  | nil =>
    rw [matchstar,starts_star]
    simp [deref,hre,Here]
  | cons a text ih =>
    rw [matchstar,starts_star,next_iff]
    simp only [List.tail_cons]
    rw [← ih,← Here,← hre]
    by_cases hhere : matchhere re (a::text) = true
    · simp [hhere]
    · simp only [hhere,Bool.false_eq_true,if_false,false_or]
      have hfit : Fits c (deref (a::text)) ↔ deref (a::text) = c ∨ c = dot := by
        rw [Fits,or_comm,@eq_comm _ c (deref _)]
      rw [hfit]
      split_ifs with h <;> simp [h]

/-- `matchhere` decides whether a word of the expression starts the text. -/
lemma matchhere_iff (re text : Str) : matchhere re text = true ↔ Here (cstr re) (cstr text) := by
  -- the expression that is left gets shorter, by one character or by two
  induction hn : re.length using Nat.strong_induction_on generalizing re text with
  | _ n ih =>
    subst hn
    rw [matchhere]
    by_cases hre : deref re = 0
    · simp [hre,cstr_of_deref hre,Here,parse,Regex.lang,starts_one]
    have hlt := length_tail_lt hre
    simp only [hre,dite_false]
    rw [cstr_of_deref_ne hre]
    by_cases hstar : deref re.tail = star
    · have hne : deref re.tail ≠ 0 := by
        rw [hstar]
        decide
      have hlt' := length_tail_lt hne
      rw [if_pos hstar,matchstar_iff_of_matchhere fun t => ih _ (by omega) _ t rfl,
        cstr_of_deref_ne hne,Here]
      simp [parse,hstar,Regex.lang,Item.lang]
    · rw [if_neg hstar]
      by_cases hdollar : deref re = dollar ∧ deref re.tail = 0
      · rw [if_pos hdollar,cstr_of_deref hdollar.2,hdollar.1]
        simp [Here,parse,Regex.lang,starts_one,cstr_eq_nil_iff]
      · have hparse : parse (deref re::cstr re.tail)
            = ⟨.char (deref re)::(parse (cstr re.tail)).items,(parse (cstr re.tail)).atEnd⟩ := by
          by_cases ht : deref re.tail = 0
          · have hd : deref re ≠ dollar := fun h => hdollar ⟨h,ht⟩
            simp [cstr_of_deref ht,parse,hd]
          · rw [cstr_of_deref_ne ht]
            simp [parse,hstar]
        have htail := ih _ hlt re.tail text.tail rfl
        rw [if_neg hdollar,Here,hparse]
        simp only [Regex.lang,List.map_cons,List.prod_cons,Item.lang]
        rw [starts_char,next_iff]
        simp only [Fits]
        split_ifs with h
        · rw [htail]
          simp [h,Here,Regex.lang]
        · simp [h]

lemma search_iff (re text : Str) : search re text = true ↔
    Occurs (parse (cstr re)).lang (parse (cstr re)).atEnd (cstr text) := by
  induction text with
  | nil =>
    rw [search,cstr_nil,occurs_nil,← cstr_nil,← Here,← matchhere_iff]
    simp [deref]
  | cons a text ih =>
    rw [search]
    by_cases ha : deref (a::text) = 0
    · rw [cstr_of_deref ha,occurs_nil,← cstr_of_deref ha,← Here,← matchhere_iff]
      simp [ha]
    · rw [cstr_of_deref_ne ha,occurs_cons,← cstr_of_deref_ne ha,← Here,← matchhere_iff]
      simp only [List.tail_cons]
      rw [← ih]
      by_cases hhere : matchhere re (a::text) = true <;> simp [hhere,ha]

/-- The expression after its `^`. -/
def body (re : Str) : Str := if deref re = caret then re.tail else re

/-- For all strings `match` decides whether the text has a substring in the language of the
expression, at the start of the text after a `^`, and `matchhere` and `matchstar` decide whether a
word of the language starts the text. -/
theorem matcher_decides (re text : Str) :
    (Grep.match re text = true ↔
      ∃ u text', cstr text = u++text' ∧ Here (cstr (body re)) text' ∧
        (deref re = caret → u = [])) ∧
    (matchhere re text = true ↔ Here (cstr re) (cstr text)) ∧
    ∀ c, matchstar c re text = true ↔
      Starts (KStar.kstar (charLang c)*(parse (cstr re)).lang) (parse (cstr re)).atEnd
        (cstr text) := by
  refine ⟨?_,matchhere_iff re text,fun c => matchstar_iff_of_matchhere (matchhere_iff re) c text⟩
  rw [Grep.match,body]
  by_cases hre : deref re = caret
  · simp only [hre,if_true,matchhere_iff]
    constructor
    · exact fun h => ⟨[],_,rfl,h,fun _ => rfl⟩
    · rintro ⟨u,t,h,hs,hu⟩
      rw [h,hu trivial]
      exact hs
  · simp only [hre,if_false,search_iff]
    constructor
    · rintro ⟨u,t,h,hs⟩
      exact ⟨u,t,h,hs,nofun⟩
    · rintro ⟨u,t,h,hs,_⟩
      exact ⟨u,t,h,hs⟩

end Grep
end Xv6
