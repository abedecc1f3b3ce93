import Mathlib.Data.List.TakeWhile
import Xv6.User.Grep

/-! The loop of `grep` over its buffer. A read may return any number of bytes from one up to what
was asked for and is left of the input. -/
namespace Xv6.Grep
open List Ulib

-- sizeof(buf)
def BUFSIZE : ℕ := 1024

variable {buf input l s t : Str}

/-- `memmove` of `s` to the offset `i` of the buffer. -/
def store (buf : Str) (i : ℕ) (s : Str) : Str := buf.take i++s++buf.drop (i+s.length)

/-- The inner loop: the lines in the buffer from `p` on. The buffer, the last `p`, and the writes
to the standard output. -/
def scan (pattern : Str) (buf : Str) (p : ℕ) (out : List Str) : Str×ℕ×List Str :=
  match h : strchr (buf.drop p) newline with
  | none => (buf,p,out)
  | some k =>
    have := lt_of_strchr h
    let q := p+k
    let buf := buf.set q 0
    if Grep.match pattern (buf.drop p) then
      let buf := buf.set q newline
      scan pattern buf (q+1) (out++[(buf.drop p).take (q+1-p)])
    else scan pattern buf (q+1) out
termination_by buf.length-p
decreasing_by all_goals simp_all; omega

/-- What `read` returns when `room` bytes are asked for and `left` are left of the input. -/
def readLen (want room left : ℕ) : ℕ := min (want+1) (min room left)

/-- The outer loop, with `m` bytes in the buffer and `input` not yet read; the read of number `i`
returns `cut i+1` bytes if it can. The input that is left at the end and the writes. -/
def grepFrom (pattern : Str) (cut : ℕ → ℕ) (i : ℕ) (input buf : Str) (m : ℕ) (out : List Str) :
    Str×List Str :=
  let n := readLen (cut i) (BUFSIZE-m-1) input.length
  if h : n > 0 then
    have : 0 < input.length := by
      have : n ≤ input.length := (min_le_right _ _).trans (min_le_right _ _)
      omega
    let buf := store buf m (input.take n)
    let m := m+n
    let buf := buf.set m 0
    let (buf,p,out) := scan pattern buf 0 out
    let (buf,m) := if m > 0 then (store buf 0 ((buf.drop p).take (m-p)),m-p) else (buf,m)
    grepFrom pattern cut (i+1) (input.drop n) buf m out
  else (input,out)
termination_by input.length

def grep (pattern : Str) (cut : ℕ → ℕ) (buf input : Str) : Str×List Str :=
  grepFrom pattern cut 0 input buf 0 []

/-! ### Lines -/

def joined (ls : List Str) : Str := (ls.map (·++[newline])).flatten

@[simp] lemma joined_nil : joined [] = [] := rfl

@[simp] lemma joined_cons (l : Str) (ls : List Str) :
    joined (l::ls) = l++newline::joined ls := by
  simp [joined]

@[simp] lemma joined_append (ls ms : List Str) : joined (ls++ms) = joined ls++joined ms := by
  simp [joined]

variable {ls : List Str}

lemma length_lt_of_mem (h : l ∈ ls) : l.length < (joined ls).length := by
  obtain ⟨a,b,rfl⟩ := append_of_mem h
  simp
  omega

/-- The text of a line: neither a newline nor a NUL. -/
def Plain (l : Str) : Prop := newline ∉ l ∧ 0 ∉ l

instance (l : Str) : Decidable (Plain l) := inferInstanceAs (Decidable (_ ∧ _))

/-- What has been read of some lines are whole lines and the beginning of the next one. -/
lemma exists_cut (hls : ∀ l ∈ ls, Plain l) (s rest : Str)
    (h : s++rest = joined ls) : ∃ a b t, ls = a++b ∧ s = joined a++t ∧ t++rest = joined b ∧
      Plain t := by
  induction ls generalizing s with
  | nil =>
    obtain ⟨rfl,rfl⟩ := append_eq_nil_iff.mp h
    exact ⟨[],[],[],rfl,rfl,rfl,by simp [Plain]⟩
  | cons l ls ih =>
    rw [joined_cons] at h
    obtain ⟨hl,hls⟩ := forall_mem_cons.mp hls
    rcases append_eq_append_iff.mp h with ⟨x,rfl,hx⟩ | ⟨x,rfl,hx⟩
    · refine ⟨[],(s++x)::ls,s,rfl,rfl,by simpa using h,?_⟩
      exact ⟨fun hs => hl.1 (by simp [hs]),fun hs => hl.2 (by simp [hs])⟩
    · cases x with
      | nil => exact ⟨[],l::ls,l,rfl,by simp,by simpa using h,hl⟩
      | cons c x =>
        obtain ⟨rfl,hrest⟩ := List.cons.inj hx
        obtain ⟨a,b,t,rfl,rfl,hb,ht⟩ := ih hls _ hrest.symm
        exact ⟨l::a,b,t,rfl,by simp,hb,ht⟩

lemma strchr_line (hl : Plain l) (s : Str) : strchr (l++newline::s) newline = some l.length := by
  induction l with
  | nil => simp [strchr,newline]
  | cons a l ih =>
    obtain ⟨hn,h0⟩ := hl
    have ha : a ≠ newline := fun h => hn (by simp [h])
    have ha0 : a ≠ 0 := fun h => h0 (by simp [h])
    have := ih ⟨fun h => hn (by simp [h]),fun h => h0 (by simp [h])⟩
    simp [strchr,ha,ha0,this]

lemma strchr_none (ht : Plain t) (s : Str) : strchr (t++0::s) newline = none := by
  induction t with
  | nil => simp [strchr]
  | cons a t ih =>
    obtain ⟨hn,h0⟩ := ht
    have ha : a ≠ newline := fun h => hn (by simp [h])
    have ha0 : a ≠ 0 := fun h => h0 (by simp [h])
    have := ih ⟨fun h => hn (by simp [h]),fun h => h0 (by simp [h])⟩
    simp [strchr,ha,ha0,this]

lemma match_line (pattern : Str) (hl : Plain l) (s : Str) :
    Grep.match pattern (l++0::s) = Grep.match pattern l := by
  have hcstr : cstr (l++0::s) = cstr l := by
    have h : ∀ a ∈ l, decide (a ≠ 0) = true := fun a ha => by
      simp only [ne_eq,decide_not,Bool.not_eq_true',decide_eq_false_iff_not]
      exact fun h0 => hl.2 (h0 ▸ ha)
    rw [cstr,cstr,takeWhile_append_of_pos h,takeWhile_cons_of_neg (by simp),
      append_nil]
    exact (takeWhile_eq_self_iff.mpr h).symm
  rw [Bool.eq_iff_iff,Grep.match,Grep.match]
  split_ifs
  · rw [matchhere_iff,matchhere_iff,hcstr]
  · rw [search_iff,search_iff,hcstr]

/-- The lines that are to be printed. -/
def printed (pattern : Str) (ls : List Str) : List Str :=
  (ls.filter (Grep.match pattern)).map (·++[newline])

lemma printed_append (pattern : Str) (ls ms : List Str) :
    printed pattern (ls++ms) = printed pattern ls++printed pattern ms := by
  simp [printed]

/-- One pass of the inner loop; `b` is what is left where the newline was. -/
lemma scan_line (pattern : Str) (hl : Plain l) (pre s : Str) (out : List Str) :
    ∃ b, scan pattern (pre++(l++newline::s)) pre.length out
      = scan pattern ((pre++(l++[b]))++s) (pre++(l++[b])).length (out++printed pattern [l]) := by
  have hset (a b : UInt8) :
      (pre++(l++a::s)).set (pre.length+l.length) b = pre++(l++b::s) := by
    simp
  have hstr : strchr ((pre++(l++newline::s)).drop pre.length) newline = some l.length := by
    rw [drop_left,strchr_line hl]
  have htake : (l++newline::s).take (pre.length+l.length+1-pre.length) = l++[newline] := by
    rw [show pre.length+l.length+1-pre.length = l.length+1 by omega,take_append]
    simp
  rw [scan]
  split
  · rename_i h
    exact absurd (hstr.symm.trans h) nofun
  · rename_i k h
    obtain rfl := Option.some.inj (hstr.symm.trans h)
    simp only [hset,drop_left,match_line pattern hl,htake]
    by_cases hm : Grep.match pattern l = true
    · refine ⟨newline,?_⟩
      rw [if_pos hm]
      simp [printed,hm,add_assoc]
    · refine ⟨0,?_⟩
      rw [if_neg hm]
      simp [printed,hm,add_assoc]

/-- The inner loop writes the matching lines in the buffer and stops after the last one. -/
lemma scan_lines (pattern : Str) (hls : ∀ l ∈ ls, Plain l) (ht : Plain t)
    (junk : Str) (pre : Str) (out : List Str) :
    ∃ pre', pre'.length = pre.length+(joined ls).length ∧
      scan pattern (pre++(joined ls++(t++0::junk))) pre.length out
        = (pre'++(t++0::junk),pre'.length,out++printed pattern ls) := by
  induction ls generalizing pre out with
  | nil =>
    refine ⟨pre,rfl,?_⟩
    rw [scan]
    split
    · simp [printed]
    · rename_i k h
      rw [drop_left,joined_nil,nil_append,strchr_none ht] at h
      exact absurd h nofun
  | cons l ls ih =>
    obtain ⟨hl,hls⟩ := forall_mem_cons.mp hls
    obtain ⟨b,hline⟩ := scan_line pattern hl pre (joined ls++(t++0::junk)) out
    obtain ⟨pre',hlen,hscan⟩ := ih hls (pre++(l++[b])) (out++printed pattern [l])
    refine ⟨pre',by simp [hlen]; omega,?_⟩
    rw [joined_cons,append_assoc,cons_append,hline,hscan,append_assoc,
      ← printed_append,singleton_append]

/-! ### Reads -/

/-- After a read the buffer holds the unfinished line and what was read, as one string. -/
lemma store_read (hbuf : buf.length = BUFSIZE) (ht : buf.take t.length = t)
    (hlen : t.length+s.length < BUFSIZE) :
    ∃ junk, (store buf t.length s).set (t.length+s.length) 0 = t++s++0::junk ∧
      (t++s++0::junk).length = BUFSIZE := by
  obtain ⟨a,junk,hd⟩ := exists_cons_of_length_pos
    (l := buf.drop (t.length+s.length)) (by rw [length_drop]; omega)
  refine ⟨junk,?_,?_⟩
  · rw [store,ht,hd]
    simp
  · have := congrArg List.length hd
    rw [length_drop,length_cons] at this
    simp only [length_append,length_cons]
    omega

lemma store_rest (pre t junk : Str) (h : (pre++(t++junk)).length = BUFSIZE) :
    (store (pre++(t++junk)) 0 t).length = BUFSIZE ∧
      (store (pre++(t++junk)) 0 t).take t.length = t := by
  rw [store]
  constructor
  · simp only [take_zero,nil_append,length_append,length_drop,zero_add] at h ⊢
    omega
  · simp

/-- One pass of the outer loop: `t` is the unfinished line in the buffer before and `t'` after. -/
lemma grepFrom_read (pattern : Str) (cut : ℕ → ℕ) (i : ℕ) {t' : Str} {a : List Str}
    (hbuf : buf.length = BUFSIZE) (htake : buf.take t.length = t) (ha : ∀ l ∈ a, Plain l)
    (ht' : Plain t') {n : ℕ} (hn : readLen (cut i) (BUFSIZE-t.length-1) input.length = n)
    (hpos : 0 < n) (hts : t++input.take n = joined a++t') (out : List Str) :
    ∃ buf', buf'.length = BUFSIZE ∧ buf'.take t'.length = t' ∧
      grepFrom pattern cut i input buf t.length out
        = grepFrom pattern cut (i+1) (input.drop n) buf' t'.length (out++printed pattern a) := by
  have hs : (input.take n).length = n := by
    rw [readLen] at hn
    rw [length_take]
    omega
  have hroom : t.length+n < BUFSIZE := by
    rw [readLen] at hn
    omega
  have hlen : t.length+n = (joined a).length+t'.length := by
    have := congrArg List.length hts
    rwa [length_append,length_append,hs] at this
  obtain ⟨junk,hstore,htot⟩ := store_read hbuf htake (s := input.take n) (by rwa [hs])
  rw [hs,hts,append_assoc] at hstore
  rw [hts,append_assoc] at htot
  obtain ⟨pre,hpre,hscan⟩ := scan_lines pattern ha ht' junk [] out
  rw [length_nil,zero_add] at hpre
  rw [nil_append,length_nil] at hscan
  have hsub : t.length+n-pre.length = t'.length := by omega
  obtain ⟨h₁,h₂⟩ := store_rest pre t' (0::junk) (by rw [← htot]; simp [hpre])
  refine ⟨_,h₁,h₂,?_⟩
  rw [grepFrom]
  simp only [hn,gt_iff_lt,hpos,dite_true,hstore,hscan]
  rw [if_pos (by omega),drop_left]
  simp only [hsub,take_left]

/-- From any state of the outer loop: `t` is the unfinished line in the buffer. -/
lemma grepFrom_iff (pattern : Str) (cut : ℕ → ℕ) (hls : ∀ l ∈ ls, Plain l) (i : ℕ)
    (hbuf : buf.length = BUFSIZE) (hm : t.length < BUFSIZE)
    (htake : buf.take t.length = t) (ht : Plain t) (hin : t++input = joined ls) (out : List Str) :
    grepFrom pattern cut i input buf t.length out = ([],out++printed pattern ls) ↔
      ∀ l ∈ ls, l.length+1 < BUFSIZE := by
  -- a read that returns anything leaves less of the input
  induction hk : input.length using Nat.strong_induction_on
    generalizing ls i input buf t out with
  | _ k ih =>
    subst hk
    obtain ⟨n,hn⟩ : ∃ n, readLen (cut i) (BUFSIZE-t.length-1) input.length = n := ⟨_,rfl⟩
    by_cases hpos : 0 < n
    · obtain ⟨a,b,t',rfl,hts,hb,ht'⟩ :=
        exists_cut hls (t++input.take n) (input.drop n) (by simpa using hin)
      obtain ⟨hla,hlb⟩ := forall_mem_append.mp hls
      have hlen := congrArg List.length hts
      rw [readLen] at hn
      rw [length_append,length_append,length_take] at hlen
      obtain ⟨buf',h₁,h₂,hread⟩ :=
        grepFrom_read pattern cut i hbuf htake hla ht' hn hpos hts out
      rw [hread,printed_append,← append_assoc,
        ih _ (by rw [length_drop]; omega) hlb (i+1) h₁ (by omega) h₂ ht' hb _ rfl,
        forall_mem_append]
      refine ⟨fun h => ⟨fun l hl => ?_,h⟩,And.right⟩
      have := length_lt_of_mem hl
      omega
    · rw [grepFrom]
      simp only [hn,gt_iff_lt,hpos,dite_false,Prod.mk.injEq]
      cases input with
      | nil =>
        cases ls with
        | nil => simp [printed]
        | cons l ls =>
          rw [append_nil,joined_cons] at hin
          exact absurd (by simp [hin]) ht.1
      | cons c input =>
        refine ⟨fun h => absurd h.1 nofun,fun h => ?_⟩
        have hfull : t.length+1 = BUFSIZE := by
          rw [readLen,length_cons] at hn
          omega
        cases ls with
        | nil => exact absurd hin (by simp)
        | cons l ls =>
          -- the first line is short, so that its newline would be in the buffer
          have hl := h l mem_cons_self
          rw [joined_cons] at hin
          rcases append_eq_append_iff.mp hin with ⟨x,rfl,_⟩ | ⟨x,rfl,hx⟩
          · rw [length_append] at hl
            omega
          · cases x with
            | nil =>
              rw [append_nil] at hfull
              omega
            | cons d x =>
              obtain ⟨rfl,_⟩ := List.cons.inj hx
              exact absurd (by simp) ht.1

/-- `grep` writes exactly the matching lines, whole, once each and in order, and reads the input to
its end. -/
def PrintsMatching (pattern : Str) (cut : ℕ → ℕ) (buf : Str) (ls : List Str) : Prop :=
  grep pattern cut buf (joined ls) = ([],printed pattern ls)

/-- For every way the input is cut into reads `grep` prints the matching lines if and only if every
line fits with its newline into the buffer, next to the NUL. -/
theorem grep_prints_matching_iff (pattern : Str) (cut : ℕ → ℕ) (buf : Str)
    (hbuf : buf.length = BUFSIZE) (ls : List Str) (hls : ∀ l ∈ ls, Plain l) :
    PrintsMatching pattern cut buf ls ↔ ∀ l ∈ ls, l.length+1 < BUFSIZE := by
  have ht : Plain [] := by simp [Plain]
  exact grepFrom_iff pattern cut hls 0 hbuf (by decide) rfl ht rfl []

/-- Two lines read in one byte at a time. -/
theorem grep_prints_matching_two :
    PrintsMatching [98] (fun _ => 0) (List.replicate BUFSIZE 0) [[97,98],[99]] :=
  (grep_prints_matching_iff [98] (fun _ => 0) _ length_replicate [[97,98],[99]]
    (by decide)).mpr (by decide)

/-- A line of 1023 characters fills the buffer; the empty expression matches it, but the next read
asks for no bytes and the loop ends. -/
theorem grep_stops_at_long_line :
    Grep.match [] (List.replicate 1023 97) = true ∧
    ¬PrintsMatching [] (fun _ => 1022) (List.replicate BUFSIZE 0) [List.replicate 1023 97] := by
  constructor
  · rw [Grep.match,if_neg (by decide),search,matchhere]
    rfl
  have hplain : ∀ l ∈ [List.replicate 1023 (97 : UInt8)], Plain l := by
    intro l hl
    rw [mem_singleton.mp hl,Plain,mem_replicate,mem_replicate]
    decide
  intro h
  have := (grepFrom_iff [] (fun _ => 1022) hplain 0 length_replicate (by decide) rfl
    (t := []) (by decide) rfl []).mp h _ (mem_singleton_self _)
  rw [length_replicate] at this
  exact absurd this (by decide)

end Xv6.Grep
