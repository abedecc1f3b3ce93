import Xv6.User.Ulib

/-! The parser of `sh.c` and the grammar that it is for. The text from a pointer up to `es` stands
for the pointer `*ps`; the pointers kept in the tree are offsets into the line. -/
namespace Xv6.Shell
open Ulib

def MAXARGS : ℕ := 10

/-- The codes of the characters of a C string literal. -/
def str (s : String) : Str := s.toList.map fun c => UInt8.ofNat c.toNat

-- " \t\r\n\v"
def whitespace : Str := [32,9,13,10,11]
def symbols : Str := str "<|>&;()"

/-- The condition `strchr(t, c)`. -/
def among (t : Str) (c : UInt8) : Bool := (strchr t c).isSome

/-- A character that can stand in a word. -/
def wordChar (c : UInt8) : Bool := !among whitespace c && !among symbols c

def skip (s : Str) : Str := s.dropWhile (among whitespace)

/-- What `gettoken` returns, with `*q`, `*eq` and the new `*ps`. -/
structure Got where
  ret : UInt8
  q : Str
  eq : Str
  ps : Str

def gettoken (s : Str) : Got :=
  let q := skip s
  let (ret,eq) := match q with
    | [] => (0,q)
    | c::s' =>
      if c = 0 then (0,q)
      else if among (str "|();&<") c then (c,s')
      else if c = 62 then if deref s' = 62 then (43,s'.tail) else (62,s')
      else (97,q.dropWhile wordChar)
  ⟨ret,q,eq,skip eq⟩

/-- The result of `peek` and the new `*ps`. -/
def peek (s toks : Str) : Bool×Str := (deref (skip s) != 0 && among toks (deref (skip s)),skip s)

/-- `struct cmd` over what stands for a string. -/
inductive Cmd (α : Type)
  | exec (argv : List α)
  | redir (cmd : Cmd α) (file : α) (mode fd : ℕ)
  | pipe (left right : Cmd α)
  | list (left right : Cmd α)
  | back (cmd : Cmd α)
  deriving DecidableEq

namespace Cmd
variable {α β : Type}

def map (f : α → β) : Cmd α → Cmd β
  | exec argv => exec (argv.map f)
  | redir c a m d => redir (c.map f) (f a) m d
  | pipe l r => pipe (l.map f) (r.map f)
  | list l r => list (l.map f) (r.map f)
  | back c => back (c.map f)

/-- The strings of a tree. -/
def strings : Cmd α → List α
  | exec argv => argv
  | redir c a _ _ => c.strings++[a]
  | pipe l r => l.strings++r.strings
  | list l r => l.strings++r.strings
  | back c => c.strings

/-- `cmd->argv[argc] = q`: the `execcmd` is at the end of the chain of redirections. -/
def addArg (a : α) : Cmd α → Cmd α
  | exec argv => exec (argv++[a])
  | redir c f m d => redir (c.addArg a) f m d
  | c => c

end Cmd

/-- A string in the line: the pointers `q` and `eq`. -/
structure Span where
  q : ℕ
  eq : ℕ
  deriving DecidableEq

inductive Fail
  | panic (msg : String)
  | fuel
  deriving DecidableEq

/-- A parsing function takes `*ps` and returns the tree and the new `*ps`. -/
abbrev Parsed := Except Fail (Cmd Span×Str)

/-- The pointers of a token, for a line of `es` characters. -/
def span (es : ℕ) (g : Got) : Span := ⟨es-g.q.length,es-g.eq.length⟩

def redircmd (es : ℕ) (cmd : Cmd Span) (tok : UInt8) (g : Got) : Cmd Span :=
  if tok = 60 then .redir cmd (span es g) O_RDONLY 0
  else if tok = 62 then .redir cmd (span es g) (O_WRONLY ||| O_CREATE ||| O_TRUNC) 1
  else if tok = 43 then .redir cmd (span es g) (O_WRONLY ||| O_CREATE) 1
  else cmd

/-- The first argument bounds the passes of the loop. -/
def parseredirs (es : ℕ) : ℕ → Cmd Span → Str → Parsed
  | 0,_,_ => .error .fuel
  | n+1,cmd,s =>
    let (more,s) := peek s (str "<>")
    if more then
      let t := gettoken s
      let g := gettoken t.ps
      if g.ret ≠ 97 then .error (.panic "missing file for redirection")
      else parseredirs es n (redircmd es cmd t.ret g) g.ps
    else .ok (cmd,s)

-- the loop of parseexec
def parseargs (es : ℕ) : ℕ → Cmd Span → ℕ → Str → Parsed
  | 0,_,_,_ => .error .fuel
  | n+1,ret,argc,s =>
    let (done,s) := peek s (str "|)&;")
    if done then .ok (ret,s)
    else
      let g := gettoken s
      if g.ret = 0 then .ok (ret,g.ps)
      else if g.ret ≠ 97 then .error (.panic "syntax")
      else if argc+1 ≥ MAXARGS then .error (.panic "too many args")
      else do
        let (ret,s) ← parseredirs es n (ret.addArg (span es g)) g.ps
        parseargs es n ret (argc+1) s

-- the loop of parseline
def parsebacks : ℕ → Cmd Span → Str → Parsed
  | 0,_,_ => .error .fuel
  | n+1,cmd,s =>
    let (more,s) := peek s (str "&")
    if more then parsebacks n (.back cmd) (gettoken s).ps else .ok (cmd,s)

mutual

/-- The first argument bounds the depth of the calls. -/
def parseline (es : ℕ) : ℕ → Str → Parsed
  | 0,_ => .error .fuel
  | n+1,s => do
    let (cmd,s) ← parsepipe es n s
    let (cmd,s) ← parsebacks n cmd s
    let (more,s) := peek s (str ";")
    if more then
      let (right,s) ← parseline es n (gettoken s).ps
      return (.list cmd right,s)
    else return (cmd,s)

def parsepipe (es : ℕ) : ℕ → Str → Parsed
  | 0,_ => .error .fuel
  | n+1,s => do
    let (cmd,s) ← parseexec es n s
    let (more,s) := peek s (str "|")
    if more then
      let (right,s) ← parsepipe es n (gettoken s).ps
      return (.pipe cmd right,s)
    else return (cmd,s)

def parseblock (es : ℕ) : ℕ → Str → Parsed
  | 0,_ => .error .fuel
  | n+1,s => do
    let (opened,s) := peek s (str "(")
    if !opened then throw (.panic "parseblock")
    let (cmd,s) ← parseline es n (gettoken s).ps
    let (closed,s) := peek s (str ")")
    if !closed then throw (.panic "syntax - missing )")
    parseredirs es n cmd (gettoken s).ps

def parseexec (es : ℕ) : ℕ → Str → Parsed
  | 0,_ => .error .fuel
  | n+1,s => do
    let (block,s) := peek s (str "(")
    if block then parseblock es n s
    else
      let (ret,s) ← parseredirs es n (.exec []) s
      parseargs es n ret 0 s

end

/-- `nulterminate` ends every string of the tree with a NUL in the line's memory. -/
def nulterminate : Cmd Span → Str → Str
  | .exec argv,m => argv.foldl (fun m a => m.set a.eq 0) m
  | .redir c file _ _,m => (nulterminate c m).set file.eq 0
  | .pipe l r,m => nulterminate r (nulterminate l m)
  | .list l r,m => nulterminate r (nulterminate l m)
  | .back c,m => nulterminate c m

/-- `parsecmd` on a pointer to the bytes `m`: the tree and the bytes as it leaves them. -/
def parsecmd (m : Str) : Except Fail (Cmd Span×Str) := do
  let s := m.takeWhile (· ≠ 0)
  let es := s.length
  let (cmd,s) ← parseline es (4*es+4) s
  let (_,s) := peek s []
  if s ≠ [] then throw (.panic "syntax")
  return (cmd,nulterminate cmd m)

/-- The C string at an offset. -/
def cstring (m : Str) (q : ℕ) : Str := (m.drop q).takeWhile (· ≠ 0)

/-! ### Tokens and grammar -/

inductive Token
  | word (w : Str)
  | lt
  | gt
  | gtgt
  | bar
  | amp
  | semi
  | lpar
  | rpar
  deriving DecidableEq

/-- The token of a symbol other than `>`. -/
def symbol (c : UInt8) : Token :=
  if c = 60 then .lt else if c = 124 then .bar else if c = 38 then .amp
  else if c = 59 then .semi else if c = 40 then .lpar else .rpar

/-- The tokens of a string; a word is a maximal run of characters other than whitespace and
symbols. -/
def lex : Str → List Token
  | [] => []
  | [c] =>
    if among whitespace c then [] else if c = 62 then [.gt]
    else if among symbols c then [symbol c] else [.word [c]]
  | c::d::s =>
    if among whitespace c then lex (d::s)
    else if c = 62 then if d = 62 then .gtgt::lex s else .gt::lex (d::s)
    else if among symbols c then symbol c::lex (d::s)
    else if wordChar d then
      match lex (d::s) with
      | .word w::ts => .word (c::w)::ts
      | ts => ts
    else .word [c]::lex (d::s)

/-- The file name, mode and descriptor of a redirection. -/
abbrev Target := Str×ℕ×ℕ

inductive Redirs : List Token → List Target → Prop
  | nil : Redirs [] []
  | input {w ts rs} (h : Redirs ts rs) : Redirs (.lt::.word w::ts) ((w,O_RDONLY,0)::rs)
  | output {w ts rs} (h : Redirs ts rs) :
      Redirs (.gt::.word w::ts) ((w,O_WRONLY ||| O_CREATE ||| O_TRUNC,1)::rs)
  | append {w ts rs} (h : Redirs ts rs) :
      Redirs (.gtgt::.word w::ts) ((w,O_WRONLY ||| O_CREATE,1)::rs)

inductive Words : List Token → List Str → List Target → Prop
  | nil : Words [] [] []
  | cons {w us rs ts ws rs'} (hr : Redirs us rs) (hw : Words ts ws rs') :
      Words (.word w::us++ts) (w::ws) (rs++rs')

def wrap (rs : List Target) (c : Cmd Str) : Cmd Str :=
  rs.foldl (fun c t => .redir c t.1 t.2.1 t.2.2) c

def backs (k : ℕ) (c : Cmd Str) : Cmd Str := Nat.iterate Cmd.back k c

inductive Nonterminal
  | line
  | pipe
  | exec

/-- The grammar, with the tree of each derivation. -/
inductive Derives : Nonterminal → List Token → Cmd Str → Prop
  | line {ts c} (h : Derives .pipe ts c) (k : ℕ) :
      Derives .line (ts++List.replicate k .amp) (backs k c)
  | list {ts c us d} (h : Derives .pipe ts c) (k : ℕ) (h' : Derives .line us d) :
      Derives .line (ts++List.replicate k .amp++.semi::us) (.list (backs k c) d)
  | single {ts c} (h : Derives .exec ts c) : Derives .pipe ts c
  | pipe {ts c us d} (h : Derives .exec ts c) (h' : Derives .pipe us d) :
      Derives .pipe (ts++.bar::us) (.pipe c d)
  | block {ts c us rs} (h : Derives .line ts c) (hr : Redirs us rs) :
      Derives .exec (.lpar::ts++.rpar::us) (wrap rs c)
  | simple {us rs ts ws rs'} (hr : Redirs us rs) (hw : Words ts ws rs')
      (hmax : ws.length ≤ MAXARGS-1) : Derives .exec (us++ts) (wrap (rs++rs') (.exec ws))

end Xv6.Shell
