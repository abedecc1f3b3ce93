import Xv6.Disk.Block

/-! The block-level code of `log.c`. The loops of `write_log` and `install_trans` are unrolled
into lists of statements, which the crash model runs one after another and the concurrent
model runs interleaved with other processes. -/
namespace Xv6.Log

/-- The place of the log on disk: the header block, then the data blocks. -/
structure Layout where
  start : ℕ
  size : ℕ
  size_pos : 0 < size

/-- The blocks of the log area. -/
def Layout.Area (L : Layout) (b : ℕ) : Prop := L.start ≤ b ∧ b < L.start+L.size

instance (L : Layout) (b : ℕ) : Decidable (L.Area b) := inferInstanceAs (Decidable (_ ∧ _))

/-- The log as `mkfs` lays it out. -/
def mkfsLog : Layout := ⟨2,LOGSIZE,by decide⟩

/-- `struct logheader`, in memory. Entries from `n` on are stale. -/
structure LogHeader where
  n : ℕ
  block : ℕ → ℕ

namespace LogHeader

/-- The home blocks `block[0..n)`. -/
def blocks (lh : LogHeader) : List ℕ := (List.range lh.n).map lh.block

/-- What `log_write`'s guard and the types of the struct ensure: the entries fit the array
and the data blocks of the log, and are 32-bit block numbers outside the log area. -/
structure Fits (lh : LogHeader) (L : Layout) : Prop where
  le_logsize : lh.n ≤ LOGSIZE
  lt_size : lh.n < L.size
  entry_lt : ∀ i < lh.n, lh.block i < 2^32
  outside : ∀ i < lh.n, ¬L.Area (lh.block i)

/-- The assignments of `write_head` to the header block; entries from `n` on stay. -/
def fill (lh : LogHeader) (hb : Block) : Block :=
  (List.range lh.n).foldl (fun b i => b.setWord (i+1) (lh.block i)) (hb.setWord 0 lh.n)

/-- The assignments of `read_head` from the header block. A negative `n` runs no loop and is
overwritten before it is used again, so it is read as 0. -/
def read (hb : Block) : LogHeader where
  n := if hb.word 0 < 2^31 then hb.word 0 else 0
  block i := hb.word (i+1)

end LogHeader

/-- The statements of `log.c` that touch buffers; a buffer is named by its block number. -/
inductive Stmt
  | bread (b : ℕ)
  | memmove (dst src : ℕ)
  | putHead (b : ℕ)
  | getHead (b : ℕ)
  | bwrite (b : ℕ)
  | bunpin (b : ℕ)
  | brelse (b : ℕ)
  | clear
  deriving DecidableEq

section Code
variable (L : Layout)

/-- One pass of the loop of `write_log`: copy a modified block from cache to log. -/
def writeLogBody (lh : LogHeader) (tail : ℕ) : List Stmt :=
  [.bread (L.start+tail+1),.bread (lh.block tail),
   .memmove (L.start+tail+1) (lh.block tail),.bwrite (L.start+tail+1),
   .brelse (lh.block tail),.brelse (L.start+tail+1)]

def writeLog (lh : LogHeader) : List Stmt := (List.range lh.n).flatMap (writeLogBody L lh)

def writeHead : List Stmt :=
  [.bread L.start,.putHead L.start,.bwrite L.start,.brelse L.start]

/-- One pass of the loop of `install_trans`: copy a committed block to its home location. -/
def installBody (recovering : Bool) (lh : LogHeader) (tail : ℕ) : List Stmt :=
  let unpin : List Stmt := if recovering then [] else [.bunpin (lh.block tail)]
  .bread (L.start+tail+1)::.bread (lh.block tail)::
    .memmove (lh.block tail) (L.start+tail+1)::.bwrite (lh.block tail)::
    (unpin++[.brelse (L.start+tail+1),.brelse (lh.block tail)])

def installTrans (recovering : Bool) (lh : LogHeader) : List Stmt :=
  (List.range lh.n).flatMap (installBody L recovering lh)

def commit (lh : LogHeader) : List Stmt :=
  if 0 < lh.n then
    writeLog L lh++writeHead L++installTrans L false lh++[.clear]++writeHead L
  else []

def readHead : List Stmt := [.bread L.start,.getHead L.start,.brelse L.start]

/-- `recover_from_log` after its call of `read_head`. -/
def recoverRest (lh : LogHeader) : List Stmt :=
  installTrans L true lh++[.clear]++writeHead L

end Code

lemma fill_foldl_word (f : ℕ → ℕ) (m : ℕ) (b : Block) (j : ℕ) (hm : m < BSIZE/4) :
    ((List.range m).foldl (fun b i => b.setWord (i+1) (f i)) b).word j =
      if 0 < j ∧ j ≤ m then f (j-1)%2^32 else b.word j := by
  induction m with
  | zero => simp; omega
  | succ m ih =>
    rw [List.range_succ,List.foldl_append]
    simp only [List.foldl_cons,List.foldl_nil]
    by_cases hj : j = m+1
    · subst hj
      rw [Block.word_setWord _ _ hm]
      simp
    · rw [Block.word_setWord_ne _ _ hj,ih (by omega)]
      by_cases h : 0 < j ∧ j ≤ m
      · rw [if_pos h,if_pos (by omega)]
      · rw [if_neg h,if_neg (by omega)]

/-- The header written by `write_head` is read back by `read_head`. -/
theorem read_fill {lh : LogHeader} {L : Layout} (h : lh.Fits L) (hb : Block) :
    (LogHeader.read (lh.fill hb)).n = lh.n ∧
    ∀ i < lh.n, (LogHeader.read (lh.fill hb)).block i = lh.block i := by
  have hn := h.le_logsize
  have hm : lh.n < BSIZE/4 := by
    have : LOGSIZE < BSIZE/4 := by decide
    omega
  have h₀ : (lh.fill hb).word 0 = lh.n := by
    unfold LogHeader.fill
    rw [fill_foldl_word _ _ _ _ hm,if_neg (by omega),Block.word_setWord _ _ (by decide)]
    exact Nat.mod_eq_of_lt (by simp only [BSIZE] at hm; omega)
  constructor
  · simp only [LogHeader.read,h₀]
    rw [if_pos (by simp only [BSIZE] at hm; omega)]
  · intro i hi
    simp only [LogHeader.read,LogHeader.fill]
    rw [fill_foldl_word _ _ _ _ hm,if_pos (by omega)]
    exact Nat.mod_eq_of_lt (h.entry_lt i hi)

/-- Clearing the header leaves stale entries, but none of them is read. -/
theorem read_fill_zero (lh : LogHeader) (hb : Block) (h : lh.n = 0) :
    (LogHeader.read (lh.fill hb)).n = 0 := by
  have h₀ : (lh.fill hb).word 0 = 0 := by
    simp only [LogHeader.fill,h,List.range_zero,List.foldl_nil]
    exact Block.word_setWord _ _ (by decide)
  simp [LogHeader.read,h₀]

end Xv6.Log
