import Mathlib.Tactic

/-! The constants of `param.h`, `fs.h`, `stat.h` and `fcntl.h` used by the model. -/
namespace Xv6

abbrev Pid := ℕ

def NPROC : ℕ := 64
def NOFILE : ℕ := 16
def NFILE : ℕ := 100
def NINODE : ℕ := 50
def NDEV : ℕ := 10
def ROOTDEV : ℕ := 1
def MAXOPBLOCKS : ℕ := 10
def LOGSIZE : ℕ := MAXOPBLOCKS*3
def NBUF : ℕ := MAXOPBLOCKS*3

def ROOTINO : ℕ := 1
def MAXPATH : ℕ := 128
def BSIZE : ℕ := 1024
def NDIRECT : ℕ := 12
def NINDIRECT : ℕ := BSIZE/4
def MAXFILE : ℕ := NDIRECT+NINDIRECT
def DIRSIZ : ℕ := 14

lemma NPROC_pos : 0 < NPROC := by decide
lemma one_lt_NPROC : 1 < NPROC := by decide
lemma NINODE_pos : 0 < NINODE := by decide

def O_RDONLY : ℕ := 0
def O_WRONLY : ℕ := 1
def O_RDWR : ℕ := 2
def O_CREATE : ℕ := 0x200
def O_TRUNC : ℕ := 0x400

end Xv6
