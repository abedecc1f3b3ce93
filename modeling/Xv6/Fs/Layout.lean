import Xv6.Disk.Block

/-! The on-disk format of `fs.h`: the super block's numbers, inodes and directory entries, and
the string functions of `string.c` that compare and store file names. -/
namespace Xv6.Fs

def T_DIR : ℕ := 1
def T_FILE : ℕ := 2
def T_DEVICE : ℕ := 3

/-- The part of `struct superblock` that `fs.c` reads; the data blocks are the last `nblocks`. -/
structure Superblock where
  size : ℕ
  nblocks : ℕ
  ninodes : ℕ

/-- The first block after the boot block, the super block, the log, the inodes and the bitmap. -/
def Superblock.dataStart (sb : Superblock) : ℕ := sb.size-sb.nblocks

/-- The value an `int` has after it is stored in a `short`. -/
def toShort (x : ℤ) : ℤ := x.bmod 65536

/-- `struct dinode`, and the copy of it in a `struct inode`. -/
structure Dinode where
  type : ℕ
  major : ℤ
  minor : ℤ
  nlink : ℤ
  size : ℕ
  addrs : Fin (NDIRECT+1) → ℕ
  deriving DecidableEq

namespace Dinode

/-- What `ialloc` writes: zeroes and a type. -/
def fresh (type : ℕ) : Dinode := ⟨type,0,0,0,0,fun _ => 0⟩

/-- The inode after `itrunc`. -/
def trunc (d : Dinode) : Dinode := { d with size := 0, addrs := fun _ => 0 }

def setAddr (d : Dinode) (j : Fin (NDIRECT+1)) (b : ℕ) : Dinode :=
  { d with addrs := Function.update d.addrs j b }

end Dinode

/-- `struct dirent`; the name has `DIRSIZ` bytes and ends at its first zero byte, if it has one. -/
structure Dirent where
  inum : ℕ
  name : List UInt8
  deriving DecidableEq

/-- `sizeof(struct dirent)`. -/
def DIRENT : ℕ := 16

namespace Dirent

/-- The entry as the kernel writes it: a little-endian `ushort` and the name. -/
def encode (e : Dirent) : List UInt8 := UInt8.ofNat e.inum::UInt8.ofNat (e.inum/256)::e.name

def decode (l : List UInt8) : Dirent :=
  ⟨(l.getD 0 0).toNat+256*(l.getD 1 0).toNat,l.drop 2⟩

/-- The entry that `sys_unlink` writes. -/
def zero : Dirent := ⟨0,List.replicate DIRSIZ 0⟩

end Dirent

/-- `strncmp(p, q, n)`; a string ends at a zero byte or at the end of the list. -/
def strncmp : ℕ → List UInt8 → List UInt8 → ℤ
  | 0,_,_ => 0
  | n+1,p,q =>
    if p.headD 0 ≠ 0 ∧ p.headD 0 = q.headD 0 then strncmp n p.tail q.tail
    else (p.headD 0).toNat-(q.headD 0).toNat

/-- What `strncpy(s, t, n)` leaves in the `n` bytes at `s`. -/
def strncpy : ℕ → List UInt8 → List UInt8
  | 0,_ => []
  | n+1,t => if t.headD 0 = 0 then List.replicate (n+1) 0 else t.headD 0::strncpy n t.tail

def namecmp (s t : List UInt8) : ℤ := strncmp DIRSIZ s t

/-- The name that `namecmp` sees: at most `DIRSIZ` bytes, up to the first zero byte. -/
def cut (s : List UInt8) : List UInt8 := (s.take DIRSIZ).takeWhile (· ≠ 0)

lemma byte_eq_zero (a : UInt8) : a.toNat = 0 ↔ a = 0 :=
  ⟨fun h => UInt8.toNat_inj.mp h,fun h => by rw [h]; rfl⟩

lemma strncmp_eq_zero (n : ℕ) (p q : List UInt8) :
    strncmp n p q = 0 ↔ (p.take n).takeWhile (· ≠ 0) = (q.take n).takeWhile (· ≠ 0) := by
  induction n generalizing p q with
  | zero => simp [strncmp]
  | succ n ih =>
    rw [strncmp]
    cases p with
    | nil =>
      cases q with
      | nil => simp
      | cons b q => by_cases hb : b = 0 <;> simp [hb,byte_eq_zero]
    | cons a p =>
      cases q with
      | nil => by_cases ha : a = 0 <;> simp [ha,byte_eq_zero]
      | cons b q =>
        by_cases ha : a = 0
        · by_cases hb : b = 0 <;> simp [ha,hb,byte_eq_zero]
        · by_cases hab : a = b
          · subst hab
            simpa [ha] using ih p q
          · have hne : (a.toNat : ℤ)-b.toNat ≠ 0 := by
              intro h
              exact hab (UInt8.toNat_inj.mp (by omega))
            by_cases hb : b = 0 <;> simp_all

lemma namecmp_eq_zero (s t : List UInt8) : namecmp s t = 0 ↔ cut s = cut t := strncmp_eq_zero _ s t

lemma strncpy_length (n : ℕ) (t : List UInt8) : (strncpy n t).length = n := by
  induction n generalizing t with
  | zero => rfl
  | succ n ih =>
    rw [strncpy]
    split
    · exact List.length_replicate
    · rw [List.length_cons,ih]

lemma takeWhile_strncpy (n : ℕ) (t : List UInt8) :
    (strncpy n t).takeWhile (· ≠ 0) = (t.take n).takeWhile (· ≠ 0) := by
  induction n generalizing t with
  | zero => rfl
  | succ n ih =>
    rw [strncpy]
    cases t with
    | nil => simp [List.replicate_succ]
    | cons a t =>
      by_cases ha : a = 0
      · simp [ha,List.replicate_succ]
      · simpa [ha] using ih t

lemma cut_strncpy (t : List UInt8) : cut (strncpy DIRSIZ t) = cut t := by
  have hlen : (strncpy DIRSIZ t).take DIRSIZ = strncpy DIRSIZ t :=
    List.take_of_length_le (strncpy_length _ _).le
  rw [cut,hlen]
  exact takeWhile_strncpy _ t

end Xv6.Fs
