import Xv6.Fs.Data
import Mathlib.Data.Nat.Bitwise

/-! The bytes of the on-disk format: inodes in the inode blocks, a bit for each block in the free
bitmap, and the super block. -/
namespace Xv6
open Function (update update_self update_of_ne)

namespace Block
variable (b : Block)

/-- The words from `i` on are replaced by `f 0`, `f 1`, ..., `f (n-1)`. -/
def setWords (i n : ℕ) (f : ℕ → ℕ) : Block := fun k =>
  if i ≤ k.val/4 ∧ k.val/4 < i+n then UInt8.ofNat (f (k.val/4-i)/256^(k.val%4)) else b k

/-- Whether bit `bi` of a bitmap block is set. -/
def bit (bi : ℕ) : Bool := (b.byte (bi/8)).toNat &&& (1 <<< (bi%8)) ≠ 0

/-- `bp->data[bi/8] |= 1 << (bi % 8)`. -/
def setBit (bi : ℕ) : Block := fun i =>
  if i.val = bi/8 then UInt8.ofNat ((b i).toNat ||| (1 <<< (bi%8))) else b i

lemma bit_eq_testBit (bi : ℕ) : b.bit bi = (b.byte (bi/8)).toNat.testBit (bi%8) := by
  rw [bit,Nat.one_shiftLeft,Nat.and_two_pow]
  cases (b.byte (bi/8)).toNat.testBit (bi%8) <;> simp

lemma byte_setBit {bi n : ℕ} : (b.setBit bi).byte n =
    if n = bi/8 ∧ n < BSIZE then UInt8.ofNat ((b.byte n).toNat ||| (1 <<< (bi%8))) else b.byte n := by
  unfold byte setBit
  by_cases hn : n < BSIZE
  · simp only [hn,dite_true,and_true]
  · simp [hn]

lemma bit_setBit {bi : ℕ} (h : bi < BSIZE*8) (bj : ℕ) :
    (b.setBit bi).bit bj = (decide (bj = bi) || b.bit bj) := by
  rw [bit_eq_testBit,bit_eq_testBit,byte_setBit]
  by_cases hd : bj/8 = bi/8
  · rw [if_pos ⟨hd,by omega⟩,Nat.one_shiftLeft,UInt8.toNat_ofNat']
    have hlt : (b.byte (bj/8)).toNat ||| 2^(bi%8) < 2^8 :=
      Nat.or_lt_two_pow (b.byte _).toNat_lt (Nat.pow_lt_pow_right (by omega) (by omega))
    rw [Nat.mod_eq_of_lt hlt,Nat.testBit_or,Nat.testBit_two_pow,Bool.or_comm]
    congr 1
    exact decide_eq_decide.mpr (by omega)
  · rw [if_neg (fun h => hd h.1)]
    have hne : bj ≠ bi := fun he => hd (he ▸ rfl)
    simp [hne]

end Block

namespace Fs

/-- Inodes in a block. -/
def IPB : ℕ := BSIZE/64

/-- Bits in a block of the bitmap. -/
def BPB : ℕ := BSIZE*8

/-- `struct superblock`. -/
structure DiskSb extends Superblock where
  magic : ℕ
  nlog : ℕ
  logstart : ℕ
  inodestart : ℕ
  bmapstart : ℕ

instance : Coe DiskSb Superblock := ⟨DiskSb.toSuperblock⟩

namespace DiskSb

variable (sb : DiskSb)

/-- The block that contains inode `i`. -/
def IBLOCK (i : ℕ) : ℕ := i/IPB+sb.inodestart

/-- The block of the bitmap that contains the bit of block `b`. -/
def BBLOCK (b : ℕ) : ℕ := b/BPB+sb.bmapstart

end DiskSb

namespace Dinode
variable (d : Dinode) (b : Block) {j : ℕ}

/-- The sixteen words of a `struct dinode`. -/
def words : ℕ → ℕ
  | 0 => d.type%65536+65536*(d.major%65536).toNat
  | 1 => (d.minor%65536).toNat+65536*(d.nlink%65536).toNat
  | 2 => d.size
  | w+3 => if h : w < NDIRECT+1 then d.addrs ⟨w,h⟩ else 0

/-- `((struct dinode*)data)[j]`. -/
def decode (j : ℕ) : Dinode where
  type := b.word (16*j)%65536
  major := toShort (b.word (16*j)/65536 : ℕ)
  minor := toShort (b.word (16*j+1)%65536 : ℕ)
  nlink := toShort (b.word (16*j+1)/65536 : ℕ)
  size := b.word (16*j+2)
  addrs a := b.word (16*j+3+a.val)

/-- `((struct dinode*)data)[j] = d`. -/
def encode (j : ℕ) : Block := b.setWords (16*j) 16 d.words

/-- The fields are in the ranges of their types. -/
structure Fits : Prop where
  type : d.type < 65536
  major : toShort d.major = d.major
  minor : toShort d.minor = d.minor
  nlink : toShort d.nlink = d.nlink
  size : d.size < 2^32
  addrs : ∀ a, d.addrs a < 2^32

variable {d}

end Dinode
/-- The inodes on the disk. -/
def inodes (sb : DiskSb) (view : ℕ → Block) (i : ℕ) : Dinode :=
  if i < sb.ninodes then Dinode.decode (view (sb.IBLOCK i)) (i%IPB) else .fresh 0

end Fs
end Xv6
