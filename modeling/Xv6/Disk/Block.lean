import Xv6.Param

/-! Disk blocks as byte arrays, and the little-endian 32-bit words the kernel reads through
casts such as `(uint*)bp->data` and `(struct logheader*)buf->data`. -/
namespace Xv6

abbrev Block := Fin BSIZE → UInt8

abbrev Disk := ℕ → Block

namespace Block

/-- A byte by number; there is none past the end of the block. -/
def byte (b : Block) (n : ℕ) : UInt8 := if h : n < BSIZE then b ⟨n,h⟩ else 0

/-- `((uint*)data)[i]`. -/
def word (b : Block) (i : ℕ) : ℕ :=
  (b.byte (4*i)).toNat+256*(b.byte (4*i+1)).toNat+65536*(b.byte (4*i+2)).toNat+
    16777216*(b.byte (4*i+3)).toNat

/-- `((uint*)data)[i] = v`. -/
def setWord (b : Block) (i v : ℕ) : Block :=
  fun j => if j.val/4 = i then UInt8.ofNat (v/256^(j.val%4)) else b j

lemma byte_setWord_ne (b : Block) {i n : ℕ} (v : ℕ) (h : n/4 ≠ i) :
    (b.setWord i v).byte n = b.byte n := by
  unfold byte setWord
  split_ifs <;> simp_all

lemma byte_setWord (b : Block) {i k : ℕ} (v : ℕ) (hi : 4*i+k < BSIZE) (hk : k < 4) :
    (b.setWord i v).byte (4*i+k) = UInt8.ofNat (v/256^k) := by
  have hd : (4*i+k)/4 = i := by omega
  have hm : (4*i+k)%4 = k := by omega
  simp [byte,setWord,hi,hd,hm]

@[simp] theorem word_setWord (b : Block) {i : ℕ} (v : ℕ) (hi : i < BSIZE/4) :
    (b.setWord i v).word i = v%2^32 := by
  have hb : 4*i+3 < BSIZE := by simp only [BSIZE] at *; omega
  have h₀ : (b.setWord i v).byte (4*i) = UInt8.ofNat v := by
    simpa using byte_setWord b (k := 0) v (by omega) (by omega)
  unfold word
  rw [h₀,byte_setWord b v (by omega) (by omega),byte_setWord b v (by omega) (by omega),
    byte_setWord b v hb (by omega)]
  simp only [UInt8.toNat_ofNat']
  omega

@[simp] theorem word_setWord_ne (b : Block) {i j : ℕ} (v : ℕ) (h : j ≠ i) :
    (b.setWord i v).word j = b.word j := by
  unfold word
  rw [byte_setWord_ne b v (by omega),byte_setWord_ne b v (by omega),
    byte_setWord_ne b v (by omega),byte_setWord_ne b v (by omega)]

@[simp] theorem word_zero (i : ℕ) : word (fun _ => 0) i = 0 := by
  simp [word,byte]

end Block
end Xv6
