import Mathlib.Tactic

/-! Little-endian numbers, and memories as functions from addresses to bytes with the two ways of
getting at a run of them. -/
namespace Xv6.Lib

/-- The number whose bytes these are, lowest first. -/
def num : List UInt8 → ℕ
  | [] => 0
  | b::bs => b.toNat+256*num bs

/-- The lowest `n` bytes of a number, lowest first. -/
def bytes : ℕ → ℕ → List UInt8
  | 0,_ => []
  | n+1,v => UInt8.ofNat v::bytes n (v/256)

@[simp] lemma length_bytes (n v : ℕ) : (bytes n v).length = n := by
  induction n generalizing v with
  | zero => rfl
  | succ n ih => simp [bytes,ih]

@[simp] lemma num_bytes (n v : ℕ) : num (bytes n v) = v%256^n := by
  induction n generalizing v with
  | zero => simp [num,bytes,Nat.mod_one]
  | succ n ih =>
    rw [bytes,num,ih,UInt8.toNat_ofNat',show 256^(n+1) = 256*256^n from pow_succ' 256 n,Nat.mod_mul]

lemma num_lt (bs : List UInt8) : num bs < 256^bs.length := by
  induction bs with
  | nil => simp [num]
  | cons b bs ih =>
    have hb := b.toNat_lt
    rw [num,List.length_cons,pow_succ]
    omega

@[simp] lemma num_replicate_zero (n : ℕ) : num (List.replicate n 0) = 0 := by
  induction n with
  | zero => rfl
  | succ n ih => simp [List.replicate_succ,num,ih]

/-- The `n` bytes from `a` on. -/
def slice (g : ℕ → UInt8) (a n : ℕ) : List UInt8 := (List.range n).map fun i => g (a+i)

/-- Put bytes in at `a`. -/
def patch (g : ℕ → UInt8) (a : ℕ) (bs : List UInt8) : ℕ → UInt8 :=
  fun i => if a ≤ i ∧ i < a+bs.length then bs.getD (i-a) 0 else g i

@[simp] lemma length_slice (g : ℕ → UInt8) (a n : ℕ) : (slice g a n).length = n := by
  simp [slice]

lemma slice_congr {g g' : ℕ → UInt8} {a n : ℕ} (h : ∀ i, a ≤ i → i < a+n → g i = g' i) :
    slice g a n = slice g' a n := by
  refine List.map_congr_left fun i hi => ?_
  rw [List.mem_range] at hi
  exact h _ (by omega) (by omega)

lemma slice_const (c : UInt8) (a n : ℕ) : slice (fun _ => c) a n = List.replicate n c := by
  simp [slice,List.map_const']

lemma slice_patch (g : ℕ → UInt8) (a : ℕ) (bs : List UInt8) :
    slice (patch g a bs) a bs.length = bs := by
  refine List.ext_getElem (by simp) fun i h₁ h₂ => ?_
  simp [slice,patch,h₂]

lemma slice_patch_of_disjoint (g : ℕ → UInt8) {a b n : ℕ} {bs : List UInt8}
    (h : b+n ≤ a ∨ a+bs.length ≤ b) : slice (patch g a bs) b n = slice g b n := by
  refine slice_congr fun i h₁ h₂ => if_neg ?_
  omega

end Xv6.Lib
