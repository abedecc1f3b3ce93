import Mathlib.Tactic

/-! `memmove` of the kernel's `string.c` and of the user library's `ulib.c`. Pointers wrap around
at 2^64, so a range that ends at the top of memory has the end 0. -/
namespace Xv6.Memmove
open Function (update update_apply)

abbrev Mem := UInt64 → UInt8

-- while(n-- > 0) *d++ = *s++;
def copyUp : ℕ → Mem → UInt64 → UInt64 → Mem
  | 0,m,_,_ => m
  | n+1,m,d,s => copyUp n (update m d (m s)) (d+1) (s+1)

-- while(n-- > 0) *--d = *--s;
def copyDown : ℕ → Mem → UInt64 → UInt64 → Mem
  | 0,m,_,_ => m
  | n+1,m,d,s => copyDown n (update m (d-1) (m (s-1))) (d-1) (s-1)

/-- The return value and the memory after the kernel's `memmove`. -/
def Kernel.memmove (m : Mem) (dst src : UInt64) (n : UInt32) : UInt64×Mem :=
  if n = 0 then (dst,m)
  else if src < dst ∧ src+n.toUInt64 > dst then
    (dst,copyDown n.toNat m (dst+n.toUInt64) (src+n.toUInt64))
  else (dst,copyUp n.toNat m dst src)

/-- The same for the user library, where `n` is an `int`. -/
def User.memmove (m : Mem) (vdst vsrc : UInt64) (n : Int32) : UInt64×Mem :=
  if vsrc > vdst then (vdst,copyUp n.toInt.toNat m vdst vsrc)
  else (vdst,copyDown n.toInt.toNat m (vdst+n.toInt64.toUInt64) (vsrc+n.toInt64.toUInt64))

/-- The destination holds what the source held, and the rest of memory is as it was. -/
structure Moved (m : Mem) (dst src : UInt64) (len : ℕ) (m' : Mem) : Prop where
  moved : ∀ i < len, m' (dst+UInt64.ofNat i) = m (src+UInt64.ofNat i)
  kept : ∀ a, (∀ i < len, a ≠ dst+UInt64.ofNat i) → m' a = m a

/-- The memory that both should leave: a byte is looked up by its distance from `dst`. -/
def copied (m : Mem) (dst src : UInt64) (len : ℕ) : Mem :=
  fun a => if (a-dst).toNat < len then m (src+(a-dst)) else m a

section
variable {m : Mem} {a d s dst src : UInt64} {n len : ℕ}

lemma copied_moved (h : len ≤ 2^64) : Moved m dst src len (copied m dst src len) where
  moved i hi := by
    have hd : dst+UInt64.ofNat i-dst = UInt64.ofNat i := by grind
    rw [copied,hd,if_pos]
    rwa [UInt64.toNat_ofNat_of_lt' (by rw [UInt64.size]; omega)]
  kept a ha := by
    refine if_neg fun hlt => ha _ hlt ?_
    rw [UInt64.ofNat_toNat]
    grind

lemma toNat_sub_succ (h : a ≠ d) : (a-d).toNat = (a-(d+1)).toNat+1 := by
  have hne : a-d ≠ 0 := by grind
  have he : a-(d+1) = a-d-1 := by grind
  rw [he]
  generalize a-d = x at hne
  have hx : x.toNat ≠ 0 := fun h0 => hne (UInt64.toNat_inj.mp h0)
  have hlt := x.toNat_lt
  rw [UInt64.toNat_sub]
  change _ = (2^64-1+x.toNat)%2^64+1
  omega

/-- Upwards no byte of the source is overwritten before it is read, unless the destination begins
inside the source. -/
lemma copyUp_eq (hn : n ≤ 2^64) (h : d = s ∨ n ≤ (d-s).toNat) : copyUp n m d s = copied m d s n := by
  induction n generalizing m d s with
  | zero => rfl
  | succ n ih =>
    have hds : d+1-(s+1) = d-s := by grind
    rw [copyUp,ih (by omega) (h.imp (congrArg (·+1)) fun h => by rw [hds]; omega)]
    funext a
    have hsrc : s+1+(a-(d+1)) = s+(a-d) := by grind
    rw [copied,copied,hsrc]
    by_cases had : a = d
    · subst had
      have h₁ : (a-(a+1)).toNat = 2^64-1 := by
        rw [show a-(a+1) = -1 by grind]
        rfl
      have h₂ : s+(a-a) = s := by grind
      rw [if_neg (by omega),if_pos (by simp),h₂,Function.update_self]
    · rw [toNat_sub_succ had]
      simp only [Nat.add_lt_add_iff_right]
      split_ifs with hlt
      · refine Function.update_of_ne (fun he => ?_) ..
        rcases h with h | h
        · exact had (by grind)
        · rw [show d-s = a-d by grind,toNat_sub_succ had] at h
          omega
      · exact Function.update_of_ne had ..

/-- Downwards none is, unless the source begins inside the destination. -/
lemma copyDown_eq (hn : n < 2^64) (h : s = d ∨ n ≤ (s-d).toNat) :
    copyDown n m (d+UInt64.ofNat n) (s+UInt64.ofNat n) = copied m d s n := by
  induction n generalizing m with
  | zero => rfl
  | succ n ih =>
    have hd : d+UInt64.ofNat (n+1)-1 = d+UInt64.ofNat n := by rw [UInt64.ofNat_add]; grind
    have hs : s+UInt64.ofNat (n+1)-1 = s+UInt64.ofNat n := by rw [UInt64.ofNat_add]; grind
    have hx : (UInt64.ofNat n).toNat = n :=
      UInt64.toNat_ofNat_of_lt' (by rw [UInt64.size]; omega)
    rw [copyDown,hd,hs,ih (by omega) (h.imp id fun h => by omega)]
    generalize UInt64.ofNat n = x at hx
    funext a
    rw [copied,copied]
    by_cases had : a = d+x
    · have hax : a-d = x := by grind
      rw [hax,if_neg (by omega),if_pos (by omega),had,Function.update_self]
    · have hne : (a-d).toNat ≠ n := fun he => had (by
        have : a-d = x := UInt64.toNat_inj.mp (he.trans hx.symm)
        grind)
      have hiff : (a-d).toNat < n+1 ↔ (a-d).toNat < n := by omega
      simp only [hiff]
      split_ifs with hlt
      · refine Function.update_of_ne (fun he => ?_) ..
        have hxs : x = (s-d)+(a-d) := by grind
        have hmod := congrArg UInt64.toNat hxs
        rw [UInt64.toNat_add,hx] at hmod
        rcases h with h | h
        · exact hne (by rw [← hx,hxs,h]; congr 1; grind)
        · have := (s-d).toNat_lt
          omega
      · exact Function.update_of_ne had ..

/-- Where one range begins with respect to the other, as the two loops need it. -/
lemma eq_or_le_sub (h : d.toNat ≤ s.toNat ∨ s.toNat+n ≤ d.toNat) (hs : s.toNat+n ≤ 2^64) :
    d = s ∨ n ≤ (d-s).toNat := by
  by_cases he : d = s
  · exact .inl he
  · have hne := mt UInt64.toNat_inj.mp he
    have hd := d.toNat_lt
    rw [UInt64.toNat_sub]
    exact .inr (by omega)

lemma kernel_eq {k : UInt32} (hk : k.toNat = len) (hd : dst.toNat+len ≤ 2^64)
    (hs : src.toNat+len ≤ 2^64) : Kernel.memmove m dst src k = (dst,copied m dst src len) := by
  have hlen : len < 2^32 := hk ▸ k.toNat_lt
  have hu : k.toUInt64 = UInt64.ofNat len := by
    rw [← hk]
    exact UInt64.toNat_inj.mp (by simp)
  have hadd : (src+UInt64.ofNat len).toNat = (src.toNat+len)%2^64 := by
    rw [UInt64.toNat_add,UInt64.toNat_ofNat_of_lt' (by rw [UInt64.size]; omega)]
  rw [Kernel.memmove]
  split_ifs with h0 hdir
  · subst h0
    rw [← show 0 = len from hk]
    rfl
  · rw [hu,UInt64.lt_iff_toNat_lt] at hdir
    rw [hk,hu,copyDown_eq (by omega) (eq_or_le_sub (.inl hdir.1.le) hd)]
  · -- an end of the source at 2^64 would leave no room for the destination above it
    rw [hu,gt_iff_lt,UInt64.lt_iff_toNat_lt,UInt64.lt_iff_toNat_lt,hadd] at hdir
    rw [hk,copyUp_eq (by omega) (eq_or_le_sub (by omega) hs)]

lemma user_eq {k : Int32} (hk : k.toInt = len) (hd : dst.toNat+len ≤ 2^64)
    (hs : src.toNat+len ≤ 2^64) : User.memmove m dst src k = (dst,copied m dst src len) := by
  have hlen := k.toInt_lt
  have hu : k.toInt64.toUInt64 = UInt64.ofNat len := by
    rw [← Int64.ofInt_toInt k.toInt64,Int32.toInt_toInt64,hk,Int64.ofInt_eq_ofNat]
    rfl
  rw [User.memmove,hu,hk,Int.toNat_natCast]
  split_ifs with hdir <;> rw [gt_iff_lt,UInt64.lt_iff_toNat_lt] at hdir
  · rw [copyUp_eq (by omega) (eq_or_le_sub (.inl hdir.le) hs)]
  · rw [copyDown_eq (by omega) (eq_or_le_sub (.inl (not_lt.mp hdir)) hd)]

end

/-- Both functions move the bytes whatever the overlap, and so they agree. -/
theorem memmove_moves (m : Mem) (dst src : UInt64) (len : ℕ) (hd : dst.toNat+len ≤ 2^64)
    (hs : src.toNat+len ≤ 2^64) :
    (∀ n : UInt32, n.toNat = len → (Kernel.memmove m dst src n).1 = dst ∧
      Moved m dst src len (Kernel.memmove m dst src n).2) ∧
    (∀ n : Int32, n.toInt = len → (User.memmove m dst src n).1 = dst ∧
      Moved m dst src len (User.memmove m dst src n).2) ∧
    ∀ (n : UInt32) (k : Int32), n.toNat = len → k.toInt = len →
      Kernel.memmove m dst src n = User.memmove m dst src k := by
  have hmoved : Moved m dst src len (copied m dst src len) := copied_moved (by omega)
  refine ⟨fun n hn => ?_,fun n hn => ?_,fun n k hn hk => ?_⟩
  · rw [kernel_eq hn hd hs]
    exact ⟨rfl,hmoved⟩
  · rw [user_eq hn hd hs]
    exact ⟨rfl,hmoved⟩
  · rw [kernel_eq hn hd hs,user_eq hk hd hs]

/-- The ranges 2..6 and 4..8. -/
theorem memmove_moves_overlap : (4 : UInt64).toNat+5 ≤ 2^64 ∧ (2 : UInt64).toNat+5 ≤ 2^64 ∧
    (5 : UInt32).toNat = 5 ∧ (5 : Int32).toInt = 5 ∧
    Moved (fun a => a.toUInt8) 4 2 5 (Kernel.memmove (fun a => a.toUInt8) 4 2 5).2 ∧
    Kernel.memmove (fun a => a.toUInt8) 4 2 5 = User.memmove (fun a => a.toUInt8) 4 2 5 := by
  have h := memmove_moves (fun a => a.toUInt8) 4 2 5 (by decide) (by decide)
  exact ⟨by decide,by decide,rfl,rfl,(h.1 5 rfl).2,h.2.2 5 5 rfl rfl⟩

end Xv6.Memmove
