import Xv6.Param

/-! The functions of `ulib.c` that the programs use. A pointer to a string is the memory from it on,
read as NUL behind the list. An `int` is an `Int32`: its arithmetic wraps. -/
namespace Xv6.Ulib

abbrev Str := List UInt8

/-- `*s`. -/
def deref (s : Str) : UInt8 := s.headD 0

/-- The offset of the first `c` in the string, `none` for the null pointer. -/
def strchr : Str → UInt8 → Option ℕ
  | [],_ => none
  | a::s,c => if a = 0 then none else if a = c then some 0 else (strchr s c).map (·+1)

lemma lt_of_strchr {s : Str} {c : UInt8} {k : ℕ} (h : strchr s c = some k) : k < s.length := by
  induction s generalizing k with
  | nil => exact absurd h nofun
  | cons a s ih =>
    rw [strchr] at h
    split_ifs at h with h0 hc
    · cases h
      simp
    · obtain ⟨j,hj,rfl⟩ := Option.map_eq_some_iff.mp h
      simpa using ih hj

lemma strchr_isSome {s : Str} (h : 0 ∉ s) (c : UInt8) : (strchr s c).isSome = s.contains c := by
  induction s with
  | nil => rfl
  | cons a s ih =>
    rw [List.mem_cons,not_or] at h
    rw [strchr,if_neg (Ne.symm h.1),List.contains_cons,← ih h.2]
    split_ifs with hc
    · simp [hc]
    · simp [Ne.symm hc]

/-- The loop of `atoi`; the string ends before its NUL. -/
def atoiFrom (n : Int32) : Str → Int32
  | [] => n
  | c::s => if 48 ≤ c ∧ c ≤ 57 then atoiFrom (n*10+Int32.ofNat c.toNat-48) s else n

def atoi (s : Str) : Int32 := atoiFrom 0 s

/-- The string consists of decimal digits. -/
def Digits (s : Str) : Prop := ∀ c ∈ s, 48 ≤ c ∧ c ≤ 57

instance (s : Str) : Decidable (Digits s) := List.decidableBAll _ s

/-- The number that a string of digits stands for, after those with the value `v`. -/
def valueFrom (v : ℕ) (s : Str) : ℕ := s.foldl (fun v c => v*10+(c.toNat-48)) v

def value (s : Str) : ℕ := valueFrom 0 s

lemma atoiFrom_eq {s : Str} (hs : Digits s) (v : ℕ) :
    atoiFrom (Int32.ofNat v) s = Int32.ofNat (valueFrom v s) := by
  induction s generalizing v with
  | nil => rfl
  | cons c s ih =>
    have hc := hs c List.mem_cons_self
    have h48 : 48 ≤ c.toNat := hc.1
    have hstep : Int32.ofNat v*10+Int32.ofNat c.toNat-48 = Int32.ofNat (v*10+(c.toNat-48)) := by
      rw [← Nat.add_sub_assoc h48,Int32.ofNat_sub _ _ (h48.trans (Nat.le_add_left _ _)),
        Int32.ofNat_add,Int32.ofNat_mul]
      rfl
    rw [atoiFrom,if_pos hc,hstep]
    exact ih (fun d hd => hs d (List.mem_cons_of_mem _ hd)) _

/-- `atoi` gives the number modulo 2^32. -/
lemma atoi_eq {s : Str} (hs : Digits s) : atoi s = Int32.ofNat (value s) := atoiFrom_eq hs 0

end Xv6.Ulib
