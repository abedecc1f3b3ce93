import Xv6.User.Ulib

/-! The program `sleep.c`. -/
namespace Xv6.SleepProg
open Ulib

/-- The calls that the program makes. -/
inductive Call
  | write (fd : ℕ) (msg : String)
  | sleep (n : Int32)
  | exit (status : Int32)
  deriving DecidableEq

/-- `main`, which ends with its call of `exit`; `printf(2, ...)` is read as a write to that fd. -/
def main : List (List UInt8) → List Call
  | _::arg::_ =>
    let ticks := atoi arg
    if ticks ≤ 0 then [.write 2 "sleep: invalid number of ticks\n",.exit 1]
    else [.sleep ticks,.exit 0]
  | _ => [.write 2 "sleep: missing operand\n",.exit 1]

/-- The program calls `sleep` once, with the number it was given, if that is a positive `int`, and
otherwise exits with status 1 and without a call of `sleep`. -/
def Sleeps (argv0 arg : List UInt8) (rest : List (List UInt8)) : Prop :=
  if 1 ≤ value arg ∧ value arg ≤ 2^31-1 then
    ∃ n status, main (argv0::arg::rest) = [.sleep n,.exit status] ∧ n.toInt = value arg
  else ∃ msg, main (argv0::arg::rest) = [.write 2 msg,.exit 1]

/-- A number that is not a positive `int`, but becomes one modulo 2^32. -/
def Wraps (v : ℕ) : Prop := 2^32 ≤ v ∧ 1 ≤ v%2^32 ∧ v%2^32 < 2^31

instance (v : ℕ) : Decidable (Wraps v) := inferInstanceAs (Decidable (_ ∧ _))

lemma toInt_ofNat (v : ℕ) : (Int32.ofNat v).toInt = (v : ℤ).bmod (2^32) := by simp

lemma ofNat_le_zero_iff (v : ℕ) : Int32.ofNat v ≤ 0 ↔ v%2^32 = 0 ∨ 2^31 ≤ v%2^32 := by
  rw [Int32.le_iff_toInt_le,toInt_ofNat,Int.bmod]
  simp only [Int32.toInt_zero]
  split_ifs <;> omega

/-- For every string of digits, `sleep` does what it should unless the number wraps. -/
theorem sleeps_iff (argv0 arg : List UInt8) (rest : List (List UInt8)) (h : Digits arg) :
    Sleeps argv0 arg rest ↔ ¬Wraps (value arg) := by
  have hle := ofNat_le_zero_iff (value arg)
  have hint := toInt_ofNat (value arg)
  rw [Sleeps,main,atoi_eq h,Wraps]
  generalize value arg = v at hle hint
  generalize Int32.ofNat v = n at hle hint
  by_cases hn : n ≤ 0
  · have hv := hle.mp hn
    rw [if_neg (by omega)]
    simp only [hn,if_true]
    exact ⟨fun _ => by omega,fun _ => ⟨_,rfl⟩⟩
  · have hv := mt hle.mpr hn
    simp only [hn,if_false]
    split_ifs with h₁
    · refine ⟨fun _ => by omega,fun _ => ⟨n,0,rfl,?_⟩⟩
      rw [hint,Int.bmod]
      split_ifs <;> omega
    · refine ⟨?_,fun h₂ => absurd h₂ (by omega)⟩
      rintro ⟨msg,hm⟩
      cases hm

/-- "sleep 10" -/
theorem sleeps_ten : Digits [49,48] ∧ Sleeps [] [49,48] [] :=
  ⟨by decide,(sleeps_iff [] [49,48] [] (by decide)).mpr (by decide)⟩

/-- "sleep 4294967297" sleeps for one tick. -/
theorem sleeps_wraps : Digits [52,50,57,52,57,54,55,50,57,55] ∧
    main [[],[52,50,57,52,57,54,55,50,57,55]] = [.sleep 1,.exit 0] ∧
    ¬Sleeps [] [52,50,57,52,57,54,55,50,57,55] [] := by
  have hd : Digits [52,50,57,52,57,54,55,50,57,55] := by decide
  have hm : main [[],[52,50,57,52,57,54,55,50,57,55]] = [.sleep 1,.exit 0] := by decide
  refine ⟨hd,hm,?_⟩
  rw [Sleeps,if_neg (by decide),hm]
  rintro ⟨msg,h⟩
  cases h

end Xv6.SleepProg
