import Mathlib.Algebra.BigOperators.Fin
import Mathlib.Algebra.Order.BigOperators.Group.Finset
import Mathlib.Tactic

/-! Totals over a finite family of holders, for counters that are kept equal to the number of
references held. A step changes one holder, and the total moves by the difference at that one. -/
namespace Xv6.Lib
open Finset

variable {ι : Type*} [Fintype ι]

/-- The total after a change at `p` alone. -/
theorem sum_change {M : Type*} [AddCommMonoid M] {g k : ι → M} (p : ι)
    (h : ∀ q, q ≠ p → k q = g q) : ∑ i, k i+g p = ∑ i, g i+k p := by
  classical
  have hrest : ∑ i ∈ Finset.univ.erase p, k i = ∑ i ∈ Finset.univ.erase p, g i :=
    sum_congr rfl fun i hi => h i (ne_of_mem_erase hi)
  rw [←add_sum_erase _ k (mem_univ p),←add_sum_erase _ g (mem_univ p),
    hrest]
  abel

variable {g g' : ι → ℕ}

/-- One holder has at most the total. -/
theorem le_sum (p : ι) : g p ≤ ∑ i, g i :=
  single_le_sum (fun _ _ => Nat.zero_le _) (mem_univ p)

/-- Two holders together have at most the total. -/
theorem add_le_sum {p q : ι} (h : p ≠ q) : g p+g q ≤ ∑ i, g i := by
  classical
  have hq : g q ≤ ∑ i ∈ Finset.univ.erase p, g i :=
    single_le_sum (fun _ _ => Nat.zero_le _)
      (mem_erase.mpr ⟨h.symm,mem_univ q⟩)
  rw [←add_sum_erase _ g (mem_univ p)]
  omega

end Xv6.Lib
