import Mathlib.Algebra.BigOperators.Fin
import Mathlib.Algebra.Order.BigOperators.Group.Finset

/-!
# Counting over a family of components

A system of finitely many components is a function of their index, and a step
updates one of them. The total of a measure over all components then changes by the
difference at the updated one.
-/

namespace CloudHands.Lib

variable {ι α : Type*} [Fintype ι]

theorem sum_update [DecidableEq ι] (m : ι → α → ℕ) (f : ι → α) (i : ι) (b : α) :
    ∑ x, m x (Function.update f i b x) + m i (f i) = ∑ x, m x (f x) + m i b := by
  rw [← Finset.add_sum_erase _ (fun x => m x (Function.update f i b x)) (Finset.mem_univ i),
    ← Finset.add_sum_erase _ (fun x => m x (f x)) (Finset.mem_univ i)]
  have hrest : ∑ x ∈ Finset.univ.erase i, m x (Function.update f i b x) =
      ∑ x ∈ Finset.univ.erase i, m x (f x) := by
    apply Finset.sum_congr rfl
    intro x hx
    rw [Function.update_of_ne (Finset.ne_of_mem_erase hx)]
  rw [hrest, Function.update_self]
  omega

theorem le_sum (m : ι → ℕ) (i : ι) : m i ≤ ∑ x, m x :=
  Finset.single_le_sum (fun _ _ => Nat.zero_le _) (Finset.mem_univ i)

end CloudHands.Lib
