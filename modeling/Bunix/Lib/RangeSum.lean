import Mathlib.Algebra.BigOperators.Group.Finset.Basic
import Mathlib.Tactic.Abel

/-! # Sums over what has been numbered

Objects are numbered as they are created, and what refers to them is counted by a sum over all
numbers given so far. When one object changes, the sum changes by what it contributes.
-/
namespace Bunix.Lib

open Finset

theorem sum_range_of_eq_off {M : Type*} [AddCommMonoid M] (f f' : Nat → M) {n i : Nat} (hi : i < n)
    (h : ∀ j, j ≠ i → f' j = f j) :
    ∑ j ∈ range n, f' j + f i = ∑ j ∈ range n, f j + f' i := by
  have hmem : i ∈ range n := mem_range.mpr hi
  have hrest : ∑ j ∈ (range n).erase i, f' j = ∑ j ∈ (range n).erase i, f j :=
    sum_congr rfl fun j hj => h j (ne_of_mem_erase hj)
  rw [← add_sum_erase _ f' hmem, ← add_sum_erase _ f hmem, hrest]
  abel

end Bunix.Lib
