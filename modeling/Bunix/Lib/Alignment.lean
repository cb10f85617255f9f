import Mathlib.Algebra.Group.Nat.Defs

/-! # Masks of machine words

Clearing or keeping the low bits of a word rounds it down to a multiple of a power of two, or takes
the remainder.
-/
namespace Bunix.Lib

open BitVec

variable {w k : Nat} {m : BitVec w}

theorem toNat_and_mask (x : BitVec w) (hm : m.toNat = 2 ^ k - 1) : (x &&& m).toNat = x.toNat % 2 ^ k := by
  rw [toNat_and, hm, Nat.and_two_pow_sub_one_eq_mod]

theorem toNat_and_not_add_and (x m : BitVec w) : (x &&& ~~~m).toNat + (x &&& m).toNat = x.toNat := by
  have hdisjoint : (x &&& ~~~m) &&& (x &&& m) = 0#w := by
    ext i hi
    simp only [getElem_and, getElem_not, getElem_zero]
    cases x[i] <;> cases m[i] <;> rfl
  have hunion : (x &&& ~~~m) ||| (x &&& m) = x := by
    ext i hi
    simp only [getElem_or, getElem_and, getElem_not]
    cases x[i] <;> cases m[i] <;> rfl
  rw [← toNat_add_of_and_eq_zero hdisjoint, add_eq_or_of_and_eq_zero _ _ hdisjoint, hunion]

theorem toNat_and_not_mask (x : BitVec w) (hm : m.toNat = 2 ^ k - 1) :
    (x &&& ~~~m).toNat = x.toNat / 2 ^ k * 2 ^ k := by
  have hsum := toNat_and_not_add_and x m
  rw [toNat_and_mask x hm] at hsum
  have hdiv := Nat.div_add_mod' x.toNat (2 ^ k)
  omega

end Bunix.Lib
