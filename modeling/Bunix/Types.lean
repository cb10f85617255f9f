import Mathlib.Data.BitVec

/-! # Machine words

The kernel's fixed-width integers. Arithmetic on them wraps, as it does in the source.
-/
namespace Bunix

abbrev U64 := BitVec 64
abbrev U32 := BitVec 32

/-- The source's `a < b ? a : b`. -/
def minU64 (a b : U64) : U64 := if a < b then a else b

/-- The source's `a > b ? a : b`. -/
def maxU64 (a b : U64) : U64 := if b < a then a else b

@[simp] theorem toNat_minU64 (a b : U64) : (minU64 a b).toNat = min a.toNat b.toNat := by
  unfold minU64
  split <;> bv_omega

@[simp] theorem toNat_maxU64 (a b : U64) : (maxU64 a b).toNat = max a.toNat b.toNat := by
  unfold maxU64
  split <;> bv_omega

end Bunix

namespace Bunix.Kernel

abbrev ThreadId := Nat
abbrev TaskId := Nat
abbrev CpuId := Nat

/-- The doubling loop of the arrays a task grows (regions, handles); `min` rounds are always enough,
since the capacity it starts from is positive. -/
def doubleCapacity (min : Nat) : Nat → Nat → Nat
  | 0, capacity => capacity
  | fuel + 1, capacity => if capacity < min then doubleCapacity min fuel (capacity * 2) else capacity

end Bunix.Kernel
