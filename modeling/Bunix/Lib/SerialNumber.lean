import Mathlib.Data.Nat.ModEq
import Mathlib.Data.List.Range

/-! # Serial numbers and slices of a stream

A position of an unbounded stream is named by a counter of `w` bits that starts at `base`. The
difference of two counters is the distance of the positions as long as they are less than a full
turn apart. A slice is what stands at a run of positions.
-/
namespace Bunix.Lib

open BitVec

namespace Serial

variable {w : Nat} {base : BitVec w} {a b n : Nat}

/-- The counter for a position. -/
def mark (base : BitVec w) (p : Nat) : BitVec w := base + BitVec.ofNat w p

theorem mark_zero : mark base 0 = base := by
  exact BitVec.add_zero base

theorem mark_add : mark base a + BitVec.ofNat w n = mark base (a + n) := by
  rw [mark, mark, BitVec.ofNat_add, BitVec.add_assoc]

theorem mark_sub : mark base b - mark base a = BitVec.ofNat w b - BitVec.ofNat w a := by
  rw [mark, mark]
  simp only [BitVec.sub_eq_add_neg, BitVec.neg_add]
  rw [BitVec.add_comm base, BitVec.add_assoc, ← BitVec.add_assoc base, ← BitVec.sub_eq_add_neg base,
    BitVec.sub_self, BitVec.zero_add]

theorem toNat_mark_sub (base : BitVec w) (h : a ≤ b) (hlt : b < a + 2 ^ w) :
    (mark base b - mark base a).toNat = b - a := by
  obtain ⟨d, rfl⟩ := Nat.exists_eq_add_of_le h
  rw [mark_sub, BitVec.ofNat_add, BitVec.add_comm, BitVec.add_sub_cancel, BitVec.toNat_ofNat,
    Nat.mod_eq_of_lt (by omega)]
  omega

theorem toNat_mark_sub_of_lt (base : BitVec w) (h : b < a) (hlt : a < b + 2 ^ w) :
    (mark base b - mark base a).toNat = 2 ^ w - (a - b) := by
  have hback := toNat_mark_sub base (Nat.le_of_lt h) hlt
  have hneg : mark base b - mark base a = -(mark base a - mark base b) := by
    rw [sub_eq_add_neg, sub_eq_add_neg, neg_add, sub_eq_add_neg,
      BitVec.neg_neg, BitVec.add_comm]
  rw [hneg, toNat_neg, hback, Nat.mod_eq_of_lt (by omega)]

theorem mark_inj (base : BitVec w) (hab : a < b + 2 ^ w) (hba : b < a + 2 ^ w) : mark base a = mark base b ↔ a = b := by
  constructor
  · intro he
    wlog hle : a ≤ b
    · exact (this base hba hab he.symm (Nat.le_of_not_le hle)).symm
    have := toNat_mark_sub base hle hba
    rw [he, BitVec.sub_self] at this
    simp at this
    omega
  · rintro rfl
    rfl

end Serial

variable {α : Type*} {f : Nat → α} {p m n : Nat}

/-- What stands at `n` positions from `p` on. -/
def slice (f : Nat → α) (p n : Nat) : List α := (List.range' p n).map f

@[simp] theorem length_slice : (slice f p n).length = n := by simp [slice]

theorem slice_append : slice f p m ++ slice f (p + m) n = slice f p (m + n) := by
  rw [slice, slice, slice, ← List.map_append]
  congr 1
  exact List.range'_append_1

theorem drop_slice : (slice f p n).drop m = slice f (p + m) (n - m) := by
  rw [slice, slice, ← List.map_drop, List.drop_range', Nat.mul_one]

end Bunix.Lib
