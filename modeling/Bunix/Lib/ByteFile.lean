import Mathlib.Data.List.Basic

/-! # A file as a sequence

What a file is to those who read and write it: a sequence that a write at any offset replaces a part
of, and that grows by a filler where it has to.
-/
namespace Bunix.Lib.ByteFile

open List

variable {α : Type*}

/-- The sequence with fillers up to the length `k`. -/
def pad (z : α) (c : List α) (k : Nat) : List α := c ++ replicate (k - c.length) z

/-- `[off, off + bytes.length)` is replaced, after fillers up to there. -/
def write (z : α) (c : List α) (off : Nat) (bytes : List α) : List α :=
  (pad z c off).take off ++ bytes ++ c.drop (off + bytes.length)

/-- Cut to the length `k`, or extended to it by fillers. -/
def truncate (z : α) (c : List α) (k : Nat) : List α := (pad z c k).take k

def read (c : List α) (off len : Nat) : List α := (c.drop off).take len

variable {z : α} {old : List α} {k j off : Nat} {bytes : List α}

theorem length_pad : (pad z old k).length = max old.length k := by
  simp only [pad, length_append, length_replicate]
  omega

theorem pad_getElem? : (pad z old k)[j]? = if j < old.length then old[j]? else if j < k then some z else none := by
  unfold pad
  split
  · rename_i h
    exact getElem?_append_left h
  · rw [getElem?_append_right (by omega), getElem?_replicate]
    simp only [show j - old.length < k - old.length ↔ j < k by omega]

theorem length_truncate : (truncate z old k).length = k := by
  rw [truncate, length_take, length_pad]
  omega

theorem truncate_getElem? : (truncate z old k)[j]? =
    if k ≤ j then none else if j < old.length then old[j]? else some z := by
  unfold truncate
  rw [getElem?_take]
  by_cases hj : j < k
  · rw [if_pos hj, if_neg (by omega), pad_getElem?]
    simp only [hj, if_true]
  · rw [if_neg hj, if_pos (by omega)]

theorem length_take_pad : ((pad z old off).take off).length = off := by
  rw [length_take, length_pad]
  omega

theorem write_getElem? : (write z old off bytes)[j]? =
    if off ≤ j ∧ j < off + bytes.length then bytes[j - off]?
    else if j < old.length then old[j]? else if j < off then some z else none := by
  unfold write
  by_cases hlow : j < off
  · rw [if_neg (by omega), append_assoc, getElem?_append_left (by rw [length_take_pad]; omega),
      getElem?_take_of_lt hlow, pad_getElem?]
  by_cases hin : j < off + bytes.length
  · rw [if_pos ⟨by omega, hin⟩, append_assoc,
      getElem?_append_right (by rw [length_take_pad]; omega), length_take_pad,
      getElem?_append_left (by omega)]
  · rw [if_neg (by omega), getElem?_append_right
      (by rw [length_append, length_take_pad]; omega), length_append, length_take_pad,
      getElem?_drop, show off + bytes.length + (j - (off + bytes.length)) = j by omega, if_neg hlow]
    split
    · rfl
    · exact getElem?_eq_none (by omega)

end Bunix.Lib.ByteFile
