import Mathlib.Algebra.BigOperators.Group.List.Basic
import Mathlib.Algebra.GroupWithZero.Nat

/-! # Ones' complement sums of 16-bit words

RFC 1071. The sum of words is taken with end-around carry. Adding up first and folding the carries
afterwards gives the same sum, zero included: it has two representations, of which a sum is 0 only if
all its words are.
-/
namespace Bunix.Lib.OnesComplement

open List

/-- Two words are added; the carry goes back in. -/
def add (a b : Nat) : Nat := (a + b) % 2 ^ 16 + (a + b) / 2 ^ 16

/-- The ones' complement sum. -/
def sum (words : List Nat) : Nat := words.foldl add 0

/-- Carries are folded in until there are none. -/
def fold (n : Nat) : Nat :=
  if n / 2 ^ 16 = 0 then n else fold (n % 2 ^ 16 + n / 2 ^ 16)
termination_by n
decreasing_by omega

/-- The 16-bit big-endian words of a byte string; an odd last byte is padded with zero. -/
def beWords : List UInt8 → List Nat
  | [] => []
  | [a] => [a.toNat * 256]
  | a :: b :: rest => (a.toNat * 256 + b.toNat) :: beWords rest

variable {a n : Nat} {words : List Nat} {bytes : List UInt8}

theorem fold_eq (n : Nat) : fold n = if n = 0 then 0 else (n - 1) % 65535 + 1 := by
  induction n using fold.induct with
  | case1 n hsmall =>
    rw [fold, if_pos hsmall]
    split <;> omega
  | case2 n hlarge ih =>
    rw [fold, if_neg hlarge, ih]
    split_ifs <;> omega

theorem fold_le (n : Nat) : fold n ≤ 65535 := by
  rw [fold_eq]
  split <;> omega

theorem fold_of_le (h : n ≤ 65535) : fold n = n := by
  rw [fold, if_pos (by omega)]

/-- Carries may be folded in at any time. -/
theorem fold_add (a n : Nat) : fold (fold a + n) = fold (a + n) := by
  simp only [fold_eq]
  split_ifs <;> omega

/-- The complement of a sum completes it. -/
theorem fold_complement (n : Nat) : fold (n + (65535 - fold n)) = 65535 := by
  simp only [fold_eq]
  split_ifs <;> omega

theorem add_eq_fold (ha : a ≤ 65535) (hn : n ≤ 65535) : add a n = fold (a + n) := by
  rw [fold_eq, add]
  split <;> omega

theorem foldl_add (h : ∀ w ∈ words, w ≤ 65535) (ha : a ≤ 65535) :
    words.foldl add a = fold (a + words.sum) := by
  induction words generalizing a with
  | nil => exact (fold_of_le ha).symm
  | cons w words ih =>
    obtain ⟨hw, hrest⟩ := forall_mem_cons.mp h
    rw [foldl_cons, add_eq_fold ha hw, ih hrest (fold_le _), fold_add, sum_cons, Nat.add_assoc]

theorem beWords_le (bytes : List UInt8) : ∀ w ∈ beWords bytes, w ≤ 65535 := by
  induction bytes using beWords.induct with
  | case1 => exact nofun
  | case2 a =>
    have ha := a.toNat_lt
    simp only [beWords, mem_singleton, forall_eq]
    omega
  | case3 a b rest ih =>
    have ha := a.toNat_lt
    have hb := b.toNat_lt
    simp only [beWords, forall_mem_cons]
    exact ⟨by omega, ih⟩

/-- The sum of two byte strings, each with words of its own. -/
theorem sum_beWords (first second : List UInt8) :
    sum (beWords first ++ beWords second) = fold ((beWords first).sum + (beWords second).sum) := by
  have hle : ∀ w ∈ beWords first ++ beWords second, w ≤ 65535 := fun w hw =>
    (mem_append.mp hw).elim (beWords_le first w) (beWords_le second w)
  rw [sum, foldl_add hle (Nat.zero_le _), sum_append, Nat.zero_add]

end Bunix.Lib.OnesComplement
