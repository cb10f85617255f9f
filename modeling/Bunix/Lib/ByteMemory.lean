import Mathlib.Data.BitVec

/-! # Byte memory

Memory is a byte for each address. Words are stored in it little-endian, and the value of a word
depends on its own bytes only.
-/
namespace Bunix.Lib

open BitVec Nat

abbrev ByteMem := BitVec 64 → BitVec 8

namespace ByteMem

/-- The address is one of the `n` from `a` on. -/
def Within (a : BitVec 64) (n : Nat) (x : BitVec 64) : Prop := (x - a).toNat < n

instance (a : BitVec 64) (n : Nat) (x : BitVec 64) : Decidable (Within a n x) :=
  inferInstanceAs (Decidable ((x - a).toNat < n))

/-- The value of the `n` bytes from `a` on. -/
def load (m : ByteMem) : BitVec 64 → Nat → Nat
  | _, 0 => 0
  | a, n + 1 => (m a).toNat + 256 * load m (a + 1) n

def store (m : ByteMem) (a : BitVec 64) (n v : Nat) : ByteMem := fun x =>
  if Within a n x then BitVec.ofNat 8 (v / 256 ^ (x - a).toNat) else m x

def load32 (m : ByteMem) (a : BitVec 64) : BitVec 32 := BitVec.ofNat 32 (load m a 4)

def load64 (m : ByteMem) (a : BitVec 64) : BitVec 64 := BitVec.ofNat 64 (load m a 8)

def store32 (m : ByteMem) (a : BitVec 64) (v : BitVec 32) : ByteMem := store m a 4 v.toNat

def store64 (m : ByteMem) (a : BitVec 64) (v : BitVec 64) : ByteMem := store m a 8 v.toNat

variable {m m' : ByteMem} {a b x : BitVec 64} {n k v : Nat}

theorem within_iff (h : a.toNat + n ≤ 2 ^ 64) : Within a n x ↔ a.toNat ≤ x.toNat ∧ x.toNat < a.toNat + n := by
  unfold Within
  rw [toNat_sub]
  omega

theorem toNat_add_ofNat (h : a.toNat + n < 2 ^ 64) : (a + BitVec.ofNat 64 n).toNat = a.toNat + n := by
  rw [toNat_add, toNat_ofNat, mod_eq_of_lt (a := n) (by omega), mod_eq_of_lt h]

theorem within_add (hj : k < n) (hk : k < 2 ^ 64) : Within a n (a + BitVec.ofNat 64 k) := by
  unfold Within
  rw [add_sub_cancel_left, toNat_ofNat, mod_eq_of_lt hk]
  exact hj

theorem load_congr (h : ∀ x, Within a n x → m' x = m x) : load m' a n = load m a n := by
  induction n generalizing a with
  | zero => rfl
  | succ n ih =>
    have hhead : m' a = m a := h a (by simp [Within])
    have htail : load m' (a + 1) n = load m (a + 1) n := by
      refine ih fun x hx => h x ?_
      have hstep : x - a = x - (a + 1) + 1 := by
        rw [← sub_sub, sub_add_cancel]
      unfold Within at hx ⊢
      rw [hstep, toNat_add]
      have hone : (1 : BitVec 64).toNat = 1 := rfl
      omega
    unfold load
    rw [hhead, htail]

theorem store_of_not_within (h : ¬Within a n x) : store m a n v x = m x := if_neg h

theorem load_store_of_disjoint (h : ∀ x, Within a n x → ¬Within b k x) :
    load (store m b k v) a n = load m a n :=
  load_congr fun x hx => store_of_not_within (h x hx)

theorem load_store_from {j : Nat} (hj : j + n ≤ k) (hk : k ≤ 2 ^ 64) :
    load (store m a k v) (a + BitVec.ofNat 64 j) n = v / 256 ^ j % 256 ^ n := by
  induction n generalizing j with
  | zero => simp [load, mod_one]
  | succ n ih =>
    have hnext : a + BitVec.ofNat 64 j + 1 = a + BitVec.ofNat 64 (j + 1) := by
      rw [ofNat_add, add_assoc]
      rfl
    have hbyte : store m a k v (a + BitVec.ofNat 64 j) = BitVec.ofNat 8 (v / 256 ^ j) := by
      unfold store
      rw [if_pos (within_add (by omega) (by omega)), add_sub_cancel_left, BitVec.toNat_ofNat,
        mod_eq_of_lt (by omega)]
    unfold load
    have hdiv : v / 256 ^ (j + 1) = v / 256 ^ j / 256 := by
      rw [Nat.pow_succ, Nat.div_div_eq_div_mul]
    rw [hnext, ih (by omega), hbyte, BitVec.toNat_ofNat, Nat.pow_succ' (n := n), Nat.mod_mul, hdiv]

theorem load_store_self (hk : k ≤ 2 ^ 64) : load (store m a k v) a k = v % 256 ^ k := by
  have h := load_store_from (m := m) (a := a) (v := v) (le_of_eq (zero_add k)) hk
  simpa using h

@[simp] theorem load32_store32 (m : ByteMem) (a : BitVec 64) (v : BitVec 32) :
    (m.store32 a v).load32 a = v := by
  unfold load32 store32
  rw [load_store_self (by decide), mod_eq_of_lt (show v.toNat < 256 ^ 4 from v.isLt), ofNat_toNat,
    setWidth_eq]

@[simp] theorem load64_store64 (m : ByteMem) (a v : BitVec 64) : (m.store64 a v).load64 a = v := by
  unfold load64 store64
  rw [load_store_self (by decide), mod_eq_of_lt (show v.toNat < 256 ^ 8 from v.isLt), ofNat_toNat,
    setWidth_eq]

theorem load32_congr (h : ∀ x, Within a 4 x → m' x = m x) : m'.load32 a = m.load32 a := by
  unfold load32
  rw [load_congr h]

theorem load64_congr (h : ∀ x, Within a 8 x → m' x = m x) : m'.load64 a = m.load64 a := by
  unfold load64
  rw [load_congr h]

theorem load_store_ne (ha : a.toNat + n ≤ 2 ^ 64) (hb : b.toNat + k ≤ 2 ^ 64)
    (h : a.toNat + n ≤ b.toNat ∨ b.toNat + k ≤ a.toNat) : load (store m b k v) a n = load m a n := by
  refine load_store_of_disjoint fun x hx => ?_
  rw [within_iff ha] at hx
  rw [within_iff hb]
  omega

theorem load32_store32_ne {v : BitVec 32} (ha : a.toNat + 4 ≤ 2 ^ 64) (hb : b.toNat + 4 ≤ 2 ^ 64)
    (h : a.toNat + 4 ≤ b.toNat ∨ b.toNat + 4 ≤ a.toNat) : (m.store32 b v).load32 a = m.load32 a := by
  unfold load32 store32
  rw [load_store_ne ha hb h]

theorem load32_store64_ne {v : BitVec 64} (ha : a.toNat + 4 ≤ 2 ^ 64) (hb : b.toNat + 8 ≤ 2 ^ 64)
    (h : a.toNat + 4 ≤ b.toNat ∨ b.toNat + 8 ≤ a.toNat) : (m.store64 b v).load32 a = m.load32 a := by
  unfold load32 store64
  rw [load_store_ne ha hb h]

theorem load32_offset {i : Nat} (ha : a.toNat + n ≤ 2 ^ 64) (hi : i + 4 ≤ n)
    (h : ∀ x, Within a n x → m' x = m x) :
    m'.load32 (a + BitVec.ofNat 64 i) = m.load32 (a + BitVec.ofNat 64 i) := by
  refine load32_congr fun x hx => h x ?_
  have haddr := toNat_add_ofNat (a := a) (n := i) (by omega)
  rw [within_iff (by omega)] at hx
  rw [within_iff ha]
  omega

theorem load64_offset {i : Nat} (ha : a.toNat + n ≤ 2 ^ 64) (hi : i + 8 ≤ n)
    (h : ∀ x, Within a n x → m' x = m x) :
    m'.load64 (a + BitVec.ofNat 64 i) = m.load64 (a + BitVec.ofNat 64 i) := by
  refine load64_congr fun x hx => h x ?_
  have haddr := toNat_add_ofNat (a := a) (n := i) (by omega)
  rw [within_iff (by omega)] at hx
  rw [within_iff ha]
  omega

end ByteMem

end Bunix.Lib
