import Bunix.Lib.Alignment
import Bunix.Types
import Mathlib.Logic.Function.Basic

/-! # The heap of a task

`user/include/bunix/alloc.h`. A block is told by its header; `bunix_alloc` and the functions over it
answer with the address after the header, here with the block itself. What the blocks hold is left
out. `taskAlloc` says whether `bunix_task_alloc` gives the memory at an address.
-/
namespace Bunix.User

open Bunix.Lib Function BitVec

structure AllocBlock where
  addr : U64
  order : Nat
deriving DecidableEq

structure UserHeap where
  /-- `bunix_alloc_free`, by the order. -/
  free : Nat → List U64 := fun _ => []
  largeFree : List AllocBlock := []
  next : U64 := 0x10000000

namespace UserHeap

variable (taskAlloc : U64 → U64 → Bool) (h : UserHeap)

def minOrder : Nat := 6

def maxOrder : Nat := 20

def arenaSize : U64 := twoPow 64 maxOrder

/-- `sizeof(struct bunix_alloc_block)`. -/
def headerSize : U64 := 40

def allocAlign (value align : U64) : U64 := (value + align - 1) &&& ~~~(align - 1)

/-- The loop both searches for an order share, with the orders that are left above `order`. -/
def orderLoop (need : U64) : Nat → Nat → Nat
  | 0, order => if need ≤ twoPow 64 order then order else 0
  | left + 1, order => if twoPow 64 order < need then orderLoop need left (order + 1) else order

def allocOrderFor (size : U64) : Nat :=
  orderLoop (allocAlign (size + headerSize) 16) (maxOrder - minOrder) minOrder

def allocLargeOrderFor (size : U64) : Nat :=
  if -1 - headerSize < size then 0
  else
    let need := allocAlign (size + headerSize) 16
    if need < size then 0 else orderLoop need (63 - (maxOrder + 1)) (maxOrder + 1)

def allocListPush (addr : U64) (order : Nat) : UserHeap :=
  { h with free := update h.free order (addr :: h.free order) }

def allocAddArena : Option UserHeap :=
  if taskAlloc h.next arenaSize then
    some (allocListPush { h with next := h.next + arenaSize } h.next maxOrder)
  else none

def allocLarge (size : U64) : Option AllocBlock × UserHeap :=
  let order := allocLargeOrderFor size
  let blockSize := twoPow 64 order
  if order = 0 then (none, h)
  else
    match h.largeFree.find? (order ≤ ·.order) with
    | some block => (some block, { h with largeFree := h.largeFree.erase block })
    | none =>
      let base := allocAlign h.next blockSize
      if base ≤ -1 - blockSize ∧ taskAlloc base blockSize then
        (some ⟨base, order⟩, { h with next := base + blockSize })
      else (none, { h with next := base })

/-- The first block from the order `scan` on, with the orders that are left from there. -/
def scanFree : Nat → Nat → Option (AllocBlock × UserHeap)
  | 0, _ => none
  | left + 1, scan =>
    match h.free scan with
    | addr :: rest => some (⟨addr, scan⟩, { h with free := update h.free scan rest })
    | [] => scanFree left (scan + 1)

/-- The halves of a block that lie above the part of the order `order`, given back. -/
def split (addr : U64) (order : Nat) : Nat → UserHeap → UserHeap
  | 0, h => h
  | n + 1, h => split addr order n (h.allocListPush (addr + twoPow 64 (order + n)) (order + n))

/-- A free block. The loop over this ends in its second round, which finds the new arena. -/
def takeFree (order : Nat) : Option (AllocBlock × UserHeap) :=
  let left := maxOrder + 1 - order
  match h.scanFree left order with
  | some found => some found
  | none => (h.allocAddArena taskAlloc).bind (·.scanFree left order)

def alloc (size : U64) : Option AllocBlock × UserHeap :=
  let order := allocOrderFor size
  if order = 0 then h.allocLarge taskAlloc size
  else
    match h.takeFree taskAlloc order with
    | none => (none, h)
    | some (block, h) => (some ⟨block.addr, order⟩, split block.addr order (block.order - order) h)

/-- `free` is `bunix_free`. The bytes that are copied before are left out, and `old_size` with them. -/
def realloc (free : U64 → UserHeap → UserHeap) (ptr newSize : U64) : Option AllocBlock × UserHeap :=
  if ptr = 0 then h.alloc taskAlloc newSize
  else if newSize = 0 then (none, free ptr h)
  else
    match h.alloc taskAlloc newSize with
    | (none, h) => (none, h)
    | (some block, h) => (some block, free ptr h)

def calloc (count size : U64) : Option AllocBlock × UserHeap :=
  let total := count * size
  if size ≠ 0 ∧ total / size ≠ count then (none, h) else h.alloc taskAlloc total

/-! ## The order of a block -/

variable {taskAlloc h} {size need : U64} {left order : Nat}

theorem toNat_twoPow_of_lt (ho : order < 64) : (twoPow 64 order).toNat = 2 ^ order := by
  rw [toNat_twoPow, Nat.mod_eq_of_lt (Nat.pow_lt_pow_right (by decide) ho)]

theorem le_orderLoop (hlt : order + left < 64) (hne : orderLoop need left order ≠ 0) :
    need.toNat ≤ 2 ^ orderLoop need left order := by
  have hpow := toNat_twoPow_of_lt (show order < 64 by omega)
  induction left generalizing order with
  | zero =>
    unfold orderLoop at hne ⊢
    split at hne
    · rename_i hle
      rwa [if_pos hle, ← hpow]
    · exact absurd rfl hne
  | succ left ih =>
    unfold orderLoop at hne ⊢
    split at hne
    · rename_i hneed
      rw [if_pos hneed]
      exact ih (by omega) hne (toNat_twoPow_of_lt (by omega))
    · rename_i hneed
      rw [if_neg hneed, ← hpow]
      exact BitVec.not_lt.mp hneed

theorem orderLoop_le (need : U64) (left order : Nat) : orderLoop need left order ≤ order + left := by
  induction left generalizing order with
  | zero =>
    unfold orderLoop
    split <;> omega
  | succ left ih =>
    have hle := ih (order + 1)
    unfold orderLoop
    split <;> omega

theorem toNat_need (size : U64) :
    (allocAlign (size + headerSize) 16).toNat = (size.toNat + 55) % 2 ^ 64 / 16 * 16 := by
  have hadd : size + headerSize + 16 - 1 = size + 55 := by
    rw [headerSize]
    bv_omega
  rw [allocAlign, hadd, toNat_and_not_mask (k := 4) _ rfl, toNat_add]
  rfl

/-- A size that wraps is looked for among the smallest blocks. -/
theorem allocOrderFor_of_wrap (hwrap : 2 ^ 64 ≤ size.toNat + 55) : allocOrderFor size = minOrder := by
  have hneed := toNat_need size
  have hle : allocAlign (size + headerSize) 16 ≤ twoPow 64 minOrder := by
    rw [BitVec.le_def, hneed, toNat_twoPow_of_lt (by decide), minOrder]
    omega
  exact if_neg (BitVec.not_lt.mpr hle)

theorem isSome_scanFree {scan} (hfree : h.free maxOrder ≠ []) (hlast : scan + left = maxOrder) :
    (h.scanFree (left + 1) scan).isSome = true := by
  induction left generalizing scan with
  | zero =>
    unfold scanFree
    split
    · rfl
    · rename_i hs
      exact absurd (hlast ▸ hs) hfree
  | succ left ih =>
    unfold scanFree
    split
    · rfl
    · exact ih (by omega)

theorem isSome_scanFree_arena {h' : UserHeap} (harena : h.allocAddArena taskAlloc = some h') :
    (h'.scanFree (maxOrder + 1 - allocOrderFor size) (allocOrderFor size)).isSome = true := by
  have hle : allocOrderFor size ≤ maxOrder := orderLoop_le ..
  unfold allocAddArena at harena
  split at harena
  · cases harena
    rw [Nat.sub_add_comm hle]
    exact isSome_scanFree (by simp [allocListPush]) (by omega)
  · cases harena

/-! ## Blocks that are large enough -/

/-- A block that is handed out has `n` bytes after its header. -/
def Enough (n : Nat) (result : Option AllocBlock) : Prop :=
  ∀ block ∈ result, n + headerSize.toNat ≤ 2 ^ block.order

theorem enough_orderLoop (hfit : size.toNat + 55 < 2 ^ 64) (hlt : order + left < 64)
    (hne : orderLoop (allocAlign (size + headerSize) 16) left order ≠ 0) :
    size.toNat + headerSize.toNat ≤ 2 ^ orderLoop (allocAlign (size + headerSize) 16) left order := by
  refine le_trans ?_ (le_orderLoop hlt hne)
  rw [toNat_need, Nat.mod_eq_of_lt hfit]
  show size.toNat + 40 ≤ _
  omega

theorem enough_allocLarge (hfit : size.toNat + 55 < 2 ^ 64) :
    Enough size.toNat (h.allocLarge taskAlloc size).1 := by
  have horder : allocLargeOrderFor size ≠ 0 →
      size.toNat + headerSize.toNat ≤ 2 ^ allocLargeOrderFor size := by
    unfold allocLargeOrderFor
    dsimp only
    split_ifs
    · exact fun hne => absurd rfl hne
    · exact fun hne => absurd rfl hne
    · exact enough_orderLoop hfit (by decide)
  intro block hb
  simp only [allocLarge] at hb
  split at hb
  · cases hb
  rename_i hzero
  split at hb
  · rename_i hfind
    cases hb
    have hle : allocLargeOrderFor size ≤ block.order := by simpa using List.find?_some hfind
    exact (horder hzero).trans (Nat.pow_le_pow_right (by decide) hle)
  split at hb
  · cases hb
    exact horder hzero
  · cases hb

theorem enough_alloc (hfit : size.toNat + 55 < 2 ^ 64) :
    Enough size.toNat (h.alloc taskAlloc size).1 := by
  simp only [alloc]
  split
  · exact enough_allocLarge hfit
  rename_i hzero
  split
  · exact fun _ hb => by cases hb
  · intro block hb
    cases hb
    exact enough_orderLoop hfit (by decide) hzero

theorem alloc_of_wrap (hwrap : 2 ^ 64 ≤ size.toNat + 55) :
    (alloc (fun _ _ => true) {} size).1 = some ⟨0x10000000, minOrder⟩ := by
  simp only [alloc, allocOrderFor_of_wrap hwrap]
  rfl

theorem not_enough_of_wrap (hwrap : 2 ^ 64 ≤ size.toNat + 55) :
    ¬ Enough size.toNat (alloc (fun _ _ => true) {} size).1 := by
  rw [alloc_of_wrap hwrap]
  intro henough
  have hle : size.toNat + 40 ≤ 64 := henough _ rfl
  omega

theorem calloc_eq {count} (hfit : count.toNat * size.toNat < 2 ^ 64) :
    h.calloc taskAlloc count size = h.alloc taskAlloc (count * size) := by
  refine if_neg fun ⟨hsize, hne⟩ => hne (eq_of_toNat_eq ?_)
  rw [toNat_udiv, toNat_mul, Nat.mod_eq_of_lt hfit, Nat.mul_div_cancel _ (by bv_omega)]

theorem calloc_of_wrap {count} (hwrap : 2 ^ 64 ≤ count.toNat * size.toNat) :
    h.calloc taskAlloc count size = (none, h) := by
  refine if_pos ⟨fun hsize => ?_, fun hdiv => ?_⟩
  · simp [hsize] at hwrap
  · have hle := Nat.div_mul_le_self (count * size).toNat size.toNat
    rw [← toNat_udiv, hdiv] at hle
    omega

/-- **A block is large enough, exactly if its size does not wrap**, or the product of `bunix_calloc`
does. The search for a block ends: one is found once there is a new arena. -/
theorem allocations_enough_iff (count size : U64) :
    ((∀ taskAlloc h, Enough size.toNat (alloc taskAlloc h size).1) ↔ size.toNat + 55 < 2 ^ 64) ∧
    ((∀ taskAlloc h free ptr, Enough size.toNat (realloc taskAlloc h free ptr size).1) ↔
      size.toNat + 55 < 2 ^ 64) ∧
    ((∀ taskAlloc h, Enough (count.toNat * size.toNat) (calloc taskAlloc h count size).1) ↔
      count.toNat * size.toNat + 55 < 2 ^ 64 ∨ 2 ^ 64 ≤ count.toNat * size.toNat) ∧
    ∀ taskAlloc h h', allocAddArena taskAlloc h = some h' →
      (h'.scanFree (maxOrder + 1 - allocOrderFor size) (allocOrderFor size)).isSome = true := by
  refine ⟨⟨fun hall => ?_, fun hfit _ _ => enough_alloc hfit⟩, ⟨fun hall => ?_, ?_⟩, ?_,
    fun _ _ _ => isSome_scanFree_arena⟩
  · exact Nat.lt_of_not_le fun hwrap => not_enough_of_wrap hwrap (hall _ _)
  · exact Nat.lt_of_not_le fun hwrap => not_enough_of_wrap hwrap (hall _ _ (fun _ h => h) 0)
  · intro hfit taskAlloc h free ptr
    have halloc : Enough size.toNat (h.alloc taskAlloc size).1 := enough_alloc hfit
    unfold realloc
    split_ifs
    · exact halloc
    · simp [Enough]
    · split <;> rename_i heq <;> rwa [heq] at halloc
  · rcases Nat.lt_or_ge (count.toNat * size.toNat) (2 ^ 64) with hfit | hwrap
    · have htotal : (count * size).toNat = count.toNat * size.toNat := by
        rw [toNat_mul, Nat.mod_eq_of_lt hfit]
      simp only [calloc_eq hfit, ← htotal]
      refine ⟨fun hall => .inl ?_, fun h _ _ => enough_alloc (h.resolve_right (by omega))⟩
      exact Nat.lt_of_not_le fun hwrap => not_enough_of_wrap hwrap (hall _ _)
    · exact iff_of_true (by simp [calloc_of_wrap hwrap, Enough]) (.inr hwrap)

/-- For a size of 2^64 - 1 bytes, a block of 64 bytes is handed out. -/
theorem alloc_too_small : (alloc (fun _ _ => true) {} (-1)).1 = some ⟨0x10000000, 6⟩ ∧
    ¬ Enough (-1 : U64).toNat (alloc (fun _ _ => true) {} (-1)).1 :=
  ⟨alloc_of_wrap (by decide), not_enough_of_wrap (by decide)⟩

end UserHeap

end Bunix.User
