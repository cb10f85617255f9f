import Mathlib.Data.List.Perm.Subperm

/-! # Reading a list by position while it changes

A reader takes one position after the other of a list that loses elements in the meantime. If what it
has passed stays, it reads each element that is left at the end exactly once.
-/
namespace Bunix.Lib.Cursor

open List

variable {α : Type*} {xs ys : List α} {n : Nat}

theorem take_eq_of_sublist (hnodup : xs.Nodup) (h : ys.Sublist xs) (hn : ∀ x ∈ xs.take n, x ∈ ys) :
    ys.take n = xs.take n := by
  have hsplit := take_append_drop n xs
  rw [← hsplit] at h
  obtain ⟨a, b, rfl, ha, hb⟩ := sublist_append_iff.mp h
  have hsub : xs.take n ⊆ a := by
    intro x hx
    rcases mem_append.mp (hn x hx) with hxa | hxb
    · exact hxa
    · rw [← hsplit] at hnodup
      exact absurd rfl ((nodup_append.mp hnodup).2.2 x hx x (hb.subset hxb))
  have hlen := (Nodup.subperm (hnodup.sublist (take_sublist n xs)) hsub).length_le
  obtain rfl := ha.eq_of_length_le hlen
  rcases Nat.le_total n xs.length with hle | hle
  · rw [take_left' (length_take_of_le hle)]
  · rw [drop_eq_nil_of_le hle, sublist_nil] at hb
    rw [hb, append_nil, take_take, Nat.min_self]

variable {L : Nat → List α} {m k : Nat}

theorem getElem?_passed (h : ∀ k < m, (L (k + 1)).take (k + 1) = (L k).take (k + 1)) (hk : k < m) :
    (L m)[k]? = (L k)[k]? := by
  induction m with
  | zero => cases hk
  | succ m ih =>
    have hm : (L (m + 1))[k]? = (L m)[k]? := by
      rw [← getElem?_take_of_lt hk, h m (Nat.lt_succ_self m), getElem?_take_of_lt hk]
    rcases Nat.lt_succ_iff_lt_or_eq.mp hk with hlt | rfl
    · rw [hm, ih (fun j hj => h j (Nat.lt_succ_of_lt hj)) hlt]
    · exact hm

theorem read_once (h : ∀ k < m, (L (k + 1)).take (k + 1) = (L k).take (k + 1)) (hnodup : (L m).Nodup)
    (hend : (L m).length ≤ m) {x : α} (hx : x ∈ L m) : ∃! k, k < m ∧ (L k)[k]? = some x := by
  obtain ⟨k, hk, rfl⟩ := getElem_of_mem hx
  have hkm := Nat.lt_of_lt_of_le hk hend
  refine ⟨k, ⟨hkm, ?_⟩, ?_⟩
  · rw [← getElem?_passed h hkm, getElem?_eq_getElem hk]
  · rintro j ⟨hj, hread⟩
    rw [← getElem?_passed h hj, ← getElem?_eq_getElem hk] at hread
    exact ((getElem?_inj hk hnodup).mp hread.symm).symm

end Bunix.Lib.Cursor
