import Mathlib.Data.List.Nodup

/-! # Association lists with different keys

A list of pairs as a finite map: `List.lookup` finds the value of a key, and a filter on the keys
takes a key out. What is counted among the values changes by the one that is taken out.
-/
namespace Bunix.Lib.AssocList

open List Prod

variable {κ ν : Type*} [DecidableEq κ] {l : List (κ × ν)} {k k' : κ} {v : ν}

def without (l : List (κ × ν)) (k : κ) : List (κ × ν) := l.filter fun e => e.1 != k

theorem mem_of_lookup (h : l.lookup k = some v) : (k, v) ∈ l := by
  induction l with
  | nil => cases h
  | cons e l ih =>
    rw [lookup_cons] at h
    split at h
    · rename_i hk
      cases h
      rw [beq_iff_eq.mp hk]
      exact mem_cons_self
    · exact mem_cons_of_mem _ (ih h)

theorem lookup_of_mem (hnodup : (l.map fst).Nodup) (h : (k, v) ∈ l) : l.lookup k = some v := by
  induction l with
  | nil => cases h
  | cons e l ih =>
    obtain ⟨a, b⟩ := e
    rw [map_cons, nodup_cons] at hnodup
    rcases mem_cons.mp h with he | h
    · cases he
      exact lookup_cons_self
    · have hne : k ≠ a := fun he => hnodup.1 (he ▸ mem_map.mpr ⟨(k, v), h, rfl⟩)
      rw [lookup_cons, beq_false_of_ne hne]
      exact ih hnodup.2 h

theorem lookup_cons_of_ne (h : k' ≠ k) : ((k, v) :: l).lookup k' = l.lookup k' := by
  rw [lookup_cons, beq_false_of_ne h]

theorem lookup_without (h : k' ≠ k) : (without l k).lookup k' = l.lookup k' := by
  induction l with
  | nil => rfl
  | cons e l ih =>
    obtain ⟨a, b⟩ := e
    unfold without at ih ⊢
    rw [filter_cons]
    by_cases ha : a = k
    · subst ha
      rw [if_neg (by simp), lookup_cons_of_ne h, ih]
    · rw [if_pos (by simpa using ha), lookup_cons, lookup_cons, ih]

theorem nodup_without (hnodup : (l.map fst).Nodup) : ((without l k).map fst).Nodup :=
  hnodup.sublist (filter_sublist.map _)

theorem nodup_cons (hnodup : (l.map fst).Nodup) (h : l.lookup k = none) :
    (((k, v) :: l).map fst).Nodup := by
  rw [List.map_cons, List.nodup_cons]
  refine ⟨fun hk => ?_, hnodup⟩
  obtain ⟨⟨a, b⟩, hmem, rfl⟩ := mem_map.mp hk
  rw [lookup_of_mem hnodup hmem] at h
  cases h

theorem without_of_not_mem (h : k ∉ l.map fst) : without l k = l := by
  refine filter_eq_self.mpr fun e he => ?_
  have : e.1 ≠ k := fun hk => h (hk ▸ mem_map.mpr ⟨e, he, rfl⟩)
  simpa using this

theorem countP_without (p : κ × ν → Bool) (hnodup : (l.map fst).Nodup) (h : l.lookup k = some v) :
    l.countP p = (without l k).countP p + if p (k, v) then 1 else 0 := by
  induction l with
  | nil => cases h
  | cons e l ih =>
    obtain ⟨a, b⟩ := e
    rw [List.map_cons, List.nodup_cons] at hnodup
    by_cases ha : a = k
    · subst ha
      rw [lookup_cons_self] at h
      cases h
      have hrest : without ((a, v) :: l) a = l := by
        have := without_of_not_mem hnodup.1
        unfold without at this ⊢
        rw [filter_cons_of_neg (by simp), this]
      rw [hrest, countP_cons]
    · rw [lookup_cons_of_ne (Ne.symm ha)] at h
      have hrest : without ((a, b) :: l) k = (a, b) :: without l k :=
        filter_cons_of_pos (by simpa using ha)
      rw [hrest, countP_cons, countP_cons, ih hnodup.2 h]
      omega

end Bunix.Lib.AssocList
