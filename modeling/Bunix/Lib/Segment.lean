import Mathlib.Data.List.Perm.Basic
import Mathlib.Order.MinMax

/-! # Lists of tagged segments as partial maps

A finite list of half-open segments over a linear order, each with a tag, denotes the
partial map that sends every point of a segment to its tag. The list is the
representation an implementation keeps in an array; the lemmas say how replacing one
segment by pieces of it changes the map, whatever order the array ends up in.
-/
namespace Bunix.Lib

open List

/-- A half-open segment `[lo, hi)` with a tag. -/
structure Segment (α β : Type*) where
  lo : α
  hi : α
  tag : β

namespace Segment

variable {α β γ : Type*} [LinearOrder α]
variable {s t : Segment α β} {u : Segment α γ} {l l' r : List (Segment α β)} {a : α}

def Has (s : Segment α β) (a : α) : Prop := s.lo ≤ a ∧ a < s.hi

instance (s : Segment α β) (a : α) : Decidable (s.Has a) := inferInstanceAs (Decidable (_ ∧ _))

/-- Two segments share a point, as the usual comparison of end points says it. -/
def Overlaps (s : Segment α β) (u : Segment α γ) : Prop := s.lo < u.hi ∧ u.lo < s.hi

theorem Overlaps.symm (h : s.Overlaps u) : u.Overlaps s := ⟨h.2, h.1⟩

theorem overlaps_of_has (hs : s.Has a) (hu : u.Has a) : s.Overlaps u :=
  ⟨hs.1.trans_lt hu.2, hu.1.trans_lt hs.2⟩

theorem overlaps_iff (hs : s.lo < s.hi) (hu : u.lo < u.hi) :
    s.Overlaps u ↔ ∃ a, s.Has a ∧ u.Has a := by
  constructor
  · intro h
    exact ⟨max s.lo u.lo, ⟨le_max_left _ _, max_lt hs h.2⟩, ⟨le_max_right _ _, max_lt h.1 hu⟩⟩
  · rintro ⟨a, hsa, hua⟩
    exact overlaps_of_has hsa hua

/-- Every segment is non-empty and no two share a point. -/
structure Separated (l : List (Segment α β)) : Prop where
  nonempty : ∀ s ∈ l, s.lo < s.hi
  apart : l.Pairwise fun s t => ¬ s.Overlaps t

theorem Separated.nil : Separated ([] : List (Segment α β)) := ⟨by simp, List.Pairwise.nil⟩

theorem Separated.perm (h : Separated l) (hp : l.Perm l') : Separated l' :=
  ⟨fun s hs => h.nonempty s (hp.mem_iff.mpr hs), h.apart.perm hp (fun hn ho => hn ho.symm)⟩

theorem Separated.subperm (h : Separated l) (hs : l'.Subperm l) : Separated l' := by
  obtain ⟨k, hk, hsub⟩ := hs
  have hk' : Separated k := ⟨fun s hm => h.nonempty s (hsub.subset hm), h.apart.sublist hsub⟩
  exact hk'.perm hk

theorem separated_append : Separated (l ++ r) ↔
    Separated l ∧ Separated r ∧ ∀ s ∈ l, ∀ t ∈ r, ¬ s.Overlaps t := by
  constructor
  · intro h
    obtain ⟨hl, hr, hx⟩ := pairwise_append.mp h.apart
    exact ⟨⟨fun s hs => h.nonempty s (by simp [hs]), hl⟩,
      ⟨fun s hs => h.nonempty s (by simp [hs]), hr⟩, hx⟩
  · rintro ⟨hl, hr, hx⟩
    refine ⟨fun s hs => ?_, pairwise_append.mpr ⟨hl.apart, hr.apart, hx⟩⟩
    rcases mem_append.mp hs with hs | hs
    · exact hl.nonempty s hs
    · exact hr.nonempty s hs

theorem separated_cons : Separated (s :: l) ↔ s.lo < s.hi ∧ Separated l ∧ ∀ t ∈ l, ¬ s.Overlaps t := by
  constructor
  · intro h
    obtain ⟨hx, hl⟩ := pairwise_cons.mp h.apart
    exact ⟨h.nonempty s (by simp), ⟨fun t ht => h.nonempty t (by simp [ht]), hl⟩, hx⟩
  · rintro ⟨hs, hl, hx⟩
    refine ⟨fun t ht => ?_, pairwise_cons.mpr ⟨hx, hl.apart⟩⟩
    rcases mem_cons.mp ht with rfl | ht
    · exact hs
    · exact hl.nonempty t ht

/-- The partial map a list of segments denotes. -/
def lookup (l : List (Segment α β)) (a : α) : Option β := (l.find? fun s => decide (s.Has a)).map tag

@[simp] theorem lookup_nil : lookup ([] : List (Segment α β)) a = none := rfl

theorem lookup_cons : lookup (s :: l) a = if s.Has a then some s.tag else lookup l a := by
  by_cases h : s.Has a <;> simp [lookup, h]

theorem lookup_append : lookup (l ++ r) a = (lookup l a).or (lookup r a) := by
  induction l with
  | nil => simp
  | cons s l ih =>
    by_cases h : s.Has a <;> simp [lookup_cons, h, ih]

theorem lookup_eq_none_iff : lookup l a = none ↔ ∀ s ∈ l, ¬ s.Has a := by
  simp [lookup]

theorem lookup_eq_some_iff (h : Separated l) {b : β} :
    lookup l a = some b ↔ ∃ s ∈ l, s.Has a ∧ s.tag = b := by
  induction l with
  | nil => simp
  | cons s l ih =>
    obtain ⟨_, hl, hx⟩ := separated_cons.mp h
    rw [lookup_cons]
    by_cases ha : s.Has a
    · -- the head is the only segment that can hold the point
      constructor
      · intro hb
        exact ⟨s, by simp, ha, by simpa [ha] using hb⟩
      · rintro ⟨t, ht, hta, rfl⟩
        rcases mem_cons.mp ht with rfl | ht
        · simp [ha]
        · exact absurd (overlaps_of_has ha hta) (hx t ht)
    · simp [ha, ih hl]

theorem lookup_perm (h : Separated l) (hp : l.Perm l') : lookup l a = lookup l' a := by
  apply Option.ext
  intro b
  rw [lookup_eq_some_iff h, lookup_eq_some_iff (h.perm hp)]
  simp [hp.mem_iff]

/-- The part of `s` a piece may cover. -/
def Within (p s : Segment α β) : Prop := s.lo ≤ p.lo ∧ p.hi ≤ s.hi

theorem Within.has {p : Segment α β} (h : p.Within s) (ha : p.Has a) : s.Has a :=
  ⟨h.1.trans ha.1, ha.2.trans_le h.2⟩

theorem Separated.replace {ps : List (Segment α β)} (h : Separated (s :: l))
    (hps : Separated ps) (hw : ∀ p ∈ ps, p.Within s) : Separated (ps ++ l) := by
  obtain ⟨_, hl, hx⟩ := separated_cons.mp h
  refine separated_append.mpr ⟨hps, hl, fun p hp t ht ho => ?_⟩
  refine hx t ht ⟨(hw p hp).1.trans_lt ho.1, ho.2.trans_le (hw p hp).2⟩

/-- The map after such a replacement: the pieces decide inside the segment, and nothing
changes outside. -/
theorem lookup_replace {ps : List (Segment α β)} (h : Separated (s :: l)) (hw : ∀ p ∈ ps, p.Within s) :
    lookup (ps ++ l) a = if s.Has a then lookup ps a else lookup (s :: l) a := by
  obtain ⟨_, _, hx⟩ := separated_cons.mp h
  rw [lookup_append]
  by_cases ha : s.Has a
  · have hl : lookup l a = none :=
      lookup_eq_none_iff.mpr fun t ht hta => hx t ht (overlaps_of_has ha hta)
    simp [ha, hl]
  · have hp : lookup ps a = none :=
      lookup_eq_none_iff.mpr fun p hp hpa => ha ((hw p hp).has hpa)
    simp [ha, hp, lookup_cons]

/-- `s'` is `s` widened by the range `u`, which touches it. -/
structure Widened (s s' : Segment α β) (u : Segment α γ) : Prop where
  lo_eq : s'.lo = min s.lo u.lo
  hi_eq : s'.hi = max s.hi u.hi
  tag_eq : s'.tag = s.tag
  lo_le : s.lo ≤ u.hi
  le_hi : u.lo ≤ s.hi

variable {s' : Segment α β}

theorem Widened.has_iff (h : Widened s s' u) :
    s'.Has a ↔ u.Has a ∨ s.Has a := by
  simp only [Has, h.lo_eq, h.hi_eq, min_le_iff, lt_max_iff]
  have h₁ := h.lo_le
  have h₂ := h.le_hi
  refine ⟨fun ⟨hlo, hhi⟩ => ?_, fun hor => ?_⟩
  · by_cases hlo' : s.lo ≤ a
    · by_cases hhi' : a < s.hi
      · exact Or.inr ⟨hlo', hhi'⟩
      · exact Or.inl ⟨h₂.trans (not_lt.mp hhi'), hhi.resolve_left hhi'⟩
    · exact Or.inl ⟨hlo.resolve_left hlo', (not_le.mp hlo').trans_le h₁⟩
  · rcases hor with ⟨hlo, hhi⟩ | ⟨hlo, hhi⟩
    · exact ⟨Or.inr hlo, Or.inr hhi⟩
    · exact ⟨Or.inl hlo, Or.inl hhi⟩

theorem Separated.widen (h : Separated (s :: l)) (hw : Widened s s' u)
    (ho : ∀ t ∈ l, ¬ s'.Overlaps t) : Separated (s' :: l) := by
  obtain ⟨hs, hl, _⟩ := separated_cons.mp h
  refine separated_cons.mpr ⟨?_, hl, ho⟩
  rw [hw.lo_eq, hw.hi_eq]
  exact (min_le_left _ _).trans_lt (hs.trans_le (le_max_left _ _))

theorem lookup_widen (hw : Widened s s' u) :
    lookup (s' :: l) a = if u.Has a then some s.tag else lookup (s :: l) a := by
  simp only [lookup_cons, hw.has_iff, hw.tag_eq]
  by_cases hua : u.Has a <;> simp [hua]

theorem lookup_of_widen (hw : Widened s s' u) (ho : ∀ t ∈ l, ¬ s'.Overlaps t)
    (ha : u.Has a) : lookup (s :: l) a = if s.Has a then some s.tag else none := by
  have hn : lookup l a = none := lookup_eq_none_iff.mpr fun t ht hta =>
    ho t ht (overlaps_of_has (hw.has_iff.mpr (Or.inl ha)) hta)
  rw [lookup_cons, hn]

end Segment

end Bunix.Lib
