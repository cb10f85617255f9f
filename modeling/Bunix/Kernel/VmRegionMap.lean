import Bunix.Kernel.VmRegion

/-! # The region array as an address map

What the region array is for: a partial map from addresses to protection, kind, flags and
backing object. Every successful call updates that map pointwise, and the array keeps its
regions non-empty, unwrapped and disjoint, so the map is well defined.
-/
namespace Bunix.Kernel

open Bunix.Lib Bunix.Lib.Segment VmRegion List

variable {l l' : List VmRegion} {m : VmMapping} {p : VmRegion} {P : VmRegion → Prop}

structure VmMeta where
  prot : U32
  kind : VmRegionKind
  flags : U32
  objectType : VmObjectType
  objectId : U32
deriving DecidableEq, Repr

def VmRegion.info (r : VmRegion) : VmMeta := ⟨r.prot, r.kind, r.flags, r.objectType, r.objectId⟩

def VmMapping.info (m : VmMapping) : VmMeta := ⟨m.prot, m.kind, m.mapFlags, m.objectType, m.objectId⟩

/-- A region as a segment. Its upper end is the wrapped one the source computes, so a
region is a non-empty segment exactly when it is non-empty and does not wrap. -/
def VmRegion.seg (r : VmRegion) : Segment Nat VmMeta := ⟨r.base.toNat, r.regionEnd.toNat, r.info⟩

def segs (l : List VmRegion) : List (Segment Nat VmMeta) := l.map seg

/-- The range `[base, base + len)` a call is about. -/
def addrRange (base len : U64) : Segment Nat Unit := ⟨base.toNat, (base + len).toNat, ()⟩

def VmRegions.map (s : VmRegions) (a : U64) : Option VmMeta := lookup (segs s.regions) a.toNat

/-- The record's two ways to say "writable" agree. -/
def VmRegion.Coherent (r : VmRegion) : Prop := r.writable = (r.prot &&& vmProtWrite != 0)

structure VmRegions.WellFormed (s : VmRegions) : Prop where
  separated : Separated (segs s.regions)
  coherent : ∀ r ∈ s.regions, r.Coherent

@[simp] theorem segs_nil : segs [] = [] := rfl
@[simp] theorem segs_cons (r : VmRegion) (l : List VmRegion) : segs (r :: l) = r.seg :: segs l := rfl
@[simp] theorem segs_append (l l' : List VmRegion) : segs (l ++ l') = segs l ++ segs l' := map_append

theorem segs_perm (h : l.Perm l') : (segs l).Perm (segs l') := h.map _

theorem mem_segs :
    x ∈ segs l ↔ ∃ r ∈ l, r.seg = x := mem_map

theorem regionsOverlap_iff {aBase aLen bBase bLen : U64} :
    regionsOverlap aBase aLen bBase bLen = true ↔
      (addrRange aBase aLen).Overlaps (addrRange bBase bLen) := by
  simp [regionsOverlap, Overlaps, addrRange, BitVec.lt_def]

theorem overlaps_seg {r : VmRegion} {base len : U64} :
    (addrRange base len).Overlaps (addrRange r.base r.len) ↔ (addrRange base len).Overlaps r.seg := Iff.rfl

theorem taskVmRangeOverlapsOther_iff {base len : U64} :
    taskVmRangeOverlapsOther l base len = true ↔ ∃ x ∈ segs l, (addrRange base len).Overlaps x := by
  simp only [taskVmRangeOverlapsOther, any_eq_true, regionsOverlap_iff, overlaps_seg, mem_segs]
  constructor
  · rintro ⟨r, hr, h⟩
    exact ⟨_, ⟨r, hr, rfl⟩, h⟩
  · rintro ⟨_, ⟨r, hr, rfl⟩, h⟩
    exact ⟨r, hr, h⟩

theorem vmRangeInvalid_eq_false {base len : U64} :
    vmRangeInvalid base len = false ↔ (addrRange base len).lo < (addrRange base len).hi := by
  simp only [vmRangeInvalid, addrRange, Bool.or_eq_false_iff, beq_eq_false_iff_ne,
    decide_eq_false_iff_not, ne_eq]
  constructor
  · rintro ⟨h₁, h₂⟩; bv_omega
  · intro h; constructor <;> bv_omega

/-! ## Adding -/

theorem vmRegionMetadataMatches_iff :
    vmRegionMetadataMatches r m = true ↔ r.info = m.info := by
  simp [vmRegionMetadataMatches, info, VmMapping.info]
  tauto

/-- What a merge into an existing entry does: one entry of the array is widened by the
new range, which meets no other entry. -/
def Merged (m : VmMapping) (l l' : List VmRegion) : Prop :=
  ∃ pre r r' post, l = pre ++ r :: post ∧ l' = pre ++ r' :: post ∧
    r.info = m.info ∧ r'.writable = r.writable ∧ Widened r.seg r'.seg (addrRange m.base m.len) ∧
    ∀ t ∈ segs (pre ++ post), ¬ r'.seg.Overlaps t

theorem not_overlapsOther {r : VmRegion} (h : taskVmRangeOverlapsOther l r.base r.len = false) :
    ∀ t ∈ segs l, ¬ r.seg.Overlaps t := by
  intro t ht ho
  have : taskVmRangeOverlapsOther l r.base r.len = true := taskVmRangeOverlapsOther_iff.mpr ⟨t, ht, ho⟩
  rw [h] at this
  cases this

theorem separated_middle {pre post r}
    (h : Separated (segs (pre ++ r :: post))) : Separated (r.seg :: segs (pre ++ post)) :=
  h.perm (segs_perm perm_middle)

theorem appendLoop_merged {visited rest} (hm : vmRangeInvalid m.base m.len = false)
    (hs : Separated (segs (visited ++ rest))) (h : appendLoop m visited rest = some l') :
    Merged m (visited ++ rest) l' ∧
      ∀ a, (addrRange m.base m.len).Has a → lookup (segs (visited ++ rest)) a = none := by
  induction rest generalizing visited with
  | nil => cases h
  | cons r rest ih =>
    simp only [appendLoop] at h
    split at h
    · rename_i hc
      simp only [Bool.and_eq_true, Bool.not_eq_true', beq_iff_eq, decide_eq_true_eq,
        vmRegionMetadataMatches_iff] at hc
      obtain ⟨⟨⟨⟨hinfo, _⟩, hend⟩, _⟩, hother⟩ := hc
      have hsep := separated_middle hs
      have hr : r.base.toNat < r.regionEnd.toNat := (separated_cons.mp hsep).1
      have hm' := vmRangeInvalid_eq_false.mp hm
      have hsum : r.base + (r.len + m.len) = m.base + m.len := by
        rw [← hend, regionEnd]; ac_rfl
      have hother' := not_overlapsOther (r := { r with len := r.len + m.len }) hother
      have hw : Widened r.seg (seg { r with len := r.len + m.len })
          (addrRange m.base m.len) := by
        have hend' := congrArg BitVec.toNat hend
        refine ⟨?_, ?_, rfl, ?_, ?_⟩ <;>
          simp only [seg, addrRange, regionEnd, hsum] at * <;> omega
      refine ⟨⟨visited, r, _, rest, rfl, (Option.some.inj h).symm, hinfo, rfl, hw, hother'⟩, ?_⟩
      intro a ha
      rw [lookup_perm hs (segs_perm perm_middle), segs_cons, lookup_of_widen hw hother' ha, if_neg]
      -- the new range starts where the widened entry ended
      intro hra
      have hlt : a < r.regionEnd.toNat := hra.2
      have hle : m.base.toNat ≤ a := ha.1
      rw [hend] at hlt
      omega
    · have hs' : Separated (segs ((visited ++ [r]) ++ rest)) := by simpa using hs
      simpa using ih hs' h

theorem extendLoop_merged {visited rest}
    (h : extendLoop m visited rest = some l') : Merged m (visited ++ rest) l' := by
  induction rest generalizing visited with
  | nil => cases h
  | cons r rest ih =>
    have hskip : extendLoop m (visited ++ [r]) rest = some l' → Merged m (visited ++ r :: rest) l' :=
      fun h => by simpa using ih h
    simp only [extendLoop] at h
    split at h
    · rename_i hc
      simp only [Bool.and_eq_true, decide_eq_true_eq, vmRegionMetadataMatches_iff] at hc
      obtain ⟨⟨⟨hinfo, _⟩, hlo⟩, hhi⟩ := hc
      split at h
      · exact hskip h
      rename_i hno
      simp only [Bool.or_eq_true, decide_eq_true_eq, not_or, Bool.not_eq_true] at hno
      refine ⟨visited, r, _, rest, rfl, (Option.some.inj h).symm, hinfo, rfl, ?_,
        not_overlapsOther hno.2⟩
      refine ⟨?_, ?_, rfl, hlo, hhi⟩
      · simp only [seg, addrRange, toNat_minU64, Nat.min_comm]
      · simp only [seg, addrRange, regionEnd, add_sub_cancel, toNat_maxU64, Nat.max_comm]
    · exact hskip h

/-- The abstract update of an addition. -/
def defineRange (base len : U64) (i : VmMeta) (f : U64 → Option VmMeta) : U64 → Option VmMeta :=
  fun a => if (addrRange base len).Has a.toNat then some i else f a

/-- **A merge sets the map on the new range** and keeps the array well formed. -/
theorem Merged.wellFormed {s : VmRegions} (capacity : Nat)
    (hs : s.WellFormed) (h : Merged m s.regions l') :
    (⟨l', capacity⟩ : VmRegions).WellFormed := by
  obtain ⟨pre, r, r', post, hl, rfl, hinfo, hwr, hw, ho⟩ := h
  have hsep := separated_middle (hl ▸ hs.separated)
  refine ⟨(hsep.widen hw ho).perm (segs_perm perm_middle.symm), fun x hx => ?_⟩
  have hprot : r'.prot = r.prot := congrArg VmMeta.prot hw.tag_eq
  rcases mem_append.mp hx with hx | hx
  · exact hs.coherent x (by simp [hl, hx])
  rcases mem_cons.mp hx with rfl | hx
  · have hr := hs.coherent r (by simp [hl])
    rw [Coherent, hwr, hr, hprot]
  · exact hs.coherent x (by simp [hl, hx])

theorem Merged.map_eq {s : VmRegions} {capacity : Nat} (hs : s.WellFormed) (h : Merged m s.regions l') :
    (⟨l', capacity⟩ : VmRegions).map = defineRange m.base m.len m.info s.map := by
  have hwf := Merged.wellFormed capacity hs h
  obtain ⟨pre, r, r', post, hl, rfl, hinfo, hwr, hw, ho⟩ := h
  funext a
  have htag : r.seg.tag = m.info := hinfo
  simp only [VmRegions.map, defineRange, hl, lookup_perm hwf.separated (segs_perm perm_middle),
    lookup_perm (hl ▸ hs.separated) (segs_perm perm_middle), segs_cons, lookup_widen hw, htag]

theorem Merged.map_before {s : VmRegions} (hs : s.WellFormed) (h : Merged m s.regions l') (a : U64)
    (ha : (addrRange m.base m.len).Has a.toNat) : s.map a = none ∨ s.map a = some m.info := by
  obtain ⟨pre, r, r', post, hl, rfl, hinfo, hwr, hw, ho⟩ := h
  have htag : r.seg.tag = m.info := hinfo
  simp only [VmRegions.map, hl, lookup_perm (hl ▸ hs.separated) (segs_perm perm_middle),
    segs_cons, lookup_of_widen hw ho ha, htag]
  by_cases hra : r.seg.Has a.toNat <;> simp [hra]

/-- What every successful addition does to the map: the range was free or held the same
metadata before, and holds the new metadata after; nothing else changes. -/
structure Added (m : VmMapping) (s s' : VmRegions) : Prop where
  valid : vmRangeInvalid m.base m.len = false
  wellFormed : s'.WellFormed
  map_eq : s'.map = defineRange m.base m.len m.info s.map
  before : ∀ a : U64, (addrRange m.base m.len).Has a.toNat → s.map a = none ∨ s.map a = some m.info

theorem overlapsOther_eq_false_iff {s : VmRegions} (hs : s.WellFormed) {base len : U64}
    (hv : vmRangeInvalid base len = false) :
    taskVmRangeOverlapsOther s.regions base len = false ↔
      ∀ a : U64, (addrRange base len).Has a.toNat → s.map a = none := by
  rw [← Bool.not_eq_true, taskVmRangeOverlapsOther_iff]
  have hr := vmRangeInvalid_eq_false.mp hv
  refine ⟨fun h a ha => ?_, fun h ⟨x, hx, ho⟩ => ?_⟩
  · exact lookup_eq_none_iff.mpr fun x hx hxa => h ⟨x, hx, overlaps_of_has ha hxa⟩
  · -- the common point of two segments of addresses is an address
    obtain ⟨a, ha, hxa⟩ := (overlaps_iff hr (hs.separated.nonempty x hx)).mp ho
    have hlt : a < 2 ^ 64 := ha.2.trans (base + len).isLt
    have hto : (BitVec.ofNat 64 a).toNat = a := by simpa using Nat.mod_eq_of_lt hlt
    have hnone := h (BitVec.ofNat 64 a) (by rwa [hto])
    rw [VmRegions.map, hto] at hnone
    exact lookup_eq_none_iff.mp hnone x hx hxa

theorem appended_wellFormed {s : VmRegions} (hs : s.WellFormed) (capacity : Nat)
    (hv : vmRangeInvalid m.base m.len = false)
    (ho : taskVmRangeOverlapsOther s.regions m.base m.len = false) :
    (⟨s.regions ++ [m.region], capacity⟩ : VmRegions).WellFormed := by
  have hr := vmRangeInvalid_eq_false.mp hv
  have ho' := not_overlapsOther (r := m.region) ho
  refine ⟨?_, fun x hx => ?_⟩
  · have hsep : Separated (segs (m.region :: s.regions)) :=
      separated_cons.mpr ⟨hr, hs.separated, ho'⟩
    exact hsep.perm (segs_perm (perm_append_singleton _ _).symm)
  · rcases mem_append.mp hx with hx | hx
    · exact hs.coherent x hx
    · rw [mem_singleton.mp hx]
      rfl

theorem appended_map {s : VmRegions} {capacity : Nat}
    (hwf : (⟨s.regions ++ [m.region], capacity⟩ : VmRegions).WellFormed) :
    (⟨s.regions ++ [m.region], capacity⟩ : VmRegions).map = defineRange m.base m.len m.info s.map := by
  funext a
  rw [VmRegions.map, lookup_perm hwf.separated (segs_perm (perm_append_singleton _ _)),
    segs_cons, Segment.lookup_cons, defineRange]
  rfl

theorem taskAddVmMapping_free {slab} (hs : s.WellFormed) (h : taskAddVmMapping slab s m = (true, s')) :
    Added m s s' ∧ ∀ a : U64, (addrRange m.base m.len).Has a.toNat → s.map a = none := by
  unfold taskAddVmMapping at h
  split at h
  · cases h
  rename_i hv
  have hv := Bool.eq_false_iff.mpr hv
  cases ha : appendLoop m [] s.regions with
  | some l' =>
    rw [ha] at h
    cases h
    have hs' : Separated (segs ([] ++ s.regions)) := hs.separated
    obtain ⟨hm, hfree⟩ := appendLoop_merged hv hs' ha
    have hfree' : ∀ a : U64, (addrRange m.base m.len).Has a.toNat → s.map a = none :=
      fun a hr => hfree a.toNat hr
    exact ⟨⟨hv, Merged.wellFormed _ hs hm, Merged.map_eq hs hm, fun a hr => .inl (hfree' a hr)⟩, hfree'⟩
  | none =>
    simp only [ha] at h
    split at h
    · cases h
    rename_i ho
    have ho := Bool.eq_false_iff.mpr ho
    have hfree := (overlapsOther_eq_false_iff hs hv).mp ho
    split at h
    · cases h
    rename_i capacity _
    cases h
    have hwf := appended_wellFormed hs capacity hv ho
    exact ⟨⟨hv, hwf, appended_map hwf, fun a hr => .inl (hfree a hr)⟩, hfree⟩

theorem taskAddOrExtendVmMapping_added {slab}
    (hs : s.WellFormed) (h : taskAddOrExtendVmMapping slab s m = (true, s')) : Added m s s' := by
  unfold taskAddOrExtendVmMapping at h
  split at h
  · cases h
  rename_i hv
  have hv := Bool.eq_false_iff.mpr hv
  cases hx : extendLoop m [] s.regions with
  | some l' =>
    rw [hx] at h
    cases h
    have hm : Merged m s.regions l' := extendLoop_merged hx
    exact ⟨hv, Merged.wellFormed _ hs hm, Merged.map_eq hs hm, Merged.map_before hs hm⟩
  | none =>
    rw [hx] at h
    exact (taskAddVmMapping_free hs h).1

/-! ## Cutting an entry along the range -/

section Cut

variable (base len : U64) (r : VmRegion)

/-- The pieces of an entry that lie outside the range. -/
def outsideOf : List VmRegion :=
  (if maxU64 base r.base = r.base then [] else [leftOf base r]) ++
    (if minU64 (base + len) r.regionEnd = r.regionEnd then [] else [rightOf base len r])

theorem seg_leftOf : (leftOf base r).seg = ⟨r.base.toNat, max base.toNat r.base.toNat, r.info⟩ := by
  simp [leftOf, seg, regionEnd, info]

theorem seg_rightOf : (rightOf base len r).seg =
    ⟨min (base + len).toNat r.regionEnd.toNat, r.regionEnd.toNat, r.info⟩ := by
  simp [rightOf, seg, regionEnd, info]

theorem seg_insideOf : (insideOf base len r).seg =
    ⟨max base.toNat r.base.toNat, min (base + len).toNat r.regionEnd.toNat, r.info⟩ := by
  simp [insideOf, seg, regionEnd, info]

theorem maxU64_eq_right_iff : maxU64 a b = b ↔ ¬ b.toNat < a.toNat := by
  rw [← BitVec.toNat_inj, toNat_maxU64]
  omega

theorem minU64_eq_right_iff : minU64 a b = b ↔ ¬ a.toNat < b.toNat := by
  rw [← BitVec.toNat_inj, toNat_minU64]
  omega

variable {base len r}

theorem mem_outsideOf : p ∈ outsideOf base len r ↔ (r.base.toNat < base.toNat ∧ p = leftOf base r) ∨
      ((base + len).toNat < r.regionEnd.toNat ∧ p = rightOf base len r) := by
  simp only [outsideOf, maxU64_eq_right_iff, minU64_eq_right_iff]
  generalize base + len = e
  by_cases h₁ : r.base.toNat < base.toNat <;> by_cases h₂ : e.toNat < r.regionEnd.toNat <;>
    simp [h₁, h₂]

theorem outsideOf_same (hp : p ∈ outsideOf base len r) :
    p.writable = r.writable ∧ p.prot = r.prot ∧ p.info = r.info := by
  rcases mem_outsideOf.mp hp with ⟨_, rfl⟩ | ⟨_, rfl⟩ <;> exact ⟨rfl, rfl, rfl⟩

theorem outsideOf_clear (hp : p ∈ outsideOf base len r) :
    ¬ (addrRange base len).Overlaps p.seg := by
  rcases mem_outsideOf.mp hp with ⟨h, rfl⟩ | ⟨h, rfl⟩
  · rw [seg_leftOf]
    simp only [Overlaps, addrRange]
    omega
  · rw [seg_rightOf]
    simp only [Overlaps, addrRange]
    omega

theorem outsideOf_within (hov : (addrRange base len).Overlaps r.seg)
    (hp : p ∈ outsideOf base len r) : p.seg.Within r.seg := by
  obtain ⟨h₁, h₂⟩ : base.toNat < r.regionEnd.toNat ∧ r.base.toNat < (base + len).toNat := hov
  rcases mem_outsideOf.mp hp with ⟨h, rfl⟩ | ⟨h, rfl⟩
  · rw [seg_leftOf]
    simp only [Within, seg]
    omega
  · rw [seg_rightOf]
    simp only [Within, seg]
    omega

section Meets

variable (hv : base.toNat < (base + len).toNat) (hr : r.base.toNat < r.regionEnd.toNat)
  (hov : (addrRange base len).Overlaps r.seg)
include hv hr hov

theorem outsideOf_separated : Separated (segs (outsideOf base len r)) := by
  obtain ⟨h₁, h₂⟩ : base.toNat < r.regionEnd.toNat ∧ r.base.toNat < (base + len).toNat := hov
  refine ⟨fun x hx => ?_, ?_⟩
  · obtain ⟨p, hp, rfl⟩ := mem_segs.mp hx
    rcases mem_outsideOf.mp hp with ⟨h, rfl⟩ | ⟨h, rfl⟩
    · rw [seg_leftOf]
      simp only
      omega
    · rw [seg_rightOf]
      simp only
      omega
  · have hx : ¬ (leftOf base r).seg.Overlaps (rightOf base len r).seg := by
      rw [seg_leftOf, seg_rightOf]
      simp only [Overlaps]
      omega
    unfold outsideOf
    split <;> split <;> simp [hx]

theorem lookup_outsideOf (ha : r.seg.Has a) (hn : ¬ (addrRange base len).Has a) :
    lookup (segs (outsideOf base len r)) a = some r.info := by
  rw [lookup_eq_some_iff (outsideOf_separated hv hr hov)]
  simp only [Has, addrRange, seg] at ha hn
  by_cases hlt : a < base.toNat
  · refine ⟨_, mem_segs.mpr ⟨_, mem_outsideOf.mpr (.inl ⟨by omega, rfl⟩), rfl⟩, ?_, rfl⟩
    rw [seg_leftOf]
    simp only [Has]
    omega
  · refine ⟨_, mem_segs.mpr ⟨_, mem_outsideOf.mpr (.inr ⟨by omega, rfl⟩), rfl⟩, ?_, rfl⟩
    rw [seg_rightOf]
    simp only [Has]
    omega

end Meets

end Cut

variable {slab : Nat → Bool} {base len : U64} {prot : U32} {s s' : VmRegions} {r : VmRegion}
  {visited visited' rest rest' pieces : List VmRegion} {capacity fuel : Nat}

/-- Separate entries inside an entry. -/
structure PiecesOf (r : VmRegion) (pieces : List VmRegion) : Prop where
  separated : Separated (segs pieces)
  within : ∀ p ∈ pieces, p.seg.Within r.seg

/-- **An entry gives way to pieces of it.** They decide what the map says where the entry was. -/
theorem PiecesOf.replace (h : PiecesOf r pieces)
    (hs : Separated (segs (visited ++ r :: rest))) (hp : l.Perm (pieces ++ (visited ++ rest))) :
    Separated (segs l) ∧ ∀ a, lookup (segs l) a =
      if r.seg.Has a then lookup (segs pieces) a else lookup (segs (visited ++ r :: rest)) a := by
  have hsep := separated_middle hs
  have hw : ∀ x ∈ segs pieces, x.Within r.seg := by
    intro x hx
    obtain ⟨p, hp, rfl⟩ := mem_segs.mp hx
    exact h.within p hp
  have hsep' : Separated (segs (pieces ++ (visited ++ rest))) := by
    rw [segs_append]
    exact hsep.replace h.separated hw
  refine ⟨hsep'.perm (segs_perm hp.symm), fun a => ?_⟩
  rw [lookup_perm (hsep'.perm (segs_perm hp.symm)) (segs_perm hp), segs_append,
    lookup_replace hsep hw, lookup_perm hs (segs_perm perm_middle), segs_cons]

theorem outsideOf_coherent (hr : r.Coherent) (p : VmRegion) (hp : p ∈ outsideOf base len r) :
    p.Coherent := by
  obtain ⟨hwr, hpr, _⟩ := outsideOf_same hp
  rw [Coherent, hwr, hpr]
  exact hr

/-- The invariant of a loop that cuts the entries it meets: what has been visited is done with, and
the array as a whole denotes a map that `same` allows in place of the old one. -/
structure Cutting (done : VmRegion → Prop) (same : Nat → Option VmMeta → Option VmMeta → Prop)
    (s : VmRegions) (visited rest : List VmRegion) : Prop where
  separated : Separated (segs (visited ++ rest))
  done : ∀ r ∈ visited, done r
  same : ∀ a, same a (lookup (segs s.regions) a) (lookup (segs (visited ++ rest)) a)

section Cutting

variable {done : VmRegion → Prop} {same : Nat → Option VmMeta → Option VmMeta → Prop}

theorem Cutting.skip (h : Cutting done same s visited (r :: rest)) (hr : done r) :
    Cutting done same s (visited ++ [r]) rest := by
  have hl : visited ++ [r] ++ rest = visited ++ r :: rest := by simp
  refine ⟨hl ▸ h.separated, fun v hv => ?_, hl ▸ h.same⟩
  rcases mem_append.mp hv with hv | hv
  · exact h.done v hv
  · exact mem_singleton.mp hv ▸ hr

theorem Cutting.cut (h : Cutting done same s visited (r :: rest)) (hps : PiecesOf r pieces)
    (hp : (visited' ++ rest').Perm (pieces ++ (visited ++ rest)))
    (hvis : ∀ v ∈ visited', v ∈ visited ∨ done v)
    (hsame : ∀ a old, r.seg.Has a → same a old (some r.info) → same a old (lookup (segs pieces) a)) :
    Cutting done same s visited' rest' := by
  obtain ⟨hsep, hlookup⟩ := hps.replace h.separated hp
  refine ⟨hsep, fun v hv => (hvis v hv).elim (h.done v) id, fun a => ?_⟩
  have hold := h.same a
  rw [hlookup]
  split
  · rename_i hra
    rw [lookup_perm h.separated (segs_perm perm_middle), segs_cons, Segment.lookup_cons,
      if_pos hra] at hold
    exact hsame a _ hra hold
  · exact hold

end Cutting

/-! ## Removing -/

/-- The invariant of `removeLoop`: what has been visited is clear of the range, and the
array as a whole still denotes the same map outside it. -/
abbrev Removing (base len : U64) : VmRegions → List VmRegion → List VmRegion → Prop :=
  Cutting (fun r => ¬ (addrRange base len).Overlaps r.seg)
    fun a old new => ¬ (addrRange base len).Has a → new = old

theorem Removing.cut (hv : base.toNat < (base + len).toNat)
    (h : Removing base len s visited (r :: rest)) (hov : (addrRange base len).Overlaps r.seg)
    (hp : (visited' ++ rest').Perm (outsideOf base len r ++ (visited ++ rest)))
    (hvis : ∀ v ∈ visited', v ∈ visited ∨ v ∈ outsideOf base len r) :
    Removing base len s visited' rest' := by
  have hr : r.base.toNat < r.regionEnd.toNat := h.separated.nonempty r.seg (by simp)
  refine Cutting.cut h ⟨outsideOf_separated hv hr hov, fun _ => outsideOf_within hov⟩ hp
    (fun v hv => (hvis v hv).imp_right outsideOf_clear) fun a old hra hold ha => ?_
  rw [lookup_outsideOf hv hr hov hra ha, hold ha]

theorem cut_perm (visited rest kept appended : List VmRegion) :
    (visited ++ kept ++ (rest ++ appended)).Perm (kept ++ appended ++ (visited ++ rest)) := by
  rw [perm_iff_count]
  intro x
  simp only [count_append]
  omega

theorem swapLast_perm (rest : List VmRegion) : (swapLast rest).Perm rest := by
  unfold swapLast
  cases h : rest.getLast? with
  | none => simp [getLast?_eq_none_iff.mp h]
  | some last =>
    obtain ⟨init, rfl⟩ := getLast?_eq_some_iff.mp h
    simpa using (perm_append_singleton last init).symm

/-- Entries that meet the range count twice: cutting one leaves a piece behind. -/
def removeCost (base len : U64) (rest : List VmRegion) : Nat :=
  rest.length + rest.countP fun r => regionsOverlap base len r.base r.len

theorem removeCost_perm (base len : U64) {rest rest'} (h : rest.Perm rest') :
    removeCost base len rest = removeCost base len rest' := by
  simp only [removeCost, h.length_eq, h.countP_eq]

theorem regionsOverlap_eq_false :
    regionsOverlap base len r.base r.len = false ↔ ¬ (addrRange base len).Overlaps r.seg := by
  rw [← Bool.not_eq_true, regionsOverlap_iff, overlaps_seg]

/-- One round of the removal loop. An entry that meets the range gives way to its pieces outside the
range, or there is no slot for the second of them. -/
inductive RemoveRound (slab : Nat → Bool) (base len : U64) (visited : List VmRegion) (r : VmRegion)
    (rest : List VmRegion) (capacity : Nat) : Prop
  | skip (clear : ¬ (addrRange base len).Overlaps r.seg)
      (loop : ∀ fuel, removeLoop slab base len (fuel + 1) visited (r :: rest) capacity =
        removeLoop slab base len fuel (visited ++ [r]) rest capacity)
  | cut (meets : (addrRange base len).Overlaps r.seg) (kept appended rest' : List VmRegion)
      (capacity' : Nat) (pieces : kept ++ appended = outsideOf base len r)
      (others : rest'.Perm (rest ++ appended))
      (cost : removeCost base len rest' < removeCost base len (r :: rest))
      (loop : ∀ fuel, removeLoop slab base len (fuel + 1) visited (r :: rest) capacity =
        removeLoop slab base len fuel (visited ++ kept) rest' capacity')
  | fail (meets : (addrRange base len).Overlaps r.seg) (lo : r.base.toNat < base.toNat)
      (hi : (base + len).toNat < r.regionEnd.toNat)
      (loop : ∀ fuel, removeLoop slab base len (fuel + 1) visited (r :: rest) capacity =
        (false, ⟨visited ++ r :: rest, capacity⟩))

theorem removeLoop_round (slab : Nat → Bool) (base len : U64) (visited : List VmRegion) (r : VmRegion)
    (rest : List VmRegion) (capacity : Nat) :
    RemoveRound slab base len visited r rest capacity := by
  cases hov : regionsOverlap base len r.base r.len with
  | false => exact .skip (regionsOverlap_eq_false.mp hov) fun fuel => by simp [removeLoop, hov]
  | true =>
    have hmeets : (addrRange base len).Overlaps r.seg := regionsOverlap_iff.mp hov
    have hcost : removeCost base len (r :: rest) = removeCost base len rest + 2 := by
      simp only [removeCost, length_cons, countP_cons, hov, if_true]
      omega
    by_cases hb : maxU64 base r.base = r.base
    · by_cases he : minU64 (base + len) r.regionEnd = r.regionEnd
      · -- inside the range: the last entry takes the place of this one
        refine .cut hmeets [] [] (swapLast rest) capacity (by simp [outsideOf, hb, he])
          (by simpa using swapLast_perm rest) ?_ fun fuel => by simp [removeLoop, hov, hb, he]
        rw [removeCost_perm base len (swapLast_perm rest)]
        omega
      · exact .cut hmeets [rightOf base len r] [] rest capacity (by simp [outsideOf, hb, he])
          (by simp) (by omega) fun fuel => by simp [removeLoop, hov, hb, he]
    · by_cases he : minU64 (base + len) r.regionEnd = r.regionEnd
      · exact .cut hmeets [leftOf base r] [] rest capacity (by simp [outsideOf, hb, he])
          (by simp) (by omega) fun fuel => by simp [removeLoop, hov, hb, he]
      · have hlo := hb
        have hhi := he
        rw [maxU64_eq_right_iff, not_not] at hlo
        rw [minU64_eq_right_iff, not_not] at hhi
        cases hg : taskGrowVmRegionsLocked slab capacity (visited.length + rest.length + 2) with
        | none => exact .fail hmeets hlo hhi fun fuel => by simp [removeLoop, hov, hb, he, hg]
        | some capacity' =>
          refine .cut hmeets [leftOf base r] [rightOf base len r] (rest ++ [rightOf base len r])
            capacity' (by simp [outsideOf, hb, he]) (.refl _) ?_ fun fuel => by
              simp [removeLoop, hov, hb, he, hg]
          have hright := regionsOverlap_eq_false.mpr
            (outsideOf_clear (mem_outsideOf.mpr (.inr ⟨hhi, rfl⟩)) :
              ¬ (addrRange base len).Overlaps (rightOf base len r).seg)
          simp only [removeCost, length_append, length_singleton, countP_append,
            countP_singleton, hright, Bool.false_eq_true, if_false] at hcost ⊢
          omega

/-- What a region hands down to its pieces outside the range holds for the whole array after the
removal, whether it succeeds or not. -/
theorem removeLoop_forall {ok}
    (hcut : ∀ r, P r → (addrRange base len).Overlaps r.seg → ∀ p ∈ outsideOf base len r, P p)
    (hall : ∀ r ∈ visited ++ rest, P r)
    (h : removeLoop slab base len fuel visited rest capacity = (ok, s')) : ∀ r ∈ s'.regions, P r := by
  induction fuel generalizing visited rest capacity with
  | zero =>
    cases h
    exact hall
  | succ fuel ih =>
    cases rest with
    | nil =>
      cases h
      simpa using hall
    | cons r rest =>
      cases removeLoop_round slab base len visited r rest capacity with
      | skip clear loop =>
        refine ih (fun t ht => hall t ?_) (loop fuel ▸ h)
        simpa using ht
      | cut meets kept appended rest' capacity' pieces others cost loop =>
        refine ih (fun t ht => ?_) (loop fuel ▸ h)
        have hp := (others.append_left _).trans (cut_perm visited rest kept appended)
        rcases mem_append.mp (hp.mem_iff.mp ht) with ht | ht
        · exact hcut r (hall r (by simp)) meets t (pieces ▸ ht)
        · exact hall t (by simp at ht ⊢; tauto)
      | fail meets lo hi loop =>
        rw [loop] at h
        cases h
        exact hall

/-- **The removal loop keeps its invariant** to the end, by induction on the rounds. -/
theorem removeLoop_removing (hv : base.toNat < (base + len).toNat)
    (hi : Removing base len s visited rest)
    (h : removeLoop slab base len fuel visited rest capacity = (true, s')) :
    Removing base len s s'.regions [] := by
  induction fuel generalizing visited rest capacity with
  | zero => cases h
  | succ fuel ih =>
    cases rest with
    | nil => cases h; simpa using hi
    | cons r rest =>
      cases removeLoop_round slab base len visited r rest capacity with
      | skip clear loop => exact ih (Cutting.skip hi clear) (loop fuel ▸ h)
      | cut meets kept appended rest' capacity' pieces others cost loop =>
        have hp := cut_perm visited rest kept appended
        rw [pieces] at hp
        refine ih (Removing.cut hv hi meets ((others.append_left _).trans hp) fun v hv => ?_) (loop fuel ▸ h)
        rw [← pieces]
        exact (mem_append.mp hv).imp_right (mem_append_left _)
      | fail meets lo hi loop =>
        rw [loop] at h
        cases h

/-- The abstract update of a removal. -/
def undefineRange (base len : U64) (f : U64 → Option VmMeta) : U64 → Option VmMeta :=
  fun a => if (addrRange base len).Has a.toNat then none else f a

theorem taskRemoveVmRegion_map
    (hs : s.WellFormed) (h : taskRemoveVmRegion slab s base len = (true, s')) :
    vmRangeInvalid base len = false ∧ s'.WellFormed ∧ s'.map = undefineRange base len s.map := by
  unfold taskRemoveVmRegion at h
  split at h
  · cases h
  rename_i hv
  have hv := Bool.eq_false_iff.mpr hv
  have hi : Removing base len s [] s.regions := ⟨hs.separated, by simp, fun _ _ => rfl⟩
  have hcoherent := removeLoop_forall (fun _ hr _ => outsideOf_coherent hr) hs.coherent h
  have hd := removeLoop_removing (vmRangeInvalid_eq_false.mp hv) hi h
  have hl : s'.regions ++ [] = s'.regions := append_nil _
  refine ⟨hv, ⟨hl ▸ hd.separated, hcoherent⟩, funext fun a => ?_⟩
  rw [undefineRange]
  split
  · rename_i ha
    refine lookup_eq_none_iff.mpr fun x hx hxa => ?_
    obtain ⟨r, hr, rfl⟩ := mem_segs.mp hx
    exact hd.done r hr (overlaps_of_has ha hxa)
  · rename_i ha
    rw [VmRegions.map, ← hl, hd.same _ ha, VmRegions.map]

/-! ## Changing the protection -/

def VmMeta.setProt (i : VmMeta) (prot : U32) : VmMeta := { i with prot }

theorem VmMeta.setProt_eq {i : VmMeta} (h : i.prot = prot) : i.setProt prot = i := by
  cases i
  cases h
  rfl

/-- The invariant of `protectLoop`: what has been visited inside the range has the new
protection, and the map differs from the old one at most by that. -/
abbrev Protecting (base len : U64) (prot : U32) : VmRegions → List VmRegion → List VmRegion → Prop :=
  Cutting (fun r => (addrRange base len).Overlaps r.seg → r.prot = prot)
    fun a old new => new = old ∨ (addrRange base len).Has a ∧ new = old.map (·.setProt prot)

theorem Protecting.skip (h : Protecting base len prot s visited (r :: rest))
    (hno : ¬ (addrRange base len).Overlaps r.seg) :
    Protecting base len prot s (visited ++ [r]) rest :=
  Cutting.skip h fun ho => absurd ho hno

section Cut

variable {base len : U64} {r : VmRegion} {prot : U32}

/-- The pieces an entry that meets the range is replaced by. -/
def protectedPieces (base len : U64) (prot : U32) (r : VmRegion) : List VmRegion :=
  regionSetProt (insideOf base len r) prot :: outsideOf base len r

theorem seg_protected : (regionSetProt (insideOf base len r) prot).seg =
    ⟨max base.toNat r.base.toNat, min (base + len).toNat r.regionEnd.toNat, r.info.setProt prot⟩ := by
  have h := seg_insideOf base len r
  simp only [seg, Segment.mk.injEq] at h
  simp only [seg, regionSetProt, regionEnd, Segment.mk.injEq]
  exact ⟨h.1, h.2.1, rfl⟩

theorem protectedPieces_within (prot : U32) (hov : (addrRange base len).Overlaps r.seg)
    (hp : p ∈ protectedPieces base len prot r) : p.seg.Within r.seg := by
  rcases mem_cons.mp hp with rfl | hp
  · rw [seg_protected]
    simp only [Within, seg]
    omega
  · exact outsideOf_within hov hp

theorem protectedPieces_coherent (prot : U32) (hr : r.Coherent) (p : VmRegion)
    (hp : p ∈ protectedPieces base len prot r) : p.Coherent := by
  rcases mem_cons.mp hp with rfl | hp
  · rfl
  · exact outsideOf_coherent hr p hp

section Meets

variable (hv : base.toNat < (base + len).toNat) (hr : r.base.toNat < r.regionEnd.toNat)
  (hov : (addrRange base len).Overlaps r.seg)
include hv hr hov

theorem protectedPieces_separated : Separated (segs (protectedPieces base len prot r)) := by
  have hov' : base.toNat < r.regionEnd.toNat ∧ r.base.toNat < (base + len).toNat := hov
  refine separated_cons.mpr ⟨?_, outsideOf_separated hv hr hov, fun x hx => ?_⟩
  · rw [seg_protected]
    simp only
    omega
  · obtain ⟨p, hp, rfl⟩ := mem_segs.mp hx
    have hclear := outsideOf_clear hp
    rw [seg_protected]
    simp only [Overlaps, addrRange] at hclear ⊢
    omega

theorem lookup_protectedPieces (ha : r.seg.Has a) :
    lookup (segs (protectedPieces base len prot r)) a =
      some (if (addrRange base len).Has a then r.info.setProt prot else r.info) := by
  have hin : (regionSetProt (insideOf base len r) prot).seg.Has a ↔ (addrRange base len).Has a := by
    rw [seg_protected]
    simp only [Has, addrRange, seg] at ha ⊢
    omega
  rw [protectedPieces, segs_cons, Segment.lookup_cons]
  simp only [hin]
  split
  · rw [seg_protected]
  · rename_i hn
    exact lookup_outsideOf hv hr hov ha hn

end Meets

end Cut

theorem protectedPieces_of (prot : U32) (hv : base.toNat < (base + len).toNat)
    (hr : r.base.toNat < r.regionEnd.toNat) (hov : (addrRange base len).Overlaps r.seg) :
    PiecesOf r (protectedPieces base len prot r) :=
  ⟨protectedPieces_separated hv hr hov, fun _ => protectedPieces_within prot hov⟩

theorem Protecting.cut (hv : base.toNat < (base + len).toNat)
    (h : Protecting base len prot s visited (r :: rest)) (hov : (addrRange base len).Overlaps r.seg)
    (hp : (visited' ++ rest').Perm (protectedPieces base len prot r ++ (visited ++ rest)))
    (hvis : ∀ v ∈ visited', v ∈ visited ∨ v ∈ outsideOf base len r ∨ v.prot = prot) :
    Protecting base len prot s visited' rest' := by
  have hr : r.base.toNat < r.regionEnd.toNat := h.separated.nonempty r.seg (by simp)
  refine Cutting.cut h (protectedPieces_of prot hv hr hov) hp (fun v hv => ?_)
    fun a old hra hold => ?_
  · exact (hvis v hv).imp_right fun hv ho => hv.resolve_left fun hout => outsideOf_clear hout ho
  · rw [lookup_protectedPieces hv hr hov hra]
    by_cases ha : (addrRange base len).Has a
    · -- inside the range the entry now has the new protection, whatever it had before
      refine .inr ⟨ha, ?_⟩
      rw [if_pos ha]
      rcases hold with rfl | ⟨_, hold⟩
      · rfl
      cases old with
      | none => cases hold
      | some i =>
        have hinfo : r.info = i.setProt prot := Option.some.inj hold
        rw [hinfo]
        rfl
    · rw [if_neg ha]
      exact .inl (hold.resolve_right fun hn => ha hn.1)

theorem insideOf_eq (hb : maxU64 base r.base = r.base)
    (he : minU64 (base + len) r.regionEnd = r.regionEnd) : insideOf base len r = r := by
  cases r
  simp only [regionEnd] at hb he
  simp [insideOf, regionEnd, hb, he]

/-- An entry that meets the range without lying in it. -/
def sticksOut (base len : U64) (r : VmRegion) : Bool :=
  regionsOverlap base len r.base r.len &&
    !(maxU64 base r.base == r.base && minU64 (base + len) r.regionEnd == r.regionEnd)

def protectCost (base len : U64) (rest : List VmRegion) : Nat :=
  rest.length + 2 * rest.countP (sticksOut base len)

theorem regionEnd_inside (base len : U64) (prot : U32) (r : VmRegion) :
    (regionSetProt (insideOf base len r) prot).regionEnd = minU64 (base + len) r.regionEnd := by
  simp [regionSetProt, insideOf, regionEnd]

theorem inside_not_sticksOut (base len : U64) (prot : U32) (r : VmRegion) :
    sticksOut base len (regionSetProt (insideOf base len r) prot) = false := by
  have hb : maxU64 base (regionSetProt (insideOf base len r) prot).base =
      (regionSetProt (insideOf base len r) prot).base := by
    rw [maxU64_eq_right_iff]
    simp only [regionSetProt, insideOf, toNat_maxU64]
    omega
  have he : minU64 (base + len) (regionSetProt (insideOf base len r) prot).regionEnd =
      (regionSetProt (insideOf base len r) prot).regionEnd := by
    rw [minU64_eq_right_iff, regionEnd_inside, toNat_minU64]
    omega
  simp [sticksOut, hb, he]

theorem protectedPieces_not_sticksOut
    (hp : p ∈ protectedPieces base len prot r) : sticksOut base len p = false := by
  rcases mem_cons.mp hp with rfl | hp
  · exact inside_not_sticksOut base len prot r
  · simp [sticksOut, regionsOverlap_eq_false.mpr (outsideOf_clear hp)]

/-- The array of this capacity and length can take `count` more entries. -/
def roomFor (slab : Nat → Bool) (capacity length : Nat) : Nat → Bool
  | 0 => true
  | count + 1 =>
    match taskGrowVmRegionsLocked slab capacity (length + 1) with
    | none => false
    | some capacity => roomFor slab capacity (length + 1) count

/-- The entries are appended one after the other, as far as there is room. -/
def appendVmRegions (slab : Nat → Bool) (s : VmRegions) : List VmRegion → Bool × VmRegions
  | [] => (true, s)
  | r :: l =>
    match taskAppendVmRegionLocked slab s r with
    | (false, s) => (false, s)
    | (true, s) => appendVmRegions slab s l

/-- What comes of appending several entries. -/
inductive Appended (slab : Nat → Bool) (s : VmRegions) (l : List VmRegion) : Prop
  | all (capacity : Nat) (eq : appendVmRegions slab s l = (true, ⟨s.regions ++ l, capacity⟩))
      (room : ∀ n, roomFor slab s.capacity s.regions.length (l.length + n) =
        roomFor slab capacity (s.regions.length + l.length) n)
  | some (l₁ l₂ : List VmRegion) (piece : VmRegion) (capacity : Nat) (split : l = l₁ ++ piece :: l₂)
      (eq : appendVmRegions slab s l = (false, ⟨s.regions ++ l₁, capacity⟩))
      (room : ∀ n, roomFor slab s.capacity s.regions.length (l.length + n) = false)

theorem appendVmRegions_appended (slab : Nat → Bool) (s : VmRegions) (l : List VmRegion) :
    Appended slab s l := by
  induction l generalizing s with
  | nil => exact .all s.capacity (by simp [appendVmRegions]) fun n => by simp
  | cons r l ih =>
    cases hg : taskGrowVmRegionsLocked slab s.capacity (s.regions.length + 1) with
    | none =>
      refine .some [] l r s.capacity rfl ?_ fun n => ?_
      · simp [appendVmRegions, taskAppendVmRegionLocked, hg]
      · rw [length_cons, Nat.add_right_comm, roomFor, hg]
    | some capacity =>
      have heq : appendVmRegions slab s (r :: l) =
          appendVmRegions slab ⟨s.regions ++ [r], capacity⟩ l := by
        simp [appendVmRegions, taskAppendVmRegionLocked, hg]
      have hroom : ∀ n, roomFor slab s.capacity s.regions.length ((r :: l).length + n) =
          roomFor slab capacity (s.regions ++ [r]).length (l.length + n) := fun n => by
        rw [length_cons, Nat.add_right_comm, roomFor, hg, length_append, length_singleton]
      cases ih ⟨s.regions ++ [r], capacity⟩ with
      | all capacity' eq room =>
        refine .all capacity' (by rw [heq, eq]; simp) fun n => ?_
        rw [hroom, room, length_append, length_singleton, length_cons,
          Nat.add_right_comm, add_assoc]
      | some l₁ l₂ piece capacity' split eq room =>
        refine .some (r :: l₁) l₂ piece capacity' (by rw [split]; rfl) (by rw [heq, eq]; simp)
          fun n => ?_
        rw [hroom, room]

theorem Protecting.round {appended kept} (hv : base.toNat < (base + len).toNat)
    (h : Protecting base len prot s visited (r :: rest)) (meets : (addrRange base len).Overlaps r.seg)
    (pieces : (kept :: appended).Perm (protectedPieces base len prot r))
    (done : kept ∈ outsideOf base len r ∨ kept.prot = prot) :
    Protecting base len prot s (visited ++ [kept]) (rest ++ appended) := by
  refine Protecting.cut hv h meets ((cut_perm visited rest [kept] appended).trans (pieces.append_right _))
    fun v hv => ?_
  rcases mem_append.mp hv with hv | hv
  · exact .inl hv
  · exact .inr (mem_singleton.mp hv ▸ done)

/-- One round of the protection loop. An entry that meets the range gives way to its pieces, or the loop
fails with one of the pieces missing. -/
inductive ProtectRound (slab : Nat → Bool) (base len : U64) (prot : U32) (visited : List VmRegion)
    (r : VmRegion) (rest : List VmRegion) (capacity : Nat) : Prop
  | skip (clear : ¬ (addrRange base len).Overlaps r.seg)
      (loop : ∀ fuel, protectLoop slab base len prot (fuel + 1) visited (r :: rest) capacity =
        protectLoop slab base len prot fuel (visited ++ [r]) rest capacity)
  | cut (meets : (addrRange base len).Overlaps r.seg) (kept : VmRegion) (appended : List VmRegion)
      (capacity' : Nat) (pieces : (kept :: appended).Perm (protectedPieces base len prot r))
      (done : kept ∈ outsideOf base len r ∨ kept.prot = prot)
      (cost : protectCost base len (rest ++ appended) < protectCost base len (r :: rest))
      (room : ∀ n, roomFor slab capacity (visited.length + (rest.length + 1))
        ((outsideOf base len r).length + n) = roomFor slab capacity'
          (visited.length + (rest.length + 1) + (outsideOf base len r).length) n)
      (loop : ∀ fuel, protectLoop slab base len prot (fuel + 1) visited (r :: rest) capacity =
        protectLoop slab base len prot fuel (visited ++ [kept]) (rest ++ appended) capacity')
  | fail (meets : (addrRange base len).Overlaps r.seg) (kept : List VmRegion) (piece : VmRegion)
      (left : VmRegions) (pieces : (piece :: kept).Subperm (protectedPieces base len prot r))
      (regions : left.regions.Perm (kept ++ (visited ++ rest)))
      (room : ∀ n, roomFor slab capacity (visited.length + (rest.length + 1))
        ((outsideOf base len r).length + n) = false)
      (loop : ∀ fuel, protectLoop slab base len prot (fuel + 1) visited (r :: rest) capacity =
        (false, left))

theorem ProtectRound.of_append
    (meets : (addrRange base len).Overlaps r.seg) (kept : VmRegion) (more : List VmRegion) (hout : sticksOut base len r = true)
    (hkept : outsideOf base len r = kept :: more)
    (hloop : ∀ fuel, protectLoop slab base len prot (fuel + 1) visited (r :: rest) capacity =
      match appendVmRegions slab ⟨visited ++ kept :: rest, capacity⟩
        (regionSetProt (insideOf base len r) prot :: more) with
      | (false, s) => (false, s)
      | (true, s) => protectLoop slab base len prot fuel (visited ++ [kept])
          (rest ++ regionSetProt (insideOf base len r) prot :: more) s.capacity) :
    ProtectRound slab base len prot visited r rest capacity := by
  have hpieces : protectedPieces base len prot r =
      regionSetProt (insideOf base len r) prot :: kept :: more := by rw [protectedPieces, hkept]
  have hperm : (kept :: regionSetProt (insideOf base len r) prot :: more).Perm
      (protectedPieces base len prot r) := hpieces ▸ .swap _ _ _
  have hlen : (outsideOf base len r).length =
      (regionSetProt (insideOf base len r) prot :: more).length := by rw [hkept]; rfl
  cases appendVmRegions_appended slab ⟨visited ++ kept :: rest, capacity⟩
    (regionSetProt (insideOf base len r) prot :: more) with
  | all capacity' eq room =>
    refine .cut meets kept _ capacity' hperm (.inl (by simp [hkept])) ?_ (fun n => ?_) fun fuel => by
      rw [hloop, eq]
    · have hmore : (outsideOf base len r).length ≤ 2 := by
        unfold outsideOf
        split <;> split <;> simp
      have hclear : (regionSetProt (insideOf base len r) prot :: more).countP (sticksOut base len) = 0 := by
        refine countP_eq_zero.mpr fun p hp => ?_
        simp [protectedPieces_not_sticksOut (hperm.mem_iff.mp (mem_cons_of_mem _ hp))]
      simp only [protectCost, length_append, countP_append, hclear, length_cons,
        countP_cons, hout, if_true] at hlen ⊢
      omega
    · simpa [hlen] using room n
  | some l₁ l₂ piece capacity' split eq room =>
    refine .fail meets (kept :: l₁) piece _ ?_ ?_ (fun n => ?_) fun fuel => by rw [hloop, eq]
    · refine .trans ⟨kept :: l₁ ++ [piece], perm_append_singleton piece (kept :: l₁), ?_⟩
        hperm.subperm
      rw [split]
      exact Sublist.cons_cons kept ((Sublist.refl l₁).append (by simp))
    · simpa using cut_perm visited rest [kept] l₁
    · simpa [hlen] using room n

theorem protectLoop_round (slab : Nat → Bool) (base len : U64) (prot : U32) (visited : List VmRegion)
    (r : VmRegion) (rest : List VmRegion) (capacity : Nat) :
    ProtectRound slab base len prot visited r rest capacity := by
  cases hov : regionsOverlap base len r.base r.len with
  | false => exact .skip (regionsOverlap_eq_false.mp hov) fun fuel => by simp [protectLoop, hov]
  | true =>
    have hmeets : (addrRange base len).Overlaps r.seg := regionsOverlap_iff.mp hov
    by_cases hb : maxU64 base r.base = r.base
    · by_cases he : minU64 (base + len) r.regionEnd = r.regionEnd
      · have hnone : outsideOf base len r = [] := by simp [outsideOf, hb, he]
        refine .cut hmeets (regionSetProt r prot) [] capacity ?_ (.inr rfl) ?_ ?_ fun fuel => by
          simp [protectLoop, hov, hb, he]
        · rw [protectedPieces, hnone, insideOf_eq hb he]
        · simp only [protectCost, append_nil, length_cons, countP_cons]
          omega
        · simp [hnone]
      · refine .of_append hmeets (rightOf base len r) [] (by simp [sticksOut, hov, he])
          (by simp [outsideOf, hb, he]) fun fuel => ?_
        simp only [protectLoop, appendVmRegions, hov, hb, he, Bool.not_true, Bool.false_eq_true, if_true,
          if_false, and_false]
        rcases taskAppendVmRegionLocked slab _ _ with ⟨_ | _, left⟩ <;> rfl
    · by_cases he : minU64 (base + len) r.regionEnd = r.regionEnd
      · refine .of_append hmeets (leftOf base r) [] (by simp [sticksOut, hov, hb])
          (by simp [outsideOf, hb, he]) fun fuel => ?_
        simp only [protectLoop, appendVmRegions, hov, hb, he, Bool.not_true, Bool.false_eq_true, if_true,
          if_false, false_and]
        rcases taskAppendVmRegionLocked slab _ _ with ⟨_ | _, left⟩ <;> rfl
      · refine .of_append hmeets (leftOf base r) [rightOf base len r] (by simp [sticksOut, hov, hb])
          (by simp [outsideOf, hb, he]) fun fuel => ?_
        simp only [protectLoop, appendVmRegions, hov, hb, he, Bool.not_true, Bool.false_eq_true, if_false,
          false_and]
        rcases taskAppendVmRegionLocked slab _ _ with ⟨_ | _, left⟩
        · rfl
        · dsimp only
          rcases taskAppendVmRegionLocked slab left _ with ⟨_ | _, left⟩ <;> rfl

theorem protectLoop_forall {ok}
    (hcut : ∀ r, P r → (addrRange base len).Overlaps r.seg → ∀ p ∈ protectedPieces base len prot r, P p)
    (hall : ∀ r ∈ visited ++ rest, P r)
    (h : protectLoop slab base len prot fuel visited rest capacity = (ok, s')) :
    ∀ r ∈ s'.regions, P r := by
  induction fuel generalizing visited rest capacity with
  | zero =>
    cases h
    exact hall
  | succ fuel ih =>
    cases rest with
    | nil =>
      cases h
      simpa using hall
    | cons r rest =>
      have hr : P r := hall r (by simp)
      have hothers : ∀ t ∈ visited ++ rest, P t := fun t ht => hall t (by simp at ht ⊢; tauto)
      cases protectLoop_round slab base len prot visited r rest capacity with
      | skip clear loop =>
        refine ih (fun t ht => hall t ?_) (loop fuel ▸ h)
        simpa using ht
      | cut meets kept appended capacity' pieces done cost room loop =>
        refine ih (fun t ht => ?_) (loop fuel ▸ h)
        rcases mem_append.mp ((cut_perm visited rest [kept] appended).mem_iff.mp ht) with ht | ht
        · exact hcut r hr meets t (pieces.mem_iff.mp ht)
        · exact hothers t ht
      | fail meets kept piece left pieces regions room loop =>
        rw [loop] at h
        cases h
        intro t ht
        rcases mem_append.mp (regions.mem_iff.mp ht) with ht | ht
        · exact hcut r hr meets t (pieces.subset (mem_cons_of_mem _ ht))
        · exact hothers t ht

/-- **The protection loop keeps its invariant** to the end, by induction on the rounds. -/
theorem protectLoop_protecting
    (hv : base.toNat < (base + len).toNat) (hi : Protecting base len prot s visited rest)
    (h : protectLoop slab base len prot fuel visited rest capacity = (true, s')) :
    Protecting base len prot s s'.regions [] := by
  induction fuel generalizing visited rest capacity with
  | zero => cases h
  | succ fuel ih =>
    cases rest with
    | nil => cases h; simpa using hi
    | cons r rest =>
      cases protectLoop_round slab base len prot visited r rest capacity with
      | skip clear loop => exact ih (Protecting.skip hi clear) (loop fuel ▸ h)
      | cut meets kept appended capacity' pieces done cost room loop =>
        exact ih (Protecting.round hv hi meets pieces done) (loop fuel ▸ h)
      | fail meets kept piece left pieces regions room loop =>
        rw [loop] at h
        cases h

/-- The abstract update of a protection change. -/
def protectRange (base len : U64) (prot : U32) (f : U64 → Option VmMeta) : U64 → Option VmMeta :=
  fun a => if (addrRange base len).Has a.toNat then (f a).map (·.setProt prot) else f a

theorem protectLoop_map (hs : s.WellFormed) (hv : vmRangeInvalid base len = false)
    (h : protectLoop slab base len prot fuel [] s.regions s.capacity = (true, s')) :
    s'.WellFormed ∧ s'.map = protectRange base len prot s.map := by
  have hi : Protecting base len prot s [] s.regions := ⟨hs.separated, by simp, fun _ => .inl rfl⟩
  have hd := protectLoop_protecting (vmRangeInvalid_eq_false.mp hv) hi h
  have hl : s'.regions ++ [] = s'.regions := append_nil _
  have hsep : Separated (segs s'.regions) := hl ▸ hd.separated
  refine ⟨⟨hsep, protectLoop_forall (fun _ hr _ => protectedPieces_coherent prot hr) hs.coherent h⟩,
    funext fun a => ?_⟩
  have hsame := hd.same a.toNat
  rw [hl] at hsame
  rw [protectRange]
  split
  · rename_i ha
    rcases hsame with hsame | ⟨_, hsame⟩
    · -- an unchanged entry inside the range already had the new protection
      cases ho : s.map a with
      | none => exact hsame.trans ho
      | some i =>
        have hi := hsame.trans ho
        obtain ⟨x, hx, hxa, rfl⟩ := (lookup_eq_some_iff hsep).mp hi
        obtain ⟨r, hr, rfl⟩ := mem_segs.mp hx
        have hprot : r.info.prot = prot := hd.done r hr (overlaps_of_has ha hxa)
        exact hi.trans (congrArg some (VmMeta.setProt_eq hprot).symm)
    · exact hsame
  · rename_i ha
    exact hsame.resolve_right fun hn => ha hn.1

end Bunix.Kernel
