import Bunix.Kernel.VmRegionFailure

/-! # File positions of mapped addresses

A region with a backing object says for each of its addresses which byte of the object it stands for:
the offset of the region plus the distance from its base. Additions keep that. The calls that cut a
region copy its offset to every piece, also to one that starts somewhere else.
-/
namespace Bunix.Kernel

open Bunix.Lib Bunix.Lib.Segment Option List

variable {a p : U64} {m : VmMapping} {visited rest l' : List VmRegion} {ok : Bool}

/-- There is an object behind the region whose bytes have positions. -/
def VmRegion.Backed (r : VmRegion) : Prop := r.objectId ≠ 0 ∧ r.objectType ≠ .anon

instance (r : VmRegion) : Decidable r.Backed := inferInstanceAs (Decidable (_ ∧ _))

/-- The byte of the object that an address of the region stands for. -/
def VmRegion.position (r : VmRegion) (a : U64) : U64 := r.offset + (a - r.base)

/-- The file position of an address, if it is mapped and has one. -/
def VmRegions.position (s : VmRegions) (a : U64) : Option U64 :=
  (s.regions.find? fun r => decide (r.seg.Has a.toNat)).bind fun r =>
    if r.Backed then some (r.position a) else none

theorem find_region_iff {l : List VmRegion} (hsep : Separated (segs l)) {a : Nat} {r : VmRegion} :
    l.find? (fun r => decide (r.seg.Has a)) = some r ↔ r ∈ l ∧ r.seg.Has a := by
  induction l with
  | nil => simp
  | cons t l ih =>
    obtain ⟨_, hl, hx⟩ := separated_cons.mp hsep
    rw [find?_cons]
    by_cases ha : t.seg.Has a
    · simp only [ha, decide_true]
      constructor
      · rintro ⟨⟩
        exact ⟨mem_cons_self, ha⟩
      · rintro ⟨hr, hra⟩
        rcases mem_cons.mp hr with rfl | hr
        · rfl
        · exact absurd (overlaps_of_has ha hra) (hx r.seg (mem_segs.mpr ⟨r, hr, rfl⟩))
    · simp only [ha, decide_false, ih hl, mem_cons]
      constructor
      · rintro ⟨hr, hra⟩
        exact ⟨.inr hr, hra⟩
      · rintro ⟨rfl | hr, hra⟩
        · exact absurd hra ha
        · exact ⟨hr, hra⟩

theorem position_eq_some_iff {s : VmRegions} (hs : s.WellFormed) :
    s.position a = some p ↔ ∃ r ∈ s.regions, r.seg.Has a.toNat ∧ r.Backed ∧ r.position a = p := by
  unfold VmRegions.position
  rw [bind_eq_some_iff]
  constructor
  · rintro ⟨r, hr, hp⟩
    obtain ⟨hmem, ha⟩ := (find_region_iff hs.separated).mp hr
    split at hp
    · rename_i hb
      exact ⟨r, hmem, ha, hb, some.inj hp⟩
    · cases hp
  · rintro ⟨r, hmem, ha, hb, hp⟩
    exact ⟨r, (find_region_iff hs.separated).mpr ⟨hmem, ha⟩, by rw [if_pos hb, hp]⟩

/-- `p` covers a part of `r`, for the same object and with the same positions. -/
structure VmRegion.Part (p r : VmRegion) : Prop where
  within : p.seg.Within r.seg
  objectType : p.objectType = r.objectType
  objectId : p.objectId = r.objectId
  position : r.Backed → ∀ a, p.position a = r.position a

theorem VmRegion.Part.refl (r : VmRegion) : r.Part r :=
  ⟨⟨le_refl _, le_refl _⟩, rfl, rfl, fun _ _ => rfl⟩

theorem VmRegion.Part.backed {p r : VmRegion} (h : p.Part r) : p.Backed ↔ r.Backed := by
  unfold VmRegion.Backed
  rw [h.objectType, h.objectId]

theorem VmRegion.Part.trans {p q r : VmRegion} (h : p.Part q) (h' : q.Part r) : p.Part r where
  within := ⟨h'.within.1.trans h.within.1, h.within.2.trans h'.within.2⟩
  objectType := h.objectType.trans h'.objectType
  objectId := h.objectId.trans h'.objectId
  position hr a := (h.position (h'.backed.mpr hr) a).trans (h'.position hr a)

variable {slab : Nat → Bool} {base len : U64} {prot : U32} {s s' : VmRegions}

/-! ## Additions -/

/-- Every region is still there, perhaps as a part of a larger one. -/
def Grown (l l' : List VmRegion) : Prop := ∀ r ∈ l, ∃ r' ∈ l', r.Part r'

theorem grown_append (l : List VmRegion) (r : VmRegion) : Grown l (l ++ [r]) :=
  fun t ht => ⟨t, mem_append_left _ ht, .refl t⟩

theorem grown_replace {pre post} (h : r.Part r') :
    Grown (pre ++ r :: post) (pre ++ r' :: post) := by
  intro t ht
  rcases mem_append.mp ht with ht | ht
  · exact ⟨t, mem_append_left _ ht, .refl t⟩
  rcases mem_cons.mp ht with rfl | ht
  · exact ⟨r', by simp, h⟩
  · exact ⟨t, by simp [ht], .refl t⟩

theorem appendLoop_grown
    (hm : vmRangeInvalid m.base m.len = false) (hsep : Separated (segs (visited ++ rest)))
    (h : appendLoop m visited rest = some l') : Grown (visited ++ rest) l' := by
  induction rest generalizing visited with
  | nil => cases h
  | cons r rest ih =>
    simp only [appendLoop] at h
    split at h
    · rename_i hc
      simp only [Bool.and_eq_true, beq_iff_eq] at hc
      obtain ⟨⟨⟨_, hend⟩, _⟩, _⟩ := hc
      obtain rfl := some.inj h
      have hm' := vmRangeInvalid_eq_false.mp hm
      have hsum : r.base + (r.len + m.len) = m.base + m.len := by
        rw [← hend, VmRegion.regionEnd]
        ac_rfl
      refine grown_replace ⟨⟨le_refl _, ?_⟩, rfl, rfl, fun _ _ => rfl⟩
      show r.regionEnd.toNat ≤ (r.base + (r.len + m.len)).toNat
      rw [hsum, hend]
      exact le_of_lt hm'
    · have hl : visited ++ [r] ++ rest = visited ++ r :: rest := by simp
      rw [← hl] at hsep ⊢
      exact ih hsep h

theorem extendLoop_grown (h : extendLoop m visited rest = some l') : Grown (visited ++ rest) l' := by
  induction rest generalizing visited with
  | nil => cases h
  | cons r rest ih =>
    have hl : visited ++ [r] ++ rest = visited ++ r :: rest := by simp
    simp only [extendLoop] at h
    split at h
    swap
    · exact hl ▸ ih h
    rename_i hc
    simp only [Bool.and_eq_true, decide_eq_true_eq, vmRegionMetadataMatches_iff] at hc
    obtain ⟨⟨⟨hinfo, hoffset⟩, _⟩, _⟩ := hc
    split at h
    · exact hl ▸ ih h
    obtain rfl := some.inj h
    refine grown_replace ⟨⟨?_, ?_⟩, rfl, rfl, fun hb a => ?_⟩
    · simp only [VmRegion.seg, toNat_minU64]
      omega
    · simp only [VmRegion.seg, VmRegion.regionEnd, add_sub_cancel, toNat_maxU64]
      omega
    · -- a new base comes with an offset that has been compared with the old one
      have hid : r.objectId = m.objectId := congrArg VmMeta.objectId hinfo
      have htype : r.objectType = m.objectType := congrArg VmMeta.objectType hinfo
      unfold VmRegion.position
      by_cases hbase : minU64 m.base r.base = r.base
      · rw [if_pos hbase, hbase]
      have hlt : m.base.toNat < r.base.toNat := by
        rwa [minU64_eq_right_iff, not_not] at hbase
      have hnew : minU64 m.base r.base = m.base := by
        rw [← BitVec.toNat_inj, toNat_minU64]
        omega
      rw [if_neg hbase, hnew]
      unfold vmRegionPrependOffsetMatches at hoffset
      rw [if_neg] at hoffset
      swap
      · push Not
        exact ⟨BitVec.not_le.mpr (BitVec.lt_def.mpr hlt), hid ▸ hb.1, htype ▸ hb.2⟩
      simp only [Bool.and_eq_true, beq_iff_eq] at hoffset
      rw [← hoffset.1]
      bv_omega

theorem taskAddVmMapping_grown (hs : s.WellFormed)
    (h : taskAddVmMapping slab s m = (ok, s')) : Grown s.regions s'.regions := by
  have hrefl : Grown s.regions s.regions := fun r hr => ⟨r, hr, .refl r⟩
  unfold taskAddVmMapping at h
  split at h
  · cases h
    exact hrefl
  rename_i hv
  cases ha : appendLoop m [] s.regions with
  | some l' =>
    rw [ha] at h
    cases h
    have hsep : Separated (segs ([] ++ s.regions)) := hs.separated
    exact appendLoop_grown (Bool.eq_false_iff.mpr hv) hsep ha
  | none =>
    simp only [ha] at h
    split at h
    · cases h
      exact hrefl
    split at h
    · cases h
      exact hrefl
    · cases h
      exact grown_append _ _

theorem taskAddOrExtendVmMapping_grown (hs : s.WellFormed)
    (h : taskAddOrExtendVmMapping slab s m = (ok, s')) : Grown s.regions s'.regions := by
  unfold taskAddOrExtendVmMapping at h
  split at h
  · cases h
    exact fun r hr => ⟨r, hr, .refl r⟩
  cases hx : extendLoop m [] s.regions with
  | some l' =>
    rw [hx] at h
    cases h
    exact extendLoop_grown hx
  | none =>
    rw [hx] at h
    exact taskAddVmMapping_grown hs h

theorem taskAddVmMapping_failed (h : taskAddVmMapping slab s m = (false, s')) :
    s' = s := by
  unfold taskAddVmMapping at h
  split at h
  · cases h
    rfl
  split at h
  · cases h
  split at h
  · cases h
    rfl
  split at h
  · cases h
    rfl
  · cases h

theorem taskAddOrExtendVmMapping_failed
    (h : taskAddOrExtendVmMapping slab s m = (false, s')) : s' = s := by
  unfold taskAddOrExtendVmMapping at h
  split at h
  · cases h
    rfl
  split at h
  · cases h
  · exact taskAddVmMapping_failed h

/-! ## Cuts -/

/-- Every region is a part of one that was there before. -/
def Cut (l l' : List VmRegion) : Prop := ∀ r' ∈ l', ∃ r ∈ l, r'.Part r

theorem outsideOf_part {p r : VmRegion} (hov : (addrRange base len).Overlaps r.seg)
    (hkeep : r.Backed → r.regionEnd.toNat ≤ (base + len).toNat) (hp : p ∈ outsideOf base len r) :
    p.Part r := by
  refine ⟨outsideOf_within hov hp, ?_, ?_, fun hb a => ?_⟩
  · exact congrArg VmMeta.objectType (outsideOf_same hp).2.2
  · exact congrArg VmMeta.objectId (outsideOf_same hp).2.2
  · rcases mem_outsideOf.mp hp with ⟨_, rfl⟩ | ⟨hlt, -⟩
    · rfl
    · exact absurd (hkeep hb) (Nat.not_le.mpr hlt)

theorem protectedPieces_part {p r : VmRegion} (hov : (addrRange base len).Overlaps r.seg)
    (hkeep : r.Backed → r.seg.Within ⟨base.toNat, (base + len).toNat, r.info⟩)
    (hp : p ∈ protectedPieces base len prot r) : p.Part r := by
  rcases mem_cons.mp hp with rfl | hp
  swap
  · exact outsideOf_part hov (fun hb => (hkeep hb).2) hp
  refine ⟨protectedPieces_within prot hov hp, rfl, rfl, fun hb a => ?_⟩
  have hbase : maxU64 base r.base = r.base := by
    rw [maxU64_eq_right_iff]
    exact Nat.not_lt.mpr (hkeep hb).1
  show r.offset + (a - maxU64 base r.base) = _
  rw [hbase]
  rfl

/-! ## Runs -/

/-- The call cuts no region with a backing object so that a piece starts behind the old base. -/
def VmCall.KeepsBases (s : VmRegions) : VmCall → Prop
  | .add _ | .addOrExtend _ => True
  | .remove base len => ∀ r ∈ s.regions, r.Backed → regionsOverlap base len r.base r.len = true →
      r.regionEnd ≤ base + len
  | .protect base len _ => ∀ r ∈ s.regions, r.Backed → regionsOverlap base len r.base r.len = true →
      base ≤ r.base ∧ r.regionEnd ≤ base + len

/-- A call that returns, whatever the allocator does meanwhile. -/
def VmCall.Returns (s : VmRegions) (c : VmCall) (s' : VmRegions) : Prop :=
  ∃ slab ok, c.exec slab s = (ok, s')

theorem taskRemoveVmRegion_cut (hkeep : VmCall.KeepsBases s (.remove base len))
    (h : taskRemoveVmRegion slab s base len = (ok, s')) : Cut s.regions s'.regions := by
  have hrefl : ∀ r ∈ s.regions, ∃ t ∈ s.regions, r.Part t := fun r hr => ⟨r, hr, .refl r⟩
  unfold taskRemoveVmRegion at h
  split at h
  · cases h
    exact hrefl
  refine removeLoop_forall ?_ hrefl h
  rintro r ⟨t, ht, hpart⟩ hov p hp
  refine ⟨t, ht, (outsideOf_part hov (fun hb => ?_) hp).trans hpart⟩
  have hmeets : (addrRange base len).Overlaps t.seg :=
    ⟨hov.1.trans_le hpart.within.2, hpart.within.1.trans_lt hov.2⟩
  exact hpart.within.2.trans (hkeep t ht (hpart.backed.mp hb) (regionsOverlap_iff.mpr hmeets))

theorem taskProtectVmRegion_cut (hkeep : VmCall.KeepsBases s (.protect base len prot))
    (h : taskProtectVmRegion slab s base len prot = (ok, s')) : Cut s.regions s'.regions := by
  have hrefl : ∀ r ∈ s.regions, ∃ t ∈ s.regions, r.Part t := fun r hr => ⟨r, hr, .refl r⟩
  unfold taskProtectVmRegion at h
  split at h
  · cases h
    exact hrefl
  split at h
  · cases h
    exact hrefl
  refine protectLoop_forall ?_ hrefl h
  rintro r ⟨t, ht, hpart⟩ hov p hp
  refine ⟨t, ht, (protectedPieces_part hov (fun hb => ?_) hp).trans hpart⟩
  have hmeets : (addrRange base len).Overlaps t.seg :=
    ⟨hov.1.trans_le hpart.within.2, hpart.within.1.trans_lt hov.2⟩
  obtain ⟨hlo, hhi⟩ := hkeep t ht (hpart.backed.mp hb) (regionsOverlap_iff.mpr hmeets)
  exact ⟨le_trans hlo hpart.within.1, hpart.within.2.trans hhi⟩

theorem taskProtectVmRegion_wellFormed (hs : s.WellFormed)
    (h : taskProtectVmRegion slab s base len prot = (ok, s')) : s'.WellFormed := by
  cases ok with
  | true => exact (taskProtectVmRegion_map hs h).2.2.1
  | false =>
    unfold taskProtectVmRegion at h
    split at h
    · cases h
      exact hs
    rename_i hv
    split at h
    · cases h
      exact hs
    · exact ⟨(protectLoop_failed (vmRangeInvalid_eq_false.mp (Bool.eq_false_iff.mpr hv))
        (protectCost_le base len s.regions) (protecting_start hs) h).1,
        protectLoop_forall (fun _ hr _ => protectedPieces_coherent prot hr) hs.coherent h⟩

theorem VmCall.Returns.wellFormed {c : VmCall} (hs : s.WellFormed) (h : c.Returns s s') :
    s'.WellFormed := by
  obtain ⟨slab, ok, h⟩ := h
  cases ok with
  | true => exact (VmCall.Succeeds.updates hs ⟨slab, h⟩).1
  | false =>
    cases c with
    | add m => exact taskAddVmMapping_failed h ▸ hs
    | addOrExtend m => exact taskAddOrExtendVmMapping_failed h ▸ hs
    | remove base len =>
      have hl := taskRemoveVmRegion_failed hs h
      exact ⟨hl ▸ hs.separated, hl ▸ hs.coherent⟩
    | protect base len prot => exact taskProtectVmRegion_wellFormed hs h

theorem mapped_region (h : (s.map a).isSome = true) :
    ∃ r ∈ s.regions, r.seg.Has a.toNat := by
  by_contra hno
  push Not at hno
  have hnone : s.map a = none := lookup_eq_none_iff.mpr fun x hx => by
    obtain ⟨r, hr, rfl⟩ := mem_segs.mp hx
    exact hno r hr
  rw [hnone] at h
  cases h

theorem Grown.position (hs : s.WellFormed) (hs' : s'.WellFormed)
    (h : Grown s.regions s'.regions) (hp : s.position a = some p) : s'.position a = some p := by
  obtain ⟨r, hr, ha, hb, rfl⟩ := (position_eq_some_iff hs).mp hp
  obtain ⟨r', hr', hpart⟩ := h r hr
  have hb' := hpart.backed.mp hb
  exact (position_eq_some_iff hs').mpr ⟨r', hr', hpart.within.has ha, hb', (hpart.position hb' a).symm⟩

theorem Cut.position (hs : s.WellFormed) (hs' : s'.WellFormed)
    (h : Cut s.regions s'.regions) (hp : s.position a = some p) (hmapped : (s'.map a).isSome = true) :
    s'.position a = some p := by
  obtain ⟨r, hr, ha, hb, rfl⟩ := (position_eq_some_iff hs).mp hp
  obtain ⟨r', hr', ha'⟩ := mapped_region hmapped
  obtain ⟨t, ht, hpart⟩ := h r' hr'
  -- the address was in one region only
  have htr : t = r := by
    have h₁ := (find_region_iff hs.separated).mpr ⟨ht, hpart.within.has ha'⟩
    have h₂ := (find_region_iff hs.separated).mpr ⟨hr, ha⟩
    exact some.inj (h₁.symm.trans h₂)
  subst htr
  exact (position_eq_some_iff hs').mpr ⟨r', hr', ha', hpart.backed.mpr hb, hpart.position hb a⟩

/-- **One call** leaves the position of an address that stays mapped. -/
theorem VmCall.Returns.position {c : VmCall} (hs : s.WellFormed) (hk : c.KeepsBases s)
    (h : c.Returns s s') (hmapped : (s'.map a).isSome = true) (hp : s.position a = some p) :
    s'.position a = some p := by
  have hs' := h.wellFormed hs
  obtain ⟨slab, ok, h⟩ := h
  cases c with
  | add m => exact (taskAddVmMapping_grown hs h).position hs hs' hp
  | addOrExtend m => exact (taskAddOrExtendVmMapping_grown hs h).position hs hs' hp
  | remove base len => exact (taskRemoveVmRegion_cut hk h).position hs hs' hp hmapped
  | protect base len prot => exact (taskProtectVmRegion_cut hk h).position hs hs' hp hmapped

/-- **The file position of an address does not change while the address stays mapped**, in every run of
calls, failing ones too, that cut regions with a backing object only at their ends. -/
theorem filePosition_stable {a p : U64} {calls : List VmCall} (hs : s.WellFormed)
    (h : Run (fun s c s' => VmCall.KeepsBases s c ∧ VmCall.Returns s c s' ∧ (s'.map a).isSome = true)
      s calls s') (hp : s.position a = some p) : s'.position a = some p := by
  have hinv : s'.WellFormed ∧ s'.position a = some p :=
    h.invariant (P := fun s => s.WellFormed ∧ s.position a = some p)
      (fun s c s' ⟨hs, hp⟩ ⟨hk, hret, hmapped⟩ => ⟨hret.wellFormed hs, hret.position hs hk hmapped hp⟩)
      ⟨hs, hp⟩
  exact hinv.2

/-- Four pages of the object 5 from its byte 0x2000 on. -/
def fileMapping : VmMapping := ⟨0x10000, 0x4000, 1, 1, .mmap, .file, 5, 0x2000⟩

/-- The first page is unmapped, and the third one now stands for what the second one stood for. -/
theorem filePosition_moved :
    let s : VmRegions := ⟨[fileMapping.region], 32⟩
    let s' := (taskRemoveVmRegion (fun _ => true) s 0x10000 0x1000).2
    s.position 0x12000 = some 0x4000 ∧ s'.position 0x12000 = some 0x3000 ∧
      s.position 0x11000 = some 0x3000 := by
  decide +kernel

theorem filePosition_stable_trim :
    ∃ s', Run (fun s c s' => VmCall.KeepsBases s c ∧ VmCall.Returns s c s' ∧
        (s'.map 0x12000).isSome = true) ⟨[fileMapping.region], 32⟩
      [.remove 0x13000 0x1000, .add ⟨0x13000, 0x2000, 1, 1, .mmap, .file, 5, 0x5000⟩] s' ∧
      s'.regions.length = 1 ∧ s'.position 0x12000 = some 0x4000 := by
  have hs : (⟨[fileMapping.region], 32⟩ : VmRegions).WellFormed :=
    ⟨⟨by decide, by simp⟩, by unfold VmRegion.Coherent; decide⟩
  have hrun : Run (fun s c s' => VmCall.KeepsBases s c ∧ VmCall.Returns s c s' ∧
      (s'.map 0x12000).isSome = true) ⟨[fileMapping.region], 32⟩
      [.remove 0x13000 0x1000, .add ⟨0x13000, 0x2000, 1, 1, .mmap, .file, 5, 0x5000⟩] _ :=
    .cons ⟨by unfold VmCall.KeepsBases; decide, ⟨fun _ => true, _, rfl⟩, rfl⟩
      (.cons ⟨trivial, ⟨fun _ => true, _, rfl⟩, rfl⟩ (.nil _))
  exact ⟨_, hrun, rfl, filePosition_stable hs hrun (by decide)⟩

end Bunix.Kernel
