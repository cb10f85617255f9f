import Bunix.Kernel.VmRegionRun

/-! # Region calls that fail

A removal that cannot get a slot has not changed anything: the entry it has to cut in two is the only
one that meets the range. A change of protection that cannot get a slot has already cut an entry, and
the part it wanted to append is lost.
-/
namespace Bunix.Kernel

open Bunix.Lib Bunix.Lib.Segment List

variable {slab : Nat → Bool} {base len : U64} {prot : U32} {s s' : VmRegions} {fuel : Nat}

/-! ## Removing -/

/-- The entry reaches over both ends of the range. -/
def VmRegion.Surrounds (r : VmRegion) (base len : U64) : Prop :=
  r.base.toNat < base.toNat ∧ (base + len).toNat < r.regionEnd.toNat

theorem VmRegion.Surrounds.overlaps {r t : VmRegion} (h : r.Surrounds base len)
    (ht : (addrRange base len).Overlaps t.seg) : t.seg.Overlaps r.seg := by
  obtain ⟨h₁, h₂⟩ : base.toNat < t.regionEnd.toNat ∧ t.base.toNat < (base + len).toNat := ht
  exact ⟨h₂.trans h.2, h.1.trans h₁⟩

theorem VmRegion.Surrounds.meets {r : VmRegion} (h : r.Surrounds base len)
    (hv : base.toNat < (base + len).toNat) : (addrRange base len).Overlaps r.seg :=
  ⟨hv.trans h.2, h.1.trans hv⟩

theorem removeLoop_succeeds {visited rest capacity}
    (hv : base.toNat < (base + len).toNat) (hf : removeCost base len rest < fuel)
    (hrest : ∀ r ∈ rest, ¬ r.Surrounds base len) :
    (removeLoop slab base len fuel visited rest capacity).1 = true := by
  induction fuel generalizing visited rest capacity with
  | zero => exact absurd hf (Nat.not_lt_zero _)
  | succ fuel ih =>
    cases rest with
    | nil => rfl
    | cons r rest =>
      have hpos := removeCost_tail_lt base len r rest
      cases removeLoop_round slab base len visited r rest capacity with
      | skip clear loop =>
        rw [loop]
        exact ih (by omega) fun t ht => hrest t (mem_cons_of_mem _ ht)
      | cut meets kept appended rest' capacity' pieces others cost loop =>
        rw [loop]
        refine ih (by omega) fun t ht => ?_
        rcases mem_append.mp (others.mem_iff.mp ht) with ht | ht
        · exact hrest t (mem_cons_of_mem _ ht)
        · exact fun hs => outsideOf_clear (pieces ▸ mem_append_right _ ht) (hs.meets hv)
      | fail meets lo hi loop => exact absurd ⟨lo, hi⟩ (hrest r mem_cons_self)

theorem removeLoop_failed {visited rest : List VmRegion} {capacity : Nat}
    (hv : base.toNat < (base + len).toNat) (hf : removeCost base len rest < fuel)
    (hsep : Separated (segs (visited ++ rest)))
    (h : removeLoop slab base len fuel visited rest capacity = (false, s')) :
    s'.regions = visited ++ rest := by
  induction fuel generalizing visited rest with
  | zero => exact absurd hf (Nat.not_lt_zero _)
  | succ fuel ih =>
    cases rest with
    | nil => cases h
    | cons r rest =>
      have hpos := removeCost_tail_lt base len r rest
      cases removeLoop_round slab base len visited r rest capacity with
      | skip clear loop =>
        have hl : visited ++ [r] ++ rest = visited ++ r :: rest := by simp
        rw [loop] at h
        rw [← hl] at hsep ⊢
        exact ih (by omega) hsep h
      | cut meets kept appended rest' capacity' pieces others cost loop =>
        -- the others are apart from an entry that meets the range
        have hapart := (separated_cons.mp (separated_middle hsep)).2.2
        have hrest : ∀ t ∈ rest', ¬ t.Surrounds base len := by
          intro t ht hs
          rcases mem_append.mp (others.mem_iff.mp ht) with ht | ht
          · exact hapart t.seg (mem_segs.mpr ⟨t, mem_append_right _ ht, rfl⟩) (hs.overlaps meets)
          · exact outsideOf_clear (pieces ▸ mem_append_right _ ht) (hs.meets hv)
        have htrue := congrArg Prod.fst (loop fuel ▸ h)
        rw [removeLoop_succeeds hv (by omega) hrest] at htrue
        cases htrue
      | fail meets lo hi loop =>
        rw [loop] at h
        cases h
        rfl

theorem taskRemoveVmRegion_failed (hs : s.WellFormed)
    (h : taskRemoveVmRegion slab s base len = (false, s')) : s'.regions = s.regions := by
  unfold taskRemoveVmRegion at h
  split at h
  · cases h
    rfl
  rename_i hv
  have hsep : Separated (segs ([] ++ s.regions)) := hs.separated
  exact removeLoop_failed (vmRangeInvalid_eq_false.mp (Bool.eq_false_iff.mpr hv))
    (removeCost_le base len s.regions) hsep h

/-! ## Changing the protection -/

/-- How many entries a change of protection adds: one for each end of the range inside an entry. -/
def protectCuts (base len : U64) (regions : List VmRegion) : Nat :=
  (regions.map fun r =>
    if regionsOverlap base len r.base r.len then (outsideOf base len r).length else 0).sum

theorem protectCuts_append (l l' : List VmRegion) :
    protectCuts base len (l ++ l') = protectCuts base len l + protectCuts base len l' := by
  simp [protectCuts]

theorem protectCuts_cons (r : VmRegion) (l : List VmRegion) : protectCuts base len (r :: l) =
    (if regionsOverlap base len r.base r.len then (outsideOf base len r).length else 0) +
      protectCuts base len l := by
  simp [protectCuts]

theorem protectCuts_eq_zero (h : ∀ p ∈ l, sticksOut base len p = false) :
    protectCuts base len l = 0 := by
  induction l with
  | nil => rfl
  | cons p l ih =>
    rw [protectCuts_cons, ih fun q hq => h q (mem_cons_of_mem _ hq)]
    split
    · rename_i hov
      have hin := h p mem_cons_self
      simp only [sticksOut, hov, Bool.true_and, Bool.not_eq_false', Bool.and_eq_true, beq_iff_eq] at hin
      simp [outsideOf, hin.1, hin.2]
    · rfl

theorem protectLoop_fst {visited rest capacity} (hf : protectCost base len rest < fuel) :
    (protectLoop slab base len prot fuel visited rest capacity).1 =
      roomFor slab capacity (visited.length + rest.length) (protectCuts base len rest) := by
  induction fuel generalizing visited rest capacity with
  | zero => exact absurd hf (Nat.not_lt_zero _)
  | succ fuel ih =>
    cases rest with
    | nil => rfl
    | cons r rest =>
      have hpos := protectCost_tail_lt base len r rest
      rw [protectCuts_cons]
      cases protectLoop_round slab base len prot visited r rest capacity with
      | skip clear loop =>
        rw [loop, ih (by omega), if_neg (by simp [regionsOverlap_eq_false.mpr clear]), Nat.zero_add]
        simp only [length_append, length_cons, length_nil]
        congr 1
        omega
      | cut meets kept appended capacity' pieces done cost room loop =>
        have hcuts : protectCuts base len appended = 0 := protectCuts_eq_zero fun p hp =>
          protectedPieces_not_sticksOut (pieces.mem_iff.mp (mem_cons_of_mem _ hp))
        have hlen := pieces.length_eq
        rw [loop, ih (by omega), if_pos (regionsOverlap_iff.mpr meets), length_cons, room,
          protectCuts_append, hcuts]
        simp only [protectedPieces, length_append, length_cons, length_nil] at hlen ⊢
        congr 1
        omega
      | fail meets kept piece left pieces regions room loop =>
        rw [loop, if_pos (regionsOverlap_iff.mpr meets), length_cons, room]

section Lost

variable {visited rest kept : List VmRegion} {r piece : VmRegion} {capacity : Nat}
  (hi : Protecting base len prot s visited (r :: rest)) (hv : base.toNat < (base + len).toNat)
  (hov : (addrRange base len).Overlaps r.seg)
  (hpieces : (piece :: kept).Subperm (protectedPieces base len prot r))
  (hleft : s'.regions.Perm (kept ++ (visited ++ rest)))

include hi hv hov hpieces

theorem piecesOf_subperm : PiecesOf r (piece :: kept) := by
  have hr : r.base.toNat < r.regionEnd.toNat := hi.separated.nonempty r.seg (by simp)
  have hall := protectedPieces_of prot hv hr hov
  obtain ⟨l, hl, hsub⟩ := hpieces
  have hmem : ∀ p ∈ piece :: kept, p ∈ protectedPieces base len prot r := fun p hp =>
    hsub.subset (hl.mem_iff.mpr hp)
  exact ⟨hall.separated.subperm ⟨segs l, segs_perm hl, hsub.map VmRegion.seg⟩,
    fun p hp => hall.within p (hmem p hp)⟩

include hleft

theorem separated_left : Separated (segs s'.regions) := by
  have hps := piecesOf_subperm hi hv hov hpieces
  have hkept : PiecesOf r kept :=
    ⟨(separated_cons.mp hps.separated).2.1, fun p hp => hps.within p (.tail _ hp)⟩
  exact (hkept.replace hi.separated hleft).1

theorem map_lost : (s.map piece.base).isSome = true ∧ s'.map piece.base = none := by
  have hsep := separated_middle hi.separated
  have hpiecesOf := piecesOf_subperm hi hv hov hpieces
  have hps := separated_cons.mp hpiecesOf.separated
  have hself : piece.seg.Has piece.base.toNat := ⟨le_refl _, hps.1⟩
  have ha : r.seg.Has piece.base.toNat := (hpiecesOf.within piece mem_cons_self).has hself
  constructor
  · have hnow : lookup (segs (visited ++ r :: rest)) piece.base.toNat = some r.info := by
      rw [lookup_perm hi.separated (segs_perm perm_middle), segs_cons, Segment.lookup_cons, if_pos ha]
      rfl
    have hsame := hi.same piece.base.toNat
    rw [hnow] at hsame
    rcases hsame with hsame | ⟨_, hsame⟩
    · rw [VmRegions.map, ← hsame]
      rfl
    rw [VmRegions.map]
    cases hs : lookup (segs s.regions) piece.base.toNat with
    | none =>
      rw [hs] at hsame
      cases hsame
    | some i => rfl
  · refine lookup_eq_none_iff.mpr fun x hx hxa => ?_
    obtain ⟨t, ht, rfl⟩ := mem_segs.mp hx
    have hmem : t.seg ∈ segs (kept ++ (visited ++ rest)) := mem_segs.mpr ⟨t, hleft.mem_iff.mp ht, rfl⟩
    rw [segs_append] at hmem
    rcases mem_append.mp hmem with ht | ht
    · exact hps.2.2 t.seg ht (overlaps_of_has hself hxa)
    · exact (separated_cons.mp hsep).2.2 t.seg ht (overlaps_of_has ha hxa)

end Lost

theorem protectLoop_failed {visited rest capacity}
    (hv : base.toNat < (base + len).toNat) (hf : protectCost base len rest < fuel)
    (hi : Protecting base len prot s visited rest)
    (h : protectLoop slab base len prot fuel visited rest capacity = (false, s')) :
    Separated (segs s'.regions) ∧ ∃ a : U64, (s.map a).isSome = true ∧ s'.map a = none := by
  induction fuel generalizing visited rest capacity with
  | zero => exact absurd hf (Nat.not_lt_zero _)
  | succ fuel ih =>
    cases rest with
    | nil => cases h
    | cons r rest =>
      have hpos := protectCost_tail_lt base len r rest
      cases protectLoop_round slab base len prot visited r rest capacity with
      | skip clear loop => exact ih (by omega) (hi.skip clear) (loop fuel ▸ h)
      | cut meets kept appended capacity' pieces done cost room loop =>
        exact ih (by omega) (hi.round hv meets pieces done) (loop fuel ▸ h)
      | fail meets kept piece left pieces regions room loop =>
        rw [loop] at h
        cases h
        exact ⟨separated_left hi hv meets pieces regions, _, map_lost hi hv meets pieces regions⟩

theorem protecting_start (hs : s.WellFormed) : Protecting base len prot s [] s.regions :=
  ⟨hs.separated, by simp, fun _ => .inl rfl⟩

/-- **A failed removal leaves the address map as it was; a failed change of protection does so exactly
if it does not fail for want of a slot.** -/
theorem regionUpdate_atomic_iff (slab : Nat → Bool) (base len : U64) (prot : U32) (hs : s.WellFormed) :
    (∀ s', taskRemoveVmRegion slab s base len = (false, s') → s'.map = s.map) ∧
    ((∀ s', taskProtectVmRegion slab s base len prot = (false, s') → s'.map = s.map) ↔
      vmRangeInvalid base len = true ∨ (∃ a : U64, (addrRange base len).Has a.toNat ∧ s.map a = none) ∨
      roomFor slab s.capacity s.regions.length (protectCuts base len s.regions) = true) := by
  constructor
  · intro s' h
    have hl := taskRemoveVmRegion_failed hs h
    funext a
    rw [VmRegions.map, VmRegions.map, hl]
  cases hv : vmRangeInvalid base len with
  | true =>
    refine iff_of_true (fun s' h => ?_) (.inl rfl)
    simp only [taskProtectVmRegion, hv, if_true] at h
    cases h
    rfl
  | false =>
    cases hc : taskVmRangeIsCoveredLocked s base len with
    | false =>
      refine iff_of_true (fun s' h => ?_) (.inr (.inl ?_))
      · simp only [taskProtectVmRegion, hv, hc, Bool.not_false, Bool.false_eq_true, if_true, if_false] at h
        cases h
        rfl
      · have hnot := mt (taskVmRangeIsCoveredLocked_iff s base len).mpr (by simp [hc])
        push Not at hnot
        obtain ⟨a, ha, hnone⟩ := hnot
        exact ⟨a, ha, by simpa using hnone⟩
    | true =>
      have hrun : taskProtectVmRegion slab s base len prot =
          protectLoop slab base len prot (3 * s.regions.length + 1) [] s.regions s.capacity := by
        simp only [taskProtectVmRegion, hv, hc, Bool.not_true, Bool.false_eq_true, if_false]
      have hfst : (taskProtectVmRegion slab s base len prot).1 =
          roomFor slab s.capacity s.regions.length (protectCuts base len s.regions) := by
        rw [hrun, protectLoop_fst (protectCost_le base len s.regions)]
        simp
      have hcovered := (taskVmRangeIsCoveredLocked_iff s base len).mp hc
      constructor
      · intro hatomic
        refine .inr (.inr ?_)
        rw [← hfst]
        by_contra hfalse
        have hfail : taskProtectVmRegion slab s base len prot =
            (false, (taskProtectVmRegion slab s base len prot).2) :=
          Prod.ext (Bool.eq_false_iff.mpr hfalse) rfl
        have hmap := hatomic _ hfail
        rw [hrun] at hfail hmap
        obtain ⟨-, a, hsome, hnone⟩ := protectLoop_failed (vmRangeInvalid_eq_false.mp hv)
          (protectCost_le base len s.regions) (protecting_start hs) hfail
        rw [hmap] at hnone
        rw [hnone] at hsome
        cases hsome
      · rintro (hbad | ⟨a, ha, hnone⟩ | hroom) s' h
        · cases hbad
        · have hsome := hcovered a ha
          rw [hnone] at hsome
          cases hsome
        · rw [h] at hfst
          exact absurd (hfst.trans hroom) (by simp)

/-- A task whose array is full: 32 regions of three pages. -/
def fullRegions : VmRegions where
  regions := (range 32).map fun i =>
    VmMapping.region ⟨0x10000 * BitVec.ofNat 64 (i + 1), 0x3000, 3, 3, .mmap, .anon, 0, 0⟩
  capacity := 32

theorem fullRegions_wellFormed : fullRegions.WellFormed where
  separated := ⟨by decide +kernel, by unfold Overlaps; decide +kernel⟩
  coherent := by unfold VmRegion.Coherent; decide +kernel

/-- The middle page of the first region is made read-only, and there is no memory for a larger array. -/
theorem regionUpdate_not_atomic :
    fullRegions.map 0x11000 = some ⟨3, .mmap, 3, .anon, 0⟩ ∧
    (taskProtectVmRegion (fun _ => false) fullRegions 0x11000 0x1000 1).1 = false ∧
    (taskProtectVmRegion (fun _ => false) fullRegions 0x11000 0x1000 1).2.map 0x11000 = none ∧
    (taskProtectVmRegion (fun _ => false) fullRegions 0x11000 0x1000 1).2.map 0x12000 = none := by
  decide +kernel

theorem regionUpdate_atomic_iff_full :
    ∃ s', taskRemoveVmRegion (fun _ => false) fullRegions 0x11000 0x1000 = (false, s') ∧
      s'.map = fullRegions.map :=
  ⟨_, rfl, (regionUpdate_atomic_iff (fun _ => false) 0x11000 0x1000 1 fullRegions_wellFormed).1 _ rfl⟩

/-! ## When a call succeeds -/

theorem removeLoop_grows {visited rest capacity} (hslab : ∀ n, slab n = true)
    (hf : removeCost base len rest < fuel) :
    (removeLoop slab base len fuel visited rest capacity).1 = true := by
  induction fuel generalizing visited rest capacity with
  | zero => exact absurd hf (Nat.not_lt_zero _)
  | succ fuel ih =>
    cases rest with
    | nil => rfl
    | cons r rest =>
      have hpos := removeCost_tail_lt base len r rest
      cases removeLoop_round slab base len visited r rest capacity with
      | skip clear loop | cut meets kept appended rest' capacity' pieces others cost loop =>
        rw [loop]
        exact ih (by omega)
      | fail meets lo hi loop =>
        -- with a slot for the second piece the array would be longer after the round
        obtain ⟨_, hg⟩ : ∃ c,
            taskGrowVmRegionsLocked slab capacity (visited.length + rest.length + 2) = some c := by
          unfold taskGrowVmRegionsLocked
          split <;> simp [hslab]
        have hlen := congrArg (·.2.regions.length) (loop 0)
        simp [removeLoop, regionsOverlap_iff.mpr meets, mt maxU64_eq_right_iff.mp (not_not.mpr lo),
          mt minU64_eq_right_iff.mp (not_not.mpr hi), hg] at hlen

/-- **When the calls succeed**, whatever the array holds. A removal fails only for want of a slot for the
second piece of an entry; a change of protection needs a mapped range and a slot for each cut. -/
theorem regionUpdate_succeeds (slab : Nat → Bool) (s : VmRegions) (base len : U64) (prot : U32) :
    ((taskRemoveVmRegion slab s base len).1 = false → vmRangeInvalid base len = true ∨
      (∃ r ∈ s.regions, r.Surrounds base len) ∧ ∃ n, slab n = false) ∧
    ((taskProtectVmRegion slab s base len prot).1 = true ↔ vmRangeInvalid base len = false ∧
      (∀ a : U64, (addrRange base len).Has a.toNat → (s.map a).isSome = true) ∧
      roomFor slab s.capacity s.regions.length (protectCuts base len s.regions) = true) := by
  rw [← taskVmRangeIsCoveredLocked_iff, taskRemoveVmRegion, taskProtectVmRegion]
  cases hv : vmRangeInvalid base len with
  | true => simp
  | false =>
    have hremove := removeCost_le base len s.regions
    constructor
    · rw [if_neg (by simp)]
      intro hfail
      refine .inr ⟨?_, ?_⟩
      all_goals
        by_contra hnot
        push Not at hnot
      · rw [removeLoop_succeeds (vmRangeInvalid_eq_false.mp hv) hremove hnot] at hfail
        cases hfail
      · rw [removeLoop_grows (by simpa using hnot) hremove] at hfail
        cases hfail
    · cases taskVmRangeIsCoveredLocked s base len with
      | false => simp
      | true => simp [protectLoop_fst (protectCost_le base len s.regions)]

theorem regionUpdate_succeeds_full :
    (taskRemoveVmRegion (fun _ => false) fullRegions 0x11000 0x1000).1 = false ∧
      ∃ r ∈ fullRegions.regions, r.Surrounds 0x11000 0x1000 := by
  rcases (regionUpdate_succeeds (fun _ => false) fullRegions 0x11000 0x1000 1).1 rfl with h | h
  · cases h
  · exact ⟨rfl, h.1⟩

end Bunix.Kernel
