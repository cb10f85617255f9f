import Bunix.Kernel.VmRegionMap
import Bunix.Lib.Transition

/-! # Runs of region calls refine runs of map updates

The two queries decide facts about the map, and every sequence of successful calls is a sequence of
pointwise updates of the map.
-/
namespace Bunix.Kernel

open Bunix.Lib Bunix.Lib.Segment

variable {slab : Nat → Bool} {base len cursor rangeEnd : U64} {prot : U32} {s s' : VmRegions}
  {regions : List VmRegion} {fuel : Nat}

/-! ## The queries -/

theorem taskVmRangeIsFree_iff (hs : s.WellFormed) (hv : vmRangeInvalid base len = false) :
    taskVmRangeIsFree s base len = true ↔
      ∀ a : U64, (addrRange base len).Has a.toNat → s.map a = none := by
  rw [← overlapsOther_eq_false_iff hs hv]
  simp [taskVmRangeIsFree, hv]

/-- How many regions the cursor has not passed yet. -/
def ahead (regions : List VmRegion) (cursor : U64) : Nat :=
  regions.countP fun r => decide (cursor < r.regionEnd)

theorem ahead_lt (hr : r ∈ regions)
    (hc : cursor < r.regionEnd) : ahead regions r.regionEnd < ahead regions cursor := by
  have hmono : ∀ l : List VmRegion, ahead l r.regionEnd ≤ ahead l cursor := fun l =>
    List.countP_mono_left fun x _ hx => by
      simp only [decide_eq_true_eq] at hx ⊢
      bv_omega
  obtain ⟨pre, post, rfl⟩ := List.append_of_mem hr
  have h₁ := hmono pre
  have h₂ := hmono post
  have hself : ¬ r.regionEnd < r.regionEnd := by bv_omega
  simp only [ahead, List.countP_append, List.countP_cons, decide_eq_true_eq, hc, hself,
    ite_true, ite_false] at h₁ h₂ ⊢
  omega

theorem coveredLoop_done
    (h : ¬ cursor < rangeEnd) : coveredLoop regions rangeEnd fuel cursor = true := by
  cases fuel <;> simp [coveredLoop, h]

theorem coveredLoop_iff (hf : ahead regions cursor ≤ fuel) :
    coveredLoop regions rangeEnd fuel cursor = true ↔
      ∀ a : U64, cursor ≤ a → a < rangeEnd → ∃ r ∈ regions, r.base ≤ a ∧ a < r.regionEnd := by
  by_cases hlt : cursor < rangeEnd
  · induction fuel generalizing cursor with
    | zero =>
      have hnone : ∀ r ∈ regions, ¬ cursor < r.regionEnd := by
        have h0 : ahead regions cursor = 0 := by omega
        intro r hr
        simpa using List.countP_eq_zero.mp h0 r hr
      simp only [coveredLoop, hlt, decide_true, Bool.not_true, Bool.false_eq_true, false_iff]
      intro h
      obtain ⟨r, hr, _, hend⟩ := h cursor (by bv_omega) hlt
      exact hnone r hr hend
    | succ fuel ih =>
      simp only [coveredLoop, hlt, if_true]
      cases hfind : regions.find? fun r => decide (r.base ≤ cursor) && decide (cursor < r.regionEnd) with
      | none =>
        simp only [List.find?_eq_none, Bool.and_eq_true, decide_eq_true_eq] at hfind
        simp only [Bool.false_eq_true, false_iff]
        intro h
        obtain ⟨r, hr, hin⟩ := h cursor (by bv_omega) hlt
        exact hfind r hr hin
      | some r =>
        have hr := List.mem_of_find?_eq_some hfind
        have hin := List.find?_some hfind
        simp only [Bool.and_eq_true, decide_eq_true_eq] at hin
        by_cases hend : r.regionEnd < rangeEnd
        · have hahead := ahead_lt hr hin.2
          simp only [minU64, hend, if_true]
          rw [ih (by omega) hend]
          refine ⟨fun h a hc ha => ?_, fun h a hc ha => h a (by bv_omega) ha⟩
          by_cases hra : a < r.regionEnd
          · exact ⟨r, hr, by bv_omega, hra⟩
          · exact h a (by bv_omega) ha
        · simp only [minU64, hend, if_false]
          rw [coveredLoop_done (by bv_omega)]
          exact ⟨fun _ a hc ha => ⟨r, hr, by bv_omega, by bv_omega⟩, fun _ => rfl⟩
  · rw [coveredLoop_done hlt]
    exact ⟨fun _ a hc ha => absurd ha (by bv_omega), fun _ => rfl⟩

theorem taskVmRangeIsCoveredLocked_iff (s : VmRegions) (base len : U64) :
    taskVmRangeIsCoveredLocked s base len = true ↔
      ∀ a : U64, (addrRange base len).Has a.toNat → (s.map a).isSome = true := by
  have hmap : ∀ a : U64, (s.map a).isSome = true ↔ ∃ r ∈ s.regions, r.base ≤ a ∧ a < r.regionEnd := by
    intro a
    rw [Option.isSome_iff_ne_none, ne_eq, VmRegions.map, lookup_eq_none_iff]
    simp only [not_forall, not_not]
    constructor
    · rintro ⟨x, hx, ha⟩
      obtain ⟨r, hr, rfl⟩ := mem_segs.mp hx
      exact ⟨r, hr, ha⟩
    · rintro ⟨r, hr, ha⟩
      exact ⟨_, mem_segs.mpr ⟨r, hr, rfl⟩, ha⟩
  rw [taskVmRangeIsCoveredLocked, coveredLoop_iff List.countP_le_length]
  exact ⟨fun h a ha => (hmap a).mpr (h a ha.1 ha.2), fun h a hc ha => (hmap a).mp (h a ⟨hc, ha⟩)⟩

/-! ## The loops end

Each round of a loop lowers a count of work left, and the callers grant more rounds than that. -/

theorem removeCost_tail_lt (base len : U64) (r : VmRegion) (rest : List VmRegion) :
    removeCost base len rest < removeCost base len (r :: rest) := by
  simp only [removeCost, List.length_cons, List.countP_cons]
  omega

theorem protectCost_tail_lt (base len : U64) (r : VmRegion) (rest : List VmRegion) :
    protectCost base len rest < protectCost base len (r :: rest) := by
  simp only [protectCost, List.length_cons, List.countP_cons]
  omega

theorem removeCost_le (base len : U64) (regions : List VmRegion) :
    removeCost base len regions < 2 * regions.length + 1 := by
  have := List.countP_le_length (p := fun r => regionsOverlap base len r.base r.len) (l := regions)
  rw [removeCost]
  omega

theorem protectCost_le (base len : U64) (regions : List VmRegion) :
    protectCost base len regions < 3 * regions.length + 1 := by
  have := List.countP_le_length (p := sticksOut base len) (l := regions)
  rw [protectCost]
  omega

/-! ## Runs -/

theorem taskProtectVmRegion_map (hs : s.WellFormed)
    (h : taskProtectVmRegion slab s base len prot = (true, s')) :
    vmRangeInvalid base len = false ∧ taskVmRangeIsCoveredLocked s base len = true ∧
      s'.WellFormed ∧ s'.map = protectRange base len prot s.map := by
  unfold taskProtectVmRegion at h
  split at h
  · cases h
  rename_i hv
  have hv := Bool.eq_false_iff.mpr hv
  split at h
  · cases h
  · rename_i hc
    exact ⟨hv, by simpa using hc, protectLoop_map hs hv h⟩

inductive VmCall where
  | add (m : VmMapping)
  | addOrExtend (m : VmMapping)
  | remove (base len : U64)
  | protect (base len : U64) (prot : U32)
deriving DecidableEq, Repr

def VmCall.exec (slab : Nat → Bool) (s : VmRegions) : VmCall → Bool × VmRegions
  | .add m => taskAddVmMapping slab s m
  | .addOrExtend m => taskAddOrExtendVmMapping slab s m
  | .remove base len => taskRemoveVmRegion slab s base len
  | .protect base len prot => taskProtectVmRegion slab s base len prot

/-- A call that returns `0`, whatever the allocator does meanwhile. -/
def VmCall.Succeeds (s : VmRegions) (c : VmCall) (s' : VmRegions) : Prop :=
  ∃ slab, c.exec slab s = (true, s')

/-- The call's meaning on the address map. -/
def VmCall.Updates (f : U64 → Option VmMeta) (c : VmCall) (g : U64 → Option VmMeta) : Prop :=
  match c with
  | .add m =>
    (∀ a : U64, (addrRange m.base m.len).Has a.toNat → f a = none) ∧
      g = defineRange m.base m.len m.info f
  | .addOrExtend m =>
    (∀ a : U64, (addrRange m.base m.len).Has a.toNat → f a = none ∨ f a = some m.info) ∧
      g = defineRange m.base m.len m.info f
  | .remove base len => g = undefineRange base len f
  | .protect base len prot =>
    (∀ a : U64, (addrRange base len).Has a.toNat → (f a).isSome = true) ∧
      g = protectRange base len prot f

/-- **One call.** A successful call keeps the array well formed and updates the map. -/
theorem VmCall.Succeeds.updates {c : VmCall} (hs : s.WellFormed)
    (h : c.Succeeds s s') : s'.WellFormed ∧ c.Updates s.map s'.map := by
  obtain ⟨slab, h⟩ := h
  cases c with
  | add m =>
    obtain ⟨hadd, hfree⟩ := taskAddVmMapping_free hs h
    exact ⟨hadd.wellFormed, hfree, hadd.map_eq⟩
  | addOrExtend m =>
    have hadd := taskAddOrExtendVmMapping_added hs h
    exact ⟨hadd.wellFormed, hadd.before, hadd.map_eq⟩
  | remove base len =>
    obtain ⟨_, hwf, hmap⟩ := taskRemoveVmRegion_map hs h
    exact ⟨hwf, hmap⟩
  | protect base len prot =>
    obtain ⟨_, hc, hwf, hmap⟩ := taskProtectVmRegion_map hs h
    exact ⟨hwf, (taskVmRangeIsCoveredLocked_iff s base len).mp hc, hmap⟩

/-- **The region array refines the address map.** After any sequence of successful calls
the array is well formed (disjoint, non-empty, unwrapped regions), its map is the old one
under the same sequence of pointwise updates, and the two queries decide it. -/
theorem vmRegions_refine_addressMap {s s' : VmRegions} {calls : List VmCall}
    (hs : s.WellFormed) (h : Run (fun s c s' => VmCall.Succeeds s c s') s calls s') :
    s'.WellFormed ∧ Run (fun f c g => VmCall.Updates f c g) s.map calls s'.map ∧
      ∀ base len : U64, vmRangeInvalid base len = false → (taskVmRangeIsFree s' base len = true ↔
          ∀ a : U64, (addrRange base len).Has a.toNat → s'.map a = none) ∧
        (taskVmRangeIsCoveredLocked s' base len = true ↔
          ∀ a : U64, (addrRange base len).Has a.toNat → (s'.map a).isSome = true) := by
  obtain ⟨f, hrun, hwf, rfl⟩ := h.simulate (R := fun s f => s.WellFormed ∧ s.map = f)
    (fun s f c s' ⟨hwf, hf⟩ hc => ⟨s'.map, hf ▸ (hc.updates hwf).2, (hc.updates hwf).1, rfl⟩)
    ⟨hs, rfl⟩
  exact ⟨hwf, hrun, fun base len hv =>
    ⟨taskVmRangeIsFree_iff hwf hv, taskVmRangeIsCoveredLocked_iff s' base len⟩⟩

theorem VmRegions.wellFormed_empty : (⟨[], 0⟩ : VmRegions).WellFormed := ⟨.nil, by simp⟩

theorem vmRegions_refine_addressMap_split :
    ∃ s', Run (fun s c s' => VmCall.Succeeds s c s') ⟨[], 0⟩
      [.add ⟨0x10000, 0x4000, 3, 3, .mmap, .anon, 0, 0⟩, .protect 0x11000 0x2000 1,
        .remove 0x12000 0x1000] s' ∧ s'.regions.length = 3 ∧ s'.WellFormed := by
  have h : Run (fun s => VmCall.Succeeds s) ⟨[], 0⟩
      [.add ⟨0x10000, 0x4000, 3, 3, .mmap, .anon, 0, 0⟩, .protect 0x11000 0x2000 1,
        .remove 0x12000 0x1000] _ :=
    .cons ⟨fun _ => true, rfl⟩ (.cons ⟨fun _ => true, rfl⟩ (.cons ⟨fun _ => true, rfl⟩ (.nil _)))
  exact ⟨_, h, rfl, (vmRegions_refine_addressMap VmRegions.wellFormed_empty h).1⟩

end Bunix.Kernel
