import Bunix.Types
import Bunix.Lib.Segment

/-! # The VM region array of a task

The bookkeeping half of a task's address space (`kernel/sched.c`): an unordered,
growable array of regions, each with its protection, kind, mapping flags and backing
object. The array is a list here and its capacity a number. The slab allocator that
backs it is a parameter `slab`: whether it can provide an array of a given capacity.

Functions that return `0` or `-1` return `true` or `false` together with the array they
leave behind, since a failing call may already have changed it.
-/
namespace Bunix.Kernel

open Bunix.Lib

inductive VmRegionKind where
  | elf | stack | brk | mmap
deriving DecidableEq, Repr

inductive VmObjectType where
  | none | anon | file
deriving DecidableEq, Repr

def vmProtRead : U32 := 1
def vmProtWrite : U32 := 2
def vmProtExec : U32 := 4

def vmMapPrivate : U32 := 1
def vmMapAnonymous : U32 := 2
def vmMapFixed : U32 := 4

structure VmRegion where
  base : U64
  len : U64
  offset : U64
  writable : Bool
  kind : VmRegionKind
  prot : U32
  flags : U32
  objectType : VmObjectType
  objectId : U32
deriving DecidableEq, Repr

/-- The arguments `task_add_vm_mapping` and `task_add_or_extend_vm_mapping` share. -/
structure VmMapping where
  base : U64
  len : U64
  prot : U32
  mapFlags : U32
  kind : VmRegionKind
  objectType : VmObjectType
  objectId : U32
  offset : U64
deriving DecidableEq, Repr

/-- The region array: `vm_regions[0 .. vm_region_count)` and `vm_region_capacity`. -/
structure VmRegions where
  regions : List VmRegion
  capacity : Nat
deriving DecidableEq, Repr

def initialTaskVmRegions : Nat := 32

variable (slab : Nat → Bool) (s : VmRegions) (r : VmRegion) (m : VmMapping)

def taskGrowVmRegionsLocked (capacity minCapacity : Nat) : Option Nat :=
  if minCapacity ≤ capacity then some capacity
  else
    let newCapacity := doubleCapacity minCapacity minCapacity
      (if capacity = 0 then initialTaskVmRegions else capacity)
    if slab newCapacity then some newCapacity else none

def VmRegion.regionEnd : U64 := r.base + r.len

def regionsOverlap (aBase aLen bBase bLen : U64) : Bool :=
  decide (aBase < bBase + bLen) && decide (bBase < aBase + aLen)

def vmRegionMetadataMatches : Bool :=
  r.kind == m.kind && r.prot == m.prot && r.flags == m.mapFlags &&
    r.objectType == m.objectType && r.objectId == m.objectId

def vmRegionAppendOffsetMatches : Bool :=
  m.objectId == 0 || m.objectType == .anon || r.offset + r.len == m.offset

def vmRegionPrependOffsetMatches : Bool :=
  if r.base ≤ m.base ∨ m.objectId = 0 ∨ m.objectType = .anon then true
  else m.offset + (r.base - m.base) == r.offset && decide (r.offset ≤ m.offset + m.len)

/-- `task_vm_range_overlaps_other_locked`, given the entries other than `skip_index`. -/
def taskVmRangeOverlapsOther (others : List VmRegion) (base len : U64) : Bool :=
  others.any fun r => regionsOverlap base len r.base r.len

/-- The argument check every entry point starts with. -/
def vmRangeInvalid (base len : U64) : Bool := len == 0 || decide (base + len < base)

/-! ## Adding -/

/-- The first loop of `task_add_vm_mapping`: grow a region that ends where the new one
starts. `visited` holds the entries before the loop's index. -/
def appendLoop (m : VmMapping) : List VmRegion → List VmRegion → Option (List VmRegion)
  | _, [] => none
  | visited, r :: rest =>
    let newLen := r.len + m.len
    if vmRegionMetadataMatches r m && vmRegionAppendOffsetMatches r m &&
        r.regionEnd == m.base && decide (r.len ≤ newLen) &&
        !taskVmRangeOverlapsOther (visited ++ rest) r.base newLen then
      some (visited ++ { r with len := newLen } :: rest)
    else appendLoop m (visited ++ [r]) rest

def VmMapping.region : VmRegion where
  base := m.base
  len := m.len
  offset := m.offset
  writable := m.prot &&& vmProtWrite != 0
  kind := m.kind
  prot := m.prot
  flags := m.mapFlags
  objectType := m.objectType
  objectId := m.objectId

def taskAddVmMapping : Bool × VmRegions :=
  if vmRangeInvalid m.base m.len then (false, s)
  else match appendLoop m [] s.regions with
    | some regions => (true, { s with regions })
    | none =>
      if taskVmRangeOverlapsOther s.regions m.base m.len then (false, s)
      else match taskGrowVmRegionsLocked slab s.capacity (s.regions.length + 1) with
        | none => (false, s)
        | some capacity => (true, ⟨s.regions ++ [m.region], capacity⟩)

/-- The loop of `task_add_or_extend_vm_mapping`: widen a region that touches or overlaps
the new range and has the same metadata. -/
def extendLoop (m : VmMapping) : List VmRegion → List VmRegion → Option (List VmRegion)
  | _, [] => none
  | visited, r :: rest =>
    let reqEnd := m.base + m.len
    if vmRegionMetadataMatches r m && vmRegionPrependOffsetMatches r m &&
        decide (r.base ≤ reqEnd) && decide (m.base ≤ r.regionEnd) then
      let newBase := minU64 m.base r.base
      let newEnd := maxU64 reqEnd r.regionEnd
      let newLen := newEnd - newBase
      if decide (newEnd < newBase) || taskVmRangeOverlapsOther (visited ++ rest) newBase newLen then
        extendLoop m (visited ++ [r]) rest
      else
        let offset := if newBase = r.base then r.offset else m.offset
        some (visited ++ { r with base := newBase, len := newLen, offset } :: rest)
    else extendLoop m (visited ++ [r]) rest

def taskAddOrExtendVmMapping : Bool × VmRegions :=
  if vmRangeInvalid m.base m.len then (false, s)
  else match extendLoop m [] s.regions with
    | some regions => (true, { s with regions })
    | none => taskAddVmMapping slab s m

/-! ## Queries -/

def taskVmRangeIsFree (base len : U64) : Bool :=
  if vmRangeInvalid base len then false
  else !taskVmRangeOverlapsOther s.regions base len

/-- The cursor loop of `task_vm_range_is_covered_locked`. Each round leaves one region
behind for good, so as many rounds as there are regions are enough. -/
def coveredLoop (regions : List VmRegion) (rangeEnd : U64) : Nat → U64 → Bool
  | 0, cursor => !decide (cursor < rangeEnd)
  | fuel + 1, cursor =>
    if cursor < rangeEnd then
      match regions.find? fun r => decide (r.base ≤ cursor) && decide (cursor < r.regionEnd) with
      | some r =>
        coveredLoop regions rangeEnd fuel (minU64 r.regionEnd rangeEnd)
      | none => false
    else true

def taskVmRangeIsCoveredLocked (base len : U64) : Bool :=
  coveredLoop s.regions (base + len) s.regions.length base

/-! ## Cutting an entry

The loops below cut an entry that meets the range `[base, base + len)` into the parts in
front of it, inside it and behind it. -/

def leftOf (base : U64) (r : VmRegion) : VmRegion :=
  { r with len := maxU64 base r.base - r.base }

def insideOf (base len : U64) (r : VmRegion) : VmRegion :=
  { r with base := maxU64 base r.base, len := minU64 (base + len) r.regionEnd - maxU64 base r.base }

def rightOf (base len : U64) (r : VmRegion) : VmRegion :=
  { r with base := minU64 (base + len) r.regionEnd,
           len := r.regionEnd - minU64 (base + len) r.regionEnd }

/-! ## Changing the protection -/

def regionSetProt (prot : U32) : VmRegion :=
  { r with prot, writable := prot &&& vmProtWrite != 0 }

def taskAppendVmRegionLocked : Bool × VmRegions :=
  match taskGrowVmRegionsLocked slab s.capacity (s.regions.length + 1) with
  | none => (false, s)
  | some capacity => (true, ⟨s.regions ++ [r], capacity⟩)

/-- The loop of `task_protect_vm_region`. A region that sticks out of the range is cut:
the part inside is appended with the new protection and the loop meets it again later.
`fuel` bounds the rounds; `taskProtectVmRegion` gives it more than the loop can use. -/
def protectLoop (slab : Nat → Bool) (base len : U64) (prot : U32) :
    Nat → List VmRegion → List VmRegion → Nat → Bool × VmRegions
  | 0, visited, rest, capacity => (false, ⟨visited ++ rest, capacity⟩)
  | _ + 1, visited, [], capacity => (true, ⟨visited, capacity⟩)
  | fuel + 1, visited, r :: rest, capacity =>
    let protectBase := maxU64 base r.base
    let protectEnd := minU64 (base + len) r.regionEnd
    let middle := regionSetProt (insideOf base len r) prot
    let left := leftOf base r
    let right := rightOf base len r
    if !regionsOverlap base len r.base r.len then
      protectLoop slab base len prot fuel (visited ++ [r]) rest capacity
    else if protectBase = r.base ∧ protectEnd = r.regionEnd then
      protectLoop slab base len prot fuel (visited ++ [regionSetProt r prot]) rest capacity
    else if protectBase = r.base then
      match taskAppendVmRegionLocked slab ⟨visited ++ right :: rest, capacity⟩ middle with
      | (false, s) => (false, s)
      | (true, s) =>
        protectLoop slab base len prot fuel (visited ++ [right]) (rest ++ [middle]) s.capacity
    else if protectEnd = r.regionEnd then
      match taskAppendVmRegionLocked slab ⟨visited ++ left :: rest, capacity⟩ middle with
      | (false, s) => (false, s)
      | (true, s) =>
        protectLoop slab base len prot fuel (visited ++ [left]) (rest ++ [middle]) s.capacity
    else
      match taskAppendVmRegionLocked slab ⟨visited ++ left :: rest, capacity⟩ middle with
      | (false, s) => (false, s)
      | (true, s) =>
        match taskAppendVmRegionLocked slab s right with
        | (false, s) => (false, s)
        | (true, s) =>
          protectLoop slab base len prot fuel (visited ++ [left]) (rest ++ [middle, right])
            s.capacity

def taskProtectVmRegion (base len : U64) (prot : U32) : Bool × VmRegions :=
  if vmRangeInvalid base len then (false, s)
  else if !taskVmRangeIsCoveredLocked s base len then (false, s)
  else protectLoop slab base len prot (3 * s.regions.length + 1) [] s.regions s.capacity

/-! ## Removing -/

/-- `vm_regions[i] = vm_regions[vm_region_count - 1]; vm_region_count--`, seen from the
entries behind index `i`. -/
def swapLast (rest : List VmRegion) : List VmRegion :=
  match rest.getLast? with
  | none => []
  | some last => last :: rest.dropLast

/-- The loop of `task_remove_vm_region`. `fuel` bounds the rounds as in `protectLoop`. -/
def removeLoop (slab : Nat → Bool) (base len : U64) :
    Nat → List VmRegion → List VmRegion → Nat → Bool × VmRegions
  | 0, visited, rest, capacity => (false, ⟨visited ++ rest, capacity⟩)
  | _ + 1, visited, [], capacity => (true, ⟨visited, capacity⟩)
  | fuel + 1, visited, r :: rest, capacity =>
    let removeBase := maxU64 base r.base
    let removeEnd := minU64 (base + len) r.regionEnd
    let left := leftOf base r
    let right := rightOf base len r
    if !regionsOverlap base len r.base r.len then
      removeLoop slab base len fuel (visited ++ [r]) rest capacity
    else if removeBase = r.base ∧ removeEnd = r.regionEnd then
      removeLoop slab base len fuel visited (swapLast rest) capacity
    else if removeBase = r.base then
      removeLoop slab base len fuel (visited ++ [right]) rest capacity
    else if removeEnd = r.regionEnd then
      removeLoop slab base len fuel (visited ++ [left]) rest capacity
    else
      match taskGrowVmRegionsLocked slab capacity (visited.length + rest.length + 2) with
      | none => (false, ⟨visited ++ r :: rest, capacity⟩)
      | some capacity =>
        removeLoop slab base len fuel (visited ++ [left]) (rest ++ [right]) capacity

def taskRemoveVmRegion (base len : U64) : Bool × VmRegions :=
  if vmRangeInvalid base len then (false, s)
  else removeLoop slab base len (2 * s.regions.length + 1) [] s.regions s.capacity

end Bunix.Kernel
