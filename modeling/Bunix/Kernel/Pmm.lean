import Bunix.Lib.Alignment
import Bunix.Lib.PtrList
import Bunix.Types

/-! # The physical page allocator

`kernel/pmm.c`. One record for each page of the available ranges, in an array, with the free pages
on a list through their `next` fields. A page that is reserved at boot is taken off the list and has
no other mark. Walks of the list are given as many rounds as there are pages; `none` is a walk that
does not end, or a boot that stops.
-/
namespace Bunix.Kernel

open Bunix.Lib

structure PmmPage where
  addr : U64 := 0
  isFree : Bool := false
  refCount : U32 := 0
deriving DecidableEq, Repr

structure PmmMemoryRange where
  base : U64
  length : U64
deriving DecidableEq, Repr

structure PmmReservedRange where
  start : U64
  stop : U64
deriving DecidableEq, Repr

structure Pmm where
  pages : Nat → PmmPage := fun _ => {}
  /-- `free_pages`, and the `next` fields of the pages. -/
  free : PtrList Nat := ⟨none, fun _ => none⟩
  pageCapacity : Nat := 0
  totalPages : Nat := 0
  freePagesCount : U64 := 0

def pmmPageSize : U64 := 4096

def alignUp (value align : U64) : U64 := (value + align - 1) &&& ~~~(align - 1)

def alignDown (value align : U64) : U64 := value &&& ~~~(align - 1)

theorem toNat_alignDown (value : U64) : (alignDown value pmmPageSize).toNat = value.toNat / 4096 * 4096 :=
  toNat_and_not_mask (k := 12) value rfl

theorem toNat_alignUp {value} (h : value.toNat + 4095 < 2 ^ 64) :
    (alignUp value pmmPageSize).toNat = (value.toNat + 4095) / 4096 * 4096 := by
  have hsum : (value + pmmPageSize - 1).toNat = value.toNat + 4095 := by
    rw [add_sub_assoc, BitVec.toNat_add, show (pmmPageSize - 1).toNat = 4095 from rfl,
      Nat.mod_eq_of_lt h]
  rw [← hsum]
  exact toNat_and_not_mask (k := 12) _ rfl

def rangesOverlap (aStart aEnd bStart bEnd : U64) : Bool := decide (aStart < bEnd) && decide (bStart < aEnd)

namespace PmmMemoryRange

/-- The range is not empty and does not wrap. -/
def valid (range : PmmMemoryRange) : Bool :=
  range.length != 0 && !decide (range.base + range.length < range.base)

def start (range : PmmMemoryRange) : U64 := alignUp range.base pmmPageSize

def stop (range : PmmMemoryRange) : U64 := alignDown (range.base + range.length) pmmPageSize

/-- How often a loop from `start` up to `stop` in steps of a page goes round. -/
def pageCount (range : PmmMemoryRange) : Nat :=
  if range.start < range.stop then (range.stop - range.start).toNat / 4096 else 0

/-- The values of `start` in such a loop. -/
def pages (range : PmmMemoryRange) : List U64 :=
  if range.valid then
    (List.range range.pageCount).map fun i => range.start + BitVec.ofNat 64 i * pmmPageSize
  else []

end PmmMemoryRange

namespace Pmm

variable (available : List PmmMemoryRange) (reserved : List PmmReservedRange) (s : Pmm) (i : Nat)
  (addr : U64)

def updPage (page : PmmPage) : Pmm := { s with pages := Function.update s.pages i page }

def pageListPush : Pmm :=
  { s.updPage i { s.pages i with isFree := true, refCount := 0 } with
    free := s.free.insertAt none i
    freePagesCount := s.freePagesCount + 1 }

def findPage : Option Nat :=
  (List.range s.totalPages).find? fun i => (s.pages i).addr == addr

def pageListRemove : Option Pmm :=
  (s.free.seek (fun j => j != i) s.totalPages none).map fun link =>
    if s.free.read link = some i then
      { s with free := (s.free.write link (s.free.next i)).setNext i none }
    else s

/-! ## Boot -/

def addAvailablePage : Pmm :=
  if s.totalPages < s.pageCapacity then
    let i := s.totalPages
    let s := { s.updPage i { s.pages i with addr, isFree := false } with free := s.free.setNext i none }
    { s.pageListPush i with totalPages := i + 1 }
  else s

def importAvailableRange (range : PmmMemoryRange) : Pmm :=
  range.pages.foldl addAvailablePage s

def countAvailablePages : U64 :=
  available.foldl (fun count range =>
    if range.valid then
      if range.start < range.stop then count + (range.stop - range.start) / pmmPageSize else count
    else count) 0

def rangeIsReservedByList (start stop : U64) (reserved : List PmmReservedRange) : Bool :=
  reserved.any fun r => rangesOverlap start stop r.start r.stop

/-- `sizeof(struct pmm_page)`. -/
def pmmPageBytes : U64 := 24

/-- `find_metadata_storage_from_ranges`: the start of the storage, and its length. -/
def findMetadataStorage (pageCount : U64) : Option (U64 × U64) :=
  let bytes := alignUp (pageCount * pmmPageBytes) pmmPageSize
  available.findSome? fun range =>
    (range.pages.find? fun start =>
      decide (bytes ≤ range.stop - start) && !rangeIsReservedByList start (start + bytes) reserved).map
      fun start => (start, bytes)

/-- The loop of `reserve_range`: the pages outside of the range go to a new list. -/
def reserveLoop (start stop : U64) : Nat → Pmm → Option Nat → U64 → Option (Pmm × Option Nat × U64)
  | fuel, s, newFree, removed =>
    match s.free.head, fuel with
    | none, _ => some (s, newFree, removed)
    | some _, 0 => none
    | some i, fuel + 1 =>
      let s := { s with free := { s.free with head := s.free.next i } }
      if rangesOverlap (s.pages i).addr ((s.pages i).addr + pmmPageSize) start stop then
        reserveLoop start stop fuel
          { s.updPage i { s.pages i with isFree := false } with free := s.free.setNext i none }
          newFree (removed + 1)
      else reserveLoop start stop fuel { s with free := s.free.setNext i newFree } (some i) removed

def reserveRange (r : PmmReservedRange) : Option Pmm :=
  (reserveLoop (alignDown r.start pmmPageSize) (alignUp r.stop pmmPageSize) s.totalPages s none 0).map
    fun (s, newFree, removed) =>
      { s with
        free := { s.free with head := newFree }
        freePagesCount := s.freePagesCount - removed }

/-- The ranges that `pmm_init_from_ranges` reserves: those it is given, and its own storage. -/
def bootReserved : Option (List PmmReservedRange) :=
  match findMetadataStorage available reserved (countAvailablePages available) with
  | none => none
  | some (start, bytes) =>
    if start = 0 ∨ start + bytes ≤ start then none else some (reserved ++ [⟨start, start + bytes⟩])

/-- `pmm_init_from_ranges`. Without storage for the records the boot stops. -/
def init : Option Pmm :=
  (bootReserved available reserved).bind fun all =>
    let s := { pageCapacity := (countAvailablePages available).toNat }
    all.foldlM reserveRange (available.foldl importAvailableRange s)

/-! ## Allocation -/

def pageAlloc : Option Nat × Pmm :=
  match s.free.head with
  | none => (none, s)
  | some i =>
    (some i, { s.updPage i { s.pages i with isFree := false, refCount := 1 } with
      free := ({ s.free with head := s.free.next i } : PtrList Nat).setNext i none
      freePagesCount := s.freePagesCount - 1 })

/-- From page `i` on, `count` pages are free and follow each other. -/
def usable (count i : Nat) : Bool :=
  (List.range count).all fun j =>
    (s.pages (i + j)).isFree && (s.pages (i + j)).addr == (s.pages i).addr + BitVec.ofNat 64 j * pmmPageSize

def takePage : Option Pmm :=
  (s.pageListRemove i).map fun s => s.updPage i { s.pages i with isFree := false, refCount := 1 }

/-- `pmm_pages_alloc_contiguous`: the address of the first page, or 0. -/
def pagesAllocContiguous (count : U64) : Option (U64 × Pmm) :=
  if count = 0 then some (0, s)
  else match (List.range (s.totalPages + 1 - count.toNat)).find? (s.usable count.toNat) with
    | none => some (0, s)
    | some i =>
      (((List.range count.toNat).map (i + ·)).foldlM takePage s).map fun s' =>
        ((s.pages i).addr, { s' with freePagesCount := s'.freePagesCount - count })

def pageRetainAddr : Bool × Pmm :=
  match s.findPage addr with
  | none => (false, s)
  | some i =>
    if (s.pages i).isFree = true ∨ (s.pages i).refCount = 0 then (false, s)
    else (true, s.updPage i { s.pages i with refCount := (s.pages i).refCount + 1 })

def pageFree : Pmm :=
  if s.findPage (s.pages i).addr ≠ some i ∨ (s.pages i).isFree = true then s
  else if 1 < (s.pages i).refCount then s.updPage i { s.pages i with refCount := (s.pages i).refCount - 1 }
  else s.pageListPush i

def pageFreeAddr : Pmm :=
  match s.findPage addr with
  | none => s
  | some i => s.pageFree i

def pagesFreeContiguous (count : U64) : Pmm :=
  (List.range count.toNat).foldl
    (fun s i => s.pageFreeAddr (addr + BitVec.ofNat 64 i * pmmPageSize)) s

end Pmm

end Bunix.Kernel
