import Bunix.Kernel.Pmm
import Bunix.Lib.ByteMemory

/-! # The slab allocator

`kernel/slab.c`. Headers and free lists lie in the pages themselves, so the model keeps them where
the code does, as words of memory. `pmm_pages_alloc_contiguous` is an argument of the functions that
call it: the address that it answers with. `owned` records the blocks of pages taken from the page
allocator and not returned. A walk of a list of slabs is given a number of rounds; `none` is a walk
that does not end.
-/
namespace Bunix.Kernel

open Bunix.Lib

def slabMagic : U32 := 0x534c4142

def slabLargeMagic : U32 := 0x534c4247

def slabMinAlign : U64 := 64

/-- `sizeof(struct slab_header)`. -/
def slabHeaderSize : U64 := 48

/-- `sizeof(struct slab_large_header)`. -/
def slabLargeHeaderSize : U64 := 16

/-- The `object_size` of the entries of `slab_caches`. -/
def slabObjectSizes : List U32 :=
  [32, 64, 128, 256, 512, 1024, 2048, 4096, 8192, 16384, 32768, 65536, 131072]

structure PageBlock where
  base : U64
  pages : Nat
  /-- The cache that the block is a slab of; `none` if it holds a large object. -/
  cache : Option Nat
deriving DecidableEq, Repr

structure Slab where
  mem : ByteMem
  /-- The `slabs` of the entries of `slab_caches`. -/
  slabs : Nat → U64 := fun _ => 0
  ready : Bool := false
  owned : List PageBlock := []

namespace Slab

variable (mem : ByteMem) (s : Slab) (fuel cache : Nat) (slab : U64)

def objectSize : U32 := slabObjectSizes.getD cache 0

def cacheForSize (size : U64) : Option Nat :=
  (List.range slabObjectSizes.length).find? fun i => decide (size ≤ (objectSize i).setWidth 64)

/-! ## Fields of a slab header -/

def pageCountField : U64 := slab + 4

def objectSizeField : U64 := slab + 8

def objectCountField : U64 := slab + 12

def freeCountField : U64 := slab + 16

def firstOffsetField : U64 := slab + 20

def freeField : U64 := slab + 24

def nextField : U64 := slab + 32

/-! ## Growing a cache -/

def firstOffset : U64 := alignUp slabHeaderSize slabMinAlign

def slabBytes : U64 :=
  if pmmPageSize < firstOffset + (objectSize cache).setWidth 64 then
    alignUp (firstOffset + (objectSize cache).setWidth 64) pmmPageSize
  else pmmPageSize

def slabPages : U64 := slabBytes cache / pmmPageSize

def objectCount : U32 :=
  ((slabPages cache * pmmPageSize - firstOffset) / (objectSize cache).setWidth 64).setWidth 32

/-- The object with number `i` of a slab. -/
def object (base : U64) (i : Nat) : U64 :=
  base + firstOffset + BitVec.ofNat 64 i * (objectSize cache).setWidth 64

/-- `node->next = slab->free; slab->free = node`. -/
def pushFree (node : U64) : ByteMem :=
  (mem.store64 node (mem.load64 (freeField slab))).store64 (freeField slab) node

/-- The header of a new slab, before its objects are put on the free list. -/
def writeHeader (base : U64) : ByteMem :=
  let mem := mem.store32 base slabMagic
  let mem := mem.store32 (pageCountField base) ((slabPages cache).setWidth 32)
  let mem := mem.store32 (objectSizeField base) (objectSize cache)
  let mem := mem.store32 (firstOffsetField base) (firstOffset.setWidth 32)
  let mem := mem.store32 (objectCountField base) (objectCount cache)
  let mem := mem.store32 (freeCountField base) (objectCount cache)
  mem.store64 (freeField base) 0

/-- `slab_grow`. `pmm_pages_alloc_contiguous(pages)` gives `base`. -/
def slabGrow (base : U64) : U64 × Slab :=
  if base = 0 then (0, s)
  else
    let mem := (List.range (objectCount cache).toNat).foldl
      (fun mem i => pushFree mem base (object cache base i)) (writeHeader s.mem cache base)
    (base, { s with
      mem := mem.store64 (nextField base) (s.slabs cache)
      slabs := Function.update s.slabs cache base
      owned := ⟨base, (slabPages cache).toNat, some cache⟩ :: s.owned })

/-! ## Large objects -/

def largeOffset : U64 := alignUp slabLargeHeaderSize slabMinAlign

def largePages (size : U64) : U64 := alignUp (largeOffset + size) pmmPageSize / pmmPageSize

/-- `slab_alloc_large`. `pmm_pages_alloc_contiguous(pages)` gives `base`. -/
def slabAllocLarge (size base : U64) : U64 × Slab :=
  if base = 0 then (0, s)
  else
    let mem := s.mem.store32 base slabLargeMagic
    let mem := mem.store32 (base + 4) ((largePages size).setWidth 32)
    (base + largeOffset, { s with
      mem := mem.store64 (base + 8) size
      owned := ⟨base, (largePages size).toNat, none⟩ :: s.owned })

/-! ## Allocating and freeing -/

def slabInit : Slab := { s with slabs := fun _ => 0, ready := true }

/-- The first slab of a list with `p`, or 0. -/
def walkSlabs (mem : ByteMem) (p : U64 → Bool) : Nat → U64 → Option U64
  | fuel, slab =>
    if slab = 0 then some 0
    else if p slab then some slab
    else match fuel with
      | 0 => none
      | fuel + 1 => walkSlabs mem p fuel (mem.load64 (nextField slab))

/-- Take the first object off the free list of a slab. -/
def popFree : U64 × Slab :=
  if slab = 0 ∨ s.mem.load64 (freeField slab) = 0 then (0, s)
  else
    let node := s.mem.load64 (freeField slab)
    let mem := s.mem.store64 (freeField slab) (s.mem.load64 node)
    (node, { s with mem := mem.store32 (freeCountField slab) (mem.load32 (freeCountField slab) - 1) })

def slabAlloc (size base : U64) : Option (U64 × Slab) :=
  if s.ready = false ∨ size = 0 then some (0, s)
  else match cacheForSize size with
    | none => some (s.slabAllocLarge size base)
    | some cache =>
      (walkSlabs s.mem (fun slab => s.mem.load64 (freeField slab) != 0) fuel (s.slabs cache)).map fun slab =>
        if slab = 0 then (s.slabGrow cache base).2.popFree (s.slabGrow cache base).1
        else s.popFree slab

def memZero (dst : U64) (len : Nat) : ByteMem := fun x =>
  if ByteMem.Within dst len x then 0 else mem x

def slabZalloc (size base : U64) : Option (U64 × Slab) :=
  (s.slabAlloc fuel size base).map fun (ptr, s) =>
    (ptr, if ptr = 0 then s else { s with mem := memZero s.mem ptr size.toNat })

/-- The check that `slab_free` makes for a slab. -/
def slabHolds (addr slab : U64) : Bool :=
  let start := slab + (mem.load32 (firstOffsetField slab)).setWidth 64
  let stop := slab + (mem.load32 (pageCountField slab)).setWidth 64 * pmmPageSize
  mem.load32 slab == slabMagic && !decide (addr < start) && !decide (stop ≤ addr) &&
    (addr - start) % (mem.load32 (objectSizeField slab)).setWidth 64 == 0

/-- The first slab of the caches that holds an address, or 0. -/
def findSlab (s : Slab) (fuel : Nat) (addr : U64) : List Nat → Option U64
  | [] => some 0
  | cache :: caches =>
    (walkSlabs s.mem (slabHolds s.mem addr) fuel (s.slabs cache)).bind fun slab =>
      if slab = 0 then findSlab s fuel addr caches else some slab

/-- `slab_free`: the state after it, and the address and number of the pages that it gives to
`pmm_pages_free_contiguous`. -/
def slabFree (ptr : U64) : Option (Slab × Option (U64 × U32)) :=
  if ptr = 0 then some (s, none)
  else
    let largeBase := ptr - largeOffset
    if largeBase &&& (pmmPageSize - 1) = 0 ∧ s.mem.load32 largeBase = slabLargeMagic then
      some ({ s with
        mem := s.mem.store32 largeBase 0
        owned := s.owned.filter (·.base != largeBase) }, some (largeBase, s.mem.load32 (largeBase + 4)))
    else
      (s.findSlab fuel ptr (List.range slabObjectSizes.length)).map fun slab =>
        if slab = 0 then (s, none)
        else
          let mem := pushFree s.mem slab ptr
          ({ s with mem := mem.store32 (freeCountField slab) (mem.load32 (freeCountField slab) + 1) }, none)

end Slab

end Bunix.Kernel
