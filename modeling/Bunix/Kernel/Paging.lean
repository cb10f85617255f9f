import Bunix.Types
import Bunix.Lib.ByteMemory

/-! # Page tables

`arch/x86_64/vm.c`. A table is a page of 512 words in physical memory, which the kernel reaches
through its own addresses. `supply` is what `pmm_page_alloc` answers with when it is called: the
address of a page, or 0. `nx` is `nx_supported`.
-/
namespace Bunix.Kernel

open Bunix.Lib

def ptePresent : U64 := 0x1

def pteWritable : U64 := 0x2

def pteUser : U64 := 0x4

def pteLarge : U64 := 0x80

def pteNoExec : U64 := 0x8000000000000000

def pteAddrMask : U64 := 0x000ffffffffff000

def pageEntries : Nat := 512

def vmPageSize : U64 := 0x1000

def largePageSize : U64 := 0x200000

namespace Paging

variable (e vaddr : U64) (nx : Bool) (mem : ByteMem)

def pml4Index : U64 := (vaddr >>> 39) &&& 0x1ff

def pdptIndex : U64 := (vaddr >>> 30) &&& 0x1ff

def pdIndex : U64 := (vaddr >>> 21) &&& 0x1ff

def ptIndex : U64 := (vaddr >>> 12) &&& 0x1ff

def pageOffset : U64 := vaddr &&& (vmPageSize - 1)

/-- `&table[index]`. -/
def entryAddr (table index : U64) : U64 := table + index * 8

/-- `table[index]`. -/
def entry (table index : U64) : U64 := mem.load64 (entryAddr table index)

/-- `table[index] = value`. -/
def setEntry (table index value : U64) : ByteMem := mem.store64 (entryAddr table index) value

/-- The table, or page, that an entry points to. -/
def target : U64 := e &&& pteAddrMask

def isPresent : Bool := e &&& ptePresent != 0

def isWritable : Bool := e &&& pteWritable != 0

def isLarge : Bool := e &&& pteLarge != 0

/-- Present, and for user mode. -/
def isUser : Bool := e &&& (ptePresent ||| pteUser) == (ptePresent ||| pteUser)

/-! ## Translation -/

def translate (root vaddr : U64) (write : Bool) : U64 :=
  let denied (e : U64) : Bool := !isPresent e || (write && !isWritable e)
  let e := entry mem root (pml4Index vaddr)
  if denied e then 0
  else
    let e := entry mem (target e) (pdptIndex vaddr)
    if denied e then 0
    else
      let e := entry mem (target e) (pdIndex vaddr)
      if denied e then 0
      else if isLarge e then (e &&& ~~~(largePageSize - 1)) + (vaddr &&& (largePageSize - 1))
      else
        let e := entry mem (target e) (ptIndex vaddr)
        if denied e then 0 else target e + pageOffset vaddr

/-- The check that `arch_vm_translate_user` makes at every level. -/
def userDenied (write : Bool) (e : U64) : Bool := !isUser e || (write && !isWritable e)

/-- `arch_vm_translate_user`. It looks at `PTE_LARGE` in the page directory only. -/
def translateUser (root vaddr : U64) (write : Bool) : U64 :=
  let e := entry mem root (pml4Index vaddr)
  if userDenied write e then 0
  else
    let e := entry mem (target e) (pdptIndex vaddr)
    if userDenied write e then 0
    else
      let e := entry mem (target e) (pdIndex vaddr)
      if userDenied write e || isLarge e then 0
      else
        let e := entry mem (target e) (ptIndex vaddr)
        if userDenied write e then 0 else target e + pageOffset vaddr

/-! ## Changing an entry -/

/-- The page table of an address, if the entries above it are all acceptable and not large. -/
def walk (accept : U64 → Bool) (mem : ByteMem) (root vaddr : U64) : Option U64 :=
  let e := entry mem root (pml4Index vaddr)
  if !accept e || isLarge e then none
  else
    let e := entry mem (target e) (pdptIndex vaddr)
    if !accept e || isLarge e then none
    else
      let e := entry mem (target e) (pdIndex vaddr)
      if !accept e || isLarge e then none else some (target e)

/-- The entry of a page whose protection is set. -/
def protectEntry (writable executable : Bool) (e : U64) : U64 :=
  let e := if writable then e ||| pteWritable else e &&& ~~~pteWritable
  if nx then if executable then e &&& ~~~pteNoExec else e ||| pteNoExec else e

/-- What `arch_vm_protect_page` and `arch_vm_protect_user_page` share. -/
def protectWith (accept : U64 → Bool) (nx : Bool) (mem : ByteMem) (root vaddr : U64)
    (writable executable : Bool) : Bool × ByteMem :=
  if pageOffset vaddr ≠ 0 then (false, mem)
  else match walk accept mem root vaddr with
    | none => (false, mem)
    | some pt =>
      let e := entry mem pt (ptIndex vaddr)
      if !accept e then (false, mem)
      else (true, setEntry mem pt (ptIndex vaddr) (protectEntry nx writable executable e))

def protectPage (root vaddr : U64) (writable executable : Bool) : Bool × ByteMem :=
  protectWith isPresent nx mem root vaddr writable executable

def protectUserPage (root vaddr : U64) (writable executable : Bool) : Bool × ByteMem :=
  protectWith isUser nx mem root vaddr writable executable

/-- What `arch_vm_unmap_page` and `arch_vm_unmap_user_page` share. -/
def unmapWith (accept : U64 → Bool) (mem : ByteMem) (root vaddr : U64) : U64 × ByteMem :=
  if pageOffset vaddr ≠ 0 then (0, mem)
  else match walk accept mem root vaddr with
    | none => (0, mem)
    | some pt =>
      let e := entry mem pt (ptIndex vaddr)
      if !accept e then (0, mem) else (target e, setEntry mem pt (ptIndex vaddr) 0)

def unmapPage (root vaddr : U64) : U64 × ByteMem := unmapWith isPresent mem root vaddr

def unmapUserPage (root vaddr : U64) : U64 × ByteMem := unmapWith isUser mem root vaddr

/-! ## Mapping a page -/

def tableFlags (writable user : Bool) : U64 :=
  let flags := ptePresent
  let flags := if writable then flags ||| pteWritable else flags
  if user then flags ||| pteUser else flags

def pageFlags (writable user executable : Bool) : U64 :=
  let flags := tableFlags writable user
  if nx && !executable then flags ||| pteNoExec else flags

end Paging

structure PageTables where
  mem : ByteMem
  /-- What `pmm_page_alloc` answers with, one call after the other. -/
  supply : List U64

namespace PageTables

open Paging

def zeroPage (mem : ByteMem) (phys : U64) : ByteMem := fun x =>
  if ByteMem.Within phys 4096 x then 0 else mem x

/-- `alloc_table`: the address of a new table, or 0. -/
def allocTable (s : PageTables) : U64 × PageTables :=
  match s.supply with
  | [] => (0, s)
  | phys :: supply => if phys = 0 then (0, { s with supply }) else (phys, ⟨zeroPage s.mem phys, supply⟩)

/-- `ensure_table`: the table behind an entry. -/
def ensureTable (s : PageTables) (parent index : U64) (writable user : Bool) :
    Option U64 × PageTables :=
  let e := entry s.mem parent index
  if !isPresent e then
    let (phys, s) := s.allocTable
    if phys = 0 then (none, s)
    else (some phys, { s with mem := setEntry s.mem parent index (phys ||| tableFlags writable user) })
  else if isLarge e then (none, s)
  else
    let e := e ||| tableFlags writable user
    (some (target e), { s with mem := setEntry s.mem parent index e })

/-- The entries of a page table that takes the place of a large page. -/
def fillSplit (mem : ByteMem) (pt e : U64) : ByteMem :=
  (List.range pageEntries).foldl (fun mem i =>
    setEntry mem pt (BitVec.ofNat 64 i)
      (((e &&& ~~~(largePageSize - 1)) + BitVec.ofNat 64 i * vmPageSize) |||
        ((e &&& 0xfff &&& ~~~pteLarge) ||| ptePresent))) mem

def splitLargePage (s : PageTables) (pd index : U64) : Bool × PageTables :=
  let e := entry s.mem pd index
  if !isPresent e || !isLarge e then (true, s)
  else
    let (pt, s) := s.allocTable
    if pt = 0 then (false, s)
    else
      (true, { s with
        mem := setEntry (fillSplit s.mem pt e) pd index (pt ||| ((e &&& 0xfff &&& ~~~pteLarge) ||| ptePresent)) })

def mapPage (nx : Bool) (s : PageTables) (root vaddr phys : U64) (writable user executable : Bool) :
    Bool × PageTables :=
  if pageOffset vaddr ≠ 0 ∨ phys &&& (vmPageSize - 1) ≠ 0 then (false, s)
  else match s.ensureTable root (pml4Index vaddr) true user with
    | (none, s) => (false, s)
    | (some pdpt, s) =>
      match s.ensureTable pdpt (pdptIndex vaddr) true user with
      | (none, s) => (false, s)
      | (some pd, s) =>
        match s.splitLargePage pd (pdIndex vaddr) with
        | (false, s) => (false, s)
        | (true, s) =>
          match s.ensureTable pd (pdIndex vaddr) true user with
          | (none, s) => (false, s)
          | (some pt, s) =>
            (true, { s with
              mem := setEntry s.mem pt (ptIndex vaddr) (phys ||| pageFlags nx writable user executable) })

/-- `arch_vm_space_init`: the root of a new address space, with the first GiB mapped for the kernel. -/
def spaceInit (s : PageTables) : Option U64 × PageTables :=
  let (pml4, s) := s.allocTable
  let (pdpt, s) := s.allocTable
  let (pd, s) := s.allocTable
  if pml4 = 0 ∨ pdpt = 0 ∨ pd = 0 then (none, s)
  else
    let mem := setEntry s.mem pml4 0 (pdpt ||| ptePresent ||| pteWritable)
    let mem := setEntry mem pdpt 0 (pd ||| ptePresent ||| pteWritable)
    let mem := (List.range pageEntries).foldl (fun mem i =>
      setEntry mem pd (BitVec.ofNat 64 i)
        (BitVec.ofNat 64 i * largePageSize ||| ptePresent ||| pteWritable ||| pteLarge)) mem
    (some pml4, { s with mem })

end PageTables

end Bunix.Kernel
