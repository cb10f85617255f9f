import Bunix.Kernel.Pmm
import Bunix.Lib.PointUpdate

/-! # The free list of the page allocator

The list through the `next` fields holds exactly the pages that are marked free, each once. Every
function of the allocator keeps it so, and says which records it changes.
-/
namespace Bunix.Kernel.Pmm

open Bunix.Lib Function List Nat

variable {s s' : Pmm} {i j : Nat} {addr : U64} {xs ys zs : List Nat} {addrs : List U64}
  {reserved : List PmmReservedRange}

/-- The pointers spell out the list `xs`, which has exactly the free pages. -/
structure Shape (s : Pmm) (xs : List Nat) : Prop where
  represents : s.free.Represents xs
  nodup : xs.Nodup
  mem : ∀ i, i ∈ xs ↔ i < s.totalPages ∧ (s.pages i).isFree = true
  fits : s.totalPages < 2 ^ 64

/-- And `free_pages_count` is its length. -/
structure ListInv (s : Pmm) (xs : List Nat) : Prop extends Shape s xs where
  count : s.freePagesCount = BitVec.ofNat 64 xs.length

theorem Shape.length_le (h : Shape s xs) : xs.length ≤ s.totalPages := by
  have hsub : xs ⊆ range s.totalPages := fun i hi => mem_range.mpr ((h.mem i).mp hi).1
  have hlen := (h.nodup.subperm hsub).length_le
  rwa [length_range] at hlen

theorem ListInv.count_toNat (h : ListInv s xs) : s.freePagesCount.toNat = xs.length := by
  have hle := h.length_le
  have hfits := h.fits
  rw [h.count, BitVec.toNat_ofNat, mod_eq_of_lt (by omega)]

@[simp] theorem updPage_pages_self (page : PmmPage) : (s.updPage i page).pages i = page :=
  update_self ..

@[elab_as_elim]
theorem updPage_cases {motive : PmmPage → Prop} {page : PmmPage} (self : j = i → motive page)
    (ne : j ≠ i → motive (s.pages j)) : motive ((s.updPage i page).pages j) :=
  @update_cases _ _ _ s.pages i j page motive self ne

theorem ofNat_succ (n : Nat) : BitVec.ofNat 64 n + 1 = BitVec.ofNat 64 (n + 1) := by
  rw [BitVec.ofNat_add]
  rfl

/-! ## Putting a page on the list -/

theorem ListInv.push (h : ListInv s xs) (hi : i < s.totalPages) (hfree : (s.pages i).isFree = false) :
    ListInv (s.pageListPush i) (i :: xs) := by
  have hmem : i ∉ xs := fun hx => by
    rw [((h.mem i).mp hx).2] at hfree
    cases hfree
  have hrep : s.free.Represents ([] ++ xs) := h.represents
  refine ⟨⟨hrep.insertAt h.nodup hmem, nodup_cons.mpr ⟨hmem, h.nodup⟩, fun j => ?_, h.fits⟩, ?_⟩
  · show j ∈ i :: xs ↔ j < s.totalPages ∧ ((s.updPage i _).pages j).isFree = true
    rw [mem_cons, h.mem]
    exact updPage_cases (fun hj => iff_of_true (.inl hj) ⟨hj ▸ hi, rfl⟩) fun hj => by simp [hj]
  · show s.freePagesCount + 1 = _
    rw [h.count, ofNat_succ, length_cons]

theorem ListInv.add (h : ListInv s xs) (hcap : s.pageCapacity < 2 ^ 64) (addr : U64) :
    (s.addAvailablePage addr = s ∨
      s.totalPages < s.pageCapacity ∧ (s.addAvailablePage addr).totalPages = s.totalPages + 1 ∧
      (s.addAvailablePage addr).pages =
        update s.pages s.totalPages { s.pages s.totalPages with
          addr, isFree := true, refCount := 0 }) ∧
      (s.addAvailablePage addr).pageCapacity = s.pageCapacity ∧ ∃ ys, ListInv (s.addAvailablePage addr) ys := by
  unfold addAvailablePage
  split
  swap
  · exact ⟨.inl rfl, rfl, xs, h⟩
  rename_i hlt
  have hnew : s.totalPages ∉ xs := fun hx => absurd ((h.mem _).mp hx).1 (lt_irrefl _)
  set s₁ : Pmm := { s.updPage s.totalPages { s.pages s.totalPages with addr, isFree := false } with
    free := s.free.setNext s.totalPages none, totalPages := s.totalPages + 1 } with hs₁
  have h₁ : ListInv s₁ xs := by
    refine ⟨⟨?_, h.nodup, fun j => ?_, ?_⟩, h.count⟩
    · refine PtrList.Chain.congr h.represents fun j hj => PtrList.setNext_next_of_ne ?_
      rintro rfl
      exact hnew hj
    · rw [h.mem]
      show _ ↔ j < s.totalPages + 1 ∧ ((s.updPage s.totalPages _).pages j).isFree = true
      refine updPage_cases (fun hj => by simp [hj]) fun hj => and_congr_left fun _ => ?_
      omega
    · show s.totalPages + 1 < 2 ^ 64
      omega
  have hpush := h₁.push (lt_succ_self _) (by
    rw [updPage_pages_self])
  refine ⟨.inr ⟨hlt, rfl, ?_⟩, rfl, s.totalPages :: xs, hpush⟩
  simp [pageListPush, updPage]

/-! ## Taking pages off the list -/

/-- `pmm_page_alloc` takes the first page. -/
theorem ListInv.pageAlloc (h : ListInv s xs) :
    s.pageAlloc = (none, s) ∧ xs = [] ∨
    ∃ i ys, xs = i :: ys ∧ s.pageAlloc.1 = some i ∧ ListInv s.pageAlloc.2 ys ∧
      s.pageAlloc.2.totalPages = s.totalPages ∧ s.pageAlloc.2.pages =
        update s.pages i { s.pages i with isFree := false, refCount := 1 } := by
  have hhead := h.represents.head_eq
  cases xs with
  | nil =>
    refine .inl ⟨?_, rfl⟩
    unfold Pmm.pageAlloc
    rw [hhead]
    rfl
  | cons i ys =>
    obtain ⟨hi, hys⟩ := nodup_cons.mp h.nodup
    refine .inr ⟨i, ys, rfl, ?_⟩
    unfold Pmm.pageAlloc
    rw [hhead]
    refine ⟨rfl, ⟨⟨?_, hys, fun j => ?_, h.fits⟩, ?_⟩, rfl, rfl⟩
    · exact PtrList.Chain.congr h.represents.2 fun j hj => PtrList.setNext_next_of_ne (by
        rintro rfl
        exact hi hj)
    · show j ∈ ys ↔ j < s.totalPages ∧ ((s.updPage i _).pages j).isFree = true
      refine updPage_cases (fun hj => iff_of_false (hj ▸ hi) (by simp)) fun hj => ?_
      rw [← h.mem, mem_cons]
      simp [hj]
    · show s.freePagesCount - 1 = _
      rw [h.count, length_cons, ← ofNat_succ, BitVec.add_sub_cancel]

theorem Shape.takePage (h : Shape s xs) (hi : i ∈ xs) :
    ∃ s', s.takePage i = some s' ∧ Shape s' (xs.erase i) ∧ s'.totalPages = s.totalPages ∧
      s'.freePagesCount = s.freePagesCount ∧
      s'.pages = update s.pages i { s.pages i with isFree := false, refCount := 1 } := by
  obtain ⟨ys, zs, hsplit, hys, hzs, hseek⟩ :=
    h.represents.seek (fun j => j != i) (le_trans h.length_le (le_refl s.totalPages))
  -- the walk stops at the page
  have hnot : i ∉ ys := fun hy => by simpa using hys i hy
  obtain ⟨rest, rfl⟩ : ∃ rest, zs = i :: rest := by
    cases zs with
    | nil =>
      rw [hsplit, append_nil] at hi
      exact absurd hi hnot
    | cons j rest =>
      have hj := hzs j rfl
      rw [bne_eq_false_iff_eq] at hj
      exact ⟨rest, by rw [hj]⟩
  have hrep : s.free.Represents (ys ++ i :: rest) := hsplit ▸ h.represents
  have hnd : (ys ++ i :: rest).Nodup := hsplit ▸ h.nodup
  have herase : xs.erase i = ys ++ rest := by
    rw [hsplit, erase_append_right _ hnot, erase_cons_head]
  have hrest : i ∉ ys ++ rest := by
    rw [← herase]
    exact h.nodup.not_mem_erase
  have hread : s.free.read ys.getLast? = some i := hrep.read_eq
  unfold Pmm.takePage pageListRemove
  rw [hseek, Option.map_some, Option.map_some, if_pos hread]
  refine ⟨_, rfl, ⟨?_, h.nodup.erase i, fun j => ?_, h.fits⟩, rfl, rfl, rfl⟩
  · rw [herase]
    exact PtrList.Chain.congr (hrep.unlink hnd) fun j hj => PtrList.setNext_next_of_ne (by
      rintro rfl
      exact hrest hj)
  · rw [h.nodup.mem_erase_iff, h.mem]
    show _ ↔ j < s.totalPages ∧ ((s.updPage i _).pages j).isFree = true
    exact updPage_cases (fun hj => by simp [hj]) fun hj => by simp [hj]

/-- The records after the pages `is` have been taken. -/
def takenPages (pages : Nat → PmmPage) (is : List Nat) : Nat → PmmPage := fun j =>
  if j ∈ is then { pages j with isFree := false, refCount := 1 } else pages j

theorem Shape.takePages {is} (h : Shape s xs) (hnd : is.Nodup) (hsub : ∀ i ∈ is, i ∈ xs) :
    ∃ s' ys, is.foldlM Pmm.takePage s = some s' ∧ Shape s' ys ∧ ys.length + is.length = xs.length ∧
      s'.totalPages = s.totalPages ∧ s'.freePagesCount = s.freePagesCount ∧
      s'.pages = takenPages s.pages is := by
  induction is generalizing s xs with
  | nil => exact ⟨s, xs, rfl, h, rfl, rfl, rfl, by funext j; simp [takenPages]⟩
  | cons i is ih =>
    obtain ⟨hi, hnd⟩ := nodup_cons.mp hnd
    have hmem := hsub i mem_cons_self
    obtain ⟨s₁, hs₁, h₁, htotal, hcount, hpages⟩ := h.takePage hmem
    have hsub₁ : ∀ j ∈ is, j ∈ xs.erase i := by
      intro j hj
      refine (mem_erase_of_ne ?_).mpr (hsub j (mem_cons_of_mem _ hj))
      rintro rfl
      exact hi hj
    obtain ⟨s', ys, hs', h', hlen, htotal', hcount', hpages'⟩ := ih h₁ hnd hsub₁
    refine ⟨s', ys, ?_, h', ?_, htotal'.trans htotal, hcount'.trans hcount, ?_⟩
    · rw [foldlM_cons, hs₁]
      exact hs'
    · have hpos := length_pos_of_mem hmem
      rw [length_erase_of_mem hmem] at hlen
      rw [length_cons]
      omega
    · rw [hpages', hpages]
      funext j
      unfold takenPages
      by_cases hj : j = i
      · subst hj
        simp [hi]
      · simp [hj]

/-- What a contiguous allocation takes: `count` records from `i` on, all free, whose addresses follow
each other. -/
structure Block (s : Pmm) (count i : Nat) : Prop where
  fits : i + count ≤ s.totalPages
  free : ∀ j < count, (s.pages (i + j)).isFree = true
  addr : ∀ j < count, (s.pages (i + j)).addr = (s.pages i).addr + BitVec.ofNat 64 j * pmmPageSize

theorem ListInv.pagesAllocContiguous (h : ListInv s xs) (count : U64) :
    s.pagesAllocContiguous count = some (0, s) ∨
    ∃ i s' ys, s.pagesAllocContiguous count = some ((s.pages i).addr, s') ∧ 0 < count.toNat ∧
      Block s count.toNat i ∧ ListInv s' ys ∧ s'.totalPages = s.totalPages ∧
      s'.pages = takenPages s.pages ((range count.toNat).map (i + ·)) := by
  unfold Pmm.pagesAllocContiguous
  split
  · exact .inl rfl
  rename_i hzero
  have hpos : 0 < count.toNat := by
    rw [Nat.pos_iff_ne_zero]
    exact fun he => hzero (BitVec.eq_of_toNat_eq he)
  split
  · exact .inl rfl
  rename_i i hfind
  have hrange := mem_range.mp (mem_of_find?_eq_some hfind)
  have husable : s.usable count.toNat i = true := find?_some hfind
  have husable := all_eq_true.mp husable
  have hblock : Block s count.toNat i := by
    refine ⟨by omega, fun j hj => ?_, fun j hj => ?_⟩
    · exact (Bool.and_eq_true_iff.mp (husable j (mem_range.mpr hj))).1
    · exact beq_iff_eq.mp (Bool.and_eq_true_iff.mp (husable j (mem_range.mpr hj))).2
  have hnd : ((range count.toNat).map (i + ·)).Nodup :=
    nodup_range.map fun _ _ => Nat.add_left_cancel
  have hsub : ∀ k ∈ (range count.toNat).map (i + ·), k ∈ xs := by
    intro k hk
    obtain ⟨j, hj, rfl⟩ := mem_map.mp hk
    have hj := mem_range.mp hj
    exact (h.mem _).mpr ⟨by omega, hblock.free j hj⟩
  obtain ⟨s', ys, hs', h', hlen, htotal, hcount, hpages⟩ := h.toShape.takePages hnd hsub
  rw [length_map, length_range] at hlen
  refine .inr ⟨i, { s' with freePagesCount := s'.freePagesCount - count }, ys, ?_, hpos, hblock,
    ⟨⟨h'.represents, h'.nodup, h'.mem, h'.fits⟩, ?_⟩, htotal, hpages⟩
  · rw [hs']
    rfl
  · rw [hcount, h.count, ← hlen, BitVec.ofNat_add, BitVec.ofNat_toNat, BitVec.setWidth_eq,
      BitVec.add_sub_cancel]

/-! ## References -/

theorem findPage_eq_some (h : s.findPage addr = some i) : i < s.totalPages ∧ (s.pages i).addr = addr := by
  have hlt := mem_range.mp (mem_of_find?_eq_some h)
  have haddr : ((s.pages i).addr == addr) = true :=
    find?_some (p := fun i => (s.pages i).addr == addr) h
  exact ⟨hlt, beq_iff_eq.mp haddr⟩

theorem findPage_updPage (page : PmmPage) (h : page.addr = (s.pages i).addr) :
    (s.updPage i page).findPage addr = s.findPage addr := by
  have haddr : (fun j => ((s.updPage i page).pages j).addr == addr) = fun j => (s.pages j).addr == addr := by
    funext j
    exact updPage_cases (fun hj => by rw [hj, h]) fun _ => rfl
  show (range s.totalPages).find? _ = _
  rw [haddr]
  rfl

theorem ListInv.updPage (h : ListInv s xs) (page : PmmPage) (hfree : page.isFree = (s.pages i).isFree) :
    ListInv (s.updPage i page) xs := by
  refine ⟨⟨h.represents, h.nodup, fun j => ?_, h.fits⟩, h.count⟩
  rw [h.mem]
  show _ ↔ j < s.totalPages ∧ _
  exact updPage_cases (fun hj => by rw [hj, hfree]) fun _ => Iff.rfl

/-- `pmm_page_retain_addr` counts one more reference, or refuses. -/
theorem ListInv.pageRetainAddr (h : ListInv s xs) (addr : U64) :
    s.pageRetainAddr addr = (false, s) ∨
    ∃ i, i < s.totalPages ∧ (s.pages i).addr = addr ∧ (s.pages i).isFree = false ∧
      (s.pages i).refCount ≠ 0 ∧ (s.pageRetainAddr addr).1 = true ∧ ListInv (s.pageRetainAddr addr).2 xs ∧
      (s.pageRetainAddr addr).2.totalPages = s.totalPages ∧ (s.pageRetainAddr addr).2.pages =
        update s.pages i { s.pages i with refCount := (s.pages i).refCount + 1 } := by
  unfold Pmm.pageRetainAddr
  split
  · exact .inl rfl
  rename_i i hfind
  obtain ⟨hlt, haddr⟩ := findPage_eq_some hfind
  split
  · exact .inl rfl
  · rename_i hcond
    rw [not_or, Bool.not_eq_true] at hcond
    exact .inr ⟨i, hlt, haddr, hcond.1, hcond.2, rfl, h.updPage _ rfl, rfl, rfl⟩

/-- `pmm_page_free_addr` drops a reference, or puts the page on the list, or does nothing. -/
theorem ListInv.pageFreeAddr (h : ListInv s xs) (addr : U64) :
    (s.pageFreeAddr addr = s ∧ ∀ i, s.findPage addr = some i → (s.pages i).isFree = true) ∨
    ∃ i, s.findPage addr = some i ∧ (s.pages i).isFree = false ∧
      (s.pageFreeAddr addr).totalPages = s.totalPages ∧ (∃ ys, ListInv (s.pageFreeAddr addr) ys) ∧
      (1 < (s.pages i).refCount ∧ (s.pageFreeAddr addr).pages =
          update s.pages i { s.pages i with refCount := (s.pages i).refCount - 1 } ∨
        (s.pages i).refCount ≤ 1 ∧ (s.pageFreeAddr addr).pages =
          update s.pages i { s.pages i with isFree := true, refCount := 0 }) := by
  unfold Pmm.pageFreeAddr
  split
  · rename_i hfind
    exact .inl ⟨rfl, fun i hi => by rw [hfind] at hi; cases hi⟩
  rename_i i hfind
  obtain ⟨hlt, haddr⟩ := findPage_eq_some hfind
  unfold Pmm.pageFree
  split
  · rename_i hcond
    refine .inl ⟨rfl, fun j hj => ?_⟩
    rw [hfind] at hj
    cases hj
    rw [haddr] at hcond
    exact hcond.resolve_left fun hne => hne hfind
  rename_i hcond
  rw [not_or, Bool.not_eq_true] at hcond
  refine .inr ⟨i, hfind, hcond.2, ?_⟩
  split
  · rename_i hmany
    exact ⟨rfl, ⟨xs, h.updPage _ rfl⟩, .inl ⟨hmany, rfl⟩⟩
  · rename_i hone
    exact ⟨rfl, ⟨i :: xs, h.push hlt hcond.2⟩, .inr ⟨BitVec.not_lt.mp hone, rfl⟩⟩

/-! ## Boot -/

/-- The page overlaps the range, in the comparison of `reserve_range`. -/
def overlaps (pages : Nat → PmmPage) (start stop : U64) (i : Nat) : Bool :=
  rangesOverlap (pages i).addr ((pages i).addr + pmmPageSize) start stop

/-- The records after the pages of `xs` that overlap a range have been taken off the list. -/
def reservedPages (pages : Nat → PmmPage) (start stop : U64) (xs : List Nat) : Nat → PmmPage := fun j =>
  if j ∈ xs ∧ overlaps pages start stop j = true then { pages j with isFree := false } else pages j

theorem reserveLoop_spec (start stop : U64) {fuel newFree} (removed : U64)
    (hrep : s.free.Represents xs) (hnew : PtrList.Chain s.free.next newFree zs)
    (hnd : (xs ++ zs).Nodup) (hfuel : xs.length ≤ fuel) :
    ∃ s' newFree', reserveLoop start stop fuel s newFree removed = some (s', newFree',
        removed + BitVec.ofNat 64 (xs.countP (overlaps s.pages start stop))) ∧
      PtrList.Chain s'.free.next newFree'
        ((xs.filter fun i => !overlaps s.pages start stop i).reverse ++ zs) ∧
      s'.pages = reservedPages s.pages start stop xs ∧ s'.totalPages = s.totalPages ∧
      s'.freePagesCount = s.freePagesCount := by
  induction xs generalizing s newFree removed fuel zs with
  | nil =>
    refine ⟨s, newFree, ?_, hnew, ?_, rfl, rfl⟩
    · have hhead : s.free.head = none := hrep
      unfold reserveLoop
      rw [hhead]
      simp
    · funext j
      simp [reservedPages]
  | cons i xs ih =>
    obtain ⟨fuel, rfl⟩ : ∃ n, fuel = n + 1 := ⟨fuel - 1, by
      rw [length_cons] at hfuel
      omega⟩
    have hhead : s.free.head = some i := hrep.1
    obtain ⟨hi, hnd'⟩ := nodup_cons.mp (cons_append ▸ hnd)
    have hix : i ∉ xs := fun hx => hi (mem_append_left _ hx)
    have hfuel' : xs.length ≤ fuel := Nat.le_of_succ_le_succ hfuel
    unfold reserveLoop
    rw [hhead]
    dsimp only
    split
    · -- the page is reserved: it is on no list any more
      rename_i hover
      have hover : overlaps s.pages start stop i = true := hover
      set s₁ : Pmm := { ({ s with free := { s.free with head := s.free.next i } } : Pmm).updPage i
          { s.pages i with isFree := false } with
        free := ({ s.free with head := s.free.next i } : PtrList Nat).setNext i none } with hs₁
      have hover₁ : ∀ j, overlaps s₁.pages start stop j = overlaps s.pages start stop j := by
        intro j
        unfold overlaps
        by_cases hj : j = i
        · rw [hj, show s₁.pages i = { s.pages i with isFree := false } from update_self ..]
        · rw [show s₁.pages j = s.pages j from update_of_ne hj ..]
      have hne : ∀ j ∈ xs ++ zs, s₁.free.next j = s.free.next j := by
        intro j hj
        refine update_of_ne ?_ ..
        rintro rfl
        exact hi hj
      have hrep₁ : s₁.free.Represents xs :=
        PtrList.Chain.congr hrep.2 fun j hj => hne j (mem_append_left _ hj)
      have hnew₁ : PtrList.Chain s₁.free.next newFree zs :=
        hnew.congr fun j hj => hne j (mem_append_right _ hj)
      obtain ⟨s', newFree', hloop, hchain, hpages, htotal, hcount⟩ :=
        ih (removed + 1) hrep₁ hnew₁ hnd' hfuel'
      refine ⟨s', newFree', ?_, ?_, ?_, htotal, hcount⟩
      · rw [hloop, funext hover₁, countP_cons, if_pos hover, Nat.add_comm _ 1, BitVec.ofNat_add,
          ← BitVec.add_assoc]
        rfl
      · simpa only [hover₁, filter_cons, hover, Bool.not_true, Bool.false_eq_true, if_false]
          using hchain
      · rw [hpages]
        funext j
        unfold reservedPages
        rw [hover₁]
        by_cases hj : j = i
        · subst hj
          rw [if_neg (fun hc => hix hc.1), if_pos ⟨mem_cons_self, hover⟩]
          exact update_self ..
        · rw [show s₁.pages j = s.pages j from update_of_ne hj ..]
          simp [hj]
    · -- the page goes to the new list
      rename_i hover
      have hover : overlaps s.pages start stop i = false := by
        rw [Bool.not_eq_true] at hover
        exact hover
      have hrep' : s.free.Represents ([] ++ i :: xs) := hrep
      obtain ⟨hrep₁, hnew₁⟩ := hrep'.move hnew hnd
      have hnd₁ : (xs ++ i :: zs).Nodup := (perm_middle.nodup_iff).mpr (nodup_cons.mpr ⟨hi, hnd'⟩)
      obtain ⟨s', newFree', hloop, hchain, hpages, htotal, hcount⟩ :=
        ih (s := { s with free := ({ s.free with head := s.free.next i } : PtrList Nat).setNext i newFree })
          removed hrep₁ hnew₁ hnd₁ hfuel'
      refine ⟨s', newFree', ?_, ?_, ?_, htotal, hcount⟩
      · rw [hloop]
        simp [hover]
      · simpa [filter_cons, hover] using hchain
      · rw [hpages]
        funext j
        unfold reservedPages
        by_cases hj : j = i
        · subst hj
          rw [if_neg (fun hc => hix hc.1), if_neg (fun hc => by rw [hover] at hc; cases hc.2)]
        · simp [hj]

theorem ListInv.reserveRange (h : ListInv s xs) (r : PmmReservedRange) :
    ∃ s' ys, s.reserveRange r = some s' ∧ ListInv s' ys ∧ s'.totalPages = s.totalPages ∧ s'.pages =
        reservedPages s.pages (alignDown r.start pmmPageSize) (alignUp r.stop pmmPageSize) xs := by
  have hnil : PtrList.Chain s.free.next none [] := rfl
  obtain ⟨s', newFree, hloop, hchain, hpages, htotal, hcount⟩ :=
    reserveLoop_spec (alignDown r.start pmmPageSize) (alignUp r.stop pmmPageSize) 0 h.represents hnil
      (by simpa using h.nodup) h.length_le
  unfold Pmm.reserveRange
  rw [hloop]
  rw [append_nil] at hchain
  set overlap := overlaps s.pages (alignDown r.start pmmPageSize) (alignUp r.stop pmmPageSize)
  have hmem : ∀ i, i ∈ (xs.filter fun i => !overlap i).reverse ↔
      i < s'.totalPages ∧ (s'.pages i).isFree = true := by
    intro i
    rw [mem_reverse, mem_filter, h.mem, htotal, hpages]
    unfold reservedPages
    cases ho : overlap i with
    | true =>
      by_cases hi : i ∈ xs
      · rw [if_pos ⟨hi, ho⟩]
        simp
      · rw [if_neg (fun hc => hi hc.1), ← h.mem]
        simp [hi]
    | false =>
      rw [if_neg (fun hc => Bool.false_ne_true (ho.symm.trans hc.2))]
      simp
  refine ⟨_, _, rfl, ⟨⟨hchain, nodup_reverse.mpr (h.nodup.filter _), hmem, htotal ▸ h.fits⟩, ?_⟩, htotal, hpages⟩
  · show s'.freePagesCount - (0 + BitVec.ofNat 64 (xs.countP overlap)) = _
    have hlen := length_eq_countP_add_countP overlap (l := xs)
    rw [hcount, h.count, zero_add, length_reverse, ← countP_eq_length_filter]
    have hcomm : xs.length = xs.countP (fun i => !overlap i) + xs.countP overlap := by
      rw [hlen, add_comm]
      simp
    rw [hcomm, BitVec.ofNat_add, BitVec.add_sub_cancel]

/-- What the records of the pages are after the ranges up to here have been imported. -/
structure Imported (s : Pmm) (addrs : List U64) : Prop where
  list : ∃ xs, ListInv s xs
  capacity : s.pageCapacity < 2 ^ 64
  addr : ∀ i < s.totalPages, addrs[i]? = some (s.pages i).addr
  refs : ∀ i, (s.pages i).refCount = 0
  full : s.totalPages < s.pageCapacity → s.totalPages = addrs.length

theorem Imported.add (h : Imported s addrs) (addr : U64) :
    Imported (s.addAvailablePage addr) (addrs ++ [addr]) := by
  obtain ⟨xs, hlist⟩ := h.list
  obtain ⟨hcases, hcap, hlist'⟩ := hlist.add h.capacity addr
  rcases hcases with hsame | ⟨hlt, htotal, hpages⟩
  · have hfull : ¬ s.totalPages < s.pageCapacity := by
      intro hlt
      have htotal : (s.addAvailablePage addr).totalPages = s.totalPages + 1 := by
        unfold addAvailablePage
        rw [if_pos hlt]
      rw [hsame] at htotal
      omega
    rw [hsame] at hlist' ⊢
    refine ⟨hlist', h.capacity, fun i hi => ?_, h.refs, fun hlt => absurd hlt hfull⟩
    rw [getElem?_append_left (List.getElem?_eq_some_iff.mp (h.addr i hi)).1]
    exact h.addr i hi
  · have hlen := h.full hlt
    refine ⟨hlist', hcap ▸ h.capacity, fun i hi => ?_, fun i => ?_, fun _ => ?_⟩
    · rw [hpages]
      by_cases hlast : i = s.totalPages
      · rw [hlast, update_self, hlen, getElem?_concat_length]
      rw [update_of_ne hlast]
      have hi' := h.addr i (by omega)
      rw [getElem?_append_left (List.getElem?_eq_some_iff.mp hi').1]
      exact hi'
    · rw [hpages]
      exact update_cases (fun _ => rfl) fun _ => h.refs i
    · rw [htotal, hlen, length_append, length_singleton]

theorem Imported.foldl (h : Imported s addrs) (more : List U64) :
    Imported (more.foldl addAvailablePage s) (addrs ++ more) := by
  induction more generalizing s addrs with
  | nil => simpa using h
  | cons addr more ih => simpa using ih (h.add addr)

theorem Imported.ranges (h : Imported s addrs) (available : List PmmMemoryRange) :
    Imported (available.foldl importAvailableRange s) (addrs ++ available.flatMap (·.pages)) := by
  induction available generalizing s addrs with
  | nil => simpa using h
  | cons range available ih =>
    have hrest := ih (h.foldl range.pages)
    rw [append_assoc] at hrest
    exact hrest

/-- The state `pmm_init_from_ranges` leaves behind: the records are those of the available pages, in
their order, and no page that overlaps a reserved range is free. -/
structure Booted (s : Pmm) (addrs : List U64) (reserved : List PmmReservedRange) : Prop where
  list : ∃ xs, ListInv s xs
  addr : ∀ i < s.totalPages, addrs[i]? = some (s.pages i).addr
  refs : ∀ i, (s.pages i).refCount = 0
  reserved : ∀ i < s.totalPages, (s.pages i).isFree = true → ∀ r ∈ reserved,
    overlaps s.pages (alignDown r.start pmmPageSize) (alignUp r.stop pmmPageSize) i = false

theorem Booted.reserveRange (h : Booted s addrs reserved) (r : PmmReservedRange) :
    ∃ s', s.reserveRange r = some s' ∧ Booted s' addrs (reserved ++ [r]) := by
  obtain ⟨xs, hlist⟩ := h.list
  obtain ⟨s', ys, hs', hlist', htotal, hpages⟩ := hlist.reserveRange r
  have haddr : ∀ i, (s'.pages i).addr = (s.pages i).addr := by
    intro i
    rw [hpages]
    unfold reservedPages
    split <;> rfl
  have hover : ∀ start stop i, overlaps s'.pages start stop i = overlaps s.pages start stop i := by
    intro start stop i
    unfold overlaps
    rw [haddr]
  refine ⟨s', hs', ⟨ys, hlist'⟩, fun i hi => ?_, fun i => ?_, fun i hi hfree q hq => ?_⟩
  · rw [haddr]
    exact h.addr i (htotal ▸ hi)
  · rw [hpages]
    unfold reservedPages
    split <;> exact h.refs i
  · rw [hover]
    rw [htotal] at hi
    rw [hpages] at hfree
    unfold reservedPages at hfree
    split at hfree
    · cases hfree
    rename_i hkept
    rcases mem_append.mp hq with hq | hq
    · exact h.reserved i hi hfree q hq
    · rw [mem_singleton.mp hq]
      by_contra hne
      exact hkept ⟨(hlist.mem i).mpr ⟨hi, hfree⟩, Bool.not_eq_false _ ▸ hne⟩

theorem Booted.reserveAll (h : Booted s addrs reserved) (more : List PmmReservedRange) :
    ∃ s', more.foldlM Pmm.reserveRange s = some s' ∧ Booted s' addrs (reserved ++ more) := by
  induction more generalizing s reserved with
  | nil => exact ⟨s, rfl, by simpa using h⟩
  | cons r more ih =>
    obtain ⟨s₁, hs₁, h₁⟩ := h.reserveRange r
    obtain ⟨s', hs', h'⟩ := ih h₁
    refine ⟨s', ?_, by simpa using h'⟩
    rw [foldlM_cons, hs₁]
    exact hs'

theorem init_booted {available} (h : init available reserved = some s) :
    ∃ all, bootReserved available reserved = some all ∧ Booted s (available.flatMap (·.pages)) all := by
  obtain ⟨all, hall, hs⟩ := Option.bind_eq_some_iff.mp h
  refine ⟨all, hall, ?_⟩
  have hempty : ListInv { pageCapacity := (countAvailablePages available).toNat } [] := by
    refine ⟨⟨rfl, nodup_nil, fun i => ?_, Nat.two_pow_pos 64⟩, rfl⟩
    simp
  have hstart : Imported { pageCapacity := (countAvailablePages available).toNat } [] :=
    ⟨⟨[], hempty⟩, (countAvailablePages available).isLt, fun i hi => absurd hi (not_lt_zero i),
      fun _ => rfl, fun _ => rfl⟩
  have himported := hstart.ranges available
  have hbooted : Booted (available.foldl importAvailableRange
      { pageCapacity := (countAvailablePages available).toNat }) (available.flatMap (·.pages)) [] :=
    ⟨himported.list, himported.addr, himported.refs, fun i _ _ r hr => absurd hr not_mem_nil⟩
  obtain ⟨s', hs', h'⟩ := hbooted.reserveAll all
  rw [hs'] at hs
  cases hs
  exact h'

end Bunix.Kernel.Pmm
