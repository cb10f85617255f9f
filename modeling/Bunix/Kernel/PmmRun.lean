import Bunix.Kernel.PmmList
import Bunix.Lib.Transition

/-! # References to physical pages

Beside the allocator runs a ledger of the references its callers hold on each physical page: an
allocation gives them one, `pmm_page_retain_addr` another one, `pmm_page_free_addr` takes one back.
A page is not handed out as long as the ledger has a reference to it, if no physical page has two
records and no count of references wraps.
-/
namespace Bunix.Kernel

open Bunix.Lib Function List Bool

variable {refs : U64 → Nat} {addrs : List U64} {a : U64}

structure PmmLedger where
  pmm : Pmm
  /-- The references held on the page at each address. -/
  refs : U64 → Nat := fun _ => 0

inductive PmmOp where
  | alloc
  | allocContiguous (count : U64)
  | retain (addr : U64)
  | free (addr : U64)
  | freeContiguous (addr count : U64)
deriving DecidableEq, Repr

namespace PmmLedger

/-- One more reference on each of the pages. -/
def give (refs : U64 → Nat) (addrs : List U64) : U64 → Nat := fun a =>
  if a ∈ addrs then refs a + 1 else refs a

/-- The addresses of `count` pages from `start` on. -/
def block (start : U64) (count : Nat) : List U64 :=
  (range count).map fun j => start + BitVec.ofNat 64 j * pmmPageSize

/-- A page is freed only by a caller that holds a reference on it. -/
def freeStep (s : PmmLedger) (addr : U64) : Option PmmLedger :=
  if s.refs addr = 0 then none
  else some ⟨s.pmm.pageFreeAddr addr, update s.refs addr (s.refs addr - 1)⟩

def step (s : PmmLedger) : PmmOp → Option PmmLedger
  | .alloc =>
    match s.pmm.pageAlloc with
    | (none, pmm) => some { s with pmm }
    | (some i, pmm) => some ⟨pmm, give s.refs [(s.pmm.pages i).addr]⟩
  | .allocContiguous count =>
    (s.pmm.pagesAllocContiguous count).map fun (start, pmm) =>
      ⟨pmm, if start = 0 then s.refs else give s.refs (block start count.toNat)⟩
  | .retain addr =>
    match s.pmm.pageRetainAddr addr with
    | (false, pmm) => some { s with pmm }
    | (true, pmm) => some ⟨pmm, give s.refs [addr]⟩
  | .free addr => s.freeStep addr
  | .freeContiguous addr count => (block addr count.toNat).foldlM freeStep s

structure Correct (s : PmmLedger) : Prop where
  list : ∃ xs, s.pmm.free.Represents xs ∧ xs.Nodup ∧
    (∀ i, i ∈ xs ↔ i < s.pmm.totalPages ∧ (s.pmm.pages i).isFree = true) ∧
    s.pmm.freePagesCount.toNat = xs.length
  alloc : ∀ i pmm, s.pmm.pageAlloc = (some i, pmm) →
    (s.pmm.pages i).isFree = true ∧ s.refs (s.pmm.pages i).addr = 0
  contiguous : ∀ count, ∃ start pmm, s.pmm.pagesAllocContiguous count = some (start, pmm) ∧
    (start ≠ 0 → ∃ i, i + count.toNat ≤ s.pmm.totalPages ∧ ∀ j < count.toNat,
      (s.pmm.pages (i + j)).isFree = true ∧ (s.pmm.pages (i + j)).addr.toNat = start.toNat + j * 4096 ∧
      s.refs (s.pmm.pages (i + j)).addr = 0)

/-- The count of references does not wrap. -/
def Counts (s : PmmLedger) : PmmOp → Prop
  | .retain addr => ∀ i ∈ s.pmm.findPage addr, (s.pmm.pages i).refCount.toNat + 1 < 2 ^ 32
  | _ => True

instance (s : PmmLedger) (op : PmmOp) : Decidable (s.Counts op) :=
  match op with
  | .retain addr => inferInstanceAs (Decidable (∀ i ∈ s.pmm.findPage addr,
      (s.pmm.pages i).refCount.toNat + 1 < 2 ^ 32))
  | .alloc | .allocContiguous _ | .free _ | .freeContiguous _ _ => .isTrue trivial

/-- Each physical page has one record, which counts at least the references held on it. -/
structure Inv (s : PmmLedger) : Prop where
  list : ∃ xs, s.pmm.ListInv xs
  distinct : ∀ i < s.pmm.totalPages, ∀ j < s.pmm.totalPages,
    (s.pmm.pages i).addr = (s.pmm.pages j).addr → i = j
  below : ∀ i < s.pmm.totalPages, (s.pmm.pages i).addr.toNat + 4096 < 2 ^ 64
  aligned : ∀ i < s.pmm.totalPages, (s.pmm.pages i).addr.toNat % 4096 = 0
  free : ∀ i < s.pmm.totalPages, (s.pmm.pages i).isFree = true → s.refs (s.pmm.pages i).addr = 0
  used : ∀ i < s.pmm.totalPages, (s.pmm.pages i).isFree = false →
    s.refs (s.pmm.pages i).addr ≤ (s.pmm.pages i).refCount.toNat
  unknown : ∀ a, (∀ i < s.pmm.totalPages, (s.pmm.pages i).addr ≠ a) → s.refs a = 0

variable {s s' : PmmLedger} {addr : U64} {i : Nat}

/-! ## From the invariant to the properties -/

theorem Inv.consecutive (h : Inv s) {count} (hb : s.pmm.Block count i) (hj : j < count) :
    (s.pmm.pages (i + j)).addr.toNat = (s.pmm.pages i).addr.toNat + j * 4096 := by
  induction j with
  | zero => simp
  | succ j ih =>
    have hfits := hb.fits
    have hnext : (s.pmm.pages (i + (j + 1))).addr = (s.pmm.pages (i + j)).addr + pmmPageSize := by
      rw [hb.addr (j + 1) hj, hb.addr j (by omega), BitVec.add_assoc, ← Pmm.ofNat_succ, BitVec.add_mul,
        one_mul]
    have hbelow := h.below (i + j) (by omega)
    rw [hnext, BitVec.toNat_add, ih (by omega)]
    have hsize : pmmPageSize.toNat = 4096 := rfl
    omega

theorem Inv.findPage (h : Inv s) (hi : i < s.pmm.totalPages) (haddr : (s.pmm.pages i).addr = addr) :
    s.pmm.findPage addr = some i := by
  cases hfind : s.pmm.findPage addr with
  | none =>
    have hno := find?_eq_none.mp hfind i (mem_range.mpr hi)
    exact absurd (beq_iff_eq.mpr haddr) hno
  | some j =>
    obtain ⟨hj, haddr'⟩ := Pmm.findPage_eq_some hfind
    rw [h.distinct j hj i hi (haddr'.trans haddr.symm)]

theorem Inv.correct (h : Inv s) : Correct s := by
  obtain ⟨xs, hlist⟩ := h.list
  refine ⟨⟨xs, hlist.represents, hlist.nodup, hlist.mem, hlist.count_toNat⟩, fun i pmm ha => ?_,
    fun count => ?_⟩
  · rcases hlist.pageAlloc with ⟨hnone, -⟩ | ⟨k, ys, hxs, hk, -⟩
    · rw [hnone] at ha
      cases ha
    · rw [ha] at hk
      cases hk
      obtain ⟨hlt, hfree⟩ := (hlist.mem i).mp (hxs ▸ mem_cons_self)
      exact ⟨hfree, h.free i hlt hfree⟩
  · rcases hlist.pagesAllocContiguous count with hnone | ⟨i, pmm, ys, hsome, -, hb, -⟩
    · exact ⟨0, s.pmm, hnone, fun h0 => absurd rfl h0⟩
    · refine ⟨_, pmm, hsome, fun _ => ⟨i, hb.fits, fun j hj => ⟨hb.free j hj, h.consecutive hb hj, ?_⟩⟩⟩
      have hfits := hb.fits
      exact h.free (i + j) (by omega) (hb.free j hj)

/-! ## The invariant over a call -/

theorem Inv.of_pages (h : Inv s) {pmm} (hlist : ∃ ys, pmm.ListInv ys)
    (htotal : pmm.totalPages = s.pmm.totalPages) (haddr : ∀ j, (pmm.pages j).addr = (s.pmm.pages j).addr)
    (hfree : ∀ j < s.pmm.totalPages, (pmm.pages j).isFree = true → refs (s.pmm.pages j).addr = 0)
    (hused : ∀ j < s.pmm.totalPages, (pmm.pages j).isFree = false →
      refs (s.pmm.pages j).addr ≤ (pmm.pages j).refCount.toNat)
    (hrefs : ∀ a, (∀ j < s.pmm.totalPages, (s.pmm.pages j).addr ≠ a) → refs a = s.refs a) :
    Inv ⟨pmm, refs⟩ := by
  refine ⟨hlist, fun i hi j hj => ?_, fun i hi => ?_, fun i hi => ?_, fun i hi => ?_, fun i hi => ?_,
    fun a ha => ?_⟩
  · rw [htotal] at hi hj
    rw [haddr, haddr]
    exact h.distinct i hi j hj
  · rw [htotal] at hi
    rw [haddr]
    exact h.below i hi
  · rw [htotal] at hi
    rw [haddr]
    exact h.aligned i hi
  · rw [htotal] at hi
    rw [haddr]
    exact hfree i hi
  · rw [htotal] at hi
    rw [haddr]
    exact hused i hi
  · have hnone : ∀ j < s.pmm.totalPages, (s.pmm.pages j).addr ≠ a := by
      intro j hj
      rw [← haddr]
      exact ha j (by rw [htotal]; exact hj)
    exact (hrefs a hnone).trans (h.unknown a hnone)

theorem Inv.of_page (h : Inv s) {pmm page} (hi : i < s.pmm.totalPages) (hlist : ∃ ys, pmm.ListInv ys)
    (htotal : pmm.totalPages = s.pmm.totalPages) (hpages : pmm.pages = update s.pmm.pages i page)
    (haddr : page.addr = (s.pmm.pages i).addr) (hother : ∀ a ≠ page.addr, refs a = s.refs a)
    (hfree : page.isFree = true → refs page.addr = 0)
    (hused : page.isFree = false → refs page.addr ≤ page.refCount.toNat) : Inv ⟨pmm, refs⟩ := by
  have hkept : ∀ j < s.pmm.totalPages, j ≠ i →
      pmm.pages j = s.pmm.pages j ∧ refs (s.pmm.pages j).addr = s.refs (s.pmm.pages j).addr := by
    intro j hj hne
    refine ⟨by rw [hpages, update_of_ne hne], hother _ fun heq => ?_⟩
    exact hne (h.distinct j hj i hi (heq.trans haddr))
  have hself : pmm.pages i = page := by rw [hpages, update_self]
  refine h.of_pages hlist htotal (fun j => ?_) (fun j hj hf => ?_) (fun j hj hf => ?_) fun a ha => ?_
  · by_cases hji : j = i
    · rw [hji, hself, haddr]
    · rw [hpages, update_of_ne hji]
  · by_cases hji : j = i
    · rw [hji, hself] at hf
      rw [hji, ← haddr]
      exact hfree hf
    · obtain ⟨hpage, hrefs⟩ := hkept j hj hji
      rw [hpage] at hf
      rw [hrefs]
      exact h.free j hj hf
  · by_cases hji : j = i
    · rw [hji, hself] at hf
      rw [hji, hself, ← haddr]
      exact hused hf
    · obtain ⟨hpage, hrefs⟩ := hkept j hj hji
      rw [hpage] at hf
      rw [hrefs, hpage]
      exact h.used j hj hf
  · exact hother a fun heq => ha i hi (by rw [heq, haddr])

theorem give_self (refs : U64 → Nat) (a : U64) : give refs [a] a = refs a + 1 := if_pos mem_cons_self

theorem give_other (h : a ∉ addrs) :
    give refs addrs a = refs a := if_neg h

theorem Inv.alloc (h : Inv s) (hs : s.step .alloc = some s') : Inv s' := by
  obtain ⟨xs, hlist⟩ := h.list
  simp only [step] at hs
  rcases hlist.pageAlloc with ⟨hnone, -⟩ | ⟨i, ys, hxs, hi, hlist', htotal, hpages⟩
  · rw [hnone] at hs
    cases hs
    exact h
  · obtain ⟨hlt, hfree⟩ := (hlist.mem i).mp (hxs ▸ mem_cons_self)
    rw [show s.pmm.pageAlloc = (some i, s.pmm.pageAlloc.2) from Prod.ext hi rfl] at hs
    cases hs
    refine h.of_page hlt ⟨ys, hlist'⟩ htotal hpages rfl (fun a ha => give_other ?_)
      (fun hf => absurd hf false_ne_true) fun _ => ?_
    · simpa using ha
    · rw [give_self]
      show s.refs (s.pmm.pages i).addr + 1 ≤ 1
      rw [h.free i hlt hfree]

theorem Inv.retain (h : Inv s) (hc : s.Counts (.retain addr)) (hs : s.step (.retain addr) = some s') :
    Inv s' := by
  obtain ⟨xs, hlist⟩ := h.list
  simp only [step] at hs
  rcases hlist.pageRetainAddr addr with hno | ⟨i, hlt, haddr, hfree, hpos, hyes, hlist', htotal, hpages⟩
  · rw [hno] at hs
    cases hs
    exact h
  · rw [show s.pmm.pageRetainAddr addr = (true, (s.pmm.pageRetainAddr addr).2) from Prod.ext hyes rfl] at hs
    cases hs
    refine h.of_page hlt ⟨xs, hlist'⟩ htotal hpages rfl (fun a ha => give_other ?_)
      (fun hf => absurd (hfree.symm.trans hf) false_ne_true) fun _ => ?_
    · rw [← haddr]
      simpa using ha
    · have hfind : s.pmm.findPage addr = some i := h.findPage hlt haddr
      have hwrap : (s.pmm.pages i).refCount.toNat + 1 < 2 ^ 32 := hc i hfind
      have hused := h.used i hlt hfree
      rw [← haddr, give_self, BitVec.toNat_add, show (1 : BitVec 32).toNat = 1 from rfl, Nat.mod_eq_of_lt hwrap]
      omega

theorem Inv.freeStep (h : Inv s) (hs : s.freeStep addr = some s') : Inv s' := by
  obtain ⟨xs, hlist⟩ := h.list
  unfold PmmLedger.freeStep at hs
  split at hs
  · cases hs
  rename_i hheld
  cases hs
  -- a page on which a reference is held has a record, which is not free
  obtain ⟨i, hi, haddr⟩ : ∃ i < s.pmm.totalPages, (s.pmm.pages i).addr = addr := by
    by_contra hno
    exact hheld (h.unknown addr fun i hi haddr => hno ⟨i, hi, haddr⟩)
  have hfind := h.findPage hi haddr
  have hfree : (s.pmm.pages i).isFree = false := by
    refine eq_false_of_not_eq_true fun hf => hheld ?_
    rw [← haddr]
    exact h.free i hi hf
  have hused := h.used i hi hfree
  rw [haddr] at hused
  rcases hlist.pageFreeAddr addr with ⟨-, hno⟩ | ⟨j, hj, -, htotal, hlist', hpages⟩
  · rw [hno i hfind] at hfree
    cases hfree
  rw [hfind] at hj
  cases hj
  have hself : update s.refs addr (s.refs addr - 1) (s.pmm.pages i).addr = s.refs addr - 1 := by
    rw [haddr, update_self]
  have hother : ∀ a ≠ (s.pmm.pages i).addr, update s.refs addr (s.refs addr - 1) a = s.refs a := by
    intro a ha
    exact update_of_ne (haddr ▸ ha) ..
  rcases hpages with ⟨hlarge, hpages⟩ | ⟨hsmall, hpages⟩
  · refine h.of_page hi hlist' htotal hpages rfl hother
      (fun hf => absurd (hfree.symm.trans hf) false_ne_true) fun _ => ?_
    rw [hself, BitVec.toNat_sub_of_le (BitVec.le_of_lt hlarge)]
    show s.refs addr - 1 ≤ (s.pmm.pages i).refCount.toNat - 1
    omega
  · refine h.of_page hi hlist' htotal hpages rfl hother (fun _ => ?_)
      fun hf => absurd hf.symm false_ne_true
    have hsmall' : (s.pmm.pages i).refCount.toNat ≤ 1 := hsmall
    rw [hself]
    omega

theorem Inv.freeAll (h : Inv s) (hs : addrs.foldlM PmmLedger.freeStep s = some s') :
    Inv s' := by
  induction addrs generalizing s with
  | nil =>
    cases hs
    exact h
  | cons a addrs ih =>
    obtain ⟨s₁, h₁, hrest⟩ := Option.bind_eq_some_iff.mp hs
    exact ih (h.freeStep h₁) hrest

theorem mem_block {start count} :
    a ∈ block start count ↔ ∃ j < count, start + BitVec.ofNat 64 j * pmmPageSize = a := by
  simp [block]

theorem Inv.allocContiguous (h : Inv s) {count} (hs : s.step (.allocContiguous count) = some s') :
    Inv s' := by
  obtain ⟨xs, hlist⟩ := h.list
  simp only [step] at hs
  rcases hlist.pagesAllocContiguous count with hnone | ⟨i, pmm, ys, hsome, -, hb, hlist', htotal, hpages⟩
  · rw [hnone] at hs
    cases hs
    exact h
  rw [hsome] at hs
  cases hs
  show Inv ⟨pmm, if (s.pmm.pages i).addr = 0 then s.refs else
    give s.refs (block (s.pmm.pages i).addr count.toNat)⟩
  have hfits := hb.fits
  have htaken : ∀ j, j ∈ (range count.toNat).map (i + ·) ↔ i ≤ j ∧ j < i + count.toNat := by
    intro j
    rw [mem_map]
    constructor
    · rintro ⟨k, hk, rfl⟩
      have := mem_range.mp hk
      omega
    · intro hj
      exact ⟨j - i, mem_range.mpr (by omega), by omega⟩
  -- what the caller gets is at most one reference on each of the pages taken
  have hgiven : ∀ j < s.pmm.totalPages, (if (s.pmm.pages i).addr = 0 then s.refs else
      give s.refs (block (s.pmm.pages i).addr count.toNat)) (s.pmm.pages j).addr ≤
      s.refs (s.pmm.pages j).addr + if i ≤ j ∧ j < i + count.toNat then 1 else 0 := by
    intro j hj
    split
    · omega
    by_cases hmem : (s.pmm.pages j).addr ∈ block (s.pmm.pages i).addr count.toNat
    · obtain ⟨k, hk, haddr⟩ := mem_block.mp hmem
      have hjk : i + k = j := h.distinct (i + k) (by omega) j hj (by rw [hb.addr k hk, haddr])
      rw [if_pos (by omega)]
      unfold give
      split <;> omega
    · rw [give_other hmem]
      omega
  have hunknown : ∀ a, (∀ j < s.pmm.totalPages, (s.pmm.pages j).addr ≠ a) →
      (if (s.pmm.pages i).addr = 0 then s.refs else
        give s.refs (block (s.pmm.pages i).addr count.toNat)) a = s.refs a := by
    intro a ha
    split
    · rfl
    refine give_other fun hmem => ?_
    obtain ⟨k, hk, haddr⟩ := mem_block.mp hmem
    exact ha (i + k) (by omega) (by rw [hb.addr k hk, haddr])
  generalize (if (s.pmm.pages i).addr = 0 then s.refs else
    give s.refs (block (s.pmm.pages i).addr count.toNat)) = refs at hgiven hunknown ⊢
  refine h.of_pages ⟨ys, hlist'⟩ htotal (fun j => ?_) (fun j hj hf => ?_) (fun j hj hf => ?_) hunknown
  · rw [hpages]
    unfold Pmm.takenPages
    split <;> rfl
  · have hbound := hgiven j hj
    rw [hpages] at hf
    unfold Pmm.takenPages at hf
    split at hf
    · cases hf
    rename_i hnot
    rw [h.free j hj hf, if_neg (fun hin => hnot ((htaken j).mpr hin))] at hbound
    exact Nat.le_zero.mp hbound
  · have hbound := hgiven j hj
    rw [hpages] at hf ⊢
    unfold Pmm.takenPages at hf ⊢
    by_cases hin : j ∈ (range count.toNat).map (i + ·)
    · obtain ⟨hle, hlt⟩ := (htaken j).mp hin
      have hfree : (s.pmm.pages j).isFree = true := by
        have := hb.free (j - i) (by omega)
        rwa [show i + (j - i) = j by omega] at this
      rw [if_pos hin]
      rw [h.free j hj hfree, if_pos ⟨hle, hlt⟩] at hbound
      exact hbound
    · rw [if_neg hin] at hf ⊢
      rw [if_neg (fun h' => hin ((htaken j).mpr h'))] at hbound
      exact le_trans hbound (h.used j hj hf)

theorem Inv.step (h : Inv s) {op} (hc : s.Counts op) (hs : s.step op = some s') : Inv s' := by
  cases op with
  | alloc => exact h.alloc hs
  | allocContiguous count => exact h.allocContiguous hs
  | retain addr => exact h.retain hc hs
  | free addr => exact h.freeStep hs
  | freeContiguous addr count => exact h.freeAll hs

/-! ## Boot, and whole runs -/

theorem page_end {range : PmmMemoryRange} (h : a ∈ range.pages) :
    a.toNat % 4096 = 0 ∧ a.toNat + 4096 ≤ range.stop.toNat := by
  unfold PmmMemoryRange.pages PmmMemoryRange.pageCount at h
  split at h
  swap
  · cases h
  obtain ⟨k, hk, rfl⟩ := mem_map.mp h
  have hk := mem_range.mp hk
  split at hk
  swap
  · omega
  rename_i hlt
  rw [BitVec.toNat_sub_of_le (BitVec.le_of_lt hlt)] at hk
  have hoffset : (BitVec.ofNat 64 k * pmmPageSize).toNat = k * 4096 := by
    rw [BitVec.toNat_mul, BitVec.toNat_ofNat, show pmmPageSize.toNat = 4096 from rfl,
      Nat.mod_eq_of_lt (by omega), Nat.mod_eq_of_lt (by omega)]
  have hstart : range.start.toNat % 4096 = 0 := by
    have hround : range.start.toNat = (range.base + pmmPageSize - 1).toNat / 4096 * 4096 :=
      toNat_and_not_mask (k := 12) _ rfl
    omega
  have hval : (range.start + BitVec.ofNat 64 k * pmmPageSize).toNat = range.start.toNat + k * 4096 := by
    rw [BitVec.toNat_add, hoffset, Nat.mod_eq_of_lt (by omega)]
  omega

/-- After `pmm_init_from_ranges` nobody holds a reference. -/
def boot (available : List PmmMemoryRange) (reserved : List PmmReservedRange) : Option PmmLedger :=
  (Pmm.init available reserved).map fun pmm => { pmm }

variable {available : List PmmMemoryRange} {reserved : List PmmReservedRange} {s₀ : PmmLedger}

theorem inv_boot (hboot : boot available reserved = some s₀)
    (hdistinct : (available.flatMap (·.pages)).Nodup) : Inv s₀ := by
  obtain ⟨pmm, hinit, rfl⟩ := Option.map_eq_some_iff.mp hboot
  obtain ⟨all, -, hb⟩ := Pmm.init_booted hinit
  have hpage : ∀ i < pmm.totalPages, ∃ range : PmmMemoryRange, (pmm.pages i).addr ∈ range.pages := by
    intro i hi
    obtain ⟨range, -, hmem⟩ := mem_flatMap.mp (mem_of_getElem? (hb.addr i hi))
    exact ⟨range, hmem⟩
  refine ⟨hb.list, fun i hi j hj heq => ?_, fun i hi => ?_, fun i hi => ?_, fun i _ _ => rfl,
    fun i _ _ => Nat.zero_le _, fun a _ => rfl⟩
  · have hi' := hb.addr i hi
    have hj' := hb.addr j hj
    rw [heq, ← hj'] at hi'
    exact (getElem?_inj (List.getElem?_eq_some_iff.mp (hi'.trans hj')).1 hdistinct).mp hi'
  · obtain ⟨range, hmem⟩ := hpage i hi
    exact lt_of_le_of_lt (page_end hmem).2 range.stop.isLt
  · obtain ⟨range, hmem⟩ := hpage i hi
    exact (page_end hmem).1

/-- **The page allocator is correct.** If no page is in two of the available ranges, then after any
calls whose counts of references do not wrap the free list is that of the free pages, a page is
handed out only when no reference to it is left, and a block consists of free pages in a row. -/
theorem allocator_correct {ops : List PmmOp} (hboot : boot available reserved = some s₀)
    (hdistinct : (available.flatMap (·.pages)).Nodup)
    (hr : Run (fun s op s' => s.Counts op ∧ s.step op = some s') s₀ ops s) : Correct s :=
  (hr.invariant (P := Inv) (fun _ _ _ h hs => h.step hs.1 hs.2) (inv_boot hboot hdistinct)).correct

def lowMemory : List PmmMemoryRange := [⟨0x200000, 0x6000⟩]

def lowReserved : List PmmReservedRange := [⟨0x203000, 0x203800⟩]

def retainAndFree : List PmmOp :=
  [.alloc, .allocContiguous 2, .retain 0x201000, .free 0x201000, .free 0x201000, .freeContiguous 0x202000 1,
    .allocContiguous 2]

theorem allocator_correct_low : ∃ s₀ s, boot lowMemory lowReserved = some s₀ ∧
    Run (fun s op s' => s.Counts op ∧ s.step op = some s') s₀ retainAndFree s ∧
    s.refs 0x201000 = 1 ∧ Correct s := by
  have hrun : ((boot lowMemory lowReserved).bind fun s₀ =>
      (Run.exec (fun s op => if PmmLedger.Counts s op then s.step op else none) s₀ retainAndFree).map
        fun s => s.refs 0x201000) = some 1 := by decide +kernel
  obtain ⟨s₀, hboot, hexec⟩ := Option.bind_eq_some_iff.mp hrun
  obtain ⟨s, hs, hrefs⟩ := Option.map_eq_some_iff.mp hexec
  have hr := Run.of_exec_guard hs
  exact ⟨s₀, s, hboot, hr, hrefs, allocator_correct hboot (by decide) hr⟩

/-! ## Two records of one page, and a count that wraps -/

/-- `n` times `pmm_page_retain_addr` on one page. -/
theorem run_retains (n : Nat) (hfind : s.pmm.findPage addr = some i) (hfree : (s.pmm.pages i).isFree = false)
    (hpos : 0 < (s.pmm.pages i).refCount.toNat) (hn : (s.pmm.pages i).refCount.toNat + n ≤ 2 ^ 32) :
    ∃ s', Run (fun s op s' => s.step op = some s') s (replicate n (.retain addr)) s' ∧
      s'.pmm.free = s.pmm.free ∧ s'.pmm.findPage addr = some i ∧
      s'.pmm.pages i = { s.pmm.pages i with refCount := (s.pmm.pages i).refCount + BitVec.ofNat 32 n } ∧
      s'.refs addr = s.refs addr + n := by
  induction n with
  | zero => exact ⟨s, .nil s, rfl, hfind, by simp, rfl⟩
  | succ n ih =>
    obtain ⟨s₁, hr, hlist, hfind₁, hpage, hrefs⟩ := ih (by omega)
    have hcount : (s₁.pmm.pages i).refCount.toNat = (s.pmm.pages i).refCount.toNat + n := by
      rw [hpage]
      rw [BitVec.toNat_add, BitVec.toNat_ofNat]
      omega
    have hok : ¬((s₁.pmm.pages i).isFree = true ∨ (s₁.pmm.pages i).refCount = 0) := by
      rintro (h | h)
      · rw [hpage] at h
        exact absurd (hfree.symm.trans h) false_ne_true
      · rw [h] at hcount
        have : (0 : U32).toNat = 0 := rfl
        omega
    have hstep : s₁.step (.retain addr) = some ⟨s₁.pmm.updPage i
        { s₁.pmm.pages i with refCount := (s₁.pmm.pages i).refCount + 1 }, give s₁.refs [addr]⟩ := by
      simp only [step, Pmm.pageRetainAddr, hfind₁]
      rw [if_neg hok]
    rw [replicate_succ']
    refine ⟨_, hr.snoc hstep, hlist, ?_, ?_, ?_⟩
    · rw [← hfind₁]
      exact Pmm.findPage_updPage _ rfl
    · rw [Pmm.updPage_pages_self, hpage]
      simp [BitVec.add_assoc, BitVec.ofNat_add]
    · show give s₁.refs [addr] addr = _
      rw [give_self, hrefs]
      omega

theorem not_correct (hhead : s.pmm.free.head = some i) (hrefs : s.refs (s.pmm.pages i).addr ≠ 0) :
    ¬Correct s := by
  intro h
  refine hrefs (h.alloc i s.pmm.pageAlloc.2 (Prod.ext ?_ rfl)).2
  unfold Pmm.pageAlloc
  rw [hhead]

/-- A page whose count of references is back at 0 is handed out after the next
`pmm_page_free_addr`. -/
theorem not_correct_wrapped (hfind : s.pmm.findPage addr = some i) (hfree : (s.pmm.pages i).isFree = false)
    (hcount : (s.pmm.pages i).refCount = 0) (hrefs : 1 < s.refs addr) :
    ∃ s', s.step (.free addr) = some s' ∧ ¬Correct s' := by
  obtain ⟨-, haddr⟩ := Pmm.findPage_eq_some hfind
  have hpmm : s.pmm.pageFreeAddr addr = s.pmm.pageListPush i := by
    simp [Pmm.pageFreeAddr, Pmm.pageFree, haddr, hfind, hfree, hcount]
  refine ⟨⟨s.pmm.pageListPush i, update s.refs addr (s.refs addr - 1)⟩, ?_, not_correct rfl ?_⟩
  · rw [← hpmm]
    exact if_neg (by omega)
  · show update s.refs addr (s.refs addr - 1) ((s.pmm.updPage i _).pages i).addr ≠ 0
    rw [Pmm.updPage_pages_self]
    rw [haddr, update_self]
    omega

def twice : List PmmMemoryRange := [⟨0x200000, 0x3000⟩, ⟨0x200000, 0x3000⟩]

theorem allocator_not_correct :
    (∃ s₀ s, boot twice [] = some s₀ ∧ Run (fun s op s' => s.step op = some s') s₀ [.alloc, .alloc] s ∧
      ¬Correct s) ∧ ∃ s₀ s, boot lowMemory [] = some s₀ ∧ Run (fun s op s' => s.step op = some s') s₀
        ([.alloc] ++ replicate (2 ^ 32 - 1) (.retain 0x201000) ++ [.free 0x201000]) s ∧ ¬Correct s := by
  constructor
  · have hrun : ((boot twice []).bind fun s₀ =>
        (Run.exec PmmLedger.step s₀ [.alloc, .alloc]).map fun s =>
          (s.pmm.free.head, (s.pmm.pages 4).addr, s.refs 0x201000)) = some (some 4, 0x201000, 1) := by
      decide +kernel
    obtain ⟨s₀, hboot, hexec⟩ := Option.bind_eq_some_iff.mp hrun
    obtain ⟨s, hs, hfacts⟩ := Option.map_eq_some_iff.mp hexec
    injection hfacts with hhead hrest
    injection hrest with haddr hrefs
    refine ⟨s₀, s, hboot, Run.of_exec (fun _ _ _ h => h) hs, not_correct hhead ?_⟩
    rw [haddr, hrefs]
    decide
  · have hrun : ((boot lowMemory []).bind fun s₀ =>
        (s₀.step .alloc).map fun s =>
          (s.pmm.findPage 0x201000, s.pmm.pages 1, s.refs 0x201000)) =
        some (some 1, ⟨0x201000, false, 1⟩, 1) := by
      decide +kernel
    obtain ⟨s₀, hboot, hstep⟩ := Option.bind_eq_some_iff.mp hrun
    obtain ⟨s₁, hs₁, hfacts⟩ := Option.map_eq_some_iff.mp hstep
    injection hfacts with hfind hrest
    injection hrest with hpage hrefs
    obtain ⟨s₂, hr, -, hfind', hpage', hrefs'⟩ := run_retains (2 ^ 32 - 1) hfind (by rw [hpage])
      (by rw [hpage]; decide) (by rw [hpage]; decide)
    rw [hpage] at hpage'
    obtain ⟨s, hs, hnot⟩ := not_correct_wrapped hfind' (by rw [hpage']) (by rw [hpage']; decide)
      (by rw [hrefs', hrefs]; decide)
    exact ⟨s₀, s, hboot, ((Run.cons hs₁ (.nil _)).append hr).snoc hs, hnot⟩

end PmmLedger

end Bunix.Kernel
