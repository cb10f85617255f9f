import Bunix.Kernel.PmmRun

/-! # Reserved memory

A page that overlaps a range reserved at boot is one that is not free and was never handed out; no
field says so. `pmm_page_free_addr` takes such a page for one whose last reference goes. So reserved
memory is not handed out as long as nobody frees it.
-/
namespace Bunix.Kernel

open Bunix.Lib PmmLedger List BitVec Option

/-- A byte of the page at `addr` lies in the range. -/
def PmmReservedRange.OverlapsPage (r : PmmReservedRange) (addr : U64) : Prop :=
  ∃ x, addr.toNat ≤ x ∧ x < addr.toNat + 4096 ∧ r.start.toNat ≤ x ∧ x < r.stop.toNat

theorem PmmReservedRange.overlapsPage_iff (r : PmmReservedRange) (addr : U64) :
    (addr.toNat < r.stop.toNat ∧ r.start.toNat < addr.toNat + 4096 ∧ r.start.toNat < r.stop.toNat) ↔
      r.OverlapsPage addr := by
  constructor
  · rintro ⟨h₁, h₂, h₃⟩
    exact ⟨max addr.toNat r.start.toNat, by omega, by omega, by omega, by omega⟩
  · rintro ⟨x, hx₁, hx₂, hx₃, hx₄⟩
    omega

instance (r : PmmReservedRange) (addr : U64) : Decidable (r.OverlapsPage addr) :=
  decidable_of_iff _ (r.overlapsPage_iff addr)

namespace Pmm

/-- One call, for any argument: the pages that it hands out, and the state after it. -/
def call (s : Pmm) : PmmOp → Option (List U64 × Pmm)
  | .alloc =>
    match s.pageAlloc with
    | (none, s') => some ([], s')
    | (some i, s') => some ([(s.pages i).addr], s')
  | .allocContiguous count =>
    (s.pagesAllocContiguous count).map fun (start, s') =>
      (if start = 0 then [] else block start count.toNat, s')
  | .retain addr => some ([], (s.pageRetainAddr addr).2)
  | .free addr => some ([], s.pageFreeAddr addr)
  | .freeContiguous addr count => some ([], s.pagesFreeContiguous addr count)

def step (s : Pmm) (op : PmmOp) : Option Pmm := (s.call op).map (·.2)

def freedAddrs : PmmOp → List U64
  | .free addr => [addr]
  | .freeContiguous addr count => block addr count.toNat
  | _ => []

/-- None of the pages freed is reserved. -/
def SparesReserved (all : List PmmReservedRange) (op : PmmOp) : Prop :=
  ∀ a ∈ freedAddrs op, ∀ r ∈ all, ¬r.OverlapsPage a

instance (all : List PmmReservedRange) (op : PmmOp) : Decidable (SparesReserved all op) :=
  decidableBAll (fun a => ∀ r ∈ all, ¬r.OverlapsPage a) (freedAddrs op)

/-- No page that is handed out is reserved. -/
def KeepsReserved (all : List PmmReservedRange) (s : Pmm) : Prop :=
  ∀ op addrs s', s.call op = some (addrs, s') → ∀ a ∈ addrs, ∀ r ∈ all, ¬r.OverlapsPage a

structure ReservedInv (all : List PmmReservedRange) (s : Pmm) : Prop where
  list : ∃ xs, ListInv s xs
  spared : ∀ i < s.totalPages, (s.pages i).isFree = true → ∀ r ∈ all, ¬r.OverlapsPage (s.pages i).addr

variable {s s' : Pmm} {all : List PmmReservedRange} {i : Nat} {addr : U64}

/-! ## A call -/

section
variable (h : ReservedInv all s)
include h

theorem ReservedInv.of_pages (hlist : ∃ ys, ListInv s' ys) (htotal : s'.totalPages = s.totalPages)
    (hpages : ∀ i, (s'.pages i).addr = (s.pages i).addr ∧
      ((s'.pages i).isFree = true → (s.pages i).isFree = true)) : ReservedInv all s' := by
  refine ⟨hlist, fun i hi hf => ?_⟩
  obtain ⟨haddr, hfree⟩ := hpages i
  rw [haddr]
  exact h.spared i (htotal ▸ hi) (hfree hf)

theorem ReservedInv.of_page {page} (hlist : ∃ ys, ListInv s' ys)
    (htotal : s'.totalPages = s.totalPages) (hpages : s'.pages = Function.update s.pages i page)
    (hfree : page.isFree = true → ∀ r ∈ all, ¬r.OverlapsPage page.addr) : ReservedInv all s' := by
  refine ⟨hlist, fun j hj hf => ?_⟩
  rw [hpages] at hf ⊢
  exact update_cases (fun _ => hfree) (fun _ => h.spared j (htotal ▸ hj)) hf

theorem ReservedInv.pageFreeAddr (hspared : ∀ r ∈ all, ¬r.OverlapsPage addr) :
    ReservedInv all (s.pageFreeAddr addr) := by
  obtain ⟨xs, hlist⟩ := h.list
  rcases hlist.pageFreeAddr addr with ⟨hsame, -⟩ | ⟨i, hfind, hused, htotal, hlist', hpages⟩
  · rw [hsame]
    exact h
  obtain ⟨-, haddr⟩ := findPage_eq_some hfind
  rcases hpages with ⟨-, hpages⟩ | ⟨-, hpages⟩
  · refine h.of_page hlist' htotal hpages fun hf => ?_
    exact absurd (hused.symm.trans hf) Bool.false_ne_true
  · refine h.of_page hlist' htotal hpages fun _ => ?_
    rw [← haddr] at hspared
    exact hspared

theorem ReservedInv.pagesFreeContiguous {count}
    (hspared : ∀ a ∈ block addr count.toNat, ∀ r ∈ all, ¬r.OverlapsPage a) :
    ReservedInv all (s.pagesFreeContiguous addr count) := by
  have hfold : ∀ (is : List Nat) (s : Pmm), ReservedInv all s →
      (∀ j ∈ is, ∀ r ∈ all, ¬r.OverlapsPage (addr + BitVec.ofNat 64 j * pmmPageSize)) →
      ReservedInv all (is.foldl (fun s j => s.pageFreeAddr (addr + BitVec.ofNat 64 j * pmmPageSize)) s) := by
    intro is
    induction is with
    | nil => exact fun s h _ => h
    | cons j is ih =>
      intro s h hspared
      exact ih _ (h.pageFreeAddr (hspared j mem_cons_self)) fun k hk =>
        hspared k (mem_cons_of_mem j hk)
  refine hfold _ s h fun j hj => hspared _ ?_
  exact mem_block.mpr ⟨j, mem_range.mp hj, rfl⟩

/-- What a call hands out were free pages, and a call that frees no reserved page keeps the
invariant. -/
theorem ReservedInv.call {op addrs} (hs : s.call op = some (addrs, s')) :
    (∀ a ∈ addrs, ∀ r ∈ all, ¬r.OverlapsPage a) ∧ (SparesReserved all op → ReservedInv all s') := by
  obtain ⟨xs, hlist⟩ := h.list
  cases op with
  | alloc =>
    simp only [Pmm.call] at hs
    rcases hlist.pageAlloc with ⟨hnone, -⟩ | ⟨i, ys, hxs, hi, hlist', htotal, hpages⟩
    · rw [hnone] at hs
      cases hs
      exact ⟨fun a ha => absurd ha not_mem_nil, fun _ => h⟩
    · obtain ⟨hlt, hfree⟩ := (hlist.mem i).mp (hxs ▸ mem_cons_self)
      rw [show s.pageAlloc = (some i, s.pageAlloc.2) from Prod.ext hi rfl] at hs
      cases hs
      refine ⟨fun a ha => ?_, fun _ => h.of_page ⟨ys, hlist'⟩ htotal hpages fun hf => ?_⟩
      · rw [mem_singleton.mp ha]
        exact h.spared i hlt hfree
      · exact absurd hf Bool.false_ne_true
  | allocContiguous count =>
    simp only [Pmm.call] at hs
    rcases hlist.pagesAllocContiguous count with hnone | ⟨i, s₁, ys, hsome, -, hb, hlist', htotal, hpages⟩
    · rw [hnone] at hs
      cases hs
      exact ⟨fun a ha => absurd ha not_mem_nil, fun _ => h⟩
    · rw [hsome] at hs
      cases hs
      refine ⟨fun a ha => ?_, fun _ => h.of_pages ⟨ys, hlist'⟩ htotal fun j => ?_⟩
      · have hblock : a ∈ block (s.pages i).addr count.toNat := by
          by_cases h0 : (s.pages i).addr = 0
          · rw [if_pos h0] at ha
            exact absurd ha not_mem_nil
          · rwa [if_neg h0] at ha
        obtain ⟨k, hk, rfl⟩ := mem_block.mp hblock
        have hfits := hb.fits
        rw [← hb.addr k hk]
        exact h.spared (i + k) (by omega) (hb.free k hk)
      · rw [hpages]
        unfold takenPages
        split
        · exact ⟨rfl, fun hf => absurd hf Bool.false_ne_true⟩
        · exact ⟨rfl, id⟩
  | retain addr =>
    cases hs
    refine ⟨fun a ha => absurd ha not_mem_nil, fun _ => ?_⟩
    rcases hlist.pageRetainAddr addr with hno | ⟨i, hlt, -, -, -, -, hlist', htotal, hpages⟩
    · rw [hno]
      exact h
    · exact h.of_page ⟨xs, hlist'⟩ htotal hpages fun hf => h.spared i hlt hf
  | free addr =>
    cases hs
    refine ⟨fun a ha => absurd ha not_mem_nil, fun hsp => h.pageFreeAddr ?_⟩
    exact hsp addr mem_cons_self
  | freeContiguous addr count =>
    cases hs
    exact ⟨fun a ha => absurd ha not_mem_nil, fun hsp => h.pagesFreeContiguous hsp⟩

end

/-! ## Boot -/

/-- The pages that `reserve_range` leaves on the list do not overlap the range, if its end can be
rounded up. -/
theorem not_overlapsPage {pages : Nat → PmmPage} {r : PmmReservedRange}
    (hbelow : (pages i).addr.toNat + 4096 < 2 ^ 64) (hend : r.stop.toNat + 4095 < 2 ^ 64)
    (h : overlaps pages (alignDown r.start pmmPageSize) (alignUp r.stop pmmPageSize) i = false) :
    ¬r.OverlapsPage (pages i).addr := by
  rintro ⟨x, hx₁, hx₂, hx₃, hx₄⟩
  have hstop : (pages i).addr < alignUp r.stop pmmPageSize := by
    rw [lt_def, toNat_alignUp hend]
    omega
  have hstart : alignDown r.start pmmPageSize < (pages i).addr + pmmPageSize := by
    rw [lt_def, toNat_alignDown, toNat_add, show pmmPageSize.toNat = 4096 from rfl,
      Nat.mod_eq_of_lt hbelow]
    omega
  unfold overlaps rangesOverlap at h
  rw [decide_eq_true hstop, decide_eq_true hstart] at h
  cases h

variable {available : List PmmMemoryRange} {reserved : List PmmReservedRange} {s₀ : Pmm}

theorem metadata_end {start bytes count}
    (h : findMetadataStorage available reserved count = some (start, bytes)) :
    (start + bytes).toNat + 4095 < 2 ^ 64 := by
  obtain ⟨range, -, hfound⟩ := exists_of_findSome?_eq_some h
  obtain ⟨a, ha, heq⟩ := map_eq_some_iff.mp hfound
  cases heq
  have hmem := mem_of_find?_eq_some ha
  have hfits := find?_some ha
  rw [Bool.and_eq_true, decide_eq_true_eq] at hfits
  have hend := (page_end hmem).2
  have hsub := le_def.mp hfits.1
  rw [toNat_sub_of_le (le_def.mpr (by omega))] at hsub
  have hstop : range.stop.toNat + 4096 ≤ 2 ^ 64 := by
    unfold PmmMemoryRange.stop
    rw [toNat_alignDown]
    omega
  rw [toNat_add, Nat.mod_eq_of_lt (by omega)]
  omega

theorem bootReserved_ends (hall : bootReserved available reserved = some all)
    (hends : ∀ r ∈ reserved, r.stop.toNat + 4095 < 2 ^ 64) : ∀ r ∈ all, r.stop.toNat + 4095 < 2 ^ 64 := by
  unfold bootReserved at hall
  split at hall
  · cases hall
  rename_i start bytes hfind
  split at hall
  · cases hall
  cases hall
  intro r hr
  rcases mem_append.mp hr with hr | hr
  · exact hends r hr
  · rw [mem_singleton.mp hr]
    exact metadata_end hfind

theorem reservedInv_init (hall : bootReserved available reserved = some all)
    (hinit : init available reserved = some s₀) (hends : ∀ r ∈ reserved, r.stop.toNat + 4095 < 2 ^ 64) :
    ReservedInv all s₀ := by
  obtain ⟨all', hall', hb⟩ := init_booted hinit
  rw [hall] at hall'
  cases hall'
  refine ⟨hb.list, fun i hi hf r hr => ?_⟩
  obtain ⟨range, -, hmem⟩ := mem_flatMap.mp (mem_of_getElem? (hb.addr i hi))
  exact not_overlapsPage (Nat.lt_of_le_of_lt (page_end hmem).2 range.stop.isLt) (bootReserved_ends hall hends r hr)
    (hb.reserved i hi hf r hr)

/-- **Reserved memory is not handed out** as long as nobody frees a page of it and the end of each
reserved range can be rounded up. -/
theorem reserved_kept {ops : List PmmOp} (hall : bootReserved available reserved = some all)
    (hinit : init available reserved = some s₀) (hends : ∀ r ∈ reserved, r.stop.toNat + 4095 < 2 ^ 64)
    (hr : Run (fun s op s' => SparesReserved all op ∧ s.step op = some s') s₀ ops s) :
    KeepsReserved all s := by
  have hinv : ReservedInv all s := by
    refine hr.invariant (P := ReservedInv all) (fun s op s' h hs => ?_) (reservedInv_init hall hinit hends)
    obtain ⟨hspares, hstep⟩ := hs
    obtain ⟨⟨addrs, s₁⟩, hcall, rfl⟩ := map_eq_some_iff.mp hstep
    exact (h.call hcall).2 hspares
  exact fun op addrs s' hcall => (hinv.call hcall).1

/-- The reserved range of `lowReserved`, and the storage of the records. -/
def lowBootReserved : List PmmReservedRange := [⟨0x203000, 0x203800⟩, ⟨0x200000, 0x201000⟩]

def odd : List PmmOp := [.alloc, .free 0x201000, .free 0x201000, .free 0x201800, .free 0x900000, .alloc]

theorem reserved_kept_low : ∃ s₀ s, bootReserved lowMemory lowReserved = some lowBootReserved ∧
    init lowMemory lowReserved = some s₀ ∧
    Run (fun s op s' => SparesReserved lowBootReserved op ∧ s.step op = some s') s₀ odd s ∧
    KeepsReserved lowBootReserved s := by
  have hrun : ((init lowMemory lowReserved).bind fun s₀ =>
      Run.exec (fun s op => if SparesReserved lowBootReserved op then Pmm.step s op else none) s₀
        odd).isSome = true := by
    decide +kernel
  obtain ⟨s, hs⟩ := isSome_iff_exists.mp hrun
  obtain ⟨s₀, hinit, hexec⟩ := bind_eq_some_iff.mp hs
  have hall : bootReserved lowMemory lowReserved = some lowBootReserved := by
    decide +kernel
  have hr := Run.of_exec_guard hexec
  exact ⟨s₀, s, hall, hinit, hr, reserved_kept hall hinit (by decide +kernel) hr⟩

/-- A page of the boot module is freed and handed out; and so is, without a free, one of a range
whose end wraps when it is rounded up. -/
theorem reserved_handed_out : (∃ s₀ s, bootReserved lowMemory lowReserved = some lowBootReserved ∧
      init lowMemory lowReserved = some s₀ ∧
      Run (fun s op s' => s.step op = some s') s₀ [.free 0x203000] s ∧
      ¬KeepsReserved lowBootReserved s) ∧
    ∃ s₀, bootReserved lowMemory [⟨0x202000, 0xffffffffffffffff⟩] =
        some [⟨0x202000, 0xffffffffffffffff⟩, ⟨0x200000, 0x201000⟩] ∧
      init lowMemory [⟨0x202000, 0xffffffffffffffff⟩] = some s₀ ∧
      ¬KeepsReserved [⟨0x202000, 0xffffffffffffffff⟩, ⟨0x200000, 0x201000⟩] s₀ := by
  constructor
  · have hrun : ((init lowMemory lowReserved).bind fun s₀ =>
        (s₀.step (.free 0x203000)).bind fun s => (s.call .alloc).map (·.1)) = some [0x203000] := by
      decide +kernel
    obtain ⟨s₀, hinit, hrest⟩ := bind_eq_some_iff.mp hrun
    obtain ⟨s, hs, hcall⟩ := bind_eq_some_iff.mp hrest
    obtain ⟨⟨addrs, s'⟩, hcall, rfl⟩ := map_eq_some_iff.mp hcall
    refine ⟨s₀, s, by decide +kernel, hinit, .cons hs (.nil s), fun hkeeps => ?_⟩
    exact hkeeps .alloc _ s' hcall _ mem_cons_self ⟨0x203000, 0x203800⟩ mem_cons_self
      (by decide +kernel)
  · have hrun : ((init lowMemory [⟨0x202000, 0xffffffffffffffff⟩]).bind fun s₀ =>
        (s₀.call (.allocContiguous 5)).map (·.1)) =
        some [0x201000, 0x202000, 0x203000, 0x204000, 0x205000] := by
      decide +kernel
    obtain ⟨s₀, hinit, hcall⟩ := bind_eq_some_iff.mp hrun
    obtain ⟨⟨addrs, s'⟩, hcall, rfl⟩ := map_eq_some_iff.mp hcall
    refine ⟨s₀, by decide +kernel, hinit, fun hkeeps => ?_⟩
    exact hkeeps (.allocContiguous 5) _ s' hcall 0x202000 (by decide +kernel)
      ⟨0x202000, 0xffffffffffffffff⟩ mem_cons_self (by decide +kernel)

end Pmm

end Bunix.Kernel
