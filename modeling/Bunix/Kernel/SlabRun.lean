import Bunix.Kernel.PmmRun
import Bunix.Kernel.SlabInv
import Mathlib.Data.List.Pairwise

/-! # Separation of the objects of the slab allocator

Beside the allocator runs a list of the live objects: what its callers got and have not freed, with
the size they asked for. Callers write to their live objects, everybody else outside of the
allocator's pages, and the allocator to its headers and free lists. The live objects stay apart from
each other and from what the allocator writes to.
-/
namespace Bunix.Kernel

open Bunix.Lib Function ByteMem PageBlock Slab List Nat

variable {fr : List U64} {node ptr size base : U64} {mem : ByteMem} {live : List SlabObject}
  {new : PageBlock} {owned : List PageBlock}

structure SlabObject where
  ptr : U64
  size : U64
deriving DecidableEq, Repr

structure SlabSystem where
  slab : Slab
  live : List SlabObject := []

inductive SlabOp where
  | alloc (size base : U64)
  | zalloc (size base : U64)
  | free (ptr : U64)
  | write (addr : U64) (byte : BitVec 8)
deriving DecidableEq, Repr

def SlabObject.Holds (o : SlabObject) (x : U64) : Prop :=
  o.ptr.toNat ≤ x.toNat ∧ x.toNat < o.ptr.toNat + o.size.toNat

namespace Slab

/-- The number of pages that an allocation asks the page allocator for. -/
def askedPages (size : U64) : Nat :=
  match cacheForSize size with
  | some cache => slotPages cache
  | none => (largePages size).toNat

/-- The nodes of the free list of a slab. -/
inductive OnFreeList (mem : ByteMem) (slab : U64) : U64 → Prop
  | head (h : mem.load64 (freeField slab) ≠ 0) : OnFreeList mem slab (mem.load64 (freeField slab))
  | next {node : U64} (hn : OnFreeList mem slab node) (h : mem.load64 node ≠ 0) :
      OnFreeList mem slab (mem.load64 node)

/-- The bytes that the allocator keeps for itself: its headers, and the links of its free lists. -/
def Metadata (s : Slab) (x : U64) : Prop :=
  ∃ b ∈ s.owned, match b.cache with
    | none => Within b.base slabLargeHeaderSize.toNat x
    | some _ => Within b.base slabHeaderSize.toNat x ∨
        ∃ node, OnFreeList s.mem b.base node ∧ Within node 8 x

end Slab

namespace SlabSystem

/-- There are never more slabs than blocks of pages. -/
def rounds (s : SlabSystem) : Nat := s.slab.owned.length

def record (live : List SlabObject) (size : U64) : U64 × Slab → SlabSystem
  | (ptr, slab) => ⟨slab, if ptr = 0 then live else ⟨ptr, size⟩ :: live⟩

def step (s : SlabSystem) : SlabOp → Option SlabSystem
  | .alloc size base => (s.slab.slabAlloc s.rounds size base).map (record s.live size)
  | .zalloc size base => (s.slab.slabZalloc s.rounds size base).map (record s.live size)
  | .free ptr =>
    (s.slab.slabFree s.rounds ptr).map fun (slab, _) => ⟨slab, s.live.filter (·.ptr != ptr)⟩
  | .write addr byte => some { s with slab.mem := update s.slab.mem addr byte }

/-- What the callers and the page allocator keep to: the page allocator answers with 0 or with pages
that the slab allocator does not own, the size of an allocation can be rounded up to pages, live
pointers are freed, and memory is written to in live objects or outside of the allocator's pages. -/
def Permitted (s : SlabSystem) : SlabOp → Prop
  | .alloc size base | .zalloc size base =>
    size.toNat + 64 + 4095 < 2 ^ 64 ∧ (base ≠ 0 → Fits ⟨base, askedPages size, none⟩ ∧
        ∀ b ∈ s.slab.owned, Apart ⟨base, askedPages size, none⟩ b)
  | .free ptr => ptr = 0 ∨ ∃ o ∈ s.live, o.ptr = ptr
  | .write addr _ => (∃ o ∈ s.live, o.Holds addr) ∨ ∀ b ∈ s.slab.owned, ¬b.Holds addr

instance (o : SlabObject) (x : U64) : Decidable (o.Holds x) :=
  inferInstanceAs (Decidable (o.ptr.toNat ≤ x.toNat ∧ x.toNat < o.ptr.toNat + o.size.toNat))

instance (s : SlabSystem) (op : SlabOp) : Decidable (s.Permitted op) :=
  match op with
  | .alloc size base | .zalloc size base =>
    inferInstanceAs (Decidable (size.toNat + 64 + 4095 < 2 ^ 64 ∧
      (base ≠ 0 → Fits ⟨base, askedPages size, none⟩ ∧
        ∀ b ∈ s.slab.owned, Apart ⟨base, askedPages size, none⟩ b)))
  | .free ptr => inferInstanceAs (Decidable (ptr = 0 ∨ ∃ o ∈ s.live, o.ptr = ptr))
  | .write addr _ =>
    inferInstanceAs (Decidable ((∃ o ∈ s.live, o.Holds addr) ∨ ∀ b ∈ s.slab.owned, ¬b.Holds addr))

structure Separated (s : SlabSystem) : Prop where
  inside : ∀ o ∈ s.live, o.ptr.toNat + o.size.toNat < 2 ^ 64 ∧
    ∃ b ∈ s.slab.owned, ∀ x, o.Holds x → b.Holds x
  apart : s.live.Pairwise fun o p => ∀ x, o.Holds x → ¬p.Holds x
  metadata : ∀ o ∈ s.live, ∀ x, o.Holds x → ¬s.slab.Metadata x
  returned : ∀ ptr slab base count, s.Permitted (.free ptr) →
    s.slab.slabFree s.rounds ptr = some (slab, some (base, count)) →
    (∃ b ∈ s.slab.owned, b.base = base ∧ count.toNat ≤ b.pages) ∧
    ∀ o ∈ s.live, o.ptr ≠ ptr → ∀ x, o.Holds x →
      ¬(base.toNat ≤ x.toNat ∧ x.toNat < base.toNat + count.toNat * 4096)
  completes : ∀ op, s.Permitted op → (s.step op).isSome = true

/-! ## The invariant -/

def Home (b : PageBlock) (free : List U64) (o : SlabObject) : Prop :=
  0 < o.size.toNat ∧
  match b.cache with
  | some cache => IsSlot cache b.base o.ptr ∧ o.ptr ∉ free ∧ o.size.toNat ≤ slotSize cache
  | none => o.ptr = b.base + largeOffset ∧ 64 + o.size.toNat ≤ b.pages * 4096

def bases (owned : List PageBlock) (cache : Nat) : List U64 :=
  (owned.filter fun b => b.cache == some cache).map (·.base)

/-- The bytes that say what a block is. -/
def Kept (b : PageBlock) (free : List U64) (x : U64) : Prop :=
  match b.cache with
  | some _ => Footprint b.base free x
  | none => Within b.base 8 x

structure Inv (s : SlabSystem) (free : U64 → List U64) : Prop where
  ready : s.slab.ready = true
  fits : ∀ b ∈ s.slab.owned, b.Fits
  apart : s.slab.owned.Pairwise Apart
  pages : ∀ b ∈ s.slab.owned, ∀ i, b.cache = some i → i < 13 ∧ b.pages = slotPages i
  lists : ∀ i < 13, PtrList.Chain (fun slab => nonNull (s.slab.mem.load64 (nextField slab)))
    (nonNull (s.slab.slabs i)) (bases s.slab.owned i)
  slabs : ∀ b ∈ s.slab.owned, ∀ i, b.cache = some i → IsSlab s.slab.mem i b.base (free b.base)
  large : ∀ b ∈ s.slab.owned, b.cache = none → s.slab.mem.load32 b.base = slabLargeMagic ∧
    s.slab.mem.load32 (b.base + 4) = BitVec.ofNat 32 b.pages
  home : ∀ o ∈ s.live, ∃ b ∈ s.slab.owned, Home b (free b.base) o
  distinct : (s.live.map (·.ptr)).Nodup

variable {s : SlabSystem} {free : U64 → List U64} {b c : PageBlock} {o p : SlabObject} {x : U64} {i : Nat}

theorem Inv.apart_of_ne (h : Inv s free) (hb : b ∈ s.slab.owned) (hc : c ∈ s.slab.owned) (hne : b ≠ c) :
    Apart b c :=
  h.apart.forall hb hc hne

theorem Inv.block_eq (h : Inv s free) (hb : b ∈ s.slab.owned) (hc : c ∈ s.slab.owned) (hx : b.Holds x)
    (hx' : c.Holds x) : b = c := by
  by_contra hne
  exact (h.apart_of_ne hb hc hne).not_holds hx hx'

theorem base_holds (h : b.Fits) : b.Holds b.base := by
  have hpos := h.pos
  unfold Holds
  omega

theorem Inv.eq_of_base (h : Inv s free) (hb : b ∈ s.slab.owned) (hc : c ∈ s.slab.owned)
    (he : b.base = c.base) : b = c :=
  h.block_eq hb hc (base_holds (h.fits b hb)) (he ▸ base_holds (h.fits c hc))

theorem kept_slab (hi : b.cache = some i) : Kept b fr x ↔ Footprint b.base fr x := by
  unfold Kept
  rw [hi]

theorem kept_large (hl : b.cache = none) : Kept b fr x ↔ Within b.base 8 x := by
  unfold Kept
  rw [hl]

theorem home_slab (hi : b.cache = some i) : Home b fr o ↔ 0 < o.size.toNat ∧
    IsSlot i b.base o.ptr ∧ o.ptr ∉ fr ∧ o.size.toNat ≤ slotSize i := by
  unfold Home
  rw [hi]

theorem home_large (hl : b.cache = none) : Home b fr o ↔ 0 < o.size.toNat ∧
    o.ptr = b.base + largeOffset ∧ 64 + o.size.toNat ≤ b.pages * 4096 := by
  unfold Home
  rw [hl]

theorem Home.holds_self (ho : Home b fr o) : o.Holds o.ptr := by
  have hpos := ho.1
  unfold SlabObject.Holds
  omega

theorem Inv.slab_below (h : Inv s free) (hb : b ∈ s.slab.owned) (hi : b.cache = some i) :
    Place i b.base ∧ b.pages = slotPages i := by
  obtain ⟨hlt, hpages⟩ := h.pages b hb i hi
  exact ⟨⟨hlt, hpages ▸ (h.fits b hb).below⟩, hpages⟩

theorem Inv.header_below (h : Inv s free) (hb : b ∈ s.slab.owned) : b.base.toNat + 64 ≤ 2 ^ 64 := by
  have hpos := (h.fits b hb).pos
  have hbelow := (h.fits b hb).below
  omega

theorem toNat_largeOffset_add (h : b.Fits) : (b.base + largeOffset).toNat = b.base.toNat + 64 := by
  have hpos := h.pos
  have hbelow := h.below
  exact toNat_add_ofNat (n := 64) (by omega)

section
variable (h : Inv s free)
include h

theorem Inv.home_bounds (hb : b ∈ s.slab.owned) (ho : Home b (free b.base) o) :
    b.base.toNat + 64 ≤ o.ptr.toNat ∧ o.ptr.toNat + o.size.toNat ≤ b.base.toNat + b.pages * 4096 := by
  cases hc : b.cache with
  | some i =>
    obtain ⟨-, hslot, -, hsize⟩ := (home_slab hc).mp ho
    obtain ⟨hp, hpages⟩ := h.slab_below hb hc
    obtain ⟨hlo, hhi⟩ := hslot.bounds hp
    omega
  | none =>
    obtain ⟨-, hptr, hsize⟩ := (home_large hc).mp ho
    rw [hptr, toNat_largeOffset_add (h.fits b hb)]
    omega

theorem Inv.holds_of_home (hb : b ∈ s.slab.owned) (ho : Home b (free b.base) o)
    (hx : o.Holds x) : b.Holds x := by
  have hbounds := h.home_bounds hb ho
  unfold SlabObject.Holds at hx
  unfold Holds
  omega

theorem Inv.home_of_holds (hb : b ∈ s.slab.owned) (hbx : b.Holds x) (ho : o ∈ s.live) (hox : o.Holds x) :
    Home b (free b.base) o := by
  obtain ⟨c, hc, hhome⟩ := h.home o ho
  obtain rfl := h.block_eq hb hc hbx (h.holds_of_home hc hhome hox)
  exact hhome

theorem Inv.header_not_live (hb : b ∈ s.slab.owned) (ho : o ∈ s.live)
    (hx : b.base.toNat ≤ x.toNat ∧ x.toNat < b.base.toNat + 64) : ¬o.Holds x := by
  intro hox
  have hpos := (h.fits b hb).pos
  have hbx : b.Holds x := by
    unfold Holds
    omega
  have hbounds := h.home_bounds hb (h.home_of_holds hb hbx ho hox)
  unfold SlabObject.Holds at hox
  omega

/-- The bytes that the allocator relies on are in the block: in the header, or at the start of a
free object. -/
theorem Inv.kept_cases (hb : b ∈ s.slab.owned) (hx : Kept b (free b.base) x) :
    b.base.toNat ≤ x.toNat ∧ x.toNat < b.base.toNat + 64 ∨
    ∃ i node, b.cache = some i ∧ node ∈ free b.base ∧ node.toNat ≤ x.toNat ∧ x.toNat < node.toNat + 8 := by
  have hheader := h.header_below hb
  cases hc : b.cache with
  | some i =>
    have hoff := toNat_firstOffsetField hheader
    obtain ⟨hp, hpages⟩ := h.slab_below hb hc
    rcases (kept_slab hc).mp hx with hx | hx | ⟨node, hnode, hx⟩
    · rw [within_iff (by omega)] at hx
      exact .inl (by omega)
    · rw [within_iff (by omega)] at hx
      exact .inl (by omega)
    · obtain ⟨hlo, hhi⟩ := ((h.slabs b hb i hc).slots node hnode).bounds hp
      obtain ⟨hsize, -, -, hbelow⟩ := hp.bounds
      rw [within_iff (by omega)] at hx
      exact .inr ⟨i, node, rfl, hnode, hx⟩
  | none =>
    rw [kept_large hc, within_iff (by omega)] at hx
    exact .inl (by omega)

theorem Inv.kept_holds (hb : b ∈ s.slab.owned) (hx : Kept b (free b.base) x) :
    b.Holds x := by
  have hpos := (h.fits b hb).pos
  unfold Holds
  rcases h.kept_cases hb hx with hx | ⟨i, node, hc, hnode, hx⟩
  · omega
  obtain ⟨hp, hpages⟩ := h.slab_below hb hc
  obtain ⟨hlo, hhi⟩ := ((h.slabs b hb i hc).slots node hnode).bounds hp
  obtain ⟨hsize, -, -, hbelow⟩ := hp.bounds
  omega

theorem Inv.home_not_free (hb : b ∈ s.slab.owned) (hc : b.cache = some i)
    (ho : Home b (free b.base) o) (hx : o.Holds x) (hnode : node ∈ free b.base) :
    ¬(node.toNat ≤ x.toNat ∧ x.toNat < node.toNat + 8) := by
  obtain ⟨hp, hpages⟩ := h.slab_below hb hc
  obtain ⟨hsize, -, -, hbelow⟩ := hp.bounds
  obtain ⟨-, hslot, hnot, hfits⟩ := (home_slab hc).mp ho
  have hne : o.ptr ≠ node := fun he => hnot (he ▸ hnode)
  have hapart := hslot.apart hp ((h.slabs b hb i hc).slots node hnode) hne
  unfold SlabObject.Holds at hx
  omega

theorem Inv.kept_not_live (hb : b ∈ s.slab.owned) (hx : Kept b (free b.base) x)
    (ho : o ∈ s.live) : ¬o.Holds x := by
  intro hox
  have hhome := h.home_of_holds hb (h.kept_holds hb hx) ho hox
  rcases h.kept_cases hb hx with hx | ⟨i, node, hi, hnode, hx⟩
  · exact h.header_not_live hb ho hx hox
  · exact h.home_not_free hb hi hhome hox hnode hx

end

/-! ## Memory outside of what the allocator relies on -/

theorem mem_bases : a ∈ bases s.slab.owned i ↔ ∃ b ∈ s.slab.owned, b.cache = some i ∧ b.base = a := by
  unfold bases
  simp [and_assoc]

theorem Inv.block_congr (h : Inv s free) (hb : b ∈ s.slab.owned)
    (hm : ∀ x, Kept b (free b.base) x → mem x = s.slab.mem x) :
    (∀ i, b.cache = some i → IsSlab mem i b.base (free b.base) ∧
      mem.load64 (nextField b.base) = s.slab.mem.load64 (nextField b.base)) ∧
    (b.cache = none → mem.load32 b.base = slabLargeMagic ∧
      mem.load32 (b.base + 4) = BitVec.ofNat 32 b.pages) := by
  have hbelow := h.header_below hb
  refine ⟨fun i hi => ?_, fun hl => ?_⟩
  · have hfoot := fun x hx => hm x ((kept_slab hi).mpr hx)
    exact ⟨(h.slabs b hb i hi).congr hbelow hfoot, load64_next hbelow hfoot⟩
  · have hhead := fun x hx => hm x ((kept_large hl).mpr hx)
    obtain ⟨hmagic, hpages⟩ := h.large b hb hl
    rw [← hmagic, ← hpages]
    refine ⟨?_, load32_offset (by omega) (by decide) hhead⟩
    simpa using load32_offset (i := 0) (by omega) (by decide) hhead

theorem Inv.of_mem (h : Inv s free)
    (hm : ∀ b ∈ s.slab.owned, ∀ x, Kept b (free b.base) x → mem x = s.slab.mem x) :
    Inv { s with slab.mem := mem } free := by
  refine ⟨h.ready, h.fits, h.apart, h.pages, fun i hi => ?_,
    fun b hb i hi => ((h.block_congr hb (hm b hb)).1 i hi).1, fun b hb => (h.block_congr hb (hm b hb)).2,
    h.home, h.distinct⟩
  refine (h.lists i hi).congr fun a ha => ?_
  obtain ⟨b, hb, hc, rfl⟩ := mem_bases.mp ha
  rw [((h.block_congr hb (hm b hb)).1 i hc).2]

/-! ## Taking objects from a slab and giving them back -/

theorem Inv.of_slab (h : Inv s free) {free'}
    (hb : b ∈ s.slab.owned) (hi : b.cache = some i) (hm : ∀ x, ¬b.Holds x → mem x = s.slab.mem x)
    (hnext : mem.load64 (nextField b.base) = s.slab.mem.load64 (nextField b.base))
    (hslab : IsSlab mem i b.base free')
    (hlive : ∀ o ∈ live, Home b free' o ∨ o ∈ s.live ∧ o.ptr ∉ free')
    (hdistinct : (live.map (·.ptr)).Nodup) :
    Inv ⟨{ s.slab with mem }, live⟩ (update free b.base free') := by
  have hne : ∀ c ∈ s.slab.owned, c ≠ b → c.base ≠ b.base :=
    fun c hc hne he => hne (h.eq_of_base hc hb he)
  -- the other blocks are what they were
  have hother := fun c (hc : c ∈ s.slab.owned) hne => h.block_congr hc fun x hx =>
    hm x ((h.apart_of_ne hc hb hne).not_holds (h.kept_holds hc hx))
  refine ⟨h.ready, h.fits, h.apart, h.pages, fun j hj => ?_, fun c hc j hj => ?_, fun c hc hj => ?_,
    fun o ho => ?_, hdistinct⟩
  · refine (h.lists j hj).congr fun a ha => ?_
    obtain ⟨c, hc, hcj, rfl⟩ := mem_bases.mp ha
    by_cases hcb : c = b
    · rw [hcb, hnext]
    · rw [((hother c hc hcb).1 j hcj).2]
  · by_cases hcb : c = b
    · subst hcb
      rw [hi] at hj
      cases hj
      rw [update_self]
      exact hslab
    · rw [update_of_ne (hne c hc hcb)]
      exact ((hother c hc hcb).1 j hj).1
  · refine (hother c hc ?_).2 hj
    rintro rfl
    rw [hi] at hj
    cases hj
  · rcases hlive o ho with hhome | ⟨hold, hnot⟩
    · refine ⟨b, hb, ?_⟩
      rw [update_self]
      exact hhome
    · obtain ⟨c, hc, hhome⟩ := h.home o hold
      refine ⟨c, hc, ?_⟩
      by_cases hcb : c = b
      · subst hcb
        obtain ⟨hpos, hslot, -, hle⟩ := (home_slab hi).mp hhome
        rw [update_self]
        exact (home_slab hi).mpr ⟨hpos, hslot, hnot, hle⟩
      · rw [update_of_ne (hne c hc hcb)]
        exact hhome

theorem Inv.free_not_live (h : Inv s free) (hb : b ∈ s.slab.owned) (hi : b.cache = some i)
    (hnode : node ∈ free b.base) : node ∉ s.live.map (·.ptr) := by
  intro hmem
  obtain ⟨o, ho, rfl⟩ := mem_map.mp hmem
  obtain ⟨c, hc, hhome⟩ := h.home o ho
  obtain ⟨hp, hpages⟩ := h.slab_below hb hi
  obtain ⟨hsize, -, -, hbelow⟩ := hp.bounds
  obtain ⟨hlo, hhi⟩ := ((h.slabs b hb i hi).slots _ hnode).bounds hp
  have hbx : b.Holds o.ptr := by
    unfold Holds
    omega
  exact ((home_slab hi).mp (h.home_of_holds hb hbx ho hhome.holds_self)).2.2.1 hnode

theorem record_ptr {slab} (h : ptr ≠ 0) :
    record live size (ptr, slab) = ⟨slab, ⟨ptr, size⟩ :: live⟩ := by
  show SlabSystem.mk slab (if ptr = 0 then live else ⟨ptr, size⟩ :: live) = _
  rw [if_neg h]

theorem Inv.popFree (h : Inv s free) (hb : b ∈ s.slab.owned) (hi : b.cache = some i)
    {rest} (hfree : free b.base = node :: rest) (hpos : 0 < size.toNat)
    (hsize : size.toNat ≤ slotSize i) :
    Inv (record s.live size (s.slab.popFree b.base)) (update free b.base rest) := by
  obtain ⟨hp, hpages⟩ := h.slab_below hb hi
  have hheader := h.header_below hb
  have hslab := h.slabs b hb i hi
  rw [hfree] at hslab
  obtain ⟨hhead, hpopped⟩ := hslab.pop hp
  have hnode : node ∈ free b.base := hfree ▸ mem_cons_self
  have hnz : node ≠ 0 := by
    intro h0
    have hbounds := (hslab.slots node mem_cons_self).bounds hp
    rw [h0] at hbounds
    exact absurd hbounds.1 (by simp)
  rw [popFree_eq (h.fits b hb).base_ne (hhead ▸ hnz), hhead]
  rw [record_ptr hnz]
  refine h.of_slab hb hi (fun x hx => ?_) ?_ hpopped (fun o ho => ?_) ?_
  · have hpos := (h.fits b hb).pos
    unfold Holds at hx
    exact popped_other hheader (by omega) (by omega)
  · have hnext : (nextField b.base).toNat = b.base.toNat + 32 :=
      toNat_add_ofNat (n := 32) (by omega)
    refine load64_congr fun x hx => ?_
    rw [within_iff (by omega)] at hx
    exact popped_other hheader (by omega) (by omega)
  · rcases mem_cons.mp ho with rfl | ho
    · refine .inl ((home_slab hi).mpr ⟨hpos, hslab.slots node mem_cons_self, ?_, hsize⟩)
      exact (nodup_cons.mp hslab.nodup).1
    · refine .inr ⟨ho, fun hm => ?_⟩
      exact h.free_not_live hb hi (hfree ▸ mem_cons_of_mem _ hm) (mem_map_of_mem ho)
  · exact nodup_cons.mpr ⟨h.free_not_live hb hi hnode, h.distinct⟩

/-! ## New pages -/

theorem Inv.kept_apart (h : Inv s free) (hapart : ∀ b ∈ s.slab.owned, Apart new b)
    (hm : ∀ x, ¬new.Holds x → mem x = s.slab.mem x) :
    ∀ b ∈ s.slab.owned, ∀ x, Kept b (free b.base) x → mem x = s.slab.mem x := by
  intro b hb x hx
  refine hm x fun hnew => ?_
  exact (hapart b hb).not_holds hnew (h.kept_holds hb hx)

theorem Inv.of_new (h : Inv s free) {heads}
    (hfits : new.Fits) (hapart : ∀ b ∈ s.slab.owned, Apart new b)
    (hm : ∀ x, ¬new.Holds x → mem x = s.slab.mem x)
    (hpages : ∀ i, new.cache = some i → i < 13 ∧ new.pages = slotPages i)
    (hlists : ∀ i < 13, PtrList.Chain (fun slab => nonNull (mem.load64 (nextField slab)))
      (nonNull (heads i)) (bases (new :: s.slab.owned) i))
    (hslab : ∀ i, new.cache = some i → IsSlab mem i new.base fr)
    (hlarge : new.cache = none → mem.load32 new.base = slabLargeMagic ∧
      mem.load32 (new.base + 4) = BitVec.ofNat 32 new.pages)
    (hlive : ∀ o ∈ live, o ∈ s.live ∨ Home new fr o) (hdistinct : (live.map (·.ptr)).Nodup) :
    Inv ⟨{ s.slab with mem, slabs := heads, owned := new :: s.slab.owned }, live⟩
      (update free new.base fr) := by
  have hold := h.of_mem (h.kept_apart hapart hm)
  have hne : ∀ b ∈ s.slab.owned, b.base ≠ new.base := fun b hb he =>
    (hapart b hb).not_holds (base_holds hfits) (he ▸ base_holds (h.fits b hb))
  refine ⟨h.ready, fun b hb => ?_, pairwise_cons.mpr ⟨hapart, h.apart⟩, fun b hb i hi => ?_, hlists,
    fun b hb i hi => ?_, fun b hb hc => ?_, fun o ho => ?_, hdistinct⟩
  · rcases mem_cons.mp hb with rfl | hb
    · exact hfits
    · exact h.fits b hb
  · rcases mem_cons.mp hb with rfl | hb
    · exact hpages i hi
    · exact h.pages b hb i hi
  · rcases mem_cons.mp hb with rfl | hb
    · rw [update_self]
      exact hslab i hi
    · rw [update_of_ne (hne b hb)]
      exact hold.slabs b hb i hi
  · rcases mem_cons.mp hb with rfl | hb
    · exact hlarge hc
    · exact hold.large b hb hc
  · rcases hlive o ho with ho | hhome
    · obtain ⟨b, hb, hhome⟩ := h.home o ho
      refine ⟨b, mem_cons_of_mem _ hb, ?_⟩
      rw [update_of_ne (hne b hb)]
      exact hhome
    · refine ⟨new, mem_cons_self, ?_⟩
      rw [update_self]
      exact hhome

theorem bases_cons_ne (h : b.cache ≠ some i) : bases (b :: owned) i = bases owned i := by
  unfold bases
  rw [filter_cons_of_neg (by simpa using h)]

theorem bases_cons (h : b.cache = some i) :
    bases (b :: owned) i = b.base :: bases owned i := by
  unfold bases
  rw [filter_cons_of_pos (by simpa using h)]
  rfl

theorem Inv.slabGrow (h : Inv s free) (hi : i < 13) (hfits : Fits ⟨base, slotPages i, some i⟩)
    (hapart : ∀ b ∈ s.slab.owned, Apart ⟨base, slotPages i, some i⟩ b) :
    Inv { s with slab := (s.slab.slabGrow i base).2 }
      (update free base (newFree i base (slotCount i))) := by
  rw [slabGrow_eq hfits.base_ne]
  have hm : ∀ x, ¬Holds ⟨base, slotPages i, some i⟩ x →
      grown s.slab i base x = s.slab.mem x := fun x hx => grown_outside ⟨hi, hfits.below⟩ hx
  have hold := h.of_mem (h.kept_apart hapart hm)
  refine h.of_new hfits hapart hm (fun j hj => ?_) (fun j hj => ?_) (fun j hj => ?_) (fun hc => ?_)
    (fun _ => .inl) h.distinct
  · cases hj
    exact ⟨hi, rfl⟩
  · by_cases hji : j = i
    · subst hji
      rw [bases_cons rfl, update_self]
      refine ⟨nonNull_eq_some.mpr ⟨rfl, hfits.base_ne⟩, ?_⟩
      show PtrList.Chain _ (nonNull ((grown s.slab j base).load64 (nextField base))) _
      rw [grown_next]
      exact hold.lists j hj
    · rw [bases_cons_ne (by simpa using fun he => hji he.symm), update_of_ne hji]
      exact hold.lists j hj
  · cases hj
    exact isSlab_grown ⟨hi, hfits.below⟩
  · cases hc

theorem largePages_fit (h : size.toNat + 64 + 4095 < 2 ^ 64) :
    64 + size.toNat ≤ (largePages size).toNat * 4096 := by
  have hsum : (largeOffset + size).toNat = 64 + size.toNat := by
    rw [BitVec.toNat_add, show largeOffset.toNat = 64 from rfl, mod_eq_of_lt (by omega)]
  have hbytes : (alignUp (largeOffset + size) pmmPageSize).toNat =
      ((largeOffset + size).toNat + 4095) / 4096 * 4096 := toNat_alignUp (by omega)
  unfold largePages
  rw [BitVec.toNat_udiv, hbytes, hsum, show pmmPageSize.toNat = 4096 from rfl]
  omega

def largeHeader (mem : ByteMem) (size base : U64) : ByteMem :=
  ((mem.store32 base slabLargeMagic).store32 (base + 4) ((largePages size).setWidth 32)).store64
    (base + 8) size

theorem Inv.slabAllocLarge (h : Inv s free) (hpos : 0 < size.toNat)
    (hwrap : size.toNat + 64 + 4095 < 2 ^ 64) (hfits : Fits ⟨base, (largePages size).toNat, none⟩)
    (hapart : ∀ b ∈ s.slab.owned, Apart ⟨base, (largePages size).toNat, none⟩ b) :
    Inv (record s.live size (s.slab.slabAllocLarge size base)) (update free base []) := by
  have hptr : (base + largeOffset).toNat = base.toNat + 64 := toNat_largeOffset_add hfits
  have hroom := largePages_fit hwrap
  have hnz : base + largeOffset ≠ 0 := by
    intro h0
    rw [h0] at hptr
    exact absurd hptr (by simp)
  have h₄ : (base + 4).toNat = base.toNat + 4 := toNat_add_ofNat (n := 4) (by omega)
  have h₈ : (base + 8).toNat = base.toNat + 8 := toNat_add_ofNat (n := 8) (by omega)
  have hm : ∀ x, ¬Holds ⟨base, (largePages size).toNat, none⟩ x →
      largeHeader s.slab.mem size base x = s.slab.mem x := by
    intro x hx
    unfold Holds at hx
    dsimp only at hx
    unfold largeHeader
    simp (disch := omega) only [store64_outside, store32_outside]
  have hold := h.of_mem (h.kept_apart hapart hm)
  have heq : s.slab.slabAllocLarge size base = (base + largeOffset, { s.slab with
      mem := largeHeader s.slab.mem size base
      owned := ⟨base, (largePages size).toNat, none⟩ :: s.slab.owned }) := if_neg hfits.base_ne
  rw [heq, record_ptr hnz]
  refine h.of_new hfits hapart hm (fun i hi => ?_) (fun i hi => ?_) (fun i hi => ?_) (fun _ => ⟨?_, ?_⟩)
    (fun o ho => ?_) ?_
  · cases hi
  · exact hold.lists i hi
  · cases hi
  · unfold largeHeader
    simp (disch := omega) only [load32_store32_ne, load32_store64_ne, load32_store32]
  · show (largeHeader s.slab.mem size base).load32 (base + 4) = _
    unfold largeHeader
    rw [load32_store64_ne (by omega) (by omega) (by omega), load32_store32]
    rfl
  · rcases mem_cons.mp ho with rfl | ho
    · exact .inr ⟨hpos, rfl, hroom⟩
    · exact .inl ho
  · refine nodup_cons.mpr ⟨fun hmem => ?_, h.distinct⟩
    -- an object at this address would lie in a block that the new one is apart from
    obtain ⟨o, ho, heq⟩ := mem_map.mp hmem
    obtain ⟨c, hc, hhome⟩ := h.home o ho
    have hbounds := h.home_bounds hc hhome
    have hap := hapart c hc
    have hval := congrArg BitVec.toNat heq
    unfold Apart at hap
    dsimp only at hap hval
    omega

/-! ## `slab_alloc` and `slab_zalloc` -/

theorem cacheForSize_some (h : cacheForSize size = some i) :
    i < 13 ∧ size.toNat ≤ slotSize i := by
  have hmem := mem_range.mp (mem_of_find?_eq_some h)
  have hle := find?_some h
  rw [decide_eq_true_eq, BitVec.le_def, BitVec.toNat_setWidth] at hle
  exact ⟨hmem, le_trans hle (mod_le ..)⟩

theorem bases_length_le (s : SlabSystem) : (bases s.slab.owned i).length ≤ s.rounds := by
  unfold bases
  rw [length_map]
  exact length_filter_le ..

section
variable (h : Inv s free)
include h

theorem Inv.walk_free (hi : i < 13) :
    ∃ slab, walkSlabs s.slab.mem (fun a => s.slab.mem.load64 (freeField a) != 0) s.rounds
        (s.slab.slabs i) = some slab ∧
      (slab ≠ 0 → ∃ b ∈ s.slab.owned, b.cache = some i ∧ b.base = slab ∧
        ∃ node rest, free b.base = node :: rest) := by
  refine ⟨_, walkSlabs_eq _ (h.lists i hi) (bases_length_le _), fun hne => ?_⟩
  cases hfind : (bases s.slab.owned i).find? fun a => s.slab.mem.load64 (freeField a) != 0 with
  | none =>
    rw [hfind] at hne
    exact absurd rfl hne
  | some a =>
    obtain ⟨b, hb, hc, rfl⟩ := mem_bases.mp (mem_of_find?_eq_some hfind)
    refine ⟨b, hb, hc, rfl, ?_⟩
    have hfree := find?_some hfind
    rw [bne_iff_ne] at hfree
    have hchain := (h.slabs b hb i hc).chain
    cases hlist : free b.base with
    | nil =>
      rw [hlist] at hchain
      exact absurd (nonNull_eq_none.mp hchain) hfree
    | cons node rest => exact ⟨node, rest, rfl⟩

theorem Inv.slabAlloc (hp : s.Permitted (.alloc size base)) :
    ∃ r free', s.slab.slabAlloc s.rounds size base = some r ∧ Inv (record s.live size r) free' := by
  obtain ⟨hwrap, hbase⟩ := hp
  unfold Slab.slabAlloc
  by_cases hzero : size = 0
  · rw [if_pos (.inr hzero)]
    exact ⟨_, free, rfl, h⟩
  have hpos : 0 < size.toNat := by
    refine Nat.pos_of_ne_zero fun h0 => hzero ?_
    exact BitVec.eq_of_toNat_eq h0
  rw [if_neg (by simpa [h.ready] using hzero)]
  unfold askedPages at hbase
  cases hcache : cacheForSize size with
  | none =>
    rw [hcache] at hbase
    refine ⟨_, if base = 0 then free else update free base [], rfl, ?_⟩
    by_cases hb0 : base = 0
    · have heq : s.slab.slabAllocLarge size base = (0, s.slab) := if_pos hb0
      rw [if_pos hb0, heq]
      exact h
    · obtain ⟨hfits, hapart⟩ := hbase hb0
      rw [if_neg hb0]
      exact h.slabAllocLarge hpos hwrap hfits hapart
  | some i =>
    rw [hcache] at hbase
    obtain ⟨hi, hsize⟩ := cacheForSize_some hcache
    obtain ⟨slab, hwalk, hfound⟩ := h.walk_free hi
    show ∃ r free', (walkSlabs s.slab.mem _ s.rounds (s.slab.slabs i)).map _ = some r ∧ _
    rw [hwalk]
    by_cases hslab : slab = 0
    · by_cases hb0 : base = 0
      · have heq : s.slab.slabGrow i base = (0, s.slab) := if_pos hb0
        refine ⟨_, free, congrArg some (if_pos hslab), ?_⟩
        rw [heq]
        exact h
      · obtain ⟨hfits, hapart⟩ := hbase hb0
        have hfits' : Fits ⟨base, slotPages i, some i⟩ :=
          ⟨hfits.base_ne, hfits.aligned, hfits.pos, hfits.below⟩
        have hgrown := h.slabGrow hi hfits' hapart
        obtain ⟨n, hn⟩ := Nat.exists_eq_succ_of_ne_zero (Nat.ne_of_gt (slotCount_pos i hi))
        rw [hn, newFree_succ] at hgrown
        rw [slabGrow_eq hb0] at hgrown
        have hpop := hgrown.popFree mem_cons_self rfl
          (update_self ..) hpos hsize
        refine ⟨_, _, (congrArg some (if_pos hslab)).trans ?_, hpop⟩
        rw [slabGrow_eq hb0]
    · obtain ⟨b, hb, hc, rfl, node, rest, hfree⟩ := hfound hslab
      exact ⟨_, _, congrArg some (if_neg hslab), h.popFree hb hc hfree hpos hsize⟩

theorem Inv.slabZalloc (hp : s.Permitted (.zalloc size base)) :
    ∃ r free', s.slab.slabZalloc s.rounds size base = some r ∧ Inv (record s.live size r) free' := by
  have hp' : s.Permitted (.alloc size base) := hp
  obtain ⟨⟨ptr, slab⟩, free', halloc, hinv⟩ := h.slabAlloc hp'
  unfold Slab.slabZalloc
  rw [halloc]
  refine ⟨_, free', rfl, ?_⟩
  by_cases hptr : ptr = 0
  · show Inv (record s.live size (ptr, if ptr = 0 then slab else _)) free'
    rw [if_pos hptr]
    exact hinv
  · rw [record_ptr hptr] at hinv ⊢
    rw [if_neg hptr]
    refine hinv.of_mem fun b hb x hx => ?_
    -- only the new object is cleared
    have hnot := hinv.kept_not_live hb hx mem_cons_self
    obtain ⟨c, hc, hhome⟩ := hinv.home ⟨ptr, size⟩ mem_cons_self
    have hbounds := hinv.home_bounds hc hhome
    have hbelow := (hinv.fits c hc).below
    unfold memZero
    rw [if_neg]
    rw [within_iff (by dsimp only at hbounds; omega)]
    exact hnot

/-! ## `slab_free` -/

/-- The slab that `slab_free` finds for an object is the one it lies in. -/
theorem Inv.slabHolds_iff (hb : b ∈ s.slab.owned) (hi : b.cache = some i)
    (hc : c ∈ s.slab.owned) (ho : Home c (free c.base) o) :
    slabHolds s.slab.mem o.ptr b.base = true ↔ b = c := by
  obtain ⟨hp, hpages⟩ := h.slab_below hb hi
  have hslab := h.slabs b hb i hi
  constructor
  · intro hholds
    obtain ⟨hlo, hhi, -⟩ := (hslab.holds_iff hp).mp hholds
    refine h.block_eq hb hc ?_ (h.holds_of_home hc ho ho.holds_self)
    unfold Holds
    omega
  · rintro rfl
    exact hslab.holds_slot hp ((home_slab hi).mp ho).2.1

theorem Inv.findSlab (hc : c ∈ s.slab.owned) (hj : c.cache = some j)
    (ho : Home c (free c.base) o) {caches} (hcaches : ∀ i ∈ caches, i < 13) :
    s.slab.findSlab s.rounds o.ptr caches = some (if j ∈ caches then c.base else 0) := by
  induction caches with
  | nil => rfl
  | cons i caches ih =>
    have hi := hcaches i mem_cons_self
    have hrest := ih fun k hk => hcaches k (mem_cons_of_mem _ hk)
    have hwalk := walkSlabs_eq (slabHolds s.slab.mem o.ptr) (h.lists i hi)
      (bases_length_le _)
    unfold Slab.findSlab
    rw [hwalk]
    cases hfind : (bases s.slab.owned i).find? (slabHolds s.slab.mem o.ptr) with
    | some a =>
      obtain ⟨b, hb, hbi, rfl⟩ := mem_bases.mp (mem_of_find?_eq_some hfind)
      have heq : b = c := (h.slabHolds_iff hb hbi hc ho).mp (find?_some hfind)
      subst heq
      rw [hj] at hbi
      cases hbi
      rw [if_pos mem_cons_self]
      exact if_neg (h.fits b hb).base_ne
    | none =>
      have hij : j ≠ i := by
        rintro rfl
        have hmem : c.base ∈ bases s.slab.owned j := mem_bases.mpr ⟨c, hc, hj, rfl⟩
        exact find?_eq_none.mp hfind _ hmem ((h.slabHolds_iff hc hj hc ho).mpr rfl)
      show (if (0 : U64) = 0 then s.slab.findSlab s.rounds o.ptr caches else some 0) = _
      rw [if_pos rfl, hrest]
      simp [hij]

theorem Inv.slot_not_large (hc : c ∈ s.slab.owned) (hi : c.cache = some i)
    (ho : Home c (free c.base) o) :
    ¬((o.ptr - largeOffset) &&& (pmmPageSize - 1) = 0 ∧
      s.slab.mem.load32 (o.ptr - largeOffset) = slabLargeMagic) := by
  rintro ⟨haligned, hmagic⟩
  obtain ⟨hp, hpages⟩ := h.slab_below hc hi
  obtain ⟨-, ⟨k, hk, hptr⟩, -, -⟩ := (home_slab hi).mp ho
  have hval := toNat_object hp hk
  rw [← hptr] at hval
  have hdiff : (o.ptr - largeOffset).toNat = c.base.toNat + k * slotSize i := by
    have hoffset : largeOffset.toNat = 64 := rfl
    rw [BitVec.toNat_sub_of_le (by rw [BitVec.le_def]; omega), hval, hoffset]
    omega
  have hmod := congrArg BitVec.toNat haligned
  rw [toNat_and_mask (k := 12) _ rfl, hdiff] at hmod
  have hbase := (h.fits c hc).aligned
  have hk0 : k = 0 := by
    refine slot_aligned i hp.cache_lt k hk ?_
    have hzero : (0 : U64).toNat = 0 := rfl
    omega
  have hsame : o.ptr - largeOffset = c.base := by
    apply BitVec.eq_of_toNat_eq
    rw [hdiff, hk0]
    omega
  rw [hsame, (h.slabs c hc i hi).magic] at hmagic
  exact absurd hmagic (by decide)

end

/-- The memory after an object has been given back to its slab. -/
def pushed (mem : ByteMem) (slab ptr : U64) : ByteMem :=
  (pushFree mem slab ptr).store32 (freeCountField slab)
    ((pushFree mem slab ptr).load32 (freeCountField slab) + 1)

section
variable (h : Inv s free)
include h

theorem Inv.ptr_ne_zero (ho : o ∈ s.live) : o.ptr ≠ 0 := by
  intro h0
  obtain ⟨b, hb, hhome⟩ := h.home o ho
  have hbounds := h.home_bounds hb hhome
  rw [h0] at hbounds
  exact absurd hbounds.1 (by simp)

theorem Inv.slabFree_slot (ho : o ∈ s.live) (hc : c ∈ s.slab.owned) (hi : c.cache = some i)
    (hhome : Home c (free c.base) o) :
    s.slab.slabFree s.rounds o.ptr = some ({ s.slab with mem := pushed s.slab.mem c.base o.ptr }, none) := by
  obtain ⟨hlt, -⟩ := h.pages c hc i hi
  have hcaches : ∀ j ∈ range slabObjectSizes.length, j < 13 := fun _ => mem_range.mp
  have hfind := h.findSlab hc hi hhome hcaches
  rw [if_pos (show i ∈ range slabObjectSizes.length from mem_range.mpr hlt)] at hfind
  unfold Slab.slabFree
  rw [if_neg (h.ptr_ne_zero ho)]
  rw [if_neg (h.slot_not_large hc hi hhome), hfind]
  show some (if c.base = 0 then _ else _) = _
  rw [if_neg (h.fits c hc).base_ne]
  rfl

theorem Inv.slabFree_large (ho : o ∈ s.live) (hc : c ∈ s.slab.owned) (hl : c.cache = none)
    (hhome : Home c (free c.base) o) :
    s.slab.slabFree s.rounds o.ptr = some ({ s.slab with
      mem := s.slab.mem.store32 c.base 0
      owned := s.slab.owned.filter (·.base != c.base) }, some (c.base, BitVec.ofNat 32 c.pages)) := by
  obtain ⟨hmagic, hpages⟩ := h.large c hc hl
  have hbase : o.ptr - largeOffset = c.base := by
    rw [((home_large hl).mp hhome).2.1, BitVec.add_sub_cancel]
  have haligned : c.base &&& (pmmPageSize - 1) = 0 := by
    apply BitVec.eq_of_toNat_eq
    rw [toNat_and_mask (k := 12) _ rfl]
    exact (h.fits c hc).aligned
  unfold Slab.slabFree
  rw [if_neg (h.ptr_ne_zero ho), hbase]
  rw [if_pos ⟨haligned, hmagic⟩, hpages]

theorem Inv.free_slot (hc : c ∈ s.slab.owned) (hi : c.cache = some i) (hhome : Home c (free c.base) o) :
    Inv ⟨{ s.slab with mem := pushed s.slab.mem c.base o.ptr }, s.live.filter (·.ptr != o.ptr)⟩
      (update free c.base (o.ptr :: free c.base)) := by
  obtain ⟨hp, hpages⟩ := h.slab_below hc hi
  have hheader := h.header_below hc
  have hcount := toNat_freeCountField hheader
  have hfree := toNat_freeField hheader
  obtain ⟨-, hslot, hnot, -⟩ := (home_slab hi).mp hhome
  obtain ⟨hlo, hhi⟩ := hslot.bounds hp
  obtain ⟨hsize, -, hpos, hbelow⟩ := hp.bounds
  have hpush := (h.slabs c hc i hi).push hp hslot hnot
  have hstore : ∀ x, ¬(c.base.toNat + 16 ≤ x.toNat ∧ x.toNat < c.base.toNat + 20) →
      pushed s.slab.mem c.base o.ptr x = pushFree s.slab.mem c.base o.ptr x := by
    intro x hx
    exact store32_outside (by omega) (by omega)
  refine h.of_slab hc hi (fun x hx => ?_) ?_ (hpush.congr hheader fun x hx => hstore x ?_) (fun p hp => ?_) ?_
  · unfold Holds at hx
    rw [hpages] at hx
    rw [hstore x (by omega), pushFree_outside hp hslot hx]
  · have hnext : (nextField c.base).toNat = c.base.toNat + 32 :=
      toNat_add_ofNat (n := 32) (by omega)
    refine load64_congr fun x hx => ?_
    rw [within_iff (by omega)] at hx
    rw [hstore x (by omega)]
    unfold pushFree
    rw [store64_outside (by omega) (by omega), store64_outside (by omega) (by omega)]
  · have hoff := toNat_firstOffsetField hheader
    rcases hx with hx | hx | ⟨node, hnode, hx⟩
    · rw [within_iff (by omega)] at hx
      omega
    · rw [within_iff (by omega)] at hx
      omega
    · obtain ⟨hnlo, hnhi⟩ := (hpush.slots node hnode).bounds hp
      rw [within_iff (by omega)] at hx
      omega
  · obtain ⟨hp, hne⟩ := mem_filter.mp hp
    rw [bne_iff_ne] at hne
    refine .inr ⟨hp, fun hm => ?_⟩
    rcases mem_cons.mp hm with he | hm
    · exact hne he
    · exact h.free_not_live hc hi hm (mem_map_of_mem hp)
  · exact h.distinct.sublist (filter_sublist.map _)

theorem bases_filter (hc : c ∈ s.slab.owned) (hl : c.cache = none) :
    bases (s.slab.owned.filter (·.base != c.base)) i = bases s.slab.owned i := by
  unfold bases
  rw [filter_filter]
  refine congrArg _ (filter_congr fun b hb => ?_)
  by_cases hbi : b.cache = some i
  · have hne : b.base ≠ c.base := by
      intro he
      rw [h.eq_of_base hb hc he, hl] at hbi
      cases hbi
    simp [hbi, hne]
  · simp [hbi]

theorem Inv.free_large (hc : c ∈ s.slab.owned) (hl : c.cache = none) (hhome : Home c (free c.base) o) :
    Inv ⟨{ s.slab with
      mem := s.slab.mem.store32 c.base 0
      owned := s.slab.owned.filter (·.base != c.base) }, s.live.filter (·.ptr != o.ptr)⟩ free := by
  have hheader := h.header_below hc
  have hmem : ∀ b ∈ s.slab.owned.filter (·.base != c.base), b ∈ s.slab.owned ∧ b ≠ c := by
    intro b hb
    obtain ⟨hb, hne⟩ := mem_filter.mp hb
    rw [bne_iff_ne] at hne
    exact ⟨hb, fun he => hne (by rw [he])⟩
  -- what the allocator relies on in the other blocks is untouched
  have hkept : ∀ b ∈ s.slab.owned.filter (·.base != c.base), ∀ x, Kept b (free b.base) x →
      s.slab.mem.store32 c.base 0 x = s.slab.mem x := by
    intro b hb x hx
    obtain ⟨hb, hne⟩ := hmem b hb
    have hout := (h.apart_of_ne hb hc hne).not_holds (h.kept_holds hb hx)
    have hpos := (h.fits c hc).pos
    unfold Holds at hout
    exact store32_outside (by omega) (by omega)
  have hsub : (s.slab.owned.filter (·.base != c.base)).Sublist s.slab.owned := filter_sublist
  have hdropped : Inv ⟨{ s.slab with owned := s.slab.owned.filter (·.base != c.base) },
      s.live.filter (·.ptr != o.ptr)⟩ free := by
    refine ⟨h.ready, fun b hb => h.fits b (hmem b hb).1, h.apart.sublist hsub,
      fun b hb => h.pages b (hmem b hb).1, fun i hi => ?_, fun b hb => h.slabs b (hmem b hb).1,
      fun b hb => h.large b (hmem b hb).1, fun p hp => ?_, h.distinct.sublist (filter_sublist.map _)⟩
    · rw [bases_filter h hc hl]
      exact h.lists i hi
    · obtain ⟨hp, hne⟩ := mem_filter.mp hp
      rw [bne_iff_ne] at hne
      obtain ⟨b, hb, hph⟩ := h.home p hp
      refine ⟨b, mem_filter.mpr ⟨hb, ?_⟩, hph⟩
      rw [bne_iff_ne]
      intro he
      obtain rfl := h.eq_of_base hb hc he
      exact hne (((home_large hl).mp hph).2.1.trans ((home_large hl).mp hhome).2.1.symm)
  exact hdropped.of_mem hkept

end

/-! ## From the invariant to separation -/

theorem mem_of_onFreeList (h : IsSlab mem i base fr) (hn : OnFreeList mem base node) : node ∈ fr := by
  induction hn with
  | head hne =>
    have hhead := h.chain.head_eq
    rw [nonNull_eq_some.mpr ⟨rfl, hne⟩] at hhead
    exact mem_of_mem_head? hhead.symm
  | next _ hne ih => exact h.chain.next_mem ih (nonNull_eq_some.mpr ⟨rfl, hne⟩)

section
variable (h : Inv s free)
include h

theorem Inv.metadata (ho : o ∈ s.live) (hox : o.Holds x) : ¬s.slab.Metadata x := by
  rintro ⟨b, hb, hx⟩
  have hheader := h.header_below hb
  cases hc : b.cache with
  | none =>
    rw [hc] at hx
    change Within b.base 16 x at hx
    rw [within_iff (by omega)] at hx
    exact h.header_not_live hb ho (by omega) hox
  | some i =>
    rw [hc] at hx
    rcases hx with hx | ⟨node, hnode, hx⟩
    · change Within b.base 48 x at hx
      rw [within_iff (by omega)] at hx
      exact h.header_not_live hb ho (by omega) hox
    · have hfree := mem_of_onFreeList (h.slabs b hb i hc) hnode
      exact h.kept_not_live hb ((kept_slab hc).mpr (.inr (.inr ⟨node, hfree, hx⟩))) ho hox

theorem Inv.objects_apart (ho : o ∈ s.live) (hp : p ∈ s.live) (hne : o.ptr ≠ p.ptr)
    (hox : o.Holds x) : ¬p.Holds x := by
  intro hpx
  obtain ⟨b, hb, hob⟩ := h.home o ho
  have hpc := h.home_of_holds hb (h.holds_of_home hb hob hox) hp hpx
  cases hcache : b.cache with
  | some i =>
    obtain ⟨hp, -⟩ := h.slab_below hb hcache
    obtain ⟨-, hos, -, hol⟩ := (home_slab hcache).mp hob
    obtain ⟨-, hps, -, hpl⟩ := (home_slab hcache).mp hpc
    have hapart := hos.apart hp hps hne
    unfold SlabObject.Holds at hox hpx
    omega
  | none =>
    exact hne (((home_large hcache).mp hob).2.1.trans ((home_large hcache).mp hpc).2.1.symm)

theorem Inv.returned {slab count}
    (hp : s.Permitted (.free ptr)) (hfree : s.slab.slabFree s.rounds ptr = some (slab, some (base, count))) :
    (∃ b ∈ s.slab.owned, b.base = base ∧ count.toNat ≤ b.pages) ∧
    ∀ o ∈ s.live, o.ptr ≠ ptr → ∀ x, o.Holds x →
      ¬(base.toNat ≤ x.toNat ∧ x.toNat < base.toNat + count.toNat * 4096) := by
  rcases hp with rfl | ⟨q, hq, rfl⟩
  · cases hfree
  obtain ⟨c, hc, hhome⟩ := h.home q hq
  cases hcache : c.cache with
  | some i =>
    rw [h.slabFree_slot hq hc hcache hhome] at hfree
    cases hfree
  | none =>
    rw [h.slabFree_large hq hc hcache hhome] at hfree
    cases hfree
    have hle : (BitVec.ofNat 32 c.pages).toNat ≤ c.pages := by
      exact mod_le ..
    refine ⟨⟨c, hc, rfl, hle⟩, fun o ho hne x hox hx => ?_⟩
    have hob := h.home_of_holds hc ⟨hx.1, by omega⟩ ho hox
    exact hne (((home_large hcache).mp hob).2.1.trans ((home_large hcache).mp hhome).2.1.symm)

/-! ## Whole runs -/

theorem Inv.step {op} (hp : s.Permitted op) :
    ∃ s' free', s.step op = some s' ∧ Inv s' free' := by
  cases op with
  | alloc size base =>
    obtain ⟨r, free', halloc, hinv⟩ := h.slabAlloc hp
    exact ⟨_, free', congrArg (Option.map _) halloc, hinv⟩
  | zalloc size base =>
    obtain ⟨r, free', halloc, hinv⟩ := h.slabZalloc hp
    exact ⟨_, free', congrArg (Option.map _) halloc, hinv⟩
  | free ptr =>
    show ∃ s' free', (s.slab.slabFree s.rounds ptr).map _ = some s' ∧ _
    rcases hp with rfl | ⟨o, ho, rfl⟩
    · have hlive : s.live.filter (·.ptr != 0) = s.live :=
        filter_eq_self.mpr fun o ho => bne_iff_ne.mpr (h.ptr_ne_zero ho)
      refine ⟨s, free, ?_, h⟩
      show some (SlabSystem.mk s.slab (s.live.filter (·.ptr != 0))) = some s
      rw [hlive]
    · obtain ⟨c, hc, hhome⟩ := h.home o ho
      cases hcache : c.cache with
      | some i =>
        rw [h.slabFree_slot ho hc hcache hhome]
        exact ⟨_, _, rfl, h.free_slot hc hcache hhome⟩
      | none =>
        rw [h.slabFree_large ho hc hcache hhome]
        exact ⟨_, _, rfl, h.free_large hc hcache hhome⟩
  | write addr byte =>
    refine ⟨_, free, rfl, h.of_mem fun b hb x hx => update_of_ne ?_ ..⟩
    rintro rfl
    rcases hp with ⟨o, ho, hox⟩ | hout
    · exact h.kept_not_live hb hx ho hox
    · exact hout b hb (h.kept_holds hb hx)

theorem Inv.separated : Separated s := by
  refine ⟨fun o ho => ?_, ?_, fun _ ho _ => h.metadata ho, fun ptr slab base count hp hfree =>
    h.returned hp hfree, fun op hp => ?_⟩
  · obtain ⟨b, hb, hhome⟩ := h.home o ho
    have hbounds := h.home_bounds hb hhome
    have hbelow := (h.fits b hb).below
    exact ⟨by omega, b, hb, fun _ => h.holds_of_home hb hhome⟩
  · refine (pairwise_map.mp h.distinct).imp_of_mem ?_
    intro o p ho hp hne x hx
    exact h.objects_apart ho hp hne hx
  · obtain ⟨s', -, hs, -⟩ := h.step hp
    rw [hs]
    rfl

end

def boot (mem : ByteMem) : SlabSystem := ⟨slabInit { mem }, []⟩

theorem inv_boot (mem : ByteMem) : Inv (boot mem) fun _ => [] := by
  refine ⟨rfl, fun b hb => absurd hb not_mem_nil, .nil, fun b hb => absurd hb not_mem_nil,
    fun i _ => rfl, fun b hb => absurd hb not_mem_nil, fun b hb => absurd hb not_mem_nil,
    fun o ho => absurd ho not_mem_nil, nodup_nil⟩

/-- **The objects of the slab allocator are apart.** After any allocations, frees of live pointers
and writes to live objects, the live objects lie in the allocator's pages, apart from each other and
from its headers and free lists; every call comes to an end, and pages are given back only when no
other live object lies in them. -/
theorem slab_separated {mem : ByteMem} {ops : List SlabOp}
    (hr : Run (fun s op s' => s.Permitted op ∧ s.step op = some s') (boot mem) ops s) : Separated s := by
  have hinv : ∃ free, Inv s free := by
    refine hr.invariant (P := fun s => ∃ free, Inv s free) (fun s op s' h hs => ?_) ⟨_, inv_boot mem⟩
    obtain ⟨free, h⟩ := h
    obtain ⟨s₁, free', hstep, hinv⟩ := h.step hs.1
    rw [hs.2] at hstep
    cases hstep
    exact ⟨free', hinv⟩
  obtain ⟨free, h⟩ := hinv
  exact h.separated

/-! ## The page allocator -/

/-- What `Permitted` asks of the page allocator is what the one of the kernel does, as long as the
slab allocator holds a reference on each page of its blocks. -/
theorem pmm_permitted {ledger : PmmLedger} (h : ledger.Inv) {count start : U64} {pmm : Pmm}
    (hcall : ledger.pmm.pagesAllocContiguous count = some (start, pmm))
    (hstart : start ≠ 0) (howned : ∀ b ∈ owned, b.Fits ∧ ∀ k < b.pages, ∀ a : U64,
      a.toNat = b.base.toNat + k * 4096 → 0 < ledger.refs a) :
    Fits ⟨start, count.toNat, none⟩ ∧ ∀ b ∈ owned, Apart ⟨start, count.toNat, none⟩ b := by
  obtain ⟨xs, hlist⟩ := h.list
  rcases hlist.pagesAllocContiguous count with hnone | ⟨i, s', ys, hsome, hpos, hblock, -⟩
  · rw [hnone] at hcall
    cases hcall
    exact absurd rfl hstart
  rw [hsome] at hcall
  cases hcall
  have hfits := hblock.fits
  have hlast := h.consecutive hblock (j := count.toNat - 1) (by omega)
  have hbelow := h.below (i + (count.toNat - 1)) (by omega)
  have haligned := h.aligned i (by omega)
  have hfit : Fits ⟨(ledger.pmm.pages i).addr, count.toNat, none⟩ :=
    ⟨hstart, haligned, hpos, show (ledger.pmm.pages i).addr.toNat + count.toNat * 4096 < 2 ^ 64 by omega⟩
  refine ⟨hfit, fun b hb => ?_⟩
  obtain ⟨hbfits, hheld⟩ := howned b hb
  by_contra hnot
  -- the blocks have a page in common, the later one of the two first pages
  unfold Apart at hnot
  dsimp only at hnot
  have hbaligned := hbfits.aligned
  by_cases hle : (ledger.pmm.pages i).addr.toNat ≤ b.base.toNat
  · have hj : (b.base.toNat - (ledger.pmm.pages i).addr.toNat) / 4096 < count.toNat := by omega
    have haddr := h.consecutive hblock hj
    have hrefs := h.free (i + _) (by omega) (hblock.free _ hj)
    have hpos := hheld 0 hbfits.pos _ (show _ = b.base.toNat + 0 * 4096 by rw [haddr]; omega)
    omega
  · have hk : ((ledger.pmm.pages i).addr.toNat - b.base.toNat) / 4096 < b.pages := by omega
    have hrefs := h.free i (by omega) (hblock.free 0 hpos)
    have hheld := hheld _ hk (ledger.pmm.pages i).addr (by omega)
    omega

/-- Two objects of one slab and a large one; the first is written to, freed and handed out again. -/
def mixedSizes : List SlabOp :=
  [.alloc 1000 0x10000, .zalloc 600 0, .alloc 200000 0x20000, .write 0x10840 0xff, .free 0x10840,
    .write 0x30000 0x11, .alloc 1024 0, .free 0x20040]

theorem slab_separated_mixed : ∃ s, Run (fun s op s' => s.Permitted op ∧ s.step op = some s')
    (boot fun _ => 0x55) mixedSizes s ∧
    s.live = [⟨0x10840, 1024⟩, ⟨0x10440, 600⟩] ∧ s.slab.owned = [⟨0x10000, 1, some 5⟩] ∧ Separated s := by
  have hrun : ((Run.exec (fun s op => if SlabSystem.Permitted s op then s.step op else none)
      (boot fun _ => 0x55) mixedSizes).map fun s => (s.live, s.slab.owned)) =
      some ([⟨0x10840, 1024⟩, ⟨0x10440, 600⟩], [⟨0x10000, 1, some 5⟩]) := by decide +kernel
  obtain ⟨s, hs, hfacts⟩ := Option.map_eq_some_iff.mp hrun
  injection hfacts with hlive howned
  have hr := Run.of_exec_guard hs
  exact ⟨s, hr, hlive, howned, slab_separated hr⟩

end SlabSystem

end Bunix.Kernel
