import Bunix.Kernel.Slab

/-! # Slabs in memory

What the words of a slab say: its header, and the free list through its free objects. The words that
carry this are the first 12 bytes of the header, the 20 bytes from `first_offset` on and the first 8
bytes of each free object; memory may change anywhere else.
-/
namespace Bunix.Kernel

open Bunix.Lib ByteMem List Nat

variable {s : Slab}

namespace PageBlock

/-- A block as the page allocator hands it out. -/
structure Fits (b : PageBlock) : Prop where
  base_ne : b.base ≠ 0
  aligned : b.base.toNat % 4096 = 0
  pos : 0 < b.pages
  below : b.base.toNat + b.pages * 4096 < 2 ^ 64

def Holds (b : PageBlock) (x : U64) : Prop :=
  b.base.toNat ≤ x.toNat ∧ x.toNat < b.base.toNat + b.pages * 4096

def Apart (b c : PageBlock) : Prop :=
  b.base.toNat + b.pages * 4096 ≤ c.base.toNat ∨ c.base.toNat + c.pages * 4096 ≤ b.base.toNat

instance (b : PageBlock) : Decidable b.Fits :=
  decidable_of_iff (b.base ≠ 0 ∧ b.base.toNat % 4096 = 0 ∧ 0 < b.pages ∧
    b.base.toNat + b.pages * 4096 < 2 ^ 64)
    ⟨fun ⟨h₁, h₂, h₃, h₄⟩ => ⟨h₁, h₂, h₃, h₄⟩, fun ⟨h₁, h₂, h₃, h₄⟩ => ⟨h₁, h₂, h₃, h₄⟩⟩

instance (b : PageBlock) (x : U64) : Decidable (b.Holds x) :=
  inferInstanceAs (Decidable (b.base.toNat ≤ x.toNat ∧ x.toNat < b.base.toNat + b.pages * 4096))

instance (b c : PageBlock) : Decidable (Apart b c) :=
  inferInstanceAs (Decidable (b.base.toNat + b.pages * 4096 ≤ c.base.toNat ∨
    c.base.toNat + c.pages * 4096 ≤ b.base.toNat))

instance : Std.Symm Apart := ⟨fun _ _ h => Or.symm h⟩

theorem Apart.not_holds (h : Apart b c) (hx : b.Holds x) : ¬c.Holds x := by
  unfold Holds at *
  unfold Apart at h
  omega

end PageBlock

namespace Slab

/-! ## The objects of a slab -/

def slotSize (cache : Nat) : Nat := (objectSize cache).toNat

def slotCount (cache : Nat) : Nat := (objectCount cache).toNat

def slotPages (cache : Nat) : Nat := (slabPages cache).toNat

theorem slots_fit : ∀ i < 13, 32 ≤ slotSize i ∧ 0 < slotPages i ∧ slotPages i < 64 ∧
    64 + slotCount i * slotSize i ≤ slotPages i * 4096 := by
  decide

theorem slotCount_pos : ∀ i < 13, 0 < slotCount i := by decide

theorem slot_aligned : ∀ i < 13, ∀ k < slotCount i, k * slotSize i % 4096 = 0 → k = 0 := by
  decide +kernel

/-- The pages of a slab do not wrap around. -/
structure Place (cache : Nat) (base : U64) : Prop where
  cache_lt : cache < 13
  below : base.toNat + slotPages cache * 4096 < 2 ^ 64

def IsSlot (cache : Nat) (base node : U64) : Prop := ∃ k < slotCount cache, node = object cache base k

variable {i k : Nat} {base node x : U64} {mem mem' : ByteMem} {free : List U64}

theorem slot_end (hi : i < 13) (hk : k < slotCount i) :
    64 + k * slotSize i + slotSize i ≤ slotPages i * 4096 := by
  obtain ⟨-, -, -, hfit⟩ := slots_fit i hi
  have hmul : (k + 1) * slotSize i ≤ slotCount i * slotSize i := mul_le_mul_right _ hk
  rw [succ_mul] at hmul
  omega

theorem Place.bounds (hp : Place i base) : 32 ≤ slotSize i ∧ base.toNat + 64 ≤ 2 ^ 64 ∧
    64 ≤ slotPages i * 4096 ∧ base.toNat + slotPages i * 4096 < 2 ^ 64 := by
  obtain ⟨hsize, hpages, -, -⟩ := slots_fit i hp.cache_lt
  have hbelow := hp.below
  omega

theorem toNat_object (hp : Place i base) (hk : k < slotCount i) :
    (object i base k).toNat = base.toNat + 64 + k * slotSize i := by
  have hbelow := hp.below
  have hend := slot_end hp.cache_lt hk
  have hoffset : (BitVec.ofNat 64 k * (objectSize i).setWidth 64).toNat = k * slotSize i := by
    have hk' : k < 2 ^ 64 := by
      obtain ⟨hsz, -⟩ := hp.bounds
      have := Nat.le_mul_of_pos_right k (show 0 < slotSize i by omega)
      omega
    rw [BitVec.toNat_mul, BitVec.toNat_ofNat, BitVec.toNat_setWidth, mod_eq_of_lt hk',
      mod_eq_of_lt (show (objectSize i).toNat < 2 ^ 64 by omega)]
    exact mod_eq_of_lt (show k * slotSize i < 2 ^ 64 by omega)
  have hfirst : (base + firstOffset).toNat = base.toNat + 64 := toNat_add_ofNat (n := 64) (by omega)
  unfold object
  rw [BitVec.toNat_add, hoffset, hfirst, mod_eq_of_lt (by omega)]

theorem IsSlot.bounds (hp : Place i base) (h : IsSlot i base node) :
    base.toNat + 64 ≤ node.toNat ∧ node.toNat + slotSize i ≤ base.toNat + slotPages i * 4096 := by
  obtain ⟨k, hk, rfl⟩ := h
  rw [toNat_object hp hk]
  have hend := slot_end hp.cache_lt hk
  omega

theorem IsSlot.apart (hp : Place i base) {node'} (h : IsSlot i base node) (h' : IsSlot i base node') (hne : node ≠ node') :
    node.toNat + slotSize i ≤ node'.toNat ∨ node'.toNat + slotSize i ≤ node.toNat := by
  obtain ⟨k, hk, rfl⟩ := h
  obtain ⟨j, hj, rfl⟩ := h'
  rw [toNat_object hp hk, toNat_object hp hj]
  have hkj : k ≠ j := fun he => hne (by rw [he])
  rcases lt_or_gt_of_ne hkj with hlt | hlt
  · have hmul : (k + 1) * slotSize i ≤ j * slotSize i := mul_le_mul_right _ hlt
    rw [succ_mul] at hmul
    omega
  · have hmul : (j + 1) * slotSize i ≤ k * slotSize i := mul_le_mul_right _ hlt
    rw [succ_mul] at hmul
    omega

/-! ## The words of a slab -/

/-- A pointer, `none` for the null pointer. -/
def nonNull (p : U64) : Option U64 := if p = 0 then none else some p

theorem nonNull_eq_some : nonNull p = some q ↔ p = q ∧ q ≠ 0 := by
  unfold nonNull
  split
  · rename_i h
    rw [h]
    constructor
    · intro hc
      cases hc
    · rintro ⟨rfl, hq⟩
      exact absurd rfl hq
  · rename_i h
    constructor
    · intro hc
      cases hc
      exact ⟨rfl, h⟩
    · rintro ⟨rfl, -⟩
      rfl

theorem nonNull_eq_none : nonNull p = none ↔ p = 0 := by
  unfold nonNull
  split <;> simp_all

/-- The bytes that say that a slab is what it is. -/
def Footprint (base : U64) (free : List U64) (x : U64) : Prop :=
  Within base 12 x ∨ Within (firstOffsetField base) 20 x ∨ ∃ node ∈ free, Within node 8 x

structure IsSlab (mem : ByteMem) (cache : Nat) (base : U64) (free : List U64) : Prop where
  magic : mem.load32 base = slabMagic
  pageCount : mem.load32 (pageCountField base) = (slabPages cache).setWidth 32
  size : mem.load32 (objectSizeField base) = objectSize cache
  offset : mem.load32 (firstOffsetField base) = firstOffset.setWidth 32
  chain : PtrList.Chain (fun node => nonNull (mem.load64 node)) (nonNull (mem.load64 (freeField base))) free
  nodup : free.Nodup
  slots : ∀ node ∈ free, IsSlot cache base node

theorem agree_tail (hm : ∀ x, Footprint base free x → mem' x = mem x) :
    ∀ x, Within (firstOffsetField base) 20 x → mem' x = mem x :=
  fun x hx => hm x (.inr (.inl hx))

theorem toNat_firstOffsetField (hb : base.toNat + 64 ≤ 2 ^ 64) :
    (firstOffsetField base).toNat = base.toNat + 20 := toNat_add_ofNat (n := 20) (by omega)

theorem freeField_eq (base : U64) : freeField base = firstOffsetField base + BitVec.ofNat 64 4 := by
  unfold freeField firstOffsetField
  rw [BitVec.add_assoc]
  rfl

theorem nextField_eq (base : U64) : nextField base = firstOffsetField base + BitVec.ofNat 64 12 := by
  unfold nextField firstOffsetField
  rw [BitVec.add_assoc]
  rfl

theorem load64_free (hb : base.toNat + 64 ≤ 2 ^ 64) (hm : ∀ x, Footprint base free x → mem' x = mem x) :
    mem'.load64 (freeField base) = mem.load64 (freeField base) := by
  have haddr := toNat_firstOffsetField hb
  rw [freeField_eq]
  exact load64_offset (by omega) (by decide) (agree_tail hm)

theorem load64_next (hb : base.toNat + 64 ≤ 2 ^ 64) (hm : ∀ x, Footprint base free x → mem' x = mem x) :
    mem'.load64 (nextField base) = mem.load64 (nextField base) := by
  have haddr := toNat_firstOffsetField hb
  rw [nextField_eq]
  exact load64_offset (by omega) (by decide) (agree_tail hm)

/-- The fields of the header that `slab_free` reads, and a free list. -/
theorem IsSlab.of_header {free'} (h : IsSlab mem i base free) (hb : base.toNat + 64 ≤ 2 ^ 64)
    (hhead : ∀ x, base.toNat ≤ x.toNat → x.toNat < base.toNat + 12 → mem' x = mem x)
    (hoffset : ∀ x, base.toNat + 20 ≤ x.toNat → x.toNat < base.toNat + 24 → mem' x = mem x)
    (hchain : PtrList.Chain (fun node => nonNull (mem'.load64 node)) (nonNull (mem'.load64 (freeField base)))
      free') (hnodup : free'.Nodup) (hslots : ∀ node ∈ free', IsSlot i base node) :
    IsSlab mem' i base free' := by
  have hhead : ∀ x, Within base 12 x → mem' x = mem x := fun x hx =>
    (within_iff (by omega)).mp hx |>.elim (hhead x)
  refine ⟨?_, ?_, ?_, ?_, hchain, hnodup, hslots⟩
  · rw [← h.magic]
    have hload := load32_offset (i := 0) (by omega) (by decide) hhead
    simpa using hload
  · rw [← h.pageCount]
    exact load32_offset (by omega) (by decide) hhead
  · rw [← h.size]
    exact load32_offset (by omega) (by decide) hhead
  · rw [← h.offset]
    refine load32_congr fun x hx => ?_
    have haddr := toNat_firstOffsetField hb
    rw [within_iff (by omega)] at hx
    exact hoffset x (by omega) (by omega)

theorem IsSlab.congr (h : IsSlab mem i base free) (hb : base.toNat + 64 ≤ 2 ^ 64)
    (hm : ∀ x, Footprint base free x → mem' x = mem x) : IsSlab mem' i base free := by
  have haddr := toNat_firstOffsetField hb
  refine h.of_header hb (fun x h₁ h₂ => hm x (.inl ?_)) (fun x h₁ h₂ => hm x (.inr (.inl ?_))) ?_ h.nodup h.slots
  · exact (within_iff (by omega)).mpr ⟨h₁, h₂⟩
  · exact (within_iff (by omega)).mpr (by omega)
  · rw [load64_free hb hm]
    refine h.chain.congr fun node hnode => ?_
    rw [load64_congr fun x hx => hm x (.inr (.inr ⟨node, hnode, hx⟩))]

/-! ## Walking a list of slabs -/

theorem walkSlabs_eq (p : U64 → Bool) {head xs fuel}
    (hc : PtrList.Chain (fun slab => nonNull (mem.load64 (nextField slab))) (nonNull head) xs)
    (hf : xs.length ≤ fuel) : walkSlabs mem p fuel head = some ((xs.find? p).getD 0) := by
  induction xs generalizing head fuel with
  | nil =>
    unfold walkSlabs
    rw [if_pos (nonNull_eq_none.mp hc)]
    rfl
  | cons slab xs ih =>
    obtain ⟨hhead, hrest⟩ := hc
    obtain ⟨rfl, hne⟩ := nonNull_eq_some.mp hhead
    unfold walkSlabs
    rw [if_neg hne]
    cases hp : p head with
    | true => simp [hp]
    | false =>
      cases fuel with
      | zero => simp at hf
      | succ fuel =>
        rw [find?_cons_of_neg (by simp [hp])]
        exact ih hrest (by simpa using hf)

theorem slabPages_wide : ∀ i < 13, ((slabPages i).setWidth 32).setWidth 64 = slabPages i := by decide

/-- `slab_free` takes an address for an object of the slab if it is in the slab, a number of objects
behind the header. -/
theorem IsSlab.holds_iff (h : IsSlab mem i base free) (hp : Place i base) :
    slabHolds mem x base = true ↔ base.toNat + 64 ≤ x.toNat ∧
      x.toNat < base.toNat + slotPages i * 4096 ∧ (x.toNat - (base.toNat + 64)) % slotSize i = 0 := by
  obtain ⟨hsize, hpages, hsmall, -⟩ := slots_fit i hp.cache_lt
  have hbelow := hp.below
  have hstart : (base + (firstOffset.setWidth 32).setWidth 64).toNat = base.toNat + 64 :=
    toNat_add_ofNat (n := 64) (by omega)
  have hstop : (base + slabPages i * pmmPageSize).toNat = base.toNat + slotPages i * 4096 := by
    have hmul : (slabPages i * pmmPageSize).toNat = slotPages i * 4096 := by
      exact mod_eq_of_lt (show slotPages i * 4096 < 2 ^ 64 by omega)
    rw [BitVec.toNat_add, hmul, mod_eq_of_lt hbelow]
  have hwide : ((objectSize i).setWidth 64).toNat = slotSize i := by
    rw [BitVec.toNat_setWidth]
    exact mod_eq_of_lt (by have := (objectSize i).isLt; omega)
  unfold slabHolds
  rw [h.magic, h.offset, h.pageCount, h.size, slabPages_wide i hp.cache_lt]
  simp only [beq_self_eq_true, Bool.true_and, Bool.and_eq_true, Bool.not_eq_true', decide_eq_false_iff_not,
    BitVec.lt_def, BitVec.le_def, hstart, hstop, beq_iff_eq, not_lt, not_le, and_assoc]
  refine and_congr_right fun hlo => and_congr_right fun hhi => ?_
  rw [← BitVec.toNat_inj, BitVec.toNat_umod, hwide, BitVec.toNat_sub_of_le (by rw [BitVec.le_def]; omega),
    hstart]
  rfl

theorem IsSlab.holds_slot (h : IsSlab mem i base free) (hp : Place i base) (hslot : IsSlot i base node) :
    slabHolds mem node base = true := by
  obtain ⟨hsize, -⟩ := hp.bounds
  obtain ⟨hlo, hhi⟩ := hslot.bounds hp
  obtain ⟨k, hk, rfl⟩ := hslot
  refine (h.holds_iff hp).mpr ⟨hlo, by omega, ?_⟩
  rw [toNat_object hp hk, Nat.add_sub_cancel_left, Nat.mul_mod_left]

/-! ## Pushing and popping -/

theorem toNat_freeField (hb : base.toNat + 64 ≤ 2 ^ 64) : (freeField base).toNat = base.toNat + 24 :=
  toNat_add_ofNat (n := 24) (by omega)

theorem toNat_freeCountField (hb : base.toNat + 64 ≤ 2 ^ 64) :
    (freeCountField base).toNat = base.toNat + 16 := toNat_add_ofNat (n := 16) (by omega)

theorem toNat_headerFields (hb : base.toNat + 64 ≤ 2 ^ 64) :
    (pageCountField base).toNat = base.toNat + 4 ∧ (objectSizeField base).toNat = base.toNat + 8 ∧
      (objectCountField base).toNat = base.toNat + 12 :=
  ⟨toNat_add_ofNat (n := 4) (by omega), toNat_add_ofNat (n := 8) (by omega),
    toNat_add_ofNat (n := 12) (by omega)⟩

theorem pushFree_of_not_within (hnode : ¬Within node 8 x)
    (hfree : ¬Within (freeField base) 8 x) : pushFree mem base node x = mem x := by
  unfold pushFree store64
  rw [store_of_not_within hfree, store_of_not_within hnode]

theorem IsSlab.push (h : IsSlab mem i base free) (hp : Place i base) (hnode : IsSlot i base node) (hnot : node ∉ free) :
    IsSlab (pushFree mem base node) i base (node :: free) := by
  obtain ⟨hsize, hb, hpages, hbelow⟩ := hp.bounds
  obtain ⟨hlo, hhi⟩ := hnode.bounds hp
  have haddr := toNat_freeField hb
  have hother : ∀ x, ¬(node.toNat ≤ x.toNat ∧ x.toNat < node.toNat + 8) →
      ¬(base.toNat + 24 ≤ x.toNat ∧ x.toNat < base.toNat + 32) → pushFree mem base node x = mem x := by
    intro x h₁ h₂
    refine pushFree_of_not_within ?_ ?_
    · rwa [within_iff (by omega)]
    · rw [within_iff (by omega), haddr]
      omega
  refine h.of_header hb (fun x _ _ => hother x (by omega) (by omega))
    (fun x _ _ => hother x (by omega) (by omega)) ⟨?_, ?_⟩ (nodup_cons.mpr ⟨hnot, h.nodup⟩) ?_
  · unfold pushFree
    rw [load64_store64, nonNull_eq_some]
    refine ⟨rfl, fun h0 => ?_⟩
    rw [h0] at hlo
    exact absurd hlo (by simp)
  · -- the link of the new node is the old head, and the other links are as they were
    have hlink : (pushFree mem base node).load64 node = mem.load64 (freeField base) := by
      have hsame : (pushFree mem base node).load64 node =
          (mem.store64 node (mem.load64 (freeField base))).load64 node := by
        refine load64_congr fun x hx => store_of_not_within ?_
        rw [within_iff (by omega)] at hx
        rw [within_iff (by omega)]
        omega
      rw [hsame, load64_store64]
    show PtrList.Chain _ (nonNull ((pushFree mem base node).load64 node)) free
    rw [hlink]
    refine h.chain.congr fun n hn => ?_
    have hslot := h.slots n hn
    obtain ⟨hnlo, hnhi⟩ := hslot.bounds hp
    have hne : n ≠ node := fun he => hnot (he ▸ hn)
    have hapart := hslot.apart hp hnode hne
    rw [load64_congr fun x hx => ?_]
    rw [within_iff (by omega)] at hx
    exact hother x (by omega) (by omega)
  · intro n hn
    rcases mem_cons.mp hn with rfl | hn
    · exact hnode
    · exact h.slots n hn

/-- The memory after the first object has been taken off the free list. -/
def popped (mem : ByteMem) (slab : U64) : ByteMem :=
  let mem' := mem.store64 (freeField slab) (mem.load64 (mem.load64 (freeField slab)))
  mem'.store32 (freeCountField slab) (mem'.load32 (freeCountField slab) - 1)

theorem popFree_eq (hslab : base ≠ 0) (hfree : s.mem.load64 (freeField base) ≠ 0) :
    s.popFree base = (s.mem.load64 (freeField base), { s with mem := popped s.mem base }) := by
  unfold popFree
  rw [if_neg (not_or.mpr ⟨hslab, hfree⟩)]
  rfl

theorem popped_other (hb : base.toNat + 64 ≤ 2 ^ 64) (h₁ : ¬(base.toNat + 16 ≤ x.toNat ∧ x.toNat < base.toNat + 20))
    (h₂ : ¬(base.toNat + 24 ≤ x.toNat ∧ x.toNat < base.toNat + 32)) : popped mem base x = mem x := by
  have haddr := toNat_freeField hb
  have hcount := toNat_freeCountField hb
  unfold popped store64 store32
  rw [store_of_not_within, store_of_not_within]
  · rw [within_iff (by omega)]
    omega
  · rw [within_iff (by omega)]
    omega

theorem IsSlab.pop (h : IsSlab mem i base (node :: free)) (hp : Place i base) :
    mem.load64 (freeField base) = node ∧ IsSlab (popped mem base) i base free := by
  obtain ⟨hsize, hb, hpages, hbelow⟩ := hp.bounds
  have haddr := toNat_freeField hb
  have hcount := toNat_freeCountField hb
  obtain ⟨hhead, htail⟩ := h.chain
  obtain ⟨hfree, -⟩ := nonNull_eq_some.mp hhead
  refine ⟨hfree, h.of_header hb (fun x _ _ => popped_other hb (by omega) (by omega))
    (fun x _ _ => popped_other hb (by omega) (by omega)) ?_ (nodup_cons.mp h.nodup).2
    fun n hn => h.slots n (mem_cons_of_mem _ hn)⟩
  · have hnew : (popped mem base).load64 (freeField base) = mem.load64 node := by
      have hsame : (popped mem base).load64 (freeField base) =
          (mem.store64 (freeField base) (mem.load64 (mem.load64 (freeField base)))).load64 (freeField base) := by
        refine load64_congr fun x hx => store_of_not_within ?_
        rw [within_iff (by omega)] at hx
        rw [within_iff (by omega)]
        omega
      rw [hsame, load64_store64, hfree]
    rw [hnew]
    refine htail.congr fun n hn => ?_
    obtain ⟨hnlo, hnhi⟩ := (h.slots n (mem_cons_of_mem _ hn)).bounds hp
    rw [load64_congr fun x hx => ?_]
    rw [within_iff (by omega)] at hx
    exact popped_other hb (by omega) (by omega)

/-! ## A new slab -/

theorem isSlab_writeHeader (hb : base.toNat + 64 ≤ 2 ^ 64) : IsSlab (writeHeader mem i base) i base [] := by
  obtain ⟨h₁, h₂, h₃⟩ := toNat_headerFields hb
  have h₄ := toNat_freeCountField hb
  have h₅ := toNat_firstOffsetField hb
  have h₆ := toNat_freeField hb
  unfold writeHeader
  refine ⟨?_, ?_, ?_, ?_, ?_, nodup_nil, fun n hn => absurd hn not_mem_nil⟩
  case refine_5 =>
    show nonNull _ = none
    rw [load64_store64, nonNull_eq_none]
  all_goals
    simp (disch := omega) only [load32_store32_ne, load32_store64_ne, load32_store32]

theorem object_inj (hp : Place i base)
    (hk : k < slotCount i) (hj : j < slotCount i) (h : object i base k = object i base j) : k = j := by
  have heq := congrArg BitVec.toNat h
  rw [toNat_object hp hk, toNat_object hp hj] at heq
  obtain ⟨hsize, -⟩ := hp.bounds
  exact eq_of_mul_eq_mul_right (show 0 < slotSize i by omega) (by omega)

/-- The first `n` objects of a new slab, the last one first. -/
def newFree (cache : Nat) (base : U64) (n : Nat) : List U64 := ((range n).map (object cache base)).reverse

theorem newFree_succ (n : Nat) : newFree i base (n + 1) = object i base n :: newFree i base n := by
  unfold newFree
  rw [range_succ, map_append, reverse_append]
  rfl

/-- The loop of `slab_grow`. -/
def pushObjects (mem : ByteMem) (cache : Nat) (base : U64) (n : Nat) : ByteMem :=
  (range n).foldl (fun mem k => pushFree mem base (object cache base k)) mem

theorem pushObjects_succ (n : Nat) :
    pushObjects mem i base (n + 1) = pushFree (pushObjects mem i base n) base (object i base n) := by
  unfold pushObjects
  rw [range_succ, foldl_append]
  rfl

theorem IsSlab.pushObjects (h : IsSlab mem i base []) (hp : Place i base) (hn : n ≤ slotCount i) :
    IsSlab (pushObjects mem i base n) i base (newFree i base n) := by
  induction n with
  | zero => exact h
  | succ n ih =>
    rw [pushObjects_succ, newFree_succ]
    refine (ih (by omega)).push hp ⟨n, hn, rfl⟩ fun hmem => ?_
    obtain ⟨k, hk, heq⟩ := mem_map.mp (mem_reverse.mp hmem)
    have hk := mem_range.mp hk
    have := object_inj hp (by omega) hn heq
    omega

theorem IsSlab.setNext (h : IsSlab mem i base free) (hp : Place i base) (next : U64) :
    IsSlab (mem.store64 (nextField base) next) i base free := by
  obtain ⟨hsize, hb, hpages, hbelow⟩ := hp.bounds
  have hnext : (nextField base).toNat = base.toNat + 32 := toNat_add_ofNat (n := 32) (by omega)
  have hfree := toNat_freeField hb
  have hother : ∀ x, ¬(base.toNat + 32 ≤ x.toNat ∧ x.toNat < base.toNat + 40) →
      mem.store64 (nextField base) next x = mem x := by
    intro x hx
    refine store_of_not_within ?_
    rw [within_iff (by omega)]
    omega
  refine h.of_header hb (fun x _ _ => hother x (by omega)) (fun x _ _ => hother x (by omega)) ?_
    h.nodup h.slots
  · rw [load64_congr fun x hx => hother x ?_]
    swap
    · rw [within_iff (by omega)] at hx
      omega
    refine h.chain.congr fun n hn => ?_
    obtain ⟨hlo, hhi⟩ := (h.slots n hn).bounds hp
    rw [load64_congr fun x hx => hother x ?_]
    rw [within_iff (by omega)] at hx
    omega

def grown (s : Slab) (cache : Nat) (base : U64) : ByteMem :=
  (pushObjects (writeHeader s.mem cache base) cache base (slotCount cache)).store64 (nextField base)
    (s.slabs cache)

theorem slabGrow_eq (h : base ≠ 0) : s.slabGrow i base = (base, { s with
    mem := grown s i base
    slabs := Function.update s.slabs i base
    owned := ⟨base, slotPages i, some i⟩ :: s.owned }) := by
  unfold slabGrow
  rw [if_neg h]
  rfl

theorem isSlab_grown (hp : Place i base) :
    IsSlab (grown s i base) i base (newFree i base (slotCount i)) := by
  obtain ⟨hsize, hb, hpages, hbelow⟩ := hp.bounds
  exact ((isSlab_writeHeader (by omega)).pushObjects hp (le_refl _)).setNext hp _

def OutsideSlab (cache : Nat) (base x : U64) : Prop :=
  ¬(base.toNat ≤ x.toNat ∧ x.toNat < base.toNat + slotPages cache * 4096)

theorem store64_outside (ha : a.toNat + 8 ≤ 2 ^ 64)
    (hx : ¬(a.toNat ≤ x.toNat ∧ x.toNat < a.toNat + 8)) : mem.store64 a v x = mem x :=
  store_of_not_within (by rwa [within_iff ha])

theorem store32_outside (ha : a.toNat + 4 ≤ 2 ^ 64)
    (hx : ¬(a.toNat ≤ x.toNat ∧ x.toNat < a.toNat + 4)) : mem.store32 a v x = mem x :=
  store_of_not_within (by rwa [within_iff ha])

theorem writeHeader_outside (hb : base.toNat + 64 ≤ 2 ^ 64)
    (hx : ¬(base.toNat ≤ x.toNat ∧ x.toNat < base.toNat + 64)) : writeHeader mem i base x = mem x := by
  obtain ⟨h₁, h₂, h₃⟩ := toNat_headerFields hb
  have h₄ := toNat_freeCountField hb
  have h₅ := toNat_firstOffsetField hb
  have h₆ := toNat_freeField hb
  unfold writeHeader
  simp (disch := omega) only [store64_outside, store32_outside]

theorem pushFree_outside (hp : Place i base)
    (hnode : IsSlot i base node) (hx : OutsideSlab i base x) : pushFree mem base node x = mem x := by
  obtain ⟨hsize, hb, hpages, hbelow⟩ := hp.bounds
  obtain ⟨hlo, hhi⟩ := hnode.bounds hp
  have haddr : (freeField base).toNat = base.toNat + 24 := toNat_freeField (by omega)
  unfold OutsideSlab at hx
  unfold pushFree
  rw [store64_outside (by omega) (by omega), store64_outside (by omega) (by omega)]

theorem pushObjects_outside (hp : Place i base)
    (hn : n ≤ slotCount i) (hx : OutsideSlab i base x) : pushObjects mem i base n x = mem x := by
  induction n with
  | zero => rfl
  | succ n ih => rw [pushObjects_succ, pushFree_outside hp ⟨n, hn, rfl⟩ hx, ih (by omega)]

theorem grown_outside (hp : Place i base) (hx : OutsideSlab i base x) : grown s i base x = s.mem x := by
  obtain ⟨hsize, hb, hpages, hbelow⟩ := hp.bounds
  have hnext : (nextField base).toNat = base.toNat + 32 := toNat_add_ofNat (n := 32) (by omega)
  have hx' := hx
  unfold OutsideSlab at hx'
  unfold grown
  rw [store64_outside (by omega) (by omega), pushObjects_outside hp (le_refl _) hx,
    writeHeader_outside (by omega) (by omega)]

theorem grown_next : (grown s i base).load64 (nextField base) = s.slabs i := load64_store64 ..

end Slab

end Bunix.Kernel
