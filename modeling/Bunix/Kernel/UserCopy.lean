import Bunix.Kernel.Paging
import Bunix.Lib.Alignment
import Mathlib.Tactic.IntervalCases

/-! # Copying from and to user memory

`vm_read_user` and `vm_write_user` of `kernel/vm.c`. A range is copied page by page, each page where
its translation says. What user mode itself can reach is said by `UserMapped`, the rule by which the
processor walks the tables. The buffer on the kernel's side is a function of the offset in it.
-/
namespace Bunix.Kernel

open Bunix.Lib ByteMem Option List Nat

variable {e a b phys f : U64} {k chunk i fuel : Nat} {dst src : Nat → BitVec 8}
  {mem' mem₀ : ByteMem}

namespace UserCopy

open Paging

/-! ## The copy loops -/

/-- `mem_copy(dst + done, phys, chunk)`. -/
def copyOut (mem : ByteMem) (phys : U64) (done chunk : Nat) (dst : Nat → BitVec 8) : Nat → BitVec 8 := fun i =>
  if done ≤ i ∧ i < done + chunk then mem (phys + BitVec.ofNat 64 (i - done)) else dst i

/-- `mem_copy(phys, src + done, chunk)`. -/
def copyIn (mem : ByteMem) (phys : U64) (done chunk : Nat) (src : Nat → BitVec 8) : ByteMem := fun x =>
  if Within phys chunk x then src (done + (x - phys).toNat) else mem x

/-- The length of the piece of a range that lies in the page of `current`. -/
def chunkLen (len done current : U64) : U64 := minU64 (len - done) (vmPageSize - pageOffset current)

/-- The loop of `vm_read_user`; `none` when the rounds run out. -/
def readLoop (mem : ByteMem) (root vaddr len : U64) :
    Nat → U64 → (Nat → BitVec 8) → Option (Bool × (Nat → BitVec 8))
  | fuel, done, dst =>
    if done < len then
      match fuel with
      | 0 => none
      | fuel + 1 =>
        let current := vaddr + done
        let phys := translateUser mem root current false
        let chunk := chunkLen len done current
        if phys = 0 then some (false, dst)
        else readLoop mem root vaddr len fuel (done + chunk) (copyOut mem phys done.toNat chunk.toNat dst)
    else some (true, dst)

/-- `vm_read_user`; a space or a buffer that is `none` is a null pointer. -/
def vmReadUser (mem : ByteMem) (space : Option U64) (vaddr : U64) (dst : Option (Nat → BitVec 8)) (len : U64) :
    Option (Bool × (Nat → BitVec 8)) :=
  match space, dst with
  | some root, some dst =>
    if vaddr + len < vaddr then some (false, dst) else readLoop mem root vaddr len len.toNat 0 dst
  | _, dst => some (false, dst.getD fun _ => 0)

def writeLoop (root vaddr len : U64) (src : Nat → BitVec 8) : Nat → ByteMem → U64 → Option (Bool × ByteMem)
  | fuel, mem, done =>
    if done < len then
      match fuel with
      | 0 => none
      | fuel + 1 =>
        let current := vaddr + done
        let phys := translateUser mem root current true
        let chunk := chunkLen len done current
        if phys = 0 then some (false, mem)
        else writeLoop root vaddr len src fuel (copyIn mem phys done.toNat chunk.toNat src) (done + chunk)
    else some (true, mem)

def vmWriteUser (mem : ByteMem) (space : Option U64) (vaddr : U64) (src : Option (Nat → BitVec 8)) (len : U64) :
    Option (Bool × ByteMem) :=
  match space, src with
  | some root, some src =>
    if vaddr + len < vaddr then some (false, mem) else writeLoop root vaddr len src len.toNat mem 0
  | _, _ => some (false, mem)

/-! ## What user mode can reach -/

/-- The entries that a walk for an address meets, and the table of each. -/
structure Walk where
  e4 : U64
  e3 : U64
  e2 : U64
  e1 : U64

def walkOf (mem : ByteMem) (root vaddr : U64) : Walk :=
  let e4 := entry mem root (pml4Index vaddr)
  let e3 := entry mem (target e4) (pdptIndex vaddr)
  let e2 := entry mem (target e3) (pdIndex vaddr)
  ⟨e4, e3, e2, entry mem (target e2) (ptIndex vaddr)⟩

/-- Bits 47 to 63 of an address that the processor accepts are the same. -/
def Canonical (vaddr : U64) : Prop := vaddr.toNat < 2 ^ 47 ∨ 2 ^ 64 - 2 ^ 47 ≤ vaddr.toNat

/-- An entry lets user mode pass. -/
def Passes (write : Bool) (e : U64) : Prop := isUser e = true ∧ (write = true → isWritable e = true)

/-- User mode can read the page of an address, or write to it, and it is backed by the frame. -/
structure UserMapped (mem : ByteMem) (root vaddr : U64) (write : Bool) (frame : U64) : Prop where
  canonical : Canonical vaddr
  tables : ∀ e ∈ [(walkOf mem root vaddr).e4, (walkOf mem root vaddr).e3, (walkOf mem root vaddr).e2],
    Passes write e ∧ isLarge e = false
  page : Passes write (walkOf mem root vaddr).e1
  frame_eq : frame = target (walkOf mem root vaddr).e1

/-- The page that `arch_vm_translate_user` finds. -/
def frameOf (mem : ByteMem) (root vaddr : U64) (write : Bool) : Option U64 :=
  let w := walkOf mem root vaddr
  if userDenied write w.e4 || userDenied write w.e3 || (userDenied write w.e2 || isLarge w.e2) ||
    userDenied write w.e1 then none else some (target w.e1)

theorem translateUser_eq (mem : ByteMem) (root vaddr : U64) (write : Bool) :
    translateUser mem root vaddr write =
      match frameOf mem root vaddr write with
      | none => 0
      | some frame => frame + pageOffset vaddr := by
  unfold translateUser frameOf walkOf
  dsimp only
  generalize entry mem root (pml4Index vaddr) = e4
  generalize entry mem (target e4) (pdptIndex vaddr) = e3
  generalize entry mem (target e3) (pdIndex vaddr) = e2
  generalize entry mem (target e2) (ptIndex vaddr) = e1
  cases userDenied write e4 <;> cases userDenied write e3 <;> cases (userDenied write e2 || isLarge e2) <;>
    cases userDenied write e1 <;> rfl

theorem exists_frame {mem root vaddr write}
    (h : translateUser mem root vaddr write ≠ 0) : ∃ f, frameOf mem root vaddr write = some f ∧
      translateUser mem root vaddr write = f + pageOffset vaddr := by
  rw [translateUser_eq] at h ⊢
  cases hf : frameOf mem root vaddr write with
  | none =>
    rw [hf] at h
    exact absurd rfl h
  | some f => exact ⟨f, rfl, rfl⟩

/-- The byte of memory that user mode reaches at an address. -/
def UserByte (mem : ByteMem) (root vaddr : U64) (write : Bool) (p : U64) : Prop :=
  ∃ frame, UserMapped mem root vaddr write frame ∧ p = frame + pageOffset vaddr

/-- An address on whose walk the kernel and the processor agree: it is canonical, and no entry above
the page directory has `PTE_LARGE`. -/
structure Plain (mem : ByteMem) (root vaddr : U64) : Prop where
  canonical : Canonical vaddr
  pml4 : isLarge (walkOf mem root vaddr).e4 = false
  pdpt : isUser (walkOf mem root vaddr).e4 = true → isLarge (walkOf mem root vaddr).e3 = false

theorem passes_iff {write} : Passes write e ↔ userDenied write e = false := by
  unfold Passes userDenied
  cases isUser e <;> cases write <;> cases isWritable e <;> simp

theorem frameOf_iff {mem root vaddr frame write} (h : Plain mem root vaddr) :
    frameOf mem root vaddr write = some frame ↔ UserMapped mem root vaddr write frame := by
  unfold frameOf
  dsimp only
  constructor
  · intro hf
    split at hf
    · cases hf
    rename_i hok
    simp only [Bool.or_eq_true, not_or, Bool.not_eq_true] at hok
    obtain ⟨⟨⟨h4, h3⟩, h2, hl⟩, h1⟩ := hok
    refine ⟨h.canonical, ?_, passes_iff.mpr h1, (some.inj hf).symm⟩
    intro e he
    simp only [mem_cons, not_mem_nil, or_false] at he
    rcases he with rfl | rfl | rfl
    · exact ⟨passes_iff.mpr h4, h.pml4⟩
    · exact ⟨passes_iff.mpr h3, h.pdpt (passes_iff.mpr h4).1⟩
    · exact ⟨passes_iff.mpr h2, hl⟩
  · intro hm
    have h4 := hm.tables _ mem_cons_self
    have h3 := hm.tables _ (mem_cons_of_mem _ mem_cons_self)
    have h2 := hm.tables _ (mem_cons_of_mem _ (mem_cons_of_mem _ mem_cons_self))
    rw [if_neg, hm.frame_eq]
    simp [passes_iff.mp h4.1, passes_iff.mp h3.1, passes_iff.mp h2.1, h2.2, passes_iff.mp hm.page]

/-! ## The bytes of a range -/

theorem toNat_pageOffset (vaddr : U64) : (pageOffset vaddr).toNat = vaddr.toNat % 4096 :=
  toNat_and_mask (k := 12) vaddr rfl

theorem toNat_index (vaddr : U64) (k : Nat) : ((vaddr >>> k) &&& 0x1ff).toNat = vaddr.toNat / 2 ^ k % 512 := by
  have hmask : ((vaddr >>> k) &&& 0x1ff).toNat = (vaddr >>> k).toNat % 512 :=
    toNat_and_mask (k := 9) _ rfl
  rw [hmask, BitVec.toNat_ushiftRight, shiftRight_eq_div_pow]

theorem index_congr (h : a.toNat / 4096 = b.toNat / 4096) (hk : 12 ≤ k) :
    (a >>> k) &&& 0x1ff = (b >>> k) &&& 0x1ff := by
  obtain ⟨j, rfl⟩ := Nat.exists_eq_add_of_le hk
  apply BitVec.eq_of_toNat_eq
  rw [toNat_index, toNat_index, Nat.pow_add, ← Nat.div_div_eq_div_mul, ← Nat.div_div_eq_div_mul]
  rw [h]

theorem walkOf_congr {mem root} (h : a.toNat / 4096 = b.toNat / 4096) :
    walkOf mem root a = walkOf mem root b := by
  unfold walkOf pml4Index pdptIndex pdIndex ptIndex
  rw [index_congr h (by decide), index_congr h (by decide),
    index_congr h (by decide), index_congr h (by decide)]

theorem frameOf_congr {mem root write} (h : a.toNat / 4096 = b.toNat / 4096) :
    frameOf mem root a write = frameOf mem root b write := by
  unfold frameOf
  rw [walkOf_congr h]

/-- Where byte `i` of a range is in physical memory. -/
def physOf (mem : ByteMem) (root vaddr : U64) (write : Bool) (i : Nat) : Option U64 :=
  (frameOf mem root (vaddr + BitVec.ofNat 64 i) write).map (· + pageOffset (vaddr + BitVec.ofNat 64 i))

variable {mem : ByteMem} {root vaddr len done : U64} {write : Bool}

theorem toNat_chunkLen (hfit : vaddr.toNat + len.toNat < 2 ^ 64) (hdone : done.toNat < len.toNat) :
    (chunkLen len done (vaddr + done)).toNat =
      min (len.toNat - done.toNat) (4096 - (vaddr.toNat + done.toNat) % 4096) := by
  have hsum : (vaddr + done).toNat = vaddr.toNat + done.toNat := by
    rw [BitVec.toNat_add, mod_eq_of_lt (by omega)]
  have hoff := toNat_pageOffset (vaddr + done)
  have hpage : vmPageSize.toNat = 4096 := rfl
  unfold chunkLen
  rw [toNat_minU64, BitVec.toNat_sub_of_le (BitVec.le_def.mpr (by omega)),
    BitVec.toNat_sub_of_le (BitVec.le_def.mpr (by omega)), hoff, hsum, hpage]

/-- One round of a copy: the bytes it copies lie in one page, behind each other, and the next round
starts at a page boundary. -/
structure Round (mem : ByteMem) (root vaddr len done : U64) (write : Bool) (chunk : Nat) : Prop where
  pos : 0 < chunk
  le : done.toNat + chunk ≤ len.toNat
  next : (done + chunkLen len done (vaddr + done)).toNat = done.toNat + chunk
  boundary : done.toNat + chunk < len.toNat → (vaddr.toNat + (done.toNat + chunk)) % 4096 = 0
  inside : ∀ i, done.toNat < i → i < done.toNat + chunk → (vaddr.toNat + i) % 4096 ≠ 0
  phys : ∀ i, done.toNat ≤ i → i < done.toNat + chunk → physOf mem root vaddr write i =
    (frameOf mem root (vaddr + done) write).map
      (· + pageOffset (vaddr + done) + BitVec.ofNat 64 (i - done.toNat))

theorem round (hfit : vaddr.toNat + len.toNat < 2 ^ 64) (hdone : done.toNat < len.toNat) :
    Round mem root vaddr len done write (chunkLen len done (vaddr + done)).toNat := by
  have hchunk := toNat_chunkLen hfit hdone
  have hstart : (vaddr + done).toNat = vaddr.toNat + done.toNat := by
    rw [BitVec.toNat_add, mod_eq_of_lt (by omega)]
  refine ⟨by omega, by omega, ?_, fun hlt => by omega, fun i hlo hhi => by omega, fun i hlo hhi => ?_⟩
  · rw [BitVec.toNat_add, mod_eq_of_lt (by omega)]
  · have haddr : (vaddr + BitVec.ofNat 64 i).toNat = vaddr.toNat + i := toNat_add_ofNat (by omega)
    have hoff : pageOffset (vaddr + BitVec.ofNat 64 i) =
        pageOffset (vaddr + done) + BitVec.ofNat 64 (i - done.toNat) := by
      have h₁ := toNat_pageOffset (vaddr + BitVec.ofNat 64 i)
      have h₂ := toNat_pageOffset (vaddr + done)
      apply BitVec.eq_of_toNat_eq
      rw [toNat_add_ofNat (by omega), h₁, h₂, haddr, hstart]
      omega
    unfold physOf
    rw [frameOf_congr (b := vaddr + done) (by rw [haddr, hstart]; omega), hoff]
    cases frameOf mem root (vaddr + done) write with
    | none => rfl
    | some f => simp [BitVec.add_assoc]

/-- A byte that the copy reaches: it is mapped, and the address where a page of the range begins is not 0. -/
def Reached (mem : ByteMem) (root vaddr : U64) (write : Bool) (done i : Nat) : Prop :=
  ∃ p, physOf mem root vaddr write i = some p ∧ (i = done ∨ (vaddr.toNat + i) % 4096 = 0 → p ≠ 0)

/-- The bytes from `done` on are reached if those of this round are and those behind it. -/
theorem Round.reached (h : Round mem root vaddr len done write chunk) :
    (∀ i, done.toNat ≤ i → i < len.toNat → Reached mem root vaddr write done.toNat i) ↔
      translateUser mem root (vaddr + done) write ≠ 0 ∧ ∀ i, done.toNat + chunk ≤ i → i < len.toNat →
        Reached mem root vaddr write (done.toNat + chunk) i := by
  constructor
  · intro hall
    refine ⟨?_, fun i hlo hhi => ?_⟩
    · obtain ⟨p, hp, hne⟩ := hall done.toNat (le_refl _) (by have := h.pos; have := h.le; omega)
      rw [h.phys done.toNat (le_refl _) (by have := h.pos; omega)] at hp
      obtain ⟨f, hf, rfl⟩ := map_eq_some_iff.mp hp
      rw [translateUser_eq, hf]
      simpa using hne (.inl rfl)
    · obtain ⟨p, hp, hne⟩ := hall i (by omega) hhi
      refine ⟨p, hp, fun hcase => hne ?_⟩
      rcases hcase with rfl | hoff
      · exact .inr (h.boundary hhi)
      · exact .inr hoff
  · rintro ⟨hphys, hrest⟩ i hlo hhi
    by_cases hin : i < done.toNat + chunk
    · have hpi := h.phys i hlo hin
      obtain ⟨f, hf, htr⟩ := exists_frame hphys
      rw [htr] at hphys
      rw [hf] at hpi
      refine ⟨_, hpi, fun hcase => ?_⟩
      have heq : i = done.toNat := hcase.elim id fun hoff => by
        by_contra hne
        exact h.inside i (by omega) hin hoff
      rw [heq]
      simpa using hphys
    · obtain ⟨p, hp, hne⟩ := hrest i (by omega) hhi
      refine ⟨p, hp, fun hcase => hne ?_⟩
      rcases hcase with heq | hoff
      · omega
      · exact .inr hoff

/-! ## Reading -/

theorem copyOut_other {done}
    (h : ¬(done ≤ i ∧ i < done + chunk)) : copyOut mem phys done chunk dst i = dst i := if_neg h

theorem readLoop_spec (mem : ByteMem) (root : U64) (hfit : vaddr.toNat + len.toNat < 2 ^ 64)
    (done : U64) (dst : Nat → BitVec 8) (hdone : done.toNat ≤ len.toNat) (hfuel : len.toNat - done.toNat ≤ fuel) :
    ∃ ok dst', readLoop mem root vaddr len fuel done dst = some (ok, dst') ∧
      (ok = true ↔ ∀ i, done.toNat ≤ i → i < len.toNat → Reached mem root vaddr false done.toNat i) ∧
      (∀ i < done.toNat, dst' i = dst i) ∧
      (ok = true → ∀ i, done.toNat ≤ i → i < len.toNat → ∀ p, physOf mem root vaddr false i = some p →
        dst' i = mem p) := by
  induction fuel generalizing done dst with
  | zero =>
    unfold readLoop
    rw [if_neg (by rw [BitVec.lt_def]; omega)]
    refine ⟨true, dst, rfl, ⟨fun _ i hlo hhi => by omega, fun _ => rfl⟩, fun i _ => rfl, fun _ i hlo hhi => ?_⟩
    omega
  | succ fuel ih =>
    unfold readLoop
    by_cases hlt : done.toNat < len.toNat
    swap
    · rw [if_neg (by rw [BitVec.lt_def]; omega)]
      refine ⟨true, dst, rfl, ⟨fun _ i hlo hhi => by omega, fun _ => rfl⟩, fun i _ => rfl, fun _ i hlo hhi => ?_⟩
      omega
    rw [if_pos (BitVec.lt_def.mpr hlt)]
    dsimp only
    have hround : Round mem root vaddr len done false _ := round hfit hlt
    have hreached := hround.reached
    by_cases hphys : translateUser mem root (vaddr + done) false = 0
    · rw [if_pos hphys]
      refine ⟨false, dst, rfl, ⟨fun h => absurd h Bool.false_ne_true, fun hall => ?_⟩, fun i _ => rfl,
        fun h => absurd h Bool.false_ne_true⟩
      exact absurd hphys (hreached.mp hall).1
    rw [if_neg hphys]
    have hpos := hround.pos
    have hle := hround.le
    have hnext := hround.next
    obtain ⟨ok, dst', hloop, hok, hkeep, hcopied⟩ := ih (done + chunkLen len done (vaddr + done))
      (copyOut mem (translateUser mem root (vaddr + done) false) done.toNat
        (chunkLen len done (vaddr + done)).toNat dst) (by omega) (by omega)
    rw [hnext] at hok hkeep hcopied
    refine ⟨ok, dst', hloop, hok.trans ⟨fun h => hreached.mpr ⟨hphys, h⟩, fun h => (hreached.mp h).2⟩,
      fun i hi => ?_, fun h i hlo hhi p hp => ?_⟩
    · rw [hkeep i (by omega), copyOut_other (by omega)]
    · by_cases hin : i < done.toNat + (chunkLen len done (vaddr + done)).toNat
      · have hpi := hround.phys i hlo hin
        obtain ⟨f, hf, htr⟩ := exists_frame hphys
        rw [hp, hf] at hpi
        cases hpi
        rw [hkeep i hin, htr]
        exact if_pos ⟨hlo, hin⟩
      · exact hcopied h i (by omega) hhi p hp

theorem readLoop_congr (hfit : vaddr.toNat + len.toNat < 2 ^ 64)
    (hframe : ∀ i < len.toNat, frameOf mem' root (vaddr + BitVec.ofNat 64 i) false =
      frameOf mem root (vaddr + BitVec.ofNat 64 i) false)
    (hbyte : ∀ i < len.toNat, ∀ p, physOf mem root vaddr false i = some p → mem' p = mem p) :
    readLoop mem' root vaddr len fuel done dst = readLoop mem root vaddr len fuel done dst := by
  induction fuel generalizing done dst with
  | zero =>
    rfl
  | succ fuel ih =>
    unfold readLoop
    by_cases hlt : done.toNat < len.toNat
    swap
    · rw [if_neg (by rw [BitVec.lt_def]; omega), if_neg (by rw [BitVec.lt_def]; omega)]
    have hstart := hframe done.toNat hlt
    rw [BitVec.ofNat_toNat, BitVec.setWidth_eq] at hstart
    have hphys : translateUser mem' root (vaddr + done) false = translateUser mem root (vaddr + done) false := by
      rw [translateUser_eq, translateUser_eq, hstart]
    rw [if_pos (BitVec.lt_def.mpr hlt), if_pos (BitVec.lt_def.mpr hlt)]
    dsimp only
    rw [hphys]
    by_cases hzero : translateUser mem root (vaddr + done) false = 0
    · rw [if_pos hzero, if_pos hzero]
    rw [if_neg hzero, if_neg hzero, ih]
    congr 1
    -- the bytes of this round are the same
    funext i
    unfold copyOut
    split
    · rename_i hin
      have hround : Round mem root vaddr len done false _ := round hfit hlt
      have hpi := hround.phys i hin.1 hin.2
      have hle := hround.le
      obtain ⟨f, hf, htr⟩ := exists_frame hzero
      rw [hf] at hpi
      rw [htr]
      exact hbyte i (by omega) _ hpi
    · rfl

/-! ## Writing -/

/-- The bytes of the table entries that the translation of an address looks at. -/
def WalkByte (mem : ByteMem) (root vaddr x : U64) : Prop :=
  let w := walkOf mem root vaddr
  Within (entryAddr root (pml4Index vaddr)) 8 x ∨
    isUser w.e4 = true ∧ (Within (entryAddr (target w.e4) (pdptIndex vaddr)) 8 x ∨
      isUser w.e3 = true ∧ (Within (entryAddr (target w.e3) (pdIndex vaddr)) 8 x ∨
        isUser w.e2 = true ∧ isLarge w.e2 = false ∧
          Within (entryAddr (target w.e2) (ptIndex vaddr)) 8 x))

theorem userDenied_of_not_user (h : ¬isUser e = true) : userDenied write e = true := by
  unfold userDenied
  rw [Bool.eq_false_of_not_eq_true h]
  rfl

theorem frameOf_agree (h : ∀ x, WalkByte mem root vaddr x → mem' x = mem x) :
    frameOf mem' root vaddr write = frameOf mem root vaddr write := by
  unfold WalkByte at h
  unfold frameOf walkOf
  dsimp only [walkOf] at h ⊢
  have h4 : entry mem' root (pml4Index vaddr) = entry mem root (pml4Index vaddr) :=
    load64_congr fun x hx => h x (.inl hx)
  rw [h4]
  generalize entry mem root (pml4Index vaddr) = e4 at h ⊢
  by_cases hu4 : isUser e4 = true
  swap
  · rw [userDenied_of_not_user hu4]
    simp
  have h3 : entry mem' (target e4) (pdptIndex vaddr) = entry mem (target e4) (pdptIndex vaddr) :=
    load64_congr fun x hx => h x (.inr ⟨hu4, .inl hx⟩)
  rw [h3]
  generalize entry mem (target e4) (pdptIndex vaddr) = e3 at h ⊢
  by_cases hu3 : isUser e3 = true
  swap
  · rw [userDenied_of_not_user hu3]
    simp
  have h2 : entry mem' (target e3) (pdIndex vaddr) = entry mem (target e3) (pdIndex vaddr) :=
    load64_congr fun x hx => h x (.inr ⟨hu4, .inr ⟨hu3, .inl hx⟩⟩)
  rw [h2]
  generalize entry mem (target e3) (pdIndex vaddr) = e2 at h ⊢
  by_cases hu2 : isUser e2 = true
  swap
  · rw [userDenied_of_not_user hu2]
    simp
  by_cases hl2 : isLarge e2 = false
  swap
  · rw [Bool.eq_true_of_not_eq_false hl2]
    simp
  have h1 : entry mem' (target e2) (ptIndex vaddr) = entry mem (target e2) (ptIndex vaddr) :=
    load64_congr fun x hx => h x (.inr ⟨hu4, .inr ⟨hu3, .inr ⟨hu2, hl2, hx⟩⟩⟩)
  rw [h1]

theorem copyIn_other (mem : ByteMem) (src : Nat → BitVec 8)
    (h : Round mem₀ root vaddr len done true chunk) (hf : frameOf mem₀ root (vaddr + done) true = some f)
    (hx : ∀ i, done.toNat ≤ i → i < done.toNat + chunk → physOf mem₀ root vaddr true i ≠ some x) :
    copyIn mem (f + pageOffset (vaddr + done)) done.toNat chunk src x = mem x := by
  refine if_neg fun hin => ?_
  have hk : (x - (f + pageOffset (vaddr + done))).toNat < chunk := hin
  have hpi := h.phys (done.toNat + (x - (f + pageOffset (vaddr + done))).toNat) (by omega) (by omega)
  refine hx _ (by omega) (by omega) (hpi.trans ?_)
  rw [hf, Nat.add_sub_cancel_left, BitVec.ofNat_toNat, BitVec.setWidth_eq]
  show some (f + pageOffset (vaddr + done) + (x - (f + pageOffset (vaddr + done)))) = some x
  rw [add_sub_cancel]

theorem copyIn_at (hk : k < chunk) (hlt : k < 2 ^ 64) :
    copyIn mem phys done.toNat chunk src (phys + BitVec.ofNat 64 k) = src (done.toNat + k) := by
  unfold copyIn
  rw [if_pos (within_add hk hlt), add_sub_cancel_left, BitVec.toNat_ofNat, mod_eq_of_lt hlt]

/-- The loop ends. It succeeds exactly if it reaches every byte, it changes no byte outside of the
range, and if it succeeds and the bytes are apart, it has written them all. -/
theorem writeLoop_spec (src : Nat → BitVec 8) (hfit : vaddr.toNat + len.toNat < 2 ^ 64)
    (hsafe : ∀ i < len.toNat, ∀ p, physOf mem₀ root vaddr true i = some p →
      ∀ j < len.toNat, ¬WalkByte mem₀ root (vaddr + BitVec.ofNat 64 j) p) (done : U64)
    (mem : ByteMem) (hdone : done.toNat ≤ len.toNat) (hfuel : len.toNat - done.toNat ≤ fuel)
    (hagree : ∀ j < len.toNat, ∀ x, WalkByte mem₀ root (vaddr + BitVec.ofNat 64 j) x → mem x = mem₀ x) :
    ∃ ok mem', writeLoop root vaddr len src fuel mem done = some (ok, mem') ∧
      (ok = true ↔ ∀ i, done.toNat ≤ i → i < len.toNat → Reached mem₀ root vaddr true done.toNat i) ∧
      (∀ x, (∀ i, done.toNat ≤ i → i < len.toNat → physOf mem₀ root vaddr true i ≠ some x) →
        mem' x = mem x) ∧
      (ok = true → (∀ i < len.toNat, ∀ j < len.toNat, ∀ p, physOf mem₀ root vaddr true i = some p →
          physOf mem₀ root vaddr true j = some p → i = j) → ∀ i, done.toNat ≤ i → i < len.toNat →
          ∀ p, physOf mem₀ root vaddr true i = some p → mem' p = src i) := by
  induction fuel generalizing done mem with
  | zero =>
    unfold writeLoop
    rw [if_neg (by rw [BitVec.lt_def]; omega)]
    refine ⟨true, mem, rfl, ⟨fun _ i hlo hhi => by omega, fun _ => rfl⟩, fun _ _ => rfl,
      fun _ _ i hlo hhi => ?_⟩
    omega
  | succ fuel ih =>
    unfold writeLoop
    by_cases hlt : done.toNat < len.toNat
    swap
    · rw [if_neg (by rw [BitVec.lt_def]; omega)]
      refine ⟨true, mem, rfl, ⟨fun _ i hlo hhi => by omega, fun _ => rfl⟩, fun _ _ => rfl,
        fun _ _ i hlo hhi => ?_⟩
      omega
    rw [if_pos (BitVec.lt_def.mpr hlt)]
    dsimp only
    -- the tables are still what they were
    have hframe : frameOf mem root (vaddr + done) true = frameOf mem₀ root (vaddr + done) true := by
      have hstart := hagree done.toNat hlt
      rw [BitVec.ofNat_toNat, BitVec.setWidth_eq] at hstart
      exact frameOf_agree hstart
    have hphys : translateUser mem root (vaddr + done) true = translateUser mem₀ root (vaddr + done) true := by
      rw [translateUser_eq, translateUser_eq, hframe]
    have hround : Round mem₀ root vaddr len done true _ := round hfit hlt
    have hreached := hround.reached
    rw [hphys]
    by_cases hzero : translateUser mem₀ root (vaddr + done) true = 0
    · rw [if_pos hzero]
      refine ⟨false, mem, rfl, ⟨fun h => absurd h Bool.false_ne_true, fun hall => ?_⟩, fun _ _ => rfl,
        fun h => absurd h Bool.false_ne_true⟩
      exact absurd hzero (hreached.mp hall).1
    rw [if_neg hzero]
    obtain ⟨f, hf, htr⟩ := exists_frame hzero
    rw [htr]
    have hpos := hround.pos
    have hle := hround.le
    have hnext := hround.next
    generalize hc : (chunkLen len done (vaddr + done)).toNat = chunk at hround hreached hpos hle hnext ⊢
    have hother := fun x hx => copyIn_other mem src (x := x) hround hf hx
    obtain ⟨ok, mem', hloop, hok, hkeep, hwritten⟩ := ih (done + chunkLen len done (vaddr + done))
      (copyIn mem (f + pageOffset (vaddr + done)) done.toNat chunk src) (by omega) (by omega) (by
        intro j hj x hx
        rw [hother x fun i hlo hhi hp => hsafe i (by omega) x hp j hj hx]
        exact hagree j hj x hx)
    rw [hnext] at hok hkeep hwritten
    refine ⟨ok, mem', hloop, hok.trans ⟨fun h => hreached.mpr ⟨hzero, h⟩, fun h => (hreached.mp h).2⟩,
      fun x hx => ?_, fun h hapart i hlo hhi p hp => ?_⟩
    · rw [hkeep x fun i hlo hhi => hx i (by omega) hhi]
      exact hother x fun i hlo hhi => hx i hlo (by omega)
    · by_cases hin : i < done.toNat + chunk
      · have hstay : ∀ j, done.toNat + chunk ≤ j → j < len.toNat → physOf mem₀ root vaddr true j ≠ some p := by
          intro j hjlo hjhi hpj
          have := hapart i hhi j hjhi p hp hpj
          omega
        have hpi := hround.phys i hlo hin
        rw [hp, hf] at hpi
        have haddr : p = f + pageOffset (vaddr + done) + BitVec.ofNat 64 (i - done.toNat) := some.inj hpi
        rw [hkeep p hstay, haddr, copyIn_at (by omega) (by omega), Nat.add_sub_cancel' hlo]
      · exact hwritten h hapart i (by omega) hhi p hp

/-! ## Soundness -/

/-- Every address of the range is one on whose walk the kernel and the processor agree. -/
def PlainRange (mem : ByteMem) (root vaddr len : U64) : Prop :=
  ∀ i < len.toNat, Plain mem root (vaddr + BitVec.ofNat 64 i)

/-- No byte that can be written to in the range is one that its translation looks at. -/
def TablesApart (mem : ByteMem) (root vaddr len : U64) : Prop :=
  ∀ i < len.toNat, ∀ p, UserByte mem root (vaddr + BitVec.ofNat 64 i) true p →
    ∀ j < len.toNat, ¬WalkByte mem root (vaddr + BitVec.ofNat 64 j) p

/-- No two bytes of the range are one byte of memory. -/
def BytesApart (mem : ByteMem) (root vaddr len : U64) : Prop :=
  ∀ i < len.toNat, ∀ j < len.toNat, ∀ p, UserByte mem root (vaddr + BitVec.ofNat 64 i) true p →
    UserByte mem root (vaddr + BitVec.ofNat 64 j) true p → i = j

/-- The read ends; it fails if a page of the range cannot be read in user mode, and depends on
memory through the table entries and the bytes of the range only. -/
structure ReadSound (mem : ByteMem) (root vaddr len : U64) (dst : Nat → BitVec 8) : Prop where
  ends : ∃ ok dst', vmReadUser mem (some root) vaddr (some dst) len = some (ok, dst') ∧
    (ok = true → ∀ i < len.toNat, ∃ p, UserByte mem root (vaddr + BitVec.ofNat 64 i) false p ∧ dst' i = mem p)
  denied : (∃ i < len.toNat, ¬∃ frame, UserMapped mem root (vaddr + BitVec.ofNat 64 i) false frame) →
    ∃ dst', vmReadUser mem (some root) vaddr (some dst) len = some (false, dst')
  only : ∀ mem' : ByteMem,
    (∀ i < len.toNat, ∀ x, WalkByte mem root (vaddr + BitVec.ofNat 64 i) x → mem' x = mem x) →
    (∀ i < len.toNat, ∀ p, UserByte mem root (vaddr + BitVec.ofNat 64 i) false p → mem' p = mem p) →
    vmReadUser mem' (some root) vaddr (some dst) len = vmReadUser mem (some root) vaddr (some dst) len

/-- The write ends; it fails if a page of the range cannot be written to in user mode, and changes
bytes that can be only. -/
structure WriteSound (mem : ByteMem) (root vaddr len : U64) (src : Nat → BitVec 8) : Prop where
  ends : ∃ ok mem', vmWriteUser mem (some root) vaddr (some src) len = some (ok, mem') ∧
    ∀ x, (∀ i < len.toNat, ¬UserByte mem root (vaddr + BitVec.ofNat 64 i) true x) → mem' x = mem x
  denied : (∃ i < len.toNat, ¬∃ frame, UserMapped mem root (vaddr + BitVec.ofNat 64 i) true frame) →
    ∃ mem', vmWriteUser mem (some root) vaddr (some src) len = some (false, mem')

def RoundTrip (mem : ByteMem) (root vaddr len : U64) (src dst : Nat → BitVec 8) : Prop :=
  ∀ mem', vmWriteUser mem (some root) vaddr (some src) len = some (true, mem') →
    ∃ dst', vmReadUser mem' (some root) vaddr (some dst) len = some (true, dst') ∧
      ∀ i < len.toNat, dst' i = src i

theorem not_wraps (h : ¬(vaddr + len < vaddr)) : vaddr.toNat + len.toNat < 2 ^ 64 := by
  rw [BitVec.lt_def, BitVec.toNat_add] at h
  by_contra hge
  omega

theorem physOf_iff (h : Plain mem root (vaddr + BitVec.ofNat 64 i)) :
    physOf mem root vaddr write i = some p ↔ UserByte mem root (vaddr + BitVec.ofNat 64 i) write p := by
  unfold physOf UserByte
  rw [map_eq_some_iff]
  constructor
  · rintro ⟨f, hf, rfl⟩
    exact ⟨f, (frameOf_iff h).mp hf, rfl⟩
  · rintro ⟨f, hf, rfl⟩
    exact ⟨f, (frameOf_iff h).mpr hf, rfl⟩

theorem mapped_of_reached (h : Plain mem root (vaddr + BitVec.ofNat 64 i))
    (hr : Reached mem root vaddr write d i) :
    ∃ frame, UserMapped mem root (vaddr + BitVec.ofNat 64 i) write frame := by
  obtain ⟨p, hp, -⟩ := hr
  obtain ⟨frame, hm, -⟩ := (physOf_iff h).mp hp
  exact ⟨frame, hm⟩

theorem vmReadUser_eq (h : ¬(vaddr + len < vaddr)) :
    vmReadUser mem (some root) vaddr (some dst) len = readLoop mem root vaddr len len.toNat 0 dst := if_neg h

theorem vmWriteUser_eq (h : ¬(vaddr + len < vaddr)) :
    vmWriteUser mem (some root) vaddr (some src) len = writeLoop root vaddr len src len.toNat mem 0 := if_neg h

theorem readSound (hwrap : ¬(vaddr + len < vaddr)) (hplain : PlainRange mem root vaddr len)
    (dst : Nat → BitVec 8) : ReadSound mem root vaddr len dst := by
  have hfit := not_wraps hwrap
  obtain ⟨ok, dst', hread, hok, -, hcopied⟩ := readLoop_spec mem root hfit 0 dst
    (zero_le _) (sub_le _ _)
  refine ⟨⟨ok, dst', (vmReadUser_eq hwrap).trans hread, fun h i hi => ?_⟩, fun ⟨i, hi, hno⟩ => ?_,
    fun mem' htables hbytes => ?_⟩
  · obtain ⟨p, hp, -⟩ := hok.mp h i (zero_le i) hi
    exact ⟨p, (physOf_iff (hplain i hi)).mp hp, hcopied h i (zero_le i) hi p hp⟩
  · refine ⟨dst', (vmReadUser_eq hwrap).trans (hread.trans ?_)⟩
    cases ok with
    | false => rfl
    | true => exact absurd (mapped_of_reached (hplain i hi) (hok.mp rfl i (zero_le i) hi)) hno
  · rw [vmReadUser_eq hwrap, vmReadUser_eq hwrap]
    refine readLoop_congr hfit (fun i hi => frameOf_agree (htables i hi)) fun i hi p hp => ?_
    exact hbytes i hi p ((physOf_iff (hplain i hi)).mp hp)

section Write

variable (hwrap : ¬(vaddr + len < vaddr)) (hplain : PlainRange mem root vaddr len)
  (htables : TablesApart mem root vaddr len)

include hwrap hplain htables

theorem write_spec (src : Nat → BitVec 8) :
    ∃ ok mem', vmWriteUser mem (some root) vaddr (some src) len = some (ok, mem') ∧
      (ok = true ↔ ∀ i, 0 ≤ i → i < len.toNat → Reached mem root vaddr true 0 i) ∧
      (∀ x, (∀ i < len.toNat, ¬UserByte mem root (vaddr + BitVec.ofNat 64 i) true x) → mem' x = mem x) ∧
      (ok = true → BytesApart mem root vaddr len → ∀ i < len.toNat,
        ∀ p, physOf mem root vaddr true i = some p → mem' p = src i) := by
  obtain ⟨ok, mem', hwrite, hok, hkeep, hwritten⟩ := writeLoop_spec src (not_wraps hwrap)
    (fun i hi p hp => htables i hi p ((physOf_iff (hplain i hi)).mp hp)) 0 mem (zero_le _) (sub_le _ _) (fun _ _ _ _ => rfl)
  refine ⟨ok, mem', (vmWriteUser_eq hwrap).trans hwrite, hok, fun x hx => hkeep x fun i _ hi hp => ?_,
    fun h hapart i hi p hp => hwritten h (fun i hi j hj p hpi hpj => ?_) i (zero_le i) hi p hp⟩
  · exact hx i hi ((physOf_iff (hplain i hi)).mp hp)
  · exact hapart i hi j hj p ((physOf_iff (hplain i hi)).mp hpi) ((physOf_iff (hplain j hj)).mp hpj)

theorem writeSound (src : Nat → BitVec 8) : WriteSound mem root vaddr len src := by
  obtain ⟨ok, mem', hwrite, hok, hkeep, -⟩ := write_spec hwrap hplain htables src
  refine ⟨⟨ok, mem', hwrite, hkeep⟩, fun ⟨i, hi, hno⟩ => ⟨mem', hwrite.trans ?_⟩⟩
  cases ok with
  | false => rfl
  | true => exact absurd (mapped_of_reached (hplain i hi) (hok.mp rfl i (zero_le i) hi)) hno

omit hwrap hplain htables in
theorem frameOf_read (h : frameOf mem root vaddr true = some f) :
    frameOf mem root vaddr false = some f := by
  unfold frameOf userDenied at h ⊢
  dsimp only at h ⊢
  generalize walkOf mem root vaddr = w at h ⊢
  split at h
  · cases h
  rename_i hok
  cases h
  simp only [Bool.or_eq_true, not_or, Bool.not_eq_true] at hok ⊢
  simp [hok]

theorem roundTrip (happart : BytesApart mem root vaddr len) (src dst : Nat → BitVec 8) :
    RoundTrip mem root vaddr len src dst := by
  intro mem' hresult
  obtain ⟨ok, mem₁, hwrite, hok, hkeep, hwritten⟩ := write_spec hwrap hplain htables src
  rw [hresult] at hwrite
  cases hwrite
  -- the tables are what they were, so the read finds the bytes where the write put them
  have hframe : ∀ i < len.toNat, ∀ w, frameOf mem' root (vaddr + BitVec.ofNat 64 i) w =
      frameOf mem root (vaddr + BitVec.ofNat 64 i) w := by
    intro i hi w
    refine frameOf_agree fun x hx => hkeep x fun j hj hbyte => ?_
    exact htables j hj x hbyte i hi hx
  have hphys : ∀ i < len.toNat, ∀ p, physOf mem root vaddr true i = some p →
      physOf mem' root vaddr false i = some p := by
    intro i hi p hp
    unfold physOf at hp ⊢
    obtain ⟨f, hf, rfl⟩ := map_eq_some_iff.mp hp
    rw [hframe i hi, frameOf_read hf]
    rfl
  obtain ⟨ok', dst', hread, hok', -, hcopied⟩ := readLoop_spec mem' root (not_wraps hwrap) 0 dst
    (zero_le _) (sub_le _ _)
  have htrue : ok' = true := by
    refine hok'.mpr fun i hlo hi => ?_
    obtain ⟨p, hp, hne⟩ := hok.mp rfl i (zero_le i) hi
    exact ⟨p, hphys i hi p hp, hne⟩
  subst htrue
  refine ⟨dst', (vmReadUser_eq hwrap).trans hread, fun i hi => ?_⟩
  obtain ⟨p, hp, -⟩ := hok.mp rfl i (zero_le i) hi
  rw [hcopied rfl i (zero_le i) hi p (hphys i hi p hp)]
  exact hwritten rfl happart i hi p hp

end Write

structure CopySound (mem : ByteMem) (root vaddr len : U64) (src dst : Nat → BitVec 8) : Prop where
  wraps : vaddr + len < vaddr → vmReadUser mem (some root) vaddr (some dst) len = some (false, dst) ∧
    vmWriteUser mem (some root) vaddr (some src) len = some (false, mem)
  reads : ¬(vaddr + len < vaddr) → PlainRange mem root vaddr len → ReadSound mem root vaddr len dst
  writes : ¬(vaddr + len < vaddr) → PlainRange mem root vaddr len → TablesApart mem root vaddr len →
    WriteSound mem root vaddr len src
  back : ¬(vaddr + len < vaddr) → PlainRange mem root vaddr len → TablesApart mem root vaddr len →
    BytesApart mem root vaddr len → RoundTrip mem root vaddr len src dst

/-- Tables in four pages from 0x1000 on that map two pages at 0x400000. -/
def twoPages (first second : U64) : ByteMem :=
  let mem : ByteMem := fun _ => 0
  let mem := setEntry mem 0x1000 0 0x2007
  let mem := setEntry mem 0x2000 0 0x3007
  let mem := setEntry mem 0x3000 2 0x4007
  let mem := setEntry mem 0x4000 0 (first ||| 7)
  setEntry mem 0x4000 1 (second ||| 7)

instance (vaddr : U64) : Decidable (Canonical vaddr) :=
  inferInstanceAs (Decidable (vaddr.toNat < 2 ^ 47 ∨ 2 ^ 64 - 2 ^ 47 ≤ vaddr.toNat))

instance (mem : ByteMem) (root vaddr x : U64) : Decidable (WalkByte mem root vaddr x) := by
  delta WalkByte
  infer_instance

end UserCopy

end Bunix.Kernel
