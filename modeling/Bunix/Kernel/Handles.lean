import Bunix.Kernel.Ipc
import Mathlib.Algebra.Order.Group.Multiset
import Mathlib.Tactic.Abel

/-! # Handle tables

A task names kernel objects by handles, the numbers of slots in a table of its own
(`kernel/sched.c`). A slot holds the object, the rights and a tag; slot `i` is handle `i + 1`.
The functions here run under the lock of the task. `slab` tells whether the slab allocator can
provide a larger table. No task dies in this model, so an object in a slot can be retained.
-/
namespace Bunix.Kernel

open List

inductive Obj where
  | port (p : PortId)
  | buffer (b : Nat)
  | task (k : TaskId)
  | hwResource (r : Nat)
  | schedPolicy (c : Nat)
deriving DecidableEq, Repr

def taskRightSend : U32 := 1
def taskRightRecv : U32 := 2
def taskRightDup : U32 := 4

def rightsWithin (rights have_ : U32) : Prop := have_ &&& rights = rights

instance (rights have_ : U32) : Decidable (rightsWithin rights have_) :=
  inferInstanceAs (Decidable (have_ &&& rights = rights))

theorem rightsWithin_of_and_not {rights have_} (h : rights &&& ~~~have_ = 0) :
    rightsWithin rights have_ := by
  ext i hi
  have hbit := congrArg (fun x => x.getLsbD i) h
  revert hbit
  simp [hi]

/-- `struct task_handle` of a slot in use. -/
structure TaskHandle where
  obj : Obj
  rights : U32
  tag : U32 := 0
deriving DecidableEq, Repr

abbrev HandleTable := List (Option TaskHandle)

namespace HandleTable

variable (slab : Bool) (table : HandleTable) (handle : Nat)

def initialTaskHandles : Nat := 16

def taskGrowHandlesLocked (minCapacity : Nat) : Option HandleTable :=
  if minCapacity ≤ table.length then some table
  else if slab then
    let capacity := doubleCapacity minCapacity minCapacity
      (if table.length = 0 then initialTaskHandles else table.length)
    some (table ++ replicate (capacity - table.length) none)
  else none

/-- The handle, if it names a slot in use. -/
def slot : Option TaskHandle :=
  if handle = 0 then none else (table[handle - 1]?).join

/-- The first empty slot, in a larger table if there is none. -/
def fillEmpty (slab : Bool) (h : TaskHandle) : Nat → HandleTable → Option (Nat × HandleTable)
  | 0, _ => none
  | fuel + 1, table =>
    match table.findIdx? Option.isNone with
    | some i => some (i, table.set i (some h))
    | none =>
      match taskGrowHandlesLocked slab table (table.length + 1) with
      | none => none
      | some table => fillEmpty slab h fuel table

/-- What the `task_grant_*` functions share: reuse a slot with the same object and rights, or
fill an empty one. The result is the handle, 0 on failure, and whether a slot was filled, for
which the object is retained. -/
def taskGrant (o : Obj) (rights : U32) : Nat × HandleTable × Bool :=
  match table.findIdx? fun e => e.any fun h => h.obj = o && h.rights = rights with
  | some i => (i + 1, table, false)
  | none =>
    match fillEmpty slab { obj := o, rights } 2 table with
    | some (i, table) => (i + 1, table, true)
    | none => (0, table, false)

def taskGrantPort (p : PortId) (rights : U32) :
    Nat × HandleTable × Bool := taskGrant slab table (.port p) rights

def taskGrantBuffer (b : Nat) (rights : U32) :
    Nat × HandleTable × Bool := taskGrant slab table (.buffer b) rights

def taskGrantTask (k : TaskId) (rights : U32) : Nat × HandleTable × Bool :=
  if rights = 0 then (0, table, false) else taskGrant slab table (.task k) rights

def taskGrantHwResource (r : Nat) (rights : U32) : Nat × HandleTable × Bool :=
  if rights = 0 then (0, table, false) else taskGrant slab table (.hwResource r) rights

def taskGrantSchedPolicy (c : Nat) (rights : U32) : Nat × HandleTable × Bool :=
  if rights = 0 then (0, table, false) else taskGrant slab table (.schedPolicy c) rights

/-- The grant for an object by its type, as `ipc_message_to_user` and
`task_grant_inherited_handle` select it. -/
def grantObj (o : Obj) (rights : U32) : Nat × HandleTable × Bool :=
  match o with
  | .port p => taskGrantPort slab table p rights
  | .buffer b => taskGrantBuffer slab table b rights
  | .task k => taskGrantTask slab table k rights
  | .hwResource r => taskGrantHwResource slab table r rights
  | .schedPolicy c => taskGrantSchedPolicy slab table c rights

/-- The lookup of `task_export_cap`: a handle with at least the given rights. -/
def withRights (rights : U32) : Option Obj :=
  match table.slot handle with
  | some h => if h.rights &&& rights ≠ rights then none else some h.obj
  | none => none

/-- The checks of `task_can_inherit_handle` and `task_grant_inherited_handle`. -/
def inheritable (rights : U32) : Option Obj :=
  if handle = 0 ∨ rights = 0 then none
  else match table.slot handle with
    | some h =>
      if h.rights &&& taskRightDup = 0 ∨ rights &&& ~~~h.rights ≠ 0 then none else some h.obj
    | none => none

/-- The section of `task_close_handle`: the object the slot named. -/
def clear : Option (Obj × HandleTable) :=
  match table.slot handle with
  | some h => some (h.obj, table.set (handle - 1) none)
  | none => none

def taskSetHandleTag (tag : U32) : Bool × HandleTable :=
  match table.slot handle with
  | some h => (true, table.set (handle - 1) (some { h with tag }))
  | none => (false, table)

/-- A handle as a child gets it: one of the parent on itself becomes one of the child on itself. -/
def cloned (dst src : TaskId) (h : TaskHandle) : TaskHandle :=
  if h.obj = .task src then { h with obj := .task dst } else h

/-- `task_clone_handles`: the table of the child and the handles that were copied to it. -/
def taskCloneHandles (dstTable srcTable : HandleTable) (dst src : TaskId) :
    Option (HandleTable × List TaskHandle) :=
  match taskGrowHandlesLocked slab dstTable srcTable.length with
  | none => none
  | some dstTable =>
    let copies := srcTable.map fun e => e.map (cloned dst src)
    some (dstTable.mapIdx fun i e => ((copies[i]?).join).or e, copies.filterMap id)

/-! ## What a table holds -/

variable {slab : Bool} {table table' : HandleTable} {handle i : Nat} {o : Obj} {rights tag : U32}
  {h : TaskHandle} {retained : Bool}

/-- The objects the slots name, with multiplicity. -/
def objs (table : HandleTable) : Multiset Obj := table.filterMap fun e => e.map (·.obj)

theorem mem_objs (hm : some h ∈ table) : h.obj ∈ objs table := mem_filterMap.mpr ⟨some h, hm, rfl⟩

theorem objs_cons (e : Option TaskHandle) (table : HandleTable) :
    objs (e :: table) = ((e.map (·.obj)).toList : Multiset Obj) + objs table := by
  cases e with
  | none => simp [objs]
  | some h => simp [objs, ← Multiset.cons_coe]

theorem objs_set (x : Option TaskHandle) (hi : table[i]? = some y) :
    objs (table.set i x) + ((y.map (·.obj)).toList : Multiset Obj) =
      objs table + ((x.map (·.obj)).toList : Multiset Obj) := by
  induction table generalizing i with
  | nil => cases hi
  | cons e table ih =>
    cases i with
    | zero =>
      cases hi
      rw [set_cons_zero, objs_cons, objs_cons]
      abel
    | succ i =>
      rw [set_cons_succ, objs_cons, objs_cons, add_assoc, ih hi, add_assoc]

theorem slot_eq_some (hs : table.slot handle = some h) : handle ≠ 0 ∧ table[handle - 1]? = some (some h) := by
  unfold slot at hs
  split at hs
  · cases hs
  · rename_i h0
    exact ⟨h0, Option.join_eq_some_iff.mp hs⟩

theorem mem_of_slot (hs : table.slot handle = some h) : some h ∈ table :=
  mem_of_getElem? (slot_eq_some hs).2

theorem objs_append_replicate (n : Nat) : objs (table ++ replicate n none) = objs table := by
  simp [objs, filterMap_append]

theorem taskGrowHandlesLocked_some (hg : taskGrowHandlesLocked slab table n = some table') :
    ∃ m, table' = table ++ replicate m none := by
  unfold taskGrowHandlesLocked at hg
  split at hg
  · cases hg
    exact ⟨0, by simp⟩
  split at hg
  · cases hg
    exact ⟨_, rfl⟩
  · cases hg

/-- A slot was filled: one more reference to the object, and no other handle changes. -/
structure Filled (h : TaskHandle) (table table' : HandleTable) : Prop where
  objs_eq : objs table' = h.obj ::ₘ objs table
  mem_iff : ∀ h', some h' ∈ table' → some h' ∈ table ∨ h' = h

theorem fillEmpty_some {fuel} (hf : fillEmpty slab h fuel table = some (i, table')) :
    Filled h table table' := by
  induction fuel generalizing table with
  | zero => cases hf
  | succ fuel ih =>
    unfold fillEmpty at hf
    split at hf
    · rename_i j hj
      cases hf
      obtain ⟨hlt, hnone, _⟩ := findIdx?_eq_some_iff_getElem.mp hj
      have hget : table[i]? = some none := by
        rw [getElem?_eq_getElem hlt, Option.isNone_iff_eq_none.mp hnone]
      constructor
      · have := objs_set (some h) hget
        rw [← Multiset.singleton_add, add_comm]
        simpa using this
      · intro h' hmem
        rcases mem_or_eq_of_mem_set hmem with hmem | he
        · exact .inl hmem
        · exact .inr (Option.some.inj he)
    · split at hf
      · cases hf
      · rename_i grown hg
        obtain ⟨m, rfl⟩ := taskGrowHandlesLocked_some hg
        have hfilled := ih hf
        constructor
        · rw [hfilled.objs_eq, objs_append_replicate]
        · intro h' hmem
          rcases hfilled.mem_iff h' hmem with hmem | he
          · simp only [mem_append, mem_replicate, reduceCtorEq, and_false, or_false] at hmem
            exact .inl hmem
          · exact .inr he

theorem le_doubleCapacity (min fuel cap : Nat) : cap ≤ doubleCapacity min fuel cap ∧
    (0 < cap → min ≤ cap + fuel → min ≤ doubleCapacity min fuel cap) := by
  induction fuel generalizing cap with
  | zero => exact ⟨le_refl _, fun _ hle => hle⟩
  | succ fuel ih =>
    unfold doubleCapacity
    split
    · obtain ⟨h₁, h₂⟩ := ih (cap * 2)
      exact ⟨by omega, fun hpos hle => h₂ (by omega) (by omega)⟩
    · exact ⟨le_refl _, fun _ _ => by omega⟩

theorem le_length_of_grow (hg : taskGrowHandlesLocked slab table n = some table') :
    n ≤ table'.length := by
  unfold taskGrowHandlesLocked at hg
  split at hg
  · rename_i hle
    cases hg
    exact hle
  · split at hg
    · cases hg
      have hcap : n ≤ doubleCapacity n n
          (if table.length = 0 then initialTaskHandles else table.length) := by
        refine (le_doubleCapacity _ _ _).2 ?_ ?_
        · split
          · decide
          · omega
        · omega
      rw [length_append, length_replicate]
      omega
    · cases hg

theorem taskCloneHandles_nil {dst src copied}
    (hc : taskCloneHandles slab [] table dst src = some (table', copied)) :
    objs table' = (copied.map (·.obj) : Multiset Obj) ∧
      copied = table.filterMap fun e => e.map (cloned dst src) := by
  unfold taskCloneHandles at hc
  split at hc
  · cases hc
  rename_i grown hg
  have hlen := le_length_of_grow hg
  obtain ⟨m, rfl⟩ := taskGrowHandlesLocked_some hg
  cases hc
  set copies := table.map fun e => e.map (cloned dst src) with hcopies
  have htable : ([] ++ replicate m (none : Option TaskHandle)).mapIdx
      (fun i e => ((copies[i]?).join).or e) = copies ++ replicate (m - copies.length) none := by
    refine ext_getElem? fun i => ?_
    have hclen : copies.length ≤ m := by simpa [hcopies] using hlen
    by_cases him : i < m
    · by_cases hic : i < copies.length
      · simp [him, hic, getElem?_append_left hic]
      · have hrest : i - copies.length < m - copies.length := by omega
        simp [him, getElem?_append_right (not_lt.mp hic), hrest, not_lt.mp hic]
    · have hic : copies.length ≤ i := by omega
      have hrest : ¬i - copies.length < m - copies.length := by omega
      simp [him, getElem?_append_right hic, hrest]
  rw [htable, objs_append_replicate]
  constructor
  · simp [objs, map_filterMap]
  · simp [hcopies, filterMap_map]

/-- A grant finds the handle in the table, or fails, or fills a slot and retains the object. -/
abbrev Granted (table table' : HandleTable) (o : Obj) (rights : U32) (handle : Nat)
    (retained : Bool) : Prop :=
  retained = false ∧ table' = table ∧ (handle ≠ 0 → ∃ h, some h ∈ table ∧ h.obj = o ∧ h.rights = rights) ∨
    retained = true ∧ handle ≠ 0 ∧ Filled { obj := o, rights } table table'

theorem taskGrant_spec (hg : taskGrant slab table o rights = (handle, table', retained)) :
    Granted table table' o rights handle retained := by
  unfold taskGrant at hg
  split at hg
  · rename_i i hi
    cases hg
    obtain ⟨hlt, hsame, _⟩ := findIdx?_eq_some_iff_getElem.mp hi
    obtain ⟨h, hget, hh⟩ := (Option.any_eq_true _ _).mp hsame
    simp only [Bool.and_eq_true, decide_eq_true_eq] at hh
    exact .inl ⟨rfl, rfl, fun _ => ⟨h, hget ▸ getElem_mem hlt, hh.1, hh.2⟩⟩
  · split at hg
    · rename_i hf
      cases hg
      exact .inr ⟨rfl, by omega, fillEmpty_some hf⟩
    · cases hg
      exact .inl ⟨rfl, rfl, fun h0 => absurd rfl h0⟩

theorem grantObj_spec (hg : grantObj slab table o rights = (handle, table', retained)) :
    Granted table table' o rights handle retained := by
  have hzero : ∀ o', (if rights = 0 then (0, table, false) else taskGrant slab table o' rights) =
      (handle, table', retained) → Granted table table' o' rights handle retained := by
    intro o' h
    split at h
    · cases h
      exact .inl ⟨rfl, rfl, fun h0 => absurd rfl h0⟩
    · exact taskGrant_spec h
  cases o with
  | port p | buffer b => exact taskGrant_spec hg
  | task k | hwResource r | schedPolicy c => exact hzero _ hg

theorem withRights_some (hs : withRights table handle rights = some o) :
    ∃ h, some h ∈ table ∧ h.obj = o ∧ rightsWithin rights h.rights := by
  unfold withRights at hs
  split at hs
  · rename_i h hslot
    split at hs
    · cases hs
    · rename_i hrights
      cases hs
      exact ⟨h, mem_of_slot hslot, rfl, not_not.mp hrights⟩
  · cases hs

theorem inheritable_some (hs : inheritable table handle rights = some o) :
    ∃ h, some h ∈ table ∧ h.obj = o ∧ rightsWithin taskRightDup h.rights ∧
      rightsWithin rights h.rights := by
  unfold inheritable at hs
  split at hs
  · cases hs
  split at hs
  · rename_i h hslot
    split at hs
    · cases hs
    rename_i hrights
    cases hs
    rw [not_or, not_not] at hrights
    obtain ⟨hdup, hsub⟩ := hrights
    refine ⟨h, mem_of_slot hslot, rfl, ?_, ?_⟩
    · -- `TASK_RIGHT_DUP` is one bit
      have hbit : taskRightDup = BitVec.twoPow 32 2 := by decide
      unfold rightsWithin
      rw [hbit, BitVec.and_twoPow] at hdup ⊢
      split at hdup
      · rename_i hset
        rw [if_pos hset]
      · exact absurd rfl hdup
    · exact rightsWithin_of_and_not hsub
  · cases hs

theorem clear_some (hc : clear table handle = some (o, table')) :
    objs table = o ::ₘ objs table' ∧ ∀ h', some h' ∈ table' → some h' ∈ table := by
  unfold clear at hc
  split at hc
  · rename_i h hslot
    cases hc
    obtain ⟨_, hget⟩ := slot_eq_some hslot
    constructor
    · have := objs_set none hget
      rw [← Multiset.singleton_add, add_comm]
      simpa using this.symm
    · intro h' hmem
      rcases mem_or_eq_of_mem_set hmem with hmem | he
      · exact hmem
      · cases he
  · cases hc

theorem objs_taskSetHandleTag : objs (taskSetHandleTag table handle tag).2 = objs table := by
  unfold taskSetHandleTag
  split
  · rename_i h hslot
    obtain ⟨_, hget⟩ := slot_eq_some hslot
    have := objs_set (some { h with tag }) hget
    simpa using this
  · rfl

end HandleTable

end Bunix.Kernel
