import Bunix.Kernel.Handles
import Bunix.Kernel.Sched
import Bunix.Lib.Transition
import Mathlib.Data.Set.BooleanAlgebra
import Mathlib.Order.CompletePartialOrder
import Mathlib.Order.Interval.Set.Basic

/-! # Scheduler-policy capabilities

`sched_policy_grant` derives a capability from another one, and `sched_policy_set` uses one to
change a task or a thread (`kernel/sched.c`). What a capability permits is a tuple of sets, its
`authority`; a grant only makes it smaller, and a change lies within it. Capabilities are named
by numbers, and the parent of a derived one is written down.
-/
namespace Bunix.Kernel

open Bunix.Lib Function Option List Nat

variable {a b : PolicyAuthority} {parent child : SchedPolicyCap} {table : HandleTable}

def schedPolicyRightObserve : U32 := 1
def schedPolicyRightClass : U32 := 2
def schedPolicyRightPriority : U32 := 4
def schedPolicyRightWeight : U32 := 8
def schedPolicyRightAffinity : U32 := 16
def schedPolicyRightDelegate : U32 := 32

def schedPolicyTargetTask : U32 := 1
def schedPolicyTargetThread : U32 := 2
def schedPolicyTargetSystem : U32 := 5

structure SchedPolicyCap where
  targetKind : U32
  rights : U32
  delegationDepth : U32
  targetId : U64
  classMask : U64
  minPriority : U32
  maxPriority : U32
  minWeight : U32
  maxWeight : U32
  cpuMask : U64
deriving DecidableEq, Repr

/-- `struct sched_policy_state`, a request of `sched_policy_set`. -/
structure SchedPolicyState where
  targetKind : U64
  targetId : U64
  schedClass : U64
  priority : U64
  weight : U64
  cpuMask : U64
deriving DecidableEq, Repr

def SchedClass.number : SchedClass → Nat
  | .kernel => 1
  | .server => 2
  | .user => 3
  | .batch => 4
  | .idle => 5

/-- The class with a number between `SCHED_CLASS_KERNEL` and `SCHED_CLASS_IDLE`. -/
def SchedClass.ofU64 (c : U64) : Option SchedClass :=
  [SchedClass.kernel, .server, .user, .batch, .idle].find? fun x => x.number = c.toNat

def schedPolicyClassBit (c : SchedClass) : U64 := 1#64 <<< c.number

def schedPolicyAllClasses : U64 :=
  schedPolicyClassBit .kernel ||| schedPolicyClassBit .server ||| schedPolicyClassBit .user |||
    schedPolicyClassBit .batch ||| schedPolicyClassBit .idle

def schedPolicyValidClassMask (classMask : U64) : Bool :=
  classMask != 0 && classMask &&& ~~~schedPolicyAllClasses == 0

def schedPolicyCapAllowsTarget (cap : SchedPolicyCap) (kind : U32) (id : U64) : Bool :=
  if cap.targetKind = schedPolicyTargetSystem then
    kind = schedPolicyTargetTask || kind = schedPolicyTargetThread || kind = schedPolicyTargetSystem
  else
    cap.targetKind = kind && cap.targetId = id

namespace Sched

def schedPolicyIsAttenuated (s : Sched) (parent child : SchedPolicyCap) : Bool :=
  if parent.rights &&& schedPolicyRightDelegate = 0 ∨ parent.delegationDepth = 0 ∨
      parent.delegationDepth ≤ child.delegationDepth ∨ child.rights &&& ~~~parent.rights ≠ 0 ∨
      child.classMask &&& ~~~parent.classMask ≠ 0 ∨ child.minPriority < parent.minPriority ∨
      parent.maxPriority < child.maxPriority ∨ child.maxPriority < child.minPriority ∨
      child.minWeight < parent.minWeight ∨ parent.maxWeight < child.maxWeight ∨
      child.maxWeight < child.minWeight ∨ child.cpuMask &&& ~~~parent.cpuMask ≠ 0 ∨
      schedPolicyValidClassMask child.classMask = false ∨
      s.schedPolicyValidCpuMask child.cpuMask = false then
    false
  else
    schedPolicyCapAllowsTarget parent child.targetKind child.targetId

/-- `sched_policy_state_allowed`; the kind of the target is cut to 32 bits here. -/
def schedPolicyStateAllowed (s : Sched) (cap : SchedPolicyCap) (state : SchedPolicyState) : Bool :=
  if schedPolicyCapAllowsTarget cap (state.targetKind.setWidth 32) state.targetId = false then false
  else
    match SchedClass.ofU64 state.schedClass with
    | none => false
    | some c =>
      if cap.classMask &&& schedPolicyClassBit c = 0 ∨ state.priority.toNat < cap.minPriority.toNat ∨
          cap.maxPriority.toNat < state.priority.toNat ∨ state.weight.toNat < cap.minWeight.toNat ∨
          cap.maxWeight.toNat < state.weight.toNat ∨ s.schedPolicyValidCpuMask state.cpuMask = false ∨
          state.cpuMask &&& ~~~cap.cpuMask ≠ 0 then
        false
      else true

end Sched

structure PolicySystem where
  sched : Sched
  /-- `tasks_by_pid`, in the order of the tree. -/
  tasksByPid : List (U32 × TaskId)
  caps : Nat → SchedPolicyCap
  nextCap : Nat
  /-- The capability another one was derived from. -/
  parent : Nat → Option Nat
  handles : TaskId → HandleTable

namespace PolicySystem

def setTable (s : PolicySystem) (k : TaskId) (table : HandleTable) : PolicySystem :=
  { s with handles := update s.handles k table }

def newCap (s : PolicySystem) (cap : SchedPolicyCap) (parent : Option Nat) : PolicySystem :=
  { s with
    caps := update s.caps s.nextCap cap
    nextCap := s.nextCap + 1
    parent := update s.parent s.nextCap parent }

def schedPolicyCapCreateSystem (s : PolicySystem) : PolicySystem :=
  s.newCap
    { targetKind := schedPolicyTargetSystem
      rights := schedPolicyRightObserve ||| schedPolicyRightClass ||| schedPolicyRightPriority |||
        schedPolicyRightWeight ||| schedPolicyRightAffinity ||| schedPolicyRightDelegate
      delegationDepth := 8
      targetId := 0
      classMask := schedPolicyAllClasses
      minPriority := 0
      maxPriority := 255
      minWeight := 1
      maxWeight := 65535
      cpuMask := s.sched.schedOnlineCpuMask } none

def taskSchedPolicyFromHandle (s : PolicySystem) (k : TaskId) (handle : Nat) (rights : U32) :
    Option Nat :=
  match (s.handles k).withRights handle rights with
  | some (.schedPolicy c) => some c
  | _ => none

def taskId (s : PolicySystem) (k : TaskId) : U32 :=
  ((s.tasksByPid.find? fun e => e.2 = k).map Prod.fst).getD 0

/-- The capability a request makes: a task target without a number is the task it is for. -/
def requestedCap (s : PolicySystem) (target : TaskId) (requested : SchedPolicyCap) : SchedPolicyCap :=
  if requested.targetKind = schedPolicyTargetTask ∧ requested.targetId = 0 then
    { requested with targetId := (s.taskId target).setWidth 64 }
  else requested

/-- `slab` tells whether the capability can be allocated, `slabTable` whether a larger table. -/
def schedPolicyGrant (s : PolicySystem) (slab slabTable : Bool) (owner : TaskId) (authorityHandle : Nat)
    (target : TaskId) (requested : SchedPolicyCap) : Nat × PolicySystem :=
  match s.taskSchedPolicyFromHandle owner authorityHandle taskRightSend with
  | none => (0, s)
  | some authority =>
    if slab = false then (0, s)
    else if s.sched.schedPolicyIsAttenuated (s.caps authority) (s.requestedCap target requested) then
      let granted := HandleTable.taskGrantSchedPolicy slabTable (s.handles target) s.nextCap
        (taskRightSend ||| taskRightDup)
      (granted.1, (s.newCap (s.requestedCap target requested) (some authority)).setTable target granted.2.1)
    else (0, s)

/-- A request without a target is for the target of the capability. -/
def defaultTarget (cap : SchedPolicyCap) (state : SchedPolicyState) : SchedPolicyState :=
  if state.targetKind = 0 then
    { state with targetKind := cap.targetKind.setWidth 64, targetId := cap.targetId }
  else state

/-- The rights `sched_policy_set` asks for, all of them whatever changes. -/
def schedPolicySetRights : U32 :=
  schedPolicyRightClass ||| schedPolicyRightPriority ||| schedPolicyRightWeight |||
    schedPolicyRightAffinity

def taskFindByIdRetain (s : PolicySystem) (id : U64) : Option TaskId :=
  ((s.tasksByPid.find? fun e => e.1.setWidth 64 = id).map Prod.snd).filter fun k =>
    k ≠ kernelTask ∧ (s.sched.tasks k).dead = false

/-- The walk over all threads for one that is not dead. -/
def findThread (s : PolicySystem) (id : U64) : Option ThreadId :=
  (s.tasksByPid.flatMap fun e => (s.sched.tasks e.2).threads).find? fun t =>
    (s.sched.threads t).tid.setWidth 64 = id ∧ (s.sched.threads t).state ≠ .dead

def policyOf (state : SchedPolicyState) (c : SchedClass) : Sched.SchedPolicy :=
  ⟨c, state.priority.setWidth 32, state.weight.setWidth 32, state.cpuMask⟩

/-- Applying an allowed request: `none` when there is no such target. -/
def applyPolicy (s : PolicySystem) (state : SchedPolicyState) (c : SchedClass) : Option Sched :=
  if state.targetKind = schedPolicyTargetTask.setWidth 64 then
    (s.taskFindByIdRetain state.targetId).map fun k => s.sched.schedPolicySetTask k (policyOf state c)
  else if state.targetKind = schedPolicyTargetThread.setWidth 64 then
    (s.findThread state.targetId).map fun t => s.sched.schedPolicySetThread t (policyOf state c)
  else none

def schedPolicySet (s : PolicySystem) (owner : TaskId) (authorityHandle : Nat)
    (requested : SchedPolicyState) : Bool × PolicySystem :=
  match s.taskSchedPolicyFromHandle owner authorityHandle taskRightSend with
  | none => (false, s)
  | some authority =>
    if (s.caps authority).rights &&& schedPolicySetRights ≠ schedPolicySetRights ∨
        s.sched.schedPolicyStateAllowed (s.caps authority)
          (defaultTarget (s.caps authority) requested) = false then
      (false, s)
    else
      match (SchedClass.ofU64 requested.schedClass).bind
          (s.applyPolicy (defaultTarget (s.caps authority) requested)) with
      | none => (false, s)
      | some sched => (true, { s with sched })

/-- What the rest of the system does: capabilities reach other tables by any way, handles are
closed, and tasks and threads change. -/
inductive PolicyOp where
  | grant (slab slabTable : Bool) (owner : TaskId) (authorityHandle : Nat) (target : TaskId)
      (requested : SchedPolicyCap)
  | set (owner : TaskId) (authorityHandle : Nat) (requested : SchedPolicyState)
  | createSystem
  | give (slab : Bool) (k : TaskId) (c : Nat) (rights : U32)
  | close (k : TaskId) (handle : Nat)
  | others (sched : Sched) (tasksByPid : List (U32 × TaskId))

def step (s : PolicySystem) : PolicyOp → PolicySystem
  | .grant slab slabTable owner authorityHandle target requested =>
    (s.schedPolicyGrant slab slabTable owner authorityHandle target requested).2
  | .set owner authorityHandle requested => (s.schedPolicySet owner authorityHandle requested).2
  | .createSystem => s.schedPolicyCapCreateSystem
  | .give slab k c rights =>
    if c < s.nextCap then s.setTable k (HandleTable.taskGrantSchedPolicy slab (s.handles k) c rights).2.1
    else s
  | .close k handle =>
    match (s.handles k).clear handle with
    | some (_, table) => s.setTable k table
    | none => s
  | .others sched tasksByPid => { s with sched, tasksByPid }

end PolicySystem

/-! ## Authority -/

/-- What a capability permits: bits of rights, numbers of classes, values, CPUs and targets. -/
structure PolicyAuthority where
  rights : Set Nat
  classes : Set Nat
  priorities : Set Nat
  weights : Set Nat
  cpus : Set Nat
  targets : Set (U32 × U64)

namespace PolicyAuthority

/-- Contained in every part. -/
instance : Preorder PolicyAuthority :=
  Preorder.lift fun a => (a.rights, a.classes, a.priorities, a.weights, a.cpus, a.targets)

theorem le_def : a ≤ b ↔ a.rights ⊆ b.rights ∧ a.classes ⊆ b.classes ∧
    a.priorities ⊆ b.priorities ∧ a.weights ⊆ b.weights ∧ a.cpus ⊆ b.cpus ∧ a.targets ⊆ b.targets :=
  Iff.rfl

structure Covers (a : PolicyAuthority) (p : Sched.SchedPolicy) : Prop where
  schedClass : p.schedClass.number ∈ a.classes
  priority : p.priority.toNat ∈ a.priorities
  weight : p.weight.toNat ∈ a.weights
  cpus : ∀ i, p.cpuMask.getLsbD i = true → i ∈ a.cpus

theorem Covers.mono (h : a.Covers p) (hab : a ≤ b) :
    b.Covers p := by
  obtain ⟨_, hclass, hprio, hweight, hcpus, _⟩ := le_def.mp hab
  exact ⟨hclass h.schedClass, hprio h.priority, hweight h.weight, fun i hi => hcpus (h.cpus i hi)⟩

end PolicyAuthority

def SchedPolicyCap.authority (cap : SchedPolicyCap) : PolicyAuthority where
  rights := { i | cap.rights.getLsbD i = true }
  classes := { i | cap.classMask.getLsbD i = true }
  priorities := Set.Icc cap.minPriority.toNat cap.maxPriority.toNat
  weights := Set.Icc cap.minWeight.toNat cap.maxWeight.toNat
  cpus := { i | cap.cpuMask.getLsbD i = true }
  targets := { t | schedPolicyCapAllowsTarget cap t.1 t.2 = true }

theorem getLsbD_of_and_not {n : Nat} {a b : BitVec n} (h : a &&& ~~~b = 0) {i : Nat}
    (hi : a.getLsbD i = true) : b.getLsbD i = true := by
  have hbit := congrArg (fun x => x.getLsbD i) h
  simp only [BitVec.getLsbD_and, BitVec.getLsbD_not, hi, Bool.true_and, BitVec.getLsbD_zero,
    BitVec.ofNat_eq_ofNat, Bool.and_eq_false_iff, Bool.not_eq_false'] at hbit
  refine hbit.resolve_left fun hlt => ?_
  have := BitVec.lt_of_getLsbD hi
  simp [this] at hlt

theorem targets_subset (h : schedPolicyCapAllowsTarget parent child.targetKind child.targetId = true) :
    child.authority.targets ⊆ parent.authority.targets := by
  rintro ⟨kind, id⟩ hmem
  simp only [SchedPolicyCap.authority, Set.mem_ofPred_eq, schedPolicyCapAllowsTarget] at hmem h ⊢
  by_cases hparent : parent.targetKind = schedPolicyTargetSystem
  · rw [if_pos hparent] at h ⊢
    by_cases hchild : child.targetKind = schedPolicyTargetSystem
    · rwa [if_pos hchild] at hmem
    · rw [if_neg hchild] at hmem
      simp only [Bool.and_eq_true, decide_eq_true_eq] at hmem
      rwa [← hmem.1]
  · rw [if_neg hparent] at h ⊢
    simp only [Bool.and_eq_true, decide_eq_true_eq] at h
    have hchild : ¬ child.targetKind = schedPolicyTargetSystem := fun he => hparent (h.1.trans he)
    rw [if_neg hchild] at hmem
    rwa [h.1, h.2]

/-- **A grant only makes authority smaller**, and the depth with it. -/
theorem Sched.attenuated {s : Sched} (h : s.schedPolicyIsAttenuated parent child = true) :
    child.authority ≤ parent.authority ∧ child.delegationDepth < parent.delegationDepth := by
  unfold Sched.schedPolicyIsAttenuated at h
  split at h
  · cases h
  rename_i hcond
  simp only [not_or, not_not, BitVec.not_lt, BitVec.not_le, Bool.not_eq_false] at hcond
  obtain ⟨_, _, hdepth, hrights, hclass, hminp, hmaxp, _, hminw, hmaxw, _, hcpu, _, _⟩ := hcond
  refine ⟨PolicyAuthority.le_def.mpr ⟨?_, ?_, ?_, ?_, ?_, targets_subset h⟩, hdepth⟩
  · exact fun _ => getLsbD_of_and_not hrights
  · exact fun _ => getLsbD_of_and_not hclass
  · exact Set.Icc_subset_Icc (BitVec.le_def.mp hminp) (BitVec.le_def.mp hmaxp)
  · exact Set.Icc_subset_Icc (BitVec.le_def.mp hminw) (BitVec.le_def.mp hmaxw)
  · exact fun _ => getLsbD_of_and_not hcpu

/-! ## A change of policy -/

/-- A thread or task with the values of a policy. -/
def Thread.withPolicy (thread : Thread) (p : Sched.SchedPolicy) : Thread :=
  { thread with
    schedClass := p.schedClass, schedPriority := p.priority, weight := p.weight
    affinityMask := p.cpuMask }

def SchedTask.withPolicy (task : SchedTask) (p : Sched.SchedPolicy) : SchedTask :=
  { task with schedClass := p.schedClass, schedPriority := p.priority, schedAffinityMask := p.cpuMask }

namespace Sched

variable {s : Sched} {p : SchedPolicy} {k : TaskId} {t u : ThreadId}

theorem setThreadPolicy_threads : (s.setThreadPolicy p t).threads u = s.threads u ∨
    u = t ∧ (s.setThreadPolicy p t).threads u = (s.threads u).withPolicy p := by
  by_cases hut : u = t
  · subst hut
    exact .inr ⟨rfl, by simp [setThreadPolicy, updThread, Thread.withPolicy]⟩
  · left
    simp only [setThreadPolicy, updThread, update_of_ne hut]

theorem foldl_setThreadPolicy (l : List ThreadId) (s : Sched) :
    (∀ u, (l.foldl (fun s t => s.setThreadPolicy p t) s).threads u = s.threads u ∨
      u ∈ l ∧ (l.foldl (fun s t => s.setThreadPolicy p t) s).threads u = (s.threads u).withPolicy p) ∧
    l.foldl (fun s t => s.setThreadPolicy p t) s =
      { s with threads := (l.foldl (fun s t => s.setThreadPolicy p t) s).threads } := by
  induction l generalizing s with
  | nil => exact ⟨fun _ => .inl rfl, rfl⟩
  | cons t l ih =>
    obtain ⟨hthreads, hrest⟩ := ih (s.setThreadPolicy p t)
    constructor
    · intro u
      simp only [foldl_cons]
      -- setting the policy twice is setting it once
      have htwice : ((s.threads u).withPolicy p).withPolicy p = (s.threads u).withPolicy p := rfl
      rcases hthreads u with hu | ⟨hmem, hu⟩
      · rw [hu]
        exact setThreadPolicy_threads.imp_right fun ⟨he, hw⟩ => ⟨he ▸ mem_cons_self .., hw⟩
      right
      refine ⟨mem_cons_of_mem _ hmem, ?_⟩
      rcases setThreadPolicy_threads with he | ⟨_, he⟩
      · rw [hu, he]
      · rw [hu, he, htwice]
    · simp only [foldl_cons]
      rw [hrest]
      rfl

end Sched

/-- The tasks and threads an authority reaches: those it names, and the threads of a task. -/
def PolicyAuthority.ReachesTask (a : PolicyAuthority) (s : PolicySystem) (k : TaskId) : Prop :=
  ∃ pid, (pid, k) ∈ s.tasksByPid ∧ (schedPolicyTargetTask, pid.setWidth 64) ∈ a.targets

def PolicyAuthority.ReachesThread (a : PolicyAuthority) (s : PolicySystem) (t : ThreadId) : Prop :=
  (schedPolicyTargetThread, (s.sched.threads t).tid.setWidth 64) ∈ a.targets ∨
    ∃ k, a.ReachesTask s k ∧ t ∈ (s.sched.tasks k).threads

/-- All that has changed are policies of tasks and threads the authority reaches, to values it
covers. -/
structure ChangedWithin (a : PolicyAuthority) (s s' : PolicySystem) : Prop where
  tasks : ∀ k, s'.sched.tasks k = s.sched.tasks k ∨ a.ReachesTask s k ∧
    ∃ p, a.Covers p ∧ s'.sched.tasks k = (s.sched.tasks k).withPolicy p
  threads : ∀ t, s'.sched.threads t = s.sched.threads t ∨ a.ReachesThread s t ∧
    ∃ p, a.Covers p ∧ s'.sched.threads t = (s.sched.threads t).withPolicy p
  rest : s' = { s with sched := { s.sched with tasks := s'.sched.tasks, threads := s'.sched.threads } }

theorem ChangedWithin.mono (h : ChangedWithin a s s') (hab : a ≤ b) : ChangedWithin b s s' := by
  obtain ⟨_, _, _, _, _, htargets⟩ := PolicyAuthority.le_def.mp hab
  have htask : ∀ k, a.ReachesTask s k → b.ReachesTask s k :=
    fun k ⟨pid, hmem, ht⟩ => ⟨pid, hmem, htargets ht⟩
  refine ⟨fun k => (h.tasks k).imp_right ?_, fun t => (h.threads t).imp_right ?_, h.rest⟩
  · rintro ⟨hk, p, hp, he⟩
    exact ⟨htask k hk, p, hp.mono hab, he⟩
  · rintro ⟨ht, p, hp, he⟩
    exact ⟨ht.imp (fun h => htargets h) fun ⟨k, hk, hmem⟩ => ⟨k, htask k hk, hmem⟩, p, hp.mono hab, he⟩

namespace PolicySystem

variable {s s' : PolicySystem} {cap : SchedPolicyCap} {state : SchedPolicyState} {c : SchedClass}

theorem changedWithin_setTask (hk : a.ReachesTask s k) (hp : a.Covers p) :
    ChangedWithin a s { s with sched := s.sched.schedPolicySetTask k p } := by
  obtain ⟨hthreads, hrest⟩ := Sched.foldl_setThreadPolicy (s.sched.tasks k).threads
    (s.sched.updTask k ((s.sched.tasks k).withPolicy p))
  have hset : s.sched.schedPolicySetTask k p = (s.sched.tasks k).threads.foldl
      (fun s t => s.setThreadPolicy p t) (s.sched.updTask k ((s.sched.tasks k).withPolicy p)) := rfl
  rw [hset]
  generalize (s.sched.tasks k).threads.foldl (fun s t => s.setThreadPolicy p t)
    (s.sched.updTask k ((s.sched.tasks k).withPolicy p)) = sched at hthreads hrest ⊢
  have htasks : sched.tasks = update s.sched.tasks k ((s.sched.tasks k).withPolicy p) :=
    congrArg Sched.tasks hrest
  constructor
  · intro k'
    simp only [htasks]
    by_cases hkk : k' = k
    · subst hkk
      exact .inr ⟨hk, p, hp, update_self ..⟩
    · exact .inl (update_of_ne hkk ..)
  · intro t
    exact (hthreads t).imp_right fun ⟨hmem, he⟩ => ⟨.inr ⟨k, hk, hmem⟩, p, hp, he⟩
  · have hsched : sched = { s.sched with tasks := sched.tasks, threads := sched.threads } := by
      rw [htasks]
      exact hrest
    exact congrArg (fun sched => { s with sched }) hsched

theorem changedWithin_setThread (ht : a.ReachesThread s t) (hp : a.Covers p) :
    ChangedWithin a s { s with sched := s.sched.schedPolicySetThread t p } := by
  unfold Sched.schedPolicySetThread
  split
  · exact ⟨fun _ => .inl rfl, fun _ => .inl rfl, rfl⟩
  · refine ⟨fun _ => .inl rfl, fun u => Sched.setThreadPolicy_threads.imp_right ?_, rfl⟩
    rintro ⟨rfl, he⟩
    exact ⟨ht, p, hp, he⟩

theorem stateAllowed {sched : Sched} (h : sched.schedPolicyStateAllowed cap state = true) :
    (state.targetKind.setWidth 32, state.targetId) ∈ cap.authority.targets ∧
      ∀ c, SchedClass.ofU64 state.schedClass = some c → cap.authority.Covers (policyOf state c) := by
  unfold Sched.schedPolicyStateAllowed at h
  split at h
  · cases h
  rename_i htarget
  refine ⟨by simpa [SchedPolicyCap.authority] using htarget, fun c hc => ?_⟩
  rw [hc] at h
  simp only at h
  split at h
  · cases h
  rename_i hcond
  simp only [not_or, not_not, not_lt, Bool.not_eq_false] at hcond
  obtain ⟨hclass, hminp, hmaxp, hminw, hmaxw, _, hcpu⟩ := hcond
  have hnarrow : ∀ (x : U64) (y : U32), x.toNat ≤ y.toNat → (x.setWidth 32).toNat = x.toNat := by
    intro x y hle
    exact mod_eq_of_lt (lt_of_le_of_lt hle y.isLt)
  constructor
  · show cap.classMask.getLsbD c.number = true
    have hbit : schedPolicyClassBit c = BitVec.twoPow 64 c.number := by cases c <;> decide
    rw [hbit, BitVec.and_twoPow] at hclass
    by_contra hno
    rw [if_neg hno] at hclass
    exact hclass rfl
  · show (state.priority.setWidth 32).toNat ∈ Set.Icc _ _
    rw [hnarrow _ _ hmaxp]
    exact ⟨hminp, hmaxp⟩
  · show (state.weight.setWidth 32).toNat ∈ Set.Icc _ _
    rw [hnarrow _ _ hmaxw]
    exact ⟨hminw, hmaxw⟩
  · exact fun _ => getLsbD_of_and_not hcpu

theorem changedWithin_applyPolicy {sched : Sched}
    (htarget : (state.targetKind.setWidth 32, state.targetId) ∈ cap.authority.targets)
    (hcovers : cap.authority.Covers (policyOf state c)) (h : s.applyPolicy state c = some sched) :
    ChangedWithin cap.authority s { s with sched } := by
  unfold applyPolicy at h
  split at h
  · rename_i hkind
    obtain ⟨k, hk, rfl⟩ := map_eq_some_iff.mp h
    refine changedWithin_setTask ?_ hcovers
    obtain ⟨hfound, _⟩ := filter_eq_some_iff.mp hk
    obtain ⟨⟨pid, k'⟩, hfind, rfl⟩ := map_eq_some_iff.mp hfound
    have hpid := find?_some hfind
    simp only [decide_eq_true_eq] at hpid
    refine ⟨pid, mem_of_find?_eq_some hfind, ?_⟩
    rw [hkind, ← hpid] at htarget
    exact htarget
  · split at h
    · rename_i hkind
      obtain ⟨t, ht, rfl⟩ := map_eq_some_iff.mp h
      refine changedWithin_setThread (.inl ?_) hcovers
      have htid := find?_some ht
      simp only [decide_eq_true_eq] at htid
      rw [hkind, ← htid.1] at htarget
      exact htarget
    · cases h

/-- **One change of policy** lies within the capability it is made with, or nothing happens. -/
theorem schedPolicySet_spec {owner : TaskId} {handle : Nat} {requested : SchedPolicyState} {ok : Bool}
    (h : s.schedPolicySet owner handle requested = (ok, s')) :
    ok = false ∧ s' = s ∨ ok = true ∧ ∃ i, s.taskSchedPolicyFromHandle owner handle taskRightSend = some i ∧
      ChangedWithin (s.caps i).authority s s' := by
  unfold schedPolicySet at h
  split at h
  · cases h
    exact .inl ⟨rfl, rfl⟩
  rename_i i hi
  split at h
  · cases h
    exact .inl ⟨rfl, rfl⟩
  rename_i hcond
  rw [not_or, Bool.not_eq_false] at hcond
  split at h
  · cases h
    exact .inl ⟨rfl, rfl⟩
  rename_i sched hsched
  cases h
  refine .inr ⟨rfl, i, hi, ?_⟩
  obtain ⟨c, hc, happly⟩ := bind_eq_some_iff.mp hsched
  obtain ⟨htarget, hcovers⟩ := stateAllowed hcond.2
  have hclass : (defaultTarget (s.caps i) requested).schedClass = requested.schedClass := by
    unfold defaultTarget
    split <;> rfl
  exact changedWithin_applyPolicy htarget (hcovers c (hclass ▸ hc)) happly

/-! ## Runs -/

/-- Capability `i` was granted on the authority of `j`. -/
def Derived (s : PolicySystem) (i j : Nat) : Prop := s.parent i = some j

/-- Handles name capabilities that exist, and each capability lies within its parent. -/
structure AttenuationInv (s : PolicySystem) : Prop where
  handles : ∀ k h i, some h ∈ s.handles k → h.obj = .schedPolicy i → i < s.nextCap
  exists_ : ∀ i j, s.Derived i j → i < s.nextCap ∧ j < s.nextCap
  within : ∀ i j, s.Derived i j → (s.caps i).authority ≤ (s.caps j).authority ∧
    (s.caps i).delegationDepth < (s.caps j).delegationDepth

/-- A start of the system: the capabilities there are have no parents. -/
structure Init (s : PolicySystem) : Prop where
  handles : ∀ k h i, some h ∈ s.handles k → h.obj = .schedPolicy i → i < s.nextCap
  parent : ∀ i, s.parent i = none

theorem AttenuationInv.of_init (h : s.Init) : AttenuationInv s := by
  have hnone : ∀ i j, ¬ s.Derived i j := by
    intro i j hij
    unfold Derived at hij
    rw [h.parent i] at hij
    cases hij
  exact ⟨h.handles, fun i j hij => absurd hij (hnone i j), fun i j hij => absurd hij (hnone i j)⟩

theorem AttenuationInv.setTable {k} (h : AttenuationInv s)
    (ht : ∀ x i, some x ∈ table → x.obj = .schedPolicy i → i < s.nextCap) :
    AttenuationInv (s.setTable k table) := by
  refine ⟨fun k' x i hx hi => ?_, h.exists_, h.within⟩
  simp only [PolicySystem.setTable] at hx
  exact update_cases (fun _ hx => ht x i hx hi) (fun _ hx => h.handles k' x i hx hi) hx

theorem AttenuationInv.newCap (h : AttenuationInv s) (cap : SchedPolicyCap) (parent : Option Nat)
    (hparent : ∀ j, parent = some j → j < s.nextCap ∧ cap.authority ≤ (s.caps j).authority ∧
      cap.delegationDepth < (s.caps j).delegationDepth) :
    AttenuationInv (s.newCap cap parent) := by
  have hcases : ∀ i j, (s.newCap cap parent).Derived i j →
      i = s.nextCap ∧ parent = some j ∨ i < s.nextCap ∧ s.Derived i j := by
    intro i j hij
    replace hij : update s.parent s.nextCap parent i = some j := hij
    exact update_cases (fun hi hij => .inl ⟨hi, hij⟩) (fun _ hij => .inr ⟨(h.exists_ i j hij).1, hij⟩) hij
  have hold : ∀ i, i < s.nextCap → (s.newCap cap parent).caps i = s.caps i := fun i hi =>
    update_of_ne (Nat.ne_of_lt hi) ..
  constructor
  · intro k x i hx hi
    exact lt_succ_of_lt (h.handles k x i hx hi)
  · intro i j hij
    rcases hcases i j hij with ⟨rfl, hp⟩ | ⟨_, hij⟩
    · exact ⟨lt_succ_self _, lt_succ_of_lt (hparent j hp).1⟩
    · obtain ⟨hi, hj⟩ := h.exists_ i j hij
      exact ⟨lt_succ_of_lt hi, lt_succ_of_lt hj⟩
  · intro i j hij
    rcases hcases i j hij with ⟨rfl, hp⟩ | ⟨hi, hij⟩
    · obtain ⟨hj, hle, hlt⟩ := hparent j hp
      have hself : (s.newCap cap parent).caps s.nextCap = cap := update_self ..
      rw [hself, hold j hj]
      exact ⟨hle, hlt⟩
    · rw [hold i hi, hold j (h.exists_ i j hij).2]
      exact h.within i j hij

theorem mem_taskGrantSchedPolicy {slab i rights}
    {x} (hx : some x ∈ (HandleTable.taskGrantSchedPolicy slab table i rights).2.1) :
    some x ∈ table ∨ x.obj = .schedPolicy i := by
  rcases hg : HandleTable.grantObj slab table (.schedPolicy i) rights with ⟨handle, table', retained⟩
  have hspec := HandleTable.grantObj_spec hg
  replace hx : some x ∈ (HandleTable.grantObj slab table (.schedPolicy i) rights).2.1 := hx
  rw [hg] at hx
  rcases hspec with ⟨_, rfl, _⟩ | ⟨_, _, hfilled⟩
  · exact .inl hx
  · rcases hfilled.mem_iff x hx with hx | rfl
    · exact .inl hx
    · exact .inr rfl

theorem AttenuationInv.step (h : AttenuationInv s) (op : PolicyOp) : AttenuationInv (s.step op) := by
  cases op with
  | grant slab slabTable owner handle target requested =>
    simp only [PolicySystem.step, schedPolicyGrant]
    split
    · exact h
    rename_i i hi
    split
    · exact h
    split
    · rename_i hatt
      have hlt : i < s.nextCap := by
        unfold taskSchedPolicyFromHandle at hi
        split at hi
        · rename_i c hc
          cases hi
          obtain ⟨x, hmem, hobj, _⟩ := HandleTable.withRights_some hc
          exact h.handles owner x _ hmem hobj
        · cases hi
      have hnew := h.newCap (s.requestedCap target requested) (some i) fun j hj => by
        cases hj
        exact ⟨hlt, Sched.attenuated hatt⟩
      refine hnew.setTable fun x j hx hj => ?_
      rcases mem_taskGrantSchedPolicy hx with hx | hobj
      · exact lt_succ_of_lt (h.handles target x j hx hj)
      · rw [hobj] at hj
        cases hj
        exact lt_succ_self _
    · exact h
  | set owner handle requested =>
    simp only [PolicySystem.step]
    rcases hs : s.schedPolicySet owner handle requested with ⟨ok, s'⟩
    rcases schedPolicySet_spec hs with ⟨_, rfl⟩ | ⟨_, _, _, hchanged⟩
    · exact h
    · rw [hchanged.rest]
      exact ⟨h.handles, h.exists_, h.within⟩
  | createSystem =>
    exact h.newCap _ none fun j hj => by cases hj
  | give slab k c rights =>
    simp only [PolicySystem.step]
    split
    · rename_i hc
      refine h.setTable fun x j hx hj => ?_
      rcases mem_taskGrantSchedPolicy hx with hx | hobj
      · exact h.handles k x j hx hj
      · rw [hobj] at hj
        cases hj
        exact hc
    · exact h
  | close k handle =>
    simp only [PolicySystem.step]
    split
    · rename_i o table hclear
      exact h.setTable fun x j hx hj => h.handles k x j ((HandleTable.clear_some hclear).2 x hx) hj
    · exact h
  | others sched tasksByPid => exact ⟨h.handles, h.exists_, h.within⟩

theorem AttenuationInv.chain (h : AttenuationInv s) (hij : Relation.TransGen s.Derived i j) :
    (s.caps i).authority ≤ (s.caps j).authority ∧
      (s.caps i).delegationDepth < (s.caps j).delegationDepth := by
  induction hij with
  | single hij => exact h.within i _ hij
  | tail _ hjk ih =>
    obtain ⟨hle, hlt⟩ := h.within _ _ hjk
    exact ⟨le_trans ih.1 hle, BitVec.lt_trans ih.2 hlt⟩

/-- **Policy capabilities only attenuate.** In every run, a capability derived by a chain of
grants of any length lies within each of its ancestors and has less depth; and a change of policy
by way of it changes only what the ancestor's authority reaches, to values it covers, or, when
it fails, nothing. -/
theorem policy_attenuates {s₀ s : PolicySystem} {ops : List PolicyOp} (hinit : s₀.Init)
    (hr : Run (fun s op s' => s.step op = s') s₀ ops s) :
    (∀ i root, Relation.TransGen s.Derived i root → (s.caps i).authority ≤ (s.caps root).authority ∧
        (s.caps i).delegationDepth < (s.caps root).delegationDepth) ∧
    ∀ owner handle requested ok s', s.schedPolicySet owner handle requested = (ok, s') →
      (ok = true → ∀ i root, s.taskSchedPolicyFromHandle owner handle taskRightSend = some i →
        Relation.ReflTransGen s.Derived i root → ChangedWithin (s.caps root).authority s s') ∧
      (ok = false → s' = s) := by
  have h : AttenuationInv s := by
    refine hr.invariant (fun s op s' hs hstep => ?_) (AttenuationInv.of_init hinit)
    rw [← hstep]
    exact hs.step op
  refine ⟨fun i root => h.chain, fun owner handle requested ok s' hs => ?_⟩
  rcases schedPolicySet_spec hs with ⟨hok, hs'⟩ | ⟨hok, i, hi, hchanged⟩
  · refine ⟨fun htrue => ?_, fun _ => hs'⟩
    rw [hok] at htrue
    cases htrue
  · refine ⟨fun _ i' root hi' hroot => ?_, fun hfalse => ?_⟩
    · rw [hi] at hi'
      cases hi'
      rcases Relation.reflTransGen_iff_eq_or_transGen.mp hroot with rfl | hroot
      · exact hchanged
      · exact hchanged.mono (h.chain hroot).1
    · rw [hok] at hfalse
      cases hfalse

/-- Task 1, with one thread, holds a capability for the whole system. -/
def oneTask : PolicySystem where
  sched :=
    { cpuCount := 2
      cpus := fun _ => {}
      threads := fun _ => { tid := 7 }
      tasks := fun k => if k = 1 then { threads := [3] } else {}
      sleepList := ⟨none, fun _ => none⟩
      nextAutoCpu := 0
      nextTid := 8
      nextThread := 4
      preemptionEnabled := true }
  tasksByPid := [(20, 1)]
  caps := fun _ => ⟨schedPolicyTargetSystem, 63, 8, 0, schedPolicyAllClasses, 0, 255, 1, 65535, 3⟩
  nextCap := 1
  parent := fun _ => none
  handles := fun k => if k = 1 then [some ⟨.schedPolicy 0, taskRightSend, 0⟩] else []

/-- A capability for the task itself, narrower in every respect. -/
def ownTask : SchedPolicyCap :=
  ⟨schedPolicyTargetTask, 31, 2, 0, schedPolicyClassBit .batch, 10, 20, 100, 200, 1⟩

theorem policy_attenuates_ownTask : ∃ s s',
    Run (fun s op s' => s.step op = s') oneTask [.grant true true 1 1 1 ownTask] s ∧
    Relation.TransGen s.Derived 1 0 ∧ (s.caps 1).authority ≤ (s.caps 0).authority ∧
    s.schedPolicySet 1 2 ⟨0, 0, 4, 15, 150, 1⟩ = (true, s') ∧
    s'.sched.threads 3 = (s.sched.threads 3).withPolicy ⟨.batch, 15, 150, 1⟩ ∧
    ChangedWithin (s.caps 0).authority s s' := by
  have hinit : oneTask.Init := by
    refine ⟨fun k h i hmem hobj => ?_, fun _ => rfl⟩
    by_cases hk : k = 1
    · subst hk
      simp only [oneTask, if_true, mem_singleton, some.injEq] at hmem
      subst hmem
      cases hobj
      decide
    · simp [oneTask, hk] at hmem
  generalize hs : oneTask.step (.grant true true 1 1 1 ownTask) = s
  have hr : Run (fun s op s' => s.step op = s') oneTask [.grant true true 1 1 1 ownTask] s :=
    .cons hs (.nil s)
  obtain ⟨hchain, hset⟩ := policy_attenuates hinit hr
  have hcheck : s.parent 1 = some 0 ∧ s.taskSchedPolicyFromHandle 1 2 taskRightSend = some 1 ∧
      (s.schedPolicySet 1 2 ⟨0, 0, 4, 15, 150, 1⟩).1 = true ∧
      (s.schedPolicySet 1 2 ⟨0, 0, 4, 15, 150, 1⟩).2.sched.threads 3 =
        (s.sched.threads 3).withPolicy ⟨.batch, 15, 150, 1⟩ := by
    subst hs
    decide +kernel
  obtain ⟨hparent, hhandle, hok, hthread⟩ := hcheck
  have hderived : Relation.TransGen s.Derived 1 0 := .single hparent
  have heq : s.schedPolicySet 1 2 ⟨0, 0, 4, 15, 150, 1⟩ =
      (true, (s.schedPolicySet 1 2 ⟨0, 0, 4, 15, 150, 1⟩).2) := Prod.ext hok rfl
  exact ⟨s, _, hr, hderived, (hchain 1 0 hderived).1, heq, hthread,
    (hset 1 2 _ true _ heq).1 rfl 1 0 hhandle hderived.to_reflTransGen⟩

end PolicySystem

end Bunix.Kernel
