import Bunix.Kernel.CapRefs
import Bunix.Kernel.Sched

/-! # The life of a task

A task is created with one reference, which stands for its life; `sched_reap_thread` drops it with
the last thread, `task_discard_unstarted` if there never was one. Every handle on the task, every
message that carries it and every thread inside the kernel that works on it has a reference of its
own. The `task_release` that takes the count of a dead task to 0 tears it down
(`kernel/sched.c`).

A step is what runs under the lock of a task. What a step has taken a reference for, or owes a
`task_release` to, it leaves in `held`; `release` is `task_release` on behalf of any of them.
-/
namespace Bunix.Kernel

open Bunix.Lib Function

structure LifeTask where
  refCount : Nat := 0
  dead : Bool := false
  killing : Bool := false
  threadCount : Nat := 0
  handles : HandleTable := []
  replyPort : Option PortId := none
  ownsVmSpace : Bool := false
  live : Nat := 0
  /-- Threads that have exited and wait for `sched_reap_thread`. -/
  exited : Nat := 0
  /-- The creator still works on the task, by a pointer without a reference. -/
  making : Bool := false
  /-- How often `task_teardown` has run. -/
  teardowns : Nat := 0
deriving DecidableEq, Repr

structure TaskLife where
  nextTask : TaskId
  task : TaskId → LifeTask
  /-- Queued messages that carry the task. -/
  queued : TaskId → Nat
  /-- References in the hands of threads inside the kernel. -/
  held : TaskId → Nat

namespace TaskLife

variable (s : TaskLife) (k : TaskId)

/-- Handles on `j` in the table of `i`. -/
def slotsIn (i j : TaskId) : Nat := (s.task i).handles.objs.count (.task j)

def slots (j : TaskId) : Nat := ∑ i ∈ Finset.range s.nextTask, s.slotsIn i j

@[simps -fullyApplied queued held]
def modify (f : LifeTask → LifeTask) : TaskLife :=
  { s with task := update s.task k (f (s.task k)) }

@[simps -fullyApplied task queued]
def hold : TaskLife :=
  { s with held := update s.held k (s.held k + 1) }

@[simps -fullyApplied task queued]
def unhold : TaskLife :=
  { s with held := update s.held k (s.held k - 1) }

/-- A thread has a pointer to the task that it may follow: it is one of its threads, has a
reference, or is its creator and has not lost it yet. -/
def usable : Bool :=
  0 < (s.task k).live || 0 < s.held k || ((s.task k).making && !(s.task k).dead)

/-! ## The functions of the source -/

/-- `task_create`, and `task_create_borrowed_vm` with `ownsVmSpace` 0. -/
def taskCreate (ownsVmSpace : Bool) : TaskLife :=
  { s with
    nextTask := s.nextTask + 1
    task := update s.task s.nextTask { refCount := 1, ownsVmSpace, making := true } }

/-- The part of `thread_create_placed` that counts the thread. -/
def threadCreate : TaskLife :=
  if (s.task k).dead ∨ (s.task k).killing then s
  else s.modify k fun r => { r with threadCount := r.threadCount + 1, live := r.live + 1 }

def threadExit : TaskLife :=
  s.modify k fun r => { r with live := r.live - 1, exited := r.exited + 1 }

/-- `sched_reap_thread` up to the `task_release` at its end. -/
def schedReapThread : TaskLife :=
  let teardown := (s.task k).threadCount - 1 == 0 && k != kernelTask
  let s := s.modify k fun r =>
    { r with threadCount := r.threadCount - 1, exited := r.exited - 1, dead := r.dead || teardown }
  if teardown then s.hold k else s

/-- `task_retain`; the reference stays with the caller. -/
def taskRetain : TaskLife :=
  if k = kernelTask ∨ (s.task k).dead then s
  else (s.modify k fun r => { r with refCount := r.refCount + 1 }).hold k

/-- The first section of `task_kill`. -/
def taskKill : TaskLife :=
  if k = kernelTask ∨ (s.task k).dead then s
  else (s.modify k fun r => { r with killing := true, refCount := r.refCount + 1 }).hold k

/-- `task_discard_unstarted` up to its `task_release`. -/
def taskDiscardUnstarted : TaskLife :=
  if k = kernelTask ∨ (s.task k).dead ∨ (s.task k).threadCount ≠ 0 then s
  else (s.modify k fun r => { r with killing := true, dead := true, making := false }).hold k

/-- `task_from_handle`, `task_export_cap`: the retained object, if it is a task. -/
def taskFromHandle (owner : TaskId) (handle : Nat) (rights : U32) : TaskLife :=
  match (s.task owner).handles.withRights handle rights with
  | some (.task k) => s.taskRetain k
  | _ => s

def taskGrantTask (slab : Bool) (s : TaskLife) (owner target : TaskId) (rights : U32) : TaskLife :=
  if (s.task target).dead then s
  else match (s.task owner).handles.grantObj slab (.task target) rights with
    | (_, table, true) =>
      (s.modify owner fun r => { r with handles := table }).modify target fun r =>
        { r with refCount := r.refCount + 1 }
    | (_, _, false) => s

/-- `task_close_handle` up to its `task_handle_release`. -/
def taskCloseHandle (owner : TaskId) (handle : Nat) : TaskLife :=
  match (s.task owner).handles.clear handle with
  | some (.task k, table) => (s.modify owner fun r => { r with handles := table }).hold k
  | some (_, table) => s.modify owner fun r => { r with handles := table }
  | none => s

/-- The handles `task_clone_handles` can copy: all but those on a task it cannot retain. -/
def cloneable (src : TaskId) : HandleTable :=
  (s.task src).handles.map fun e => e.filter fun h =>
    match h.obj with
    | .task k => k == src || (k != kernelTask && !(s.task k).dead)
    | _ => true

def taskCloneHandles (slab : Bool) (s : TaskLife) (dst src : TaskId) : TaskLife :=
  match (s.task dst).handles.taskCloneHandles slab (s.cloneable src) dst src with
  | none => s
  | some (table, copied) =>
    let s := s.modify dst fun r => { r with handles := table }
    { s with
      task := fun j =>
        let r := s.task j
        { r with refCount := r.refCount + (copied.map (·.obj)).count (.task j) } }

/-- `ipc_message_retain` for a message that carries the task. It ignores that `task_retain` fails:
the message has no reference of its own then, but it is released like any other. -/
def ipcMessageRetain : TaskLife :=
  if k = kernelTask ∨ (s.task k).dead then s.hold k else s.taskRetain k

def queue : TaskLife :=
  { s.unhold k with queued := update s.queued k (s.queued k + 1) }

def unqueue : TaskLife :=
  { s.hold k with queued := update s.queued k (s.queued k - 1) }

/-- `task_teardown`; what the table named is left to release. -/
def taskTeardown : TaskLife :=
  { s.modify k fun r =>
      { r with handles := [], replyPort := none, ownsVmSpace := false, teardowns := r.teardowns + 1 } with
    held := fun j => s.held j + s.slotsIn k j }

def taskRelease : TaskLife :=
  if k = kernelTask then s.unhold k
  else
    let s := (s.unhold k).modify k fun r => { r with refCount := r.refCount - 1 }
    if (s.task k).refCount = 0 ∧ (s.task k).dead then s.taskTeardown k else s

/-! ## Steps -/

inductive LifeOp where
  | create (ownsVmSpace : Bool)
  | threadCreate (k : TaskId)
  | threadExit (k : TaskId)
  | reap (k : TaskId)
  | kill (k : TaskId)
  | discard (k : TaskId)
  /-- `task_find_by_id_retain`. -/
  | findById (k : TaskId)
  | fromHandle (owner : TaskId) (handle : Nat) (rights : U32)
  | grant (owner target : TaskId) (rights : U32) (slab : Bool)
  | close (owner : TaskId) (handle : Nat)
  /-- A fork copies the table of the parent to the task it has just made. -/
  | clone (dst src : TaskId) (slab : Bool)
  | setReplyPort (k : TaskId) (p : PortId)
  | messageRetain (k : TaskId)
  | messageQueue (k : TaskId)
  | messageTake (k : TaskId)
  | release (k : TaskId)
  /-- The creator is done with the task. -/
  | made (k : TaskId)
deriving DecidableEq, Repr

def step : LifeOp → Option TaskLife
  | .create ownsVmSpace => some (s.taskCreate ownsVmSpace)
  | .threadCreate k => if s.usable k then some (s.threadCreate k) else none
  | .threadExit k => if 0 < (s.task k).live then some (s.threadExit k) else none
  | .reap k => if 0 < (s.task k).exited then some (s.schedReapThread k) else none
  | .kill k => if s.usable k then some (s.taskKill k) else none
  | .discard k => if (s.task k).making then some (s.taskDiscardUnstarted k) else none
  | .findById k =>
    -- `task_teardown` takes the task out of the tree of ids
    if k < s.nextTask ∧ (s.task k).teardowns = 0 then some (s.taskRetain k) else none
  | .fromHandle owner handle rights =>
    if s.usable owner then some (s.taskFromHandle owner handle rights) else none
  | .grant owner target rights slab =>
    if s.usable owner ∧ s.usable target then some (s.taskGrantTask slab owner target rights) else none
  | .close owner handle => if s.usable owner then some (s.taskCloseHandle owner handle) else none
  | .clone dst src slab =>
    if (s.task dst).making ∧ (s.task dst).dead = false ∧ (s.task dst).handles = [] ∧ s.usable src
    then some (s.taskCloneHandles slab dst src) else none
  | .setReplyPort k p =>
    if s.usable k then some (s.modify k fun r => { r with replyPort := some p }) else none
  | .messageRetain k => if 0 < s.held k then some (s.ipcMessageRetain k) else none
  | .messageQueue k => if 0 < s.held k then some (s.queue k) else none
  | .messageTake k => if 0 < s.queued k then some (s.unqueue k) else none
  | .release k => if 0 < s.held k then some (s.taskRelease k) else none
  | .made k =>
    if (s.task k).making then some (s.modify k fun r => { r with making := false }) else none

end TaskLife

end Bunix.Kernel
