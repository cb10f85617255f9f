import Bunix.Kernel.Handles
import Bunix.Lib.Prog
import Bunix.Lib.Transition

/-! # Capabilities: the shared state and its atomic actions

Tasks hold handles on objects, messages carry a capability and a reply port, and every object
counts its references. This module has the state the system calls work on and the sections of
code that run under one lock; `CapSyscall` puts them together.

Left out is the death of tasks: nothing here kills one.
-/
namespace Bunix.Kernel

open Bunix.Lib Function

/-- `struct ipc_message`. The sender is the id of a task. -/
structure IpcMessage where
  protocol : U32
  type : U32
  sender : TaskId
  capRights : U32
  replyPort : Option PortId
  /-- `cap_type` and `cap_object`. -/
  cap : Option Obj
  words : List U64
deriving DecidableEq, Repr

/-- What the message holds a reference to. -/
def IpcMessage.refs (m : IpcMessage) : List Obj := m.cap.toList ++ (m.replyPort.map Obj.port).toList

/-- How many objects of a kind have been created; the next one gets this number. Hardware
resources and scheduler policies are not created here. -/
structure ObjIds where
  task : Nat
  port : Nat
  buffer : Nat
deriving DecidableEq, Repr

def Obj.Exists (ids : ObjIds) : Obj → Prop
  | .port p => p < ids.port
  | .buffer b => b < ids.buffer
  | .task k => k < ids.task
  | .hwResource _ | .schedPolicy _ => True

instance (ids : ObjIds) (o : Obj) : Decidable (o.Exists ids) := by
  cases o <;> unfold Obj.Exists <;> infer_instance

/-- How a handle came into a table, for the record. -/
inductive How where
  /-- The kernel made the object and gave the first handles on it. -/
  | created
  /-- The capability of a message of the given task. -/
  | cap (sender : TaskId)
  /-- The reply port of a message of the given task. -/
  | reply (sender : TaskId)
  /-- `task_grant_inherited_handle` on behalf of the given task. -/
  | inherited (src : TaskId)
  /-- A fork of the given task. -/
  | forked (src : TaskId)
deriving DecidableEq, Repr

structure Acquired where
  task : TaskId
  obj : Obj
  rights : U32
  how : How
deriving DecidableEq, Repr

/-- What does not change: the threads, the task of each, and which hardware resources have
`TASK_HW_RESOURCE_OWNED`. -/
structure CapConfig where
  threadCount : Nat
  taskOf : ThreadId → TaskId
  hwOwned : Nat → Bool

structure CapState where
  ids : ObjIds
  handles : TaskId → HandleTable
  replyPort : TaskId → Option PortId
  ref : Obj → Nat
  ipc : Ipc IpcMessage
  nextWait : WaitId
  /-- The wait record and the receive call of a thread that is in `thread_block_prepared`. -/
  waiting : ThreadId → Option (WaitId × RecvCall)
  /-- `THREAD_BLOCKED`. -/
  blocked : ThreadId → Bool
  /-- Every slot that was filled, newest first. -/
  acquired : List Acquired

/-- The actions: one section of code under a lock each. -/
inductive CapAct where
  | portFromHandle (handle : Nat) (rights : U32)
  | taskFromHandle (handle : Nat) (rights : U32)
  | exportCap (handle : Nat) (rights : U32)
  | canInherit (handle : Nat) (rights : U32)
  | inherit (handle : Nat) (rights : U32)
  | grant (task : TaskId) (o : Obj) (rights : U32) (how : How)
  | setHandleTag (task : TaskId) (handle : Nat) (tag : U32)
  | clearHandle (task : TaskId) (handle : Nat)
  | cloneHandles (dst : TaskId)
  | takeTable (task : TaskId)
  | retain (o : Obj)
  | release (o : Obj)
  | replyPort
  | createPort
  | createBuffer
  | createTask
  | sendDirect (p : PortId) (m : IpcMessage)
  | messageAlloc
  | sendQueue (p : PortId) (m : IpcMessage)
  | handoff (receiver : ThreadId)
  | unblock (receiver : ThreadId)
  | recvBegin (call : RecvCall)
  | recvWait (w : WaitId) (call : RecvCall)
  | tryTake (p : PortId)

@[reducible] def CapAct.Res : CapAct → Type
  | .portFromHandle .. => Option PortId
  | .taskFromHandle .. => Option TaskId
  | .exportCap .. => Option Obj
  | .canInherit .. => Bool
  | .inherit .. => Option Obj
  | .grant .. => Nat
  | .setHandleTag .. => Bool
  | .clearHandle .. => Option Obj
  | .cloneHandles _ => Bool
  | .takeTable _ => List Obj
  | .retain _ => Unit
  | .release _ => Unit
  | .replyPort => Option PortId
  | .createPort => Option PortId
  | .createBuffer => Option Nat
  | .createTask => Option TaskId
  | .sendDirect .. => Option ThreadId
  | .messageAlloc => Bool
  | .sendQueue .. => Option ThreadId
  | .handoff _ => Bool
  | .unblock _ => Unit
  | .recvBegin _ => WaitId ⊕ (Nat × IpcMessage)
  | .recvWait .. => Nat × IpcMessage
  | .tryTake _ => Option IpcMessage

namespace CapState

variable (cfg : CapConfig) (slab : Bool) (k : TaskId) (handle : Nat) (s : CapState)

/-- Hardware resources that are not owned have no count. -/
def counted : Obj → Bool
  | .hwResource r => cfg.hwOwned r
  | _ => true

def retain (o : Obj) : CapState :=
  if counted cfg o then { s with ref := update s.ref o (s.ref o + 1) } else s

/-- A count of zero stays; what happens to an object then is not modelled. -/
def release (o : Obj) : CapState :=
  if counted cfg o then { s with ref := update s.ref o (s.ref o - 1) } else s

def setTable (k : TaskId) (table : HandleTable) : CapState :=
  { s with handles := update s.handles k table }

/-- A lookup under the lock of the task: the object is retained before the lock is dropped. -/
def lookup (found : Option Obj) : Option Obj × CapState :=
  match found with
  | some o => (some o, s.retain cfg o)
  | none => (none, s)

def portFromHandle (rights : U32) (s : CapState) : Option PortId × CapState :=
  match (s.handles k).withRights handle rights with
  | some (.port p) => (some p, s.retain cfg (.port p))
  | _ => (none, s)

def taskFromHandle (rights : U32) (s : CapState) : Option TaskId × CapState :=
  match (s.handles k).withRights handle rights with
  | some (.task k') => (some k', s.retain cfg (.task k'))
  | _ => (none, s)

def taskExportCap (rights : U32) (s : CapState) : Option Obj × CapState :=
  s.lookup cfg ((s.handles k).withRights handle rights)

/-- The first section of `task_grant_inherited_handle`. -/
def inherit (rights : U32) (s : CapState) : Option Obj × CapState :=
  s.lookup cfg ((s.handles k).inheritable handle rights)

/-- `task_grant_port` and the others: the handle, 0 on failure. -/
def grant (o : Obj) (rights : U32) (how : How) (s : CapState) : Nat × CapState :=
  match (s.handles k).grantObj slab o rights with
  | (handle, table, true) =>
    (handle, ({ s with acquired := ⟨k, o, rights, how⟩ :: s.acquired }.setTable k table).retain cfg o)
  | (handle, _, false) => (handle, s)

def clearHandle : Option Obj × CapState :=
  match (s.handles k).clear handle with
  | some (o, table) => (some o, s.setTable k table)
  | none => (none, s)

def setHandleTag (tag : U32) (s : CapState) : Bool × CapState :=
  let (ok, table) := (s.handles k).taskSetHandleTag handle tag
  (ok, s.setTable k table)

/-- What a copied handle is on record as: the child's handle on itself is a new one. -/
def clonedFrom (src dst : TaskId) (h : TaskHandle) : Acquired :=
  ⟨dst, h.obj, h.rights, if h.obj = .task dst then .created else .forked src⟩

def cloneHandles (src dst : TaskId) (s : CapState) : Bool × CapState :=
  match (s.handles dst).taskCloneHandles slab (s.handles src) dst src with
  | some (table, copies) =>
    let acquired := copies.map (clonedFrom src dst) ++ s.acquired
    (true, copies.foldl (fun s h => s.retain cfg h.obj) ({ s with acquired }.setTable dst table))
  | none => (false, s)

/-- The section of `task_teardown` that takes the handles away from a task. -/
def takeTable : List Obj × CapState :=
  ((s.handles k).filterMap fun e => e.map (·.obj), s.setTable k [])

/-- `ipc_port_create_private`: a port without references. -/
def createPort : Option PortId × CapState :=
  if slab then (some s.ids.port, { s with ids := { s.ids with port := s.ids.port + 1 } })
  else (none, s)

/-- `buffer_create` gives its caller the first reference. -/
def createBuffer : Option Nat × CapState :=
  if slab then
    (some s.ids.buffer, { s with
      ids := { s.ids with buffer := s.ids.buffer + 1 }
      ref := update s.ref (.buffer s.ids.buffer) 1 })
  else (none, s)

def createTask : Option TaskId × CapState :=
  if slab then
    (some s.ids.task, { s with
      ids := { s.ids with task := s.ids.task + 1 }
      ref := update s.ref (.task s.ids.task) 1 })
  else (none, s)

/-- `task_reply_port` makes the port at the first call and keeps one reference. -/
def taskReplyPort : Option PortId × CapState :=
  match s.replyPort k with
  | some p => (some p, s)
  | none =>
    match s.createPort slab with
    | (some p, s) =>
      (some p, { s with replyPort := update s.replyPort k (some p) }.retain cfg (.port p))
    | (none, s) => (none, s)

/-- The section of `ipc_send` that tries to hand the message over. -/
def sendDirect (p : PortId) (m : IpcMessage) (s : CapState) : Option ThreadId × CapState :=
  match s.ipc.sendDirect p m with
  | some (r, ipc) => (some r, { s with ipc })
  | none => (none, s)

def sendQueue (p : PortId) (m : IpcMessage) (s : CapState) : Option ThreadId × CapState :=
  let (receiver, ipc) := s.ipc.sendQueue p m
  (receiver, { s with ipc })

def unblock (r : ThreadId) (s : CapState) : CapState :=
  { s with blocked := update s.blocked r false }

/-- A round of a receive call that found nothing: registered, and blocked. -/
def block (t : ThreadId) (w : WaitId) (call : RecvCall) (ipc : Ipc IpcMessage) (s : CapState) :
    CapState :=
  { s with
    ipc
    waiting := update s.waiting t (some (w, call))
    blocked := update s.blocked t true }

/-- The first round of a receive call. -/
def recvBegin (t : ThreadId) (call : RecvCall) (s : CapState) :
    (WaitId ⊕ (Nat × IpcMessage)) × CapState :=
  let w := s.nextWait
  let s := { s with ipc := s.ipc.setWait w none, nextWait := w + 1 }
  match s.ipc.recvRound t w call with
  | (some r, ipc) => (.inr r, { s with ipc })
  | (none, ipc) => (.inl w, s.block t w call ipc)

/-- The section a receiver enters when it runs again: it has its message, or blocks once more. -/
def recvWait (t : ThreadId) (w : WaitId) (call : RecvCall) (s : CapState) :
    Option (Nat × IpcMessage) × CapState :=
  match s.ipc.recvResume t w call with
  | (some r, ipc) => (some r, { s with ipc, waiting := update s.waiting t none })
  | (none, ipc) => (none, s.block t w call ipc)

def tryTake (p : PortId) (s : CapState) : Option IpcMessage × CapState :=
  match s.ipc.take p with
  | some (m, ipc) => (some m, { s with ipc })
  | none => (none, s)

/-- One action of thread `t`; `slab` tells whether an allocation in it succeeds. -/
def exec (t : ThreadId) (slab : Bool) :
    (a : CapAct) → CapState → Option (Option a.Res × CapState)
  | .portFromHandle handle rights, s =>
    some ((s.portFromHandle cfg (cfg.taskOf t) handle rights).map some id)
  | .taskFromHandle handle rights, s =>
    some ((s.taskFromHandle cfg (cfg.taskOf t) handle rights).map some id)
  | .exportCap handle rights, s =>
    some ((s.taskExportCap cfg (cfg.taskOf t) handle rights).map some id)
  | .canInherit handle rights, s =>
    some (some ((s.handles (cfg.taskOf t)).inheritable handle rights).isSome, s)
  | .inherit handle rights, s => some ((s.inherit cfg (cfg.taskOf t) handle rights).map some id)
  | .grant k o rights how, s => some ((s.grant cfg slab k o rights how).map some id)
  | .setHandleTag k handle tag, s => some ((s.setHandleTag k handle tag).map some id)
  | .clearHandle k handle, s => some ((s.clearHandle k handle).map some id)
  | .cloneHandles dst, s => some ((s.cloneHandles cfg slab (cfg.taskOf t) dst).map some id)
  | .takeTable k, s => some ((s.takeTable k).map some id)
  | .retain o, s => some (some (), s.retain cfg o)
  | .release o, s => some (some (), s.release cfg o)
  | .replyPort, s => some ((s.taskReplyPort cfg slab (cfg.taskOf t)).map some id)
  | .createPort, s => some ((s.createPort slab).map some id)
  | .createBuffer, s => some ((s.createBuffer slab).map some id)
  | .createTask, s => some ((s.createTask slab).map some id)
  | .sendDirect p m, s => some ((s.sendDirect p m).map some id)
  | .messageAlloc, s => some (some slab, s)
  | .sendQueue p m, s => some ((s.sendQueue p m).map some id)
  -- `THREAD_HANDOFF_INVALID` when the receiver is not blocked
  | .handoff r, s => some (some (s.blocked r), s.unblock r)
  | .unblock r, s => some (some (), s.unblock r)
  | .recvBegin call, s => some ((s.recvBegin t call).map some id)
  | .recvWait w call, s => if s.blocked t then none else some (s.recvWait t w call)
  | .tryTake p, s => some ((s.tryTake p).map some id)

end CapState

end Bunix.Kernel
