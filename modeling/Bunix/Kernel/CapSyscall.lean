import Bunix.Kernel.CapSystem

/-! # Capabilities: the system calls

The native system calls of `arch/x86_64/user.c` that move references, with what they call in
`kernel/server.c`, `kernel/sched.c` and `kernel/ipc.c`, as programs of the actions of
`CapSystem`, and the system of threads that run them. What a call reads from user memory and
whether it can write there is part of its arguments. Results are numbers, `-1` for `(u64)-1`.
-/
namespace Bunix.Kernel

open Bunix.Lib Prog Function

abbrev CapProg := Prog CapAct CapAct.Res

structure UserIpcMessage where
  protocol : U32
  type : U32
  sender : TaskId := 0
  capRights : U32
  reply : Nat
  cap : Nat
  words : List U64
deriving DecidableEq, Repr

namespace CapProg

variable (k : TaskId) (handle buf : Nat)

def act (a : CapAct) : CapProg a.Res := perform a

/-- `ipc_port_release` and the like do nothing for a null pointer. -/
def releaseAll : List Obj → CapProg Unit
  | [] => pure ()
  | o :: os => do
    act (.release o)
    releaseAll os

def retainAll : List Obj → CapProg Unit
  | [] => pure ()
  | o :: os => do
    act (.retain o)
    retainAll os

def ipcMessageRetain (m : IpcMessage) : CapProg Unit := retainAll m.refs

def ipcMessageRelease (m : IpcMessage) : CapProg Unit := releaseAll m.refs

def releasePorts (ps : List PortId) : CapProg Unit := releaseAll (ps.map .port)

def validRights : U32 := taskRightSend ||| taskRightRecv ||| taskRightDup

/-- The capability part of `user_message_to_ipc`. When `cap_rights` is 0 the object has been
exported before the call fails, and `message` does not name it. -/
def attachCap (user : UserIpcMessage) (message : IpcMessage) : CapProg (Bool × IpcMessage) :=
  if user.cap = 0 then
    pure (true, { message with words := user.words })
  else
    if user.capRights &&& ~~~validRights ≠ 0 then
      pure (false, message)
    else do
      match ← act (.exportCap user.cap (user.capRights ||| taskRightDup)) with
      | none => pure (false, message)
      | some o =>
        if user.capRights = 0 then
          pure (false, message)
        else
          pure (true, { message with cap := some o, words := user.words })

/-- The fields `user_message_to_ipc` sets first. -/
def newMessage (user : UserIpcMessage) (replyPort : Option PortId) : IpcMessage :=
  { protocol := user.protocol, type := user.type, sender := 0, capRights := user.capRights
    replyPort, cap := none, words := [] }

/-- Whether the message could be made, and the message as far as it got. -/
def userMessageToIpc (user : UserIpcMessage) : CapProg (Bool × IpcMessage) := do
  let replyPort ← act (.portFromHandle user.reply taskRightSend)
  if user.cap = 0 ∧ user.capRights ≠ 0 then
    pure (false, newMessage user replyPort)
  else
    attachCap user (newMessage user replyPort)

/-- A grant of an object that may be null. -/
def grantOpt (o : Option Obj) (rights : U32) (how : How) : CapProg Nat :=
  match o with
  | none => pure 0
  | some o => act (.grant k o rights how)

def ipcMessageToUser (message : IpcMessage) : CapProg UserIpcMessage := do
  let reply ← grantOpt k (message.replyPort.map .port) taskRightSend (.reply message.sender)
  let cap ← grantOpt k message.cap message.capRights (.cap message.sender)
  pure { protocol := message.protocol, type := message.type, sender := message.sender
         capRights := message.capRights, reply, cap, words := message.words }

/-- `ipc_send` of a message that has its sender: true for 0, false for -1. -/
def sendMessage (p : PortId) (message : IpcMessage) : CapProg Bool := do
  ipcMessageRetain message
  match ← act (.sendDirect p message) with
  | some receiver =>
    if message.replyPort = none then
      act (.handoff receiver)
    else do
      act (.unblock receiver)
      pure true
  | none => do
    ipcMessageRelease message
    if ← act .messageAlloc then do
      ipcMessageRetain message
      match ← act (.sendQueue p message) with
      | some receiver => do
        act (.unblock receiver)
        pure true
      | none => pure true
    else
      pure false

/-- `ipc_send` of a thread of task `k`. -/
def ipcSend (p : PortId) (message : IpcMessage) : CapProg Bool :=
  sendMessage p { message with sender := k }

/-- `ipc_recv` and, behind its checks, `ipc_recv_any`. -/
def ipcRecv (call : RecvCall) : CapProg (Nat × IpcMessage) := do
  match ← act (.recvBegin call) with
  | .inr r => pure r
  | .inl w => act (.recvWait w call)

/-- The arguments are checked before anything else happens. -/
def ipcRecvAny (ps : List PortId) : CapProg (Option (Nat × IpcMessage)) :=
  if (RecvCall.recvAny ps).valid then do
    let r ← ipcRecv (.recvAny ps)
    pure (some r)
  else
    pure none

/-- `arg1` is the address of the message and `copyIn` what can be read there. -/
def nativeSysIpcSend (copyIn : Option UserIpcMessage) : CapProg Int := do
  match ← act (.portFromHandle handle taskRightSend) with
  | none => pure (-1)
  | some port =>
    match if buf = 0 then none else copyIn with
    | none => do
      act (.release (.port port))
      pure (-1)
    | some user => do
      let (ok, message) ← userMessageToIpc user
      if ok then do
        let sent ← ipcSend k port message
        ipcMessageRelease message
        act (.release (.port port))
        pure (if sent then 0 else -1)
      else do
        ipcMessageRelease message
        act (.release (.port port))
        pure (-1)

/-- What the receiving calls end with: give the message to the user, drop it and the ports. -/
def deliver (ports : List PortId) (message : IpcMessage) (copyOut : Bool) : CapProg Int := do
  let _ ← ipcMessageToUser k message
  ipcMessageRelease message
  releasePorts ports
  pure (if copyOut then 0 else -1)

def nativeSysIpcRecv (copyOut : Bool) : CapProg Int := do
  match ← act (.portFromHandle handle taskRightRecv) with
  | none => pure (-1)
  | some port =>
    if buf = 0 then do
      act (.release (.port port))
      pure (-1)
    else do
      let (_, message) ← ipcRecv (.recv port)
      deliver k [port] message copyOut

def nativeSysIpcTryRecv (copyOut : Bool) : CapProg Int := do
  match ← act (.portFromHandle handle taskRightRecv) with
  | none => pure (-1)
  | some port =>
    if buf = 0 then do
      act (.release (.port port))
      pure (-1)
    else do
      match ← act (.tryTake port) with
      | none => do
        act (.release (.port port))
        pure 1
      | some message => deliver k [port] message copyOut

/-- The loop over the handles of `native_sys_ipc_recv_any`, which drops what it has on failure. -/
def portsFromHandles : List Nat → List PortId → CapProg (Option (List PortId))
  | [], ports => pure (some ports)
  | handle :: handles, ports => do
    match ← act (.portFromHandle handle taskRightRecv) with
    | none => do
      releasePorts ports
      pure none
    | some port => portsFromHandles handles (ports ++ [port])

/-- `handles` is the array at `arg0`, of `arg1` numbers, and `copyIn` whether it can be read. -/
def nativeSysIpcRecvAny (handlesBuf messageBuf indexBuf : Nat) (handles : List Nat)
    (copyIn copyOut : Bool) : CapProg Int :=
  if handlesBuf = 0 ∨ messageBuf = 0 ∨ indexBuf = 0 ∨ handles = [] ∨
      ipcRecvAnyMax < handles.length ∨ copyIn = false then
    pure (-1)
  else do
    match ← portsFromHandles handles [] with
    | none => pure (-1)
    | some ports => do
      match ← ipcRecvAny ports with
      | none => do
        releasePorts ports
        pure (-1)
      | some (_, message) => deliver k ports message copyOut

/-- The reply port of the task takes the place of the one in the message. -/
def nativeSysIpcCall (replyBuf : Nat) (copyIn : Option UserIpcMessage) (copyOut : Bool) :
    CapProg Int := do
  let port ← act (.portFromHandle handle taskRightSend)
  let replyPort ← act .replyPort
  match port, replyPort, (if buf = 0 ∨ replyBuf = 0 then none else copyIn) with
  | some port, some replyPort, some user => do
    let (ok, message) ← userMessageToIpc user
    if ok then do
      releasePorts message.replyPort.toList
      let message := { message with replyPort := some replyPort }
      act (.retain (.port replyPort))
      let sent ← ipcSend k port message
      ipcMessageRelease message
      if sent then do
        let (_, reply) ← ipcRecv (.recv replyPort)
        deliver k [port] reply copyOut
      else do
        act (.release (.port port))
        pure (-1)
    else do
      ipcMessageRelease message
      act (.release (.port port))
      pure (-1)
  | port, _, _ => do
    releasePorts port.toList
    pure (-1)

/-- `copyIn` is whether the name can be read. -/
def nativeSysPortCreate (copyIn : Bool) : CapProg Int :=
  if copyIn then do
    let port ← act .createPort
    let handle ← grantOpt k (port.map .port) validRights .created
    pure handle
  else
    pure (-1)

def bufferMaxSize : Nat := 2 * 1024 * 1024

def nativeSysBufferCreate (size : Nat) : CapProg Int :=
  if size = 0 ∨ bufferMaxSize < size then
    pure (-1)
  else do
    match ← act .createBuffer with
    | none => pure (-1)
    | some b => do
      let handle ← act (.grant k (.buffer b) validRights
        .created)
      act (.release (.buffer b))
      pure (if handle = 0 then -1 else handle)

def taskCloseHandle : CapProg Bool := do
  match ← act (.clearHandle k handle) with
  | none => pure false
  | some o => do
    act (.release o)
    pure true

def nativeSysHandleClose : CapProg Int := do
  let closed ← taskCloseHandle k handle
  pure (if closed then 0 else -1)

def taskGrantInheritedHandle (dst src : TaskId) (handle : Nat) (rights : U32) : CapProg Nat := do
  match ← act (.inherit handle rights) with
  | none => pure 0
  | some o => do
    let granted ← act (.grant dst o rights (.inherited src))
    act (.release o)
    pure granted

def serverTaskGrantTagged (taskHandle handle : Nat) (rights tag : U32) : CapProg Nat := do
  match ← act (.taskFromHandle taskHandle taskRightSend) with
  | none => pure 0
  | some task => do
    let childHandle ← taskGrantInheritedHandle task k handle rights
    if childHandle ≠ 0 ∧ tag ≠ 0 then do
      if ← act (.setHandleTag task childHandle tag) then do
        act (.release (.task task))
        pure childHandle
      else do
        let _ ← taskCloseHandle task childHandle
        act (.release (.task task))
        pure 0
    else do
      act (.release (.task task))
      pure childHandle

/-- `server_task_grant`. -/
def nativeSysTaskGrant (taskHandle handle : Nat) (rights : U32) : CapProg Int := do
  let childHandle ← serverTaskGrantTagged k taskHandle handle rights 0
  pure (if childHandle = 0 then -1 else 0)

def nativeSysTaskGrantTagged (taskHandle handle : Nat) (rights tag : U32) : CapProg Int := do
  let childHandle ← serverTaskGrantTagged k taskHandle handle rights tag
  pure childHandle

structure LaunchCap where
  handle : Nat
  rights : U32
  tag : U32
deriving DecidableEq, Repr

def maxInheritedHandles : Nat := 16

def validateInheritedCaps : List LaunchCap → CapProg Bool
  | [] => pure true
  | cap :: caps =>
    if cap.tag = 0 then
      pure false
    else do
      if ← act (.canInherit cap.handle cap.rights) then
        validateInheritedCaps caps
      else
        pure false

/-- The loop of `launch_user_image`. -/
def inheritCaps (task k : TaskId) : List LaunchCap → CapProg Bool
  | [] => pure true
  | cap :: caps => do
    let childHandle ← taskGrantInheritedHandle task k cap.handle cap.rights
    if childHandle = 0 then
      pure false
    else do
      if ← act (.setHandleTag task childHandle cap.tag) then
        inheritCaps task k caps
      else
        pure false

/-- A new task with a service port of its own, and the task's handle on it. -/
def createTaskWithPort : CapProg (Option (TaskId × PortId)) := do
  match ← act .createTask with
  | none => pure none
  | some task =>
    match ← act .createPort with
    | none => pure none
    | some port =>
      let self ← act (.grant task (.port port) validRights
        .created)
      pure (if self = 0 then none else some (task, port))

/-- `server_launch_module_with_caps` for a module that is not running and has no port yet.
`imageOk` is whether the image, the stack and the thread can be set up. -/
def nativeSysLaunchModule (caps : List LaunchCap) (imageOk : Bool) : CapProg Int :=
  if maxInheritedHandles < caps.length then
    pure (-1)
  else do
    if ← validateInheritedCaps caps then do
      match ← createTaskWithPort with
      | none => pure (-1)
      | some (task, port) =>
        if ← inheritCaps task k caps then
          if imageOk then do
            let handle ← act (.grant k (.port port) (taskRightSend ||| taskRightDup) .created)
            pure handle
          else
            pure (-1)
        else
          pure (-1)
    else
      pure (-1)

def nativeSysTaskCreate (imageOk : Bool) : CapProg Int := do
  match ← createTaskWithPort with
  | none => pure (-1)
  | some (task, _) =>
    if imageOk then do
      let handle ← act (.grant k (.task task) (taskRightSend ||| taskRightDup) .created)
      pure handle
    else
      pure (-1)

/-- The handles in `server_task_fork_current_stopped`; `imageOk` is whether the address space can
be copied. A child that cannot be completed is discarded. -/
def serverTaskForkCurrentStopped (imageOk : Bool) : CapProg Int := do
  match ← act .createTask with
  | none => pure (-1)
  | some child =>
    if ← act (.cloneHandles child) then
      if imageOk then
        pure child
      else do
        let objs ← act (.takeTable child)
        releaseAll objs
        pure (-1)
    else do
      let objs ← act (.takeTable child)
      releaseAll objs
      pure (-1)

end CapProg

/-! ## Threads in system calls -/

inductive Syscall where
  | ipcSend (handle buf : Nat) (copyIn : Option UserIpcMessage)
  | ipcRecv (handle buf : Nat) (copyOut : Bool)
  | ipcTryRecv (handle buf : Nat) (copyOut : Bool)
  | ipcRecvAny (handlesBuf messageBuf indexBuf : Nat) (handles : List Nat) (copyIn copyOut : Bool)
  | ipcCall (handle buf replyBuf : Nat) (copyIn : Option UserIpcMessage) (copyOut : Bool)
  | portCreate (copyIn : Bool)
  | bufferCreate (size : Nat)
  | handleClose (handle : Nat)
  | taskGrant (taskHandle handle : Nat) (rights : U32)
  | taskGrantTagged (taskHandle handle : Nat) (rights tag : U32)
  | launchModule (caps : List CapProg.LaunchCap) (imageOk : Bool)
  | taskCreate (imageOk : Bool)
  | fork (imageOk : Bool)

/-- The code a thread of task `k` runs for a call. -/
def Syscall.prog (k : TaskId) : Syscall → CapProg Int
  | .ipcSend handle buf copyIn => CapProg.nativeSysIpcSend k handle buf copyIn
  | .ipcRecv handle buf copyOut => CapProg.nativeSysIpcRecv k handle buf copyOut
  | .ipcTryRecv handle buf copyOut => CapProg.nativeSysIpcTryRecv k handle buf copyOut
  | .ipcRecvAny handlesBuf messageBuf indexBuf handles copyIn copyOut =>
    CapProg.nativeSysIpcRecvAny k handlesBuf messageBuf indexBuf handles copyIn copyOut
  | .ipcCall handle buf replyBuf copyIn copyOut =>
    CapProg.nativeSysIpcCall k handle buf replyBuf copyIn copyOut
  | .portCreate copyIn => CapProg.nativeSysPortCreate k copyIn
  | .bufferCreate size => CapProg.nativeSysBufferCreate k size
  | .handleClose handle => CapProg.nativeSysHandleClose k handle
  | .taskGrant taskHandle handle rights => CapProg.nativeSysTaskGrant k taskHandle handle rights
  | .taskGrantTagged taskHandle handle rights tag =>
    CapProg.nativeSysTaskGrantTagged k taskHandle handle rights tag
  | .launchModule caps imageOk => CapProg.nativeSysLaunchModule k caps imageOk
  | .taskCreate imageOk => CapProg.nativeSysTaskCreate k imageOk
  | .fork imageOk => CapProg.serverTaskForkCurrentStopped imageOk

/-- Whether the call's result is an error: -1, or 0 where a handle is expected. -/
def Syscall.failed : Syscall → Int → Bool
  | .portCreate _, r | .taskGrantTagged .., r | .launchModule .., r | .taskCreate _, r =>
    r = -1 || r = 0
  | _, r => r = -1

/-- What is written down about a call: the objects there were when it began, how it has changed
each count so far, and whether it went smoothly: user memory could be written, the receiver of
a handed over message was still blocked, a granted handle was still there to be tagged. -/
structure CallInfo where
  sys : Syscall
  ids : ObjIds
  net : Obj → Int
  smooth : Bool

def Syscall.copiesOut : Syscall → Bool
  | .ipcRecv _ _ copyOut | .ipcTryRecv _ _ copyOut | .ipcRecvAny _ _ _ _ _ copyOut
  | .ipcCall _ _ _ _ copyOut => copyOut
  | _ => true

def CapAct.smooth (s : CapState) : CapAct → Bool
  | .handoff receiver => s.blocked receiver
  | .setHandleTag k handle _ => ((s.handles k).slot handle).isSome
  | _ => true

structure CapSystem where
  state : CapState
  prog : ThreadId → Option (CapProg Int)
  info : ThreadId → CallInfo
  /-- The calls that have returned, with their results. -/
  finished : List (CallInfo × Int)

inductive CapOp where
  | call (t : ThreadId) (sys : Syscall)
  | run (t : ThreadId) (slab : Bool)

namespace CapSystem

/-- How the record of a call changes with an action. -/
def recordAct (info : ThreadId → CallInfo) (t : ThreadId) (a : CapAct) (s s' : CapState) :
    ThreadId → CallInfo :=
  update info t { info t with
    net := fun o => (info t).net o + (s'.ref o - s.ref o)
    smooth := (info t).smooth && a.smooth s }

/-- An action together with what is written down about it. -/
def exec (cfg : CapConfig) (t : ThreadId) (slab : Bool) (a : CapAct)
    (x : CapState × (ThreadId → CallInfo)) :
    Option (Option a.Res × (CapState × (ThreadId → CallInfo))) :=
  (CapState.exec cfg t slab a x.1).map fun r =>
    (r.1, r.2, recordAct x.2 t a x.1 r.2)

/-- Thread `t` enters a system call, or takes its next step in one. -/
def step (cfg : CapConfig) (s : CapSystem) : CapOp → Option CapSystem
  | .call t sys =>
    if t < cfg.threadCount ∧ (s.prog t).isNone then
      some { s with
        prog := update s.prog t (some (sys.prog (cfg.taskOf t)))
        info := update s.info t ⟨sys, s.state.ids, fun _ => 0, sys.copiesOut⟩ }
    else none
  | .run t slab =>
    match s.prog t with
    | none => none
    | some (.ret r) =>
      some { s with
        prog := update s.prog t none
        finished := (s.info t, r) :: s.finished }
    | some p =>
      match p.step (exec cfg t slab) (s.state, s.info) with
      | none => none
      | some (p, state, info) => some { s with prog := update s.prog t (some p), state, info }

end CapSystem

end Bunix.Kernel
