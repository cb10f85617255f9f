import Bunix.Kernel.Ipc
import Bunix.Lib.Transition

/-! # Message delivery

Any number of threads that send and receive through the sections of `Ipc`, in any
interleaving. Each port has one thread that receives from it. A sender first tries to hand its
message over, then queues it, and in both cases wakes the receiver in a step of its own; by
then the receiver may have gone on, so wake-ups can be stale.
-/
namespace Bunix.Kernel

open Bunix.Lib Function

/-- A message with what identifies it: the sending thread and how many it had sent before. -/
structure Sent (α : Type) where
  thread : ThreadId
  seq : Nat
  port : PortId
  payload : α
deriving DecidableEq, Repr

/-- Where a thread is in the code of `ipc.c`. -/
inductive IpcPc (α : Type) where
  | idle
  /-- Between the two sections of `ipc_send`. -/
  | queueing (x : Sent α)
  /-- Behind the sections, before `thread_handoff` or `thread_unblock`. -/
  | waking (receiver : Option ThreadId) (handoff : Bool) (x : Sent α)
  /-- In `thread_block_prepared` of a receive call. -/
  | waiting (w : WaitId) (call : RecvCall)

/-- Not inside a send. -/
def IpcPc.Quiet {α : Type} : IpcPc α → Prop
  | .idle | .waiting .. => True
  | .queueing _ | .waking .. => False

structure IpcSystem (α : Type) where
  ipc : Ipc (Sent α)
  pc : ThreadId → IpcPc α
  /-- `THREAD_BLOCKED`, set by `thread_prepare_block`. -/
  blocked : ThreadId → Bool
  nextWait : WaitId
  /-- How many messages each thread has sent. -/
  seq : ThreadId → Nat
  /-- What receive calls on each port have returned, in order. -/
  returned : PortId → List (Sent α)
  /-- The messages whose `ipc_send` has returned 0. -/
  completed : List (Sent α)

inductive IpcOp (α : Type) where
  | send (t : ThreadId) (p : PortId) (payload : α)
  | queue (t : ThreadId) (alloc : Bool)
  | wake (t : ThreadId)
  | recv (t : ThreadId) (call : RecvCall)
  | resume (t : ThreadId)
  | tryRecv (t : ThreadId) (p : PortId)

namespace IpcSystem

variable {α : Type}

@[simps -fullyApplied ipc returned nextWait]
def setPc (s : IpcSystem α) (t : ThreadId) (pc : IpcPc α) : IpcSystem α :=
  { s with pc := update s.pc t pc }

/-- Record that a receive call on port `p` returned `x`. -/
@[simps -fullyApplied pc ipc nextWait]
def log (s : IpcSystem α) (p : PortId) (x : Sent α) : IpcSystem α :=
  { s with returned := update s.returned p (s.returned p ++ [x]) }

/-- What a section of a receive call means for its thread: the call returns, or the thread
blocks. -/
def settle (s : IpcSystem α) (t : ThreadId) (w : WaitId) (call : RecvCall)
    (r : Option (Nat × Sent α) × Ipc (Sent α)) : IpcSystem α :=
  match r.1 with
  | some (i, x) =>
    let s := { s with ipc := r.2 }.setPc t .idle
    match call.ports[i]? with
    | some p => s.log p x
    | none => s
  | none => { s with ipc := r.2, blocked := update s.blocked t true }.setPc t (.waiting w call)

/-- One step; `none` when the thread is elsewhere. `wantsReply` tells the messages with a reply
port, for which `ipc_send` does not hand off; thread `owner p` receives from port `p`. -/
def step (wantsReply : α → Bool) (owner : PortId → ThreadId) (s : IpcSystem α) :
    IpcOp α → Option (IpcSystem α)
  | .send t p payload =>
    match s.pc t with
    | .idle =>
      let x : Sent α := ⟨t, s.seq t, p, payload⟩
      let s := { s with seq := update s.seq t (s.seq t + 1) }
      match s.ipc.sendDirect p x with
      | some (r, ipc) => some ({ s with ipc }.setPc t (.waking (some r) (!wantsReply payload) x))
      | none => some (s.setPc t (.queueing x))
    | _ => none
  | .queue t alloc =>
    match s.pc t with
    | .queueing x =>
      if alloc then
        let r := s.ipc.sendQueue x.port x
        some ({ s with ipc := r.2 }.setPc t (.waking r.1 false x))
      -- `message_alloc` failed: -1
      else some (s.setPc t .idle)
    | _ => none
  | .wake t =>
    match s.pc t with
    | .waking receiver handoff x =>
      -- a handoff to a thread that is not blocked is `THREAD_HANDOFF_INVALID`: -1
      let failed := handoff && receiver.all fun r => !s.blocked r
      let blocked := match receiver with
        | none => s.blocked
        | some r => update s.blocked r false
      let completed := if failed then s.completed else x :: s.completed
      some ({ s with blocked, completed }.setPc t .idle)
    | _ => none
  | .recv t call =>
    match s.pc t with
    | .idle =>
      if ∀ p ∈ call.ports, owner p = t then
        if call.valid then
          let w := s.nextWait
          some ({ s with nextWait := w + 1 }.settle t w call
            ((s.ipc.setWait w none).recvRound t w call))
        else some s
      else none
    | _ => none
  | .resume t =>
    match s.pc t with
    | .waiting w call =>
      if s.blocked t then none else some (s.settle t w call (s.ipc.recvResume t w call))
    | _ => none
  | .tryRecv t p =>
    match s.pc t with
    | .idle =>
      if owner p = t then
        match s.ipc.take p with
        | none => some s
        | some (x, ipc) => some ({ s with ipc }.log p x)
      else none
    | _ => none

/-- No thread is in a call, no port has a message or a receiver. -/
structure Init (s : IpcSystem α) : Prop where
  pc_eq : ∀ t, s.pc t = .idle
  ports_eq : ∀ p, s.ipc.ports p = {}
  returned_eq : ∀ p, s.returned p = []
  completed_eq : s.completed = []

/-! ## Where a message is -/

inductive Loc where
  /-- At position `i` of the queue of port `p`. -/
  | queued (p : PortId) (i : Nat)
  /-- In the `ipc_wait` of thread `t`, which has not run since. -/
  | inWait (t : ThreadId)
  /-- Returned by the `i`-th successful receive call on port `p`. -/
  | returned (p : PortId) (i : Nat)
deriving DecidableEq, Repr

/-- What has been delivered to the wait record of a thread that is still in its call. -/
def delivered (s : IpcSystem α) (t : ThreadId) : Option (Sent α × Nat) :=
  match s.pc t with
  | .waiting w _ => s.ipc.waits w
  | _ => none

def find (s : IpcSystem α) : Loc → Option (Sent α)
  | .queued p i => (s.ipc.ports p).queue[i]?
  | .inWait t => (s.delivered t).map Prod.fst
  | .returned p i => (s.returned p)[i]?

/-- The place is one of port `p`, which thread `owner p` receives from. -/
def Loc.On (owner : PortId → ThreadId) (p : PortId) : Loc → Prop
  | .queued q _ => q = p
  | .inWait t => t = owner p
  | .returned q _ => q = p

/-- Exactly once: each message is in one place at most, on the port it was sent to, and a
completed one is in exactly one. -/
structure ExactlyOnce (owner : PortId → ThreadId) (s : IpcSystem α) : Prop where
  unique : ∀ x l l', s.find l = some x → s.find l' = some x → l = l'
  completed : ∀ x ∈ s.completed, ∃ l, s.find l = some x
  port : ∀ x l, s.find l = some x → l.On owner x.port

/-- Per-sender FIFO: messages of one thread are returned by a port in the order of sending. -/
def SenderFifo (s : IpcSystem α) : Prop :=
  ∀ p i j x y, s.find (.returned p i) = some x → s.find (.returned p j) = some y →
    x.thread = y.thread → x.seq < y.seq → i < j

end IpcSystem

end Bunix.Kernel
