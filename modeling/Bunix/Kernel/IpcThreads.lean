import Bunix.Kernel.CapSystem
import Bunix.Kernel.IpcDelivery
import Bunix.Kernel.IpcWait

/-! # Threads in `ipc.c`

Any number of threads that send, receive and are killed, in any interleaving, with any number of
receivers on a port. `ipc_send` is split at the places where it holds no lock: it takes the
references of the message, tries to hand it over, drops the references again, allocates a node,
takes the references, queues the node, and wakes the receiver. `task_kill` marks a thread, takes
its registrations back with `ipc_cancel_thread`, unblocks it and reaps it if it has not run.
-/
namespace Bunix.Kernel

open Bunix.Lib Function

inductive ThreadPc where
  | idle
  /-- In `ipc_send`, with the references of `direct_message`, before the first section. -/
  | sending (x : Sent IpcMessage)
  /-- Behind the first section, which found no receiver. -/
  | missed (x : Sent IpcMessage)
  /-- Before `message_alloc`. -/
  | allocating (x : Sent IpcMessage)
  /-- Before the second section, with the references of the node. -/
  | queueing (x : Sent IpcMessage)
  /-- Before `thread_handoff` or `thread_unblock`. -/
  | waking (receiver : Option ThreadId) (handoff : Bool) (x : Sent IpcMessage)
  /-- In `task_kill`, before `thread_unblock`. -/
  | cancelling (victim : ThreadId)
  /-- In `thread_block_prepared` of a receive call. -/
  | waiting (w : WaitId) (call : RecvCall)
  | dead
deriving DecidableEq

structure IpcThreads where
  ipc : Ipc (Sent IpcMessage)
  pc : ThreadId → ThreadPc
  blocked : ThreadId → Bool
  wakeups : ThreadId → Nat
  killing : ThreadId → Bool
  /-- A thread has exited inside `ipc_lock`. -/
  locked : Bool
  nextWait : WaitId
  ref : Obj → Nat
  seq : ThreadId → Nat
  /-- How the send of a message has changed each count. -/
  net : Sent IpcMessage → Obj → Int
  /-- What receive calls on each port have returned, in order. -/
  returned : PortId → List (Sent IpcMessage)
  /-- The messages whose `ipc_send` has returned 0. -/
  completed : List (Sent IpcMessage)
  /-- The messages whose `ipc_send` has returned -1. -/
  failed : List (Sent IpcMessage)

inductive ThreadOp where
  | send (t : ThreadId) (p : PortId) (m : IpcMessage)
  | direct (t : ThreadId)
  | drop (t : ThreadId)
  | alloc (t : ThreadId) (ok : Bool)
  | queue (t : ThreadId)
  /-- `here`: the receiver is on this CPU and no handoff is in progress on it. -/
  | wake (t : ThreadId) (here : Bool)
  | recv (t : ThreadId) (call : RecvCall)
  | resume (t : ThreadId)
  | tryRecv (t : ThreadId) (p : PortId)
  | kill (t : ThreadId)
  | cancel (t victim : ThreadId)
  | unblock (t : ThreadId)
  | reap (t : ThreadId)
deriving DecidableEq

def ThreadOp.thread : ThreadOp → ThreadId
  | .send t _ _ | .direct t | .drop t | .alloc t _ | .queue t | .wake t _ | .recv t _ | .resume t
  | .tryRecv t _ | .kill t | .cancel t _ | .unblock t | .reap t => t

/-- The loop of `ipc_cancel_thread` over all ports. -/
def Ipc.cancelThread {M : Type} (s : Ipc M) (t : ThreadId) : Ipc M :=
  { s with ports := fun p =>
      if (s.ports p).receiver = some t then { s.ports p with receiver := none, receiverWait := none }
      else s.ports p }

namespace IpcThreads

variable (s : IpcThreads) (t : ThreadId)

def setPc (pc : ThreadPc) : IpcThreads :=
  { s with pc := update s.pc t pc }

/-- `ipc_message_retain` in the send of `x`. -/
def retain (x : Sent IpcMessage) : IpcThreads :=
  { s with
    ref := fun o => s.ref o + x.payload.refs.count o
    net := update s.net x fun o => s.net x o + x.payload.refs.count o }

/-- `ipc_message_release` in the send of `x`. -/
def release (x : Sent IpcMessage) : IpcThreads :=
  { s with
    ref := fun o => s.ref o - x.payload.refs.count o
    net := update s.net x fun o => s.net x o - x.payload.refs.count o }

def threadUnblock : Option ThreadId → IpcThreads
  | none => s
  | some r =>
    if s.blocked r then
      { s with
        blocked := update s.blocked r false
        wakeups := update s.wakeups r (s.wakeups r + 1) }
    else s

/-- Whether `thread_handoff` refuses: the receiver is not blocked any more. -/
def handoffInvalid (receiver : Option ThreadId) : Bool :=
  receiver.all fun r => !s.blocked r

/-- The end of `ipc_send`. A killed sender does not come back from a handoff on its own CPU. -/
def sendEnd (receiver : Option ThreadId) (handoff here : Bool) (x : Sent IpcMessage) : IpcThreads :=
  if handoff then
    if s.handoffInvalid receiver then
      { s with failed := x :: s.failed }.setPc t .idle
    else if here && s.killing t then
      (s.threadUnblock receiver).setPc t .dead
    else
      { s.threadUnblock receiver with completed := x :: s.completed }.setPc t .idle
  else
    { s.threadUnblock receiver with completed := x :: s.completed }.setPc t .idle

/-- Record that a receive call on port `p` returned `x`. -/
def log (p : PortId) (x : Sent IpcMessage) : IpcThreads :=
  { s with returned := update s.returned p (s.returned p ++ [x]) }

/-- The port state a receive call leaves that does not come to register itself. -/
def abandoned : RecvCall → Ipc (Sent IpcMessage)
  | .recv _ => s.ipc
  | .recvAny ps => s.ipc.unregister t ps

/-- What a section of a receive call means for its thread: the call returns, or the thread
blocks. A killed thread exits in `thread_prepare_block`, which is called with the lock held. -/
def settle (w : WaitId) (call : RecvCall)
    (r : Option (Nat × Sent IpcMessage) × Ipc (Sent IpcMessage)) : IpcThreads :=
  match r.1 with
  | some (i, x) =>
    match call.ports[i]? with
    | some p => { s with ipc := r.2 }.setPc t .idle |>.log p x
    | none => { s with ipc := r.2 }.setPc t .idle
  | none =>
    if s.killing t then
      { s with ipc := s.abandoned t call, locked := true }.setPc t .dead
    else
      { s with ipc := r.2, blocked := update s.blocked t true }.setPc t (.waiting w call)

/-- The message `ipc_send` makes of its argument. -/
def newSent (taskOf : ThreadId → TaskId) (s : IpcThreads) (t : ThreadId) (p : PortId)
    (m : IpcMessage) : Sent IpcMessage :=
  ⟨t, s.seq t, p, { m with sender := taskOf t }⟩

/-- One step; `none` when the thread is elsewhere or the lock is not to be had. -/
def step (taskOf : ThreadId → TaskId) (s : IpcThreads) : ThreadOp → Option IpcThreads
  | .send t p m =>
    match s.pc t with
    | .idle =>
      let x := s.newSent taskOf t p m
      some (({ s with seq := update s.seq t (s.seq t + 1) }.retain x).setPc t (.sending x))
    | _ => none
  | .direct t =>
    match s.pc t with
    | .sending x =>
      if s.locked then none
      else
        match s.ipc.sendDirect x.port x with
        | some (r, ipc) =>
          some ({ s with ipc }.setPc t (.waking (some r) (x.payload.replyPort = none) x))
        | none => some (s.setPc t (.missed x))
    | _ => none
  | .drop t =>
    match s.pc t with
    | .missed x => some ((s.release x).setPc t (.allocating x))
    | _ => none
  | .alloc t ok =>
    match s.pc t with
    | .allocating x =>
      if ok then some ((s.retain x).setPc t (.queueing x))
      else some ({ s with failed := x :: s.failed }.setPc t .idle)
    | _ => none
  | .queue t =>
    match s.pc t with
    | .queueing x =>
      if s.locked then none
      else
        some ({ s with ipc := (s.ipc.sendQueue x.port x).2 }.setPc t
          (.waking (s.ipc.sendQueue x.port x).1 false x))
    | _ => none
  | .wake t here =>
    match s.pc t with
    | .waking receiver handoff x => some (s.sendEnd t receiver handoff here x)
    | _ => none
  | .recv t call =>
    match s.pc t with
    | .idle =>
      if s.locked then none
      else if call.valid then
        some ({ s with nextWait := s.nextWait + 1 }.settle t s.nextWait call
          ((s.ipc.setWait s.nextWait none).recvRound t s.nextWait call))
      else some s
    | _ => none
  | .resume t =>
    match s.pc t with
    | .waiting w call =>
      if s.locked ∨ s.blocked t then none
      else some (s.settle t w call (s.ipc.recvResume t w call))
    | _ => none
  | .tryRecv t p =>
    match s.pc t with
    | .idle =>
      if s.locked then none
      else
        match s.ipc.take p with
        | none => some s
        | some (x, ipc) => some ({ s with ipc }.log p x)
    | _ => none
  | .kill t => some { s with killing := update s.killing t true }
  | .cancel t victim =>
    match s.pc t with
    | .idle =>
      if s.locked = false ∧ s.killing victim then
        some ({ s with ipc := s.ipc.cancelThread victim }.setPc t (.cancelling victim))
      else none
    | _ => none
  | .unblock t =>
    match s.pc t with
    | .cancelling victim => some ((s.threadUnblock (some victim)).setPc t .idle)
    | _ => none
  | .reap t =>
    if s.killing t ∧ s.blocked t = false then
      match s.pc t with
      | .idle | .waiting .. => some (s.setPc t .dead)
      | _ => none
    else none

/-- No thread is in a call, no port has a message or a receiver. -/
structure Init (s : IpcThreads) : Prop where
  pc : ∀ t, s.pc t = .idle
  blocked : ∀ t, s.blocked t = false
  ports : ∀ p, s.ipc.ports p = {}
  waits : ∀ w, s.ipc.waits w = none
  locked : s.locked = false
  net : ∀ x o, s.net x o = 0
  returned : ∀ p, s.returned p = []
  completed : s.completed = []
  failed : s.failed = []

def empty : IpcThreads where
  ipc := ⟨fun _ => {}, fun _ => none⟩
  pc := fun _ => .idle
  blocked := fun _ => false
  wakeups := fun _ => 0
  killing := fun _ => false
  locked := false
  nextWait := 0
  ref := fun _ => 0
  seq := fun _ => 0
  net := fun _ _ => 0
  returned := fun _ => []
  completed := []
  failed := []

theorem empty_init : empty.Init :=
  ⟨fun _ => rfl, fun _ => rfl, fun _ => rfl, fun _ => rfl, rfl, fun _ _ => rfl, fun _ => rfl, rfl, rfl⟩

def plain (type : U32) : IpcMessage := ⟨0, type, 0, 0, none, none, []⟩

variable {taskOf : ThreadId → TaskId} {s s' : IpcThreads} {t u : ThreadId}

@[simp] theorem setPc_pc_self (s : IpcThreads) (pc : ThreadPc) : (s.setPc t pc).pc t = pc :=
  update_self ..

@[simp] theorem setPc_pc_ne (s : IpcThreads) (pc : ThreadPc) (h : u ≠ t) :
    (s.setPc t pc).pc u = s.pc u := update_of_ne h ..

@[elab_as_elim]
theorem setPc_cases {motive : ThreadPc → Prop} {pc : ThreadPc} (self : u = t → motive pc)
    (ne : u ≠ t → motive (s.pc u)) : motive ((s.setPc t pc).pc u) :=
  @update_cases _ _ _ s.pc t u pc motive self ne

/-- What a step can do, by the place its thread is at. -/
inductive Move (taskOf : ThreadId → TaskId) (s : IpcThreads) : ThreadOp → IpcThreads → Prop
  | send {t : ThreadId} {p : PortId} {m : IpcMessage} (hpc : s.pc t = .idle) :
      Move taskOf s (.send t p m) (({ s with seq := update s.seq t (s.seq t + 1) }.retain
        (s.newSent taskOf t p m)).setPc t (.sending (s.newSent taskOf t p m)))
  | direct {t r : ThreadId} {x : Sent IpcMessage} {ipc : Ipc (Sent IpcMessage)}
      (hpc : s.pc t = .sending x) (hlock : s.locked = false)
      (hfound : s.ipc.sendDirect x.port x = some (r, ipc)) :
      Move taskOf s (.direct t) ({ s with ipc }.setPc t (.waking (some r) (x.payload.replyPort = none) x))
  | miss {t : ThreadId} {x : Sent IpcMessage} (hpc : s.pc t = .sending x) :
      Move taskOf s (.direct t) (s.setPc t (.missed x))
  | drop {t : ThreadId} {x : Sent IpcMessage} (hpc : s.pc t = .missed x) :
      Move taskOf s (.drop t) ((s.release x).setPc t (.allocating x))
  | alloc {t : ThreadId} {x : Sent IpcMessage} (hpc : s.pc t = .allocating x) :
      Move taskOf s (.alloc t true) ((s.retain x).setPc t (.queueing x))
  | fail {t : ThreadId} {x : Sent IpcMessage} (hpc : s.pc t = .allocating x) :
      Move taskOf s (.alloc t false) ({ s with failed := x :: s.failed }.setPc t .idle)
  | queue {t : ThreadId} {x : Sent IpcMessage} (hpc : s.pc t = .queueing x) (hlock : s.locked = false) :
      Move taskOf s (.queue t) ({ s with ipc := (s.ipc.sendQueue x.port x).2 }.setPc t
        (.waking (s.ipc.sendQueue x.port x).1 false x))
  | wake {t : ThreadId} {receiver : Option ThreadId} {handoff here : Bool} {x : Sent IpcMessage}
      (hpc : s.pc t = .waking receiver handoff x) :
      Move taskOf s (.wake t here) (s.sendEnd t receiver handoff here x)
  | recv {t : ThreadId} {call : RecvCall} (hpc : s.pc t = .idle) (hlock : s.locked = false)
      (hvalid : call.valid = true) :
      Move taskOf s (.recv t call) ({ s with nextWait := s.nextWait + 1 }.settle t s.nextWait call
        ((s.ipc.setWait s.nextWait none).recvRound t s.nextWait call))
  | resume {t : ThreadId} {w : WaitId} {call : RecvCall} (hpc : s.pc t = .waiting w call)
      (hlock : s.locked = false) (hawake : s.blocked t = false) :
      Move taskOf s (.resume t) (s.settle t w call (s.ipc.recvResume t w call))
  | tryRecv {t : ThreadId} {p : PortId} {x : Sent IpcMessage} {ipc : Ipc (Sent IpcMessage)}
      (htake : s.ipc.take p = some (x, ipc)) : Move taskOf s (.tryRecv t p) ({ s with ipc }.log p x)
  /-- A receive call returns at once, without a message. -/
  | stay {op : ThreadOp} : Move taskOf s op s
  | kill {t : ThreadId} : Move taskOf s (.kill t) { s with killing := update s.killing t true }
  | cancel {t victim : ThreadId} (hpc : s.pc t = .idle) : Move taskOf s (.cancel t victim)
      ({ s with ipc := s.ipc.cancelThread victim }.setPc t (.cancelling victim))
  | unblock {t victim : ThreadId} (hpc : s.pc t = .cancelling victim) :
      Move taskOf s (.unblock t) ((s.threadUnblock (some victim)).setPc t .idle)
  | reap {t : ThreadId} (hawake : s.blocked t = false)
      (hpc : s.pc t = .idle ∨ ∃ w call, s.pc t = .waiting w call) :
      Move taskOf s (.reap t) (s.setPc t .dead)

theorem step_move {op} (hs : step taskOf s op = some s') : Move taskOf s op s' := by
  cases op with
  | alloc t ok =>
    simp only [step] at hs
    split at hs
    · rename_i x hpc
      cases ok with
      | true =>
        cases hs
        exact .alloc hpc
      | false =>
        cases hs
        exact .fail hpc
    · cases hs
  | reap t =>
    simp only [step] at hs
    split at hs
    · rename_i hcond
      split at hs
      · rename_i hpc
        cases hs
        exact .reap hcond.2 (.inl hpc)
      · rename_i hpc
        cases hs
        exact .reap hcond.2 (.inr ⟨_, _, hpc⟩)
      · cases hs
    · cases hs
  | _ =>
    simp only [step] at hs
    repeat' split at hs
    all_goals cases hs
    all_goals first
      | exact .send ‹_›
      | exact .direct ‹_› (Bool.eq_false_iff.mpr ‹_›) ‹_›
      | exact .miss ‹_›
      | exact .drop ‹_›
      | exact .queue ‹_› (Bool.eq_false_iff.mpr ‹_›)
      | exact .wake ‹_›
      | exact .recv ‹_› (Bool.eq_false_iff.mpr ‹_›) ‹_›
      | exact .resume ‹_› (by simp_all) (by simp_all)
      | exact .tryRecv ‹_›
      | exact .kill
      | exact .cancel ‹_›
      | exact .unblock ‹_›
      | exact .stay

/-- Unblocking touches only what the scheduler knows. -/
theorem threadUnblock_eq (r : Option ThreadId) : ∃ blocked wakeups,
    s.threadUnblock r = { s with blocked, wakeups } := by
  unfold threadUnblock
  split
  · exact ⟨s.blocked, s.wakeups, rfl⟩
  · split
    · exact ⟨_, _, rfl⟩
    · exact ⟨s.blocked, s.wakeups, rfl⟩

theorem settle_pc_ne {call} (hu : u ≠ t) : (s.settle t w call r).pc u = s.pc u := by
  unfold settle
  split
  · split
    · exact setPc_pc_ne _ _ hu
    · exact setPc_pc_ne _ _ hu
  · split
    · exact setPc_pc_ne _ _ hu
    · exact setPc_pc_ne _ _ hu

/-- However `ipc_send` ends, it has woken the receiver if that was blocked. -/
theorem sendEnd_eq (receiver : Option ThreadId) (handoff here : Bool) (x : Sent IpcMessage) :
    ∃ pc completed failed, (pc = .idle ∨ pc = .dead) ∧
      s.sendEnd t receiver handoff here x = { s.threadUnblock receiver with completed, failed }.setPc t pc := by
  unfold sendEnd
  split
  · split
    · rename_i hinvalid
      have hself : s.threadUnblock receiver = s := by
        unfold threadUnblock
        split
        · rfl
        · rw [if_neg]
          simpa [handoffInvalid] using hinvalid
      rw [hself]
      exact ⟨_, _, _, .inl rfl, rfl⟩
    · split
      · exact ⟨_, _, _, .inr rfl, rfl⟩
      · exact ⟨_, _, _, .inl rfl, rfl⟩
  · exact ⟨_, _, _, .inl rfl, rfl⟩

theorem step_pc_ne {op} (hs : step taskOf s op = some s') (hu : u ≠ op.thread) :
    s'.pc u = s.pc u := by
  cases step_move hs with
  | @wake t receiver handoff here x hpc =>
    obtain ⟨pc, completed, failed, -, hend⟩ := sendEnd_eq receiver handoff here x
    obtain ⟨blocked, wakeups, heq⟩ := threadUnblock_eq receiver
    rw [hend, heq]
    exact setPc_pc_ne _ _ hu
  | recv hpc | resume hpc => exact settle_pc_ne hu
  | @unblock t victim hpc =>
    obtain ⟨blocked, wakeups, heq⟩ := threadUnblock_eq (some victim)
    rw [heq]
    exact setPc_pc_ne _ _ hu
  | stay | kill | tryRecv => rfl
  | send | direct | miss | drop | alloc | fail | queue | cancel | reap => exact setPc_pc_ne _ _ hu

theorem run_pc_ne {ops} (hr : Run (fun s op s' => step taskOf s op = some s') s ops s')
    (hu : ∀ op ∈ ops, u ≠ op.thread) : s'.pc u = s.pc u := by
  induction hr with
  | nil => rfl
  | cons head _ ih =>
    rw [ih fun op hop => hu op (List.mem_cons_of_mem _ hop)]
    exact step_pc_ne head (hu _ (List.mem_cons_self ..))

end IpcThreads

end Bunix.Kernel
