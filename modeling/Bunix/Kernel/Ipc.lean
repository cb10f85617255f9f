import Bunix.Lib.PointUpdate
import Bunix.Types

/-! # Ports and messages

The sections of `kernel/ipc.c` that run under `ipc_lock`, as functions on the state of the
ports, for any type `M` of messages. A waiting receiver leaves a record on its stack
(`struct ipc_wait`); ports point to it, so it is named by the number of the call that made it.
The counter `queued` is the length of the queue; the affinity fields and statistics, which
nothing here reads, are left out.
-/
namespace Bunix.Kernel

open Bunix.Lib Function

abbrev PortId := Nat
abbrev WaitId := Nat

structure IpcPort (M : Type) where
  queue : List M := []
  receiver : Option ThreadId := none
  receiverWait : Option WaitId := none
  receiverIndex : Nat := 0

structure Ipc (M : Type) where
  ports : PortId → IpcPort M
  /-- `struct ipc_wait`: what has been delivered, with its `index`, if `delivered` is set. -/
  waits : WaitId → Option (M × Nat)

/-- A call that may block: `ipc_recv(port)` or `ipc_recv_any(ports)`. -/
inductive RecvCall where
  | recv (p : PortId)
  | recvAny (ps : List PortId)
deriving DecidableEq, Repr

def RecvCall.ports : RecvCall → List PortId
  | .recv p => [p]
  | .recvAny ps => ps

@[simp] theorem RecvCall.ports_recv (p : PortId) : (RecvCall.recv p).ports = [p] := rfl
@[simp] theorem RecvCall.ports_recvAny (ps : List PortId) : (RecvCall.recvAny ps).ports = ps := rfl

def ipcRecvAnyMax : Nat := 4

/-- The argument checks of `ipc_recv_any`; `ipc_recv` has none on a port. -/
def RecvCall.valid : RecvCall → Bool
  | .recv _ => true
  | .recvAny ps => decide (ps ≠ [] ∧ ps.length ≤ ipcRecvAnyMax ∧ ps.Nodup)

theorem RecvCall.nodup_of_valid {call : RecvCall} (h : call.valid = true) : call.ports.Nodup := by
  cases call with
  | recv p => exact List.nodup_singleton p
  | recvAny ps => exact (of_decide_eq_true h).2.2

namespace Ipc

variable {M : Type}

variable (s : Ipc M) (p : PortId) (t : ThreadId) (w : WaitId)

def setPort (port : IpcPort M) : Ipc M :=
  { s with ports := update s.ports p port }

def setWait (wait : Option (M × Nat)) : Ipc M :=
  { s with waits := update s.waits w wait }

/-- The first section of `ipc_send`: hand the message to a waiting receiver. -/
def sendDirect (m : M) : Option (ThreadId × Ipc M) :=
  let port := s.ports p
  match port.receiver, port.receiverWait with
  | some t, some w =>
    if s.waits w = none ∧ port.queue = [] then
      let s := s.setWait w (some (m, port.receiverIndex))
      some (t, s.setPort p { port with receiver := none, receiverWait := none })
    else none
  | _, _ => none

/-- The second section of `ipc_send`: append to the queue; the result is the receiver to wake. -/
def sendQueue (m : M) : Option ThreadId × Ipc M :=
  let port := s.ports p
  let receiverWait := if port.receiver = none then port.receiverWait else none
  (port.receiver, s.setPort p { port with queue := port.queue ++ [m], receiver := none, receiverWait })

def take : Option (M × Ipc M) :=
  match (s.ports p).queue with
  | [] => none
  | m :: rest => some (m, s.setPort p { s.ports p with queue := rest })

/-- The first of the ports that has a message, by its index. -/
def takeAny (s : Ipc M) : List PortId → Option (Nat × M × Ipc M)
  | [] => none
  | p :: ps =>
    match s.take p with
    | some (m, s') => some (0, m, s')
    | none => (takeAny s ps).map fun r => (r.1 + 1, r.2)

/-- Register the wait record `w` of thread `t` on each port of the call. -/
def register (ps : List PortId) : Ipc M :=
  { s with ports := fun p =>
      if p ∈ ps then
        { s.ports p with receiver := some t, receiverWait := some w, receiverIndex := ps.idxOf p }
      else s.ports p }

/-- What `ipc_recv_any` does first when it runs again: take back its registrations. -/
def unregister (ps : List PortId) : Ipc M :=
  { s with ports := fun p =>
      if p ∈ ps ∧ (s.ports p).receiver = some t then
        { s.ports p with receiver := none, receiverWait := none }
      else s.ports p }

/-- One round of the loop of a receive call: a message, with its index, or a registration. -/
def recvRound (call : RecvCall) : Option (Nat × M) × Ipc M :=
  match s.takeAny call.ports with
  | some (i, m, s') => (some (i, m), s')
  | none =>
    let s := match call with
      | .recv _ => s.setWait w none
      | .recvAny _ => s
    (none, s.register t w call.ports)

/-- The section a receiver enters when it runs again. -/
def recvResume (call : RecvCall) : Option (Nat × M) × Ipc M :=
  let s := match call with
    | .recv _ => s
    | .recvAny ps => s.unregister t ps
  match s.waits w with
  | some (m, i) => (some (i, m), s)
  | none => s.recvRound t w call

/-! ## What the sections change -/

variable {s s' : Ipc M} {p q : PortId} {t u : ThreadId} {i : Nat} {w v : WaitId} {m : M} {ps : List PortId}
  {call : RecvCall}

@[simp] theorem setPort_ports_self (port : IpcPort M) : (s.setPort p port).ports p = port :=
  update_self ..

@[simp] theorem setPort_ports_ne (port : IpcPort M) (h : q ≠ p) :
    (s.setPort p port).ports q = s.ports q := update_of_ne h ..

@[simp] theorem setPort_waits (port : IpcPort M) : (s.setPort p port).waits = s.waits := rfl

@[simp] theorem setWait_waits_self (wait : Option (M × Nat)) : (s.setWait w wait).waits w = wait :=
  update_self ..

@[simp] theorem setWait_waits_ne (wait : Option (M × Nat)) (h : v ≠ w) :
    (s.setWait w wait).waits v = s.waits v := update_of_ne h ..

@[elab_as_elim]
theorem setPort_cases {motive : IpcPort M → Prop} {port : IpcPort M} (self : q = p → motive port)
    (ne : q ≠ p → motive (s.ports q)) : motive ((s.setPort p port).ports q) :=
  @update_cases _ _ _ s.ports p q port motive self ne

@[elab_as_elim]
theorem setWait_cases {motive : Option (M × Nat) → Prop} {wait : Option (M × Nat)} (self : v = w → motive wait)
    (ne : v ≠ w → motive (s.waits v)) : motive ((s.setWait w wait).waits v) :=
  @update_cases _ _ _ s.waits w v wait motive self ne

@[simp] theorem setWait_ports (wait : Option (M × Nat)) : (s.setWait w wait).ports = s.ports := rfl

theorem recvResume_from (s : Ipc M) (t : ThreadId) (w : WaitId) (call : RecvCall) :
    ∃ s₁, (s₁ = s ∨ ∃ ps, s₁ = s.unregister t ps) ∧ s.recvResume t w call = match s₁.waits w with
      | some (m, i) => (some (i, m), s₁)
      | none => s₁.recvRound t w call := by
  cases call with
  | recv p => exact ⟨s, .inl rfl, rfl⟩
  | recvAny ps => exact ⟨_, .inr ⟨ps, rfl⟩, rfl⟩

theorem sendDirect_some (h : s.sendDirect p m = some (t, s')) :
    ∃ w, (s.ports p).receiver = some t ∧ (s.ports p).receiverWait = some w ∧
      s.waits w = none ∧ (s.ports p).queue = [] ∧
      s' = (s.setWait w (some (m, (s.ports p).receiverIndex))).setPort p
            { s.ports p with receiver := none, receiverWait := none } := by
  unfold sendDirect at h
  dsimp only at h
  split at h
  · rename_i t' w hr hw
    split at h
    · rename_i hc
      cases h
      exact ⟨w, hr, hw, hc.1, hc.2, rfl⟩
    · cases h
  · cases h

theorem setWait_eq_self (h : s.waits w = none) : s.setWait w none = s := by
  rw [setWait, ← h, update_eq_self]

@[simp] theorem unregister_waits : (s.unregister t ps).waits = s.waits := rfl

@[simp] theorem unregister_queue : ((s.unregister t ps).ports p).queue = (s.ports p).queue := by
  simp only [unregister]
  split <;> rfl

theorem unregister_eq_self (h : ∀ p ∈ ps, (s.ports p).receiver ≠ some t) : s.unregister t ps = s := by
  have hports : (s.unregister t ps).ports = s.ports := by
    funext p
    simp only [unregister]
    rw [if_neg]
    exact fun hp => h p hp.1 hp.2
  exact congrArg (fun ports => { s with ports }) hports

theorem take_some (h : s.take p = some (m, s')) : ∃ rest, (s.ports p).queue = m :: rest ∧
    s' = s.setPort p { s.ports p with queue := rest } := by
  unfold take at h
  split at h
  · cases h
  · rename_i rest hq
    cases h
    exact ⟨rest, hq, rfl⟩

theorem take_none (h : s.take p = none) : (s.ports p).queue = [] := by
  unfold take at h
  split at h
  · rename_i hq
    exact hq
  · cases h

theorem takeAny_some (h : s.takeAny ps = some (i, m, s')) :
    ∃ p, ps[i]? = some p ∧ s.take p = some (m, s') := by
  induction ps generalizing i with
  | nil => cases h
  | cons q ps ih =>
    unfold takeAny at h
    split at h
    · rename_i htake
      cases h
      exact ⟨q, rfl, htake⟩
    · obtain ⟨⟨i', r⟩, hrest, he⟩ := Option.map_eq_some_iff.mp h
      cases he
      obtain ⟨p, hp, htake⟩ := ih hrest
      exact ⟨p, by simpa using hp, htake⟩

theorem takeAny_none (h : s.takeAny ps = none) : ∀ p ∈ ps, (s.ports p).queue = [] := by
  induction ps with
  | nil => simp
  | cons q ps ih =>
    unfold takeAny at h
    split at h
    · cases h
    rename_i htake
    intro p hp
    rcases List.mem_cons.mp hp with rfl | hp
    · exact take_none htake
    · exact ih (Option.map_eq_none_iff.mp h) p hp

theorem recvRound_some (h : s.takeAny call.ports = some (i, m, s')) :
    s.recvRound t w call = (some (i, m), s') := by
  unfold recvRound
  rw [h]

theorem recvRound_none (h : s.takeAny call.ports = none) (hw : s.waits w = none) :
    s.recvRound t w call = (none, s.register t w call.ports) := by
  unfold recvRound
  rw [h]
  cases call with
  | recv p => simp only [setWait_eq_self hw]
  | recvAny ps => rfl

end Ipc

end Bunix.Kernel
