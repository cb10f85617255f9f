import Bunix.Kernel.IpcDelivery
import Bunix.Kernel.IpcWait

/-! # Every message is delivered exactly once

The messages of a port form one stream: what has been returned, what sits in the wait record
of its receiver, what is queued. No step takes anything out of a stream or reorders it; a send
appends to it. A wait record is written to only while its owner waits on the port.
-/
namespace Bunix.Kernel.IpcSystem

open Bunix.Lib Function List

variable {α : Type} {owner : PortId → ThreadId} {s s' : IpcSystem α} {p q : PortId}
  {t u r : ThreadId} {w v : WaitId} {x y : Sent α} {call : RecvCall} {ipc : Ipc (Sent α)}

@[simp] theorem setPc_pc_self (pc : IpcPc α) : (s.setPc t pc).pc t = pc := update_self ..

@[simp] theorem setPc_pc_ne (pc : IpcPc α) (h : u ≠ t) : (s.setPc t pc).pc u = s.pc u :=
  update_of_ne h ..

@[elab_as_elim]
theorem setPc_cases {motive : IpcPc α → Prop} {pc : IpcPc α} (self : u = t → motive pc)
    (ne : u ≠ t → motive (s.pc u)) : motive ((s.setPc t pc).pc u) :=
  @update_cases _ _ _ s.pc t u pc motive self ne

/-! ## The wait records -/

/-- The wait record and the call of a thread inside a receive call. -/
def waiting (s : IpcSystem α) (t : ThreadId) : Option (WaitId × RecvCall) :=
  match s.pc t with
  | .waiting w call => some (w, call)
  | _ => none

theorem waiting_eq : s.waiting t = some (w, call) ↔ s.pc t = .waiting w call := by
  unfold waiting
  cases s.pc t <;> simp

/-- The thread is not in a receive call. -/
def Awake (s : IpcSystem α) (t : ThreadId) : Prop := ∀ w call, s.pc t ≠ .waiting w call

theorem Awake.waiting_eq_none (ht : Awake s t) : s.waiting t = none := by
  cases hw : s.waiting t with
  | none => rfl
  | some wc => exact absurd (waiting_eq.mp hw) (ht wc.1 wc.2)

theorem waiting_setPc (pc : IpcPc α) (wc : Option (WaitId × RecvCall))
    (hpc : ∀ w call, pc = .waiting w call ↔ wc = some (w, call)) :
    (s.setPc t pc).waiting = update s.waiting t wc := by
  funext u
  refine Option.ext fun vc => ?_
  obtain ⟨v, call'⟩ := vc
  by_cases hut : u = t
  · subst hut
    rw [update_self, waiting_eq, setPc_pc_self]
    exact hpc v call'
  · rw [update_of_ne hut, waiting_eq, waiting_eq, setPc_pc_ne _ hut]

theorem waiting_setPc_none {pc : IpcPc α} (hpc : ∀ w call, pc ≠ .waiting w call) :
    (s.setPc t pc).waiting = update s.waiting t none :=
  waiting_setPc pc none fun w call => by simp [hpc w call]

theorem waiting_setPc_waiting (w : WaitId) (call : RecvCall) :
    (s.setPc t (.waiting w call)).waiting = update s.waiting t (some (w, call)) :=
  waiting_setPc _ _ fun v call' => by simp

/-- The records are in order, a call is on ports of its own thread, and what was delivered came
through a port of the call. -/
structure WaitInv (owner : PortId → ThreadId) (s : IpcSystem α) : Prop where
  records : s.ipc.WaitInv s.waiting s.nextWait
  owned : ∀ t w call, s.pc t = .waiting w call → ∀ p ∈ call.ports, owner p = t
  via : ∀ t w call x i, s.pc t = .waiting w call → s.ipc.waits w = some (x, i) →
    call.ports[i]? = some x.port

section
variable (h : WaitInv owner s)
include h

theorem WaitInv.setPc (ht : Awake s t) {pc : IpcPc α}
    (hpc : ∀ w call, pc ≠ .waiting w call) : WaitInv owner (s.setPc t pc) := by
  have hsame : ∀ u w call, (s.setPc t pc).pc u = .waiting w call → s.pc u = .waiting w call := by
    intro u w call hu
    exact setPc_cases (fun _ hu => absurd hu (hpc w call)) (fun _ hu => hu) hu
  refine ⟨?_, fun u w call hu => h.owned u w call (hsame u w call hu),
    fun u w call x i hu => h.via u w call x i (hsame u w call hu)⟩
  rw [waiting_setPc_none hpc, ← ht.waiting_eq_none, update_eq_self]
  exact h.records

theorem WaitInv.ports (hr : ipc.WaitInv s.waiting s.nextWait)
    (hw : ipc.waits = s.ipc.waits) : WaitInv owner { s with ipc } := by
  refine ⟨hr, h.owned, fun t w call x i ht hx => h.via t w call x i ht ?_⟩
  rw [← hw]
  exact hx

theorem WaitInv.sendDirect (hx : x.port = p)
    (hs : s.ipc.sendDirect p x = some (r, ipc)) : WaitInv owner { s with ipc } := by
  refine ⟨h.records.sendDirect hs, h.owned, fun u v call' y j hu hv => ?_⟩
  obtain ⟨w, call, hr, _, _, hidx, rfl⟩ := h.records.sendDirect_spec hs
  by_cases hvw : v = w
  · subst hvw
    obtain rfl := h.records.distinct u r v call' call (waiting_eq.mpr hu) hr
    rw [waiting_eq, hu] at hr
    cases hr
    replace hv : (update s.ipc.waits v _) v = some (y, j) := hv
    rw [update_self] at hv
    cases hv
    rw [hx]
    exact hidx
  · replace hv : (update s.ipc.waits w _) v = some (y, j) := hv
    rw [update_of_ne hvw] at hv
    exact h.via u v call' y j hu hv

theorem WaitInv.sendQueue :
    WaitInv owner { s with ipc := (s.ipc.sendQueue p x).2 } :=
  h.ports h.records.sendQueue rfl

theorem WaitInv.take (hs : s.ipc.take p = some (x, ipc)) :
    WaitInv owner { s with ipc } := by
  obtain ⟨rest, _, rfl⟩ := Ipc.take_some hs
  exact h.ports (h.records.take hs) rfl

theorem WaitInv.register (ht : Awake s t) (hw : w < s.nextWait)
    (hfree : ∀ u call', s.pc u ≠ .waiting w call') (hnone : s.ipc.waits w = none)
    (hn : call.ports.Nodup) (ho : ∀ p ∈ call.ports, owner p = t)
    (hempty : ∀ p ∈ call.ports, (s.ipc.ports p).queue = []) :
    WaitInv owner ({ s with ipc := s.ipc.register t w call.ports }.setPc t (.waiting w call)) := by
  have hfree' : ∀ u call', s.waiting u ≠ some (w, call') := fun u call' hu =>
    hfree u call' (waiting_eq.mp hu)
  refine ⟨?_, fun u v call' hu => ?_, fun u v call' y i hu hv => ?_⟩
  · rw [waiting_setPc_waiting]
    exact h.records.register ht.waiting_eq_none hw hfree' hnone hn hempty
  · refine setPc_cases (fun hut hu => ?_) (fun _ => h.owned u v call') hu
    cases hu
    exact hut ▸ ho
  · refine setPc_cases (fun _ hu => ?_) (fun _ hu => h.via u v call' y i hu hv) hu
    cases hu
    exact absurd hv (by simp [Ipc.register, hnone])

/-! ## Receive calls -/

theorem WaitInv.congr (hpc : s'.pc = s.pc) (hipc : s'.ipc = s.ipc)
    (hnext : s'.nextWait = s.nextWait) : WaitInv owner s' := by
  obtain ⟨ipc, pc, _, next, _, _, _⟩ := s
  obtain ⟨ipc', pc', _, next', _, _, _⟩ := s'
  obtain rfl : pc' = pc := hpc
  obtain rfl : ipc' = ipc := hipc
  obtain rfl : next' = next := hnext
  exact ⟨h.records, h.owned, h.via⟩

theorem WaitInv.newWait :
    WaitInv owner { s with ipc := s.ipc.setWait s.nextWait none, nextWait := s.nextWait + 1 } := by
  refine ⟨h.records.newWait, h.owned, fun u w call x i hu hw => ?_⟩
  have hne : w ≠ s.nextWait := Nat.ne_of_lt (h.records.fresh u w call (waiting_eq.mpr hu))
  rw [Ipc.setWait_waits_ne _ hne] at hw
  exact h.via u w call x i hu hw

theorem WaitInv.leave (hpc : s.pc t = .waiting w call) :
    WaitInv owner ({ s with ipc := s.ipc.unregister t call.ports }.setPc t .idle) := by
  have hother : ∀ u v call', ({ s with ipc := s.ipc.unregister t call.ports }.setPc t .idle).pc u =
      .waiting v call' → s.pc u = .waiting v call' := by
    intro u v call' hu
    exact setPc_cases (fun _ hu => by cases hu) (fun _ hu => hu) hu
  refine ⟨?_, fun u v call' hu => h.owned u v call' (hother u v call' hu),
    fun u v call' y i hu hv => h.via u v call' y i (hother u v call' hu) hv⟩
  rw [waiting_setPc_none fun _ _ he => by cases he]
  exact h.records.leave (waiting_eq.mpr hpc)

theorem WaitInv.settle (ht : Awake s t) (hw : w < s.nextWait)
    (hfree : ∀ u call', s.pc u ≠ .waiting w call') (hnone : s.ipc.waits w = none)
    (hn : call.ports.Nodup) (ho : ∀ p ∈ call.ports, owner p = t) :
    WaitInv owner (s.settle t w call (s.ipc.recvRound t w call)) := by
  cases htake : s.ipc.takeAny call.ports with
  | some r =>
    obtain ⟨i, x, ipc⟩ := r
    obtain ⟨p, hp, hs⟩ := Ipc.takeAny_some htake
    have h₁ : WaitInv owner ({ s with ipc }.setPc t .idle) := (h.take hs).setPc ht nofun
    rw [Ipc.recvRound_some htake]
    simp only [IpcSystem.settle, hp]
    exact h₁.congr rfl rfl rfl
  | none =>
    rw [Ipc.recvRound_none htake hnone]
    exact (h.register ht hw hfree hnone hn ho (Ipc.takeAny_none htake)).congr rfl rfl rfl

end

/-! ## Streams -/

/-- The message of port `p` that sits in the wait record of its receiver. -/
def slot (owner : PortId → ThreadId) (s : IpcSystem α) (p : PortId) : List (Sent α) :=
  match s.delivered (owner p) with
  | some (x, _) => if x.port = p then [x] else []
  | none => []

/-- All messages of a port that have not been lost, in order. -/
def stream (owner : PortId → ThreadId) (s : IpcSystem α) (p : PortId) : List (Sent α) :=
  s.returned p ++ s.slot owner p ++ (s.ipc.ports p).queue

theorem delivered_of_awake (ht : Awake s t) : s.delivered t = none := by
  unfold delivered
  split
  · rename_i w call hpc
    exact absurd hpc (ht w call)
  · rfl

theorem delivered_waiting (hpc : s.pc t = .waiting w call) : s.delivered t = s.ipc.waits w := by
  unfold delivered
  rw [hpc]

theorem slot_of_none (h : s.delivered (owner p) = none) : s.slot owner p = [] := by
  unfold slot
  rw [h]

theorem stream_congr (hr : s'.returned p = s.returned p)
    (hd : s'.delivered (owner p) = s.delivered (owner p))
    (hq : (s'.ipc.ports p).queue = (s.ipc.ports p).queue) : s'.stream owner p = s.stream owner p := by
  unfold stream slot
  rw [hr, hd, hq]

theorem delivered_setPc (ht : Awake s t) {pc} (hpc : ∀ w call, pc ≠ .waiting w call) :
    (s.setPc t pc).delivered u = s.delivered u := by
  by_cases hut : u = t
  · subst hut
    rw [delivered_of_awake ht, delivered_of_awake]
    intro w call
    rw [setPc_pc_self]
    exact hpc w call
  · unfold delivered
    rw [setPc_pc_ne _ hut]
    rfl

theorem stream_setPc (ht : Awake s t) {pc} (hpc : ∀ w call, pc ≠ .waiting w call)
    (q : PortId) : (s.setPc t pc).stream owner q = s.stream owner q :=
  stream_congr rfl (delivered_setPc ht hpc) rfl

theorem WaitInv.stream_sendDirect (h : WaitInv owner s) (hx : x.port = p)
    (hs : s.ipc.sendDirect p x = some (r, ipc)) (q : PortId) :
    ({ s with ipc } : IpcSystem α).stream owner q =
      s.stream owner q ++ (if q = p then [x] else []) := by
  obtain ⟨w', call, hr, hnone, hq, hidx, rfl⟩ := h.records.sendDirect_spec hs
  have hpc := waiting_eq.mp hr
  have howner : owner p = r := h.owned r w' call hpc p (mem_of_getElem? hidx)
  have hbefore : s.delivered r = none := by rw [delivered_waiting hpc, hnone]
  have hafter : ∀ port, ({ s with ipc := (s.ipc.setWait w' (some (x,
      (s.ipc.ports p).receiverIndex))).setPort p port } : IpcSystem α).delivered r =
      some (x, (s.ipc.ports p).receiverIndex) := by
    intro port
    unfold delivered
    rw [show ({ s with ipc := _ } : IpcSystem α).pc r = .waiting w' call from hpc]
    simp
  by_cases hqp : q = p
  · subst hqp
    unfold stream slot
    rw [howner, hafter, hbefore]
    simp [hq, hx]
  · by_cases hqr : owner q = r
    · unfold stream slot
      rw [hqr, hafter, hbefore]
      have hxq : x.port ≠ q := by rw [hx]; exact fun he => hqp he.symm
      simp [hqp, hxq]
    · rw [if_neg hqp, append_nil]
      refine stream_congr rfl ?_ (by simp [Ipc.setPort_ports_ne _ hqp])
      unfold delivered
      cases hpcq : s.pc (owner q) with
      | waiting v call' =>
        have hvw : v ≠ w' := by
          intro he
          exact hqr (h.records.distinct _ _ v call' call (waiting_eq.mpr hpcq) (he ▸ hr))
        simp [Ipc.setWait_waits_ne _ hvw]
      | idle | queueing y | waking r' b y => rfl

theorem stream_sendQueue (q : PortId) :
    ({ s with ipc := (s.ipc.sendQueue p x).2 } : IpcSystem α).stream owner q =
      s.stream owner q ++ (if q = p then [x] else []) := by
  have hd : ({ s with ipc := (s.ipc.sendQueue p x).2 } : IpcSystem α).delivered (owner q) =
      s.delivered (owner q) := rfl
  unfold stream slot
  rw [hd]
  by_cases hqp : q = p
  · subst hqp
    simp [Ipc.sendQueue]
  · simp [Ipc.sendQueue, hqp]

/-- Taking the head of a queue returns the next message of the stream, when the receiver is
not inside a call any more. -/
theorem stream_take (hs : s.ipc.take p = some (x, ipc)) (hd : s.delivered (owner p) = none)
    (q : PortId) : (({ s with ipc } : IpcSystem α).log p x).stream owner q = s.stream owner q := by
  obtain ⟨rest, hq, rfl⟩ := Ipc.take_some hs
  by_cases hqp : q = p
  · subst hqp
    have hslot := slot_of_none hd
    have hslot' : (({ s with ipc := s.ipc.setPort q { s.ipc.ports q with queue := rest } } :
        IpcSystem α).log q x).slot owner q = [] := slot_of_none hd
    unfold stream
    rw [hslot, hslot']
    simp [IpcSystem.log, hq]
  · refine stream_congr ?_ rfl (by simp [Ipc.setPort_ports_ne _ hqp])
    simp [IpcSystem.log, update_of_ne hqp]

theorem WaitInv.stream_deliver (h : WaitInv owner s) (hpc : s.pc t = .waiting w call)
    (hw : s.ipc.waits w = some (x, i)) (hp : call.ports[i]? = some p) (q : PortId) :
    (({ s with ipc := s.ipc.unregister t call.ports }.setPc t .idle).log p x).stream owner q =
      s.stream owner q := by
  obtain rfl : x.port = p := Option.some.inj ((h.via t w call x i hpc hw).symm.trans hp)
  have howner : owner x.port = t := h.owned t w call hpc _ (mem_of_getElem? hp)
  have hbefore : s.delivered t = some (x, i) := by rw [delivered_waiting hpc, hw]
  have hafter : (({ s with ipc := s.ipc.unregister t call.ports }.setPc t .idle).log x.port x).delivered
      t = none := delivered_of_awake fun _ _ he => by simp at he
  by_cases hqt : owner q = t
  · unfold stream slot
    rw [hqt, hbefore, hafter]
    by_cases hqp : q = x.port
    · subst hqp
      simp [IpcSystem.log]
    · have hxq : x.port ≠ q := fun he => hqp he.symm
      simp [IpcSystem.log, update_of_ne hqp, hxq]
  · have hqp : q ≠ x.port := fun he => hqt (he ▸ howner)
    refine stream_congr ?_ ?_ (by simp)
    · simp [IpcSystem.log, update_of_ne hqp]
    · unfold delivered
      simp only [log_pc, setPc_pc_ne _ hqt]
      rfl

theorem stream_leave (hpc : s.pc t = .waiting w call) (hw : s.ipc.waits w = none) (q : PortId) :
    ({ s with ipc := s.ipc.unregister t call.ports }.setPc t .idle).stream owner q =
      s.stream owner q := by
  refine stream_congr rfl ?_ (by simp)
  by_cases hqt : owner q = t
  · rw [hqt, delivered_waiting hpc, hw]
    exact delivered_of_awake fun _ _ he => by simp at he
  · unfold delivered
    rw [setPc_pc_ne _ hqt]
    rfl

theorem stream_settle (ht : Awake s t) (hnone : s.ipc.waits w = none)
    (ho : ∀ p ∈ call.ports, owner p = t) (q : PortId) :
    (s.settle t w call (s.ipc.recvRound t w call)).stream owner q = s.stream owner q := by
  cases htake : s.ipc.takeAny call.ports with
  | some r =>
    obtain ⟨p, hp, hs⟩ := Ipc.takeAny_some htake
    rw [Ipc.recvRound_some htake]
    simp only [IpcSystem.settle, hp]
    have hd : s.delivered (owner p) = none := by
      rw [ho p (mem_of_getElem? hp)]
      exact delivered_of_awake ht
    have hidle : (s.setPc t .idle).delivered (owner p) = none := by
      rw [delivered_setPc ht fun _ _ he => by cases he]
      exact hd
    have hstream := stream_take (s := s.setPc t .idle) hs hidle q
    exact hstream.trans (stream_setPc ht (fun _ _ he => by cases he) q)
  | none =>
    rw [Ipc.recvRound_none htake hnone]
    refine stream_congr rfl ?_ ?_
    · by_cases hqt : owner q = t
      · rw [hqt, delivered_of_awake ht]
        refine (delivered_waiting (setPc_pc_self _)).trans ?_
        exact hnone
      · unfold delivered
        simp only [IpcSystem.settle, setPc_pc_ne _ hqt]
        rfl
    · simp only [IpcSystem.settle, setPc_ipc, Ipc.register]
      split <;> rfl

/-! ## The invariant -/

/-- Streams hold each message once, in the order of sending, on its own port; what is not yet
queued is newer than anything its sender has in a stream. -/
structure StreamInv (owner : PortId → ThreadId) (s : IpcSystem α) : Prop where
  port : ∀ p, ∀ x ∈ s.stream owner p, x.port = p ∧ x.seq < s.seq x.thread
  order : ∀ p, (s.stream owner p).Pairwise fun x y => x.thread = y.thread → x.seq < y.seq
  pending : ∀ t x, s.pc t = .queueing x → x.thread = t ∧ x.seq < s.seq t ∧
    ∀ p, ∀ y ∈ s.stream owner p, y.thread = t → y.seq < x.seq
  sent : ∀ t r b x, s.pc t = .waking r b x → x ∈ s.stream owner x.port
  done : ∀ x ∈ s.completed, x ∈ s.stream owner x.port

theorem StreamInv.same (h : StreamInv owner s) (hstream : ∀ p, s'.stream owner p = s.stream owner p)
    (hseq : s'.seq = s.seq) (hpc : ∀ u, s'.pc u = s.pc u ∨ (s'.pc u).Quiet)
    (hdone : ∀ x ∈ s'.completed, x ∈ s.completed ∨ x ∈ s.stream owner x.port) :
    StreamInv owner s' := by
  refine ⟨fun p x hx => ?_, fun p => ?_, fun t x ht => ?_, fun t r b x ht => ?_, fun x hx => ?_⟩
  · rw [hstream] at hx
    rw [hseq]
    exact h.port p x hx
  · rw [hstream]
    exact h.order p
  · simp only [hstream, hseq]
    rcases hpc t with he | hquiet
    · exact h.pending t x (he ▸ ht)
    · rw [ht] at hquiet
      cases hquiet
  · rw [hstream]
    rcases hpc t with he | hquiet
    · exact h.sent t r b x (he ▸ ht)
    · rw [ht] at hquiet
      cases hquiet
  · rw [hstream]
    exact (hdone x hx).elim (h.done x) id

/-- Thread `t` starts to send `x`, which finds no receiver. -/
theorem StreamInv.start (h : StreamInv owner s) (ht : Awake s t) (hxt : x.thread = t)
    (hx : x.seq = s.seq t) :
    StreamInv owner ({ s with seq := update s.seq t (s.seq t + 1) }.setPc t (.queueing x)) := by
  have hseq : ∀ u, s.seq u ≤ update s.seq t (s.seq t + 1) u := by
    intro u
    exact le_update_succ s.seq
  have hstream : ∀ p, ({ s with seq := update s.seq t (s.seq t + 1) }.setPc t
      (.queueing x)).stream owner p = s.stream owner p :=
    stream_setPc ht nofun
  refine ⟨fun p y hy => ?_, fun p => ?_, fun u y hu => ?_, fun u r b y hu => ?_, fun y hy => ?_⟩
  · rw [hstream] at hy
    obtain ⟨hp, hlt⟩ := h.port p y hy
    exact ⟨hp, lt_of_lt_of_le hlt (hseq _)⟩
  · rw [hstream]
    exact h.order p
  · simp only [hstream]
    by_cases hut : u = t
    · subst hut
      rw [setPc_pc_self] at hu
      cases hu
      refine ⟨hxt, ?_, fun p z hz hzu => ?_⟩
      · show x.seq < update s.seq u (s.seq u + 1) u
        rw [update_self, hx]
        exact Nat.lt_succ_self _
      · rw [hx, ← hzu]
        exact (h.port p z hz).2
    · rw [setPc_pc_ne _ hut] at hu
      obtain ⟨hyu, hlt, hold⟩ := h.pending u y hu
      exact ⟨hyu, lt_of_lt_of_le hlt (hseq u), hold⟩
  · rw [hstream]
    exact setPc_cases (fun _ hu => by cases hu) (fun _ => h.sent u r b y) hu
  · rw [hstream]
    exact h.done y hy

/-- A step of thread `t` that appends its message `x`, newer than all it has in a stream. -/
theorem StreamInv.append (h : StreamInv owner s) (hxt : x.thread = t)
    (hnew : ∀ p, ∀ y ∈ s.stream owner p, y.thread = t → y.seq < x.seq)
    (hstream : ∀ p, s'.stream owner p = s.stream owner p ++ (if p = x.port then [x] else []))
    (hseq : ∀ u, s.seq u ≤ s'.seq u) (hlt : x.seq < s'.seq t)
    (hother : ∀ u, u ≠ t → s'.pc u = s.pc u) {b : Bool} {r : Option ThreadId}
    (hpc : s'.pc t = .waking r b x) (hdone : s'.completed = s.completed) : StreamInv owner s' := by
  have hmem : ∀ p y, y ∈ s'.stream owner p ↔ y ∈ s.stream owner p ∨ p = x.port ∧ y = x := by
    intro p y
    rw [hstream]
    by_cases hp : p = x.port <;> simp [hp]
  have hsub : ∀ p y, y ∈ s.stream owner p → y ∈ s'.stream owner p := fun p y hy =>
    (hmem p y).mpr (.inl hy)
  refine ⟨fun p y hy => ?_, fun p => ?_, fun u y hu => ?_, fun u r' b' y hu => ?_, fun y hy => ?_⟩
  · rcases (hmem p y).mp hy with hy | ⟨rfl, rfl⟩
    · obtain ⟨hp, hs⟩ := h.port p y hy
      exact ⟨hp, lt_of_lt_of_le hs (hseq _)⟩
    · exact ⟨rfl, hxt ▸ hlt⟩
  · rw [hstream]
    by_cases hp : p = x.port
    · rw [if_pos hp]
      refine pairwise_append.mpr ⟨h.order p, pairwise_singleton _ _, fun y hy z hz he => ?_⟩
      rw [mem_singleton.mp hz] at he ⊢
      exact hnew p y hy (he.trans hxt)
    · rw [if_neg hp, append_nil]
      exact h.order p
  · by_cases hut : u = t
    · rw [hut, hpc] at hu
      cases hu
    · rw [hother u hut] at hu
      obtain ⟨hyt, hys, hold⟩ := h.pending u y hu
      refine ⟨hyt, lt_of_lt_of_le hys (hseq u), fun p z hz hzu => ?_⟩
      rcases (hmem p z).mp hz with hz | ⟨_, rfl⟩
      · exact hold p z hz hzu
      · exact absurd (hzu.symm.trans hxt) hut
  · by_cases hut : u = t
    · rw [hut, hpc] at hu
      cases hu
      exact (hmem _ _).mpr (.inr ⟨rfl, rfl⟩)
    · rw [hother u hut] at hu
      exact hsub _ _ (h.sent u r' b' y hu)
  · exact hsub _ _ (h.done y (hdone ▸ hy))

end Bunix.Kernel.IpcSystem
