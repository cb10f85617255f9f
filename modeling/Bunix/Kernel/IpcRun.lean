import Bunix.Kernel.IpcInv

/-! # Runs of senders and receivers

Both invariants hold along every run. A message is then found at one place only: its position
in the stream of its port.
-/
namespace Bunix.Kernel.IpcSystem

open Bunix.Lib Function List Nat

variable {α : Type} {owner : PortId → ThreadId} {wantsReply : α → Bool} {s s' : IpcSystem α}
  {p : PortId} {t u : ThreadId} {w : WaitId} {x y : Sent α} {call : RecvCall} {l l' : Loc}

structure DeliveryInv (owner : PortId → ThreadId) (s : IpcSystem α) : Prop where
  wait : WaitInv owner s
  stream : StreamInv owner s

theorem Init.inv (h : Init s) (owner : PortId → ThreadId) : DeliveryInv owner s := by
  have hpc : ∀ t pc, s.pc t = pc → pc = .idle := by
    intro t pc ht
    rw [← ht, h.pc_eq]
  have hstream : ∀ p, s.stream owner p = [] := by
    intro p
    have hd : s.delivered (owner p) = none := delivered_of_awake fun w call hw => by
      cases hpc _ _ hw
    unfold IpcSystem.stream
    rw [slot_of_none hd, h.returned_eq, h.ports_eq]
    rfl
  have hwait : ∀ t, s.waiting t = none := fun t =>
    Awake.waiting_eq_none fun w call hw => by cases hpc _ _ hw
  constructor
  · constructor
    · constructor
      case registered =>
        intro p t ht
        rw [h.ports_eq] at ht
        cases ht
      all_goals simp [hwait]
    · intro t w call ht
      cases hpc _ _ ht
    · intro t w call x i ht
      cases hpc _ _ ht
  · constructor
    · intro p x hx
      rw [hstream] at hx
      cases hx
    · intro p
      rw [hstream]
      exact .nil
    · intro t x ht
      cases hpc _ _ ht
    · intro t r b x ht
      cases hpc _ _ ht
    · intro x hx
      rw [h.completed_eq] at hx
      cases hx

/-! ## Steps -/

theorem awake_of_eq {pc} (ht : s.pc t = pc) (hpc : ∀ w call, pc ≠ .waiting w call) :
    Awake s t := by
  intro w call hw
  exact hpc w call (ht.symm.trans hw)

theorem step_pc {op} (hs : step wantsReply owner s op = some s') :
    match op with
    | .send t .. | .recv t _ | .tryRecv t _ => s.pc t = .idle
    | .queue t _ => ∃ x, s.pc t = .queueing x
    | .wake t => ∃ r b x, s.pc t = .waking r b x
    | .resume t => ∃ w call, s.pc t = .waiting w call := by
  cases op with
  | send t | recv t | tryRecv t | queue t | wake t | resume t =>
    unfold step at hs
    cases hpc : s.pc t
    all_goals simp [hpc] at hs ⊢

theorem idle_quiet : (IpcPc.idle : IpcPc α).Quiet := trivial

theorem quiet_update {pc} (hpc : pc.Quiet) (he : s'.pc = update s.pc t pc)
    (u : ThreadId) : s'.pc u = s.pc u ∨ (s'.pc u).Quiet := by
  rw [he]
  exact update_cases (fun _ => .inr hpc) fun _ => .inl rfl

theorem settle_pc (s : IpcSystem α) (t : ThreadId) (w : WaitId) (call : RecvCall)
    (r : Option (Nat × Sent α) × Ipc (Sent α)) :
    ∃ pc, pc.Quiet ∧ (s.settle t w call r).pc = update s.pc t pc := by
  unfold settle
  split
  · split
    · exact ⟨.idle, idle_quiet, rfl⟩
    · exact ⟨.idle, idle_quiet, rfl⟩
  · exact ⟨.waiting w call, trivial, rfl⟩

theorem settle_seq (r : Option (Nat × Sent α) × Ipc (Sent α)) : (s.settle t w call r).seq = s.seq := by
  unfold settle
  split
  · split <;> rfl
  · rfl

theorem settle_completed (r : Option (Nat × Sent α) × Ipc (Sent α)) :
    (s.settle t w call r).completed = s.completed := by
  unfold settle
  split
  · split <;> rfl
  · rfl

theorem settle_setPc (pc : IpcPc α) (r : Option (Nat × Sent α) × Ipc (Sent α)) :
    (s.setPc t pc).settle t w call r = s.settle t w call r := by
  have hpc : ∀ pc', update (update s.pc t pc) t pc' = update s.pc t pc' := fun pc' => update_idem ..
  unfold settle
  split
  · split <;> simp [IpcSystem.setPc, IpcSystem.log, hpc]
  · simp [IpcSystem.setPc, hpc]

section
variable (h : DeliveryInv owner s)
include h

theorem DeliveryInv.settle (ht : Awake s t) (hw : w < s.nextWait)
    (hfree : ∀ u call', s.pc u ≠ .waiting w call') (hnone : s.ipc.waits w = none)
    (hn : call.ports.Nodup) (ho : ∀ p ∈ call.ports, owner p = t) :
    DeliveryInv owner (s.settle t w call (s.ipc.recvRound t w call)) := by
  constructor
  · exact h.wait.settle ht hw hfree hnone hn ho
  · obtain ⟨pc, hquiet, hpc⟩ := settle_pc s t w call (s.ipc.recvRound t w call)
    refine h.stream.same (stream_settle ht hnone ho) (settle_seq _) (quiet_update hquiet hpc) ?_
    intro y hy
    rw [settle_completed] at hy
    exact .inl hy

theorem DeliveryInv.send {payload}
    (hs : step wantsReply owner s (.send t p payload) = some s') : DeliveryInv owner s' := by
  have hpc : s.pc t = .idle := step_pc hs
  have ht : Awake s t := awake_of_eq hpc nofun
  simp only [IpcSystem.step, hpc] at hs
  have hnew : ∀ q, ∀ y ∈ s.stream owner q, y.thread = t → y.seq < s.seq t := by
    intro q y hy hyt
    rw [← hyt]
    exact (h.stream.port q y hy).2
  split at hs
  · rename_i r ipc hd
    cases hs
    have h₁ : WaitInv owner { s with seq := update s.seq t (s.seq t + 1) } := h.wait.congr rfl rfl rfl
    have h₂ := h₁.sendDirect (x := ⟨t, s.seq t, p, payload⟩) rfl hd
    have hstream := h₁.stream_sendDirect (x := ⟨t, s.seq t, p, payload⟩) rfl hd
    constructor
    · exact h₂.setPc ht nofun
    · refine h.stream.append (x := ⟨t, s.seq t, p, payload⟩) rfl hnew (fun q => ?_) (fun u => ?_) ?_ (fun u hu => ?_)
        (setPc_pc_self _) rfl
      · rw [stream_setPc]
        · exact hstream q
        · exact ht
        · intro _ _ he
          cases he
      · exact le_update_succ s.seq
      · show s.seq t < update s.seq t (s.seq t + 1) t
        rw [update_self]
        exact lt_succ_self _
      · exact setPc_pc_ne _ hu
  · cases hs
    constructor
    · exact (h.wait.setPc ht fun _ _ he => by cases he).congr rfl rfl rfl
    · exact h.stream.start ht rfl rfl

theorem DeliveryInv.queue {alloc}
    (hs : step wantsReply owner s (.queue t alloc) = some s') : DeliveryInv owner s' := by
  obtain ⟨x, hpc⟩ := step_pc hs
  have ht : Awake s t := awake_of_eq hpc nofun
  simp only [IpcSystem.step, hpc] at hs
  split at hs
  · cases hs
    obtain ⟨hxt, hlt, hnew⟩ := h.stream.pending t x hpc
    constructor
    · exact h.wait.sendQueue.setPc ht nofun
    · refine h.stream.append hxt hnew (fun q => ?_) (fun _ => le_refl _) hlt
        (fun _ => setPc_pc_ne _) (setPc_pc_self _) rfl
      rw [stream_setPc]
      · exact stream_sendQueue q
      · exact ht
      · intro _ _ he
        cases he
  · cases hs
    constructor
    · exact h.wait.setPc ht nofun
    · exact h.stream.same (stream_setPc ht nofun) rfl
        (quiet_update idle_quiet rfl) fun _ => .inl

theorem DeliveryInv.wake (hs : step wantsReply owner s (.wake t) = some s') : DeliveryInv owner s' := by
  obtain ⟨r, b, x, hpc⟩ := step_pc hs
  have ht : Awake s t := awake_of_eq hpc nofun
  simp only [IpcSystem.step, hpc, Option.some.injEq] at hs
  subst hs
  constructor
  · exact (h.wait.setPc ht fun _ _ he => by cases he).congr rfl rfl rfl
  · refine h.stream.same (fun q => ?_) rfl (quiet_update idle_quiet rfl) fun y hy => ?_
    · exact stream_setPc ht (fun _ _ he => by cases he) q
    · -- what completes has been appended before
      replace hy : y ∈ (if (b && r.all fun r => !s.blocked r) then s.completed
        else x :: s.completed) := hy
      split at hy
      · exact .inl hy
      · rcases mem_cons.mp hy with rfl | hy
        · exact .inr (h.stream.sent t r b y hpc)
        · exact .inl hy

theorem DeliveryInv.newWait :
    DeliveryInv owner { s with ipc := s.ipc.setWait s.nextWait none, nextWait := s.nextWait + 1 } := by
  constructor
  · exact h.wait.newWait
  · refine h.stream.same (fun q => stream_congr rfl ?_ rfl) rfl (fun _ => .inl rfl) fun _ => .inl
    unfold delivered
    cases hpc : s.pc (owner q) with
    | waiting v call => exact Ipc.setWait_waits_ne _ (Nat.ne_of_lt (h.wait.records.fresh _ v call (waiting_eq.mpr hpc)))
    | idle | queueing y | waking r b y => rfl

theorem DeliveryInv.recv
    (hs : step wantsReply owner s (.recv t call) = some s') : DeliveryInv owner s' := by
  have hpc : s.pc t = .idle := step_pc hs
  have ht : Awake s t := awake_of_eq hpc nofun
  simp only [IpcSystem.step, hpc] at hs
  split at hs
  · rename_i ho
    split at hs
    · rename_i hvalid
      cases hs
      refine h.newWait.settle ht (lt_succ_self _) (fun u call' hu => ?_)
        (Ipc.setWait_waits_self _) (RecvCall.nodup_of_valid hvalid) ho
      exact absurd (h.wait.records.fresh u _ call' (waiting_eq.mpr hu)) (lt_irrefl _)
    · cases hs
      exact h
  · cases hs

theorem DeliveryInv.resume
    (hs : step wantsReply owner s (.resume t) = some s') : DeliveryInv owner s' := by
  obtain ⟨w, call, hpc⟩ := step_pc hs
  simp only [IpcSystem.step, hpc] at hs
  split at hs
  · cases hs
  cases hs
  rw [h.wait.records.recvResume_eq (waiting_eq.mpr hpc)]
  have hleave := h.wait.leave hpc
  cases hw : s.ipc.waits w with
  | some d =>
    obtain ⟨x, i⟩ := d
    have hvia := h.wait.via t w call x i hpc hw
    simp only [IpcSystem.settle, hvia]
    constructor
    · exact hleave.congr rfl rfl rfl
    · exact h.stream.same (h.wait.stream_deliver hpc hw hvia) rfl (quiet_update idle_quiet rfl)
        fun _ => .inl
  | none =>
    have hwt := waiting_eq.mpr hpc
    have h₁ : DeliveryInv owner ({ s with ipc := s.ipc.unregister t call.ports }.setPc t .idle) :=
      ⟨hleave, h.stream.same (stream_leave hpc hw) rfl (quiet_update idle_quiet rfl)
        fun _ => .inl⟩
    have hawake : Awake ({ s with ipc := s.ipc.unregister t call.ports }.setPc t .idle) t :=
      awake_of_eq (setPc_pc_self _) fun _ _ he => by cases he
    have hfree : ∀ u call', ({ s with ipc := s.ipc.unregister t call.ports }.setPc t .idle).pc u ≠
        .waiting w call' := by
      intro u call' hu
      refine setPc_cases (fun _ hu => by cases hu) (fun hut hu => ?_) hu
      exact hut (h.wait.records.distinct u t w call' call (waiting_eq.mpr hu) hwt)
    have h₂ := h₁.settle hawake (h.wait.records.fresh t w call hwt) hfree hw
      (h.wait.records.nodup t w call hwt) (h.wait.owned t w call hpc)
    rw [settle_setPc] at h₂
    exact h₂

theorem DeliveryInv.tryRecv
    (hs : step wantsReply owner s (.tryRecv t p) = some s') : DeliveryInv owner s' := by
  have hpc : s.pc t = .idle := step_pc hs
  have ht : Awake s t := awake_of_eq hpc nofun
  simp only [IpcSystem.step, hpc] at hs
  split at hs
  · rename_i ho
    split at hs
    · cases hs
      exact h
    rename_i x ipc htake
    cases hs
    have hd : s.delivered (owner p) = none := by
      rw [ho]
      exact delivered_of_awake ht
    constructor
    · exact (h.wait.take htake).congr rfl rfl rfl
    · exact h.stream.same (stream_take htake hd) rfl (fun _ => .inl rfl) fun _ => .inl
  · cases hs

theorem DeliveryInv.step {op}
    (hs : IpcSystem.step wantsReply owner s op = some s') : DeliveryInv owner s' := by
  cases op with
  | send t p payload => exact h.send hs
  | queue t alloc => exact h.queue hs
  | wake t => exact h.wake hs
  | recv t call => exact h.recv hs
  | resume t => exact h.resume hs
  | tryRecv t p => exact h.tryRecv hs

theorem DeliveryInv.run {ops}
    (hr : Run (fun s op s' => IpcSystem.step wantsReply owner s op = some s') s ops s') :
    DeliveryInv owner s' :=
  hr.invariant (fun _ _ _ hs hstep => hs.step hstep) h

end

/-! ## Places and positions -/

theorem StreamInv.nodup (h : StreamInv owner s) (p : PortId) : (s.stream owner p).Nodup := by
  refine (h.order p).imp fun hlt he => ?_
  subst he
  exact absurd (hlt rfl) (lt_irrefl _)

/-- The position of a place of port `p` in the stream of the port. -/
def pos (owner : PortId → ThreadId) (s : IpcSystem α) (p : PortId) : Loc → Nat
  | .returned _ i => i
  | .inWait _ => (s.returned p).length
  | .queued _ i => (s.returned p).length + (s.slot owner p).length + i

section
variable (h : DeliveryInv owner s)
include h

theorem DeliveryInv.inWait (hf : s.find (.inWait t) = some x) :
    t = owner x.port ∧ s.slot owner x.port = [x] := by
  obtain ⟨⟨y, i⟩, hd, rfl⟩ := Option.map_eq_some_iff.mp hf
  cases hpc : s.pc t with
  | waiting w call =>
    rw [delivered_waiting hpc] at hd
    have hport := mem_of_getElem? (h.wait.via t w call y i hpc hd)
    have howner : owner y.port = t := h.wait.owned t w call hpc _ hport
    have hslot : s.delivered (owner y.port) = some (y, i) := by
      rw [howner, delivered_waiting hpc, hd]
    unfold slot
    rw [hslot]
    exact ⟨howner.symm, if_pos rfl⟩
  | idle | queueing z | waking r b z => simp [delivered, hpc] at hd

theorem DeliveryInv.on (hf : s.find l = some x) : l.On owner x.port := by
  cases l with
  | queued p i =>
    have hmem : x ∈ s.stream owner p := mem_append_right _ (mem_of_getElem? hf)
    exact (h.stream.port p x hmem).1.symm
  | inWait t => exact (h.inWait hf).1
  | returned p i =>
    have hmem : x ∈ s.stream owner p := mem_append_left _ (mem_append_left _ (mem_of_getElem? hf))
    exact (h.stream.port p x hmem).1.symm

theorem DeliveryInv.getElem?_pos (hf : s.find l = some x) :
    (s.stream owner x.port)[s.pos owner x.port l]? = some x := by
  have hon := h.on hf
  unfold IpcSystem.stream
  cases l with
  | queued p i =>
    obtain rfl : p = x.port := hon
    rw [pos, getElem?_append_right (by simp), length_append, Nat.add_sub_cancel_left]
    exact hf
  | inWait t =>
    rw [(h.inWait hf).2, pos, append_assoc, getElem?_append_right (le_refl _)]
    simp
  | returned p i =>
    obtain rfl : p = x.port := hon
    obtain ⟨hlt, _⟩ := List.getElem?_eq_some_iff.mp hf
    rw [pos, append_assoc, getElem?_append_left hlt]
    exact hf

theorem DeliveryInv.pos_inj (hf : s.find l = some x)
    (hf' : s.find l' = some x) (hp : s.pos owner x.port l = s.pos owner x.port l') : l = l' := by
  have hon := h.on hf
  have hon' := h.on hf'
  have hreturned : ∀ p i, s.find (.returned p i) = some x → i < (s.returned p).length :=
    fun p i hx => (List.getElem?_eq_some_iff.mp hx).1
  have hslot : ∀ t, s.find (.inWait t) = some x → (s.slot owner x.port).length = 1 := by
    intro t hx
    rw [(h.inWait hx).2]
    rfl
  cases l with
  | queued p i =>
    obtain rfl : p = x.port := hon
    cases l' with
    | queued p' i' =>
      obtain rfl : p' = x.port := hon'
      simp only [pos, add_left_cancel_iff] at hp
      rw [hp]
    | inWait t' =>
      have := hslot t' hf'
      simp only [pos] at hp
      omega
    | returned p' i' =>
      obtain rfl : p' = x.port := hon'
      have := hreturned _ _ hf'
      simp only [pos] at hp
      omega
  | inWait t =>
    have hone := hslot t hf
    cases l' with
    | queued p' i' =>
      simp only [pos] at hp
      omega
    | inWait t' => rw [show t = owner x.port from hon, show t' = owner x.port from hon']
    | returned p' i' =>
      obtain rfl : p' = x.port := hon'
      have := hreturned _ _ hf'
      simp only [pos] at hp
      omega
  | returned p i =>
    obtain rfl : p = x.port := hon
    have hlt := hreturned _ _ hf
    cases l' with
    | queued p' i' | inWait t' =>
      simp only [pos] at hp
      omega
    | returned p' i' =>
      obtain rfl : p' = x.port := hon'
      simp only [pos] at hp
      rw [hp]

end

theorem find_of_mem_stream (hx : x ∈ s.stream owner p) : ∃ l, s.find l = some x := by
  rcases mem_append.mp hx with hx | hx
  · rcases mem_append.mp hx with hx | hx
    · obtain ⟨i, hi⟩ := mem_iff_getElem?.mp hx
      exact ⟨.returned p i, hi⟩
    · unfold slot at hx
      split at hx
      · rename_i y i hd
        split at hx
        · rw [mem_singleton] at hx
          subst hx
          exact ⟨.inWait (owner p), by rw [find, hd]; rfl⟩
        · cases hx
      · cases hx
  · obtain ⟨i, hi⟩ := mem_iff_getElem?.mp hx
    exact ⟨.queued p i, hi⟩

theorem DeliveryInv.exactlyOnce (h : DeliveryInv owner s) : ExactlyOnce owner s := by
  constructor
  · intro x l l' hf hf'
    have hl := h.getElem?_pos hf
    have hl' := h.getElem?_pos hf'
    obtain ⟨hlt, he⟩ := List.getElem?_eq_some_iff.mp hl
    obtain ⟨hlt', he'⟩ := List.getElem?_eq_some_iff.mp hl'
    exact h.pos_inj hf hf' (((h.stream.nodup x.port).getElem_inj_iff).mp (he.trans he'.symm))
  · intro x hx
    exact find_of_mem_stream (h.stream.done x hx)
  · intro x l hf
    exact h.on hf

theorem DeliveryInv.senderFifo (h : DeliveryInv owner s) : SenderFifo s := by
  intro p i j x y hx hy hthread hseq
  obtain rfl : p = x.port := h.on hx
  have hport : x.port = y.port := h.on hy
  have hi := h.getElem?_pos hx
  have hj := h.getElem?_pos hy
  rw [← hport] at hj
  obtain ⟨hlt, he⟩ := List.getElem?_eq_some_iff.mp hi
  obtain ⟨hlt', he'⟩ := List.getElem?_eq_some_iff.mp hj
  have horder := pairwise_iff_getElem.mp (h.stream.order x.port)
  simp only [pos] at hlt hlt' he he'
  by_contra hij
  rcases Nat.lt_or_eq_of_le (Nat.le_of_not_lt hij) with hji | hji
  · have hback := horder j i hlt' hlt hji
    rw [he, he'] at hback
    exact absurd (hback hthread.symm) (lt_asymm hseq)
  · subst hji
    rw [he] at he'
    rw [he'] at hseq
    exact absurd hseq (lt_irrefl _)

/-- **Delivery is exactly once and in order of sending**, whatever the interleaving. -/
theorem exactlyOnce_senderFifo (hinit : Init s) {ops : List (IpcOp α)}
    (hr : Run (fun s op s' => step wantsReply owner s op = some s') s ops s') :
    ExactlyOnce owner s' ∧ SenderFifo s' := by
  have h : DeliveryInv owner s' := (hinit.inv owner).run hr
  exact ⟨h.exactlyOnce, h.senderFifo⟩

def empty : IpcSystem Nat where
  ipc := { ports := fun _ => {}, waits := fun _ => none }
  pc := fun _ => .idle
  blocked := fun _ => false
  nextWait := 0
  seq := fun _ => 0
  returned := fun _ => []
  completed := []

/-- Thread 0 waits on two ports; thread 1 hands its message over while thread 2 still finds the
registration on the other port, and wakes thread 0 after it has gone on. -/
def overtaken : List (IpcOp Nat) :=
  [.recv 0 (.recvAny [1, 2]), .send 1 1 10, .send 2 2 20, .queue 2 true, .wake 1, .resume 0,
    .send 1 2 11, .wake 2, .queue 1 true, .wake 1, .tryRecv 0 2, .recv 0 (.recv 2), .send 2 2 21,
    .queue 2 true]

theorem exactlyOnce_senderFifo_overtaken : ∃ s', Run (fun s op s' => step (fun _ => false)
    (fun _ => 0) s op = some s') empty overtaken s' ∧
    (s'.returned 1).map Sent.payload = [10] ∧ (s'.returned 2).map Sent.payload = [20, 11] ∧
    ExactlyOnce (fun _ => 0) s' ∧ SenderFifo s' := by
  obtain ⟨s', hr, h₁, h₂⟩ := Run.exists_of_exec (step (fun _ => false) fun _ => 0) empty overtaken
    (fun s' => (s'.returned 1).map Sent.payload = [10] ∧ (s'.returned 2).map Sent.payload = [20, 11])
    (by decide +kernel)
  have hinit : Init empty := ⟨fun _ => rfl, fun _ => rfl, fun _ => rfl, rfl⟩
  exact ⟨s', hr, h₁, h₂, exactlyOnce_senderFifo hinit hr⟩

end Bunix.Kernel.IpcSystem
