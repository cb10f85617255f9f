import Bunix.Kernel.IpcThreads

/-! # Failed sends

When `ipc_send` returns -1 the message should not have gone anywhere. That holds as long as a
receiver that was handed a message is still blocked when the sender comes to `thread_handoff`;
another sender may have woken it through a second port, and then the send of a delivered
message is reported as failed.
-/
namespace Bunix.Kernel

open Bunix.Lib Function List

variable {k n : Nat} {pc : ThreadPc}

/-! ## The messages in ports and wait records -/

namespace Ipc

variable {M : Type} {s s' : Ipc M} {p : PortId} {t r : ThreadId} {w : WaitId} {m y : M} {i : Nat}
  {ps : List PortId} {call : RecvCall}

def Contains (s : Ipc M) (y : M) : Prop := (∃ p, y ∈ (s.ports p).queue) ∨ ∃ w i, s.waits w = some (y, i)

theorem Contains.mono (h : s'.Contains y) (hq : ∀ p, (s'.ports p).queue ⊆ (s.ports p).queue)
    (hw : ∀ w d, s'.waits w = some d → s.waits w = some d) : s.Contains y := by
  rcases h with ⟨p, hp⟩ | ⟨w, i, hwi⟩
  · exact .inl ⟨p, hq p hp⟩
  · exact .inr ⟨w, i, hw w _ hwi⟩

theorem contains_setWait_none (h : (s.setWait w none).Contains y) : s.Contains y := by
  refine h.mono (fun _ => Subset.refl _) fun v d hv => ?_
  exact setWait_cases (fun _ hv => by cases hv) (fun _ hv => hv) hv

theorem contains_register (h : (s.register t w ps).Contains y) : s.Contains y := by
  refine h.mono (fun p => ?_) fun _ _ hv => hv
  simp only [register]
  split <;> exact Subset.refl _

theorem contains_unregister (h : (s.unregister t ps).Contains y) : s.Contains y := by
  refine h.mono (fun p => ?_) fun _ _ hv => hv
  rw [unregister_queue]
  exact Subset.refl _

theorem contains_cancelThread (h : (s.cancelThread t).Contains y) : s.Contains y := by
  refine h.mono (fun p => ?_) fun _ _ hv => hv
  simp only [cancelThread]
  split <;> exact Subset.refl _

theorem contains_setPort {port} (h : (s.setPort p port).Contains y)
    (hq : port.queue ⊆ (s.ports p).queue) : s.Contains y := by
  refine h.mono (fun q => ?_) fun _ _ hv => hv
  exact setPort_cases (fun hqp => hqp ▸ hq) fun _ => Subset.refl _

theorem contains_take (hs : s.take p = some (m, s')) :
    s.Contains m ∧ ∀ y, s'.Contains y → s.Contains y := by
  obtain ⟨rest, hq, rfl⟩ := take_some hs
  constructor
  · exact .inl ⟨p, by simp [hq]⟩
  · intro y hy
    refine contains_setPort hy ?_
    rw [hq]
    exact subset_cons_self m rest

theorem contains_sendDirect (hs : s.sendDirect p m = some (r, s')) (h : s'.Contains y) :
    y = m ∨ s.Contains y := by
  obtain ⟨w, _, _, _, _, rfl⟩ := sendDirect_some hs
  rcases contains_setPort h (Subset.refl _) with ⟨q, hq⟩ | ⟨v, i, hv⟩
  · exact .inr (.inl ⟨q, hq⟩)
  refine setWait_cases (fun _ hv => ?_) (fun _ hv => .inr (.inr ⟨v, i, hv⟩)) hv
  cases hv
  exact .inl rfl

theorem contains_sendQueue (h : (s.sendQueue p m).2.Contains y) : y = m ∨ s.Contains y := by
  rcases h with ⟨q, hq⟩ | hv
  · by_cases hqp : q = p
    · subst hqp
      simp only [sendQueue, setPort_ports_self, mem_append, mem_singleton] at hq
      exact hq.symm.imp_right fun hq => .inl ⟨q, hq⟩
    · simp only [sendQueue, setPort_ports_ne _ hqp] at hq
      exact .inr (.inl ⟨q, hq⟩)
  · exact .inr (.inr hv)

theorem contains_recvRound : (∀ i m, (s.recvRound t w call).1 = some (i, m) → s.Contains m) ∧
      ∀ y, (s.recvRound t w call).2.Contains y → s.Contains y := by
  cases htake : s.takeAny call.ports with
  | some r =>
    obtain ⟨p, _, hp⟩ := takeAny_some htake
    obtain ⟨hm, hrest⟩ := contains_take hp
    rw [recvRound_some htake]
    refine ⟨fun j n hn => ?_, hrest⟩
    cases hn
    exact hm
  | none =>
    unfold recvRound
    rw [htake]
    refine ⟨fun i m (hm : none = some (i, m)) => (by cases hm), fun y hy => ?_⟩
    have hy := contains_register hy
    cases call with
    | recv p => exact contains_setWait_none hy
    | recvAny ps => exact hy

theorem contains_recvResume : (∀ i m, (s.recvResume t w call).1 = some (i, m) → s.Contains m) ∧
      ∀ y, (s.recvResume t w call).2.Contains y → s.Contains y := by
  obtain ⟨s₁, hs₁, hresume⟩ := s.recvResume_from t w call
  have hsub : ∀ y, s₁.Contains y → s.Contains y := by
    rcases hs₁ with rfl | ⟨ps, rfl⟩
    exacts [fun _ h => h, fun _ => contains_unregister]
  rw [hresume]
  cases hw : s₁.waits w with
  | some d =>
    refine ⟨fun i m hm => ?_, hsub⟩
    cases hm
    exact hsub _ (.inr ⟨w, _, hw⟩)
  | none => exact ⟨fun i m hm => hsub m (contains_recvRound.1 i m hm),
      fun y hy => hsub y (contains_recvRound.2 y hy)⟩

end Ipc

namespace IpcThreads

variable {taskOf : ThreadId → TaskId} {s s' : IpcThreads} {t u : ThreadId} {x y : Sent IpcMessage}
  {p : PortId} {w : WaitId} {call : RecvCall} {o : Obj}

/-- The message has been put somewhere by a send. -/
def Present (s : IpcThreads) (y : Sent IpcMessage) : Prop := s.ipc.Contains y ∨ ∃ p, y ∈ s.returned p

/-- The message a thread has still to place, and how often it has taken its references. -/
def pending : ThreadPc → Option (Sent IpcMessage × Nat)
  | .sending x | .missed x | .queueing x => some (x, 1)
  | .allocating x => some (x, 0)
  | _ => none

/-- No send has placed the message, and its send holds its references so many times. -/
inductive Unplaced (s : IpcThreads) (x : Sent IpcMessage) : Nat → Prop
  | fresh (h : s.seq x.thread ≤ x.seq) : Unplaced s x 0
  | pending {t : ThreadId} {n : Nat} (h : pending (s.pc t) = some (x, n)) : Unplaced s x n
  | failed (h : x ∈ s.failed) : Unplaced s x 0

/-- What a send has done before it places its message: nothing but taking references. -/
structure SendInv (s : IpcThreads) (x : Sent IpcMessage) : Prop where
  own : ∀ t n, pending (s.pc t) = some (x, n) → x.thread = t ∧ x.seq < s.seq t ∧ x ∉ s.failed
  old : x ∈ s.failed → x.seq < s.seq x.thread
  unplaced : ∀ n, s.Unplaced x n → ¬ s.Present x ∧ ∀ o, s.net x o = n * x.payload.refs.count o

theorem SendInv.frame (h : SendInv s x) (hseq : ∀ u, s.seq u ≤ s'.seq u) (hnet : s'.net x = s.net x)
    (hfailed : x ∈ s'.failed ↔ x ∈ s.failed)
    (hpc : ∀ u n, pending (s'.pc u) = some (x, n) → pending (s.pc u) = some (x, n))
    (hpresent : s'.Present x → s.Present x) : SendInv s' x where
  own u n hx := by
    obtain ⟨hu, hlt, hno⟩ := h.own u n (hpc u n hx)
    exact ⟨hu, hlt.trans_le (hseq u), fun hf => hno (hfailed.mp hf)⟩
  old hf := (h.old (hfailed.mp hf)).trans_le (hseq _)
  unplaced n hn := by
    have hn : s.Unplaced x n := by
      cases hn with
      | fresh hle => exact .fresh ((hseq _).trans hle)
      | pending hx => exact .pending (hpc _ _ hx)
      | failed hf => exact .failed (hfailed.mp hf)
    obtain ⟨hno, hcount⟩ := h.unplaced n hn
    exact ⟨fun hp => hno (hpresent hp), hnet ▸ hcount⟩

/-- A step of the send of the message, after which it holds the references `k` times. -/
theorem SendInv.of_own (hlt : x.seq < s'.seq x.thread)
    (hpc : ∀ u n, pending (s'.pc u) = some (x, n) → x.thread = u ∧ n = k ∧ x ∉ s'.failed)
    (hfailed : x ∈ s'.failed → k = 0)
    (hun : s'.Unplaced x k → ¬ s'.Present x ∧ ∀ o, s'.net x o = k * x.payload.refs.count o) :
    SendInv s' x where
  own u n hx := by
    obtain ⟨rfl, -, hno⟩ := hpc u n hx
    exact ⟨rfl, hlt, hno⟩
  old _ := hlt
  unplaced n hn := by
    have hk : n = k := by
      cases hn with
      | fresh hle => exact absurd hle (Nat.not_le.mpr hlt)
      | pending hx => exact (hpc _ _ hx).2.1
      | failed hf => exact (hfailed hf).symm
    exact hk ▸ hun (hk ▸ hn)

/-- Where the messages are that are still to be placed, when thread `t` has gone on. -/
theorem pending_setPc (hu : pending ((s.setPc t pc).pc u) = some (y, n)) :
    u = t ∧ pending pc = some (y, n) ∨ u ≠ t ∧ pending (s.pc u) = some (y, n) := by
  exact setPc_cases (fun hut hu => .inl ⟨hut, hu⟩) (fun hut hu => .inr ⟨hut, hu⟩) hu

section
variable (h : ∀ y, SendInv s y)
include h

theorem SendInv.ne_of_pending (hx : pending (s.pc t) = some (x, n))
    (hy : pending (s.pc u) = some (y, m)) (hut : u ≠ t) : y ≠ x := by
  rintro rfl
  exact hut (((h y).own u m hy).1.symm.trans ((h y).own t n hx).1)

/-- A thread goes on in the send of `x`, and does nothing to other messages. -/
theorem SendInv.sending (hpc : ∀ m, pending pc = some (y, m) → y = x) (hy : y ≠ x)
    (hs : s'.pc = s.pc) (hseq : s'.seq = s.seq) (hnet : s'.net y = s.net y) (hfailed : y ∈ s'.failed ↔ y ∈ s.failed)
    (hpresent : s'.Present y → s.Present y) : SendInv (s'.setPc t pc) y := by
  refine (h y).frame (fun u => hseq ▸ le_rfl) hnet hfailed (fun u m hu => ?_) hpresent
  rcases pending_setPc hu with ⟨-, hn⟩ | ⟨-, hn⟩
  · exact absurd (hpc m hn) hy
  · rwa [hs] at hn

theorem SendInv.place {ipc : Ipc (Sent IpcMessage)}
    (hx : pending (s.pc t) = some (x, n)) (hpc : pending pc = none)
    (hpresent : ∀ y, ipc.Contains y → y = x ∨ s.ipc.Contains y) (y : Sent IpcMessage) :
    SendInv ({ s with ipc }.setPc t pc) y := by
  by_cases hy : y = x
  · subst hy
    obtain ⟨rfl, hlt, hno⟩ := (h y).own t n hx
    have hnot : ∀ u m, pending (({ s with ipc }.setPc y.thread pc).pc u) ≠ some (y, m) := by
      intro u m hu
      rcases pending_setPc hu with ⟨-, hu⟩ | ⟨hut, hu⟩
      · rw [hpc] at hu
        cases hu
      · exact SendInv.ne_of_pending h hx hu hut rfl
    refine .of_own (k := 0) hlt (fun u m hu => absurd hu (hnot u m)) (fun hf => absurd hf hno) fun hun => ?_
    cases hun with
    | fresh hle => exact absurd hle (Nat.not_le.mpr hlt)
    | pending hu => exact absurd hu (hnot _ _)
    | failed hf => exact absurd hf hno
  · refine SendInv.sending h (fun m hm => ?_) hy rfl rfl rfl Iff.rfl fun hp => ?_
    · rw [hpc] at hm
      cases hm
    · exact hp.imp_left fun hc => (hpresent y hc).resolve_left hy

theorem SendInv.goOn {net : Sent IpcMessage → Obj → Int} {ref : Obj → Nat}
    (hx : pending (s.pc t) = some (x, n)) (hpc : pending pc = some (x, k))
    (hnet : ∀ o, net x o = k * x.payload.refs.count o) (hother : ∀ y, y ≠ x → net y = s.net y)
    (y : Sent IpcMessage) : SendInv ({ s with ref, net }.setPc t pc) y := by
  by_cases hy : y = x
  · subst hy
    obtain ⟨rfl, hlt, hno⟩ := (h y).own t n hx
    refine .of_own hlt (fun u m hu => ?_) (fun hf => absurd hf hno) fun _ =>
      ⟨((h y).unplaced n (.pending hx)).1, hnet⟩
    rcases pending_setPc hu with ⟨hut, hn⟩ | ⟨hut, hn⟩
    · rw [hpc] at hn
      cases hn
      exact ⟨hut.symm, rfl, hno⟩
    · exact absurd rfl (SendInv.ne_of_pending h hx hn hut)
  · refine SendInv.sending h (fun m hm => ?_) hy rfl rfl (hother y hy) Iff.rfl id
    rw [hpc] at hm
    cases hm
    rfl

theorem SendInv.fail (hx : pending (s.pc t) = some (x, 0)) (y : Sent IpcMessage) :
    SendInv ({ s with failed := x :: s.failed }.setPc t .idle) y := by
  by_cases hy : y = x
  · subst hy
    obtain ⟨rfl, hlt, hno⟩ := (h y).own t 0 hx
    refine .of_own hlt (fun u m hu => ?_) (fun _ => rfl) fun _ => (h y).unplaced 0 (.pending hx)
    rcases pending_setPc hu with ⟨-, hu⟩ | ⟨hut, hu⟩
    · cases hu
    · exact absurd rfl (SendInv.ne_of_pending h hx hu hut)
  · exact SendInv.sending h (fun m hm => by cases hm) hy rfl rfl rfl (by simp [hy]) id

theorem SendInv.send {m : IpcMessage} (y : Sent IpcMessage) :
    SendInv (({ s with seq := update s.seq t (s.seq t + 1) }.retain
      (s.newSent taskOf t p m)).setPc t (.sending (s.newSent taskOf t p m))) y := by
  generalize hx : s.newSent taskOf t p m = x
  obtain ⟨rfl, hseq⟩ : x.thread = t ∧ x.seq = s.seq t := by
    rw [← hx]
    exact ⟨rfl, rfl⟩
  have hle : ∀ u, s.seq u ≤ update s.seq x.thread (s.seq x.thread + 1) u := by
    intro u
    exact le_update_succ s.seq
  by_cases hy : y = x
  · subst hy
    have hlt : y.seq < update s.seq y.thread (s.seq y.thread + 1) y.thread := by
      rw [update_self]
      omega
    have hno : y ∉ s.failed := fun hf => absurd ((h y).old hf) (by omega)
    obtain ⟨hnew, hzero⟩ := (h y).unplaced 0 (.fresh hseq.ge)
    refine .of_own (k := 1) hlt (fun u n hu => ?_) (fun hf => absurd hf hno) fun _ => ⟨hnew, fun o => ?_⟩
    · rcases pending_setPc hu with ⟨hut, hn⟩ | ⟨-, hn⟩
      · cases hn
        exact ⟨hut.symm, rfl, hno⟩
      · obtain ⟨rfl, hold, -⟩ := (h y).own u n hn
        omega
    · show update s.net y _ y o = _
      rw [update_self, hzero]
      simp
  · refine (h y).frame hle (update_of_ne hy ..) Iff.rfl (fun u n hu => ?_) id
    rcases pending_setPc hu with ⟨-, hu⟩ | ⟨-, hu⟩
    · cases hu
      exact absurd rfl hy
    · exact hu

end

theorem SendInv.leave (h : SendInv s y) (hs : s'.pc = update s.pc t pc)
    (hpc : pending pc = none) (hseq : s'.seq = s.seq) (hnet : s'.net = s.net) (hfailed : s'.failed = s.failed)
    (hpresent : s'.Present y → s.Present y) : SendInv s' y := by
  refine h.frame (fun u => hseq ▸ le_rfl) (hnet ▸ rfl) (hfailed ▸ Iff.rfl) (fun u n hu => ?_) hpresent
  rw [hs] at hu
  rcases pending_setPc hu with ⟨-, hu⟩ | ⟨-, hu⟩
  · rw [hpc] at hu
    cases hu
  · exact hu

theorem present_log (hy : (s.log p x).Present y) : y = x ∨ s.Present y := by
  rcases hy with hy | ⟨q, hq⟩
  · exact .inr (.inl hy)
  simp only [log] at hq
  refine update_cases (fun _ hq => ?_) (fun _ hq => .inr (.inr ⟨q, hq⟩)) hq
  rw [mem_append, mem_singleton] at hq
  rcases hq with hq | rfl
  · exact .inr (.inr ⟨p, hq⟩)
  · exact .inl rfl

theorem SendInv.settle (h : SendInv s y) {r : Option (Nat × Sent IpcMessage) × Ipc (Sent IpcMessage)}
    (hr : ∀ i x, r.1 = some (i, x) → s.ipc.Contains x) (hipc : ∀ y, r.2.Contains y → s.ipc.Contains y) :
    SendInv (s.settle t w call r) y := by
  unfold IpcThreads.settle
  split
  · rename_i i x hx
    split
    · refine h.leave rfl rfl rfl rfl rfl fun hy => ?_
      rcases present_log hy with rfl | hy
      · exact .inl (hr i y hx)
      · exact hy.imp_left (hipc y)
    · exact h.leave rfl rfl rfl rfl rfl (.imp_left (hipc y))
  · split
    · refine h.leave rfl rfl rfl rfl rfl (.imp_left fun hc => ?_)
      cases call with
      | recv p => exact hc
      | recvAny ps => exact Ipc.contains_unregister hc
    · exact h.leave rfl rfl rfl rfl rfl (.imp_left (hipc y))

/-! ## Runs -/

/-- A receiver that is handed a message is blocked. -/
def handoffMet (s : IpcThreads) : ThreadOp → Bool
  | .wake t _ =>
    match s.pc t with
    | .waking receiver true _ => !s.handoffInvalid receiver
    | _ => true
  | _ => true

theorem SendInv.wake (h : SendInv s y) {receiver : Option ThreadId} {handoff here : Bool}
    (hpc : s.pc t = .waking receiver handoff x) (hg : s.handoffMet (.wake t here) = true) :
    SendInv (s.sendEnd t receiver handoff here x) y := by
  obtain ⟨blocked, wakeups, heq⟩ := threadUnblock_eq receiver
  unfold sendEnd
  rw [heq]
  cases handoff with
  | false => exact h.leave rfl rfl rfl rfl rfl id
  | true =>
    simp only [handoffMet, hpc, Bool.not_eq_true'] at hg
    simp only [if_true, hg, Bool.false_eq_true, if_false]
    split
    · exact h.leave rfl rfl rfl rfl rfl id
    · exact h.leave rfl rfl rfl rfl rfl id

theorem SendInv.step {op : ThreadOp} (h : ∀ y, SendInv s y) (hg : s.handoffMet op = true)
    (hs : IpcThreads.step taskOf s op = some s') (y : Sent IpcMessage) : SendInv s' y := by
  cases step_move hs with
  | send hpc => exact SendInv.send h y
  | direct hpc hlock hfound =>
    exact SendInv.place h (congrArg pending hpc) rfl (fun y => Ipc.contains_sendDirect hfound) y
  | queue hpc hlock => exact SendInv.place h (congrArg pending hpc) rfl (fun y => Ipc.contains_sendQueue) y
  | @miss t x hpc =>
    exact SendInv.goOn h (congrArg pending hpc) rfl ((h x).unplaced 1 (.pending (congrArg pending hpc))).2
      (fun _ _ => rfl) y
  | @drop t x hpc | @alloc t x hpc =>
    refine SendInv.goOn h (congrArg pending hpc) rfl (fun o => ?_)
      (fun _ hne => update_of_ne hne ..) y
    rw [update_self, ((h x).unplaced _ (.pending (congrArg pending hpc))).2 o]
    simp
  | fail hpc => exact SendInv.fail h (congrArg pending hpc) y
  | wake hpc => exact (h y).wake hpc hg
  | recv hpc =>
    have h₁ : SendInv { s with nextWait := s.nextWait + 1 } y :=
      (h y).frame (fun _ => le_rfl) rfl Iff.rfl (fun _ _ hu => hu) id
    exact h₁.settle (fun i x hx => Ipc.contains_setWait_none (Ipc.contains_recvRound.1 i x hx))
      fun y hy => Ipc.contains_setWait_none (Ipc.contains_recvRound.2 y hy)
  | resume hpc => exact (h y).settle Ipc.contains_recvResume.1 Ipc.contains_recvResume.2
  | tryRecv htake =>
    obtain ⟨hx, hipc⟩ := Ipc.contains_take htake
    refine (h y).frame (fun _ => le_rfl) rfl Iff.rfl (fun _ _ hu => hu) fun hy => ?_
    rcases present_log hy with rfl | hy
    · exact .inl hx
    · exact hy.imp_left (hipc y)
  | stay => exact h y
  | kill => exact (h y).frame (fun _ => le_rfl) rfl Iff.rfl (fun _ _ hu => hu) id
  | cancel => exact (h y).leave rfl rfl rfl rfl rfl (.imp_left Ipc.contains_cancelThread)
  | @unblock t victim hpc =>
    obtain ⟨blocked, wakeups, heq⟩ := threadUnblock_eq (some victim)
    rw [heq]
    exact (h y).leave rfl rfl rfl rfl rfl id
  | reap => exact (h y).leave rfl rfl rfl rfl rfl id

theorem SendInv.of_init (h : Init s) (x : Sent IpcMessage) : SendInv s x := by
  have hno : ¬ s.Present x := by
    rintro ((⟨p, hp⟩ | ⟨w, i, hw⟩) | ⟨p, hp⟩)
    · rw [h.ports p] at hp
      cases hp
    · rw [h.waits w] at hw
      cases hw
    · rw [h.returned p] at hp
      cases hp
  have hidle : ∀ t n, pending (s.pc t) ≠ some (x, n) := by
    intro t n hx
    rw [h.pc t] at hx
    cases hx
  have hfailed : x ∉ s.failed := by simp [h.failed]
  refine ⟨fun t n hx => absurd hx (hidle t n), fun hf => absurd hf hfailed, fun n hn => ⟨hno, fun o => ?_⟩⟩
  cases hn with
  | fresh => simp [h.net]
  | pending hx => exact absurd hx (hidle _ _)
  | failed hf => exact absurd hf hfailed

theorem SendInv.run {ops} (h : ∀ y, SendInv s y)
    (hr : Run (fun s op s' => s.handoffMet op = true ∧ IpcThreads.step taskOf s op = some s') s ops s') :
    ∀ y, SendInv s' y :=
  hr.invariant (P := fun s => ∀ y, SendInv s y) (fun _ _ _ hs hstep => SendInv.step hs hstep.1 hstep.2) h

theorem failed_step {op} (hs : step taskOf s op = some s') (hx : x ∈ s.failed) :
    x ∈ s'.failed := by
  have hsettle : ∀ (s : IpcThreads) t w call r, (s.settle t w call r).failed = s.failed := by
    intro s t w call r
    unfold IpcThreads.settle
    split
    · split <;> rfl
    · split <;> rfl
  cases step_move hs with
  | @wake t receiver =>
    obtain ⟨blocked, wakeups, heq⟩ := threadUnblock_eq receiver
    unfold sendEnd
    rw [heq]
    split
    · split
      · exact mem_cons_of_mem _ hx
      · split <;> exact hx
    · exact hx
  | fail => exact mem_cons_of_mem _ hx
  | recv | resume =>
    rw [hsettle]
    exact hx
  | @unblock t victim =>
    obtain ⟨blocked, wakeups, heq⟩ := threadUnblock_eq (some victim)
    rw [heq]
    exact hx
  | send | direct | miss | drop | alloc | queue | tryRecv | stay | kill | cancel | reap => exact hx

/-- **A failed send has no effect**, in every run in which a receiver that is handed a message is
still blocked when the sender comes to `thread_handoff`: after -1 the message is not returned by
any receive call, now or later, and the send has not kept or dropped any reference. -/
theorem failed_send_neutral {ops : List ThreadOp} (hinit : s.Init)
    (hr : Run (fun s op s' => s.handoffMet op = true ∧ step taskOf s op = some s') s ops s')
    (hx : x ∈ s'.failed) :
    (∀ o, s'.net x o = 0) ∧ ∀ ops' s'',
      Run (fun s op s' => s.handoffMet op = true ∧ step taskOf s op = some s') s' ops' s'' →
      ∀ p, x ∉ s''.returned p := by
  have h := SendInv.run (SendInv.of_init hinit) hr
  refine ⟨fun o => by simpa using ((h x).unplaced 0 (.failed hx)).2 o, fun ops' s'' hr' p hp => ?_⟩
  have hx'' : x ∈ s''.failed :=
    hr'.invariant (P := fun s => x ∈ s.failed) (fun _ _ _ hx hstep => failed_step hstep.2 hx) hx
  exact ((SendInv.run h hr' x).unplaced 0 (.failed hx'')).1 (.inr ⟨p, hp⟩)

/-- Thread 1 cannot allocate a node; thread 0 comes to wait for the next message. -/
def allocFails : List ThreadOp :=
  [.send 1 0 (plain 7), .direct 1, .drop 1, .recv 0 (.recv 0), .alloc 1 false, .send 2 0 (plain 8),
    .direct 2, .wake 2 true, .resume 0]

theorem failed_send_neutral_allocFails : ∃ s' x,
    Run (fun s op s' => s.handoffMet op = true ∧ step id s op = some s') empty allocFails s' ∧
    x ∈ s'.failed ∧ x.payload.type = 7 ∧ (s'.returned 0).map (fun y => y.payload.type) = [8] ∧
    (∀ o, s'.net x o = 0) ∧ ∀ p, x ∉ s'.returned p := by
  obtain ⟨s', hr, ⟨x, hx, htype⟩, hreturned⟩ := Run.exists_of_exec_guard (step id) empty allocFails
    (fun s' => (∃ x ∈ s'.failed, x.payload.type = 7) ∧
      (s'.returned 0).map (fun y => y.payload.type) = [8])
    (fun s op => s.handoffMet op = true) (by decide +kernel)
  obtain ⟨hnet, hnever⟩ := failed_send_neutral empty_init hr hx
  exact ⟨s', x, hr, hx, htype, hreturned, hnet, hnever [] s' (.nil s')⟩

/-- Thread 0 waits on two ports. Thread 1 hands it a message; before thread 1 comes to
`thread_handoff`, thread 2 queues a message on the other port and wakes thread 0. -/
def wokenTwice : List ThreadOp :=
  [.recv 0 (.recvAny [1, 2]), .send 1 1 (plain 7), .direct 1, .send 2 2 (plain 8), .direct 2, .drop 2,
    .alloc 2 true, .queue 2, .wake 2 true, .wake 1 true, .resume 0]

theorem failed_send_received : ∃ s' x,
    Run (fun s op s' => step id s op = some s') empty wokenTwice s' ∧ x ∈ s'.failed ∧ x ∈ s'.returned 1 := by
  obtain ⟨s', hrun, x, hx, hmem⟩ := Run.exists_of_exec (step id) empty wokenTwice
    (fun s' => ∃ x ∈ s'.failed, x ∈ s'.returned 1) (by decide +kernel)
  exact ⟨s', x, hrun, hx, hmem⟩

end IpcThreads

end Bunix.Kernel
