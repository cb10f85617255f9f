import Bunix.Kernel.IpcThreads

/-! # Wake-ups

A port has one slot for a receiver, and a receive call overwrites it. As long as no thread enters
a receive call on a port that another thread is receiving from, a blocked receiver is registered
at each of its ports or somebody is about to wake it; hence nobody sleeps in front of a queued
message, and the next message wakes the receiver.
-/
namespace Bunix.Kernel

open Bunix.Lib Function Ipc Option Nat

variable {ps : List PortId} {pc : ThreadPc} {ipc : Ipc (Sent IpcMessage)}
  {r : Option (Nat × Sent IpcMessage) × Ipc (Sent IpcMessage)} {op : ThreadOp} {n : Nat}

namespace Ipc

variable {M : Type} {waiting : ThreadId → Option (WaitId × RecvCall)} {next : WaitId} {s : Ipc M}
  {p : PortId} {t u : ThreadId}

/-- Some slots that named thread `t` are empty now. -/
def Cleared (t : ThreadId) (s s' : Ipc M) : Prop :=
  ∀ p, s'.ports p = s.ports p ∨ (s.ports p).receiver = some t ∧ (s'.ports p).receiver = none

theorem cleared_cancelThread : Cleared t s (s.cancelThread t) := by
  intro p
  by_cases hp : (s.ports p).receiver = some t
  · exact .inr ⟨hp, by simp [cancelThread, hp]⟩
  · exact .inl (if_neg hp)

theorem cleared_unregister : Cleared t s (s.unregister t ps) := by
  intro p
  by_cases hp : p ∈ ps ∧ (s.ports p).receiver = some t
  · exact .inr ⟨hp.2, by simp [unregister, hp]⟩
  · exact .inl (if_neg hp)

section
variable {s' : Ipc M} (h : Cleared t s s')
include h

theorem Cleared.receiver (hu : u ≠ t) (hp : (s.ports p).receiver = some u) :
    (s'.ports p).receiver = some u := by
  rcases h p with heq | ⟨ht, -⟩
  · rwa [heq]
  · rw [hp] at ht
    exact absurd (some.inj ht) hu

theorem Cleared.of_receiver (hp : (s'.ports p).receiver = some u) : s'.ports p = s.ports p := by
  rcases h p with heq | ⟨-, hnone⟩
  · exact heq
  · rw [hp] at hnone
    cases hnone

theorem Cleared.empty (hempty : ∀ p u, (s.ports p).receiver = some u → (s.ports p).queue = []) :
    ∀ p u, (s'.ports p).receiver = some u → (s'.ports p).queue = [] := by
  intro p u hp
  have heq := h.of_receiver hp
  rw [heq] at hp ⊢
  exact hempty p u hp

end

theorem WaitInv.cancelThread (h : WaitInv waiting next s) : WaitInv waiting next (s.cancelThread t) := by
  refine ⟨h.fresh, h.distinct, h.nodup, fun p u hu => ?_, fun u w p hu hw hp => ?_⟩
  · have heq := cleared_cancelThread.of_receiver hu
    rw [heq] at hu ⊢
    exact h.registered p u hu
  · have heq := cleared_cancelThread.of_receiver hp
    rw [heq] at hp
    exact h.once u w p hu hw hp

theorem WaitInv.succ (h : WaitInv waiting next s) : WaitInv waiting (next + 1) s :=
  ⟨fun t w call ht => lt_succ_of_lt (h.fresh t w call ht), h.distinct, h.nodup, h.registered, h.once⟩

end Ipc

namespace IpcThreads

variable {taskOf : ThreadId → TaskId} {s s' : IpcThreads} {t u : ThreadId} {x : Sent IpcMessage}
  {p : PortId} {w : WaitId} {call : RecvCall}

def waitingOf : ThreadPc → Option (WaitId × RecvCall)
  | .waiting w call => some (w, call)
  | _ => none

def waiting (s : IpcThreads) (t : ThreadId) : Option (WaitId × RecvCall) := waitingOf (s.pc t)

/-- The thread somebody is about to unblock. -/
def wakes : ThreadPc → Option ThreadId
  | .waking receiver _ _ => receiver
  | .cancelling victim => some victim
  | _ => none

def WakePending (s : IpcThreads) (t : ThreadId) : Prop := ∃ u, wakes (s.pc u) = some t

def InReceive (s : IpcThreads) (t : ThreadId) (p : PortId) : Prop :=
  ∃ w call, s.waiting t = some (w, call) ∧ p ∈ call.ports

structure WakeInv (s : IpcThreads) : Prop where
  records : s.locked = false → s.ipc.WaitInv s.waiting s.nextWait
  empty : ∀ p t, (s.ipc.ports p).receiver = some t → (s.ipc.ports p).queue = []
  slots : ∀ t, s.blocked t = true → ∃ w call, s.waiting t = some (w, call) ∧
    ∀ p ∈ call.ports, (s.ipc.ports p).receiver = some t ∨ s.WakePending t
  alone : ∀ t u p, s.InReceive t p → s.InReceive u p → t = u

theorem waiting_of_pc (h : s.pc t = pc) : s.waiting t = waitingOf pc := congrArg waitingOf h

theorem waiting_setPc (s : IpcThreads) (pc : ThreadPc) :
    (s.setPc t pc).waiting = update s.waiting t (waitingOf pc) := by
  funext u
  unfold waiting
  by_cases hut : u = t
  · subst hut
    simp [setPc]
  · simp [setPc, update_of_ne hut]

theorem waiting_setPc_eq (h : waitingOf pc = s.waiting t) : (s.setPc t pc).waiting = s.waiting := by
  rw [waiting_setPc, h, update_eq_self]

theorem WakeInv.keep (h : WakeInv s) (hwaiting : s'.waiting = s.waiting)
    (hrecords : s'.locked = false → s'.ipc.WaitInv s.waiting s'.nextWait)
    (hempty : ∀ p t, (s'.ipc.ports p).receiver = some t → (s'.ipc.ports p).queue = [])
    (hblocked : ∀ t, s'.blocked t = true → s.blocked t = true)
    (hslots : ∀ t p, s'.blocked t = true → (s.ipc.ports p).receiver = some t ∨ s.WakePending t →
      (s'.ipc.ports p).receiver = some t ∨ s'.WakePending t) : WakeInv s' := by
  constructor
  · rw [hwaiting]
    exact hrecords
  · exact hempty
  · intro t ht
    obtain ⟨w, call, hw, hp⟩ := h.slots t (hblocked t ht)
    rw [hwaiting]
    exact ⟨w, call, hw, fun p hmem => hslots t p ht (hp p hmem)⟩
  · intro t u p ht hu
    unfold InReceive at ht hu
    rw [hwaiting] at ht hu
    exact h.alone t u p ht hu

theorem WakePending.of_pc (h : s.WakePending t) (hpc : ∀ u, wakes (s.pc u) = some t → wakes (s'.pc u) = some t) :
    s'.WakePending t := by
  obtain ⟨u, hu⟩ := h
  exact ⟨u, hpc u hu⟩

theorem wakes_setPc {r : ThreadId} (ht : wakes (s.pc t) = some r → wakes pc = some r)
    (hu : wakes (s.pc u) = some r) : wakes ((s.setPc t pc).pc u) = some r := by
  exact setPc_cases (fun hut => ht (hut ▸ hu)) fun _ => hu

theorem WakePending.setPc (h : s.WakePending u) (ht : wakes (s.pc t) = none) :
    (s.setPc t pc).WakePending u := by
  refine h.of_pc fun v hv => wakes_setPc (fun he => ?_) hv
  rw [ht] at he
  cases he

theorem WakeInv.congr (h : WakeInv s) (hipc : s'.ipc = s.ipc) (hpc : s'.pc = s.pc)
    (hblocked : s'.blocked = s.blocked) (hlocked : s'.locked = s.locked)
    (hnext : s'.nextWait = s.nextWait) : WakeInv s' := by
  have hwaiting : s'.waiting = s.waiting := by
    unfold waiting
    rw [hpc]
  refine h.keep hwaiting ?_ ?_ ?_ fun t p _ hp => ?_
  · rw [hipc, hlocked, hnext]
    exact h.records
  · rw [hipc]
    exact h.empty
  · rw [hblocked]
    exact fun _ hb => hb
  · rw [hipc]
    exact hp.imp_right fun hp => hp.of_pc fun u hu => by rwa [hpc]

theorem WakeInv.goOn (h : WakeInv s) (hipc : s'.ipc = s.ipc)
    (hpc : s'.pc = update s.pc t pc) (hblocked : s'.blocked = s.blocked)
    (hlocked : s'.locked = s.locked) (hnext : s'.nextWait = s.nextWait)
    (hw : waitingOf pc = s.waiting t) (ht : wakes (s.pc t) = none) : WakeInv s' := by
  have hmoved : WakeInv (s.setPc t pc) := by
    refine h.keep (waiting_setPc_eq hw) h.records h.empty (fun _ hb => hb) fun u p _ hp => ?_
    exact hp.imp_right fun hp => hp.setPc ht
  exact hmoved.congr hipc hpc hblocked hlocked hnext

/-! ## Senders -/

/-- A message is placed at port `p`, which loses its receiver; the sender will wake it. -/
theorem WakeInv.place (h : WakeInv s) (port : IpcPort (Sent IpcMessage))
    (hports : ipc.ports = (s.ipc.setPort p port).ports) (hport : port.receiver = none)
    (hrecords : s.locked = false → ipc.WaitInv s.waiting s.nextWait)
    (hw : waitingOf pc = s.waiting t) (ht : wakes (s.pc t) = none)
    (hpc : ∀ r, (s.ipc.ports p).receiver = some r → wakes pc = some r) :
    WakeInv ({ s with ipc }.setPc t pc) := by
  refine h.keep (waiting_setPc_eq hw) hrecords (fun q r hq => ?_) (fun _ hb => hb) fun r q _ hr => ?_
  · replace hq : (ipc.ports q).receiver = some r := hq
    show (ipc.ports q).queue = []
    rw [hports] at hq ⊢
    exact setPort_cases (fun _ hq => by rw [hport] at hq; cases hq) (fun _ => h.empty q r) hq
  · rcases hr with hr | hr
    · by_cases hqp : q = p
      · rw [hqp] at hr
        refine .inr ⟨t, ?_⟩
        simp only [IpcThreads.setPc, update_self]
        exact hpc r hr
      · left
        show (ipc.ports q).receiver = some r
        rw [hports, setPort_ports_ne _ hqp]
        exact hr
    · exact .inr (hr.setPc ht)

/-! ## Unblocking -/

theorem threadUnblock_blocked {r : Option ThreadId} (h : (s.threadUnblock r).blocked u = true) :
    s.blocked u = true ∧ r ≠ some u := by
  unfold threadUnblock at h
  split at h
  · exact ⟨h, by simp⟩
  rename_i v
  split at h
  · replace h : update s.blocked v false u = true := h
    exact update_cases (fun _ h => by cases h) (fun huv h => ⟨h, fun he => huv (some.inj he).symm⟩) h
  · rename_i hv
    refine ⟨h, fun he => ?_⟩
    cases he
    exact hv h

theorem WakeInv.woke (h : WakeInv s) (hw : s.waiting t = none) (hpc : waitingOf pc = none)
    (completed failed : List (Sent IpcMessage)) :
    WakeInv ({ s.threadUnblock (wakes (s.pc t)) with completed, failed }.setPc t pc) := by
  have hblocked := fun u => threadUnblock_blocked (s := s) (u := u) (r := wakes (s.pc t))
  obtain ⟨blocked, wakeups, heq⟩ := threadUnblock_eq (wakes (s.pc t))
  rw [heq] at hblocked ⊢
  refine h.keep (waiting_setPc_eq (hpc.trans hw.symm)) h.records h.empty (fun u hu => (hblocked u hu).1)
    fun u p hu hp => ?_
  exact hp.imp_right fun hp => hp.of_pc fun v hv => wakes_setPc
    (fun he => absurd he (hblocked u hu).2) hv

/-! ## Killing -/

theorem WakeInv.cancel {victim : ThreadId} (h : WakeInv s) (hpc : s.pc t = .idle) :
    WakeInv ({ s with ipc := s.ipc.cancelThread victim }.setPc t (.cancelling victim)) := by
  refine h.keep (waiting_setPc_eq (waiting_of_pc hpc).symm) (fun hl => (h.records hl).cancelThread)
    (cleared_cancelThread.empty h.empty) (fun _ hb => hb) fun u p _ hu => ?_
  rcases hu with hu | hu
  · by_cases huv : u = victim
    · -- the registrations are gone, and `thread_unblock` is next
      refine .inr ⟨t, ?_⟩
      simp [IpcThreads.setPc, wakes, huv]
    · exact .inl (cleared_cancelThread.receiver huv hu)
  · exact .inr (hu.setPc (congrArg wakes hpc))

theorem InReceive.of_setPc (hpc : waitingOf pc = none) (h : (s.setPc t pc).InReceive u p) :
    u ≠ t ∧ s.InReceive u p := by
  obtain ⟨w, call, hw, hp⟩ := h
  rw [waiting_setPc, hpc] at hw
  obtain ⟨hut, hw⟩ := of_update_none hw
  exact ⟨hut, w, call, hw, hp⟩

section
variable (h : WakeInv s)
include h

/-- A thread that is not blocked leaves its receive call, if it is in one, and takes back what
it likes of its registrations. -/
theorem WakeInv.leave {locked : Bool}
    (hb : s.blocked t = false) (hw : waitingOf pc = none) (ht : wakes (s.pc t) = none)
    (hrecords : locked = false → ipc.WaitInv (update s.waiting t none) s.nextWait)
    (hempty : ∀ p u, (ipc.ports p).receiver = some u → (ipc.ports p).queue = [])
    (hports : ∀ p u, u ≠ t → (s.ipc.ports p).receiver = some u → (ipc.ports p).receiver = some u) :
    WakeInv ({ s with ipc, locked }.setPc t pc) := by
  have hne : ∀ u, s.blocked u = true → u ≠ t := by
    rintro u hu rfl
    rw [hb] at hu
    cases hu
  constructor
  · rw [waiting_setPc, hw]
    exact hrecords
  · exact hempty
  · intro u hu
    obtain ⟨w, call, huw, hp⟩ := h.slots u hu
    refine ⟨w, call, ?_, fun p hmem => ?_⟩
    · rw [waiting_setPc, update_of_ne (hne u hu)]
      exact huw
    · rcases hp p hmem with hp | hp
      · exact .inl (hports p u (hne u hu) hp)
      · exact .inr (hp.setPc ht)
  · intro u v p hu hv
    exact h.alone u v p (InReceive.of_setPc hw hu).2 (InReceive.of_setPc hw hv).2

theorem WakeInv.reap (hfree : ∀ p, (s.ipc.ports p).receiver ≠ some t) (hawake : s.blocked t = false)
    (hpc : s.pc t = .idle ∨ ∃ w call, s.pc t = .waiting w call) : WakeInv (s.setPc t .dead) := by
  rcases hpc with hpc | ⟨w, call, hpc⟩
  · exact h.goOn rfl rfl rfl rfl rfl (waiting_of_pc hpc).symm (congrArg wakes hpc)
  · refine h.leave hawake rfl (congrArg wakes hpc) (fun hl => ?_) h.empty fun _ _ _ hp => hp
    have hleave := (h.records hl).leave (waiting_of_pc hpc)
    rwa [unregister_eq_self fun p _ => hfree p] at hleave

/-! ## Receivers -/

theorem WakeInv.take (htake : s.ipc.take p = some (x, ipc)) : WakeInv { s with ipc } := by
  obtain ⟨rest, hq, rfl⟩ := take_some htake
  refine h.keep rfl (fun hl => (h.records hl).take htake) (fun q u hu => ?_) (fun _ hb => hb)
    fun u q _ hu => ?_
  · refine setPort_cases (fun _ hu => ?_) (fun _ => h.empty q u) hu
    rw [h.empty p u hu] at hq
    cases hq
  · refine hu.imp_left fun hu => ?_
    exact setPort_cases (fun hqp => by rw [← hqp]; exact hu) fun _ => hu

theorem WakeInv.block (hl : s.locked = false) (hpc : s.pc t = .idle) (hw : w < s.nextWait)
    (hfree : ∀ u call', s.waiting u ≠ some (w, call')) (hnone : s.ipc.waits w = none)
    (hn : call.ports.Nodup) (hempty : ∀ p ∈ call.ports, (s.ipc.ports p).queue = [])
    (hsole : ∀ p ∈ call.ports, ∀ u, ¬ s.InReceive u p) :
    WakeInv ({ s with
      ipc := s.ipc.register t w call.ports
      blocked := update s.blocked t true }.setPc t (.waiting w call)) := by
  have ht : s.waiting t = none := waiting_of_pc hpc
  have hports : ∀ p, p ∈ call.ports → ((s.ipc.register t w call.ports).ports p).receiver = some t := by
    intro p hp
    simp only [register, if_pos hp]
  have hother : ∀ p, p ∉ call.ports → (s.ipc.register t w call.ports).ports p = s.ipc.ports p := by
    intro p hp
    simp only [register, if_neg hp]
  constructor
  · intro _
    rw [waiting_setPc]
    exact (h.records hl).register ht hw hfree hnone hn hempty
  · intro p u hu
    replace hu : ((s.ipc.register t w call.ports).ports p).receiver = some u := hu
    show ((s.ipc.register t w call.ports).ports p).queue = []
    by_cases hp : p ∈ call.ports
    · simp only [register, if_pos hp]
      exact hempty p hp
    · rw [hother p hp] at hu ⊢
      exact h.empty p u hu
  · intro u hu
    rw [waiting_setPc]
    by_cases hut : u = t
    · subst hut
      exact ⟨w, call, update_self .., fun p hp => .inl (hports p hp)⟩
    rw [update_of_ne hut]
    have hu' : s.blocked u = true := by
      have hu : update s.blocked t true u = true := hu
      rwa [update_of_ne hut] at hu
    obtain ⟨v, call', hv, hslots⟩ := h.slots u hu'
    refine ⟨v, call', hv, fun p hp => ?_⟩
    rcases hslots p hp with hr | hr
    · left
      have hnot : p ∉ call.ports := fun hmem => hsole p hmem u ⟨v, call', hv, hp⟩
      show ((s.ipc.register t w call.ports).ports p).receiver = some u
      rw [hother p hnot]
      exact hr
    · exact .inr (hr.setPc (congrArg wakes hpc))
  · -- a port of this call has no other receiver
    have hcases : ∀ u p, ({ s with
        ipc := s.ipc.register t w call.ports
        blocked := update s.blocked t true }.setPc t (.waiting w call)).InReceive u p →
        u = t ∧ p ∈ call.ports ∨ s.InReceive u p := by
      rintro u p ⟨v, call', hv, hp⟩
      rw [waiting_setPc] at hv
      refine update_cases (fun hut hv => ?_) (fun _ hv => .inr ⟨v, call', hv, hp⟩) hv
      cases hv
      exact .inl ⟨hut, hp⟩
    intro u v p hu hv
    rcases hcases u p hu with ⟨hut, hp⟩ | hu'
    · rcases hcases v p hv with ⟨hvt, _⟩ | hv'
      · rw [hut, hvt]
      · exact absurd hv' (hsole p hp v)
    · rcases hcases v p hv with ⟨_, hp⟩ | hv'
      · exact absurd hu' (hsole p hp u)
      · exact h.alone u v p hu' hv'

theorem WakeInv.not_blocked (hw : s.waiting t = none) : s.blocked t = false := by
  cases hb : s.blocked t with
  | false => rfl
  | true =>
    obtain ⟨w, call, hw', _⟩ := h.slots t hb
    rw [hw] at hw'
    cases hw'

theorem WakeInv.exit (hb : s.blocked t = false) (ht : wakes (s.pc t) = none) :
    WakeInv ({ s with ipc := s.abandoned t call, locked := true }.setPc t .dead) := by
  cases call with
  | recv p => exact h.leave hb rfl ht (fun hl => by cases hl) h.empty fun _ _ _ hp => hp
  | recvAny ps =>
    exact h.leave hb rfl ht (fun hl => by cases hl) (cleared_unregister.empty h.empty)
      fun _ _ => cleared_unregister.receiver

theorem WakeInv.round (hl : s.locked = false) (hpc : s.pc t = .idle) (hw : w < s.nextWait)
    (hfree : ∀ u call', s.waiting u ≠ some (w, call')) (hnone : s.ipc.waits w = none)
    (hn : call.ports.Nodup) (hsole : ∀ p ∈ call.ports, ∀ u, ¬ s.InReceive u p) :
    WakeInv (s.settle t w call (s.ipc.recvRound t w call)) := by
  have ht : s.waiting t = none := waiting_of_pc hpc
  have hwakes : wakes (s.pc t) = none := by rw [hpc]; rfl
  cases htake : s.ipc.takeAny call.ports with
  | some r =>
    obtain ⟨p, hp, htake'⟩ := takeAny_some htake
    rw [recvRound_some htake]
    simp only [settle, hp]
    exact (h.take htake').goOn rfl rfl rfl rfl rfl ht.symm hwakes
  | none =>
    rw [recvRound_none htake hnone]
    unfold settle
    simp only
    split
    · exact h.exit (h.not_blocked ht) hwakes
    · exact h.block hl hpc hw hfree hnone hn (takeAny_none htake) hsole

theorem WakeInv.settle_of (hb : s.blocked t = false) (ht : wakes (s.pc t) = none)
    (ipc : Ipc (Sent IpcMessage)) (pc : ThreadPc)
    (h₁ : WakeInv (({ s with ipc }.setPc t pc).settle t w call r)) : WakeInv (s.settle t w call r) := by
  have hpc : ∀ pc', update s.pc t pc' = update (update s.pc t pc) t pc' :=
    fun pc' => (update_idem ..).symm
  unfold settle at h₁ ⊢
  cases hr : r.1 with
  | some ix =>
    obtain ⟨i, x⟩ := ix
    simp only [hr] at h₁ ⊢
    cases hp : call.ports[i]? with
    | some p | none =>
      simp only [hp] at h₁ ⊢
      exact h₁.congr rfl (hpc _) rfl rfl rfl
  | none =>
    simp only [hr] at h₁ ⊢
    by_cases hk : s.killing t = true
    · rw [if_pos hk]
      exact h.exit hb ht
    rw [if_neg hk]
    have hk' : ¬ ({ s with ipc }.setPc t pc).killing t = true := hk
    rw [if_neg hk'] at h₁
    exact h₁.congr rfl (hpc _) rfl rfl rfl

theorem WakeInv.recv (hsole : ∀ p ∈ call.ports, ∀ u, ¬ s.InReceive u p) (hpc : s.pc t = .idle)
    (hlocked : s.locked = false) (hvalid : call.valid = true) :
    WakeInv ({ s with nextWait := s.nextWait + 1 }.settle t s.nextWait call
      ((s.ipc.setWait s.nextWait none).recvRound t s.nextWait call)) := by
  have hrecords := h.records hlocked
  have hw : s.waiting t = none := waiting_of_pc hpc
  have hwakes : wakes (s.pc t) = none := congrArg wakes hpc
  -- the new wait record is nobody's
  have h₁ : WakeInv { s with
      ipc := s.ipc.setWait s.nextWait none
      nextWait := s.nextWait + 1 } :=
    h.keep rfl (fun _ => hrecords.newWait) h.empty (fun _ hb => hb) fun _ _ _ hp => hp
  have h₂ := h₁.round hlocked hpc (lt_succ_self _)
    (fun u call' hu => absurd (hrecords.fresh u _ call' hu) (lt_irrefl _))
    (setWait_waits_self _) (RecvCall.nodup_of_valid hvalid) hsole
  have h₀ : WakeInv { s with nextWait := s.nextWait + 1 } :=
    h.keep rfl (fun _ => hrecords.succ) h.empty (fun _ hb => hb) fun _ _ _ hp => hp
  refine h₀.settle_of (h.not_blocked hw) hwakes (s.ipc.setWait s.nextWait none) (s.pc t) ?_
  rwa [IpcThreads.setPc, update_eq_self]

theorem WakeInv.resume (hpc : s.pc t = .waiting w call) (hlocked : s.locked = false)
    (hb : s.blocked t = false) : WakeInv (s.settle t w call (s.ipc.recvResume t w call)) := by
  have hw : s.waiting t = some (w, call) := waiting_of_pc hpc
  have hwakes : wakes (s.pc t) = none := congrArg wakes hpc
  have hrecords := h.records hlocked
  rw [hrecords.recvResume_eq hw]
  -- the thread first takes back its registrations
  have h₁ : WakeInv ({ s with ipc := s.ipc.unregister t call.ports }.setPc t .idle) :=
    h.leave hb rfl hwakes (fun _ => hrecords.leave hw) (cleared_unregister.empty h.empty)
      fun _ _ => cleared_unregister.receiver
  refine h.settle_of hb hwakes (s.ipc.unregister t call.ports) .idle ?_
  cases hdelivered : s.ipc.waits w with
  | some d =>
    have hidle : ({ s with ipc := s.ipc.unregister t call.ports }.setPc t .idle).pc t = .idle :=
      update_self ..
    unfold settle
    simp only
    split
    · exact h₁.goOn rfl rfl rfl rfl rfl (waiting_of_pc hidle).symm (congrArg wakes hidle)
    · exact h₁.goOn rfl rfl rfl rfl rfl (waiting_of_pc hidle).symm (congrArg wakes hidle)
  | none =>
    refine h₁.round hlocked (update_self ..) (hrecords.fresh t w call hw) (fun u call' hu => ?_)
      hdelivered (hrecords.nodup t w call hw) fun p hp u hu => ?_
    · rw [waiting_setPc] at hu
      obtain ⟨hut, hu⟩ := of_update_none hu
      exact hut (hrecords.distinct u t w call' call hu hw)
    · obtain ⟨hut, hu⟩ := InReceive.of_setPc rfl hu
      exact hut (h.alone u t p hu ⟨w, call, hw, hp⟩)

end

/-! ## Runs -/

/-- Nobody enters a receive call on a port that another thread is receiving from, and a killed
thread that is reaped is not registered at a port any more. -/
def SoleReceiver (s : IpcThreads) : ThreadOp → Prop
  | .recv _ call => ∀ p ∈ call.ports, ∀ u, ¬ s.InReceive u p
  | .reap t => ∀ p, (s.ipc.ports p).receiver ≠ some t
  | _ => True

theorem WakeInv.step (h : WakeInv s) (hg : s.SoleReceiver op)
    (hs : IpcThreads.step taskOf s op = some s') : WakeInv s' := by
  cases step_move hs with
  | send hpc | miss hpc | drop hpc | alloc hpc | fail hpc =>
    exact h.goOn rfl rfl rfl rfl rfl (waiting_of_pc hpc).symm (congrArg wakes hpc)
  | @direct t r x ipc hpc hlock hfound =>
    obtain ⟨v, hr, _, _, _, hipc⟩ := sendDirect_some hfound
    refine h.place (p := x.port) { s.ipc.ports x.port with receiver := none, receiverWait := none }
      (hipc ▸ rfl) rfl (fun _ => (h.records hlock).sendDirect hfound) (waiting_of_pc hpc).symm
      (congrArg wakes hpc) fun r' hr' => ?_
    rw [hr] at hr'
    exact hr'
  | queue hpc hlock =>
    exact h.place _ rfl rfl (fun _ => (h.records hlock).sendQueue) (waiting_of_pc hpc).symm
      (congrArg wakes hpc) fun r hr => hr
  | @wake t receiver handoff here x hpc =>
    obtain ⟨pc, completed, failed, hidle, heq⟩ := sendEnd_eq receiver handoff here x
    have hreceiver : wakes (s.pc t) = receiver := congrArg wakes hpc
    rw [heq, ← hreceiver]
    exact h.woke (waiting_of_pc hpc) (by rcases hidle with rfl | rfl <;> rfl) completed failed
  | @unblock t victim hpc =>
    have hvictim : wakes (s.pc t) = some victim := congrArg wakes hpc
    rw [← hvictim]
    exact h.woke (waiting_of_pc hpc) rfl _ _
  | recv hpc hlock hvalid => exact h.recv hg hpc hlock hvalid
  | resume hpc hlock hawake => exact h.resume hpc hlock hawake
  | tryRecv htake => exact (h.take htake).congr rfl rfl rfl rfl rfl
  | stay => exact h
  | kill => exact h.congr rfl rfl rfl rfl rfl
  | cancel hpc => exact h.cancel hpc
  | reap hawake hpc => exact h.reap hg hawake hpc

theorem WakeInv.of_init (h : Init s) : WakeInv s := by
  have hnot : ∀ t, s.waiting t = none := fun t => waiting_of_pc (h.pc t)
  have hreceiver : ∀ p, (s.ipc.ports p).receiver = none := by
    intro p
    rw [h.ports p]
  have habsurd : ∀ {t : ThreadId} {x : WaitId × RecvCall}, s.waiting t ≠ some x := by
    intro t x hx
    rw [hnot t] at hx
    cases hx
  constructor
  · intro _
    refine ⟨fun _ _ _ hw => absurd hw habsurd, fun _ _ _ _ _ hw => absurd hw habsurd,
      fun _ _ _ hw => absurd hw habsurd, fun p t hp => ?_, fun _ _ _ hw => absurd hw habsurd⟩
    rw [hreceiver p] at hp
    cases hp
  · intro p t hp
    rw [hreceiver p] at hp
    cases hp
  · intro t ht
    rw [h.blocked t] at ht
    cases ht
  · rintro t u p ⟨w, call, hw, _⟩
    exact absurd hw habsurd

/-! ## The next message -/

/-- Thread `t` has been woken more than `n` times, or is about to be woken. -/
def Woken (n : Nat) (t : ThreadId) (s : IpcThreads) : Prop :=
  n < s.wakeups t ∨ n ≤ s.wakeups t ∧ s.blocked t = true ∧ s.WakePending t

theorem Woken.goOn (h : s.Woken n t) (hu : wakes (s.pc u) = none)
    (hpc : s'.pc = update s.pc u pc) (hblocked : s.blocked t = true → s'.blocked t = true)
    (hwakeups : s'.wakeups = s.wakeups) : s'.Woken n t := by
  unfold Woken WakePending
  rw [hwakeups, hpc]
  exact h.imp_right fun ⟨hle, hb, hp⟩ => ⟨hle, hblocked hb, hp.setPc hu⟩

theorem threadUnblock_wakeups (r : Option ThreadId) (t : ThreadId) :
    s.wakeups t ≤ (s.threadUnblock r).wakeups t ∧
      (r = some t → s.blocked t = true → s.wakeups t < (s.threadUnblock r).wakeups t) ∧
      (r ≠ some t → (s.threadUnblock r).blocked t = s.blocked t) := by
  unfold threadUnblock
  split
  · refine ⟨le_refl _, fun he => ?_, fun _ => rfl⟩
    cases he
  rename_i v
  by_cases hb : s.blocked v = true
  · rw [if_pos hb]
    by_cases htv : t = v
    · subst htv
      simp
    · simp only [update_of_ne htv]
      exact ⟨le_refl _, fun he => absurd (some.inj he).symm htv, fun _ => trivial⟩
  · rw [if_neg hb]
    refine ⟨le_refl _, fun he hbt => ?_, fun _ => rfl⟩
    cases he
    exact absurd hbt hb

theorem Woken.unblock (h : s.Woken n t) (pc : ThreadPc) (completed failed : List (Sent IpcMessage)) :
    ({ s.threadUnblock (wakes (s.pc u)) with completed, failed }.setPc u pc).Woken n t := by
  obtain ⟨hle, hlt, hsame⟩ := threadUnblock_wakeups (wakes (s.pc u)) t
  obtain ⟨blocked, wakeups, heq⟩ := threadUnblock_eq (wakes (s.pc u))
  rw [heq] at hle hlt hsame ⊢
  rcases h with h | ⟨hn, hb, v, hv⟩
  · exact .inl (h.trans_le hle)
  by_cases he : wakes (s.pc u) = some t
  · exact .inl (hn.trans_lt (hlt he hb))
  · exact .inr ⟨hn.trans hle, (hsame he).trans hb, v, wakes_setPc
      (fun hu => absurd hu he) hv⟩

theorem Woken.settle (h : s.Woken n t) (hu : wakes (s.pc u) = none)
    : (s.settle u w call r).Woken n t := by
  unfold IpcThreads.settle
  split
  · split
    · exact h.goOn hu rfl id rfl
    · exact h.goOn hu rfl id rfl
  · split
    · exact h.goOn hu rfl id rfl
    · refine h.goOn hu rfl (fun hb => ?_) rfl
      show update s.blocked u true t = true
      exact update_cases (fun _ => rfl) fun _ => hb

theorem Woken.step (h : s.Woken n t) (hs : IpcThreads.step taskOf s op = some s') : s'.Woken n t := by
  cases step_move hs with
  | send hpc | direct hpc | miss hpc | drop hpc | alloc hpc | fail hpc | queue hpc | cancel hpc =>
    exact h.goOn (congrArg wakes hpc) rfl id rfl
  | reap hawake hpc =>
    rcases hpc with hpc | ⟨w, call, hpc⟩
    · exact h.goOn (congrArg wakes hpc) rfl id rfl
    · exact h.goOn (congrArg wakes hpc) rfl id rfl
  | @wake u receiver handoff here x hpc =>
    obtain ⟨pc, completed, failed, -, heq⟩ := sendEnd_eq receiver handoff here x
    have hreceiver : wakes (s.pc u) = receiver := congrArg wakes hpc
    rw [heq, ← hreceiver]
    exact h.unblock pc completed failed
  | @unblock u victim hpc =>
    have hvictim : wakes (s.pc u) = some victim := congrArg wakes hpc
    rw [← hvictim]
    exact h.unblock .idle _ _
  | recv hpc =>
    have h₁ : ({ s with nextWait := s.nextWait + 1 } : IpcThreads).Woken n t := h
    exact h₁.settle (congrArg wakes hpc)
  | resume hpc => exact h.settle (congrArg wakes hpc)
  | tryRecv | stay | kill => exact h

/-- The thread is not between two sections of a send or a kill. -/
def atRest : ThreadPc → Bool
  | .idle | .waiting .. | .dead => true
  | _ => false

/-- No step is in progress. -/
def AtRest (s : IpcThreads) : Prop := ∀ t, atRest (s.pc t) = true

/-- The step hands a message over at port `p` or queues it there. -/
def Places (s : IpcThreads) (p : PortId) : ThreadOp → Prop
  | .direct u => ∃ x, s.pc u = .sending x ∧ x.port = p ∧ (s.ipc.sendDirect p x).isSome
  | .queue u => ∃ x, s.pc u = .queueing x ∧ x.port = p
  | _ => False

theorem AtRest.not_pending (h : s.AtRest) : ¬ s.WakePending t := by
  rintro ⟨u, hu⟩
  have hrest := h u
  cases hpc : s.pc u with
  | waking r handoff x | cancelling victim =>
    rw [hpc] at hrest
    cases hrest
  | idle | sending x | missed x | allocating x | queueing x | waiting w call | dead =>
    rw [hpc] at hu
    cases hu

theorem WakeInv.woken_of_places (h : WakeInv s) (hb : s.blocked t = true)
    (hin : s.InReceive t p) (hp : s.Places p op) (hs : IpcThreads.step taskOf s op = some s') :
    s'.Woken (s.wakeups t) t := by
  obtain ⟨w, call, hw, hslots⟩ := h.slots t hb
  obtain ⟨w', call', hw', hmem⟩ := hin
  rw [hw] at hw'
  cases hw'
  rcases hslots p hmem with hr | hpend
  · -- the slot names the receiver, so the sender has found it there
    cases op with
    | direct u =>
      obtain ⟨x, hpc, rfl, hsome⟩ := hp
      obtain ⟨⟨r, ipc⟩, hdirect⟩ := isSome_iff_exists.mp hsome
      simp only [IpcThreads.step, hpc, hdirect] at hs
      split at hs
      · cases hs
      cases hs
      obtain ⟨v, hr', _⟩ := sendDirect_some hdirect
      rw [hr] at hr'
      cases hr'
      refine .inr ⟨le_refl _, hb, u, ?_⟩
      simp [IpcThreads.setPc, wakes]
    | queue u =>
      obtain ⟨x, hpc, rfl⟩ := hp
      simp only [IpcThreads.step, hpc] at hs
      split at hs
      · cases hs
      · cases hs
        refine .inr ⟨le_refl _, hb, u, ?_⟩
        simp [IpcThreads.setPc, wakes, sendQueue, hr]
    | _ => exact hp.elim
  · have h₀ : s.Woken (s.wakeups t) t := .inr ⟨le_refl _, hb, hpend⟩
    exact h₀.step hs

theorem WakeInv.run {ops} (h : WakeInv s)
    (hr : Run (fun s op s' => s.SoleReceiver op ∧ IpcThreads.step taskOf s op = some s') s ops s') :
    WakeInv s' :=
  hr.invariant (fun _ _ _ hs hstep => hs.step hstep.1 hstep.2) h

/-- Two threads wait on port 1 and two messages are sent to it. -/
def overwritten : List ThreadOp :=
  [.recv 0 (.recv 1), .recv 1 (.recv 1), .send 2 1 (plain 7), .direct 2, .wake 2 true,
    .send 2 1 (plain 8), .direct 2, .drop 2, .alloc 2 true, .queue 2, .wake 2 true, .resume 1]

end IpcThreads

end Bunix.Kernel
