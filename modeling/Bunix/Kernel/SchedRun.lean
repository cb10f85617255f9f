import Bunix.Kernel.SchedWake
import Bunix.Lib.Transition

/-! # The run queues over whole runs

Any sequence of scheduler operations on any number of CPUs. The queues stay well formed, and
`sched_wake_sleepers` wakes exactly the threads that are due, as long as nobody unblocks a
thread or hands off to one that is suspended in `thread_sleep_ticks`. `thread_unblock` leaves
such a thread on the sleep list; when it sleeps again, the second insertion cuts off
everything that was behind it.
-/
namespace Bunix.Kernel.Sched

open Bunix.Lib

variable {s s' : Sched} {t : ThreadId} {now : U64}

def Queued (s : Sched) (t : ThreadId) : Prop := ∃ c < s.cpuCount, t ∈ s.queue c

instance (s : Sched) (t : ThreadId) : Decidable (s.Queued t) :=
  inferInstanceAs (Decidable (∃ c < s.cpuCount, t ∈ s.queue c))

structure QueuesOk (s : Sched) : Prop where
  ok : ∀ c < s.cpuCount, (s.cpus c).runq.Ok s.key
  queued : ∀ c < s.cpuCount, ∀ t ∈ s.queue c, (s.threads t).state = .ready ∧ (s.threads t).cpuId = c
  ready : ∀ t, (s.threads t).state = .ready → ∃! c, c < s.cpuCount ∧ t ∈ s.queue c
  blocked : ∀ t, (s.threads t).state = .blocked → ¬ s.Queued t

/-- Whenever `sched_wake_sleepers` is called, it moves to the run queues exactly the sleeping
threads whose tick has come. -/
def WakesExactly (s : Sched) : Prop :=
  ∀ upTo now, ∃ s', s.schedWakeSleepers upTo now = some s' ∧ ∀ t, (s'.Queued t ∧ ¬ s.Queued t) ↔
      (s.threads t).asleep = true ∧ (s.threads t).wakeTick ≤ upTo

/-- One operation at a given tick, called on an existing CPU. -/
def step (s : Sched) (a : U64 × Op) : Option Sched :=
  if a.2.cpu?.all fun c => decide (c < s.cpuCount) then a.2.exec a.1 s else none

/-- The thread an operation wakes without looking at the sleep list. -/
def Op.wakes? : Op → Option ThreadId
  | .unblock t | .handoff _ t => some t
  | _ => none

/-- Nobody wakes a sleeping thread behind the back of the sleep list. -/
def NoStrayWake (s : Sched) (op : Op) : Prop := ∀ t, op.wakes? = some t → (s.threads t).asleep = false

instance (s : Sched) (op : Op) : Decidable (NoStrayWake s op) :=
  decidable_of_iff (op.wakes?.all fun t => !(s.threads t).asleep) (by
    unfold NoStrayWake
    cases op.wakes? <;> simp)

/-! ## From the invariant to the properties -/

theorem QueueInv.queued_iff (h : QueueInv s ∅) : s.Queued t ↔ (s.threads t).state = .ready := by
  constructor
  · intro hq
    obtain ⟨c, hc, ht⟩ := hq
    exact (h.queued c hc t ht).2.1
  · intro hr
    obtain ⟨hlt, hm⟩ := h.ready t (by simp) hr
    exact ⟨_, hlt, hm⟩

theorem Inv.queuesOk (h : Inv s ∅ none []) : QueuesOk s := by
  refine ⟨h.queues.ok, fun c hc t ht => (h.queues.queued c hc t ht).2, fun t hr => ?_, fun t hb => ?_⟩
  · obtain ⟨hlt, hm⟩ := h.queues.ready t (by simp) hr
    refine ⟨_, ⟨hlt, hm⟩, fun c hc => ?_⟩
    exact (h.queues.queued c hc.1 t hc.2).2.2.symm
  · rw [h.queues.queued_iff, hb]
    simp

theorem Inv.wakesExactly (h : Inv s ∅ none []) : WakesExactly s := by
  intro upTo now
  obtain ⟨s', hs', _, hready⟩ := h.sleeping.schedWakeSleepers h.placed upTo now
  have hmoves : Moves True False True s s' := .schedWakeSleepers h.core hs'
  refine ⟨s', hs', fun t => ?_⟩
  rw [(Moves.core h.core hmoves).queues.queued_iff, h.queues.queued_iff, hready]
  constructor
  · intro hq
    exact hq.1.resolve_right hq.2
  · intro hdue
    obtain ⟨_, _, _, _, hb⟩ := h.sleeping
    refine ⟨.inl hdue, ?_⟩
    rw [hb t hdue.1]
    simp

theorem Init.inv (h : Init s) : Inv s ∅ none [] := by
  have hqueue : ∀ c, s.queue c = [] := fun c => by rw [queue, h.cpus_eq]
  refine ⟨⟨fun c _ => ?_, fun c _ t ht => ?_, fun t _ hr => ?_⟩, fun c _ _ t ht => ?_,
    ⟨[], ?_, by simp, fun t => ?_, fun t ht => ?_⟩, ⟨h.cpuCount_pos, fun t hb => ?_, fun t _ => ?_⟩⟩
  · rw [h.cpus_eq]
    exact .empty
  · rw [hqueue] at ht
    cases ht
  · rw [h.threads_eq] at hr
    cases hr
  · rw [h.cpus_eq] at ht
    cases ht
  · rw [h.sleepList_eq]
    rfl
  · simp [h.threads_eq]
  · rw [h.threads_eq] at ht
    cases ht
  · rw [h.threads_eq] at hb
    cases hb
  · rw [h.threads_eq]

/-! ## Steps and runs -/

theorem CoreInv.exec (h : CoreInv s ∅ none) {op : Op} (hc : ∀ c, op.cpu? = some c → c < s.cpuCount)
    (hs : op.exec now s = some s') : CoreInv s' ∅ none := by
  have hcases : Moves False False False s s' ∨ _ :=
    exec_moves h hc False.elim False.elim False.elim False.elim hs
  rcases hcases with hm | ⟨k, p, rfl⟩ | ⟨t, p, rfl⟩
  · exact Moves.core h hm
  · cases hs
    exact h.still (schedPolicySetTask_still s k p)
  · cases hs
    exact h.still (schedPolicySetThread_still s t p)

/-- **One step.** Every operation returns and keeps the invariant, unless it wakes a sleeping
thread. -/
theorem Inv.exec (h : Inv s ∅ none []) {op : Op} (hc : ∀ c, op.cpu? = some c → c < s.cpuCount)
    (hw : NoStrayWake s op) (now : U64) :
    ∃ s', op.exec now s = some s' ∧ Inv s' ∅ none [] := by
  suffices hsleep : ∃ s', op.exec now s = some s' ∧ SleepInv s' [] by
    obtain ⟨s', hs', hsleep⟩ := hsleep
    have h' := h.core.exec hc hs'
    exact ⟨s', hs', h'.queues, h'.running, hsleep, h'.placed⟩
  cases hwalk : op.walks with
  | true =>
    cases op with
    | sleep c ticks => exact h.sleeping.threadSleepTicks h.core (hc c rfl) ticks
    | wakeSleepers upTo =>
      obtain ⟨s', hs', hsleep, _⟩ := h.sleeping.schedWakeSleepers h.placed upTo now
      exact ⟨s', hs', hsleep⟩
    | kill k => exact h.sleeping.taskKill h.core k
    | _ => cases hwalk
  | false =>
    obtain ⟨s', hs'⟩ : ∃ s', op.exec now s = some s' := by
      cases op <;> first
        | exact ⟨_, rfl⟩
        | cases hwalk
    refine ⟨s', hs', ?_⟩
    have hwake : ∀ t, op = .unblock t ∨ (∃ c, op = .handoff c t) → op.wakes? = some t := by
      rintro t (rfl | ⟨c, rfl⟩) <;> rfl
    have hcases : Moves False True False s s' ∨ _ :=
      exec_moves h.core hc (fun _ => hwalk) (fun _ t ht => hw t (hwake t ht)) False.elim False.elim hs'
    rcases hcases with hm | ⟨k, p, rfl⟩ | ⟨t, p, rfl⟩
    · exact Moves.sleeping h.core hm h.sleeping
    · cases hs'
      exact h.sleeping.still (schedPolicySetTask_still s k p)
    · cases hs'
      exact h.sleeping.still (schedPolicySetThread_still s t p)

theorem Inv.step (h : Inv s ∅ none []) (hw : NoStrayWake s a.2)
    (hs : s.step a = some s') : Inv s' ∅ none [] := by
  unfold Sched.step at hs
  split at hs
  · rename_i hc
    obtain ⟨s₁, hs₁, h₁⟩ := h.exec (fun c he => by simpa [he] using hc) hw a.1
    rw [hs₁] at hs
    cases hs
    exact h₁
  · cases hs

/-- **The run queues over any run without a stray wake.** In every state reached the queues
are well formed, waking is exact, and every operation that wakes no sleeping thread returns. -/
theorem runQueues_of_noStrayWake (hi : Init s) {as : List (U64 × Op)}
    (hr : Run (fun s a s' => NoStrayWake s a.2 ∧ s.step a = some s') s as s') :
    QueuesOk s' ∧ WakesExactly s' ∧
      ∀ now op, (∀ c, op.cpu? = some c → c < s'.cpuCount) → NoStrayWake s' op →
        ∃ s'', op.exec now s' = some s'' := by
  have h : Inv s' ∅ none [] :=
    hr.invariant (P := fun s => Inv s ∅ none []) (fun _ _ _ h hs => h.step hs.1 hs.2) hi.inv
  refine ⟨h.queuesOk, h.wakesExactly, fun now op hc hw => ?_⟩
  obtain ⟨s'', hs'', _⟩ := h.exec hc hw now
  exact ⟨s'', hs''⟩

/-- One CPU and no thread yet. -/
def boot : Sched where
  cpuCount := 1
  cpus _ := {}
  threads _ := {}
  tasks _ := { schedAffinityMask := 1 }
  sleepList := ⟨none, fun _ => none⟩
  nextAutoCpu := 0
  nextTid := 1
  nextThread := 0
  preemptionEnabled := true

theorem boot_init : Init boot := ⟨by decide, fun _ => rfl, fun _ => rfl, rfl, fun _ => rfl⟩

/-- Three threads; the first two go to sleep until ticks 11 and 21. -/
def twoAsleep : List (U64 × Op) :=
  [(1, .create 1 true), (1, .create 1 true), (1, .create 1 true), (1, .run 0), (1, .sleep 0 10),
    (1, .run 0), (1, .sleep 0 20), (1, .run 0)]

/-- After `twoAsleep` the first sleeper is woken when its tick has come, and the third thread
blocks and is unblocked again. -/
theorem runQueues_of_noStrayWake_twoAsleep :
    ∃ s', Run (fun s a s' => NoStrayWake s a.2 ∧ s.step a = some s') boot
        (twoAsleep ++ [(12, .wakeSleepers 12), (12, .block 0), (13, .unblock 2)]) s' ∧
      s'.queue 0 = [0, 2] ∧ (s'.threads 1).asleep = true ∧ QueuesOk s' ∧ WakesExactly s' := by
  obtain ⟨s', hrun, hq, ha⟩ := Run.exists_of_exec_guard step boot
    (twoAsleep ++ [(12, .wakeSleepers 12), (12, .block 0), (13, .unblock 2)])
    (fun s' => s'.queue 0 = [0, 2] ∧ (s'.threads 1).asleep = true) (fun s a => NoStrayWake s a.2)
    (by decide +kernel)
  obtain ⟨hok, hwake, _⟩ := runQueues_of_noStrayWake boot_init hrun
  exact ⟨s', hrun, hq, ha, hok, hwake⟩

/-- **A stray wake loses a sleeping thread.** The third thread unblocks the first one, which
goes back to sleep until tick 52; then the second one is not woken any more. -/
theorem not_wakesExactly_of_strayWake :
    ∃ as s', Run (fun s a s' => s.step a = some s') boot as s' ∧ ¬ WakesExactly s' := by
  obtain ⟨s', hrun, ha, hw, hlost⟩ := Run.exists_of_exec step boot
    (twoAsleep ++ [(2, .unblock 0), (2, .block 0), (2, .run 0), (2, .sleep 0 50)])
    (fun s' => (s'.threads 1).asleep = true ∧ (s'.threads 1).wakeTick ≤ 30 ∧
      (s'.schedWakeSleepers 30 30).all (fun s'' => ! decide (s''.Queued 1)) = true) (by decide +kernel)
  refine ⟨_, s', hrun, fun h => ?_⟩
  obtain ⟨s'', hs'', hq⟩ := h 30 30
  have hmoved := ((hq 1).mpr ⟨ha, hw⟩).1
  rw [hs''] at hlost
  simp [hmoved] at hlost

end Bunix.Kernel.Sched
