import Bunix.Kernel.SchedFair

/-! # No starvation on a run queue

Runs of the scheduler on one CPU, without migration and without a change of policy, as long as no
counter wraps and the timer moves between a dispatch and the tick that ends it. In every such run
the queue's minimum only grows, a thread enters the queue at or above it, and while a thread waits
with deadline `D` no other thread is taken out of the queue more than `D - min_vruntime + 1` times.
-/
namespace Bunix.Kernel

open Bunix.Lib Option

/-- The scheduler of one CPU. The tick of the last dispatch and the threads popped so far, last
one first, are ghosts. -/
structure UniSched where
  sched : Sched
  dispatch : U64
  popped : List ThreadId

inductive UniOp where
  | run
  | yield
  | tick
  | block
  | unblock (t : ThreadId)
  | sleep (ticks : U64)
  | wakeSleepers (upTo : U64)
  | handoff (t : ThreadId)
deriving DecidableEq

def UniOp.toOp : UniOp → Sched.Op
  | .run => .run 0
  | .yield => .yield 0
  | .tick => .tick 0
  | .block => .block 0
  | .unblock t => .unblock t
  | .sleep ticks => .sleep 0 ticks
  | .wakeSleepers upTo => .wakeSleepers upTo
  | .handoff t => .handoff 0 t

/-- The operations that run a round of `sched_run` when the CPU is with its scheduler thread. -/
def UniOp.schedules : UniOp → Bool
  | .run | .yield => true
  | .sleep ticks => ticks == 0
  | _ => false

/-- The thread an operation takes out of the queue. -/
def UniOp.pops (op : UniOp) (s : Sched) : Option ThreadId :=
  if op.schedules = true ∧ s.current = none then (s.queue 0).head? else none

namespace UniSched

variable {x x' x₀ x₁ x₂ : UniSched} {now : U64} {op : UniOp} {t u : ThreadId}

/-- The state after an operation at tick `now` that leaves `s'` behind. -/
def next (x : UniSched) (now : U64) (op : UniOp) (s' : Sched) : UniSched where
  sched := s'
  dispatch := if s'.current ≠ none ∧ s'.current ≠ x.sched.current then now else x.dispatch
  popped := (op.pops x.sched).toList ++ x.popped

def step (x : UniSched) (now : U64) (op : UniOp) : Option UniSched :=
  (op.toOp.exec now x.sched).map (x.next now op)

/-- The thread on the CPU, and whether it has been charged since its dispatch. -/
def running (x : UniSched) : Option (ThreadId × Bool) :=
  x.sched.current.map fun t => (t, decide (x.dispatch ≠ (x.sched.threads t).execStartTick))

def virtual (x : UniSched) : VirtualTime ThreadId := x.sched.virtual x.running x.popped

/-- A well-formed scheduler on one CPU; weights are arbitrary. -/
structure Ok (x : UniSched) : Prop extends x.sched.Core where
  busy : x.sched.Busy
  started : ∀ t, x.sched.current = some t → x.dispatch ≤ (x.sched.threads t).execStartTick
  ahead : ∀ t ∈ x.sched.queue 0, (x.sched.threads t).vruntime < (x.sched.threads t).virtualDeadline

/-- No counter wraps, `timer_ticks` is not zero, and it has moved between the dispatch of the
running thread and a tick that takes the CPU from it. -/
structure Timely (x : UniSched) (now : U64) (op : UniOp) : Prop where
  now_ne : now ≠ 0
  noWrap : x.sched.NoWrap now
  advanced : op = .tick → (x.sched.cpus 0).quantumLeft ≤ 1 → x.dispatch < now

def TimelyStep (x : UniSched) (a : U64 × UniOp) (x' : UniSched) : Prop :=
  Timely x a.1 a.2 ∧ step x a.1 a.2 = some x'

theorem Ok.virtual_ok (h : x.Ok) : x.virtual.Ok := by
  refine ⟨h.ahead, fun u b hu => ?_⟩
  obtain ⟨t, ht, he⟩ := map_eq_some_iff.mp hu
  cases he
  exact h.toCore.current_not_queued h.busy ht

theorem running_fst (x : UniSched) : x.running.map Prod.fst = x.sched.current := by
  unfold running
  cases x.sched.current <;> rfl

theorem Ok.next (h : x.Ok) (hnow : now ≠ 0)
    (he : x.sched.Effect now x.running x.popped ((op.pops x.sched).toList ++ x.popped) s') :
    (x.next now op s').Ok ∧ VirtualTime.Steps x.virtual (x.next now op s').virtual := by
  -- it is enough to know who runs afterwards, and since when
  have hmain : ∀ r, (x.next now op s').running = r →
      VirtualTime.Steps x.virtual (s'.virtual r ((op.pops x.sched).toList ++ x.popped)) →
      (∀ t, s'.current = some t → (s'.threads t).state = .running ∧ (s'.threads t).execStartTick ≠ 0 ∧
        (x.next now op s').dispatch ≤ (s'.threads t).execStartTick) →
      (x.next now op s').Ok ∧ VirtualTime.Steps x.virtual (x.next now op s').virtual := by
    rintro r rfl hsteps hcur
    exact ⟨⟨he.toCore, fun t ht => ⟨(hcur t ht).1, (hcur t ht).2.1⟩, fun t ht => (hcur t ht).2.2,
      (h.virtual_ok.steps hsteps).ahead⟩, hsteps⟩
  have hself : ∀ {t}, s'.current = some t → ∀ u, s'.current = some u → u = t := fun ht u hu =>
    some.inj (hu.symm.trans ht)
  cases he.outcome with
  | stay current same steps =>
    have hd : (x.next now op s').dispatch = x.dispatch := by simp [UniSched.next, current]
    refine hmain _ ?_ steps fun t ht => ?_
    · simp only [running, hd]
      show s'.current.map _ = _
      rw [current]
      cases hc : x.sched.current with
      | none => rfl
      | some t => simp [UniSched.next, (same t hc).2]
    · have hc := current ▸ ht
      rw [hd, (same t hc).1, (same t hc).2]
      exact ⟨(h.busy t hc).1, (h.busy t hc).2, h.started t hc⟩
  | charged t before current late state execStartTick steps =>
    have hd : (x.next now op s').dispatch = x.dispatch := by
      simp [UniSched.next, current, before]
    have hlt : x.dispatch < now := by
      have := h.started t before
      bv_omega
    refine hmain _ ?_ steps fun u hu => ?_
    · simp only [running, hd]
      show s'.current.map _ = _
      rw [current]
      simp [UniSched.next, execStartTick, BitVec.ne_of_lt hlt]
    · rw [hself current u hu, hd, execStartTick]
      exact ⟨state, hnow, BitVec.le_of_lt hlt⟩
  | left current steps =>
    refine hmain _ (by simp [running, UniSched.next, current]) steps fun u hu => ?_
    rw [current] at hu
    cases hu
  | dispatched t before current state execStartTick steps =>
    have hd : (x.next now op s').dispatch = now := by
      simp [UniSched.next, current, before.symm]
    refine hmain _ ?_ steps fun u hu => ?_
    · simp only [running, hd]
      show s'.current.map _ = _
      rw [current]
      simp [UniSched.next, execStartTick]
    · rw [hself current u hu, hd, execStartTick]
      exact ⟨state, hnow, BitVec.le_refl _⟩

theorem Ok.effect (h : x.Ok) (ht : Timely x now op) (hs : op.toOp.exec now x.sched = some s') :
    x.sched.Effect now x.running x.popped ((op.pops x.sched).toList ++ x.popped) s' := by
  have hcore := h.toCore
  have hr := x.running_fst
  cases op with
  | run =>
    cases hs
    split
    · rename_i hc
      have hcur : x.sched.current = none := hc
      have hnone : x.running = none := by simpa [hcur] using hr
      rw [hnone]
      simpa [UniOp.pops, UniOp.schedules, hcur] using hcore.schedRun hcur now
    · rename_i hc
      have hcur : x.sched.current ≠ none := hc
      simpa [UniOp.pops, hcur] using Sched.Effect.refl hcore
  | yield =>
    cases hs
    simpa [UniOp.pops, UniOp.schedules] using hcore.threadYield h.busy ht.noWrap hr
  | tick =>
    cases hs
    refine hcore.schedTick h.busy ht.noWrap hr fun t hrun hquantum => ?_
    obtain ⟨u, -, he⟩ := map_eq_some_iff.mp hrun
    obtain ⟨rfl, hdec⟩ := Prod.mk.inj he
    have hsame : x.dispatch = (x.sched.threads u).execStartTick := by simpa using hdec
    exact hsame ▸ ht.advanced rfl hquantum
  | block =>
    cases hs
    exact hcore.threadBlock h.busy ht.noWrap hr
  | unblock t =>
    cases hs
    exact (hcore.threadUnblock now h.busy hr ht.noWrap.min fun _ => ht.noWrap.vruntime t).effect h.busy
  | sleep ticks =>
    simpa [UniOp.pops, UniOp.schedules] using hcore.threadSleepTicks h.busy ht.noWrap hr hs
  | wakeSleepers upTo =>
    exact (hcore.schedWakeSleepers h.busy hr ht.noWrap hs).effect h.busy
  | handoff t =>
    cases hs
    exact hcore.threadHandoff h.busy ht.noWrap hr

theorem Ok.step (h : x.Ok) (hs : TimelyStep x a x') :
    x'.Ok ∧ VirtualTime.Steps x.virtual x'.virtual ∧ Sched.EntersAbove x.sched x'.sched := by
  obtain ⟨ht, hs⟩ := hs
  obtain ⟨s', hexec, rfl⟩ := map_eq_some_iff.mp hs
  have heff := h.effect ht hexec
  obtain ⟨hok, hsteps⟩ := h.next ht.now_ne heff
  exact ⟨hok, hsteps, heff.enters⟩

theorem Ok.run {as} (h : x.Ok) (hr : Run TimelyStep x as x') :
    x'.Ok ∧ VirtualTime.Steps x.virtual x'.virtual := by
  induction hr with
  | nil => exact ⟨h, .refl⟩
  | cons head _ ih =>
    obtain ⟨h₁, hsteps, -⟩ := h.step head
    obtain ⟨h₂, hrest⟩ := ih h₁
    exact ⟨h₂, hsteps.trans hrest⟩

theorem popped_append {as} (hr : Run TimelyStep x as x') :
    ∃ window, x'.popped = window ++ x.popped := by
  induction hr with
  | nil => exact ⟨[], rfl⟩
  | cons head _ ih =>
    obtain ⟨w, hw⟩ := ih
    obtain ⟨s', -, rfl⟩ := map_eq_some_iff.mp head.2
    exact ⟨w ++ (UniOp.pops _ _).toList, by rw [hw, List.append_assoc]; rfl⟩

/-- **No thread starves on a run queue.** -/
theorem no_starvation {as₀ : List (U64 × UniOp)} {a : U64 × UniOp} (h₀ : x₀.Ok)
    (hr₀ : Run TimelyStep x₀ as₀ x) (hs : TimelyStep x a x₁) :
    x.sched.minVruntime ≤ x₁.sched.minVruntime ∧ ∀ t ∈ x₁.sched.queue 0, t ∉ x.sched.queue 0 →
      x₁.sched.minVruntime ≤ (x₁.sched.threads t).vruntime ∧
      ∀ as x₂, Run TimelyStep x₁ as x₂ → ∃ window, x₂.popped = window ++ x₁.popped ∧
        (t ∉ window → ∀ u ≠ t, window.count u ≤
          (x₁.sched.threads t).virtualDeadline.toNat - x₁.sched.minVruntime.toNat + 1) := by
  obtain ⟨hok, -⟩ := h₀.run hr₀
  obtain ⟨hok₁, hsteps, henters⟩ := hok.step hs
  refine ⟨hsteps.min_le, fun t ht hn => ⟨henters t ht hn, fun as x₂ hr => ?_⟩⟩
  obtain ⟨window, hw⟩ := popped_append hr
  refine ⟨window, hw, fun htw u hut => ?_⟩
  have hpops : x₂.virtual.pops t = x₁.virtual.pops t := by
    show x₂.popped.count t = x₁.popped.count t
    rw [hw, List.count_append, List.count_eq_zero.mpr htw, Nat.zero_add]
  have hbound := VirtualTime.Steps.pops_bounded hok₁.virtual_ok ht (henters t ht hn)
    (hok₁.run hr).2 hpops hut
  have hcount : x₂.virtual.pops u - x₁.virtual.pops u = window.count u := by
    show x₂.popped.count u - x₁.popped.count u = _
    rw [hw, List.count_append, Nat.add_sub_cancel]
  exact hcount ▸ hbound

/-- Thread 1 runs with a small weight; thread 2 is blocked. -/
def sharedCpu : UniSched where
  sched := {
    cpuCount := 1
    threads := fun t =>
      if t = 1 then { state := .running, weight := 1, execStartTick := 1 }
      else if t = 2 then { state := .blocked, weight := 4096, blockedSinceTick := 1 }
      else {}
    cpus := fun _ => { current := some 1 }
    sleepList := ⟨none, fun _ => none⟩
    tasks := fun _ => {}
    nextAutoCpu := 0
    nextTid := 3
    nextThread := 3
    preemptionEnabled := true }
  dispatch := 1
  popped := []

theorem sharedCpu_ok : sharedCpu.Ok := by
  have hcur : ∀ t, sharedCpu.sched.current = some t → t = 1 := fun t ht => (some.inj ht).symm
  refine ⟨⟨rfl, fun t => ?_, .empty, fun _ ht => (by cases ht), fun _ => rfl, fun _ => rfl⟩,
    fun t ht => ?_, fun t ht => ?_, fun _ ht => (by cases ht)⟩
  · simp only [sharedCpu]
    split
    · rfl
    · split <;> rfl
  · rw [hcur t ht]
    decide
  · rw [hcur t ht]
    decide

theorem sharedCpu_timely : Timely sharedCpu 7 (.unblock 2) := by
  have hcur : ∀ t, sharedCpu.sched.current = some t → t = 1 := fun t ht => (some.inj ht).symm
  refine ⟨by decide, ⟨fun t ht => ?_, fun t ht => ?_, by decide, fun t => ?_⟩, fun h => by cases h⟩
  · rw [hcur t ht]
    decide
  · rw [hcur t ht]
    decide
  · simp only [sharedCpu]
    split
    · decide
    · split <;> decide

theorem no_starvation_wakeup : ∃ x₁, TimelyStep sharedCpu (7, .unblock 2) x₁ ∧ 2 ∈ x₁.sched.queue 0 ∧
    ∀ as x₂, Run TimelyStep x₁ as x₂ → ∃ window, x₂.popped = window ++ x₁.popped ∧
      (2 ∉ window → ∀ u ≠ 2, window.count u ≤
        (x₁.sched.threads 2).virtualDeadline.toNat - x₁.sched.minVruntime.toNat + 1) := by
  have hexec : (step sharedCpu 7 (.unblock 2)).any
      (fun x₁ => decide (2 ∈ x₁.sched.queue 0)) = true := by decide
  obtain ⟨x₁, hs, hmem⟩ := (any_eq_true _ _).mp hexec
  have hin : 2 ∈ x₁.sched.queue 0 := of_decide_eq_true hmem
  have hmain := no_starvation sharedCpu_ok (.nil _) (a := (7, .unblock 2)) ⟨sharedCpu_timely, hs⟩
  exact ⟨x₁, ⟨sharedCpu_timely, hs⟩, hin, (hmain.2 2 hin (by decide)).2⟩

end UniSched

end Bunix.Kernel
