import Bunix.Kernel.SchedInv

/-! # The moves of the scheduler

Every operation of the scheduler is a sequence of a few moves: a thread leaves its CPU, goes to a
queue, is taken from one, starts to run or is dropped. A move says what happens to threads, queues,
current threads, masks and handoff counters; the invariants are checked on the moves, and no
operation is looked at again.
-/
namespace Bunix.Kernel.Sched

open Bunix.Lib Function

variable {s s' s₁ : Sched} {c c' src : CpuId} {t u prev : ThreadId} {k : TaskId} {now : U64}
  {runq : RunQueue} {thread : Thread} {held : Set ThreadId} {cpu : CpuSched}

/-! ## What leaves the handoff counters alone -/

/-- Nothing happens to threads suspended inside `thread_handoff`, and no other thread becomes one. -/
structure HandoffSame (s s' : Sched) : Prop where
  depth : ∀ c, (s'.cpus c).handoffDepth = (s.cpus c).handoffDepth
  other : ∀ t, (s.threads t).handoffOn = none → (s'.threads t).handoffOn = none
  waiting : ∀ t, (s.threads t).handoffOn ≠ none → (s.threads t).state = .ready →
    (s'.threads t).handoffOn = (s.threads t).handoffOn ∧ (s'.threads t).state = .ready ∧
      (s'.threads t).task = (s.threads t).task
  killing : ∀ k, (s'.tasks k).killing = (s.tasks k).killing

namespace HandoffSame

theorem refl (s : Sched) : HandoffSame s s :=
  ⟨fun _ => rfl, fun _ h => h, fun _ _ hr => ⟨rfl, hr, rfl⟩, fun _ => rfl⟩

theorem trans (h : HandoffSame s s₁) (h' : HandoffSame s₁ s') : HandoffSame s s' := by
  refine ⟨fun c => (h'.depth c).trans (h.depth c), fun t ht => h'.other t (h.other t ht),
    fun t ht hr => ?_, fun k => (h'.killing k).trans (h.killing k)⟩
  obtain ⟨hon, hready, htask⟩ := h.waiting t ht hr
  obtain ⟨hon', hready', htask'⟩ := h'.waiting t (hon ▸ ht) hready
  exact ⟨hon'.trans hon, hready', htask'.trans htask⟩

theorem updThread {thread} (hon : thread.handoffOn = (s.threads t).handoffOn)
    (hwait : (s.threads t).handoffOn ≠ none → (s.threads t).state = .ready →
      thread.state = .ready ∧ thread.task = (s.threads t).task) :
    HandoffSame s (s.updThread t thread) := by
  refine ⟨fun _ => rfl, fun u hu => ?_, fun u hu hr => ?_, fun _ => rfl⟩
  · exact updThread_cases (fun hut => hon.trans (hut ▸ hu)) fun _ => hu
  · exact updThread_cases (fun hut => by subst hut; exact ⟨hon, hwait hu hr⟩) fun _ => ⟨rfl, hr, rfl⟩

theorem updCpu (h : cpu.handoffDepth = (s.cpus c).handoffDepth) :
    HandoffSame s (s.updCpu c cpu) := by
  refine ⟨fun c' => ?_, fun _ h => h, fun _ _ hr => ⟨rfl, hr, rfl⟩, fun _ => rfl⟩
  exact updCpu_cases (fun hc => hc ▸ h) fun _ => rfl

theorem setRunq (s : Sched) (c : CpuId) (runq : RunQueue) : HandoffSame s (s.setRunq c runq) :=
  updCpu rfl

theorem updTask {task} (h : task.killing = (s.tasks k).killing) :
    HandoffSame s (s.updTask k task) := by
  refine ⟨fun _ => rfl, fun _ h => h, fun _ _ hr => ⟨rfl, hr, rfl⟩, fun k' => ?_⟩
  show (update s.tasks k task k').killing = _
  exact update_cases (fun hk => hk ▸ h) fun _ => rfl

theorem account (s : Sched) (c : CpuId) (b : Bool) (now : U64) :
    HandoffSame s (s.schedAccountRuntime c b now) := by
  unfold schedAccountRuntime
  split
  · exact .refl s
  dsimp only
  split
  · exact .refl s
  split
  · exact updThread rfl fun _ hr => ⟨hr, rfl⟩
  split
  · exact .refl s
  · exact (setRunq s c _).trans (updThread rfl fun _ hr => ⟨hr, rfl⟩)

/-- A thread suspended inside `thread_handoff` is not dead. -/
theorem schedReapThread (s : Sched) (t : ThreadId) : HandoffSame s (s.schedReapThread t) := by
  unfold Sched.schedReapThread
  dsimp only
  split
  · rename_i k hdead _
    have hfree : HandoffSame s (s.updThread t {}) := by
      refine ⟨fun _ => rfl, fun u hu => ?_, fun u _ hr => ?_, fun _ => rfl⟩
      · exact updThread_cases (fun _ => rfl) fun _ => hu
      · have hut : u ≠ t := by
          rintro rfl
          rw [hdead] at hr
          cases hr
        rw [updThread_threads_ne _ hut]
        exact ⟨rfl, hr, rfl⟩
    refine ⟨fun _ => rfl, hfree.other, hfree.waiting, fun k' => ?_⟩
    refine (updTask ?_).killing k'
    rfl
  · exact .refl s

theorem schedReapPending (s : Sched) (c : CpuId) : HandoffSame s (s.schedReapPending c) := by
  unfold Sched.schedReapPending
  split
  · exact .refl s
  · refine HandoffSame.trans ?_ (schedReapThread _ _)
    exact updCpu rfl

theorem enqueued (he : Enqueued s t c s') : HandoffSame s s' := by
  refine ⟨fun c' => ?_, fun u hu => ?_, fun u hu hr => ?_, fun k => by rw [he.tasks]⟩
  · obtain ⟨runq, hcpu⟩ := he.cpu c'
    rw [hcpu]
  · by_cases hut : u = t
    · rw [hut, he.handoffOn, ← hut]
      exact hu
    · rwa [he.thread_ne u hut]
  · by_cases hut : u = t
    · rw [hut]
      exact ⟨he.handoffOn, he.state, he.task⟩
    · rw [he.thread_ne u hut]
      exact ⟨rfl, hr, rfl⟩

end HandoffSame

/-- Still, and neither masks nor suspended threads change. -/
structure Silent (s s' : Sched) : Prop extends Still s s', HandoffSame s s' where
  mask : ∀ t, (s.threads t).state ≠ .dead → (s'.threads t).affinityMask = (s.threads t).affinityMask

theorem Quiet.silent (h : Quiet s s') (hh : HandoffSame s s') : Silent s s' := ⟨h.toStill, hh, h.mask⟩

namespace Silent

theorem refl (s : Sched) : Silent s s := ⟨.refl s, .refl s, fun _ _ => rfl⟩

theorem updThread (h : ThreadAlike (s.threads t) thread)
    (hm : thread.affinityMask = (s.threads t).affinityMask)
    (hon : thread.handoffOn = (s.threads t).handoffOn) (hk : thread.task = (s.threads t).task) :
    Silent s (s.updThread t thread) := by
  refine ⟨.updThread s t h, .updThread hon fun _ hr => ⟨h.state.trans hr, hk⟩, fun u _ => ?_⟩
  exact updThread_cases (fun hut => hut ▸ hm) fun _ => rfl

theorem updCpu (h : CpuAlike (s.cpus c) cpu)
    (hd : cpu.handoffDepth = (s.cpus c).handoffDepth) : Silent s (s.updCpu c cpu) :=
  ⟨.updCpu h, .updCpu hd, fun _ _ => rfl⟩

theorem account (s : Sched) (c : CpuId) (b : Bool) (now : U64) :
    Silent s (s.schedAccountRuntime c b now) :=
  (schedAccountRuntime_quiet s c b now).silent (.account s c b now)

theorem reapThread (s : Sched) (t : ThreadId) : Silent s (s.schedReapThread t) :=
  (schedReapThread_quiet s t).silent (.schedReapThread s t)

theorem reapPending (s : Sched) (c : CpuId) : Silent s (s.schedReapPending c) :=
  (schedReapPending_quiet s c).silent (.schedReapPending s c)

theorem selectAutoCpuMask (h : 0 < s.cpuCount) (mask : U64) :
    Silent s (s.schedSelectAutoCpuMask mask).2 :=
  (schedSelectAutoCpuMask_spec h mask).2.silent
    ⟨fun _ => rfl, fun _ h => h, fun _ _ hr => ⟨rfl, hr, rfl⟩, fun _ => rfl⟩

end Silent

/-! ## Taking a thread off a queue -/

theorem betterSource_eq (s : Sched) (dst : CpuId) (best : Option CpuId) (c : CpuId) :
    s.betterSource dst best c = some c ∧ c ≠ dst ∨ s.betterSource dst best c = best := by
  unfold betterSource
  cases best <;>
    · dsimp only
      split
      · rename_i h
        exact .inl ⟨rfl, h.1⟩
      · exact .inr rfl

theorem pullSource_spec {dst src} (h : s.pullSource dst = some src) :
    src < s.cpuCount ∧ src ≠ dst := by
  have key : ∀ (l : List CpuId) (best : Option CpuId), (∀ c ∈ l, c < s.cpuCount) →
      (∀ b, best = some b → b < s.cpuCount ∧ b ≠ dst) →
      ∀ b, l.foldl (s.betterSource dst) best = some b → b < s.cpuCount ∧ b ≠ dst := by
    intro l
    induction l with
    | nil => exact fun _ _ hb => hb
    | cons d l ih =>
      intro best hl hb b h
      refine ih _ (fun c hc => hl c (by simp [hc])) (fun b hb' => ?_) b h
      rcases betterSource_eq s dst best d with ⟨he, hne⟩ | he
      · rw [he] at hb'
        cases hb'
        exact ⟨hl _ (by simp), hne⟩
      · exact hb b (he ▸ hb')
  exact key _ none (fun _ => List.mem_range.mp) (fun b hb => by cases hb) src h

/-- What `sched_run` takes for CPU `c`: a thread of its own queue, or one that another CPU's
queue holds and that may move to `c`. -/
structure TakenFrom (s : Sched) (c : CpuId) (t : ThreadId) (src : CpuId) (runq : RunQueue)
    (thread : Thread) : Prop extends Dequeued s t src runq where
  state : thread.state = .ready
  cpuId : thread.cpuId = c
  asleep : thread.asleep = (s.threads t).asleep
  saved : thread.saved = (s.threads t).saved
  affinityMask : thread.affinityMask = (s.threads t).affinityMask
  handoffOn : thread.handoffOn = (s.threads t).handoffOn
  task : thread.task = (s.threads t).task
  own : src = c ∨ src ≠ c ∧ s.queue c = [] ∧ (s.threads t).pullable c = true

theorem schedRunPick_spec (h : QueueInv s held) (hc : c < s.cpuCount)
    (hp : s.schedRunPick c = some (t, s')) : ∃ src runq thread, TakenFrom s c t src runq thread ∧
      s' = (s.setRunq src runq).updThread t thread := by
  unfold schedRunPick at hp
  split at hp
  · rename_i runq hpop
    cases hp
    have hd := h.pop hc hpop
    obtain ⟨_, hready, hcpu⟩ := h.queued c hc t hd.mem
    refine ⟨c, runq, s.threads t, ⟨hd, hready, hcpu, rfl, rfl, rfl, rfl, rfl, .inl rfl⟩, ?_⟩
    simp [updThread, setRunq, updCpu]
  · rename_i hpop
    have hempty : s.queue c = [] := by
      unfold runqPop at hpop
      split at hpop
      · rename_i hq
        exact hq
      · cases hpop
    unfold schedIdlePull at hp
    split at hp
    · cases hp
    split at hp
    · cases hp
    rename_i src hsrc
    split at hp
    · cases hp
    rename_i hrem
    cases hp
    obtain ⟨hm, hpull, rfl⟩ := runqRemoveFirstEligible_some hrem
    obtain ⟨hlt, hne⟩ := pullSource_spec hsrc
    have hready := (h.queued src hlt t hm).2.1
    refine ⟨src, _, _, ⟨h.unlink hlt hm, ?_, rfl, ?_, ?_, ?_, ?_, ?_, .inr ⟨hne, hempty, hpull⟩⟩, rfl⟩
    · split <;> exact hready
    all_goals split <;> rfl

/-! ## Starting a thread -/

/-- CPU `c` runs `t` now. If `t` was suspended inside `thread_handoff`, the tail of that function has
counted down. -/
structure Started (s : Sched) (c : CpuId) (t : ThreadId) (s' : Sched) : Prop where
  cpuCount : s'.cpuCount = s.cpuCount
  nextThread : s'.nextThread = s.nextThread
  sleepList : s'.sleepList = s.sleepList
  tasks : s'.tasks = s.tasks
  runq : ∀ d, (s'.cpus d).runq = (s.cpus d).runq
  current : ∀ d, (s'.cpus d).current = if d = c then some t else (s.cpus d).current
  depth : ∀ d, (s'.cpus d).handoffDepth =
    if (s.threads t).handoffOn = some d then (s.cpus d).handoffDepth - 1
    else (s.cpus d).handoffDepth
  thread_ne : ∀ u, u ≠ t → s'.threads u = s.threads u
  state : (s'.threads t).state = .running
  cpuId : (s'.threads t).cpuId = (s.threads t).cpuId
  asleep : (s.threads t).asleep = false → (s'.threads t).asleep = false
  affinityMask : (s'.threads t).affinityMask = (s.threads t).affinityMask
  handoffOn : (s'.threads t).handoffOn = none

/-- What `sched_run` and `thread_handoff` write into the record of a thread before they switch to it. -/
structure ThreadStarts (a b : Thread) : Prop where
  state : b.state = .running
  cpuId : b.cpuId = a.cpuId
  asleep : a.asleep = false → b.asleep = false
  affinityMask : b.affinityMask = a.affinityMask
  handoffOn : b.handoffOn = a.handoffOn

theorem exists_started (h : ThreadStarts (s.threads t) thread) (c : CpuId) (cpu : CpuSched)
    (hrunq : cpu.runq = (s.cpus c).runq) (hdepth : cpu.handoffDepth = (s.cpus c).handoffDepth) :
    ∃ s₂, Started s c t s₂ ∧ Silent s₂ (((s.updThread t thread).updCpu c cpu).switchToThread c t) := by
  set s₁ := (s.updThread t { thread with saved := false, handoffOn := none }).updCpu c
    { cpu with current := some t, next := none, prepared := false } with hs₁
  have hcpu : ∀ d, (s₁.cpus d).runq = (s.cpus d).runq ∧
      (s₁.cpus d).current = (if d = c then some t else (s.cpus d).current) ∧
      (s₁.cpus d).handoffDepth = (s.cpus d).handoffDepth := by
    intro d
    by_cases hd : d = c
    · subst hd
      rw [hs₁, updCpu_cpus_self, if_pos rfl]
      exact ⟨hrunq, rfl, hdepth⟩
    · rw [hs₁, updCpu_cpus_ne _ hd, if_neg hd]
      exact ⟨rfl, rfl, rfl⟩
  have hself : s₁.threads t = { thread with saved := false, handoffOn := none } :=
    updThread_threads_self _
  have hne : ∀ u, u ≠ t → s₁.threads u = s.threads u := fun _ => updThread_threads_ne _
  cases hon : (s.threads t).handoffOn with
  | none =>
    have hswitch : ((s.updThread t thread).updCpu c cpu).switchToThread c t = s₁ := by
      simp only [switchToThread, hs₁, Sched.updThread, Sched.updCpu, update_self, update_idem,
        h.handoffOn.trans hon]
    rw [hswitch]
    refine ⟨s₁, ⟨rfl, rfl, rfl, rfl, fun d => (hcpu d).1, fun d => (hcpu d).2.1, fun d => ?_, hne,
      ?_, ?_, ?_, ?_, ?_⟩, .refl _⟩
    · rw [hon, if_neg (by simp)]
      exact (hcpu d).2.2
    all_goals rw [hself]
    exacts [h.state, h.cpuId, h.asleep, h.affinityMask]
  | some c₀ =>
    have hswitch : ((s.updThread t thread).updCpu c cpu).switchToThread c t = (s₁.updCpu c₀ { s₁.cpus c₀ with
        handoffDepth := (s₁.cpus c₀).handoffDepth - 1 }).schedReapPending c₀ := by
      simp only [switchToThread, hs₁, Sched.updThread, Sched.updCpu, update_self, update_idem,
        h.handoffOn.trans hon]
    rw [hswitch]
    refine ⟨s₁.updCpu c₀ { s₁.cpus c₀ with handoffDepth := (s₁.cpus c₀).handoffDepth - 1 },
      ⟨rfl, rfl, rfl, rfl, fun d => ?_, fun d => ?_, fun d => ?_, hne, ?_, ?_, ?_, ?_, ?_⟩,
      Silent.reapPending _ c₀⟩
    · exact updCpu_cases (fun hd => by rw [hd]; exact (hcpu c₀).1) fun _ => (hcpu d).1
    · rw [← (hcpu d).2.1]
      exact updCpu_cases (fun hd => by rw [hd]) fun _ => rfl
    · rw [hon, ← (hcpu d).2.2]
      exact updCpu_cases (fun hd => by rw [hd, if_pos rfl]) fun hd => by
        rw [if_neg fun he => hd (Option.some.inj he).symm]
    all_goals rw [updCpu_threads, hself]
    exacts [h.state, h.cpuId, h.asleep, h.affinityMask]

theorem CoreInv.started (h : CoreInv s (insert t ∅) (some c)) (hs : Started s c t s')
    (hoff : Off s (some c) t) (hlt : t < s.nextThread) (hcpu : (s.threads t).cpuId = c) :
    CoreInv s' ∅ none := by
  refine ⟨?_, fun d hd _ u hu => ?_, ?_⟩
  · refine (h.queues.congr hs.cpuCount hs.runq fun u hu => hs.thread_ne u fun he => ?_).release ?_
    · exact hu (he ▸ Set.mem_insert t ∅)
    · simp [hs.state]
  · rw [hs.cpuCount] at hd
    rw [hs.current] at hu
    split at hu
    · rename_i hdc
      cases hu
      exact ⟨hs.state, hs.cpuId.trans (hcpu.trans hdc.symm)⟩
    · rename_i hdc
      have hskip : some d ≠ some c := fun he => hdc (Option.some.inj he)
      have hut : u ≠ t := fun he => hoff d hd hskip (he ▸ hu)
      rw [hs.thread_ne u hut]
      exact h.running d hd hskip u hu
  · refine h.placed.congr hs.cpuCount hs.nextThread hs.thread_ne hlt fun hb => ?_
    rw [hs.state] at hb
    cases hb

/-! ## Moves -/

/-- The current thread stops, for good or until it is woken. -/
structure ThreadStops (tidy : Prop) (a b : Thread) : Prop where
  state : b.state = .blocked ∨ b.state = .dead
  cpuId : b.cpuId = a.cpuId
  asleep : tidy → b.asleep = a.asleep
  affinityMask : b.affinityMask = a.affinityMask
  handoffOn : b.handoffOn = a.handoffOn

/-- The CPU goes back to its scheduler thread. -/
structure Vacated (a b : CpuSched) : Prop where
  runq : b.runq = a.runq
  current : b.current = none
  depth : b.handoffDepth = a.handoffDepth

/-- `prev` is suspended inside `thread_handoff` on CPU `c`. -/
def suspended (s : Sched) (c : CpuId) (prev : ThreadId) : Sched :=
  (s.updThread prev { s.threads prev with handoffOn := some c, saved := true }).updCpu c
    { s.cpus c with handoffDepth := (s.cpus c).handoffDepth + 1 }

/-- With `kept` a CPU is handed only to threads that may run there, with `tidy` no thread is woken or
put to sleep behind the back of the sleep list, and with `spared` no task is killed while a thread
of it is suspended inside `thread_handoff`. -/
inductive Move (kept tidy spared : Prop) (s : Sched) : Sched → Prop
  | silent {s' : Sched} (h : Silent s s') : Move kept tidy spared s s'
  | relink (list : PtrList ThreadId) (h : ¬ tidy) : Move kept tidy spared s { s with sleepList := list }
  | leave {c : CpuId} {t : ThreadId} {thread : Thread} {cpu : CpuSched} (hc : c < s.cpuCount)
      (hcur : (s.cpus c).current = some t) (ht : ThreadStops tidy (s.threads t) thread)
      (hcpu : Vacated (s.cpus c) cpu) : Move kept tidy spared s ((s.updThread t thread).updCpu c cpu)
  | requeue {c c' : CpuId} {t : ThreadId} {s₁ : Sched} {cpu : CpuSched} (hc : c < s.cpuCount)
      (hcur : (s.cpus c).current = some t) (he : Enqueued s t c' s₁)
      (hbit : s.schedPolicyValidCpuMask (s.threads t).affinityMask = true →
        (s.threads t).affinityMask.getLsbD c' = true)
      (hcpu : Vacated (s₁.cpus c) cpu) : Move kept tidy spared s (s₁.updCpu c cpu)
  | wake {c' : CpuId} {t : ThreadId} {s' : Sched} (hb : (s.threads t).state = .blocked)
      (hawake : tidy → (s.threads t).asleep = false) (he : Enqueued s t c' s')
      (hbit : s.schedPolicyValidCpuMask (s.threads t).affinityMask = true →
        (s.threads t).affinityMask.getLsbD c' = true) : Move kept tidy spared s s'
  | create {c' : CpuId} {k : TaskId} {thread : Thread} {s' : Sched} (hstate : thread.state = .empty)
      (hon : thread.handoffOn = none) (hvalid : s.schedPolicyValidCpuMask thread.affinityMask = true)
      (he : Enqueued (s.addThread k thread) s.nextThread c' s')
      (hbit : thread.affinityMask.getLsbD c' = true) : Move kept tidy spared s s'
  | run {c src : CpuId} {t : ThreadId} {runq : RunQueue} {thread : Thread} {s' : Sched}
      (ht : TakenFrom s c t src runq thread)
      (hs : Started ((s.setRunq src runq).updThread t thread) c t s') : Move kept tidy spared s s'
  | drop {c : CpuId} {t : ThreadId} {k : TaskId} {runq : RunQueue} {thread : Thread}
      (hd : Dequeued s t c runq) (hk : (s.threads t).task = some k) (hkill : (s.tasks k).killing = true)
      (hstate : thread.state = .dead) (hasleep : thread.asleep = (s.threads t).asleep)
      (hon : thread.handoffOn = (s.threads t).handoffOn) :
      Move kept tidy spared s ((s.setRunq c runq).updThread t thread)
  | handoff {c c' : CpuId} {prev t : ThreadId} {s₁ s' : Sched} (hc : c < s.cpuCount)
      (hcur : (s.cpus c).current = some prev) (hb : (s.threads t).state = .blocked)
      (hcpu : (s.threads t).cpuId = c) (hawake : tidy → (s.threads t).asleep = false)
      (hmay : kept → (s.threads t).affinityMask.getLsbD c = true)
      (hzero : (s.cpus c).handoffDepth = 0)
      (halive : ∀ k, (s.threads prev).task = some k → (s.tasks k).killing = false)
      (he : Enqueued s prev c' s₁)
      (hbit : s.schedPolicyValidCpuMask (s.threads prev).affinityMask = true →
        (s.threads prev).affinityMask.getLsbD c' = true)
      (hs : Started (s₁.suspended c prev) c t s') : Move kept tidy spared s s'
  | mark (k : TaskId)
      (hspare : spared → ∀ t, (s.threads t).task = some k → (s.threads t).handoffOn = none) :
      Move kept tidy spared s (s.updTask k { s.tasks k with killing := true })

def Moves (kept tidy spared : Prop) : Sched → Sched → Prop :=
  Relation.ReflTransGen (Move kept tidy spared)

/-! ## Moves keep queues, current threads and places -/

section
variable (h : CoreInv s ∅ none)
include h

theorem CoreInv.current (hc : c < s.cpuCount) (hcur : (s.cpus c).current = some t) :
    (s.threads t).state = .running ∧ (s.threads t).cpuId = c ∧ t < s.nextThread ∧ Off s (some c) t := by
  obtain ⟨hrun, hcpu⟩ := h.running c hc (by simp) t hcur
  exact ⟨hrun, hcpu, h.placed.lt (by simp [hrun]), h.running.off_current hc hcur⟩

theorem CoreInv.enqueueCurrent (hc : c < s.cpuCount) (hcur : (s.cpus c).current = some t)
    (he : Enqueued s t c' s') : CoreInv s' ∅ (some c) := by
  obtain ⟨hrun, _, hlt, hoff⟩ := h.current hc hcur
  exact (h.leave c).enqueued he (by simp [hrun]) (by simp) hoff hlt

omit h in
@[simp] theorem addThread_threads_self : (s.addThread k thread).threads s.nextThread = thread :=
  update_self ..

theorem CoreInv.addThread (k : TaskId) (hstate : thread.state = .empty) :
    CoreInv (s.addThread k thread) ∅ none := by
  have hempty : (s.threads s.nextThread).state = .empty := h.placed.fresh _ le_rfl
  have h₁ : CoreInv { s with nextTid := s.nextTid + 1, nextThread := s.nextThread + 1 } ∅ none :=
    ⟨⟨h.queues.ok, h.queues.queued, h.queues.ready⟩, h.running,
      h.placed.cpuCount_pos, h.placed.blocked, fun t ht => h.placed.fresh t (Nat.le_of_succ_le ht)⟩
  have h₂ := h₁.still (Still.updTask (k := k) { s.tasks k with
    threads := s.nextThread :: (s.tasks k).threads, threadCount := (s.tasks k).threadCount + 1 })
  refine h₂.touches (.updThread thread) (h₂.running.off ?_) (Nat.lt_succ_self _)
    (h₂.queues.updThread thread ?_ ?_) ?_
  · simp [hempty]
  · simp [hempty]
  · simp [hstate]
  · rw [addThread_threads_self, hstate]
    exact fun hb => by cases hb

variable {kept tidy spared : Prop}

theorem Move.core (hm : Move kept tidy spared s s') : CoreInv s' ∅ none := by
  cases hm with
  | silent hs => exact h.still hs.toStill
  | relink list _ => exact h.relink list
  | leave hc hcur ht hcpu =>
    obtain ⟨hrun, hon, hlt, hoff⟩ := h.current hc hcur
    have hready : ThreadState.ready ≠ _ := fun he => by
      rcases ht.state with hs | hs <;> exact absurd (he.trans hs) (by simp)
    refine CoreInv.updCpu ((h.leave _).touches (.updThread _) hoff hlt
      (h.queues.updThread _ (by simp [hrun]) hready.symm) fun _ => ?_) hcpu.runq fun u hu => ?_
    · rw [updThread_threads_self, ht.cpuId, hon]
      exact hc
    · rw [hcpu.current] at hu
      cases hu
  | requeue hc hcur he _ hcpu =>
    refine (h.enqueueCurrent hc hcur he).updCpu hcpu.runq fun u hu => ?_
    rw [hcpu.current] at hu
    cases hu
  | wake hb _ he _ =>
    exact h.enqueued he (by simp [hb]) (by simp) (h.running.off (by simp [hb])) (h.placed.lt (by simp [hb]))
  | @create _ k thread _ hstate _ _ he _ =>
    have h₁ := h.addThread k hstate
    refine h₁.enqueued he ?_ (by simp) (h₁.running.off ?_) (Nat.lt_succ_self _)
    · simp [hstate]
    · simp [hstate]
  | @run c src t runq thread s' ht hs =>
    have hready := (h.queues.queued src ht.lt t ht.mem).2.1
    have h₁ := h.dequeue ht.toDequeued
    have hoff : Off (s.setRunq src runq) none t := h₁.running.off (by
      show (s.threads t).state ≠ .running
      simp [hready])
    have hlt : t < s.nextThread := h.placed.lt (by simp [hready])
    have h₂ := h₁.touches (.updThread thread) hoff hlt (h₁.queues.updThread_held (by simp) thread)
      fun hb => by simp [ht.state] at hb
    refine (h₂.leave c).started hs (fun d hd _ => hoff d hd (by simp)) hlt ?_
    rw [updThread_threads_self, ht.cpuId]
  | @drop c t k runq thread hd _ _ hstate _ _ =>
    have hready := (h.queues.queued c hd.lt t hd.mem).2.1
    have h₁ := h.dequeue hd
    refine h₁.touches (.updThread thread) (h₁.running.off ?_) (h.placed.lt (by simp [hready]))
      ((h₁.queues.updThread_held (by simp) thread).release (by simp [hstate])) fun hb => ?_
    · show (s.threads t).state ≠ .running
      simp [hready]
    · simp [hstate] at hb
  | @handoff c c' prev t s₁ s' hc hcur hb hcpu _ _ _ _ he _ hs =>
    have hprev := (h.current hc hcur).1
    have htp : t ≠ prev := by
      rintro rfl
      rw [hprev] at hb
      cases hb
    have hstill : Still s₁ (s₁.suspended c prev) := by
      refine (Still.updThread s₁ prev ?_).trans (.updCpu ?_)
      · exact ⟨rfl, rfl, rfl, fun _ => rfl⟩
      · exact ⟨rfl, rfl, rfl, rfl⟩
    have h₂ := (h.enqueueCurrent hc hcur he).still hstill
    have ht : (s₁.suspended c prev).threads t = s.threads t :=
      (updThread_threads_ne _ htp).trans (he.thread_ne t htp)
    have hb₂ : ((s₁.suspended c prev).threads t).state = .blocked := by rw [ht, hb]
    refine (h₂.hold (by simp [hb₂])).started hs (h₂.running.off (by simp [hb₂]))
      (h₂.placed.lt (by simp [hb₂])) ?_
    rw [ht, hcpu]
  | mark k _ => exact h.still (.updTask _)

theorem Moves.keeps {P : Sched → Prop} (hm : Moves kept tidy spared s s') (hP : P s)
    (hstep : ∀ s s', CoreInv s ∅ none → Move kept tidy spared s s' → P s → P s') :
    CoreInv s' ∅ none ∧ P s' := by
  induction hm with
  | refl => exact ⟨h, hP⟩
  | tail _ hmove ih => exact ⟨Move.core ih.1 hmove, hstep _ _ ih.1 hmove ih.2⟩

theorem Moves.core (hm : Moves kept tidy spared s s') : CoreInv s' ∅ none :=
  (Moves.keeps h hm trivial fun _ _ _ _ _ => trivial).1

end

end Bunix.Kernel.Sched
