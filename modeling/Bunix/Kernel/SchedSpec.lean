import Bunix.Kernel.Sched

/-! # What the scheduler's building blocks change

One specification for each internal function of the scheduler: which threads, queues and
CPUs it touches, and that everything else stays as it was. The invariants are derived from
these and never unfold the functions again.
-/
namespace Bunix.Kernel.Sched

open Bunix.Lib Function List BitVec Bool

variable {s₁ s₂ s₃ : Sched} {thread : Thread} {cpu : CpuSched}

def key (s : Sched) (t : ThreadId) : Nat ×ₗ Nat ×ₗ Nat ×ₗ Nat := (s.threads t).sortKey

def queue (s : Sched) (c : CpuId) : List ThreadId := (s.cpus c).runq.queue

variable {s s' : Sched} {c c' : CpuId} {t u : ThreadId} {k : TaskId} {now : U64}

@[simp] theorem updThread_threads_self (thread : Thread) : (s.updThread t thread).threads t = thread :=
  update_self ..

@[simp] theorem updThread_threads_ne (thread : Thread) (h : u ≠ t) :
    (s.updThread t thread).threads u = s.threads u := update_of_ne h ..

@[simp] theorem updCpu_cpus_self (cpu : CpuSched) : (s.updCpu c cpu).cpus c = cpu := update_self ..

@[simp] theorem updCpu_cpus_ne (cpu : CpuSched) (h : c' ≠ c) :
    (s.updCpu c cpu).cpus c' = s.cpus c' := update_of_ne h ..

@[elab_as_elim]
theorem updThread_cases {motive : Thread → Prop} (self : u = t → motive thread)
    (ne : u ≠ t → motive (s.threads u)) : motive ((s.updThread t thread).threads u) :=
  @update_cases _ _ _ s.threads t u thread motive self ne

@[elab_as_elim]
theorem updCpu_cases {motive : CpuSched → Prop} (self : c' = c → motive cpu)
    (ne : c' ≠ c → motive (s.cpus c')) : motive ((s.updCpu c cpu).cpus c') :=
  @update_cases _ _ _ s.cpus c c' cpu motive self ne

@[simp] theorem setRunq_current {src runq} :
    ((s.setRunq src runq).cpus c).current = (s.cpus c).current := by
  exact updCpu_cases (fun hc => by rw [hc]) fun _ => rfl

/-- What of a thread the scheduler's invariants speak about stays the same. -/
structure ThreadAlike (a b : Thread) : Prop where
  state : b.state = a.state
  cpuId : b.cpuId = a.cpuId
  asleep : b.asleep = a.asleep
  key : a.state = .ready → b.sortKey = a.sortKey

/-- What of a CPU the invariants speak about stays the same. -/
structure CpuAlike (a b : CpuSched) : Prop where
  queue : b.runq.queue = a.runq.queue
  tail : b.runq.tail = a.runq.tail
  count : b.runq.count = a.runq.count
  current : b.current = a.current

/-- A dead thread has been freed. -/
structure Freed (a b : Thread) : Prop where
  dead : a.state = .dead
  empty : b.state = .empty
  awake : b.asleep = false

theorem ThreadAlike.refl (a : Thread) : ThreadAlike a a := ⟨rfl, rfl, rfl, fun _ => rfl⟩

theorem CpuAlike.refl (a : CpuSched) : CpuAlike a a := ⟨rfl, rfl, rfl, rfl⟩

theorem ThreadAlike.trans (h : ThreadAlike a b) (h' : ThreadAlike b d) :
    ThreadAlike a d :=
  ⟨h'.state.trans h.state, h'.cpuId.trans h.cpuId, h'.asleep.trans h.asleep,
    fun hr => (h'.key (h.state.trans hr)).trans (h.key hr)⟩

theorem CpuAlike.trans (h : CpuAlike a b) (h' : CpuAlike b d) : CpuAlike a d :=
  ⟨h'.queue.trans h.queue, h'.tail.trans h.tail, h'.count.trans h.count, h'.current.trans h.current⟩

/-- Nothing the invariants speak about changes, but that dead threads may be freed. -/
structure Still (s s' : Sched) : Prop where
  cpuCount : s'.cpuCount = s.cpuCount
  nextThread : s'.nextThread = s.nextThread
  cpu : ∀ c, CpuAlike (s.cpus c) (s'.cpus c)
  thread : ∀ t, ThreadAlike (s.threads t) (s'.threads t) ∨ Freed (s.threads t) (s'.threads t)
  sleepList : ∀ xs, s.sleepList.Represents xs → (∀ t ∈ xs, (s.threads t).state = .blocked) →
    s'.sleepList.Represents xs

theorem Still.refl (s : Sched) : Still s s :=
  ⟨rfl, rfl, fun _ => .refl _, fun _ => .inl (.refl _), fun _ h _ => h⟩

theorem Still.alike (hq : Still s s') (ht : (s.threads t).state ≠ .dead) :
    ThreadAlike (s.threads t) (s'.threads t) :=
  (hq.thread t).resolve_right fun hf => ht hf.dead

theorem Still.alike_of_used (hq : Still s s') (ht : (s'.threads t).state ≠ .empty) :
    ThreadAlike (s.threads t) (s'.threads t) :=
  (hq.thread t).resolve_right fun hf => ht hf.empty

theorem Still.trans (h : Still s₁ s₂) (h' : Still s₂ s₃) : Still s₁ s₃ := by
  refine ⟨h'.cpuCount.trans h.cpuCount, h'.nextThread.trans h.nextThread,
    fun c => (h.cpu c).trans (h'.cpu c), fun t => ?_, fun xs hr hb => ?_⟩
  · rcases h.thread t with ha | hf
    · rcases h'.thread t with ha' | hf'
      · exact .inl (ha.trans ha')
      · exact .inr ⟨ha.state ▸ hf'.dead, hf'.empty, hf'.awake⟩
    · rcases h'.thread t with ha' | hf'
      · exact .inr ⟨hf.dead, ha'.state.trans hf.empty, ha'.asleep.trans hf.awake⟩
      · exact .inr ⟨hf.dead, hf'.empty, hf'.awake⟩
  · refine h'.sleepList xs (h.sleepList xs hr hb) fun t ht => ?_
    exact (h.alike (by simp [hb t ht])).state.trans (hb t ht)

/-- Still, and no context, placement mask or program counter changes either. -/
structure Quiet (s s' : Sched) : Prop extends Still s s' where
  saved : ∀ t, (s.threads t).state ≠ .dead → (s'.threads t).saved = (s.threads t).saved
  mask : ∀ t, (s.threads t).state ≠ .dead → (s'.threads t).affinityMask = (s.threads t).affinityMask
  next : ∀ c, (s'.cpus c).next = (s.cpus c).next
  prepared : ∀ c, (s'.cpus c).prepared = (s.cpus c).prepared

theorem Quiet.refl (s : Sched) : Quiet s s :=
  ⟨.refl s, fun _ _ => rfl, fun _ _ => rfl, fun _ => rfl, fun _ => rfl⟩

theorem Quiet.trans (h : Quiet s₁ s₂) (h' : Quiet s₂ s₃) : Quiet s₁ s₃ := by
  have hlive : ∀ t, (s₁.threads t).state ≠ .dead → (s₂.threads t).state ≠ .dead := by
    intro t ht
    rwa [(h.alike ht).state]
  exact ⟨h.toStill.trans h'.toStill,
    fun t ht => (h'.saved t (hlive t ht)).trans (h.saved t ht),
    fun t ht => (h'.mask t (hlive t ht)).trans (h.mask t ht),
    fun c => (h'.next c).trans (h.next c), fun c => (h'.prepared c).trans (h.prepared c)⟩

theorem Still.updThread (s : Sched) (t : ThreadId)
    (h : ThreadAlike (s.threads t) thread) : Still s (s.updThread t thread) := by
  refine ⟨rfl, rfl, fun _ => .refl _, fun u => .inl ?_, fun _ h _ => h⟩
  exact updThread_cases (fun hu => hu ▸ h) fun _ => .refl _

theorem Still.updCpu (h : CpuAlike (s.cpus c) cpu) : Still s (s.updCpu c cpu) := by
  refine ⟨rfl, rfl, fun c' => ?_, fun _ => .inl (.refl _), fun _ h _ => h⟩
  exact updCpu_cases (fun hc => hc ▸ h) fun _ => .refl _

theorem Still.updTask (task : SchedTask) : Still s (s.updTask k task) :=
  ⟨rfl, rfl, fun _ => .refl _, fun _ => .inl (.refl _), fun _ h _ => h⟩

theorem Quiet.updThread (h : ThreadAlike (s.threads t) thread) (hs : thread.saved = (s.threads t).saved)
    (hm : thread.affinityMask = (s.threads t).affinityMask) : Quiet s (s.updThread t thread) := by
  refine ⟨.updThread s t h, fun u _ => ?_, fun u _ => ?_, fun _ => rfl, fun _ => rfl⟩
  · exact updThread_cases (fun hu => hu ▸ hs) fun _ => rfl
  · exact updThread_cases (fun hu => hu ▸ hm) fun _ => rfl

theorem Quiet.updCpu (h : CpuAlike (s.cpus c) cpu) (hn : cpu.next = (s.cpus c).next)
    (hp : cpu.prepared = (s.cpus c).prepared) : Quiet s (s.updCpu c cpu) := by
  refine ⟨.updCpu h, fun _ _ => rfl, fun _ _ => rfl, fun c' => ?_, fun c' => ?_⟩
  · exact updCpu_cases (fun hc => hc ▸ hn) fun _ => rfl
  · exact updCpu_cases (fun hc => hc ▸ hp) fun _ => rfl

theorem Quiet.updTask (task : SchedTask) : Quiet s (s.updTask k task) :=
  ⟨.updTask task, fun _ _ => rfl, fun _ _ => rfl, fun _ => rfl, fun _ => rfl⟩

/-! ## Accounting, reaping, placement -/

theorem schedAccountRuntime_quiet (s : Sched) (c : CpuId) (b : Bool) (now : U64) :
    Quiet s (s.schedAccountRuntime c b now) := by
  unfold schedAccountRuntime
  cases hc : (s.cpus c).current with
  | none => exact .refl s
  | some t =>
    simp only
    split
    · exact .refl s
    rename_i hrun
    -- only a running thread is charged, and its key is in no queue
    have hr : (s.threads t).state = .running := not_not.mp hrun
    have hkey : (s.threads t).state ≠ .ready := by
      rw [hr]
      exact fun h => by cases h
    split
    · exact .updThread ⟨rfl, rfl, rfl, fun h => absurd h hkey⟩ rfl rfl
    split
    · exact .refl s
    · refine Quiet.trans ?_ (.updThread ⟨rfl, rfl, rfl, fun h => absurd h hkey⟩ rfl rfl)
      exact .updCpu ⟨rfl, rfl, rfl, rfl⟩ rfl rfl

theorem schedReapThread_quiet (s : Sched) (t : ThreadId) : Quiet s (s.schedReapThread t) := by
  unfold schedReapThread
  simp only
  split
  · rename_i hd _
    have hne : ∀ u, (s.threads u).state ≠ .dead → u ≠ t := by
      rintro u hu rfl
      exact hu hd
    refine ⟨⟨rfl, rfl, fun _ => .refl _, fun u => ?_, fun xs hr hb => ?_⟩, fun u hu => ?_,
      fun u hu => ?_, fun _ => rfl, fun _ => rfl⟩
    · by_cases hu : u = t
      · subst hu
        exact .inr ⟨hd, by simp, by simp⟩
      · simp only [updTask_threads, updThread_threads_ne _ hu]
        exact .inl (.refl _)
    · refine PtrList.Chain.congr hr fun a ha => update_of_ne ?_ _ _
      rintro rfl
      have := hb a ha
      rw [hd] at this
      cases this
    · simp only [updTask_threads, updThread_threads_ne _ (hne u hu)]
    · simp only [updTask_threads, updThread_threads_ne _ (hne u hu)]
  · exact .refl s

theorem schedReapPending_quiet (s : Sched) (c : CpuId) : Quiet s (s.schedReapPending c) := by
  unfold schedReapPending
  split
  · exact .refl s
  · refine Quiet.trans ?_ (schedReapThread_quiet _ _)
    exact .updCpu ⟨rfl, rfl, rfl, rfl⟩ rfl rfl

theorem schedPolicyMaskFirstCpu_lt (h : 0 < s.cpuCount) (mask : U64) :
    s.schedPolicyMaskFirstCpu mask < s.cpuCount := by
  unfold schedPolicyMaskFirstCpu
  cases hf : (range (min s.cpuCount 64)).find? fun i => mask.getLsbD i with
  | none => exact h
  | some i =>
    have := mem_range.mp (mem_of_find?_eq_some hf)
    exact lt_of_lt_of_le this (Nat.min_le_left _ _)

theorem leastLoaded_lt {best} (mask : U64) (hb : best < s.cpuCount) :
    s.leastLoaded mask best < s.cpuCount := by
  unfold leastLoaded
  generalize range s.cpuCount = l
  induction l generalizing best with
  | nil => exact hb
  | cons i l ih =>
    apply ih
    dsimp only
    split
    · exact Nat.mod_lt _ (Nat.zero_lt_of_lt hb)
    · exact hb

theorem schedSelectAutoCpuMask_spec (h : 0 < s.cpuCount) (mask : U64) :
    (s.schedSelectAutoCpuMask mask).1 < s.cpuCount ∧ Quiet s (s.schedSelectAutoCpuMask mask).2 :=
  ⟨leastLoaded_lt _ (schedPolicyMaskFirstCpu_lt h _),
    ⟨rfl, rfl, fun _ => .refl _, fun _ => .inl (.refl _), fun _ h _ => h⟩, fun _ _ => rfl,
    fun _ _ => rfl, fun _ => rfl, fun _ => rfl⟩

theorem getLsbD_schedOnlineCpuMask (s : Sched) (i : Nat) :
    s.schedOnlineCpuMask.getLsbD i = true ↔ i < min s.cpuCount 64 := by
  have key : ∀ (n : Nat) (h : n ≤ 64), ((range n).foldl (fun mask i => mask ||| (1#64 <<< i))
      (0 : U64)).getLsbD i = true ↔ i < n := by
    intro n
    induction n with
    | zero => simp
    | succ n ih =>
      intro h
      rw [range_succ, foldl_append, foldl_cons, foldl_nil, getLsbD_or,
        or_eq_true, ih (by omega), getLsbD_shiftLeft]
      simp only [and_eq_true, decide_eq_true_eq, not_eq_true', decide_eq_false_iff_not,
        getLsbD_one]
      omega
  exact key _ (Nat.min_le_right _ _)

theorem exists_cpu_of_mask (h : 0 < s.cpuCount) (mask : U64) : ∃ i < min s.cpuCount 64,
    (if s.schedPolicyValidCpuMask mask then mask else s.schedOnlineCpuMask).getLsbD i = true := by
  split
  · rename_i hv
    simp only [schedPolicyValidCpuMask, and_eq_true, bne_iff_ne, beq_iff_eq] at hv
    obtain ⟨i, hi⟩ : ∃ i, mask.getLsbD i = true := by
      by_contra hn
      apply hv.1
      refine eq_of_getLsbD_eq fun i _ => ?_
      simpa using fun hi => hn ⟨i, hi⟩
    refine ⟨i, (getLsbD_schedOnlineCpuMask s i).mp ?_, hi⟩
    have hz := congrArg (getLsbD · i) hv.2
    simp only [getLsbD_and, hi, Bool.true_and, getLsbD_not] at hz
    have hlt : i < 64 := lt_of_getLsbD hi
    simpa [hlt] using hz
  · exact ⟨0, by omega, (getLsbD_schedOnlineCpuMask s 0).mpr (by omega)⟩

theorem leastLoaded_mask {best : CpuId} {mask : U64} (hb : mask.getLsbD best = true) :
    mask.getLsbD (s.leastLoaded mask best) = true := by
  unfold leastLoaded
  generalize range s.cpuCount = l
  induction l generalizing best with
  | nil => exact hb
  | cons i l ih =>
    apply ih
    dsimp only
    split
    · rename_i hsel
      simp only [and_eq_true] at hsel
      exact hsel.1
    · exact hb

theorem schedPolicyMaskFirstCpu_mask {mask : U64} (h : ∃ i < min s.cpuCount 64, mask.getLsbD i = true) :
    mask.getLsbD (s.schedPolicyMaskFirstCpu mask) = true := by
  unfold schedPolicyMaskFirstCpu
  cases hf : (range (min s.cpuCount 64)).find? fun i => mask.getLsbD i with
  | none =>
    obtain ⟨i, hi, hm⟩ := h
    have := find?_eq_none.mp hf i (mem_range.mpr hi)
    exact absurd hm this
  | some i => exact find?_some hf

theorem schedSelectAutoCpuMask_mask (h : 0 < s.cpuCount) (mask : U64) :
    (if s.schedPolicyValidCpuMask mask then mask else s.schedOnlineCpuMask).getLsbD
      (s.schedSelectAutoCpuMask mask).1 = true :=
  leastLoaded_mask (schedPolicyMaskFirstCpu_mask (exists_cpu_of_mask h mask))

/-! ## Enqueueing -/

/-- `schedPrepareEnqueueLocked` touches the sort key, the weight and the ticks only. -/
theorem schedPrepareEnqueueLocked_eq (runq : RunQueue) (thread : Thread) (wakeup : Bool)
    (now : U64) : ∃ weight vruntime virtualDeadline eligibleTime blockedSinceTick wakeReadyTick,
      schedPrepareEnqueueLocked runq thread wakeup now =
        { thread with
          weight, vruntime, virtualDeadline, eligibleTime, blockedSinceTick, wakeReadyTick
          enqueueSeq := runq.enqueueSeq + 1, enqueueTick := now } :=
  ⟨_, _, _, _, _, _, rfl⟩

/-- `t` has been put on the queue of CPU `c`; nothing else the invariants speak about has
changed. -/
structure Enqueued (s : Sched) (t : ThreadId) (c : CpuId) (s' : Sched) : Prop where
  lt : c < s.cpuCount
  cpuCount : s'.cpuCount = s.cpuCount
  nextThread : s'.nextThread = s.nextThread
  sleepList : s'.sleepList = s.sleepList
  tasks : s'.tasks = s.tasks
  cpu_ne : ∀ c', c' ≠ c → s'.cpus c' = s.cpus c'
  cpu_eq : ∃ runq : RunQueue, runq.queue = (s.cpus c).runq.queue ∧
    runq.tail = (s.cpus c).runq.tail ∧ runq.count = (s.cpus c).runq.count ∧
    s'.cpus c = { s.cpus c with runq := runqPush s'.threads runq t }
  thread_ne : ∀ u, u ≠ t → s'.threads u = s.threads u
  state : (s'.threads t).state = .ready
  cpuId : (s'.threads t).cpuId = c
  awake : (s'.threads t).asleep = false
  saved : (s'.threads t).saved = (s.threads t).saved
  affinityMask : (s'.threads t).affinityMask = (s.threads t).affinityMask
  wakeTick : (s'.threads t).wakeTick = (s.threads t).wakeTick
  task : (s'.threads t).task = (s.threads t).task
  handoffOn : (s'.threads t).handoffOn = (s.threads t).handoffOn

theorem enqueueLocked_spec (hc : c < s.cpuCount) (t : ThreadId) (wakeup : Bool) (now : U64) :
    Enqueued s t c (s.enqueueLocked c t wakeup now) := by
  obtain ⟨w, v, d, e, b, r, heq⟩ := schedPrepareEnqueueLocked_eq (s.cpus c).runq
    { s.threads t with cpuId := c, state := .ready, asleep := false } wakeup now
  unfold enqueueLocked
  simp only [heq]
  refine ⟨hc, rfl, rfl, rfl, rfl, fun _ => updCpu_cpus_ne _,
    ⟨{ (s.cpus c).runq with enqueueSeq := (s.cpus c).runq.enqueueSeq + 1 }, rfl, rfl, rfl, ?_⟩,
    fun _ => updThread_threads_ne _, ?_, ?_, ?_, ?_, ?_, ?_, ?_, ?_⟩
  · exact updCpu_cpus_self _
  all_goals simp [setRunq]

theorem Enqueued.of_quiet (h : Enqueued s₁ t c s') (hcpus : s₁.cpus = s.cpus)
    (hthreads : s₁.threads = s.threads) (htasks : s₁.tasks = s.tasks)
    (hcount : s₁.cpuCount = s.cpuCount) (hnext : s₁.nextThread = s.nextThread)
    (hsleep : s₁.sleepList = s.sleepList) : Enqueued s t c s' := by
  obtain ⟨h₁, h₂, h₃, h₄, h₅, h₆, h₇, h₈, h₉, h₁₀, h₁₁, h₁₂, h₁₃, h₁₄, h₁₅, h₁₆⟩ := h
  exact ⟨hcount ▸ h₁, hcount ▸ h₂, hnext ▸ h₃, hsleep ▸ h₄, htasks ▸ h₅, hcpus ▸ h₆, hcpus ▸ h₇,
    hthreads ▸ h₈, h₉, h₁₀, h₁₁, hthreads ▸ h₁₂, hthreads ▸ h₁₃, hthreads ▸ h₁₄, hthreads ▸ h₁₅,
    hthreads ▸ h₁₆⟩

theorem schedEnqueueOnReason_spec (hc : c < s.cpuCount) (t : ThreadId) (wakeup : Bool) (now : U64) :
    ∃ c', Enqueued s t c' (s.schedEnqueueOnReason c t wakeup now) ∧
      ((s.threads t).affinityMask.getLsbD c = true → c' = c) ∧
      (s.schedPolicyValidCpuMask (s.threads t).affinityMask = true →
        (s.threads t).affinityMask.getLsbD c' = true) := by
  have hpos := Nat.zero_lt_of_lt hc
  unfold schedEnqueueOnReason enqueueTarget
  simp only
  split
  · rename_i hm
    have hlt : _ < (s.schedSelectAutoCpuMask (s.threads t).affinityMask).2.cpuCount :=
      (schedSelectAutoCpuMask_spec hpos (s.threads t).affinityMask).1
    have hbit := schedSelectAutoCpuMask_mask hpos (s.threads t).affinityMask
    refine ⟨_, (enqueueLocked_spec hlt t wakeup now).of_quiet rfl rfl rfl rfl rfl rfl, fun h => ?_,
      fun hvalid => ?_⟩
    · rw [hm.2] at h
      cases h
    · rwa [if_pos hvalid] at hbit
  · rename_i hstay
    refine ⟨c, enqueueLocked_spec hc t wakeup now, fun _ => rfl, fun hvalid => ?_⟩
    by_contra hbit
    simp only [schedPolicyValidCpuMask, and_eq_true, bne_iff_ne] at hvalid
    exact hstay ⟨hvalid.1, by simpa using hbit⟩

end Bunix.Kernel.Sched
