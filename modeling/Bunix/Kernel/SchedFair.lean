import Bunix.Kernel.SchedSpec
import Bunix.Lib.Transition
import Bunix.Lib.VirtualTime

/-! # One CPU shared in virtual time

The scheduler on a machine with one CPU: yields, ticks, blocking, sleeping, waking and handoffs
in any order. Its run queue implements `VirtualTime`: each operation is a sequence of charges,
entries, pops and handoffs there, as long as the 64-bit counters do not wrap. What the abstract
queue guarantees, in particular that nobody waits for ever, then holds of the scheduler.
-/
namespace Bunix.Kernel.Sched

open Bunix.Lib Function BitVec Nat Prod

variable {s s' s₁ s₂ s₃ : Sched} {t u : ThreadId} {now delta : U64} {wakeup chargeMin : Bool}
  {thread : Thread} {c : CpuId} {cpu : CpuSched}

/-- What `sched_refresh_deadline` adds at most: a slice at weight one. -/
def maxSlice : Nat := 5 * 1024

/-- What a wake-up is credited at most: `SCHED_WAKE_BONUS_MAX_TICKS` at weight one. -/
def maxCredit : Nat := 20 * 1024

/-- The ticks `sched_account_runtime` charges when it charges at all. -/
def chargedTicks (thread : Thread) (now : U64) : U64 :=
  if now ≤ thread.execStartTick then 1 else now - thread.execStartTick

def minVruntime (s : Sched) : U64 := (s.cpus 0).runq.minVruntime

def current (s : Sched) : Option ThreadId := (s.cpus 0).current

/-! ## Arithmetic without wrapping -/

theorem schedScaleDelta_toNat (weight : U32) (h : delta.toNat * 1024 + 2 ^ 32 ≤ 2 ^ 64) :
    ∃ w : Nat, 0 < w ∧ (schedScaleDelta delta weight).toNat = (delta.toNat * 1024 + w - 1) / w := by
  obtain ⟨w, hw, hpos, hlt⟩ : ∃ w : Nat,
      ((if weight = 0 then schedBaseWeight else weight).setWidth 64).toNat = w ∧ 0 < w ∧
        w < 2 ^ 32 := by
    refine ⟨_, rfl, ?_, ?_⟩ <;> split <;> simp_all [schedBaseWeight] <;> bv_omega
  refine ⟨w, hpos, ?_⟩
  have hbase : (schedBaseWeight.setWidth 64 : U64).toNat = 1024 := rfl
  have hone : (1 : U64).toNat = 1 := rfl
  unfold schedScaleDelta
  simp only [toNat_udiv, toNat_sub, toNat_add, toNat_mul, hw, hbase, hone]
  congr 1
  omega

theorem schedScaleDelta_pos (weight : U32)
    (h : delta.toNat * 1024 + 2 ^ 32 ≤ 2 ^ 64) (hd : 0 < delta.toNat) :
    0 < (schedScaleDelta delta weight).toNat := by
  obtain ⟨w, hw, he⟩ := schedScaleDelta_toNat weight h
  rw [he]
  exact div_pos (by omega) hw

theorem schedScaleDelta_le (weight : U32) (h : delta.toNat * 1024 + 2 ^ 32 ≤ 2 ^ 64) :
    (schedScaleDelta delta weight).toNat ≤ delta.toNat * 1024 := by
  obtain ⟨w, hw, he⟩ := schedScaleDelta_toNat weight h
  rw [he]
  refine Nat.le_of_lt_succ ((Nat.div_lt_iff_lt_mul hw).mpr ?_)
  have : delta.toNat * 1024 ≤ delta.toNat * 1024 * w := Nat.le_mul_of_pos_right _ hw
  rw [Nat.succ_mul]
  omega

theorem schedRefreshDeadline_ahead (thread : Thread) (h : thread.vruntime.toNat + maxSlice < 2 ^ 64) :
    (schedRefreshDeadline thread).vruntime.toNat <
      (schedRefreshDeadline thread).virtualDeadline.toNat := by
  have hticks : schedBaseSliceTicks.toNat = 5 := rfl
  have hfits : schedBaseSliceTicks.toNat * 1024 + 2 ^ 32 ≤ 2 ^ 64 := by decide
  have hle := schedScaleDelta_le thread.weight hfits
  have hpos := schedScaleDelta_pos thread.weight hfits (by decide)
  have hne : schedScaleDelta schedBaseSliceTicks thread.weight ≠ 0 := by
    intro h
    rw [h] at hpos
    exact absurd hpos (by decide)
  simp only [schedRefreshDeadline, if_pos hne, toNat_add]
  unfold maxSlice at h
  omega

theorem wakeVruntime_bounds {minV since weight}
    (hmin : minV.toNat + maxCredit < 2 ^ 64) (hv : minV.toNat ≤ v.toNat) :
    minV.toNat ≤ (wakeVruntime minV v since now weight).toNat ∧
      (wakeVruntime minV v since now weight).toNat ≤ v.toNat := by
  simp only [wakeVruntime]
  generalize hs : minU64 schedWakeBonusMaxTicks
    (if since ≠ 0 ∧ since < now then now - since else 0) = slept
  have hslept : slept.toNat ≤ 20 := by
    rw [← hs, toNat_minU64]
    exact min_le_left ..
  have hcredit := schedScaleDelta_le weight (show slept.toNat * 1024 + 2 ^ 32 ≤ 2 ^ 64 by omega)
  unfold maxCredit at hmin
  split
  · split
    · bv_omega
    · exact ⟨le_refl _, hv⟩
  · exact ⟨hv, le_refl _⟩

/-- **What enters the queue is neither behind its minimum nor past its own deadline.** -/
theorem schedPrepareEnqueueLocked_bounds (runq : RunQueue) (thread : Thread) (now : U64)
    (hmin : wakeup = true → runq.minVruntime.toNat + maxCredit < 2 ^ 64)
    (hroom : max runq.minVruntime.toNat thread.vruntime.toNat + maxSlice < 2 ^ 64) :
    let entered := schedPrepareEnqueueLocked runq thread wakeup now
    runq.minVruntime.toNat ≤ entered.vruntime.toNat ∧
      entered.vruntime.toNat < entered.virtualDeadline.toNat := by
  intro entered
  have hbounds : runq.minVruntime.toNat ≤ entered.vruntime.toNat ∧
      entered.vruntime.toNat ≤ max runq.minVruntime.toNat thread.vruntime.toNat := by
    cases wakeup with
    | false => simp [entered, schedPrepareEnqueueLocked, schedRefreshDeadline]
    | true =>
      simp only [entered, schedPrepareEnqueueLocked, schedRefreshDeadline, if_true]
      have hle : runq.minVruntime.toNat ≤ (maxU64 runq.minVruntime thread.vruntime).toNat := by simp
      simpa using wakeVruntime_bounds (hmin rfl) hle
  exact ⟨hbounds.1, schedRefreshDeadline_ahead _ (by
    have := hbounds.2
    simp only [entered, schedPrepareEnqueueLocked, schedRefreshDeadline] at this
    simp only
    omega)⟩

/-! ## The abstract queue of CPU 0 -/

/-- The run queue of CPU 0 in virtual time, when `running` runs and `popped` has been taken out
so far. -/
def virtual (s : Sched) (running : Option (ThreadId × Bool)) (popped : List ThreadId) :
    VirtualTime ThreadId where
  min := s.minVruntime.toNat
  vruntime t := (s.threads t).vruntime.toNat
  deadline t := (s.threads t).virtualDeadline.toNat
  queued := {t | t ∈ s.queue 0}
  current := running
  pops t := popped.count t

/-- One CPU, every thread at home on it, a well-formed queue of ready threads, and nobody being
killed or waiting to be reaped. -/
structure Core (s : Sched) : Prop where
  one : s.cpuCount = 1
  home : ∀ t, (s.threads t).cpuId = 0
  ok : (s.cpus 0).runq.Ok s.key
  ready : ∀ t ∈ s.queue 0, (s.threads t).state = .ready
  alive : ∀ k, (s.tasks k).killing = false
  calm : ∀ c, (s.cpus c).reap = none

theorem Core.not_killing (h : Core s) (t : ThreadId) : s.threadTaskIsKilling t = false := by
  unfold threadTaskIsKilling
  split
  · rfl
  · exact h.alive _

theorem Core.not_queued (h : Core s) (ht : (s.threads t).state ≠ .ready) : t ∉ s.queue 0 :=
  fun hq => ht (h.ready t hq)

theorem Core.sleepList (h : Core s) (sleepList : PtrList ThreadId) : Core { s with sleepList } :=
  ⟨h.one, h.home, h.ok, h.ready, h.alive, h.calm⟩

theorem Core.updThread (h : Core s) (hc : thread.cpuId = 0)
    (ht : t ∉ s.queue 0) : Core (s.updThread t thread) := by
  have hne : ∀ u ∈ s.queue 0, u ≠ t := by
    rintro u hu rfl
    exact ht hu
  refine ⟨h.one, fun u => ?_, h.ok.congr rfl rfl rfl fun u hu => ?_, fun u hu => ?_, h.alive, h.calm⟩
  · exact updThread_cases (fun _ => hc) fun _ => h.home u
  · simp only [key, updThread_threads_ne _ (hne u hu)]
  · simpa [hne u hu] using h.ready u hu

theorem Core.updThread_alike (h : Core s)
    (ha : ThreadAlike (s.threads t) thread) : Core (s.updThread t thread) := by
  by_cases hq : t ∈ s.queue 0
  · refine ⟨h.one, fun u => ?_, h.ok.congr rfl rfl rfl fun u hu => ?_, fun u hu => ?_, h.alive,
      h.calm⟩ <;> by_cases hut : u = t
    · subst hut
      simpa [ha.cpuId] using h.home u
    · simpa [hut] using h.home u
    · subst hut
      simp only [key, updThread_threads_self]
      exact ha.key (h.ready u hu)
    · simp only [key, updThread_threads_ne _ hut]
    · subst hut
      simpa [ha.state] using h.ready u hq
    · simpa [hut] using h.ready u hu
  · exact h.updThread (ha.cpuId.trans (h.home t)) hq

theorem Core.updCpu (h : Core s)
    (ha : cpu.runq.queue = (s.cpus c).runq.queue ∧ cpu.runq.tail = (s.cpus c).runq.tail ∧
      cpu.runq.count = (s.cpus c).runq.count) (hr : cpu.reap = none) : Core (s.updCpu c cpu) := by
  refine ⟨h.one, h.home, ?_, fun u hu => ?_, h.alive, fun c' => ?_⟩
  · refine updCpu_cases (fun hc => ?_) fun _ => h.ok
    subst hc
    exact h.ok.congr ha.1 ha.2.1 ha.2.2 fun _ _ => rfl
  · refine h.ready u ?_
    by_cases hc : c = 0
    · subst hc
      simpa [queue, ha.1] using hu
    · simpa [queue, Ne.symm hc] using hu
  · exact updCpu_cases (fun _ => hr) fun _ => h.calm c'

theorem threads_update (h : ∀ u ≠ t, s'.threads u = s.threads u) (f : Thread → U64) :
    (fun u => (f (s'.threads u)).toNat) =
      update (fun u => (f (s.threads u)).toNat) t (f (s'.threads t)).toNat := by
  funext u
  by_cases hu : u = t
  · subst hu
    simp
  · simp [hu, h u hu]

theorem virtual_updThread (thread : Thread) {running}
    {popped} : (s.updThread t thread).virtual running popped =
      { s.virtual running popped with
        vruntime := update (s.virtual running popped).vruntime t thread.vruntime.toNat
        deadline := update (s.virtual running popped).deadline t
          thread.virtualDeadline.toNat } := by
  have hfun := threads_update (t := t) fun u hu => updThread_threads_ne (s := s) thread hu
  simp only [virtual, hfun, updThread_threads_self]
  rfl

theorem virtual_updThread_alike {running} {popped} (hv : thread.vruntime = (s.threads t).vruntime)
    (hd : thread.virtualDeadline = (s.threads t).virtualDeadline) :
    (s.updThread t thread).virtual running popped = s.virtual running popped := by
  rw [virtual_updThread, hv, hd]
  simp [virtual]

theorem virtual_updCpu {running} {popped} (hq : cpu.runq.queue = (s.cpus c).runq.queue)
    (hm : cpu.runq.minVruntime = (s.cpus c).runq.minVruntime) :
    (s.updCpu c cpu).virtual running popped = s.virtual running popped := by
  by_cases hc : c = 0
  · subst hc
    simp [virtual, minVruntime, queue, hq, hm]
  · simp [virtual, minVruntime, queue, Ne.symm hc]

/-! ## Charging the running thread -/

/-- No counter is so large that what one operation adds to it could wrap. -/
structure NoWrap (now : U64) (s : Sched) : Prop where
  ticks : ∀ t, s.current = some t → (chargedTicks (s.threads t) now).toNat * 1024 + 2 ^ 32 ≤ 2 ^ 64
  charge : ∀ t, s.current = some t → (s.threads t).vruntime.toNat +
    (schedScaleDelta (chargedTicks (s.threads t) now) (s.threads t).weight).toNat + maxSlice < 2 ^ 64
  min : s.minVruntime.toNat + maxCredit < 2 ^ 64
  vruntime : ∀ t, (s.threads t).vruntime.toNat + maxSlice < 2 ^ 64

/-- `t` runs and has been charged. -/
structure Charged (now : U64) (s : Sched) (t : ThreadId) (s' : Sched) : Prop extends Core s' where
  step : ∀ b popped, VirtualTime.Step (s.virtual (some (t, b)) popped)
    (s'.virtual (some (t, true)) popped)
  current : s'.current = some t
  queue : s'.queue 0 = s.queue 0
  thread_ne : ∀ u ≠ t, s'.threads u = s.threads u
  state : (s'.threads t).state = .running
  execStartTick : (s'.threads t).execStartTick = now
  room : max s'.minVruntime.toNat (s'.threads t).vruntime.toNat + maxSlice < 2 ^ 64

theorem schedAccountRuntime_eq (hc : s.current = some t)
    (hr : (s.threads t).state = .running) (he : (s.threads t).execStartTick ≠ 0)
    (hcharge : chargeMin = true ∨ (s.threads t).execStartTick < now) :
    s.schedAccountRuntime 0 chargeMin now =
      let thread := { s.threads t with
        execStartTick := now
        vruntime := (s.threads t).vruntime +
          schedScaleDelta (chargedTicks (s.threads t) now) (s.threads t).weight }
      (s.setRunq 0 { (s.cpus 0).runq with
        minVruntime := maxU64 thread.vruntime s.minVruntime }).updThread t
          (schedRefreshDeadline thread) := by
  have hnot : ¬ (now ≤ (s.threads t).execStartTick ∧ chargeMin = false) := by
    rintro ⟨hle, hfalse⟩
    rcases hcharge with h | h
    · rw [hfalse] at h
      cases h
    · exact absurd h (BitVec.not_lt.mpr hle)
  unfold current at hc
  unfold schedAccountRuntime
  simp only [hc, hr, ne_eq, not_true_eq_false, if_false, he, if_neg hnot]
  rfl

theorem chargedTicks_pos (thread : Thread) (now : U64) : 0 < (chargedTicks thread now).toNat := by
  unfold chargedTicks
  split
  · decide
  · bv_omega

theorem Core.charged (h : Core s) (hc : s.current = some t)
    (hr : (s.threads t).state = .running) (he : (s.threads t).execStartTick ≠ 0)
    (hw : NoWrap now s) (hcharge : chargeMin = true ∨ (s.threads t).execStartTick < now) :
    Charged now s t (s.schedAccountRuntime 0 chargeMin now) := by
  have hq : t ∉ s.queue 0 := h.not_queued (by simp [hr])
  have hpos := schedScaleDelta_pos (s.threads t).weight (hw.ticks t hc)
    (chargedTicks_pos (s.threads t) now)
  have hroom := hw.charge t hc
  have hmin := hw.min
  rw [schedAccountRuntime_eq hc hr he hcharge]
  generalize hv : (s.threads t).vruntime +
    schedScaleDelta (chargedTicks (s.threads t) now) (s.threads t).weight = v
  have hvNat : v.toNat = (s.threads t).vruntime.toNat +
      (schedScaleDelta (chargedTicks (s.threads t) now) (s.threads t).weight).toNat := by
    rw [← hv, toNat_add, mod_eq_of_lt (by omega)]
  have hcpu : Core (s.setRunq 0 { (s.cpus 0).runq with minVruntime := maxU64 v s.minVruntime }) :=
    h.updCpu ⟨rfl, rfl, rfl⟩ (h.calm 0)
  refine ⟨hcpu.updThread (h.home t) ?_, fun b popped => ?_, ?_, ?_, fun u hu => ?_, ?_, ?_, ?_⟩
  · simpa [queue, setRunq] using hq
  · have hlt : (s.virtual (some (t, b)) popped).vruntime t < v.toNat := by
      show (s.threads t).vruntime.toNat < v.toNat
      omega
    have hstep := VirtualTime.Step.charge v.toNat
      (schedRefreshDeadline { s.threads t with execStartTick := now, vruntime := v }).virtualDeadline.toNat
      rfl hlt
    rw [virtual_updThread]
    simpa [virtual, setRunq, queue, minVruntime, schedRefreshDeadline] using hstep
  · simpa [current, setRunq] using hc
  · simp [queue, setRunq]
  · simp [setRunq, hu]
  · simpa [schedRefreshDeadline] using hr
  · simp [schedRefreshDeadline]
  · simp only [minVruntime, setRunq, updThread_cpus, updCpu_cpus_self, updThread_threads_self,
      schedRefreshDeadline, toNat_maxU64]
    unfold minVruntime at hmin
    simp only [maxCredit] at hmin
    simp only [maxSlice] at hroom ⊢
    omega

theorem schedAccountRuntime_idle (hc : s.current = some t) (he : (s.threads t).execStartTick ≠ 0)
    (hle : now ≤ (s.threads t).execStartTick) : s.schedAccountRuntime 0 false now = s := by
  unfold current at hc
  unfold schedAccountRuntime
  simp only [hc, if_neg he, hle, true_and, if_true]
  split <;> rfl

/-! ## Entering the queue -/

/-- `t` has entered the queue. -/
structure Entered (s : Sched) (t : ThreadId) (s' : Sched) : Prop extends Core s' where
  mem : ∀ u, u ∈ s'.queue 0 ↔ u = t ∨ u ∈ s.queue 0
  min : s'.minVruntime = s.minVruntime
  current : s'.current = s.current
  thread_ne : ∀ u ≠ t, s'.threads u = s.threads u
  state : (s'.threads t).state = .ready
  above : s.minVruntime.toNat ≤ (s'.threads t).vruntime.toNat
  ahead : (s'.threads t).vruntime.toNat < (s'.threads t).virtualDeadline.toNat
  quantum : (s'.cpus 0).quantumLeft = (s.cpus 0).quantumLeft

theorem enqueueTarget_one (h : s.cpuCount = 1) (t : ThreadId) :
    ∃ n, s.enqueueTarget 0 t = (0, { s with nextAutoCpu := n }) := by
  unfold enqueueTarget
  simp only
  split
  · have hlt := (schedSelectAutoCpuMask_spec (s := s) (by omega) (s.threads t).affinityMask).1
    exact ⟨_, Prod.ext (by rw [h] at hlt; exact lt_one_iff.mp hlt) rfl⟩
  · exact ⟨s.nextAutoCpu, rfl⟩

theorem Core.entered (h : Core s) (ht : t ∉ s.queue 0)
    (hmin : wakeup = true → s.minVruntime.toNat + maxCredit < 2 ^ 64)
    (hroom : max s.minVruntime.toNat (s.threads t).vruntime.toNat + maxSlice < 2 ^ 64) :
    Entered s t (s.schedEnqueueOnReason 0 t wakeup now) := by
  obtain ⟨n, hn⟩ := enqueueTarget_one h.one t
  unfold schedEnqueueOnReason
  rw [hn]
  have hbounds := schedPrepareEnqueueLocked_bounds (s.cpus 0).runq
    { s.threads t with cpuId := 0, state := .ready, asleep := false } now hmin hroom
  have henq : Enqueued s t 0 (({ s with nextAutoCpu := n } : Sched).enqueueLocked 0 t wakeup now) :=
    (enqueueLocked_spec (h.one ▸ one_pos) t wakeup now).of_quiet
      rfl rfl rfl rfl rfl rfl
  have hmin' : (({ s with nextAutoCpu := n } : Sched).enqueueLocked 0 t wakeup now).minVruntime =
      s.minVruntime := by
    simp [minVruntime, enqueueLocked, setRunq, runqPush]
  have hthread : (({ s with nextAutoCpu := n } : Sched).enqueueLocked 0 t wakeup now).threads t =
      schedPrepareEnqueueLocked (s.cpus 0).runq
        { s.threads t with cpuId := 0, state := .ready, asleep := false } wakeup now := by
    simp [enqueueLocked, setRunq]
  rw [← hthread] at hbounds
  generalize Sched.enqueueLocked _ 0 t wakeup now = s' at henq hmin' hbounds
  obtain ⟨runq, hqueue, htail, hcount, hcpu⟩ := henq.cpu_eq
  have hmem : ∀ u, u ∈ s'.queue 0 ↔ u = t ∨ u ∈ s.queue 0 := fun u => by
    simp only [queue, hcpu, mem_runqPush, hqueue]
  have hok : RunQueue.Ok s'.key runq := h.ok.congr hqueue htail hcount fun u hu => by
    rw [key, henq.thread_ne u fun he => ht (he ▸ hu), key]
  refine ⟨⟨henq.cpuCount.trans h.one, fun u => ?_, ?_, fun u hu => ?_, henq.tasks ▸ h.alive,
    fun c => ?_⟩, hmem, hmin', ?_, henq.thread_ne, henq.state, hbounds.1, hbounds.2, ?_⟩
  · by_cases hu : u = t
    · rw [hu, henq.cpuId]
    · rw [henq.thread_ne u hu, h.home u]
  · rw [hcpu]
    exact hok.push (hqueue ▸ ht)
  · by_cases hut : u = t
    · rw [hut, henq.state]
    · rw [henq.thread_ne u hut]
      exact h.ready u (((hmem u).mp hu).resolve_left hut)
  · by_cases hc : c = 0
    · rw [hc, hcpu]
      exact h.calm 0
    · rw [henq.cpu_ne c hc, h.calm c]
  · simp [current, hcpu]
  · rw [hcpu]

theorem Entered.step (h : Entered s t s') {running}
    (popped : List ThreadId) (ht : t ∉ s.queue 0) (hr : ∀ b, running ≠ some (t, b)) :
    VirtualTime.Step (s.virtual running popped) (s'.virtual running popped) := by
  have hstep := VirtualTime.Step.enqueue (q := s.virtual running popped)
    (s'.threads t).vruntime.toNat (s'.threads t).virtualDeadline.toNat ht hr h.above h.ahead
  have hqueue : {u | u ∈ s'.queue 0} = insert t {u | u ∈ s.queue 0} := by
    ext u
    exact h.mem u
  have heq : s'.virtual running popped = { s.virtual running popped with
      vruntime := update (s.virtual running popped).vruntime t
        (s'.threads t).vruntime.toNat
      deadline := update (s.virtual running popped).deadline t
        (s'.threads t).virtualDeadline.toNat
      queued := insert t (s.virtual running popped).queued } := by
    simp only [virtual, h.min, hqueue, threads_update h.thread_ne]
  rw [heq]
  exact hstep

/-! ## Leaving the CPU and taking it -/

/-- Nothing that the queue or its threads' turns depend on has changed. -/
structure Same (s s' : Sched) : Prop extends Core s' where
  queue : s'.queue 0 = s.queue 0
  virtual : ∀ running popped, s'.virtual running popped = s.virtual running popped
  state : ∀ u, (s'.threads u).state = (s.threads u).state
  execStartTick : ∀ u, (s'.threads u).execStartTick = (s.threads u).execStartTick

theorem Same.refl (h : Core s) : Same s s := ⟨h, rfl, fun _ _ => rfl, fun _ => rfl, fun _ => rfl⟩

theorem Same.trans (h : Same s₁ s₂) (h' : Same s₂ s₃) : Same s₁ s₃ :=
  ⟨h'.toCore, h'.queue.trans h.queue, fun r p => (h'.virtual r p).trans (h.virtual r p),
    fun u => (h'.state u).trans (h.state u),
    fun u => (h'.execStartTick u).trans (h.execStartTick u)⟩

theorem Core.same_updThread (h : Core s) (ha : ThreadAlike (s.threads t) thread)
    (hv : thread.vruntime = (s.threads t).vruntime)
    (hd : thread.virtualDeadline = (s.threads t).virtualDeadline)
    (he : thread.execStartTick = (s.threads t).execStartTick) : Same s (s.updThread t thread) := by
  refine ⟨h.updThread_alike ha, rfl, fun _ _ => virtual_updThread_alike hv hd, fun u => ?_,
    fun u => ?_⟩ <;>
    by_cases hu : u = t
  · subst hu
    simpa using ha.state
  · simp [hu]
  · subst hu
    simpa using he
  · simp [hu]

theorem Core.same_updCpu (h : Core s)
    (hq : cpu.runq = (s.cpus c).runq) (hr : cpu.reap = none) : Same s (s.updCpu c cpu) := by
  refine ⟨h.updCpu ⟨by rw [hq], by rw [hq], by rw [hq]⟩ hr, ?_,
    fun _ _ => virtual_updCpu (by rw [hq]) (by rw [hq]), fun _ => rfl, fun _ => rfl⟩
  by_cases hc : c = 0
  · subst hc
    simp [Sched.queue, hq]
  · simp [Sched.queue, Ne.symm hc]

theorem Core.same_reapPending (h : Core s) (c : CpuId) : s.schedReapPending c = s := by
  unfold schedReapPending
  rw [h.calm c]

theorem Core.switchToScheduler (h : Core s) (t : ThreadId) :
    Same s (s.switchToScheduler 0 t) ∧ (s.switchToScheduler 0 t).current = none := by
  have hth : Same s (s.updThread t { s.threads t with saved := true }) :=
    h.same_updThread ⟨rfl, rfl, rfl, fun _ => rfl⟩ rfl rfl rfl
  have hcpu : Same s ((s.updThread t { s.threads t with saved := true }).updCpu 0
      { s.cpus 0 with current := none, prepared := false }) :=
    hth.trans (hth.toCore.same_updCpu rfl (h.calm 0))
  have heq : s.switchToScheduler 0 t = (s.updThread t { s.threads t with saved := true }).updCpu 0
      { s.cpus 0 with current := none, prepared := false } := hcpu.toCore.same_reapPending 0
  rw [heq]
  exact ⟨hcpu, by simp [current]⟩

/-- The tail of `thread_handoff` touches nothing but the nesting depth. -/
theorem Core.handoffTail (h : Core s) (c : CpuId) :
    Same s ((s.updCpu c { s.cpus c with
      handoffDepth := (s.cpus c).handoffDepth - 1 }).schedReapPending c) ∧
    ((s.updCpu c { s.cpus c with
      handoffDepth := (s.cpus c).handoffDepth - 1 }).schedReapPending c).current = s.current := by
  have hcpu : Same s (s.updCpu c { s.cpus c with handoffDepth := (s.cpus c).handoffDepth - 1 }) :=
    h.same_updCpu rfl (h.calm c)
  rw [hcpu.toCore.same_reapPending c]
  refine ⟨hcpu, ?_⟩
  unfold current
  exact updCpu_cases (fun hc => by rw [hc]) fun _ => rfl

theorem Core.switchToThread (h : Core s) (t : ThreadId) :
    Same s (s.switchToThread 0 t) ∧ (s.switchToThread 0 t).current = some t := by
  have hth : Same s (s.updThread t { s.threads t with saved := false, handoffOn := none }) :=
    h.same_updThread ⟨rfl, rfl, rfl, fun _ => rfl⟩ rfl rfl rfl
  have hcpu : Same s ((s.updThread t { s.threads t with saved := false, handoffOn := none }).updCpu 0
      { s.cpus 0 with current := some t, next := none, prepared := false }) :=
    hth.trans (hth.toCore.same_updCpu rfl (h.calm 0))
  unfold Sched.switchToThread
  simp only
  split
  · exact ⟨hcpu, by simp [current]⟩
  · rename_i c₀ _
    have htail := hcpu.toCore.handoffTail c₀
    exact ⟨hcpu.trans htail.1, htail.2.trans (by simp [current])⟩

/-! ## What an operation amounts to -/

/-- What becomes of the CPU: the same thread stays on it as it was, or is charged there; it is
left; or another thread takes it. -/
inductive Outcome (now : U64) (s : Sched) (running : Option (ThreadId × Bool))
    (popped popped' : List ThreadId) (s' : Sched) : Prop
  | stay (current : s'.current = s.current)
      (same : ∀ t, s.current = some t → (s'.threads t).state = (s.threads t).state ∧
        (s'.threads t).execStartTick = (s.threads t).execStartTick)
      (steps : VirtualTime.Steps (s.virtual running popped) (s'.virtual running popped'))
  | charged (t : ThreadId) (before : s.current = some t) (current : s'.current = some t)
      (late : (s.threads t).execStartTick < now) (state : (s'.threads t).state = .running)
      (execStartTick : (s'.threads t).execStartTick = now)
      (steps : VirtualTime.Steps (s.virtual running popped) (s'.virtual (some (t, true)) popped'))
  | left (current : s'.current = none)
      (steps : VirtualTime.Steps (s.virtual running popped) (s'.virtual none popped'))
  | dispatched (t : ThreadId) (before : s.current ≠ some t) (current : s'.current = some t)
      (state : (s'.threads t).state = .running) (execStartTick : (s'.threads t).execStartTick = now)
      (steps : VirtualTime.Steps (s.virtual running popped) (s'.virtual (some (t, false)) popped'))

/-- No thread that has just entered the queue is behind its minimum. -/
def EntersAbove (s s' : Sched) : Prop :=
  ∀ t ∈ s'.queue 0, t ∉ s.queue 0 → s'.minVruntime ≤ (s'.threads t).vruntime

structure Effect (now : U64) (s : Sched) (running : Option (ThreadId × Bool))
    (popped popped' : List ThreadId) (s' : Sched) : Prop extends Core s' where
  enters : EntersAbove s s'
  outcome : Outcome now s running popped popped' s'

variable {running : Option (ThreadId × Bool)} {popped : List ThreadId} {b : Bool}

theorem EntersAbove.of_queue (h : s'.queue 0 = s.queue 0) : EntersAbove s s' :=
  fun _ ht hn => absurd (h ▸ ht) hn

theorem Same.minVruntime (h : Same s s') : s'.minVruntime = s.minVruntime :=
  toNat_inj.mp (congrArg VirtualTime.min (h.virtual none []))

theorem Same.vruntime (h : Same s s') (t : ThreadId) :
    (s'.threads t).vruntime = (s.threads t).vruntime :=
  toNat_inj.mp (congrFun (congrArg VirtualTime.vruntime (h.virtual none [])) t)

theorem EntersAbove.of_entered (h : Entered s₁ t s₂)
    (hv : ∀ running popped, s'.virtual running popped = s₂.virtual running popped)
    (hq : s₁.queue 0 = s.queue 0) : EntersAbove s s' := by
  intro u hu hn
  have hset : {u | u ∈ s'.queue 0} = {u | u ∈ s₂.queue 0} := congrArg VirtualTime.queued (hv none [])
  have hmem : u ∈ s₂.queue 0 := (Set.ext_iff.mp hset u).mp hu
  rw [h.mem, hq] at hmem
  obtain rfl : u = t := hmem.resolve_right hn
  have hmin : s'.minVruntime.toNat = s₂.minVruntime.toNat := congrArg VirtualTime.min (hv none [])
  have hvrt : (s'.threads u).vruntime.toNat = (s₂.threads u).vruntime.toNat :=
    congrFun (congrArg VirtualTime.vruntime (hv none [])) u
  rw [le_def, hmin, hvrt, h.min]
  exact h.above

theorem Effect.refl (h : Core s) : Effect now s running popped popped s :=
  ⟨h, .of_queue rfl, .stay rfl (fun _ _ => ⟨rfl, rfl⟩) .refl⟩

theorem Core.requeue (h : Core s₁) (ht : t ∉ s₁.queue 0) (hq : s₁.queue 0 = s.queue 0)
    (hroom : max s₁.minVruntime.toNat (s₁.threads t).vruntime.toNat + maxSlice < 2 ^ 64)
    (hcharged : VirtualTime.Steps (s.virtual running popped) (s₁.virtual (some (t, true)) popped)) :
    Effect now s running popped popped (s₁.requeue 0 t now) := by
  have hent : Entered s₁ t (s₁.schedEnqueueOn 0 t now) := h.entered ht (fun hw => by cases hw) hroom
  obtain ⟨hsame, hcur⟩ := hent.toCore.switchToScheduler t
  refine ⟨hsame.toCore, .of_entered hent hsame.virtual hq, .left hcur ?_⟩
  have hsteps : VirtualTime.Steps (s.virtual running popped)
      ((s₁.schedEnqueueOn 0 t now).virtual none popped) :=
    (hcharged.tail (.leave rfl)).tail (hent.step popped ht (fun _ h => by cases h))
  rwa [← hsame.virtual none popped] at hsteps

theorem Charged.leave (h : Charged now s t s₁) (h₂ : Core s₂) (hq : s₂.queue 0 = s₁.queue 0)
    (hv : ∀ running popped, s₂.virtual running popped = s₁.virtual running popped) :
    Effect now s (some (t, b)) popped popped (s₂.switchToScheduler 0 t) := by
  obtain ⟨hsame, hcur⟩ := h₂.switchToScheduler t
  refine ⟨hsame.toCore, .of_queue (hsame.queue.trans (hq.trans h.queue)), .left hcur ?_⟩
  have hsteps : VirtualTime.Steps (s.virtual (some (t, b)) popped) (s₁.virtual none popped) :=
    (Relation.ReflTransGen.single (h.step b popped)).tail (.leave rfl)
  rwa [hsame.virtual, hv]

theorem Thread.virtualDeadline_le {a b : Thread} (h : a.sortKey ≤ b.sortKey) :
    a.virtualDeadline.toNat ≤ b.virtualDeadline.toNat := by
  simp only [Thread.sortKey, Prod.Lex.toLex_le_toLex] at h
  omega

theorem runqPop_minVruntime {threads runq runq'} (h : runqPop threads runq = some (t, runq')) :
    runq'.minVruntime = maxU64 (threads t).vruntime runq.minVruntime := by
  unfold runqPop at h
  split at h
  · cases h
  · cases h
    rfl

theorem Core.popFirst (h : Core s) {runq'} (popped : List ThreadId)
    (hp : runqPop s.threads (s.cpus 0).runq = some (t, runq')) :
    Core (s.setRunq 0 runq') ∧ VirtualTime.Step (s.virtual none popped)
      ((s.setRunq 0 runq').virtual (some (t, false)) (t :: popped)) := by
  obtain ⟨hok, hqueue, hnot⟩ := h.ok.pop hp
  have hq : s.queue 0 = t :: runq'.queue := hqueue
  refine ⟨⟨h.one, h.home, ?_, fun u hu => ?_, h.alive, fun c => ?_⟩, ?_⟩
  · show RunQueue.Ok s.key _
    simpa [setRunq] using hok
  · refine h.ready u ?_
    rw [hq]
    exact .tail _ hu
  · exact updCpu_cases (fun _ => h.calm 0) fun _ => h.calm c
  · have hsorted := h.ok.sorted
    rw [hqueue] at hsorted
    have hfirst : ∀ w ∈ (s.virtual none popped).queued,
        (s.virtual none popped).deadline t ≤ (s.virtual none popped).deadline w := by
      intro w hw
      have hw : w ∈ s.queue 0 := hw
      rw [hq] at hw
      rcases List.mem_cons.mp hw with rfl | hw
      · exact le_refl _
      · exact Thread.virtualDeadline_le (List.rel_of_pairwise_cons hsorted hw)
    have hmem : t ∈ s.queue 0 := by
      rw [hq]
      exact .head _
    have hstep := VirtualTime.Step.pop hmem hfirst rfl
    have hqueued : {u | u ∈ runq'.queue} = {u | u ∈ s.queue 0} \ {t} := by
      ext u
      simp only [hq, List.mem_cons, Set.mem_ofPred_eq, Set.mem_sdiff, Set.mem_singleton_iff]
      constructor
      · exact fun hu => ⟨.inr hu, fun he => hnot (he ▸ hu)⟩
      · exact fun hu => hu.1.resolve_left hu.2
    have hpops : (fun u => (t :: popped).count u) =
        update (fun u => popped.count u) t (popped.count t + 1) := by
      funext u
      by_cases hu : u = t
      · subst hu
        simp
      · simp [hu, Ne.symm hu]
    have heq : (s.setRunq 0 runq').virtual (some (t, false)) (t :: popped) =
        { s.virtual none popped with
          min := max ((s.virtual none popped).vruntime t) (s.virtual none popped).min
          queued := (s.virtual none popped).queued \ {t}
          current := some (t, false)
          pops := update (s.virtual none popped).pops t
            ((s.virtual none popped).pops t + 1) } := by
      simp only [virtual, minVruntime, setRunq, updCpu_cpus_self, updCpu_threads, queue,
        runqPop_minVruntime hp, toNat_maxU64, hpops]
      rw [hqueued]
      rfl
    rw [heq]
    exact hstep

/-- `t` runs from `now` on, and nothing has happened to the queue. -/
structure Taken (now : U64) (s : Sched) (t : ThreadId) (s' : Sched) : Prop extends Core s' where
  queue : s'.queue 0 = s.queue 0
  virtual : ∀ running popped, s'.virtual running popped = s.virtual running popped
  current : s'.current = some t
  state : (s'.threads t).state = .running
  execStartTick : (s'.threads t).execStartTick = now

theorem Core.taken (h : Core s) (ht : t ∉ s.queue 0)
    (hc : thread.cpuId = 0) (hs : thread.state = .running) (he : thread.execStartTick = now)
    (hv : thread.vruntime = (s.threads t).vruntime)
    (hd : thread.virtualDeadline = (s.threads t).virtualDeadline)
    (hq : cpu.runq = (s.cpus 0).runq) (hr : cpu.reap = none) :
    Taken now s t (((s.updThread t thread).updCpu 0 cpu).switchToThread 0 t) := by
  have hcpu : Same (s.updThread t thread) ((s.updThread t thread).updCpu 0 cpu) :=
    (h.updThread hc ht).same_updCpu hq hr
  obtain ⟨hsame, hcur⟩ := hcpu.toCore.switchToThread t
  have hall := hcpu.trans hsame
  refine ⟨hall.toCore, hall.queue, fun r p => ?_, hcur, ?_, ?_⟩
  · exact (hall.virtual r p).trans (virtual_updThread_alike hv hd)
  · rw [hall.state, updThread_threads_self, hs]
  · rw [hall.execStartTick, updThread_threads_self, he]

theorem Core.dispatch (h : Core s) (ht : t ∉ s.queue 0) (now : U64) :
    Taken now s t (s.schedRunSwitch 0 t now) := by
  unfold schedRunSwitch
  rw [h.not_killing t]
  exact h.taken ht (h.home t) rfl rfl rfl rfl rfl (h.calm 0)

/-- A round of `sched_run` takes the first thread of the queue. -/
theorem Core.schedRun (h : Core s) (hcur : s.current = none) (now : U64) :
    Effect now s none popped ((s.queue 0).head?.toList ++ popped) (s.schedRun 0 now) := by
  have hpull : s.schedIdlePull 0 = none := by
    unfold schedIdlePull
    rw [if_pos (by rw [h.one]; decide)]
  unfold Sched.schedRun schedRunPick
  cases hp : runqPop s.threads (s.cpus 0).runq with
  | none =>
    have hq : s.queue 0 = [] := by
      unfold runqPop at hp
      split at hp
      · assumption
      · cases hp
    simp only [hpull, hq]
    exact .refl h
  | some r =>
    obtain ⟨t, runq'⟩ := r
    obtain ⟨hs₁, hstep⟩ := h.popFirst popped hp
    obtain ⟨-, hqueue, hnot⟩ := h.ok.pop hp
    have hq : s.queue 0 = t :: runq'.queue := hqueue
    have hq₁ : (s.setRunq 0 runq').queue 0 = runq'.queue := by simp [queue, setRunq]
    have htaken := hs₁.dispatch (hq₁ ▸ hnot) now
    have hpopped : (s.queue 0).head?.toList ++ popped = t :: popped := by simp [hq]
    rw [hpopped]
    refine ⟨htaken.toCore, fun u hu hn => ?_, .dispatched t (by simp [hcur])
      htaken.current htaken.state htaken.execStartTick ?_⟩
    · rw [htaken.queue, hq₁] at hu
      exact absurd (hq ▸ List.mem_cons_of_mem t hu) hn
    · rw [htaken.virtual]
      exact .single hstep

/-! ## The operations -/

/-- The thread on the CPU is running and has started to. -/
def Busy (s : Sched) : Prop :=
  ∀ t, s.current = some t → (s.threads t).state = .running ∧ (s.threads t).execStartTick ≠ 0

theorem running_eq (hr : running.map fst = s.current) (hc : s.current = some t) :
    ∃ b, running = some (t, b) := by simpa [hc] using hr

theorem Core.current_not_queued (h : Core s) (hb : Busy s) (hc : s.current = some t) :
    t ∉ s.queue 0 :=
  h.not_queued (by simp [(hb t hc).1])

theorem Core.charged_min (h : Core s) (hb : Busy s) (hw : NoWrap now s) (hc : s.current = some t) :
    Charged now s t (s.schedAccountRuntime 0 true now) :=
  h.charged hc (hb t hc).1 (hb t hc).2 hw (.inl rfl)

theorem Core.threadYield (h : Core s) (hb : Busy s) (hw : NoWrap now s)
    (hr : running.map fst = s.current) :
    Effect now s running popped
      ((if s.current = none then (s.queue 0).head? else none).toList ++ popped)
      (s.threadYield 0 now) := by
  unfold Sched.threadYield
  cases hc : (s.cpus 0).current with
  | none =>
    have hcur : s.current = none := hc
    obtain rfl : running = none := by simpa [hcur] using hr
    simpa [hcur] using h.schedRun hcur now
  | some t =>
    have hcur : s.current = some t := hc
    obtain ⟨b, rfl⟩ := running_eq hr hcur
    simp only [h.not_killing t, hcur, Bool.false_eq_true, if_false]
    have hch := h.charged_min hb hw hcur
    exact hch.toCore.requeue (hch.queue ▸ h.current_not_queued hb hcur) hch.queue hch.room
      (.single (hch.step b popped))

theorem threadBlockPrepared_eq (hc : s.current = some t) :
    s.threadBlockPrepared 0 = s.switchToScheduler 0 t := by
  unfold current at hc
  unfold threadBlockPrepared
  rw [hc]

theorem Core.threadBlock (h : Core s) (hb : Busy s) (hw : NoWrap now s)
    (hr : running.map fst = s.current) :
    Effect now s running popped popped (s.threadBlock 0 now) := by
  unfold Sched.threadBlock threadPrepareBlock
  cases hc : (s.cpus 0).current with
  | none =>
    simp only [threadBlockPrepared, hc]
    exact .refl h
  | some t =>
    have hcur : s.current = some t := hc
    obtain ⟨b, rfl⟩ := running_eq hr hcur
    have hch := h.charged_min hb hw hcur
    simp only [h.not_killing t, Bool.false_eq_true, if_false]
    generalize s.schedAccountRuntime 0 true now = s₁ at hch
    have hq : t ∉ s₁.queue 0 := hch.queue ▸ h.current_not_queued hb hcur
    have hth : Core (s₁.updThread t { s₁.threads t with blockedSinceTick := now, state := .blocked }) :=
      hch.toCore.updThread (hch.home t) hq
    have hcpu : Same _ (Sched.updCpu _ 0 { s₁.cpus 0 with prepared := true }) :=
      hth.same_updCpu rfl (hch.calm 0)
    rw [threadBlockPrepared_eq (by simpa [current] using hch.current)]
    exact hch.leave hcpu.toCore hcpu.queue fun r p =>
      (hcpu.virtual r p).trans (virtual_updThread_alike rfl rfl)

theorem Core.threadSleepTicks (h : Core s) (hb : Busy s) (hw : NoWrap now s) {ticks}
    (hr : running.map fst = s.current) (hs : s.threadSleepTicks 0 ticks now = some s') :
    Effect now s running popped
      ((if ticks = 0 ∧ s.current = none then (s.queue 0).head? else none).toList ++ popped) s' := by
  unfold Sched.threadSleepTicks at hs
  split at hs
  · rename_i hz
    cases hs
    simpa [hz] using h.threadYield hb hw hr
  · rename_i hz
    simp only [hz, false_and, if_false]
    cases hc : (s.cpus 0).current with
    | none =>
      simp only [hc] at hs
      cases hs
      exact .refl h
    | some t =>
      have hcur : s.current = some t := hc
      obtain ⟨b, rfl⟩ := running_eq hr hcur
      simp only [hc, h.not_killing t, Bool.false_eq_true, if_false] at hs
      obtain ⟨s₂, hins, rfl⟩ := Option.map_eq_some_iff.mp hs
      have hch := h.charged_min hb hw hcur
      generalize s.schedAccountRuntime 0 true now = s₁ at hch hins
      have hq : t ∉ s₁.queue 0 := hch.queue ▸ h.current_not_queued hb hcur
      obtain ⟨link, -, rfl⟩ := Option.map_eq_some_iff.mp hins
      have hth : Core (s₁.updThread t { s₁.threads t with
          wakeTick := now + ticks, blockedSinceTick := now, state := .blocked, asleep := true }) :=
        hch.toCore.updThread (hch.home t) hq
      have hv : ∀ r p, Sched.virtual (s₁.updThread t { s₁.threads t with
          wakeTick := now + ticks, blockedSinceTick := now, state := .blocked, asleep := true }) r p =
            s₁.virtual r p := fun _ _ => virtual_updThread_alike rfl rfl
      exact hch.leave (hth.sleepList _) rfl hv

theorem Core.schedTick (h : Core s) (hb : Busy s) (hw : NoWrap now s)
    (hr : running.map fst = s.current)
    (hlate : ∀ t, running = some (t, false) → (s.cpus 0).quantumLeft ≤ 1 →
      (s.threads t).execStartTick < now) :
    Effect now s running popped popped (s.schedTick 0 now) := by
  unfold Sched.schedTick
  cases hc : (s.cpus 0).current with
  | none => exact .refl h
  | some t =>
    have hcur : s.current = some t := hc
    obtain ⟨b, rfl⟩ := running_eq hr hcur
    simp only
    split
    · exact .refl h
    split
    · exact .refl h
    have ⟨hrun, hexec⟩ := hb t hcur
    have hnq := h.current_not_queued hb hcur
    by_cases hlt : (s.threads t).execStartTick < now
    · have hch : Charged now s t (s.schedAccountRuntime 0 false now) :=
        h.charged hcur hrun hexec hw (.inr hlt)
      generalize s.schedAccountRuntime 0 false now = s₁ at hch
      have hcpu : ∀ q, Same s₁ (s₁.updCpu 0 { s₁.cpus 0 with quantumLeft := q }) := fun q =>
        hch.toCore.same_updCpu rfl (hch.calm 0)
      have hq : ∀ q, (s₁.updCpu 0 { s₁.cpus 0 with quantumLeft := q }).queue 0 = s.queue 0 :=
        fun q => (hcpu q).queue.trans hch.queue
      have hsteps : ∀ q, VirtualTime.Steps (s.virtual (some (t, b)) popped)
          ((s₁.updCpu 0 { s₁.cpus 0 with quantumLeft := q }).virtual (some (t, true)) popped) :=
        fun q => by
          exact .single (hch.step b popped)
      split
      · refine ⟨(hcpu _).toCore, .of_queue (hq _), .charged t hcur ?_ hlt ?_ ?_ (hsteps _)⟩
        · simpa [current] using hch.current
        · rw [(hcpu _).state, hch.state]
        · rw [(hcpu _).execStartTick, hch.execStartTick]
      · refine (hcpu _).toCore.requeue ((hq _).symm ▸ hnq) (hq _) ?_ (hsteps _)
        simpa [minVruntime] using hch.room
    · -- no time has passed since the last charge, so nothing is charged now
      rw [schedAccountRuntime_idle hcur hexec (BitVec.not_lt.mp hlt)]
      have hcpu : ∀ q, Same s (s.updCpu 0 { s.cpus 0 with quantumLeft := q }) := fun q =>
        h.same_updCpu rfl (h.calm 0)
      split
      · refine ⟨(hcpu _).toCore, .of_queue (hcpu _).queue, .stay (by simp [current])
          (fun u _ => ⟨(hcpu _).state u, (hcpu _).execStartTick u⟩) ?_⟩
        rw [(hcpu _).virtual]
      · rename_i hquantum
        have hb' : b = true := by
          cases b with
          | true => rfl
          | false => exact absurd (hlate t rfl (not_lt.mp hquantum)) hlt
        subst hb'
        refine (hcpu _).toCore.requeue ((hcpu _).queue.symm ▸ hnq) (hcpu _).queue ?_ ?_
        · have hm := hw.min
          have hv := hw.vruntime t
          simp only [minVruntime, maxCredit, maxSlice] at hm hv
          simp only [minVruntime, updCpu_cpus_self, updCpu_threads, maxSlice]
          omega
        · rw [(hcpu _).virtual]

/-- Some blocked threads have entered the queue; the others are as they were. -/
structure Woken (running : Option (ThreadId × Bool)) (popped : List ThreadId) (s s' : Sched) : Prop
    extends Core s' where
  current : s'.current = s.current
  min : s'.minVruntime = s.minVruntime
  steps : VirtualTime.Steps (s.virtual running popped) (s'.virtual running popped)
  enters : EntersAbove s s'
  others : ∀ u, (s.threads u).state ≠ .blocked → (s'.threads u).state = (s.threads u).state ∧
    (s'.threads u).execStartTick = (s.threads u).execStartTick ∧
    (s'.threads u).vruntime = (s.threads u).vruntime
  blocked : ∀ u, (s'.threads u).state = .blocked → (s.threads u).state = .blocked ∧
    (s'.threads u).vruntime = (s.threads u).vruntime

theorem Woken.of_same (h : Same s s') (hc : s'.current = s.current) :
    Woken running popped s s' := by
  refine ⟨h.toCore, hc, h.minVruntime, ?_, .of_queue h.queue,
    fun u _ => ⟨h.state u, h.execStartTick u, h.vruntime u⟩,
    fun u hu => ⟨h.state u ▸ hu, h.vruntime u⟩⟩
  rw [h.virtual]

theorem Woken.trans (h : Woken running popped s₁ s₂)
    (h' : Woken running popped s₂ s₃) : Woken running popped s₁ s₃ := by
  have hne : ∀ u, (s₁.threads u).state ≠ .blocked → (s₂.threads u).state ≠ .blocked :=
    fun u hu => by rwa [(h.others u hu).1]
  refine ⟨h'.toCore, h'.current.trans h.current, h'.min.trans h.min, h.steps.trans h'.steps,
    fun u hu hn => ?_, fun u hu => ?_, fun u hu => ?_⟩
  · by_cases hq : u ∈ s₂.queue 0
    · -- it came in before: nothing has changed for it since
      have hready := h.ready u hq
      have hkeep := (h'.others u (by simp [hready])).2.2
      rw [h'.min, hkeep]
      exact h.enters u hq hn
    · exact h'.enters u hu hq
  · have h₁ := h.others u hu
    have h₂ := h'.others u (hne u hu)
    exact ⟨h₂.1.trans h₁.1, h₂.2.1.trans h₁.2.1, h₂.2.2.trans h₁.2.2⟩
  · have h₂ := h'.blocked u hu
    have h₁ := h.blocked u h₂.1
    exact ⟨h₁.1, h₂.2.trans h₁.2⟩

theorem Woken.effect (h : Woken running popped s s') (hb : Busy s) :
    Effect now s running popped popped s' := by
  refine ⟨h.toCore, h.enters, .stay h.current (fun t ht => ?_) h.steps⟩
  have := h.others t (by simp [(hb t ht).1])
  exact ⟨this.1, this.2.1⟩

theorem Core.threadUnblock (h : Core s) (now : U64) (hb : Busy s)
    (hr : running.map fst = s.current) (hmin : s.minVruntime.toNat + maxCredit < 2 ^ 64)
    (hroom : (s.threads t).state = .blocked → (s.threads t).vruntime.toNat + maxSlice < 2 ^ 64) :
    Woken running popped s (s.threadUnblock t now) := by
  unfold Sched.threadUnblock
  split
  · exact .of_same (.refl h) rfl
  rename_i hblocked
  have hbl : (s.threads t).state = .blocked := not_not.mp hblocked
  have hq : t ∉ s.queue 0 := h.not_queued (by simp [hbl])
  rw [h.home t]
  have hent : Entered s t (s.schedEnqueueOnReason 0 t true now) := by
    refine h.entered hq (fun _ => hmin) ?_
    have := hroom hbl
    simp only [maxCredit] at hmin
    simp only [maxSlice] at this ⊢
    omega
  have hrun : ∀ b, running ≠ some (t, b) := by
    rintro b rfl
    have := (hb t hr.symm).1
    rw [hbl] at this
    cases this
  refine ⟨hent.toCore, hent.current, hent.min, .single (hent.step popped hq hrun),
    .of_entered hent (fun _ _ => rfl) rfl, fun u hu => ?_, fun u hu => ?_⟩
  · have hne : u ≠ t := by
      rintro rfl
      exact hu hbl
    rw [hent.thread_ne u hne]
    exact ⟨rfl, rfl, rfl⟩
  · have hne : u ≠ t := by
      rintro rfl
      rw [hent.state] at hu
      cases hu
    rw [hent.thread_ne u hne] at hu ⊢
    exact ⟨hu, rfl⟩

theorem Busy.woken (hb : Busy s) (h : Woken running popped s s') : Busy s' := by
  intro t ht
  have hold := hb t (h.current ▸ ht)
  have := h.others t (by simp [hold.1])
  rw [this.1, this.2.1]
  exact hold

theorem Core.wakeCollected {fuel ready} (h : Core s) (hb : Busy s)
    (hr : running.map fst = s.current) (hmin : s.minVruntime.toNat + maxCredit < 2 ^ 64)
    (hroom : ∀ t, (s.threads t).state = .blocked → (s.threads t).vruntime.toNat + maxSlice < 2 ^ 64)
    (hs : wakeCollected now fuel s ready = some s') : Woken running popped s s' := by
  induction fuel generalizing s ready with
  | zero =>
    cases ready with
    | none =>
      cases hs
      exact .of_same (.refl h) rfl
    | some t => cases hs
  | succ fuel ih =>
    cases ready with
    | none =>
      cases hs
      exact .of_same (.refl h) rfl
    | some t =>
      have hlist : Same s { s with sleepList := s.sleepList.setNext t none } :=
        ⟨h.sleepList _, rfl, fun _ _ => rfl, fun _ => rfl, fun _ => rfl⟩
      have htick : Same _ (Sched.updThread _ t { s.threads t with wakeTick := 0 }) :=
        hlist.toCore.same_updThread ⟨rfl, rfl, rfl, fun _ => rfl⟩ rfl rfl rfl
      have hsame := hlist.trans htick
      have h₁ : Woken running popped s _ := .of_same hsame rfl
      have h₂ := h₁.trans (h₁.toCore.threadUnblock now (hb.woken h₁) hr
        (h₁.min ▸ hmin) fun hbl => (h₁.blocked t hbl).2 ▸ hroom t (h₁.blocked t hbl).1)
      exact h₂.trans (ih h₂.toCore (hb.woken h₂) (hr.trans h₂.current.symm) (h₂.min ▸ hmin)
        (fun u hu => (h₂.blocked u hu).2 ▸ hroom u (h₂.blocked u hu).1) hs)

theorem Core.schedWakeSleepers {upTo} (h : Core s) (hb : Busy s)
    (hr : running.map fst = s.current) (hw : NoWrap now s)
    (hs : s.schedWakeSleepers upTo now = some s') : Woken running popped s s' := by
  unfold Sched.schedWakeSleepers at hs
  split at hs
  · cases hs
  rename_i sleepList ready _
  have hlist : Same s { s with sleepList } :=
    ⟨h.sleepList _, rfl, fun _ _ => rfl, fun _ => rfl, fun _ => rfl⟩
  have h₁ : Woken running popped s { s with sleepList } := .of_same hlist rfl
  exact h₁.trans (h₁.toCore.wakeCollected hb hr hw.min (fun t _ => hw.vruntime t) hs)

theorem Core.threadHandoff (h : Core s) (hb : Busy s) (hw : NoWrap now s)
    (hr : running.map fst = s.current) :
    Effect now s running popped popped (s.threadHandoff 0 t now) := by
  have hunblock : Effect now s running popped popped (s.threadUnblock t now) :=
    (h.threadUnblock now hb hr hw.min fun _ => hw.vruntime t).effect hb
  unfold Sched.threadHandoff
  split
  · exact .refl h
  rename_i hblocked
  have hbl : (s.threads t).state = .blocked := not_not.mp hblocked
  cases hc : (s.cpus 0).current with
  | none => exact hunblock
  | some prev =>
    have hcur : s.current = some prev := hc
    obtain ⟨b, rfl⟩ := running_eq hr hcur
    simp only [h.home t, ne_eq, not_true_eq_false, if_false, h.not_killing prev, Bool.false_eq_true]
    split
    · exact hunblock
    have htp : t ≠ prev := by
      rintro rfl
      have := (hb t hcur).1
      rw [hbl] at this
      cases this
    -- the caller is charged and enters the queue
    have hch := h.charged_min hb hw hcur
    generalize s.schedAccountRuntime 0 true now = s₁ at hch
    have hq₁ : prev ∉ s₁.queue 0 := hch.queue ▸ h.current_not_queued hb hcur
    have hent : Entered s₁ prev (s₁.schedEnqueueOn 0 prev now) :=
      hch.toCore.entered hq₁ (fun hw => by cases hw) hch.room
    generalize s₁.schedEnqueueOn 0 prev now = s₂ at hent
    have hprev : Same s₂ (s₂.updThread prev { s₂.threads prev with
        handoffOn := some 0, saved := true }) :=
      hent.toCore.same_updThread ⟨rfl, rfl, rfl, fun _ => rfl⟩ rfl rfl rfl
    generalize hs₃ : s₂.updThread prev { s₂.threads prev with
      handoffOn := some 0, saved := true } = s₃ at hprev
    -- the target takes the CPU
    have hbl₃ : (s₃.threads t).state = .blocked := by
      rw [hprev.state, hent.thread_ne t htp, hch.thread_ne t htp, hbl]
    have hq₃ : t ∉ s₃.queue 0 := hprev.toCore.not_queued (by simp [hbl₃])
    have htaken : Taken now s₃ t (((s₃.updThread t (schedNoteSwitch { s₃.threads t with
        state := .running, blockedSinceTick := 0, enqueueTick := 0, wakeReadyTick := now
        asleep := false } now)).updCpu 0 { s₃.cpus 0 with
          quantumLeft := schedQuantumTicks
          handoffDepth := (s₃.cpus 0).handoffDepth + 1 }).switchToThread 0 t) :=
      hprev.toCore.taken hq₃ (hprev.home t) rfl rfl rfl rfl rfl (hprev.calm 0)
    have hvirt : ∀ r p, Sched.virtual _ r p = s₂.virtual r p := fun r p =>
      (htaken.virtual r p).trans (hprev.virtual r p)
    refine ⟨htaken.toCore, .of_entered hent hvirt hch.queue, .dispatched t ?_ htaken.current
      htaken.state htaken.execStartTick ?_⟩
    · rw [hcur]
      exact fun h => htp (Option.some.inj h).symm
    · have hq₂ : t ∉ s₂.queue 0 := hprev.queue ▸ hq₃
      have hsteps : VirtualTime.Steps (s.virtual (some (prev, b)) popped)
          (s₂.virtual (some (t, false)) popped) :=
        (((Relation.ReflTransGen.single (hch.step b popped)).tail (.leave rfl)).tail
          (hent.step popped hq₁ fun _ h => by cases h)).tail (.handoff hq₂ rfl)
      rw [← hvirt] at hsteps
      exact hsteps

end Bunix.Kernel.Sched
