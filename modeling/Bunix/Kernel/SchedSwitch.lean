import Bunix.Kernel.SchedOps
import Bunix.Lib.Transition

/-! # Switching on several CPUs

The scheduler at the grain at which CPUs interleave: blocking in its two halves, a thread
taken for dispatch and the switch to it, waking, and handoff. Between `thread_prepare_block`
and `thread_block_prepared` a thread is published as blocked although it still runs and its
context is not saved; `prepared` marks the CPU it runs on.

A thread woken inside that window is on the queue of its CPU, and that CPU will not take it
before it has left. `sched_idle_pull` on another CPU has no such reason not to take it.
-/
namespace Bunix.Kernel.Sched

open Bunix.Lib

/-- The first half of a round of `sched_run`: the thread taken is in the local variable. -/
def schedRunTake (s : Sched) (c : CpuId) : Sched :=
  match s.schedRunPick c with
  | none => s
  | some (t, s) => s.updCpu c { s.cpus c with next := some t }

inductive SwitchOp where
  | create (k : TaskId) (alloc : Bool)
  | createOnCpu (k : TaskId) (c : CpuId) (alloc : Bool)
  | prepareBlock (c : CpuId)
  | blockPrepared (c : CpuId)
  | unblock (t : ThreadId)
  | handoff (c : CpuId) (t : ThreadId)
  | take (c : CpuId)
  | switch (c : CpuId)

/-- One step at tick `now`; `none` when the CPU is not at that point of its code. -/
def SwitchOp.step (now : U64) (s : Sched) : SwitchOp → Option Sched
  | .create k alloc => some (s.threadCreate k alloc now)
  | .createOnCpu k c alloc => some (s.threadCreateOnCpu k c alloc now)
  | .prepareBlock c =>
    if c < s.cpuCount ∧ (s.cpus c).prepared = false then some (s.threadPrepareBlock c now) else none
  | .blockPrepared c =>
    if c < s.cpuCount ∧ (s.cpus c).prepared = true then some (s.threadBlockPrepared c) else none
  | .unblock t => some (s.threadUnblock t now)
  | .handoff c t => if c < s.cpuCount then some (s.threadHandoff c t now) else none
  | .take c =>
    if c < s.cpuCount ∧ (s.cpus c).current = none ∧ (s.cpus c).next = none then
      some (s.schedRunTake c)
    else none
  | .switch c =>
    match (s.cpus c).next with
    | none => none
    | some t => if c < s.cpuCount then some (s.schedRunSwitch c t now) else none

/-- No thread is the current one of two CPUs. -/
def RunsOnce (s : Sched) : Prop :=
  ∀ c < s.cpuCount, ∀ c' < s.cpuCount, ∀ t, (s.cpus c).current = some t →
    (s.cpus c').current = some t → c = c'

/-- Between `s` and `s'` no CPU has switched to a thread whose context was not saved. -/
def SwitchesSaved (s s' : Sched) : Prop :=
  ∀ c < s.cpuCount, ∀ t, (s'.cpus c).current = some t →
    (s.cpus c).current = some t ∨ (s.threads t).saved = true

/-- What the switching discipline asks of a step: a CPU that is out of work may not find, on
another CPU's queue, a thread that this CPU has not left yet; and no interrupt handler calls
`thread_handoff` on a CPU inside its block window. -/
def SwitchOp.Careful (s : Sched) : SwitchOp → Prop
  | .take c => s.queue c = [] → ∀ src < s.cpuCount, src ≠ c → ∀ t ∈ s.queue src,
      (s.threads t).pullable c = true → (s.cpus src).current ≠ some t
  | .handoff c _ => (s.cpus c).prepared = false
  | _ => True

variable {s s' : Sched} {c c' : CpuId} {t u prev : ThreadId} {k : TaskId} {now : U64}
  {held : Set ThreadId} {skip : Option CpuId}

/-! ## The invariant -/

/-- The current thread of CPU `c` is running, or inside its block window. -/
structure OnCpu (prepared : Bool) (c : CpuId) (thread : Thread) : Prop where
  cpuId : thread.cpuId = c
  unsaved : thread.saved = false
  running : prepared = false → thread.state = .running
  window : prepared = true → thread.state = .blocked ∨ thread.state = .ready

/-- The switching invariant, but for the CPU `skip` that is about to be switched. The threads
`held` have been taken for dispatch. -/
structure SwitchInv (s : Sched) (held : Set ThreadId) (skip : Option CpuId) : Prop where
  queues : QueueInv s held
  placed : PlacedInv s
  current : ∀ c < s.cpuCount, some c ≠ skip → ∀ t, (s.cpus c).current = some t →
    OnCpu (s.cpus c).prepared c (s.threads t)
  suspended : ∀ t, (s.threads t).state = .ready ∨ (s.threads t).state = .blocked →
    (s.threads t).saved = true ∨ ∃ c < s.cpuCount, (s.cpus c).current = some t ∧
      (some c = skip ∨ (s.cpus c).prepared = true)
  taken : ∀ t ∈ held, (s.threads t).state = .ready ∧ (s.threads t).saved = true
  next : ∀ c < s.cpuCount, some c ≠ skip → ∀ t, (s.cpus c).next = some t →
    t ∈ held ∧ (s.threads t).cpuId = c ∧ (s.cpus c).current = none
  mask : ∀ t, (s.threads t).state ≠ .empty → (s.threads t).state ≠ .dead →
    (s.threads t).affinityMask.getLsbD (s.threads t).cpuId = true

theorem SwitchInv.leave (h : SwitchInv s held none) (c : CpuId) : SwitchInv s held (some c) := by
  refine ⟨h.queues, h.placed, fun c' hc' _ => h.current c' hc' (by simp), fun t ht => ?_, h.taken,
    fun c' hc' _ => h.next c' hc' (by simp), h.mask⟩
  rcases h.suspended t ht with hs | ⟨c', hc', hcur, hw⟩
  · exact .inl hs
  · exact .inr ⟨c', hc', hcur, .inr (hw.resolve_left (by simp))⟩

theorem SwitchInv.quiet (h : SwitchInv s held skip) (hq : Quiet s s') : SwitchInv s' held skip := by
  refine ⟨h.queues.still hq.toStill, h.placed.still hq.toStill, fun c hc hs t ht => ?_,
    fun t ht => ?_, fun t ht => ?_, fun c hc hs t ht => ?_, fun t he hd => ?_⟩
  · rw [(hq.cpu c).current] at ht
    rw [hq.cpuCount] at hc
    have hon := h.current c hc hs t ht
    have hnd : (s.threads t).state ≠ .dead := by
      intro hd
      cases hp : (s.cpus c).prepared with
      | false => simp [hon.running hp] at hd
      | true => rcases hon.window hp with hw | hw <;> simp [hw] at hd
    have ha := hq.alike hnd
    rw [hq.prepared]
    exact ⟨ha.cpuId.trans hon.cpuId, (hq.saved t hnd).trans hon.unsaved,
      fun hp => ha.state.trans (hon.running hp), fun hp => by rw [ha.state]; exact hon.window hp⟩
  · have ha := hq.alike_of_used (t := t) (by rcases ht with ht | ht <;> simp [ht])
    rw [ha.state] at ht
    have hnd : (s.threads t).state ≠ .dead := by rcases ht with ht | ht <;> simp [ht]
    rw [hq.saved t hnd, hq.cpuCount]
    rcases h.suspended t ht with hs | ⟨c, hc, hcur, hw⟩
    · exact .inl hs
    · exact .inr ⟨c, hc, by rw [(hq.cpu c).current, hcur], by rw [hq.prepared]; exact hw⟩
  · obtain ⟨hr, hs⟩ := h.taken t ht
    have hnd : (s.threads t).state ≠ .dead := by simp [hr]
    exact ⟨(hq.alike hnd).state.trans hr, (hq.saved t hnd).trans hs⟩
  · rw [hq.next] at ht
    rw [hq.cpuCount] at hc
    obtain ⟨hm, hcpu, hnone⟩ := h.next c hc hs t ht
    have hnd : (s.threads t).state ≠ .dead := by simp [(h.taken t hm).1]
    exact ⟨hm, (hq.alike hnd).cpuId.trans hcpu, (hq.cpu c).current.trans hnone⟩
  · have ha := hq.alike_of_used he
    rw [ha.state] at he hd
    rw [hq.mask t hd, ha.cpuId]
    exact h.mask t he hd

/-- The record `thread` of `t` fits what the CPUs do with it. -/
structure Fits (s : Sched) (skip : Option CpuId) (t : ThreadId) (thread : Thread) : Prop where
  current : ∀ c < s.cpuCount, some c ≠ skip → (s.cpus c).current = some t →
    OnCpu (s.cpus c).prepared c thread
  suspended : thread.state = .ready ∨ thread.state = .blocked →
    thread.saved = true ∨ ∃ c < s.cpuCount, (s.cpus c).current = some t ∧
      (some c = skip ∨ (s.cpus c).prepared = true)
  mask : thread.state ≠ .empty → thread.state ≠ .dead → thread.affinityMask.getLsbD thread.cpuId = true

theorem SwitchInv.touches (h : SwitchInv s held skip) (ht : Touches s t s')
    (hq : QueueInv s' (held \ {t})) (hp : PlacedInv s') (hfits : Fits s skip t (s'.threads t))
    (hnext : ∀ c < s.cpuCount, some c ≠ skip → (s.cpus c).next ≠ some t) :
    SwitchInv s' (held \ {t}) skip := by
  refine ⟨hq, hp, fun c hc hs u hu => ?_, fun u hu => ?_, fun u hu => ?_, fun c hc hs u hu => ?_,
    fun u he hd => ?_⟩
  · rw [ht.cpuCount] at hc
    rw [ht.current] at hu
    rw [ht.prepared]
    by_cases hut : u = t
    · subst hut
      exact hfits.current c hc hs hu
    · rw [ht.thread_ne u hut]
      exact h.current c hc hs u hu
  · simp only [ht.cpuCount, ht.current, ht.prepared]
    by_cases hut : u = t
    · subst hut
      exact hfits.suspended hu
    · rw [ht.thread_ne u hut] at hu ⊢
      exact h.suspended u hu
  · rw [ht.thread_ne u hu.2]
    exact h.taken u hu.1
  · rw [ht.cpuCount] at hc
    rw [ht.next] at hu
    have hut : u ≠ t := by
      intro he
      exact hnext c hc hs (he ▸ hu)
    rw [ht.thread_ne u hut, ht.current]
    obtain ⟨hm, hrest⟩ := h.next c hc hs u hu
    exact ⟨⟨hm, hut⟩, hrest⟩
  · by_cases hut : u = t
    · subst hut
      exact hfits.mask he hd
    · rw [ht.thread_ne u hut] at he hd ⊢
      exact h.mask u he hd

theorem SwitchInv.updCpu (h : SwitchInv s held (some c)) {cpu} (hr : cpu.runq = (s.cpus c).runq)
    (hcur : ∀ t, cpu.current = some t → OnCpu cpu.prepared c (s.threads t))
    (hleft : ∀ t, (s.cpus c).current = some t →
      (s.threads t).state = .ready ∨ (s.threads t).state = .blocked →
      (s.threads t).saved = true ∨ cpu.current = some t ∧ cpu.prepared = true)
    (hnext : ∀ t, cpu.next = some t → t ∈ held ∧ (s.threads t).cpuId = c ∧ cpu.current = none) :
    SwitchInv (s.updCpu c cpu) held none := by
  refine ⟨h.queues.updCpu hr, ⟨h.placed.cpuCount_pos, h.placed.blocked, h.placed.fresh⟩,
    fun c' hc' _ t ht => ?_, fun t ht => ?_, h.taken, fun c' hc' _ t ht => ?_, h.mask⟩
  · refine updCpu_cases (fun hcc ht => hcc ▸ hcur t ht) (fun hcc ht => ?_) ht
    exact h.current c' hc' (fun he => hcc (Option.some.inj he)) t ht
  · rcases h.suspended t ht with hs | ⟨c', hc', hc't, hw⟩
    · exact .inl hs
    · by_cases hcc : c' = c
      · subst hcc
        rcases hleft t hc't ht with hs | hnew
        · exact .inl hs
        · refine .inr ⟨c', hc', ?_⟩
          rw [updCpu_cpus_self]
          exact ⟨hnew.1, .inr hnew.2⟩
      · refine .inr ⟨c', hc', ?_⟩
        rw [updCpu_cpus_ne _ hcc]
        exact ⟨hc't, .inr (hw.resolve_left fun he => hcc (Option.some.inj he))⟩
  · refine updCpu_cases (fun hcc ht => hcc ▸ hnext t ht) (fun hcc ht => ?_) ht
    exact h.next c' hc' (fun he => hcc (Option.some.inj he)) t ht

/-! ## Leaving a CPU -/

theorem SwitchInv.not_taken (h : SwitchInv s held skip) (ht : (s.threads t).state ≠ .ready) :
    t ∉ held := fun hm => ht (h.taken t hm).1

theorem SwitchInv.onCpu (h : SwitchInv s held none) (hc : c < s.cpuCount)
    (hcur : (s.cpus c).current = some t) : OnCpu (s.cpus c).prepared c (s.threads t) ∧
      Off s (some c) t ∧ t ∉ held ∧ (s.cpus c).next = none := by
  have hon := h.current c hc (by simp) t hcur
  refine ⟨hon, fun c' hc' hs hcur' => ?_, fun hm => ?_, ?_⟩
  · have hon' := h.current c' hc' (by simp) t hcur'
    exact hs (congrArg some (hon'.cpuId.symm.trans hon.cpuId))
  · have hsaved := hon.unsaved
    rw [(h.taken t hm).2] at hsaved
    cases hsaved
  · cases hn : (s.cpus c).next with
    | none => rfl
    | some u =>
      have hnone := (h.next c hc (by simp) u hn).2.2
      rw [hcur] at hnone
      cases hnone

theorem SwitchInv.touches_free (h : SwitchInv s held skip) (ht : Touches s t s') (hnt : t ∉ held)
    (hq : QueueInv s' held) (hp : PlacedInv s') (hfits : Fits s skip t (s'.threads t)) :
    SwitchInv s' held skip := by
  have hself : held \ {t} = held := Set.sdiff_singleton_eq_self hnt
  have h' := h.touches ht (by rwa [hself]) hp hfits fun c hc hs hn => hnt (h.next c hc hs t hn).1
  rwa [hself] at h'

theorem SwitchInv.setSaved {thread} (h : SwitchInv s held skip) (hoff : Off s skip t) (hnt : t ∉ held)
    (ha : ThreadAlike (s.threads t) thread) (hm : thread.affinityMask = (s.threads t).affinityMask)
    (hs : thread.state = .ready ∨ thread.state = .blocked → thread.saved = true) :
    SwitchInv (s.updThread t thread) held skip := by
  have hq := Still.updThread s t ha
  refine h.touches_free (.updThread _) hnt (h.queues.still hq) (h.placed.still hq)
    ⟨fun c' hc' hk hcur' => absurd hcur' (hoff c' hc' hk), fun hst => .inl ?_, ?_⟩
  · rw [updThread_threads_self] at hst ⊢
    exact hs hst
  · rw [updThread_threads_self, hm, ha.state, ha.cpuId]
    exact h.mask t

theorem SwitchInv.switchToScheduler (h : SwitchInv s held (some c))
    (hcur : (s.cpus c).current = some t) (hoff : Off s (some c) t) (hnt : t ∉ held)
    (hn : (s.cpus c).next = none) : SwitchInv (s.switchToScheduler c t) held none := by
  have h₁ : SwitchInv (s.updThread t { s.threads t with saved := true }) held (some c) :=
    h.setSaved hoff hnt ⟨rfl, rfl, rfl, fun _ => rfl⟩ rfl fun _ => rfl
  refine SwitchInv.quiet ?_ (schedReapPending_quiet _ _)
  refine h₁.updCpu rfl (fun _ hcur' => by cases hcur') (fun u hu _ => ?_) (fun u hu => ?_)
  · rw [updThread_cpus, hcur] at hu
    cases hu
    exact .inl (by simp)
  · simp [hn] at hu

theorem SwitchInv.setCurrent (h : SwitchInv s held none) (hc : c < s.cpuCount)
    (hcur : (s.cpus c).current = some t) (hp : (s.cpus c).prepared = false) (thread : Thread)
    (hready : thread.state ≠ .ready) (hcpu : thread.cpuId = (s.threads t).cpuId)
    (hmask : thread.affinityMask = (s.threads t).affinityMask) :
    SwitchInv (s.updThread t thread) held (some c) := by
  obtain ⟨hon, hoff, hnt, _⟩ := h.onCpu hc hcur
  have hrun := hon.running hp
  refine (h.leave c).touches_free (.updThread thread) hnt (h.queues.updThread thread (by simp [hrun])
    hready) (h.placed.touches (.updThread thread) (h.placed.lt (by simp [hrun])) fun _ => ?_)
    ⟨fun c' hc' hs hcur' => absurd hcur' (hoff c' hc' hs), fun _ => .inr ⟨c, hc, hcur, .inl rfl⟩,
      fun _ _ => ?_⟩
  · rw [updThread_threads_self, hcpu, hon.cpuId]
    exact hc
  · rw [updThread_threads_self, hcpu, hmask]
    exact h.mask t (by simp [hrun]) (by simp [hrun])

theorem SwitchInv.account (h : SwitchInv s held skip) (c : CpuId) (b : Bool) (now : U64) :
    SwitchInv (s.schedAccountRuntime c b now) held skip :=
  h.quiet (schedAccountRuntime_quiet s c b now)

@[simp] theorem schedAccountRuntime_prepared (s : Sched) (c c' : CpuId) (b : Bool) (now : U64) :
    ((s.schedAccountRuntime c b now).cpus c').prepared = (s.cpus c').prepared :=
  (schedAccountRuntime_quiet s c b now).prepared c'

theorem SwitchInv.threadExit (h : SwitchInv s held none) (hc : c < s.cpuCount)
    (hcur : (s.cpus c).current = some t) (hp : (s.cpus c).prepared = false) :
    SwitchInv (s.threadExit c t now) held none := by
  have h₁ := h.account c true now
  have hcur₁ : ((s.schedAccountRuntime c true now).cpus c).current = some t := by simpa
  have hc₁ : c < (s.schedAccountRuntime c true now).cpuCount := by simpa
  obtain ⟨_, hoff, hnt, hn⟩ := h₁.onCpu hc₁ hcur₁
  have hl := h₁.setCurrent hc₁ hcur₁ (by simpa)
    { (s.schedAccountRuntime c true now).threads t with state := .dead } (by simp) rfl rfl
  refine (hl.quiet (.updCpu ?_ ?_ ?_)).switchToScheduler ?_ ?_ hnt ?_
  · exact ⟨rfl, rfl, rfl, rfl⟩
  · rfl
  · rfl
  · simpa using hcur
  · exact hoff.updCpu
  · simpa using hn

theorem SwitchInv.threadPrepareBlock (h : SwitchInv s held none) (hc : c < s.cpuCount)
    (hp : (s.cpus c).prepared = false) : SwitchInv (s.threadPrepareBlock c now) held none := by
  unfold Sched.threadPrepareBlock
  split
  · exact h
  rename_i t hcur
  split
  · exact h.threadExit hc hcur hp
  have h₁ := h.account c true now
  have hcur₁ : ((s.schedAccountRuntime c true now).cpus c).current = some t := by simpa
  have hc₁ : c < (s.schedAccountRuntime c true now).cpuCount := by simpa
  obtain ⟨hon, _, _, hn⟩ := h₁.onCpu hc₁ hcur₁
  have hl := h₁.setCurrent hc₁ hcur₁ (by simpa)
    { (s.schedAccountRuntime c true now).threads t with
      blockedSinceTick := now, state := .blocked } (by simp) rfl rfl
  refine hl.updCpu rfl (fun u hu => ?_) (fun u hu _ => .inr ⟨hu, rfl⟩) (fun u hu => ?_)
  · rw [show u = t by simpa [hcur] using hu.symm]
    rw [updThread_threads_self]
    exact ⟨hon.cpuId, hon.unsaved, fun he => by simp at he, fun _ => .inl rfl⟩
  · simp [hn] at hu

theorem SwitchInv.threadBlockPrepared (h : SwitchInv s held none) (hc : c < s.cpuCount) :
    SwitchInv (s.threadBlockPrepared c) held none := by
  unfold Sched.threadBlockPrepared
  split
  · exact h
  · rename_i t hcur
    obtain ⟨_, hoff, hnt, hn⟩ := h.onCpu hc hcur
    exact (h.leave c).switchToScheduler hcur hoff hnt hn

/-! ## Waking -/

theorem SwitchInv.enqueued (h : SwitchInv s held skip) (he : Enqueued s t (s.threads t).cpuId s')
    (hready : (s.threads t).state ≠ .ready) (hempty : (s.threads t).state ≠ .empty)
    (hdead : (s.threads t).state ≠ .dead)
    (hcur : ∀ c < s.cpuCount, some c ≠ skip → (s.cpus c).current = some t → (s.cpus c).prepared = true)
    (hsusp : (s.threads t).saved = true ∨ ∃ c < s.cpuCount, (s.cpus c).current = some t ∧
      (some c = skip ∨ (s.cpus c).prepared = true)) : SwitchInv s' held skip := by
  have hnt := h.not_taken hready
  have hp : PlacedInv s' := h.placed.touches he.touches (h.placed.lt hempty) fun hb => by
    rw [he.state] at hb
    cases hb
  refine h.touches_free he.touches hnt ((h.queues.hold hready).enqueued hnt he) hp
    ⟨fun c hc hs hct => ?_, fun _ => ?_, fun _ _ => ?_⟩
  · have hon := h.current c hc hs t hct
    have hw := hcur c hc hs hct
    exact ⟨he.cpuId.trans hon.cpuId, he.saved.trans hon.unsaved, fun hf => by simp [hw] at hf,
      fun _ => .inr he.state⟩
  · rw [he.saved]
    exact hsusp
  · rw [he.affinityMask, he.cpuId]
    exact h.mask t hempty hdead

theorem SwitchInv.threadUnblock (h : SwitchInv s held none) (t : ThreadId) :
    SwitchInv (s.threadUnblock t now) held none := by
  unfold Sched.threadUnblock
  split
  · exact h
  rename_i hb
  have hb : (s.threads t).state = .blocked := not_not.mp hb
  obtain ⟨c', he, hmask, _⟩ := schedEnqueueOnReason_spec (h.placed.blocked t hb) t true now
  obtain rfl := hmask (h.mask t (by simp [hb]) (by simp [hb]))
  refine h.enqueued he (by simp [hb]) (by simp [hb]) (by simp [hb]) (fun c hc hs hct => ?_)
    (h.suspended t (.inr hb))
  -- a blocked thread that is current is inside its window
  cases hp : (s.cpus c).prepared with
  | true => rfl
  | false =>
    have hrun := (h.current c hc hs t hct).running hp
    rw [hb] at hrun
    cases hrun

/-! ## Switching to a thread -/

theorem SwitchInv.switchToThread (h : SwitchInv s held (some c)) (hoff : Off s (some c) t)
    (hnt : t ∉ held) (hrun : (s.threads t).state = .running) (hcpu : (s.threads t).cpuId = c)
    (hleft : ∀ u, (s.cpus c).current = some u → u ≠ t → (s.threads u).saved = true) :
    SwitchInv (s.switchToThread c t) held none := by
  unfold Sched.switchToThread
  have h₁ : SwitchInv (s.updThread t { s.threads t with saved := false, handoffOn := none }) held (some c) :=
    h.setSaved hoff hnt ⟨rfl, rfl, rfl, fun _ => rfl⟩ rfl fun hs => by simp [hrun] at hs
  have h₂ : SwitchInv ((s.updThread t { s.threads t with saved := false, handoffOn := none }).updCpu c
      { s.cpus c with current := some t, next := none, prepared := false }) held none := by
    refine h₁.updCpu rfl (fun u hu => ?_) (fun u hu hs => ?_) (fun u hu => by cases hu)
    · cases hu
      rw [updThread_threads_self]
      exact ⟨hcpu, rfl, fun _ => hrun, fun hf => by cases hf⟩
    · exact updThread_cases (fun _ hs => by simp [hrun] at hs) (fun hut _ => .inl (hleft u hu hut)) hs
  cases (s.threads t).handoffOn with
  | none => exact h₂
  | some c₀ =>
    refine SwitchInv.quiet ?_ (schedReapPending_quiet _ _)
    refine h₂.quiet (.updCpu ?_ ?_ ?_)
    · exact ⟨rfl, rfl, rfl, rfl⟩
    · rfl
    · rfl

theorem SwitchInv.taken_off (h : SwitchInv s held skip) (ht : t ∈ held) : Off s skip t := by
  intro c hc hs hcur
  have hun := (h.current c hc hs t hcur).unsaved
  rw [(h.taken t ht).2] at hun
  cases hun

/-- The thread `c` has taken goes to a new state. -/
theorem SwitchInv.setTaken (h : SwitchInv s held none) (hc : c < s.cpuCount)
    (hn : (s.cpus c).next = some t) (thread : Thread) (hr : thread.state ≠ .ready)
    (hb : thread.state ≠ .blocked) (hcpu : thread.cpuId = (s.threads t).cpuId)
    (hm : thread.affinityMask = (s.threads t).affinityMask) :
    SwitchInv (s.updThread t thread) (held \ {t}) (some c) := by
  obtain ⟨ht, hon, _⟩ := h.next c hc (by simp) t hn
  have hready := (h.taken t ht).1
  have hq := h.queues.updThread_held ht thread
  refine (h.leave c).touches (.updThread thread) (hq.mono Set.sdiff_subset fun u hu hnu => ?_)
    (h.placed.touches (.updThread thread) (h.placed.lt (by simp [hready])) fun hbl => ?_)
    ⟨fun c' hc' hs hcur' => absurd hcur' ((h.leave c).taken_off ht c' hc' hs), fun hst => ?_,
      fun _ _ => ?_⟩ fun c' hc' hs hn' => ?_
  · have hut : u = t := by
      by_contra hne
      exact hnu ⟨hu, hne⟩
    rw [hut, updThread_threads_self]
    exact hr
  · rw [updThread_threads_self] at hbl
    exact absurd hbl hb
  · rw [updThread_threads_self] at hst
    exact hst.elim (absurd · hr) (absurd · hb)
  · rw [updThread_threads_self, hcpu, hm]
    exact h.mask t (by simp [hready]) (by simp [hready])
  · have hon' := (h.next c' hc' (by simp) t hn').2.1
    exact hs (congrArg some (hon'.symm.trans hon))

theorem SwitchInv.schedRunSwitch (h : SwitchInv s held none) (hc : c < s.cpuCount)
    (hn : (s.cpus c).next = some t) :
    SwitchInv (s.schedRunSwitch c t now) (held \ {t}) none := by
  obtain ⟨ht, hon, hnone⟩ := h.next c hc (by simp) t hn
  unfold Sched.schedRunSwitch
  split
  · have h₁ := h.setTaken hc hn { s.threads t with state := .dead } (by simp) (by simp) rfl rfl
    refine SwitchInv.quiet ?_ (schedReapThread_quiet _ _)
    refine h₁.updCpu rfl (fun u hu => ?_) (fun u hu => ?_) (fun u hu => by cases hu)
    · simp [hnone] at hu
    · simp [hnone] at hu
  · have h₁ := h.setTaken hc hn (schedNoteSwitch { s.threads t with state := .running } now)
      (by simp [schedNoteSwitch]) (by simp [schedNoteSwitch]) rfl rfl
    have hoff := (h.leave c).taken_off ht
    refine (h₁.quiet (.updCpu ?_ ?_ ?_)).switchToThread ?_ (by simp) ?_ ?_ ?_
    · exact ⟨rfl, rfl, rfl, rfl⟩
    · rfl
    · rfl
    · exact Off.updCpu hoff
    · simp [schedNoteSwitch]
    · simpa [schedNoteSwitch] using hon
    · intro u hu
      simp [hnone] at hu

end Bunix.Kernel.Sched
