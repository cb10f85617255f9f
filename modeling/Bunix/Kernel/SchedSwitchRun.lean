import Bunix.Kernel.SchedSwitch
import Bunix.Kernel.SchedRun

/-! # No thread runs on two CPUs

The remaining steps of the switching model, and its runs.
-/
namespace Bunix.Kernel.Sched

open Bunix.Lib

variable {s s' : Sched} {c c' src : CpuId} {t u prev : ThreadId} {k : TaskId} {now : U64}
  {held : Set ThreadId} {skip : Option CpuId} {runq : RunQueue} {thread : Thread}

/-! ## Taking a thread -/

@[simp] theorem setRunq_next : ((s.setRunq src runq).cpus c).next = (s.cpus c).next := by
  by_cases hc : c = src
  · simp [setRunq, hc]
  · simp [setRunq, updCpu_cpus_ne _ hc]

@[simp] theorem setRunq_prepared : ((s.setRunq src runq).cpus c).prepared = (s.cpus c).prepared := by
  by_cases hc : c = src
  · simp [setRunq, hc]
  · simp [setRunq, updCpu_cpus_ne _ hc]

theorem SwitchInv.dequeue (h : SwitchInv s held skip) (hd : Dequeued s t src runq)
    (hs : (s.threads t).saved = true) : SwitchInv (s.setRunq src runq) (insert t held) skip := by
  refine ⟨h.queues.dequeue hd, ⟨h.placed.cpuCount_pos, h.placed.blocked, h.placed.fresh⟩,
    fun c hc hk u hu => ?_, fun u hu => ?_, fun u hu => ?_, fun c hc hk u hu => ?_, h.mask⟩
  · rw [setRunq_current] at hu
    rw [setRunq_prepared]
    exact h.current c hc hk u hu
  · simp only [setRunq_current, setRunq_prepared]
    exact h.suspended u hu
  · rcases hu with rfl | hu
    · exact ⟨(h.queues.queued src hd.lt u hd.mem).2.1, hs⟩
    · exact h.taken u hu
  · rw [setRunq_next] at hu
    rw [setRunq_current]
    obtain ⟨hm, hrest⟩ := h.next c hc hk u hu
    exact ⟨.inr hm, hrest⟩

theorem SwitchInv.place (h : SwitchInv s held skip) (ht : t ∈ held) (hstate : thread.state = .ready)
    (hsaved : thread.saved = true) (hmask : thread.affinityMask.getLsbD thread.cpuId = true)
    (hnext : ∀ c < s.cpuCount, some c ≠ skip → (s.cpus c).next ≠ some t) :
    SwitchInv (s.updThread t thread) held skip := by
  have hoff := h.taken_off ht
  have hlt : t < s.nextThread := h.placed.lt (by simp [(h.taken t ht).1])
  refine ⟨h.queues.updThread_held ht thread, h.placed.touches (.updThread thread) hlt fun hb => ?_,
    fun c hc hk u hu => ?_, fun u hu => ?_, fun u hu => ?_, fun c hc hk u hu => ?_, fun u he hd => ?_⟩
  · rw [updThread_threads_self, hstate] at hb
    cases hb
  · have hut : u ≠ t := fun he => hoff c hc hk (he ▸ hu)
    rw [updThread_threads_ne _ hut]
    exact h.current c hc hk u hu
  · exact updThread_cases (fun _ _ => .inl hsaved) (fun _ => h.suspended u) hu
  · exact updThread_cases (fun _ => ⟨hstate, hsaved⟩) fun _ => h.taken u hu
  · have hut : u ≠ t := fun he => hnext c hc hk (he ▸ hu)
    rw [updThread_threads_ne _ hut]
    exact h.next c hc hk u hu
  · exact updThread_cases (fun _ _ _ => hmask) (fun _ => h.mask u) he hd

section
variable (h : SwitchInv s held none)
include h

theorem SwitchInv.saved_of_takenFrom
    (hcur : (s.cpus c).current = none) (hcare : SwitchOp.Careful s (.take c))
    (hd : TakenFrom s c t src runq thread) : (s.threads t).saved = true := by
  obtain ⟨_, hready, hcpu⟩ := h.queues.queued src hd.lt t hd.mem
  rcases h.suspended t (.inl hready) with hs | ⟨c', hc', hct, _⟩
  · exact hs
  -- otherwise its CPU has not left it yet
  have hon := (h.current c' hc' (by simp) t hct).cpuId
  rw [hcpu] at hon
  subst hon
  rcases hd.own with rfl | ⟨hne, hempty, hpull⟩
  · rw [hcur] at hct
    cases hct
  · exact absurd hct (hcare hempty src hd.lt hne t hd.mem hpull)

theorem SwitchInv.schedRunTake (hc : c < s.cpuCount)
    (hcur : (s.cpus c).current = none) (hcare : SwitchOp.Careful s (.take c)) :
    ∃ held', SwitchInv (s.schedRunTake c) held' none := by
  unfold Sched.schedRunTake
  split
  · exact ⟨held, h⟩
  rename_i t s' hp
  obtain ⟨src, runq, thread, hd, rfl⟩ := schedRunPick_spec h.queues hc hp
  obtain ⟨hnt, hready, _⟩ := h.queues.queued src hd.lt t hd.mem
  have hsaved := h.saved_of_takenFrom hcur hcare hd
  have hmask : thread.affinityMask.getLsbD thread.cpuId = true := by
    rw [hd.affinityMask, hd.cpuId]
    rcases hd.own with rfl | ⟨_, _, hpull⟩
    · have := h.mask t (by simp [hready]) (by simp [hready])
      rwa [(h.queues.queued src hd.lt t hd.mem).2.2] at this
    · exact (Bool.and_eq_true_iff.mp hpull).2
  have h₁ := ((h.leave c).dequeue hd.toDequeued hsaved).place (Set.mem_insert t held) hd.state
    (hd.saved.trans hsaved) hmask fun c' hc' hk hn => by
      rw [setRunq_next] at hn
      exact hnt (h.next c' hc' (by simp) t hn).1
  refine ⟨insert t held, h₁.updCpu rfl (fun u hu => ?_) (fun u hu => ?_) (fun u hu => ?_)⟩
  · simp [hcur] at hu
  · simp [hcur] at hu
  · cases hu
    refine ⟨Set.mem_insert t held, ?_, ?_⟩
    · simpa using hd.cpuId
    · simpa using hcur

/-! ## Handoff -/

theorem SwitchInv.saved_of_blocked (hb : (s.threads t).state = .blocked)
    (hcpu : (s.threads t).cpuId = c) (hcur : (s.cpus c).current ≠ some t) :
    (s.threads t).saved = true ∧ Off s none t := by
  have hoff : Off s none t := by
    intro c' hc' hs hct
    have hon := (h.current c' hc' hs t hct).cpuId
    rw [hcpu] at hon
    exact hcur (hon ▸ hct)
  rcases h.suspended t (.inr hb) with hs | ⟨c', hc', hct, _⟩
  · exact ⟨hs, hoff⟩
  · exact absurd hct (hoff c' hc' (by simp))

theorem SwitchInv.handoffDirect (hc : c < s.cpuCount)
    (hcur : (s.cpus c).current = some prev) (hp : (s.cpus c).prepared = false)
    (hb : (s.threads t).state = .blocked) (hcpu : (s.threads t).cpuId = c)
    {cpu} (hs₁ : s₁ = s.schedEnqueueOn c prev now)
    (hs₂ : s₂ = s₁.updThread prev { s₁.threads prev with handoffOn := some c, saved := true })
    (hrun : thread.state = .running) (hon : thread.cpuId = (s₂.threads t).cpuId)
    (hm : thread.affinityMask = (s₂.threads t).affinityMask) (hsame : CpuAlike (s₂.cpus c) cpu)
    (hnext : cpu.next = (s₂.cpus c).next) (hprep : cpu.prepared = (s₂.cpus c).prepared) :
    SwitchInv (((s₂.updThread t thread).updCpu c cpu).switchToThread c t) held none := by
  obtain ⟨honp, hoffp, hntp, hn⟩ := h.onCpu hc hcur
  have hprev := honp.running hp
  have htp : t ≠ prev := by
    intro he
    rw [he, hprev] at hb
    cases hb
  obtain ⟨hsaved, hoff⟩ := h.saved_of_blocked hb hcpu (by
    rw [hcur]
    exact fun he => htp (Option.some.inj he).symm)
  obtain ⟨c', he, hmask, _⟩ := schedEnqueueOnReason_spec hc prev false now
  rw [show s.schedEnqueueOnReason c prev false now = s₁ from hs₁.symm] at he
  -- the caller stays on its own CPU's queue
  have hmp := h.mask prev (by simp [hprev]) (by simp [hprev])
  rw [honp.cpuId] at hmp
  obtain rfl : c' = (s.threads prev).cpuId := (hmask hmp).trans honp.cpuId.symm
  have h₁ : SwitchInv s₁ held (some c) :=
    (h.leave c).enqueued he (by simp [hprev]) (by simp [hprev]) (by simp [hprev])
      (fun c' hc' hs hct => absurd hct (hoffp c' hc' hs)) (.inr ⟨c, hc, hcur, .inl rfl⟩)
  have hoff₁ : ∀ u, Off s (some c) u → Off s₁ (some c) u := by
    intro u hu c' hc' hs
    rw [he.current]
    exact hu c' (he.cpuCount ▸ hc') hs
  have htouch : Touches s₁ prev s₂ := hs₂ ▸ .updThread _
  have h₂ : SwitchInv s₂ held (some c) :=
    hs₂ ▸ h₁.setSaved (hoff₁ prev hoffp) hntp ⟨rfl, rfl, rfl, fun _ => rfl⟩ rfl fun _ => rfl
  have ht₂ : s₂.threads t = s.threads t := by
    rw [htouch.thread_ne t htp, he.thread_ne t htp]
  have hnt : t ∉ held := h.not_taken (by simp [hb])
  have hoff₂ : Off s₂ (some c) t := by
    intro c' hc' hs
    rw [htouch.current]
    exact hoff₁ t (fun c' hc' _ => hoff c' hc' (by simp)) c' (htouch.cpuCount ▸ hc') hs
  have h₃ : SwitchInv (s₂.updThread t thread) held (some c) := by
    refine h₂.touches_free (.updThread thread) hnt (h₂.queues.updThread thread ?_ ?_)
      (h₂.placed.touches (.updThread thread) (h₂.placed.lt ?_) fun hbl => ?_)
      ⟨fun c' hc' hs hct => absurd hct (hoff₂ c' hc' hs), fun hs => ?_, fun _ _ => ?_⟩
    · simp [ht₂, hb]
    · simp [hrun]
    · simp [ht₂, hb]
    · simp [hrun] at hbl
    · simp [hrun] at hs
    · rw [updThread_threads_self, hon, hm, ht₂]
      exact h.mask t (by simp [hb]) (by simp [hb])
  refine (h₃.quiet (.updCpu hsame hnext hprep)).switchToThread ?_ hnt ?_ ?_ fun u hu hut => ?_
  · exact hoff₂.updCpu
  · simpa using hrun
  · simpa [hon, ht₂] using hcpu
  · rw [updCpu_cpus_self, hsame.current, htouch.current, he.current, hcur] at hu
    cases hu
    simp [updThread_threads_ne _ hut, hs₂]

theorem SwitchInv.threadHandoff (hc : c < s.cpuCount)
    (hp : (s.cpus c).prepared = false) : SwitchInv (s.threadHandoff c t now) held none := by
  unfold Sched.threadHandoff
  split
  · exact h
  rename_i hb
  have hb : (s.threads t).state = .blocked := not_not.mp hb
  split
  · exact h.threadUnblock t
  rename_i prev hcur
  split
  · exact h.threadUnblock t
  rename_i hon
  split
  · exact h.threadUnblock t
  split
  · obtain ⟨c', he, _⟩ := threadUnblock_spec hb h.placed now
    refine (h.threadUnblock t).threadExit ?_ ?_ ?_
    · exact he.cpuCount ▸ hc
    · rw [he.current, hcur]
    · rw [he.touches.prepared, hp]
  · have hq := (schedAccountRuntime_quiet s c true now).toStill
    have ha := hq.alike (t := t) (by simp [hb])
    refine (h.account c true now).handoffDirect (by simpa) (by simpa) (by simpa)
      (ha.state.trans hb) (ha.cpuId.trans (not_not.mp hon)) rfl rfl rfl rfl rfl ?_ rfl rfl
    exact ⟨rfl, rfl, rfl, rfl⟩

end

/-! ## Creation -/

theorem SwitchInv.not_current_of_empty (h : SwitchInv s held skip)
    (he : (s.threads t).state = .empty) : Off s skip t := by
  intro c hc hs hcur
  have hon := h.current c hc hs t hcur
  cases hp : (s.cpus c).prepared with
  | false => simp [hon.running hp] at he
  | true => rcases hon.window hp with hw | hw <;> simp [hw] at he

theorem SwitchInv.enqueueNew (h : SwitchInv s held none) (hc : c < s.cpuCount)
    (hstate : thread.state = .empty) (hsaved : thread.saved = true)
    (hmask : thread.affinityMask.getLsbD c = true) :
    SwitchInv ((s.addThread k thread).schedEnqueueOn c s.nextThread now) held none := by
  have hempty : (s.threads s.nextThread).state = .empty := h.placed.fresh _ le_rfl
  have h₀ : SwitchInv { s with nextTid := s.nextTid + 1, nextThread := s.nextThread + 1 } held none :=
    ⟨⟨h.queues.ok, h.queues.queued, h.queues.ready⟩,
      ⟨h.placed.cpuCount_pos, h.placed.blocked, fun t ht => h.placed.fresh t (Nat.le_of_succ_le ht)⟩,
      h.current, h.suspended, h.taken, h.next, h.mask⟩
  have h₁ := h₀.quiet (.updTask (k := k) { s.tasks k with
    threads := s.nextThread :: (s.tasks k).threads, threadCount := (s.tasks k).threadCount + 1 })
  have hnt : s.nextThread ∉ held := h.not_taken (by simp [hempty])
  have hoff : Off s none s.nextThread := h.not_current_of_empty hempty
  have hself : (s.addThread k thread).threads s.nextThread = thread := by simp [Sched.addThread]
  have h₂ : SwitchInv (s.addThread k thread) held none := by
    refine h₁.touches_free (.updThread thread) hnt (h₁.queues.updThread thread ?_ ?_)
      (h₁.placed.touches (.updThread thread) (Nat.lt_succ_self _) fun hb => ?_)
      ⟨fun c' hc' hs hct => absurd hct (hoff c' hc' hs), fun hs => ?_, fun he => ?_⟩
    · simp [hempty]
    · simp [hstate]
    · have hb' := (congrArg Thread.state hself).symm.trans hb
      rw [hstate] at hb'
      cases hb'
    · rw [hself, hstate] at hs
      simp at hs
    · rw [hself, hstate] at he
      simp at he
  have hc₂ : c < (s.addThread k thread).cpuCount := hc
  obtain ⟨c', he, hbit, _⟩ : ∃ c', Enqueued (s.addThread k thread) s.nextThread c'
      ((s.addThread k thread).schedEnqueueOn c s.nextThread now) ∧ _ :=
    schedEnqueueOnReason_spec hc₂ s.nextThread false now
  obtain rfl := hbit (by rw [hself]; exact hmask)
  refine h₂.touches_free he.touches hnt ((h₂.queues.hold ?_).enqueued hnt he)
    (h₂.placed.touches he.touches (Nat.lt_succ_self _) fun hb => ?_)
    ⟨fun d hd hs hct => absurd hct (hoff d hd hs), fun _ => .inl ?_, fun _ _ => ?_⟩
  · simp [hself, hstate]
  · rw [he.state] at hb
    cases hb
  · rw [he.saved, hself, hsaved]
  · rw [he.affinityMask, he.cpuId, hself]
    exact hmask

theorem createTarget_mask (h : 0 < s.cpuCount) (m : U64) {mask}
    (hm : mask = if s.schedPolicyValidCpuMask m then m else s.schedOnlineCpuMask) :
    mask.getLsbD (if mask.getLsbD c then (c, s) else s.schedSelectAutoCpuMask mask).1 = true := by
  split
  · rename_i hbit
    exact hbit
  have hsel := schedSelectAutoCpuMask_mask h mask
  by_cases hv : s.schedPolicyValidCpuMask mask = true
  · rwa [if_pos hv] at hsel
  rw [if_neg hv] at hsel
  have hfall : mask = s.schedOnlineCpuMask := by
    by_cases hvm : s.schedPolicyValidCpuMask m = true
    · rw [if_pos hvm] at hm
      exact absurd (hm ▸ hvm) hv
    · rwa [if_neg hvm] at hm
  rwa [← hfall] at hsel

theorem SwitchInv.threadCreatePlaced (h : SwitchInv s held none) (hc : c < s.cpuCount) (alloc : Bool) :
    SwitchInv (s.threadCreatePlaced k c alloc now) held none := by
  unfold Sched.threadCreatePlaced
  dsimp only
  split
  · exact h
  obtain ⟨hlt, hq, _⟩ := createTarget_spec hc (if s.schedPolicyValidCpuMask
    (s.tasks k).schedAffinityMask then (s.tasks k).schedAffinityMask else s.schedOnlineCpuMask)
  refine (h.quiet hq).enqueueNew ?_ rfl rfl (createTarget_mask (Nat.zero_lt_of_lt hc) _ rfl)
  rw [hq.cpuCount]
  exact hlt

theorem SwitchInv.threadCreate (h : SwitchInv s held none) (alloc : Bool) :
    SwitchInv (s.threadCreate k alloc now) held none := by
  obtain ⟨hlt, hq, _⟩ := taskSelectCpu_spec h.placed.cpuCount_pos k
  refine (h.quiet hq).threadCreatePlaced ?_ alloc
  rw [hq.cpuCount]
  exact hlt

theorem SwitchInv.threadCreateOnCpu (h : SwitchInv s held none) (c : CpuId) (alloc : Bool) :
    SwitchInv (s.threadCreateOnCpu k c alloc now) held none := by
  refine h.threadCreatePlaced ?_ alloc
  split
  · exact h.placed.cpuCount_pos
  · rename_i hc
    exact Nat.lt_of_not_le hc

/-! ## Which thread becomes current -/

theorem switchToScheduler_current :
    ((s.switchToScheduler c t).cpus c').current = if c' = c then none else (s.cpus c').current := by
  unfold switchToScheduler
  rw [((schedReapPending_quiet _ _).cpu c').current]
  split
  · rename_i hc
    simp [hc]
  · rename_i hc
    simp [updCpu_cpus_ne _ hc]

theorem switchToThread_current :
    ((s.switchToThread c t).cpus c').current = if c' = c then some t else (s.cpus c').current := by
  have hset : ((s.updCpu c { s.cpus c with current := some t, next := none, prepared := false }).cpus
      c').current = if c' = c then some t else (s.cpus c').current := by
    split
    · rename_i hc
      simp [hc]
    · rename_i hc
      simp [updCpu_cpus_ne _ hc]
  unfold switchToThread
  cases (s.threads t).handoffOn with
  | none => exact hset
  | some c₀ =>
    rw [((schedReapPending_quiet _ _).cpu c').current]
    exact updCpu_cases (fun hc => hc ▸ hset) fun _ => hset

/-- No CPU gets a new current thread. -/
def NoNewCurrent (s s' : Sched) : Prop :=
  ∀ c t, (s'.cpus c).current = some t → (s.cpus c).current = some t

theorem NoNewCurrent.switchesSaved (h : NoNewCurrent s s') : SwitchesSaved s s' :=
  fun c _ t ht => .inl (h c t ht)

theorem NoNewCurrent.of_eq (h : ∀ c, (s'.cpus c).current = (s.cpus c).current) :
    NoNewCurrent s s' := fun c t ht => by rwa [h c] at ht

theorem NoNewCurrent.switchToScheduler (h : NoNewCurrent s s') :
    NoNewCurrent s (s'.switchToScheduler c u) := by
  intro c' t ht
  rw [switchToScheduler_current] at ht
  split at ht
  · cases ht
  · exact h c' t ht

theorem noNewCurrent_threadExit : NoNewCurrent s (s.threadExit c t now) := by
  refine NoNewCurrent.switchToScheduler (.of_eq fun c' => ?_)
  exact updCpu_cases (fun hc => by simp [hc]) fun _ => by simp

theorem noNewCurrent_threadPrepareBlock : NoNewCurrent s (s.threadPrepareBlock c now) := by
  unfold threadPrepareBlock
  split
  · exact .of_eq fun _ => rfl
  split
  · exact noNewCurrent_threadExit
  refine .of_eq fun c' => ?_
  exact updCpu_cases (fun hc => by simp [hc]) fun _ => by simp

theorem noNewCurrent_threadBlockPrepared : NoNewCurrent s (s.threadBlockPrepared c) := by
  unfold threadBlockPrepared
  split
  · exact .of_eq fun _ => rfl
  · exact (NoNewCurrent.of_eq fun _ => rfl).switchToScheduler

theorem PlacedInv.threadUnblock_current (h : PlacedInv s) :
    ((s.threadUnblock t now).cpus c).current = (s.cpus c).current := by
  by_cases hb : (s.threads t).state = .blocked
  · obtain ⟨c', he, _⟩ := threadUnblock_spec hb h now
    exact he.current c
  · rw [threadUnblock_of_ne hb]

theorem schedEnqueueOn_current (hc : c < s.cpuCount) (t : ThreadId) (now : U64) :
    ((s.schedEnqueueOn c t now).cpus c').current = (s.cpus c').current := by
  obtain ⟨d, he, _⟩ := schedEnqueueOnReason_spec hc t false now
  exact he.current c'

theorem threadCreatePlaced_current (hc : c < s.cpuCount) (alloc : Bool) :
    ((s.threadCreatePlaced k c alloc now).cpus c').current = (s.cpus c').current := by
  unfold threadCreatePlaced
  dsimp only
  split
  · rfl
  obtain ⟨hlt, hq, _⟩ := createTarget_spec hc (if s.schedPolicyValidCpuMask
    (s.tasks k).schedAffinityMask then (s.tasks k).schedAffinityMask else s.schedOnlineCpuMask)
  refine (schedEnqueueOn_current ?_ _ _).trans (hq.cpu c').current
  rw [← hq.cpuCount] at hlt
  exact hlt

/-! ## Steps and runs -/

theorem SwitchInv.switchesSaved_handoff (h : SwitchInv s held none) (hc : c < s.cpuCount)
    (hp : (s.cpus c).prepared = false) : SwitchesSaved s (s.threadHandoff c t now) := by
  have hunblock : NoNewCurrent s (s.threadUnblock t now) :=
    .of_eq fun _ => h.placed.threadUnblock_current
  unfold Sched.threadHandoff
  split
  · exact (NoNewCurrent.of_eq fun _ => rfl).switchesSaved
  rename_i hb
  have hb : (s.threads t).state = .blocked := not_not.mp hb
  split
  · exact hunblock.switchesSaved
  rename_i prev hcur
  split
  · exact hunblock.switchesSaved
  rename_i hon
  split
  · exact hunblock.switchesSaved
  split
  · refine NoNewCurrent.switchesSaved fun c' u hu => ?_
    exact hunblock c' u (noNewCurrent_threadExit c' u hu)
  intro c' hc' u hu
  rw [switchToThread_current] at hu
  split at hu
  · -- the one CPU that switches, to the thread handed to
    cases hu
    refine .inr (h.saved_of_blocked hb (not_not.mp hon) ?_).1
    rw [hcur]
    intro he
    cases he
    have hrun := (h.onCpu hc hcur).1.running hp
    rw [hb] at hrun
    cases hrun
  · rename_i hne
    rw [updCpu_cpus_ne _ hne] at hu
    refine .inl ?_
    rw [← schedAccountRuntime_current s c c' true now,
      ← schedEnqueueOn_current (c := c) (by simpa) prev now]
    exact hu

theorem SwitchInv.switchesSaved_switch (h : SwitchInv s held none) (hc : c < s.cpuCount)
    (hn : (s.cpus c).next = some t) : SwitchesSaved s (s.schedRunSwitch c t now) := by
  obtain ⟨ht, _, _⟩ := h.next c hc (by simp) t hn
  unfold Sched.schedRunSwitch
  intro c' hc' u hu
  split at hu
  · rw [((schedReapThread_quiet _ _).cpu c').current] at hu
    refine .inl ?_
    exact updCpu_cases (fun hcc hu => by simpa [hcc] using hu) (fun _ hu => hu) hu
  · rw [switchToThread_current] at hu
    split at hu
    · cases hu
      exact .inr (h.taken t ht).2
    · rename_i hcc
      rw [updCpu_cpus_ne _ hcc] at hu
      exact .inl hu

theorem noNewCurrent_schedRunTake (h : QueueInv s held) (hc : c < s.cpuCount) :
    NoNewCurrent s (s.schedRunTake c) := by
  unfold schedRunTake
  split
  · exact .of_eq fun _ => rfl
  rename_i t s' hp
  obtain ⟨src, runq, thread, _, rfl⟩ := schedRunPick_spec h hc hp
  refine .of_eq fun c' => ?_
  exact updCpu_cases (fun hcc => by simp [hcc]) fun _ => by simp

/-- **One step.** A careful step keeps the switching invariant and switches to saved threads
only. -/
theorem SwitchInv.step (h : SwitchInv s held none) {op : SwitchOp} (hcare : op.Careful s)
    (hs : op.step now s = some s') :
    (∃ held', SwitchInv s' held' none) ∧ SwitchesSaved s s' := by
  cases op with
  | create k alloc =>
    cases hs
    obtain ⟨hlt, hq, _⟩ := taskSelectCpu_spec h.placed.cpuCount_pos k
    refine ⟨⟨held, h.threadCreate alloc⟩, NoNewCurrent.switchesSaved (.of_eq fun c => ?_)⟩
    rw [← hq.cpuCount] at hlt
    exact (threadCreatePlaced_current hlt alloc).trans (hq.cpu c).current
  | createOnCpu k c alloc =>
    cases hs
    refine ⟨⟨held, h.threadCreateOnCpu c alloc⟩, NoNewCurrent.switchesSaved (.of_eq fun c' => ?_)⟩
    refine threadCreatePlaced_current ?_ alloc
    split
    · exact h.placed.cpuCount_pos
    · rename_i hc
      exact Nat.lt_of_not_le hc
  | prepareBlock c =>
    obtain ⟨hc, hs⟩ := Option.ite_none_right_eq_some.mp hs
    cases hs
    exact ⟨⟨held, h.threadPrepareBlock hc.1 hc.2⟩, noNewCurrent_threadPrepareBlock.switchesSaved⟩
  | blockPrepared c =>
    obtain ⟨hc, hs⟩ := Option.ite_none_right_eq_some.mp hs
    cases hs
    exact ⟨⟨held, h.threadBlockPrepared hc.1⟩, noNewCurrent_threadBlockPrepared.switchesSaved⟩
  | unblock t =>
    cases hs
    exact ⟨⟨held, h.threadUnblock t⟩,
      NoNewCurrent.switchesSaved (.of_eq fun _ => h.placed.threadUnblock_current)⟩
  | handoff c t =>
    obtain ⟨hc, hs⟩ := Option.ite_none_right_eq_some.mp hs
    cases hs
    exact ⟨⟨held, h.threadHandoff hc hcare⟩, h.switchesSaved_handoff hc hcare⟩
  | take c =>
    obtain ⟨hc, hs⟩ := Option.ite_none_right_eq_some.mp hs
    cases hs
    exact ⟨h.schedRunTake hc.1 hc.2.1 hcare, (noNewCurrent_schedRunTake h.queues hc.1).switchesSaved⟩
  | switch c =>
    simp only [SwitchOp.step] at hs
    split at hs
    · cases hs
    rename_i t hn
    obtain ⟨hc, hs⟩ := Option.ite_none_right_eq_some.mp hs
    cases hs
    exact ⟨⟨_, h.schedRunSwitch hc hn⟩, h.switchesSaved_switch hc hn⟩

theorem SwitchInv.runsOnce (h : SwitchInv s held none) : RunsOnce s := by
  intro c hc c' hc' t hcur hcur'
  have hon := h.current c hc (by simp) t hcur
  have hon' := h.current c' hc' (by simp) t hcur'
  exact hon.cpuId.symm.trans hon'.cpuId

theorem Init.switchInv (h : Init s) : SwitchInv s ∅ none := by
  have hi := h.inv
  refine ⟨hi.queues, hi.placed, fun c hc _ t hcur => ?_, fun t ht => ?_, fun t ht => absurd ht (Set.notMem_empty t),
    fun c _ _ t hn => ?_, fun t he => ?_⟩
  · rw [h.cpus_eq] at hcur
    cases hcur
  · simp [h.threads_eq] at ht
  · rw [h.cpus_eq] at hn
    cases hn
  · simp [h.threads_eq] at he

/-- **No thread runs on two CPUs, in any careful run.** From the state `sched_init` leaves, on
any number of CPUs: in every state reached each thread is current on at most one CPU, and every
careful step from there switches to threads only whose context has been saved. -/
theorem runsOnce_of_careful (hi : Init s) {as : List (U64 × SwitchOp)}
    (hr : Run (fun s a s' => a.2.Careful s ∧ a.2.step a.1 s = some s') s as s') :
    RunsOnce s' ∧ ∀ (now : U64) (op : SwitchOp) s'', op.Careful s' → op.step now s' = some s'' →
      SwitchesSaved s' s'' := by
  obtain ⟨held, h⟩ : ∃ held, SwitchInv s' held none := by
    refine hr.invariant (P := fun s => ∃ held, SwitchInv s held none) (fun s a s' h hs => ?_)
      ⟨∅, hi.switchInv⟩
    obtain ⟨held, h⟩ := h
    exact (h.step hs.1 hs.2).1
  exact ⟨h.runsOnce, fun now op s'' hcare hs => (h.step hcare hs).2⟩

/-- Two CPUs; the threads of task 1 may run on the first only, all others on both. -/
def bootTwo : Sched where
  cpuCount := 2
  cpus _ := {}
  threads _ := {}
  tasks k := { schedAffinityMask := if k = 1 then 1 else 3 }
  sleepList := ⟨none, fun _ => none⟩
  nextAutoCpu := 0
  nextTid := 1
  nextThread := 0
  preemptionEnabled := true

theorem bootTwo_init : Init bootTwo := ⟨by decide, fun _ => rfl, fun _ => rfl, rfl, fun _ => rfl⟩

/-- Two threads on the first CPU; the first one runs, and is woken inside its block window. -/
def wokenInWindow : List (U64 × SwitchOp) :=
  [(1, .createOnCpu 2 0 true), (1, .createOnCpu 1 0 true), (1, .take 0), (1, .switch 0),
    (2, .prepareBlock 0), (3, .unblock 0)]

instance (s : Sched) (op : SwitchOp) : Decidable (op.Careful s) :=
  match op with
  | .take c => inferInstanceAs (Decidable (s.queue c = [] → ∀ src < s.cpuCount, src ≠ c →
      ∀ t ∈ s.queue src, (s.threads t).pullable c = true → (s.cpus src).current ≠ some t))
  | .handoff c _ => inferInstanceAs (Decidable ((s.cpus c).prepared = false))
  | .create .. | .createOnCpu .. | .prepareBlock _ | .blockPrepared _ | .unblock _ | .switch _ =>
    .isTrue trivial

/-- After `wokenInWindow` the first CPU leaves its thread before the second one looks for work:
the second CPU then takes that thread and switches to it. -/
theorem runsOnce_of_careful_window :
    ∃ s', Run (fun s a s' => SwitchOp.Careful s a.2 ∧ a.2.step a.1 s = some s') bootTwo
        (wokenInWindow ++ [(3, .blockPrepared 0), (3, .take 1), (3, .switch 1)]) s' ∧
      (s'.cpus 1).current = some 0 ∧ RunsOnce s' := by
  obtain ⟨s', hrun, hp⟩ := Run.exists_of_exec_guard (fun s (a : U64 × SwitchOp) => a.2.step a.1 s) bootTwo
    (wokenInWindow ++ [(3, .blockPrepared 0), (3, .take 1), (3, .switch 1)])
    (fun s' => (s'.cpus 1).current = some 0) (fun s a => a.2.Careful s) (by decide +kernel)
  exact ⟨s', hrun, hp, (runsOnce_of_careful bootTwo_init hrun).1⟩

/-- **An idle CPU can start a thread that another CPU still runs.** The second CPU takes the
woken thread before the first one has left it. -/
theorem not_runsOnce_of_idlePull :
    ∃ as s', Run (fun s (a : U64 × SwitchOp) s' => a.2.step a.1 s = some s') bootTwo as s' ∧
      ¬ RunsOnce s' := by
  obtain ⟨s', hrun, hn, h₀, h₁⟩ := Run.exists_of_exec (fun s (a : U64 × SwitchOp) => a.2.step a.1 s) bootTwo
    (wokenInWindow ++ [(3, .take 1), (3, .switch 1)])
    (fun s' => s'.cpuCount = 2 ∧ (s'.cpus 0).current = some 0 ∧ (s'.cpus 1).current = some 0)
    (by decide +kernel)
  refine ⟨_, s', hrun, fun h => ?_⟩
  have hsame := h 0 (by omega) 1 (by omega) 0 h₀ h₁
  cases hsame

end Bunix.Kernel.Sched
