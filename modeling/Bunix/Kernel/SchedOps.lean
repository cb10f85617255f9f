import Bunix.Kernel.SchedMoves

/-! # Every operation is a sequence of moves

`thread_unblock` and `thread_handoff` only look at the state of their thread and never at the sleep
list; they are `tidy` for a thread that is not asleep.
-/
namespace Bunix.Kernel.Sched

open Bunix.Lib Function

variable {s s' : Sched} {c c' : CpuId} {t u prev : ThreadId} {k : TaskId} {now : U64}
  {thread : Thread} {kept tidy spared : Prop} {cpu : CpuSched} {fuel : Nat}

@[simp] theorem schedAccountRuntime_current (s : Sched) (c c' : CpuId) (b : Bool) (now : U64) :
    ((s.schedAccountRuntime c b now).cpus c').current = (s.cpus c').current :=
  ((schedAccountRuntime_quiet s c b now).cpu c').current

@[simp] theorem schedAccountRuntime_cpuCount (s : Sched) (c : CpuId) (b : Bool) (now : U64) :
    (s.schedAccountRuntime c b now).cpuCount = s.cpuCount :=
  (schedAccountRuntime_quiet s c b now).cpuCount

theorem account_task (s : Sched) (c : CpuId) (b : Bool) (now : U64) (u : ThreadId) :
    ((s.schedAccountRuntime c b now).threads u).task = (s.threads u).task := by
  have hupd : ∀ {s : Sched} {t : ThreadId} {thread : Thread}, thread.task = (s.threads t).task →
      ((s.updThread t thread).threads u).task = (s.threads u).task := by
    intro s t thread h
    exact updThread_cases (fun hut => hut ▸ h) fun _ => rfl
  unfold schedAccountRuntime
  split
  · rfl
  dsimp only
  split
  · rfl
  split
  · exact hupd rfl
  split
  · rfl
  · exact hupd rfl

namespace Moves

theorem refl (s : Sched) : Moves kept tidy spared s s := Relation.ReflTransGen.refl

theorem one (h : Move kept tidy spared s s') : Moves kept tidy spared s s' :=
  Relation.ReflTransGen.single h

theorem silent (h : Silent s s') : Moves kept tidy spared s s' := one (.silent h)

theorem account (s : Sched) (c : CpuId) (b : Bool) (now : U64) :
    Moves kept tidy spared s (s.schedAccountRuntime c b now) := silent (.account s c b now)

/-! ## Leaving a CPU -/

theorem leave (hc : c < s.cpuCount) (hcur : (s.cpus c).current = some t)
    (ht : ThreadStops tidy (s.threads t) thread) (hr : cpu.runq = (s.cpus c).runq)
    (hd : cpu.handoffDepth = (s.cpus c).handoffDepth) :
    Moves kept tidy spared s (((s.updThread t thread).updCpu c cpu).switchToScheduler c t) := by
  have heq : ((s.updThread t thread).updCpu c cpu).switchToScheduler c t =
      ((s.updThread t { thread with saved := true }).updCpu c
        { cpu with current := none, prepared := false }).schedReapPending c := by
    simp only [switchToScheduler, Sched.updThread, Sched.updCpu, update_self, update_idem]
  rw [heq]
  refine (one (.leave hc hcur ?_ ?_)).trans (silent (.reapPending _ _))
  · exact ⟨ht.state, ht.cpuId, ht.asleep, ht.affinityMask, ht.handoffOn⟩
  · exact ⟨hr, rfl, hd⟩

theorem stop (hc : c < s.cpuCount) (hcur : (s.cpus c).current = some t)
    (ht : ThreadStops tidy (s.threads t) thread) :
    Moves kept tidy spared s ((s.updThread t thread).switchToScheduler c t) := by
  have hsame : (s.updThread t thread).updCpu c (s.cpus c) = s.updThread t thread := by
    simp [Sched.updCpu, Sched.updThread]
  rw [← hsame]
  exact leave hc hcur ht rfl rfl

theorem threadExit (hc : c < s.cpuCount) (hcur : (s.cpus c).current = some t) :
    Moves kept tidy spared s (s.threadExit c t now) := by
  refine (account s c true now).trans (leave (by simpa) (by simpa) ?_ ?_ ?_)
  · exact ⟨.inr rfl, rfl, fun _ => rfl, rfl, rfl⟩
  · rfl
  · rfl

theorem requeue (hc : c < s.cpuCount) (hcur : (s.cpus c).current = some t) :
    Moves kept tidy spared s (s.requeue c t now) := by
  obtain ⟨c', he, _, hbit⟩ := schedEnqueueOnReason_spec hc t false now
  set s₁ := s.schedEnqueueOnReason c t false now
  have hleft : Vacated (s₁.cpus c) { s₁.cpus c with current := none, prepared := false } :=
    ⟨rfl, rfl, rfl⟩
  have hsaved : ThreadAlike (s₁.threads t) { s₁.threads t with saved := true } :=
    ⟨rfl, rfl, rfl, fun _ => rfl⟩
  refine (one (.requeue hc hcur he hbit hleft)).trans ?_
  exact (silent (Silent.updThread (s := s₁.updCpu c _) hsaved rfl rfl rfl)).trans
    (silent (.reapPending _ c))

/-! ## Dispatch -/

theorem schedRunSwitch {src runq} (ht : TakenFrom s c t src runq thread) :
    Moves kept tidy spared s (((s.setRunq src runq).updThread t thread).schedRunSwitch c t now) := by
  set s₁ := (s.setRunq src runq).updThread t thread with hs₁
  have hself : s₁.threads t = thread := updThread_threads_self _
  unfold Sched.schedRunSwitch
  split
  · rename_i hkill
    unfold threadTaskIsKilling at hkill
    split at hkill
    · cases hkill
    rename_i k hk
    rw [hself, ht.task] at hk
    have hdrop : Move kept tidy spared s ((s.setRunq src runq).updThread t { thread with state := .dead }) :=
      .drop ht.toDequeued hk hkill rfl ht.asleep ht.handoffOn
    have hswap : (s₁.updCpu c { s₁.cpus c with next := none }).updThread t
          { s₁.threads t with state := .dead } =
        ((s.setRunq src runq).updThread t { thread with state := .dead }).updCpu c
          { s₁.cpus c with next := none } := by
      rw [hself]
      simp only [hs₁, Sched.updThread, Sched.updCpu, update_idem]
    have hnext : CpuAlike (s₁.cpus c) { s₁.cpus c with next := none } := ⟨rfl, rfl, rfl, rfl⟩
    refine ((one hdrop).trans (silent (.updCpu hnext rfl))).trans ?_
    rw [← hswap]
    exact silent (.reapThread _ t)
  · have hthread : ThreadStarts (s₁.threads t)
        (schedNoteSwitch { s₁.threads t with state := .running } now) := ⟨rfl, rfl, id, rfl, rfl⟩
    obtain ⟨s₂, hstart, hsilent⟩ := exists_started hthread c
      { s₁.cpus c with quantumLeft := schedQuantumTicks } rfl rfl
    exact (one (.run ht hstart)).trans (silent hsilent)

variable (h : CoreInv s ∅ none)
include h

theorem schedRun (hc : c < s.cpuCount) : Moves kept tidy spared s (s.schedRun c now) := by
  unfold Sched.schedRun
  split
  · exact refl s
  · rename_i hp
    obtain ⟨src, runq, thread, ht, rfl⟩ := schedRunPick_spec h.queues hc hp
    exact schedRunSwitch ht

/-! ## Yield, preemption, blocking -/

theorem threadYield (hc : c < s.cpuCount) : Moves kept tidy spared s (s.threadYield c now) := by
  unfold Sched.threadYield
  split
  · exact schedRun h hc
  rename_i t hcur
  split
  · exact threadExit hc hcur
  · exact (account s c true now).trans (requeue (by simpa) (by simpa))

omit h in
theorem schedTick (hc : c < s.cpuCount) : Moves kept tidy spared s (s.schedTick c now) := by
  unfold Sched.schedTick
  split
  · exact refl s
  split
  · exact refl s
  split
  · exact refl s
  have hquantum : ∀ quantumLeft, Moves kept tidy spared s ((s.schedAccountRuntime c false now).updCpu c
      { (s.schedAccountRuntime c false now).cpus c with quantumLeft }) := by
    intro quantumLeft
    refine (account s c false now).trans (silent (.updCpu ?_ rfl))
    exact ⟨rfl, rfl, rfl, rfl⟩
  dsimp only
  split
  · exact hquantum _
  · exact (hquantum schedQuantumTicks).trans (requeue (by simpa) (by simpa))

end Moves

theorem threadExit_current (s : Sched) (c : CpuId) (t : ThreadId) (now : U64) :
    ((s.threadExit c t now).cpus c).current = none := by
  unfold Sched.threadExit switchToScheduler
  rw [((schedReapPending_quiet _ _).cpu c).current]
  simp

namespace Moves

theorem threadBlock (hc : c < s.cpuCount) : Moves kept tidy spared s (s.threadBlock c now) := by
  unfold Sched.threadBlock threadPrepareBlock
  split
  · rename_i hcur
    unfold threadBlockPrepared
    rw [hcur]
    exact refl s
  rename_i t hcur
  split
  · -- the thread has left already
    unfold threadBlockPrepared
    rw [threadExit_current]
    exact threadExit hc hcur
  · unfold threadBlockPrepared
    simp only [updCpu_cpus_self, updThread_cpus, schedAccountRuntime_current, hcur]
    refine (account s c true now).trans (leave (by simpa) (by simpa) ?_ rfl rfl)
    exact ⟨.inl rfl, rfl, fun _ => rfl, rfl, rfl⟩

end Moves

/-! ## Creation -/

theorem taskSelectCpu_spec (h : 0 < s.cpuCount) (k : TaskId) :
    (s.taskSelectCpu k).1 < s.cpuCount ∧ Quiet s (s.taskSelectCpu k).2 ∧
      Silent s (s.taskSelectCpu k).2 := by
  unfold taskSelectCpu
  dsimp only
  split
  · rename_i hsel
    simp only [Bool.and_eq_true, decide_eq_true_eq] at hsel
    exact ⟨hsel.1.2, .refl s, .refl s⟩
  · obtain ⟨hlt, hq⟩ := schedSelectAutoCpuMask_spec h (s.tasks k).schedAffinityMask
    exact ⟨hlt, hq, .selectAutoCpuMask h _⟩

/-- The CPU `thread_create_placed` settles on. -/
theorem createTarget_spec (hc : c < s.cpuCount) (mask : U64) :
    (if mask.getLsbD c then (c, s) else s.schedSelectAutoCpuMask mask).1 < s.cpuCount ∧
      Quiet s (if mask.getLsbD c then (c, s) else s.schedSelectAutoCpuMask mask).2 ∧
      Silent s (if mask.getLsbD c then (c, s) else s.schedSelectAutoCpuMask mask).2 := by
  split
  · exact ⟨hc, .refl s, .refl s⟩
  · obtain ⟨hlt, hq⟩ := schedSelectAutoCpuMask_spec (Nat.zero_lt_of_lt hc) mask
    exact ⟨hlt, hq, .selectAutoCpuMask (Nat.zero_lt_of_lt hc) mask⟩

theorem validCpuMask_congr (h : s'.cpuCount = s.cpuCount) (mask : U64) :
    s'.schedPolicyValidCpuMask mask = s.schedPolicyValidCpuMask mask := by
  unfold schedPolicyValidCpuMask schedOnlineCpuMask
  rw [h]

theorem onlineCpuMask_valid (h : 0 < s.cpuCount) :
    s.schedPolicyValidCpuMask s.schedOnlineCpuMask = true := by
  simp only [schedPolicyValidCpuMask, Bool.and_eq_true, bne_iff_ne, beq_iff_eq]
  constructor
  · intro hz
    have hbit := (getLsbD_schedOnlineCpuMask s 0).mpr (by omega)
    rw [hz] at hbit
    simp at hbit
  · exact BitVec.and_not_self _

namespace Moves

theorem threadCreatePlaced (hc : c < s.cpuCount) (alloc : Bool) :
    Moves kept tidy spared s (s.threadCreatePlaced k c alloc now) := by
  unfold Sched.threadCreatePlaced
  dsimp only
  split
  · exact refl s
  set mask := if s.schedPolicyValidCpuMask (s.tasks k).schedAffinityMask then
    (s.tasks k).schedAffinityMask else s.schedOnlineCpuMask with hmask
  have hvalid : s.schedPolicyValidCpuMask mask = true := by
    rw [hmask]
    split
    · rename_i hv
      exact hv
    · exact onlineCpuMask_valid (Nat.zero_lt_of_lt hc)
  obtain ⟨hlt, _, hsilent⟩ := createTarget_spec hc mask
  refine (silent hsilent).trans ?_
  generalize hs₁ : (if mask.getLsbD c then (c, s) else s.schedSelectAutoCpuMask mask) = target
    at hlt hsilent
  set thread : Thread := {
    tid := s.nextTid, task := some k, weight := schedBaseWeight, schedClass := (s.tasks k).schedClass
    schedPriority := (s.tasks k).schedPriority, affinityMask := mask, saved := true }
  have hvalid₁ : target.2.schedPolicyValidCpuMask mask = true := by
    rwa [validCpuMask_congr hsilent.cpuCount]
  have hlt₁ : target.1 < (target.2.addThread k thread).cpuCount := by
    show target.1 < target.2.cpuCount
    rwa [hsilent.cpuCount]
  obtain ⟨c', he, _, hbit⟩ := schedEnqueueOnReason_spec hlt₁ target.2.nextThread false now
  rw [addThread_threads_self] at hbit
  exact one (.create rfl rfl hvalid₁ he (hbit hvalid₁))

section
variable (h : CoreInv s ∅ none)
include h

theorem threadCreate (alloc : Bool) : Moves kept tidy spared s (s.threadCreate k alloc now) := by
  obtain ⟨hlt, _, hsilent⟩ := taskSelectCpu_spec h.placed.cpuCount_pos k
  refine (silent hsilent).trans (threadCreatePlaced ?_ alloc)
  rw [hsilent.cpuCount]
  exact hlt

theorem threadCreateOnCpu (c : CpuId) (alloc : Bool) :
    Moves kept tidy spared s (s.threadCreateOnCpu k c alloc now) := by
  refine threadCreatePlaced ?_ alloc
  split
  · exact h.placed.cpuCount_pos
  · rename_i hc
    exact Nat.lt_of_not_le hc

end

end Moves

/-! ## Waking and handoff -/

theorem threadUnblock_spec (hb : (s.threads t).state = .blocked) (h : PlacedInv s) (now : U64) :
    ∃ c', Enqueued s t c' (s.threadUnblock t now) ∧
      (s.schedPolicyValidCpuMask (s.threads t).affinityMask = true →
        (s.threads t).affinityMask.getLsbD c' = true) := by
  unfold threadUnblock
  rw [if_neg (by simp [hb])]
  obtain ⟨c', he, _, hbit⟩ := schedEnqueueOnReason_spec (h.blocked t hb) t true now
  exact ⟨c', he, hbit⟩

theorem threadUnblock_tasks (h : PlacedInv s) (t : ThreadId) (now : U64) :
    (s.threadUnblock t now).tasks = s.tasks := by
  by_cases hb : (s.threads t).state = .blocked
  · obtain ⟨c', he, _⟩ := threadUnblock_spec hb h now
    exact he.tasks
  · unfold threadUnblock
    rw [if_pos hb]

theorem threadUnblock_of_ne (hb : (s.threads t).state ≠ .blocked) : s.threadUnblock t now = s := by
  unfold threadUnblock
  rw [if_pos hb]

namespace Moves

section
variable (h : CoreInv s ∅ none)
include h

theorem threadUnblock (t : ThreadId) (now : U64) (hawake : tidy → (s.threads t).asleep = false) :
    Moves kept tidy spared s (s.threadUnblock t now) := by
  by_cases hb : (s.threads t).state = .blocked
  · obtain ⟨c', he, hbit⟩ := threadUnblock_spec hb h.placed now
    exact one (.wake hb hawake he hbit)
  · rw [threadUnblock_of_ne hb]
    exact refl s

omit h in
/-- The direct switch of `thread_handoff`: the caller is queued, and `t` runs in its place. -/
theorem handoffDirect (hc : c < s.cpuCount) (hcur : (s.cpus c).current = some prev)
    (hb : (s.threads t).state = .blocked) (hon : (s.threads t).cpuId = c)
    (hawake : tidy → (s.threads t).asleep = false)
    (hmay : kept → (s.threads t).affinityMask.getLsbD c = true) (hzero : (s.cpus c).handoffDepth = 0)
    (halive : ∀ k, (s.threads prev).task = some k → (s.tasks k).killing = false)
    (hs₁ : s₁ = s.schedEnqueueOn c prev now)
    (hs₂ : s₂ = s₁.updThread prev { s₁.threads prev with handoffOn := some c, saved := true })
    (ht : ThreadStarts (s₂.threads t) thread) (hr : cpu.runq = (s₂.cpus c).runq)
    (hd : cpu.handoffDepth = (s₂.cpus c).handoffDepth + 1) :
    Moves kept tidy spared s (((s₂.updThread t thread).updCpu c cpu).switchToThread c t) := by
  obtain ⟨c', he, _, hbit⟩ := schedEnqueueOnReason_spec hc prev false now
  have he : Enqueued s prev c' s₁ := hs₁ ▸ he
  have hcpus : (s₁.suspended c prev).cpus c =
      { s₁.cpus c with handoffDepth := (s₁.cpus c).handoffDepth + 1 } := updCpu_cpus_self _
  have hthreads : (s₁.suspended c prev).threads = s₂.threads := by rw [hs₂]; rfl
  have hsame : (((s₁.suspended c prev).updThread t thread).updCpu c cpu) =
      (s₂.updThread t thread).updCpu c cpu := by
    simp only [suspended, hs₂, Sched.updCpu, Sched.updThread, update_idem]
  obtain ⟨s₃, hstart, hsilent⟩ := exists_started
    (hthreads ▸ ht) c cpu (by rw [hcpus, hr, hs₂]; rfl) (by rw [hcpus, hd, hs₂]; rfl)
  rw [hsame] at hsilent
  exact (one (.handoff hc hcur hb hon hawake hmay hzero halive he hbit hstart)).trans (silent hsilent)

theorem threadHandoff (hc : c < s.cpuCount) (hawake : tidy → (s.threads t).asleep = false)
    (hmay : kept → (s.threads t).state = .blocked → (s.threads t).cpuId = c →
      (s.threads t).affinityMask.getLsbD c = true) :
    Moves kept tidy spared s (s.threadHandoff c t now) := by
  have hunblock : Moves kept tidy spared s (s.threadUnblock t now) := threadUnblock h t now hawake
  unfold Sched.threadHandoff
  split
  · exact refl s
  rename_i hb
  have hb : (s.threads t).state = .blocked := not_not.mp hb
  split
  · exact hunblock
  rename_i prev hcur
  split
  · exact hunblock
  rename_i hon
  have hon : (s.threads t).cpuId = c := not_not.mp hon
  split
  · exact hunblock
  rename_i hzero
  split
  · obtain ⟨c', he, _⟩ := threadUnblock_spec hb h.placed now
    refine hunblock.trans (threadExit ?_ ?_)
    · exact he.cpuCount ▸ hc
    · rw [he.current, hcur]
  · rename_i hkill
    have hq := Silent.account s c true now
    have ha := hq.alike (t := t) (by simp [hb])
    refine (account s c true now).trans (handoffDirect (by simpa) (by simpa)
      (ha.state.trans hb) (ha.cpuId.trans hon) (fun htidy => ha.asleep.trans (hawake htidy))
      (fun hk => ?_) ?_ (fun k hk => ?_) rfl rfl ?_ rfl rfl)
    · rw [hq.mask t (by simp [hb])]
      exact hmay hk hb hon
    · rw [hq.depth]
      exact not_not.mp hzero
    · rw [account_task] at hk
      rw [hq.killing]
      simpa [threadTaskIsKilling, hk] using hkill
    · exact ⟨rfl, rfl, fun _ => rfl, rfl, rfl⟩

/-! ## Walks along the sleep list -/

theorem threadSleepTicks {ticks : U64} (hc : c < s.cpuCount)
    (hs : s.threadSleepTicks c ticks now = some s') : Moves kept False spared s s' := by
  unfold Sched.threadSleepTicks at hs
  split at hs
  · cases hs
    exact threadYield h hc
  split at hs
  · cases hs
    exact refl s
  rename_i t hcur
  split at hs
  · cases hs
    exact threadExit hc hcur
  obtain ⟨s₁, hs₁, rfl⟩ := Option.map_eq_some_iff.mp hs
  obtain ⟨link, _, rfl⟩ := Option.map_eq_some_iff.mp hs₁
  set s₁ := s.schedAccountRuntime c true now
  have hstops : ThreadStops False (s₁.threads t) { s₁.threads t with
      wakeTick := now + ticks, blockedSinceTick := now, state := .blocked, asleep := true } :=
    ⟨.inl rfl, rfl, False.elim, rfl, rfl⟩
  refine ((account s c true now).trans (one (.relink (s₁.sleepList.insertAt link t) id))).trans ?_
  exact stop (by simpa [s₁])
    (by simpa [s₁]) hstops

omit h in
theorem withWakeTick (s : Sched) (t : ThreadId) (wakeTick : U64) :
    Moves kept tidy spared s (s.updThread t { s.threads t with wakeTick }) := by
  refine silent (.updThread ?_ rfl rfl rfl)
  exact ⟨rfl, rfl, rfl, fun _ => rfl⟩

theorem wakeCollected {ready}
    (hs : wakeCollected now fuel s ready = some s') : Moves kept False spared s s' := by
  induction fuel generalizing s ready with
  | zero =>
    cases ready with
    | none =>
      cases hs
      exact refl _
    | some t => cases hs
  | succ fuel ih =>
    cases ready with
    | none =>
      cases hs
      exact refl _
    | some t =>
      have hclear : Moves kept False spared s _ :=
        (one (.relink (s.sleepList.setNext t none) id)).trans (withWakeTick _ t 0)
      have hpath := hclear.trans (threadUnblock (Moves.core h hclear) t now False.elim)
      exact hpath.trans (ih (Moves.core h hpath) hs)

theorem schedWakeSleepers {upTo : U64} (hs : s.schedWakeSleepers upTo now = some s') :
    Moves kept False spared s s' := by
  unfold Sched.schedWakeSleepers at hs
  split at hs
  · cases hs
  · exact (one (.relink _ id)).trans (wakeCollected (h.relink _) hs)

/-! ## Killing a task -/

omit h in
theorem schedCancelSleep (hs : s.schedCancelSleep t = some s') :
    Moves kept False spared s s' ∧ s'.tasks = s.tasks := by
  unfold Sched.schedCancelSleep at hs
  split at hs
  · cases hs
  split at hs
  · cases hs
    exact ⟨(one (.relink _ id)).trans (withWakeTick _ t 0), rfl⟩
  · cases hs
    exact ⟨refl s, rfl⟩

theorem killBlocked (hs : killBlocked k now fuel s = some s') :
    Moves kept False spared s s' ∧ s'.tasks = s.tasks := by
  induction fuel generalizing s with
  | zero =>
    unfold Sched.killBlocked at hs
    split at hs
    · cases hs
      exact ⟨refl _, rfl⟩
    · cases hs
  | succ fuel ih =>
    unfold Sched.killBlocked at hs
    split at hs
    · cases hs
      exact ⟨refl _, rfl⟩
    rename_i t _
    split at hs
    · rename_i s₁ hf hc
      cases hf
      obtain ⟨hcancel, htasks⟩ : Moves kept False spared s s₁ ∧ _ := schedCancelSleep hc
      have hwake := threadUnblock_tasks (Moves.core h hcancel).placed t now
      have hpath := hcancel.trans (threadUnblock (Moves.core h hcancel) t now False.elim)
      obtain ⟨hrest, htasks'⟩ := ih (Moves.core h hpath) hs
      exact ⟨hpath.trans hrest, htasks'.trans (hwake.trans htasks)⟩
    · cases hs

theorem schedCancelReadyTask (hkill : (s.tasks k).killing = true)
    (hs : s.schedCancelReadyTask k = some s') :
    Moves kept tidy spared s s' ∧ (s'.tasks k).killing = true := by
  obtain ⟨c, hc, hsome⟩ := List.exists_of_findSome?_eq_some hs
  obtain ⟨t, hfind, rfl⟩ := Option.map_eq_some_iff.mp hsome
  have hmem : t ∈ s.queue c := List.mem_of_find?_eq_some hfind
  have hd := h.queues.unlink (List.mem_range.mp hc) hmem
  have hfound := List.find?_some hfind
  rw [Bool.and_eq_true, beq_iff_eq] at hfound
  have hdrop : Move kept tidy spared s ((s.setRunq c ((s.cpus c).runq.unlink t)).updThread t
      { s.threads t with state := .dead }) := .drop hd hfound.1 hkill rfl rfl rfl
  rw [show runqRemove (s.cpus c).runq t = (s.cpus c).runq.unlink t from if_pos hmem]
  exact ⟨(one hdrop).trans (silent (.reapThread _ t)), ((Silent.reapThread _ t).killing k).trans hkill⟩

theorem cancelReady (hkill : (s.tasks k).killing = true)
    (hs : cancelReady k fuel s = some s') : Moves kept tidy spared s s' := by
  induction fuel generalizing s with
  | zero =>
    unfold Sched.cancelReady at hs
    split at hs
    · cases hs
      exact refl _
    · cases hs
  | succ fuel ih =>
    unfold Sched.cancelReady at hs
    split at hs
    · cases hs
      exact refl _
    · rename_i s₁ hone
      obtain ⟨hcancel, hkill₁⟩ : Moves kept tidy spared s s₁ ∧ _ := schedCancelReadyTask h hkill hone
      exact hcancel.trans (ih (Moves.core h hcancel) hkill₁ hs)

theorem taskKill (hspare : spared → ∀ t, (s.threads t).task = some k → (s.threads t).handoffOn = none)
    (hs : s.taskKill k now = some s') : Moves kept False spared s s' := by
  unfold Sched.taskKill at hs
  split at hs
  · cases hs
    exact refl s
  obtain ⟨s₁, hs₁, hs⟩ := Option.bind_eq_some_iff.mp hs
  have hmark : Moves kept False spared s (s.updTask k { s.tasks k with killing := true }) :=
    one (.mark k hspare)
  obtain ⟨hblocked, htasks⟩ := killBlocked (Moves.core h hmark) hs₁
  have hpath := hmark.trans hblocked
  refine hpath.trans (cancelReady (Moves.core h hpath) ?_ hs)
  rw [htasks]
  show (update s.tasks k _ k).killing = true
  rw [update_self]

end

end Moves

/-! ## All operations -/

/-- The operations that walk along the sleep list. -/
def Op.walks : Op → Bool
  | .sleep .. | .wakeSleepers _ | .kill _ => true
  | _ => false

/-- **Every operation but a change of policy is a sequence of moves.** -/
theorem exec_moves (h : CoreInv s ∅ none) {op : Op} (hc : ∀ c, op.cpu? = some c → c < s.cpuCount)
    (hwalk : tidy → op.walks = false)
    (hawake : tidy → ∀ t, op = .unblock t ∨ (∃ c, op = .handoff c t) → (s.threads t).asleep = false)
    (hmay : kept → ∀ c t, op = .handoff c t → (s.threads t).state = .blocked →
      (s.threads t).cpuId = c → (s.threads t).affinityMask.getLsbD c = true)
    (hspare : spared → ∀ k, op = .kill k → ∀ t, (s.threads t).task = some k →
      (s.threads t).handoffOn = none)
    (hs : op.exec now s = some s') : Moves kept tidy spared s s' ∨
      (∃ k p, op = .policyTask k p) ∨ ∃ t p, op = .policyThread t p := by
  have hfalse : op.walks = true → tidy = False := fun hw => by
    simp only [eq_iff_iff, iff_false]
    intro ht
    rw [hwalk ht] at hw
    cases hw
  cases op with
  | create k alloc =>
    cases hs
    exact .inl (.threadCreate h alloc)
  | createOnCpu k c alloc =>
    cases hs
    exact .inl (.threadCreateOnCpu h c alloc)
  | run c =>
    cases hs
    split
    · exact .inl (.schedRun h (hc c rfl))
    · exact .inl (.refl s)
  | yield c =>
    cases hs
    exact .inl (.threadYield h (hc c rfl))
  | tick c =>
    cases hs
    exact .inl (.schedTick (hc c rfl))
  | block c =>
    cases hs
    exact .inl (.threadBlock (hc c rfl))
  | unblock t =>
    cases hs
    exact .inl (.threadUnblock h t now fun ht => hawake ht t (.inl rfl))
  | sleep c ticks =>
    rw [hfalse rfl]
    exact .inl (.threadSleepTicks h (hc c rfl) hs)
  | wakeSleepers upTo =>
    rw [hfalse rfl]
    exact .inl (.schedWakeSleepers h hs)
  | handoff c t =>
    cases hs
    exact .inl (.threadHandoff h (hc c rfl) (fun ht => hawake ht t (.inr ⟨c, rfl⟩))
      fun hk => hmay hk c t rfl)
  | policyTask k p => exact .inr (.inl ⟨k, p, rfl⟩)
  | policyThread t p => exact .inr (.inr ⟨t, p, rfl⟩)
  | kill k =>
    rw [hfalse rfl]
    exact .inl (.taskKill h (fun hsp => hspare hsp k rfl) hs)
  | exit c =>
    cases hs
    split
    · exact .inl (.refl s)
    · rename_i hcur
      exact .inl (.threadExit (hc c rfl) hcur)

end Bunix.Kernel.Sched
