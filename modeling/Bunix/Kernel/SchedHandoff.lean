import Bunix.Kernel.SchedRun

/-! # Direct handoff

`thread_handoff` raises `handoff_depth` of its CPU, switches to the receiver, and lowers the counter
when its caller is switched to again, wherever that is. Until then the caller is an ordinary ready
thread on a run queue. `task_kill` takes such a thread off its queue and frees it, and nothing lowers
the counter.
-/
namespace Bunix.Kernel.Sched

open Bunix.Lib Function List

variable {s s' s₁ : Sched} {c c' : CpuId} {t u prev : ThreadId} {k : TaskId} {now : U64}
  {kept tidy : Prop}

/-! ## The property -/

/-- Live threads that are suspended inside `thread_handoff` on a CPU. -/
def handoffWaiters (s : Sched) (c : CpuId) : List ThreadId :=
  (List.range s.nextThread).filter fun t =>
    decide ((s.threads t).state ≠ .empty ∧ (s.threads t).state ≠ .dead ∧
      (s.threads t).handoffOn = some c)

def HandoffExact (s : Sched) : Prop :=
  ∀ c < s.cpuCount, (s.cpus c).handoffDepth = (s.handoffWaiters c).length

/-- No thread of a task that is killed is suspended inside `thread_handoff`. -/
def Op.SparesHandoff (s : Sched) : Op → Prop
  | .kill k => ∀ t < s.nextThread, (s.threads t).task = some k → (s.threads t).handoffOn = none
  | _ => True

instance (s : Sched) (op : Op) : Decidable (op.SparesHandoff s) :=
  match op with
  | .kill k => inferInstanceAs (Decidable (∀ t < s.nextThread, (s.threads t).task = some k →
      (s.threads t).handoffOn = none))
  | .create .. | .createOnCpu .. | .run _ | .yield _ | .tick _ | .block _ | .unblock _ | .sleep ..
  | .wakeSleepers _ | .handoff .. | .policyTask .. | .policyThread .. | .exit _ => .isTrue trivial

/-! ## The invariant -/

/-- One thread, or none, is suspended inside `thread_handoff` on a CPU, and the counter says so. -/
def HandoffCounted (s : Sched) (c : CpuId) : Prop :=
  ((s.cpus c).handoffDepth = 0 ∧ ∀ t, (s.threads t).handoffOn ≠ some c) ∨
    ((s.cpus c).handoffDepth = 1 ∧ ∃ t, ∀ u, (s.threads u).handoffOn = some c ↔ u = t)

/-- Threads suspended inside `thread_handoff` are counted. They are ready, and their tasks are not
being killed. -/
structure HandoffInv (s : Sched) : Prop where
  counted : ∀ c, HandoffCounted s c
  ready : ∀ t, (s.threads t).handoffOn ≠ none → (s.threads t).state = .ready
  alive : ∀ t k, (s.threads t).handoffOn ≠ none → (s.threads t).task = some k →
    (s.tasks k).killing = false

namespace HandoffInv

theorem same (h : HandoffInv s) (hs : HandoffSame s s') : HandoffInv s' := by
  have hback : ∀ t, (s'.threads t).handoffOn ≠ none → (s.threads t).handoffOn ≠ none :=
    fun t ht he => ht (hs.other t he)
  have hon : ∀ t c, (s'.threads t).handoffOn = some c ↔ (s.threads t).handoffOn = some c := by
    intro t c
    by_cases hnone : (s.threads t).handoffOn = none
    · rw [hnone, hs.other t hnone]
    · rw [(hs.waiting t hnone (h.ready t hnone)).1]
  refine ⟨fun c => ?_, fun t ht => ?_, fun t k ht hk => ?_⟩
  · unfold HandoffCounted
    simp only [hs.depth c, ne_eq, hon]
    exact h.counted c
  · exact (hs.waiting t (hback t ht) (h.ready t (hback t ht))).2.1
  · rw [(hs.waiting t (hback t ht) (h.ready t (hback t ht))).2.2] at hk
    rw [hs.killing]
    exact h.alive t k (hback t ht) hk

/-- A thread that is not ready is not suspended inside `thread_handoff`. -/
theorem none_of_ne (h : HandoffInv s) (ht : (s.threads t).state ≠ .ready) :
    (s.threads t).handoffOn = none := by
  by_contra hne
  exact ht (h.ready t hne)

/-- A thread is switched to, and the tail of its `thread_handoff` counts down. -/
theorem resume (h : HandoffInv s) (hthreads : ∀ u, u ≠ t → s'.threads u = s.threads u)
    (hnone : (s'.threads t).handoffOn = none) (htasks : s'.tasks = s.tasks)
    (hdepth : ∀ c, (s'.cpus c).handoffDepth =
      if (s.threads t).handoffOn = some c then (s.cpus c).handoffDepth - 1
      else (s.cpus c).handoffDepth) : HandoffInv s' := by
  have hne : ∀ u, (s'.threads u).handoffOn ≠ none → u ≠ t := by
    rintro u hu rfl
    exact hu hnone
  refine ⟨fun c => ?_, fun u hu => ?_, fun u k hu hk => ?_⟩
  · have hon : ∀ u, (s'.threads u).handoffOn = some c ↔ (s.threads u).handoffOn = some c ∧ u ≠ t := by
      intro u
      constructor
      · intro hu
        have hut := hne u (by rw [hu]; simp)
        exact ⟨hthreads u hut ▸ hu, hut⟩
      · rintro ⟨hu, hut⟩
        rw [hthreads u hut]
        exact hu
    unfold HandoffCounted
    rw [hdepth c]
    simp only [ne_eq, hon]
    split
    · rename_i ht
      rcases h.counted c with ⟨-, hno⟩ | ⟨hone, v, hv⟩
      · exact absurd ht (hno t)
      · refine .inl ⟨by omega, fun u hu => hu.2 ?_⟩
        exact ((hv u).mp hu.1).trans ((hv t).mp ht).symm
    · rename_i ht
      rcases h.counted c with ⟨hzero, hno⟩ | ⟨hone, v, hv⟩
      · exact .inl ⟨hzero, fun u hu => hno u hu.1⟩
      · refine .inr ⟨hone, v, fun u => ⟨fun hu => (hv u).mp hu.1, fun hu => ⟨(hv u).mpr hu, ?_⟩⟩⟩
        rintro rfl
        exact ht ((hv u).mpr hu)
  · have hu' := hthreads u (hne u hu)
    rw [hu'] at hu ⊢
    exact h.ready u hu
  · have hu' := hthreads u (hne u hu)
    rw [hu'] at hu hk
    rw [htasks]
    exact h.alive u k hu hk

/-- A ready thread is suspended inside `thread_handoff` on a CPU that counts none. -/
theorem suspend (h : HandoffInv s) (c : CpuId) (prev : ThreadId) (hzero : (s.cpus c).handoffDepth = 0)
    (hready : (s.threads prev).state = .ready) (hnone : (s.threads prev).handoffOn = none)
    (halive : ∀ k, (s.threads prev).task = some k → (s.tasks k).killing = false) :
    HandoffInv (s.suspended c prev) := by
  unfold suspended
  refine ⟨fun c' => ?_, fun u hu => ?_, fun u k hu hk => ?_⟩
  · by_cases hcc : c' = c
    · subst hcc
      refine .inr ⟨?_, prev, fun u => ?_⟩
      · rw [updCpu_cpus_self, hzero]
      · rw [updCpu_threads]
        by_cases hup : u = prev
        · rw [hup, updThread_threads_self]
          exact iff_of_true rfl rfl
        rw [updThread_threads_ne _ hup]
        refine iff_of_false (fun hu => ?_) hup
        rcases h.counted c' with ⟨-, hno⟩ | ⟨hone, -⟩
        · exact hno u hu
        · omega
    · have hon : ∀ u, ((s.updThread prev { s.threads prev with handoffOn := some c, saved := true }).threads
          u).handoffOn = some c' ↔ (s.threads u).handoffOn = some c' := by
        intro u
        refine updThread_cases (fun hup => ?_) fun _ => Iff.rfl
        rw [hup, hnone]
        exact iff_of_false (fun he => hcc (Option.some.inj he).symm) (by simp)
      unfold HandoffCounted
      rw [updCpu_cpus_ne _ hcc, updCpu_threads]
      simp only [ne_eq, hon]
      exact h.counted c'
  · exact updThread_cases (fun _ _ => hready) (fun _ => h.ready u) hu
  · exact updThread_cases (fun _ _ => halive k) (fun _ => h.alive u k) hu hk

/-- No thread of a task being killed is suspended inside `thread_handoff`. -/
theorem none_of_killing (h : HandoffInv s) (hk : (s.threads t).task = some k)
    (hkill : (s.tasks k).killing = true) : (s.threads t).handoffOn = none := by
  by_contra hne
  rw [h.alive t k hne hk] at hkill
  cases hkill

end HandoffInv

/-! ## Moves -/

theorem HandoffSame.addThread {thread} (hfresh : (s.threads s.nextThread).state = .empty)
    (hon : thread.handoffOn = none) : HandoffSame s (s.addThread k thread) := by
  have htask : HandoffSame s (s.updTask k { s.tasks k with
      threads := s.nextThread :: (s.tasks k).threads
      threadCount := (s.tasks k).threadCount + 1 }) := .updTask rfl
  refine ⟨fun _ => rfl, fun u hu => ?_, fun u _ hr => ?_, htask.killing⟩
  · by_cases hut : u = s.nextThread
    · rw [hut, addThread_threads_self]
      exact hon
    · exact (congrArg Thread.handoffOn (update_of_ne hut ..)).trans hu
  · have hut : u ≠ s.nextThread := by
      rintro rfl
      rw [hfresh] at hr
      cases hr
    have hsame : (s.addThread k thread).threads u = s.threads u := update_of_ne hut ..
    rw [hsame]
    exact ⟨rfl, hr, rfl⟩

theorem Move.handoffs (h : CoreInv s ∅ none) (hm : Move kept tidy True s s') (hi : HandoffInv s) :
    HandoffInv s' := by
  cases hm with
  | silent hq => exact hi.same hq.toHandoffSame
  | relink _ _ => exact ⟨hi.counted, hi.ready, hi.alive⟩
  | @leave c t thread cpu hc hcur ht hcpu =>
    have hrun := (h.current hc hcur).1
    refine hi.same ((HandoffSame.updThread ht.handoffOn fun _ hr => ?_).trans (.updCpu hcpu.depth))
    rw [hrun] at hr
    cases hr
  | requeue _ _ he _ hcpu => exact hi.same ((HandoffSame.enqueued he).trans (.updCpu hcpu.depth))
  | wake _ _ he _ => exact hi.same (.enqueued he)
  | create _ hon _ he _ =>
    exact hi.same ((HandoffSame.addThread (h.placed.fresh _ le_rfl) hon).trans (.enqueued he))
  | @run c src t runq thread _ ht hs =>
    have htaken : HandoffSame s ((s.setRunq src runq).updThread t thread) :=
      (HandoffSame.setRunq s src runq).trans (.updThread ht.handoffOn fun _ _ => ⟨ht.state, ht.task⟩)
    exact (hi.same htaken).resume hs.thread_ne hs.handoffOn hs.tasks hs.depth
  | @drop c t k runq thread hd hk hkill _ _ hon =>
    have hnone := hi.none_of_killing hk hkill
    exact hi.same ((HandoffSame.setRunq s c runq).trans (.updThread hon fun hne _ => absurd hnone hne))
  | @handoff c c' prev t s₁ _ hc hcur _ _ _ _ hzero halive he _ hs =>
    have hsame := HandoffSame.enqueued he
    have hprev := hi.none_of_ne (t := prev) (by simp [(h.current hc hcur).1])
    have hi₂ := (hi.same hsame).suspend c prev (by rw [hsame.depth, hzero]) he.state
      (hsame.other prev hprev) fun k hk => by rw [hsame.killing]; exact halive k (he.task ▸ hk)
    exact hi₂.resume hs.thread_ne hs.handoffOn hs.tasks hs.depth
  | mark k hspare =>
    refine ⟨hi.counted, hi.ready, fun t k' ht hk => ?_⟩
    show (update s.tasks k _ k').killing = false
    have hne : k' ≠ k := by
      rintro rfl
      exact ht (hspare trivial t hk)
    rw [update_of_ne hne]
    exact hi.alive t k' ht hk

theorem HandoffSame.setThreadPolicy (s : Sched) (p : SchedPolicy) (t : ThreadId) :
    HandoffSame s (s.setThreadPolicy p t) :=
  .updThread rfl fun _ hr => ⟨hr, rfl⟩

theorem HandoffSame.schedPolicySetTask (s : Sched) (k : TaskId) (p : SchedPolicy) :
    HandoffSame s (s.schedPolicySetTask k p) := by
  have hfold : ∀ (l : List ThreadId) (s : Sched),
      HandoffSame s (l.foldl (fun s t => s.setThreadPolicy p t) s) := by
    intro l
    induction l with
    | nil => exact refl
    | cons t l ih => exact fun s => (setThreadPolicy s p t).trans (ih _)
  refine HandoffSame.trans ?_ (hfold _ _)
  exact .updTask rfl

namespace HandoffInv

theorem exec {op : Op} (hi : HandoffInv s) (h : CoreInv s ∅ none)
    (hc : ∀ c, op.cpu? = some c → c < s.cpuCount) (hspare : op.SparesHandoff s)
    (hs : op.exec now s = some s') : HandoffInv s' := by
  have hkill : ∀ k, op = .kill k → ∀ t, (s.threads t).task = some k →
      (s.threads t).handoffOn = none := by
    rintro k rfl t hk
    by_cases hlt : t < s.nextThread
    · exact hspare t hlt hk
    · exact hi.none_of_ne (by simp [h.placed.fresh t (Nat.le_of_not_lt hlt)])
  have hcases : Moves False False True s s' ∨ _ :=
    exec_moves h hc False.elim False.elim False.elim (fun _ => hkill) hs
  rcases hcases with hm | ⟨k, p, rfl⟩ | ⟨t, p, rfl⟩
  · exact (Moves.keeps h hm hi fun _ _ => Move.handoffs).2
  · cases hs
    exact hi.same (.schedPolicySetTask _ _ _)
  · cases hs
    unfold schedPolicySetThread
    split
    · exact hi
    · exact hi.same (.setThreadPolicy _ _ _)

theorem exact (h : HandoffInv s) (hplaced : PlacedInv s) : HandoffExact s := by
  intro c _
  unfold handoffWaiters
  have hmem : ∀ t, (decide ((s.threads t).state ≠ .empty ∧ (s.threads t).state ≠ .dead ∧
      (s.threads t).handoffOn = some c) = true) ↔ (s.threads t).handoffOn = some c := by
    intro t
    rw [decide_eq_true_eq]
    refine ⟨fun ht => ht.2.2, fun ht => ?_⟩
    have hready := h.ready t (by simp [ht])
    exact ⟨by simp [hready], by simp [hready], ht⟩
  rcases h.counted c with ⟨hzero, hno⟩ | ⟨hone, t, ht⟩
  · rw [hzero, eq_comm, length_eq_zero_iff, filter_eq_nil_iff]
    intro u _ hu
    exact hno u ((hmem u).mp hu)
  · have hlt : t < s.nextThread := hplaced.lt (by simp [h.ready t (by simp [(ht t).mpr rfl])])
    have hperm : ((range s.nextThread).filter fun t => decide ((s.threads t).state ≠ .empty ∧
        (s.threads t).state ≠ .dead ∧ (s.threads t).handoffOn = some c)).Perm [t] := by
      refine (perm_ext_iff_of_nodup (nodup_range.filter _) (nodup_singleton t)).mpr ?_
      intro u
      rw [mem_filter, hmem, ht, mem_singleton, mem_range]
      exact ⟨fun hu => hu.2, fun hu => ⟨hu ▸ hlt, hu⟩⟩
    rw [hone, hperm.length_eq]
    rfl

end HandoffInv

/-! ## Runs -/

/-- Between operations: the scheduler's own invariant, and that of the handoff counters. -/
structure HandoffState (s : Sched) : Prop extends HandoffInv s where
  core : CoreInv s ∅ none

theorem HandoffState.step (h : HandoffState s) {a} (hspare : a.2.SparesHandoff s)
    (hs : s.step a = some s') : HandoffState s' := by
  unfold Sched.step at hs
  split at hs
  swap
  · cases hs
  rename_i hcpu
  have hc : ∀ c, a.2.cpu? = some c → c < s.cpuCount := fun c he => by simpa [he] using hcpu
  exact ⟨h.toHandoffInv.exec h.core hc hspare hs, h.core.exec hc hs⟩

theorem handoffState_init (h : Init s) : HandoffState s := by
  refine ⟨⟨fun c => .inl ⟨?_, fun t => ?_⟩, fun t ht => ?_, fun t k ht => ?_⟩, h.inv.core⟩
  · rw [h.cpus_eq]
  · simp [h.threads_eq]
  · simp [h.threads_eq] at ht
  · simp [h.threads_eq] at ht

/-- **Handoff bookkeeping.** In every run in which no task is killed while a thread of it is suspended
inside `thread_handoff`, the counters are exact. -/
theorem handoff_exact (hi : Init s) {as : List (U64 × Op)}
    (hr : Run (fun s a s' => a.2.SparesHandoff s ∧ s.step a = some s') s as s') : HandoffExact s' := by
  have h := hr.invariant (P := HandoffState) (fun _ _ _ h hs => h.step hs.1 hs.2) (handoffState_init hi)
  exact h.toHandoffInv.exact h.core.placed

/-- A thread of task 1 blocks, and one of task 2 hands it the CPU. -/
def handoffOnce : List (U64 × Op) :=
  [(1, .create 1 true), (1, .create 2 true), (1, .run 0), (2, .block 0), (2, .run 0), (3, .handoff 0 0)]

theorem handoff_exact_resumed :
    ∃ s₁ s₂, Run (fun s a s' => Op.SparesHandoff s a.2 ∧ s.step a = some s') boot handoffOnce s₁ ∧
      (s₁.cpus 0).handoffDepth = 1 ∧ HandoffExact s₁ ∧
      Run (fun s a s' => Op.SparesHandoff s a.2 ∧ s.step a = some s') s₁
        [(4, .block 0), (4, .run 0), (5, .kill 1)] s₂ ∧
      (s₂.cpus 0).current = some 1 ∧ (s₂.cpus 0).handoffDepth = 0 ∧ HandoffExact s₂ := by
  obtain ⟨s₁, hrun₁, hone, s₂, hs₂, hcur, hzero⟩ := Run.exists_of_exec_guard step boot handoffOnce
    (fun s₁ => (s₁.cpus 0).handoffDepth = 1 ∧
      ∃ s₂ ∈ Run.exec (fun s (a : U64 × Op) => if a.2.SparesHandoff s then s.step a else none) s₁
        [(4, .block 0), (4, .run 0), (5, .kill 1)],
        (s₂.cpus 0).current = some 1 ∧ (s₂.cpus 0).handoffDepth = 0)
    (fun s a => Op.SparesHandoff s a.2) (by decide +kernel)
  have hrun₂ := Run.of_exec_guard hs₂
  exact ⟨s₁, s₂, hrun₁, hone, handoff_exact boot_init hrun₁, hrun₂, hcur, hzero,
    handoff_exact boot_init (hrun₁.append hrun₂)⟩

/-- **A killed thread stays counted.** The thread that handed over the CPU is killed before it is
resumed. No thread is suspended any more, and the counter is still raised. -/
theorem handoff_not_exact :
    ∃ s', Run (fun s (a : U64 × Op) s' => s.step a = some s') boot (handoffOnce ++ [(4, .kill 2)]) s' ∧
      s'.handoffWaiters 0 = [] ∧ (s'.cpus 0).handoffDepth = 1 ∧ ¬ HandoffExact s' := by
  obtain ⟨s', hrun, hpos, hnone, hone⟩ := Run.exists_of_exec step boot (handoffOnce ++ [(4, .kill 2)])
    (fun s' => 0 < s'.cpuCount ∧ s'.handoffWaiters 0 = [] ∧ (s'.cpus 0).handoffDepth = 1)
    (by decide +kernel)
  refine ⟨s', hrun, hnone, hone, fun h => ?_⟩
  have hdepth := h 0 hpos
  rw [hnone, hone] at hdepth
  cases hdepth

end Bunix.Kernel.Sched
