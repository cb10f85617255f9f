import Bunix.Kernel.SchedPolicy
import Bunix.Kernel.SchedSwitchRun

/-! # CPU affinity

A thread is only queued on and switched to on CPUs that its affinity mask names: `sched_enqueue_on`
and `sched_idle_pull` look at the mask. `sched_policy_set` does not move a thread that is queued on a
CPU its new mask leaves out, and `thread_handoff` does not look at the mask at all.
-/
namespace Bunix.Kernel.Sched

open Bunix.Lib Option

variable {s s' : Sched} {c c' : CpuId} {t u prev : ThreadId} {k : TaskId} {now : U64} {p : SchedPolicy}
  {tidy spared : Prop} {free : CpuId → ThreadId → Prop}

/-! ## The property -/

/-- The threads whose mask an operation sets. -/
def Op.retargets (s : Sched) : Op → List ThreadId
  | .policyTask k _ => (s.tasks k).threads
  | .policyThread t _ => if (s.threads t).state = .dead then [] else [t]
  | _ => []

/-- `sched_policy_state_allowed` has accepted the mask. -/
def Op.Permitted (s : Sched) : Op → Prop
  | .policyTask _ p | .policyThread _ p => s.schedPolicyValidCpuMask p.cpuMask = true
  | _ => True

instance (s : Sched) (op : Op) : Decidable (op.Permitted s) :=
  match op with
  | .policyTask _ p | .policyThread _ p =>
    inferInstanceAs (Decidable (s.schedPolicyValidCpuMask p.cpuMask = true))
  | .create .. | .createOnCpu .. | .run _ | .yield _ | .tick _ | .block _ | .unblock _ | .sleep ..
  | .wakeSleepers _ | .handoff .. | .kill _ | .exit _ => .isTrue trivial

/-- The scheduler, and for each CPU whether the mask of its current thread has been changed since
the CPU switched to it. -/
structure AffinityState where
  sched : Sched
  changed : CpuId → Bool := fun _ => false

def AffinityState.step (s : AffinityState) (a : U64 × Op) : Option AffinityState :=
  if a.2.Permitted s.sched then
    (s.sched.step a).map fun sched =>
      { sched
        changed := fun c =>
          decide ((sched.cpus c).current = (s.sched.cpus c).current) && (s.changed c ||
              (s.sched.cpus c).current.any fun t => decide (t ∈ a.2.retargets s.sched)) }
  else none

/-- Each thread is queued and runs where its mask allows, but for a thread that was running when its
mask was changed. -/
structure AffinityRespected (s : AffinityState) : Prop where
  queued : ∀ c < s.sched.cpuCount, ∀ t ∈ s.sched.queue c,
    (s.sched.threads t).affinityMask.getLsbD c = true
  running : ∀ c < s.sched.cpuCount, ∀ t, (s.sched.cpus c).current = some t → s.changed c = false →
    (s.sched.threads t).affinityMask.getLsbD c = true

/-- No mask is changed so that it leaves out the CPU its thread is queued on, and no thread is handed
the CPU it blocked on after its mask has been changed to leave that CPU out. -/
def Op.KeepsAffinity (s : Sched) : Op → Prop
  | .policyTask k p => ∀ t ∈ (s.tasks k).threads, (s.threads t).state = .ready →
      p.cpuMask.getLsbD (s.threads t).cpuId = true
  | .policyThread t p => (s.threads t).state = .ready → p.cpuMask.getLsbD (s.threads t).cpuId = true
  | .handoff c t => (s.threads t).state = .blocked → (s.threads t).cpuId = c →
      (s.threads t).affinityMask.getLsbD c = true
  | _ => True

instance (s : Sched) (op : Op) : Decidable (op.KeepsAffinity s) :=
  match op with
  | .policyTask k p => inferInstanceAs (Decidable (∀ t ∈ (s.tasks k).threads,
      (s.threads t).state = .ready → p.cpuMask.getLsbD (s.threads t).cpuId = true))
  | .policyThread t p => inferInstanceAs (Decidable ((s.threads t).state = .ready →
      p.cpuMask.getLsbD (s.threads t).cpuId = true))
  | .handoff c t => inferInstanceAs (Decidable ((s.threads t).state = .blocked →
      (s.threads t).cpuId = c → (s.threads t).affinityMask.getLsbD c = true))
  | .create .. | .createOnCpu .. | .run _ | .yield _ | .tick _ | .block _ | .unblock _ | .sleep ..
  | .wakeSleepers _ | .kill _ | .exit _ => .isTrue trivial

open PolicySystem in
/-- `sched_policy_set` is one of the two permitted operations, with the values asked for. -/
theorem schedPolicySet_permitted {s s' : PolicySystem} {owner : TaskId} {handle : Nat}
    {requested : SchedPolicyState} (h : s.schedPolicySet owner handle requested = (true, s')) :
    ∃ c i, SchedClass.ofU64 requested.schedClass = some c ∧
      ∃ op ∈ [Op.policyTask i (policyOf requested c), .policyThread i (policyOf requested c)],
        op.Permitted s.sched ∧ ∀ now, op.exec now s.sched = some s'.sched := by
  unfold schedPolicySet at h
  split at h
  · cases h
  rename_i authority _
  obtain ⟨kind, id, htarget⟩ : ∃ kind id, defaultTarget (s.caps authority) requested =
      { requested with targetKind := kind, targetId := id } := by
    unfold defaultTarget
    split <;> exact ⟨_, _, rfl⟩
  rw [htarget] at h
  split at h
  · cases h
  rename_i hallowed
  rw [not_or, Bool.not_eq_false] at hallowed
  split at h
  · cases h
  rename_i sched happly
  cases h
  obtain ⟨cls, hcls, happly⟩ := bind_eq_some_iff.mp happly
  have hvalid : s.sched.schedPolicyValidCpuMask requested.cpuMask = true := by
    have hstate := hallowed.2
    unfold schedPolicyStateAllowed at hstate
    split at hstate
    · cases hstate
    split at hstate
    · cases hstate
    split at hstate
    · cases hstate
    rename_i hcond
    simp only [not_or, Bool.not_eq_false] at hcond
    exact hcond.2.2.2.2.2.1
  unfold applyPolicy at happly
  split at happly
  · obtain ⟨k, _, rfl⟩ := map_eq_some_iff.mp happly
    exact ⟨cls, k, hcls, _, .head _, hvalid, fun _ => rfl⟩
  split at happly
  · obtain ⟨t, _, rfl⟩ := map_eq_some_iff.mp happly
    exact ⟨cls, t, hcls, _, .tail _ (.head _), hvalid, fun _ => rfl⟩
  · cases happly

open PolicySystem in
theorem schedPolicySet_permitted_oneTask : ∃ op : Op, op.Permitted oneTask.sched ∧
    op.exec 0 oneTask.sched = some (oneTask.schedPolicySet 1 1 ⟨1, 20, 4, 15, 150, 1⟩).2.sched := by
  obtain ⟨_, _, _, op, _, hop, hexec⟩ := schedPolicySet_permitted (Prod.ext (by decide +kernel) rfl :
    oneTask.schedPolicySet 1 1 ⟨1, 20, 4, 15, 150, 1⟩ = (true, _))
  exact ⟨op, hop, hexec 0⟩

/-! ## The invariant -/

/-- Masks are valid, ready threads are placed where they may run, and so are current ones, but for
those that `free` excuses. -/
structure MaskInv (s : Sched) (free : CpuId → ThreadId → Prop) : Prop where
  valid : ∀ t, (s.threads t).state ≠ .empty → (s.threads t).state ≠ .dead →
    s.schedPolicyValidCpuMask (s.threads t).affinityMask = true
  ready : ∀ t, (s.threads t).state = .ready →
    (s.threads t).affinityMask.getLsbD (s.threads t).cpuId = true
  current : ∀ c < s.cpuCount, ∀ t, (s.cpus c).current = some t →
    (s.threads t).affinityMask.getLsbD c = true ∨ free c t

namespace MaskInv

/-- States and places stay. A mask may become another valid one, if its thread is not queued on a
CPU that it leaves out. -/
theorem still (h : MaskInv s free) (hrun : RunningInv s none) (hs : Still s s')
    (hmask : ∀ t, (s.threads t).state ≠ .dead →
      (s'.threads t).affinityMask = (s.threads t).affinityMask ∨
      s.schedPolicyValidCpuMask (s'.threads t).affinityMask = true ∧ ((s.threads t).state = .ready →
        (s'.threads t).affinityMask.getLsbD (s.threads t).cpuId = true) ∧
      ∀ c < s.cpuCount, (s.cpus c).current = some t → free c t) : MaskInv s' free := by
  refine ⟨fun t he hd => ?_, fun t ht => ?_, fun c hc t ht => ?_⟩
  · have ha := hs.alike_of_used he
    rw [ha.state] at he hd
    rw [validCpuMask_congr hs.cpuCount]
    rcases hmask t hd with hm | ⟨hm, _⟩
    · rw [hm]
      exact h.valid t he hd
    · exact hm
  · have ha := hs.alike_of_used (t := t) (by simp [ht])
    rw [ha.state] at ht
    rw [ha.cpuId]
    rcases hmask t (by simp [ht]) with hm | ⟨_, hm, _⟩
    · rw [hm]
      exact h.ready t ht
    · exact hm ht
  · rw [(hs.cpu c).current] at ht
    rw [hs.cpuCount] at hc
    rcases hmask t (by simp [(hrun c hc (by simp) t ht).1]) with hm | ⟨_, _, hm⟩
    · rw [hm]
      exact h.current c hc t ht
    · exact .inr (hm c hc ht)

section
variable (h : MaskInv s free) (hcount : s'.cpuCount = s.cpuCount)
  (hne : ∀ u, u ≠ t → s'.threads u = s.threads u)
include h hcount hne

theorem change (hvalid : (s'.threads t).state ≠ .empty → (s'.threads t).state ≠ .dead →
      s.schedPolicyValidCpuMask (s'.threads t).affinityMask = true)
    (hready : (s'.threads t).state = .ready →
      (s'.threads t).affinityMask.getLsbD (s'.threads t).cpuId = true)
    (hcur : ∀ c < s.cpuCount, ∀ u, (s'.cpus c).current = some u →
      (s.cpus c).current = some u ∧ (s'.threads u).affinityMask = (s.threads u).affinityMask ∨
        (s'.threads u).affinityMask.getLsbD c = true) : MaskInv s' free := by
  refine ⟨fun u he hd => ?_, fun u hu => ?_, fun c hc u hu => ?_⟩
  · rw [validCpuMask_congr hcount]
    by_cases hut : u = t
    · subst hut
      exact hvalid he hd
    · rw [hne u hut] at he hd ⊢
      exact h.valid u he hd
  · by_cases hut : u = t
    · subst hut
      exact hready hu
    · rw [hne u hut] at hu ⊢
      exact h.ready u hu
  · rw [hcount] at hc
    rcases hcur c hc u hu with ⟨hu, hm⟩ | hbit
    · rw [hm]
      exact h.current c hc u hu
    · exact .inl hbit

theorem moved (hmask : (s'.threads t).affinityMask = (s.threads t).affinityMask)
    (hlive : (s.threads t).state ≠ .empty ∧ (s.threads t).state ≠ .dead)
    (hready : (s'.threads t).state = .ready →
      (s.threads t).affinityMask.getLsbD (s'.threads t).cpuId = true)
    (hcur : ∀ c < s.cpuCount, ∀ u, (s'.cpus c).current = some u →
      (s.cpus c).current = some u ∨ (s.threads u).affinityMask.getLsbD c = true) : MaskInv s' free := by
  have hsame : ∀ u, (s'.threads u).affinityMask = (s.threads u).affinityMask := by
    intro u
    by_cases hut : u = t
    · rw [hut, hmask]
    · rw [hne u hut]
  refine h.change hcount hne (fun _ _ => ?_) (fun hr => ?_) fun c hc u hu => ?_
  · rw [hmask]
    exact h.valid t hlive.1 hlive.2
  · rw [hmask]
    exact hready hr
  · rw [hsame]
    exact (hcur c hc u hu).imp_left fun hu => ⟨hu, rfl⟩

end

theorem enqueued (h : MaskInv s free) (he : Enqueued s t c' s')
    (hlive : (s.threads t).state ≠ .empty ∧ (s.threads t).state ≠ .dead)
    (hbit : s.schedPolicyValidCpuMask (s.threads t).affinityMask = true →
      (s.threads t).affinityMask.getLsbD c' = true) : MaskInv s' free := by
  refine h.moved he.cpuCount he.thread_ne he.affinityMask hlive (fun _ => ?_)
    fun d _ u hu => .inl (he.current d ▸ hu)
  rw [he.cpuId]
  exact hbit (h.valid t hlive.1 hlive.2)

theorem vacated {cpu} (h : MaskInv s free) (hv : Vacated (s.cpus c) cpu) :
    MaskInv (s.updCpu c cpu) free := by
  refine ⟨h.valid, h.ready, fun d hd u hu => h.current d hd u ?_⟩
  exact updCpu_cases (fun _ hu => by rw [hv.current] at hu; cases hu) (fun _ hu => hu) hu

theorem started (h : MaskInv s free) (hs : Started s c t s')
    (hlive : (s.threads t).state ≠ .empty ∧ (s.threads t).state ≠ .dead)
    (hbit : (s.threads t).affinityMask.getLsbD c = true) : MaskInv s' free := by
  refine h.moved hs.cpuCount hs.thread_ne hs.affinityMask hlive (fun hr => ?_) fun d _ u hu => ?_
  · simp [hs.state] at hr
  · rw [hs.current] at hu
    split at hu
    · rename_i hdc
      cases hu
      exact .inr (hdc ▸ hbit)
    · exact .inl hu

end MaskInv

/-- **One move.** A thread is only queued and started where it may run. -/
theorem Move.masks (h : CoreInv s ∅ none) (hm : Move True tidy spared s s') (hi : MaskInv s free) :
    MaskInv s' free := by
  cases hm with
  | silent hq => exact hi.still h.running hq.toStill fun t ht => .inl (hq.mask t ht)
  | relink _ _ | mark k _ => exact ⟨hi.valid, hi.ready, hi.current⟩
  | @leave c t thread cpu hc hcur ht hcpu =>
    have hrun := (h.current hc hcur).1
    have hi₁ : MaskInv (s.updThread t thread) free := by
      refine hi.moved rfl (fun _ => updThread_threads_ne _) ?_ (by simp [hrun]) (fun hr => ?_)
        fun _ _ _ => .inl
      · simp [ht.affinityMask]
      · rcases ht.state with hs | hs <;> simp [hs] at hr
    exact hi₁.vacated hcpu
  | requeue hc hcur he hbit hcpu =>
    exact (hi.enqueued he (by simp [(h.current hc hcur).1]) hbit).vacated hcpu
  | wake hb _ he hbit => exact hi.enqueued he (by simp [hb]) hbit
  | @create c' k thread _ _ _ hnew he hbit =>
    have hmask := he.affinityMask
    rw [addThread_threads_self] at hmask
    have hne : ∀ u, u ≠ s.nextThread → s'.threads u = s.threads u := fun u hu =>
      (he.thread_ne u hu).trans (Function.update_of_ne hu ..)
    refine hi.change he.cpuCount hne (fun _ _ => ?_) (fun _ => ?_) fun d hd u hu => .inl ?_
    · rwa [hmask]
    · rwa [hmask, he.cpuId]
    · rw [he.current] at hu
      exact ⟨hu, congrArg Thread.affinityMask (hne u (h.current hd hu).2.2.1.ne)⟩
  | @run c src t runq thread _ ht hs =>
    obtain ⟨_, hready, hon⟩ := h.queues.queued src ht.lt t ht.mem
    have hbit : (s.threads t).affinityMask.getLsbD c = true := by
      rcases ht.own with rfl | ⟨_, _, hpull⟩
      · rw [← hon]
        exact hi.ready t hready
      · exact (Bool.and_eq_true_iff.mp hpull).2
    have hi₁ : MaskInv ((s.setRunq src runq).updThread t thread) free := by
      refine hi.moved rfl (fun _ => updThread_threads_ne _) ?_ (by simp [hready]) (fun _ => ?_)
        fun d _ u hu => .inl ?_
      · simp [ht.affinityMask]
      · simp [ht.cpuId, hbit]
      · rwa [updThread_cpus, setRunq_current] at hu
    exact hi₁.started hs (by simp [ht.state]) (by simp [ht.affinityMask, hbit])
  | @drop c t k runq thread hd _ _ hstate _ _ =>
    have hready := (h.queues.queued c hd.lt t hd.mem).2.1
    refine hi.change rfl (fun _ => updThread_threads_ne _) (fun _ hl => ?_)
      (fun hr => ?_) fun d hd' u hu => .inl ?_
    · simp [hstate] at hl
    · simp [hstate] at hr
    · rw [updThread_cpus, setRunq_current] at hu
      refine ⟨hu, congrArg Thread.affinityMask (updThread_threads_ne _ ?_)⟩
      rintro rfl
      simp [(h.current hd' hu).1] at hready
  | @handoff c c' prev t s₁ _ hc hcur hb hcpu _ hmay _ _ he hbit hs =>
    have hrun := (h.current hc hcur).1
    have hi₁ : MaskInv s₁ free := hi.enqueued he (by simp [hrun]) hbit
    have hself : (s₁.suspended c prev).threads prev =
        { s₁.threads prev with handoffOn := some c, saved := true } := updThread_threads_self _
    have hcurrent : ∀ d, ((s₁.suspended c prev).cpus d).current = (s₁.cpus d).current := by
      intro d
      exact updCpu_cases (fun hd => by rw [hd]) fun _ => rfl
    have hi₂ : MaskInv (s₁.suspended c prev) free := by
      refine hi₁.moved rfl (fun _ => updThread_threads_ne _) ?_ (by simp [he.state])
        (fun _ => ?_) fun d _ u hu => .inl (hcurrent d ▸ hu)
      · rw [hself]
      · rw [hself]
        exact hi₁.ready prev he.state
    have htp : t ≠ prev := by
      rintro rfl
      rw [hrun] at hb
      cases hb
    have ht : (s₁.suspended c prev).threads t = s.threads t :=
      (updThread_threads_ne _ htp).trans (he.thread_ne t htp)
    exact hi₂.started hs (by simp [ht, hb]) (ht ▸ hmay trivial)

namespace MaskInv

theorem policy {l : List ThreadId} (h : MaskInv s free) (hrun : RunningInv s none) (hs : Still s s')
    (hthreads : ∀ u, s'.threads u = s.threads u ∨ u ∈ l ∧ s'.threads u = (s.threads u).withPolicy p)
    (hvalid : s.schedPolicyValidCpuMask p.cpuMask = true)
    (hready : ∀ t ∈ l, (s.threads t).state = .ready → p.cpuMask.getLsbD (s.threads t).cpuId = true)
    (hfree : ∀ c < s.cpuCount, ∀ t ∈ l, (s.cpus c).current = some t → free c t) : MaskInv s' free := by
  refine h.still hrun hs fun u _ => ?_
  rcases hthreads u with hu | ⟨hmem, hu⟩
  · rw [hu]
    exact .inl rfl
  · rw [hu]
    exact .inr ⟨hvalid, hready u hmem, fun c hc => hfree c hc u hmem⟩

/-- **One step.** An operation that keeps affinity switches to threads only where they may run. -/
theorem exec {op : Op} (hi : MaskInv s free) (h : CoreInv s ∅ none)
    (hc : ∀ c, op.cpu? = some c → c < s.cpuCount) (hperm : op.Permitted s) (hkeep : op.KeepsAffinity s)
    (hfree : ∀ c < s.cpuCount, ∀ t ∈ op.retargets s, (s.cpus c).current = some t → free c t)
    (hs : op.exec now s = some s') : MaskInv s' free := by
  have hmay : ∀ c t, op = .handoff c t → (s.threads t).state = .blocked → (s.threads t).cpuId = c →
      (s.threads t).affinityMask.getLsbD c = true := by
    rintro c t rfl
    exact hkeep
  have hcases : Moves True False False s s' ∨ _ :=
    exec_moves h hc False.elim False.elim (fun _ => hmay) False.elim hs
  rcases hcases with hm | ⟨k, p, rfl⟩ | ⟨t, p, rfl⟩
  · exact (Moves.keeps h hm hi fun _ _ => Move.masks).2
  · cases hs
    refine hi.policy h.running (schedPolicySetTask_still s k p) (fun u => ?_) hperm hkeep hfree
    exact (foldl_setThreadPolicy (s.tasks k).threads _).1 u
  · cases hs
    unfold schedPolicySetThread
    split
    · exact hi
    rename_i hlive
    have hself : t ∈ Op.retargets s (.policyThread t p) := by simp [Op.retargets, hlive]
    refine hi.policy (l := [t]) h.running (setThreadPolicy_still s p t) (fun u => ?_) hperm ?_ ?_
    · exact setThreadPolicy_threads.imp_right fun hu => ⟨List.mem_singleton.mpr hu.1, hu.2⟩
    · intro u hu
      obtain rfl := List.mem_singleton.mp hu
      exact hkeep
    · intro d hd u hu
      obtain rfl := List.mem_singleton.mp hu
      exact hfree d hd u hself

theorem excuse {changed : CpuId → Bool} (h : MaskInv s (fun c _ => changed c = true))
    (l : List ThreadId) : MaskInv s (fun c t => (s.cpus c).current = some t ∧
      (changed c = true ∨ t ∈ l)) := by
  refine ⟨h.valid, h.ready, fun c hc t ht => ?_⟩
  exact (h.current c hc t ht).imp_right fun hch => ⟨ht, .inl hch⟩

end MaskInv

/-! ## Runs -/

namespace AffinityState

structure Inv (s : AffinityState) : Prop where
  core : CoreInv s.sched ∅ none
  masks : MaskInv s.sched (fun c _ => s.changed c = true)

theorem Inv.step {s s' : AffinityState} {a : U64 × Op} (h : s.Inv) (hkeep : a.2.KeepsAffinity s.sched)
    (hs : s.step a = some s') : s'.Inv := by
  unfold AffinityState.step at hs
  split at hs
  swap
  · cases hs
  rename_i hperm
  obtain ⟨sched, hsched, rfl⟩ := map_eq_some_iff.mp hs
  unfold Sched.step at hsched
  split at hsched
  swap
  · cases hsched
  rename_i hcpu
  have hc : ∀ c, a.2.cpu? = some c → c < s.sched.cpuCount := fun c he => by simpa [he] using hcpu
  have h' := (h.masks.excuse (a.2.retargets s.sched)).exec h.core hc hperm hkeep
    (fun c _ t ht hcur => ⟨hcur, .inr ht⟩) hsched
  refine ⟨h.core.exec hc hsched, h'.valid, h'.ready, fun c hc t ht => ?_⟩
  refine (h'.current c hc t ht).imp_right fun ⟨hcur, hwhy⟩ => ?_
  have ht : (sched.cpus c).current = some t := ht
  simp only [ht, hcur, decide_true, Bool.true_and, any_some, Bool.or_eq_true, decide_eq_true_eq]
  exact hwhy

theorem Inv.respected {s : AffinityState} (h : s.Inv) : AffinityRespected s := by
  refine ⟨fun c hc t ht => ?_, fun c hc t ht hch => ?_⟩
  · obtain ⟨_, hready, hon⟩ := h.core.queues.queued c hc t ht
    exact hon ▸ h.masks.ready t hready
  · rcases h.masks.current c hc t ht with hbit | hch'
    · exact hbit
    · rw [hch] at hch'
      cases hch'

theorem inv_init {s : Sched} (h : Init s) : Inv { sched := s } := by
  refine ⟨h.inv.core, fun t he => ?_, fun t ht => ?_, fun c _ t ht => ?_⟩
  · simp [h.threads_eq] at he
  · simp [h.threads_eq] at ht
  · simp [h.cpus_eq] at ht

end AffinityState

/-- **Threads stay on the CPUs of their masks**, in every run that never changes the mask of a thread
against the queue it is in and never hands a CPU to a thread whose mask was changed against it. -/
theorem affinity_respected {s : Sched} {s' : AffinityState} (hi : Init s) {as : List (U64 × Op)}
    (hr : Run (fun s a s' => a.2.KeepsAffinity s.sched ∧ s.step a = some s') { sched := s } as s') :
    AffinityRespected s' := by
  refine AffinityState.Inv.respected ?_
  exact hr.invariant (P := AffinityState.Inv) (fun _ _ _ h hs => h.step hs.1 hs.2)
    (AffinityState.inv_init hi)

def secondCpuOnly : SchedPolicy := ⟨.user, 0, 1024, 2⟩

/-- Two threads of task 2 on the first CPU; the first one runs. -/
def twoOnFirst : List (U64 × Op) :=
  [(1, .createOnCpu 2 0 true), (1, .createOnCpu 2 0 true), (1, .run 0)]

theorem affinity_respected_yield :
    ∃ s', Run (fun s a s' => Op.KeepsAffinity s.sched a.2 ∧ s.step a = some s') { sched := bootTwo }
        (twoOnFirst ++ [(2, .policyThread 0 secondCpuOnly), (3, .yield 0)]) s' ∧
      s'.sched.queue 1 = [0] ∧ AffinityRespected s' := by
  obtain ⟨s', hrun, hp⟩ := Run.exists_of_exec_guard AffinityState.step { sched := bootTwo }
    (twoOnFirst ++ [(2, .policyThread 0 secondCpuOnly), (3, .yield 0)]) (fun s' => s'.sched.queue 1 = [0])
    (fun s a => Op.KeepsAffinity s.sched a.2) (by decide +kernel)
  exact ⟨s', hrun, hp, affinity_respected bootTwo_init hrun⟩

/-- **A thread runs where its new mask forbids it.** The mask of the second thread is changed while
it is queued on the first CPU, which then switches to it; and the first thread blocks there, gets a
new mask, and is handed the CPU. -/
theorem affinity_violated :
    (∃ as s', Run (fun s (a : U64 × Op) s' => s.step a = some s') { sched := bootTwo } as s' ∧
      (s'.sched.cpus 0).current = some 1 ∧ ¬ AffinityRespected s') ∧
    ∃ as s', Run (fun s (a : U64 × Op) s' => s.step a = some s') { sched := bootTwo } as s' ∧
      (s'.sched.cpus 0).current = some 0 ∧ ¬ AffinityRespected s' := by
  have violated : ∀ (as : List (U64 × Op)) (t : ThreadId),
      ((Run.exec AffinityState.step { sched := bootTwo } as).any fun s' =>
        decide (0 < s'.sched.cpuCount ∧ (s'.sched.cpus 0).current = some t ∧ s'.changed 0 = false ∧
          (s'.sched.threads t).affinityMask.getLsbD 0 = false)) = true →
      ∃ as s', Run (fun s (a : U64 × Op) s' => s.step a = some s') { sched := bootTwo } as s' ∧
        (s'.sched.cpus 0).current = some t ∧ ¬ AffinityRespected s' := by
    intro as t hexec
    obtain ⟨s', hrun, hpos, hcur, hch, hbit⟩ := Run.exists_of_exec _ _ _ _ hexec
    refine ⟨as, s', hrun, hcur, fun h => ?_⟩
    rw [h.running 0 hpos t hcur hch] at hbit
    cases hbit
  constructor
  · refine violated (twoOnFirst ++ [(2, .policyThread 1 secondCpuOnly), (3, .block 0), (3, .run 0)]) 1 ?_
    decide +kernel
  · refine violated (twoOnFirst ++ [(2, .block 0), (2, .run 0), (3, .policyThread 0 secondCpuOnly),
      (3, .handoff 0 0)]) 0 ?_
    decide +kernel

end Bunix.Kernel.Sched
