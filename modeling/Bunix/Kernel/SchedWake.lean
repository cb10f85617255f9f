import Bunix.Kernel.SchedOps

/-! # The sleep list

Sleeping, waking and killing walk along the sleep list. The walks end, and the list goes on holding
exactly the sleeping threads; the other operations do not touch it.
-/
namespace Bunix.Kernel.Sched

open Bunix.Lib List

variable {s s' : Sched} {c c' : CpuId} {t u prev : ThreadId} {k : TaskId} {now : U64}
  {out : List ThreadId} {kept spared : Prop} {fuel : Nat} {st : ThreadState}

/-! ## Operations that do not walk -/

theorem Move.sleeping (h : CoreInv s ∅ none) (hm : Move kept True spared s s') (hs : SleepInv s out) :
    SleepInv s' out := by
  cases hm with
  | silent hq => exact hs.still hq.toStill
  | relink _ hn => exact absurd trivial hn
  | @leave c t thread cpu hc hcur ht hcpu =>
    have hawake := hs.awake (t := t) (by simp [(h.current hc hcur).1])
    refine hs.touches rfl (fun _ => updThread_threads_ne _) hawake ?_
    rw [updCpu_threads, updThread_threads_self, ht.asleep trivial, hawake]
  | requeue hc hcur he _ hcpu =>
    exact hs.touches he.sleepList he.thread_ne (hs.awake (by simp [(h.current hc hcur).1])) he.awake
  | wake hb hawake he _ => exact hs.touches he.sleepList he.thread_ne (hawake trivial) he.awake
  | create hstate hon hvalid he hbit =>
    refine hs.touches he.sleepList (fun u hu => ?_) (hs.awake ?_) he.awake
    · exact (he.thread_ne u hu).trans (Function.update_of_ne hu ..)
    · simp [h.placed.fresh _ le_rfl]
  | @run c src t runq thread s' ht hstart =>
    have hawake := hs.awake (t := t) (by simp [(h.queues.queued src ht.lt t ht.mem).2.1])
    refine hs.touches hstart.sleepList (fun u hu => ?_) hawake (hstart.asleep ?_)
    · exact (hstart.thread_ne u hu).trans (updThread_threads_ne _ hu)
    · rw [updThread_threads_self, ht.asleep, hawake]
  | @drop c t k runq thread hd _ _ _ hasleep _ =>
    have hawake := hs.awake (t := t) (by simp [(h.queues.queued c hd.lt t hd.mem).2.1])
    refine hs.touches rfl (fun _ => updThread_threads_ne _) hawake ?_
    rw [updThread_threads_self, hasleep, hawake]
  | @handoff c c' prev t s₁ s' hc hcur hb _ hawake _ _ _ he _ hstart =>
    have hprev := hs.awake (t := prev) (by simp [(h.current hc hcur).1])
    have hs₁ := hs.touches he.sleepList he.thread_ne hprev he.awake
    have hs₂ : SleepInv (s₁.suspended c prev) out := by
      refine hs₁.touches rfl (fun _ => updThread_threads_ne _) he.awake ?_
      exact (congrArg Thread.asleep (updThread_threads_self _)).trans he.awake
    have htp : t ≠ prev := by
      rintro rfl
      rw [(h.current hc hcur).1] at hb
      cases hb
    have ht : ((s₁.suspended c prev).threads t).asleep = false := by
      rw [show (s₁.suspended c prev).threads t = s₁.threads t from updThread_threads_ne _ htp,
        he.thread_ne t htp, hawake trivial]
    exact hs₂.touches hstart.sleepList hstart.thread_ne ht (hstart.asleep ht)
  | mark k _ => exact hs

theorem Moves.sleeping (h : CoreInv s ∅ none) (hm : Moves kept True spared s s')
    (hs : SleepInv s out) : SleepInv s' out :=
  (Moves.keeps h hm hs fun _ _ => Move.sleeping).2

/-! ## Going to sleep -/

/-- The threads on the sleep list exist, so a walk along it takes at most `nextThread` rounds. -/
theorem SleepInv.length_le (h : PlacedInv s) {xs : List ThreadId} (hn : xs.Nodup)
    (hb : ∀ t ∈ xs, (s.threads t).state = .blocked) : xs.length ≤ s.nextThread := by
  have hsub : xs ⊆ range s.nextThread := fun t ht =>
    mem_range.mpr (h.lt (by simp [hb t ht]))
  simpa using (hn.subperm hsub).length_le

/-- The sorted insertion of `thread_sleep_ticks` ends, and puts the thread on the list. -/
theorem SleepInv.insert (h : SleepInv s [t]) (hp : PlacedInv s) (p : ThreadId → Bool) :
    ∃ link, s.sleepList.seek p s.nextThread none = some link ∧
      SleepInv { s with sleepList := s.sleepList.insertAt link t } [] := by
  obtain ⟨xs, hr, hn, hm, hb⟩ := h
  obtain ⟨hnx, _, hd⟩ := nodup_append.mp hn
  have hlen := SleepInv.length_le hp hnx fun u hu => hb u ((hm u).mp (by simp [hu]))
  obtain ⟨ys, zs, rfl, _, _, hs⟩ := hr.seek p hlen
  refine ⟨_, hs, ys ++ t :: zs, ?_, ?_, fun u => ?_, hb⟩
  · have hnot : t ∉ ys ++ zs := fun hmem => hd t hmem t (by simp) rfl
    simpa using hr.insertAt hnx hnot
  · have hperm : (ys ++ zs ++ [t]).Perm (ys ++ t :: zs) := by
      simpa using Perm.append_left ys (perm_append_singleton t zs)
    simpa using (hperm.nodup_iff).mp hn
  · rw [← hm]
    simp only [append_nil, mem_append, mem_cons, not_mem_nil, or_false]
    tauto

theorem SleepInv.sleepInsert (hs : SleepInv s []) (hp : PlacedInv s)
    (hrun : (s.threads t).state = .running) (hon : (s.threads t).cpuId < s.cpuCount)
    (wakeTick now : U64) : ∃ s', s.sleepInsert t wakeTick now = some s' ∧ SleepInv s' [] := by
  have ht : Touches s t (s.updThread t { s.threads t with
      wakeTick, blockedSinceTick := now, state := .blocked, asleep := true }) := .updThread _
  unfold Sched.sleepInsert
  have hsleep := hs.fallAsleep ht.sleepList ht.thread_ne (hs.awake (by simp [hrun])) (by simp) (by simp)
  have hplaced : PlacedInv _ := hp.touches ht (hp.lt (by simp [hrun])) fun _ => by
    rwa [updThread_threads_self]
  obtain ⟨link, hlink, hins⟩ := hsleep.insert hplaced _
  dsimp only
  rw [hlink]
  exact ⟨_, rfl, hins⟩

theorem SleepInv.switchToScheduler (hs : SleepInv s out) (c : CpuId) (t : ThreadId) :
    SleepInv (s.switchToScheduler c t) out := by
  have hsaved : ThreadAlike (s.threads t) { s.threads t with saved := true } :=
    ⟨rfl, rfl, rfl, fun _ => rfl⟩
  have hs₁ := hs.still (Still.updThread s t hsaved)
  refine SleepInv.still ?_ (schedReapPending_quiet _ c).toStill
  exact hs₁

theorem SleepInv.threadSleepTicks (hs : SleepInv s []) (h : CoreInv s ∅ none) (hc : c < s.cpuCount)
    (ticks : U64) : ∃ s', s.threadSleepTicks c ticks now = some s' ∧ SleepInv s' [] := by
  unfold Sched.threadSleepTicks
  split
  · have hm : Moves True True True s (s.threadYield c now) := .threadYield h hc
    exact ⟨_, rfl, Moves.sleeping h hm hs⟩
  split
  · exact ⟨_, rfl, hs⟩
  rename_i t hcur
  split
  · have hm : Moves True True True s (s.threadExit c t now) := .threadExit hc hcur
    exact ⟨_, rfl, Moves.sleeping h hm hs⟩
  have hq := (schedAccountRuntime_quiet s c true now).toStill
  have h₁ := h.still hq
  obtain ⟨hrun, hon, _⟩ := h₁.current (by simpa) (by simpa)
  obtain ⟨s', hs', h'⟩ := (hs.still hq).sleepInsert h₁.placed hrun (by simpa [hon]) (now + ticks) now
  rw [hs']
  exact ⟨_, rfl, h'.switchToScheduler c t⟩

/-! ## Waking the sleepers -/

theorem SleepInv.collectDue (hs : SleepInv s []) (hp : PlacedInv s) (upTo : U64) :
    ∃ sleepList ready due, s.collectDue upTo = some (sleepList, ready) ∧
      SleepInv { s with sleepList } due ∧ PtrList.Chain sleepList.next ready due ∧
      ∀ t, t ∈ due ↔ (s.threads t).asleep = true ∧ (s.threads t).wakeTick ≤ upTo := by
  obtain ⟨xs, hr, hn, hm, hb⟩ := hs
  simp only [append_nil] at hn hm
  have hlen := SleepInv.length_le hp hn fun u hu => hb u ((hm u).mp hu)
  let p : ThreadId → Bool := fun t => !decide (upTo < (s.threads t).wakeTick)
  obtain ⟨list, ready, hd, hr', hch⟩ := hr.drain p hn hlen
  have hperm : (xs.filter (fun a => !p a) ++ (xs.filter p).reverse).Perm xs := by
    refine perm_append_comm.trans ?_
    exact ((reverse_perm _).append_right _).trans (filter_append_perm p xs)
  refine ⟨list, ready, _, hd, ⟨_, hr', ?_, fun t => ?_, hb⟩, hch, fun t => ?_⟩
  · exact hperm.nodup_iff.mpr hn
  · exact hperm.mem_iff.trans (hm t)
  · simp only [mem_reverse, mem_filter, hm, p, Bool.not_eq_true', decide_eq_false_iff_not,
      BitVec.not_lt]

theorem SleepInv.unblock (hs : SleepInv s (t :: out)) (hp : PlacedInv s) (now : U64) :
    ∃ c', Enqueued s t c' (s.threadUnblock t now) ∧ SleepInv (s.threadUnblock t now) out ∧
      PlacedInv (s.threadUnblock t now) := by
  obtain ⟨xs, hr, hn, hm, hb⟩ := hs
  have hblocked := hb t ((hm t).mp (by simp))
  obtain ⟨c', he, _⟩ := threadUnblock_spec hblocked hp now
  refine ⟨c', he, SleepInv.touches_out ⟨xs, hr, hn, hm, hb⟩ he.sleepList he.thread_ne he.awake, ?_⟩
  refine hp.touches he.touches (hp.lt (by simp [hblocked])) fun hb' => ?_
  rw [he.state] at hb'
  cases hb'

theorem SleepInv.wakeCollected {ready due} (hs : SleepInv s due) (hp : PlacedInv s) (now : U64)
    (hch : PtrList.Chain s.sleepList.next ready due) (hf : due.length ≤ fuel) :
    ∃ s', wakeCollected now fuel s ready = some s' ∧ SleepInv s' [] ∧
      ∀ t, (s'.threads t).state = .ready ↔ t ∈ due ∨ (s.threads t).state = .ready := by
  induction due generalizing s fuel ready with
  | nil =>
    rw [show ready = none from hch]
    refine ⟨s, ?_, hs, by simp⟩
    unfold Sched.wakeCollected
    rfl
  | cons t due ih =>
    obtain ⟨rfl, hch⟩ := hch
    obtain ⟨fuel, rfl⟩ : ∃ n, fuel = n + 1 := ⟨fuel - 1, by simp at hf; omega⟩
    obtain ⟨xs, hr, hn, hm, hb⟩ := hs
    have hnd : (t :: (xs ++ due)).Nodup := (perm_middle.nodup_iff).mp hn
    have hnot := (nodup_cons.mp hnd).1
    -- the thread is taken off the chain and its tick is cleared
    have hnext : ∀ u ∈ xs ++ due, (s.sleepList.setNext t none).next u = s.sleepList.next u :=
      fun u hu => PtrList.setNext_next_of_ne fun he => hnot (he ▸ hu)
    have hs₁ : SleepInv { s with sleepList := s.sleepList.setNext t none } (t :: due) :=
      ⟨xs, PtrList.Chain.congr hr fun u hu => hnext u (by simp [hu]), hn, hm, hb⟩
    have hp₁ : PlacedInv { s with sleepList := s.sleepList.setNext t none } :=
      ⟨hp.cpuCount_pos, hp.blocked, hp.fresh⟩
    have halike : ThreadAlike (s.threads t) { s.threads t with wakeTick := 0 } :=
      ⟨rfl, rfl, rfl, fun _ => rfl⟩
    have hq := Still.updThread { s with sleepList := s.sleepList.setNext t none } t halike
    obtain ⟨c', he, hs₂, hp₂⟩ := (hs₁.still hq).unblock (hp₁.still hq) now
    have hch₁ : PtrList.Chain (s.sleepList.setNext t none).next (s.sleepList.next t) due :=
      hch.congr fun u hu => hnext u (by simp [hu])
    obtain ⟨s', hs', h', hready⟩ := ih hs₂ hp₂ (by rwa [he.sleepList]) (by simpa using hf)
    refine ⟨s', ?_, h', fun u => ?_⟩
    · unfold Sched.wakeCollected
      exact hs'
    · rw [hready]
      by_cases hut : u = t
      · subst hut
        exact ⟨fun _ => .inl (by simp), fun _ => .inr he.state⟩
      · rw [he.thread_ne u hut, updThread_threads_ne _ hut]
        simp [hut]

/-- **`sched_wake_sleepers` ends and makes ready exactly the sleeping threads that are due.** -/
theorem SleepInv.schedWakeSleepers (hs : SleepInv s []) (hp : PlacedInv s) (upTo now : U64) :
    ∃ s', s.schedWakeSleepers upTo now = some s' ∧ SleepInv s' [] ∧ ∀ t, (s'.threads t).state = .ready ↔
        ((s.threads t).asleep = true ∧ (s.threads t).wakeTick ≤ upTo) ∨
          (s.threads t).state = .ready := by
  obtain ⟨list, ready, due, hcollect, hs₁, hch, hdue⟩ := hs.collectDue hp upTo
  have hp₁ : PlacedInv { s with sleepList := list } := ⟨hp.cpuCount_pos, hp.blocked, hp.fresh⟩
  have hlen : due.length ≤ s.nextThread := by
    obtain ⟨xs, _, hn, hm, hb⟩ := hs₁
    exact SleepInv.length_le hp₁ (nodup_append.mp hn).2.1 fun u hu => hb u ((hm u).mp (by simp [hu]))
  obtain ⟨s', hs', h', hready⟩ := hs₁.wakeCollected hp₁ now hch hlen
  refine ⟨s', ?_, h', fun t => ?_⟩
  · unfold Sched.schedWakeSleepers
    rw [hcollect]
    exact hs'
  · rw [hready, hdue]

/-! ## Policy -/

theorem setThreadPolicy_still (s : Sched) (p : SchedPolicy) (t : ThreadId) :
    Still s (s.setThreadPolicy p t) := by
  refine Still.updThread s t ?_
  exact ⟨rfl, rfl, rfl, fun _ => rfl⟩

theorem schedPolicySetTask_still (s : Sched) (k : TaskId) (p : SchedPolicy) :
    Still s (s.schedPolicySetTask k p) := by
  have key : ∀ (l : List ThreadId) (s : Sched),
      Still s (l.foldl (fun s t => s.setThreadPolicy p t) s) := by
    intro l
    induction l with
    | nil => exact Still.refl
    | cons t l ih => exact fun s => (setThreadPolicy_still s p t).trans (ih _)
  exact (Still.updTask _).trans (key _ _)

theorem schedPolicySetThread_still (s : Sched) (t : ThreadId) (p : SchedPolicy) :
    Still s (s.schedPolicySetThread t p) := by
  unfold schedPolicySetThread
  split
  · exact .refl s
  · exact setThreadPolicy_still s p t

/-! ## Killing a task -/

/-- How many threads are in a given state; the loops of `task_kill` count these down. -/
def countState (s : Sched) (st : ThreadState) : Nat :=
  ((Finset.range s.nextThread).filter fun t => (s.threads t).state = st).card

theorem countState_le (s : Sched) (st : ThreadState) : s.countState st ≤ s.nextThread :=
  (Finset.card_filter_le _ _).trans (Finset.card_range _).le

theorem countState_pos (h : PlacedInv s) (hne : st ≠ .empty)
    (ht : (s.threads t).state = st) : 0 < s.countState st := by
  refine Finset.card_pos.mpr ⟨t, ?_⟩
  simp [ht, h.lt (by rwa [ht])]

theorem countState_lt (h : PlacedInv s) (hne : st ≠ .empty) (hn : s'.nextThread = s.nextThread)
    (ht : (s.threads t).state = st) (ht' : (s'.threads t).state ≠ st)
    (hsub : ∀ u, (s'.threads u).state = st → (s.threads u).state = st) :
    s'.countState st < s.countState st := by
  refine Finset.card_lt_card ⟨fun u hu => ?_, fun hle => ?_⟩
  · simp only [Finset.mem_filter, Finset.mem_range, hn] at hu ⊢
    exact ⟨hu.1, hsub u hu.2⟩
  · have hmem : t ∈ (Finset.range s.nextThread).filter fun t => (s.threads t).state = st := by
      simp [ht, h.lt (by rwa [ht])]
    exact ht' (Finset.mem_filter.mp (hle hmem)).2

/-- `sched_cancel_sleep` ends; afterwards the thread is off the sleep list. -/
theorem SleepInv.schedCancelSleep (hs : SleepInv s []) (hp : PlacedInv s) (t : ThreadId) : ∃ s',
    s.schedCancelSleep t = some s' ∧ s'.nextThread = s.nextThread ∧
      (∀ u, ThreadAlike (s.threads u) (s'.threads u)) ∧ PlacedInv s' ∧
      SleepInv s' (if (s.threads t).asleep = true then [t] else []) := by
  obtain ⟨xs, hr, hn, hm, hb⟩ := hs
  simp only [append_nil] at hn hm
  have hlen := SleepInv.length_le hp hn fun u hu => hb u ((hm u).mp hu)
  obtain ⟨ys, zs, rfl, hys, hzs, hseek⟩ := hr.seek (fun q => q != t) hlen
  unfold Sched.schedCancelSleep
  rw [hseek]
  simp only [hr.read_eq]
  have hnot : t ∉ ys := fun hmem => by simpa using hys t hmem
  cases zs with
  | nil =>
    have hawake : ¬ (s.threads t).asleep = true := by
      rw [← hm]
      simpa using hnot
    rw [if_neg (by simp), if_neg hawake]
    exact ⟨s, rfl, rfl, fun _ => .refl _, hp, _, hr, by simpa using hn, by simpa using hm, hb⟩
  | cons z zs =>
    obtain rfl : z = t := by simpa using hzs z rfl
    have hasleep : (s.threads z).asleep = true := (hm z).mp (by simp)
    rw [if_pos (by simp), if_pos hasleep]
    have hnd : (z :: (ys ++ zs)).Nodup := (perm_middle.nodup_iff).mp hn
    have hz := (nodup_cons.mp hnd).1
    have hperm : (ys ++ zs ++ [z]).Perm (ys ++ z :: zs) := by
      simpa using Perm.append_left ys (perm_append_singleton z zs)
    have halike : ThreadAlike (s.threads z) { s.threads z with wakeTick := 0 } :=
      ⟨rfl, rfl, rfl, fun _ => rfl⟩
    set list := (s.sleepList.write ys.getLast? (s.sleepList.next z)).setNext z none with hlist
    have hs₁ : SleepInv { s with sleepList := list } [z] := by
      refine ⟨ys ++ zs, ?_, hperm.nodup_iff.mpr hn, fun u => hperm.mem_iff.trans (hm u), hb⟩
      refine PtrList.Chain.congr (hr.unlink hn) fun u hu => PtrList.setNext_next_of_ne ?_
      rintro rfl
      exact hz hu
    have hp₁ : PlacedInv { s with sleepList := list } := ⟨hp.cpuCount_pos, hp.blocked, hp.fresh⟩
    have hq := Still.updThread { s with sleepList := list } z halike
    refine ⟨_, rfl, rfl, fun u => ?_, hp₁.still hq, hs₁.still hq⟩
    exact updThread_cases (fun huz => huz ▸ halike) fun _ => .refl _

/-- One round of the first loop of `task_kill`. -/
theorem SleepInv.killOne (hs : SleepInv s []) (hp : PlacedInv s)
    (hb : (s.threads t).state = .blocked) (now : U64) :
    ∃ s₁, s.schedCancelSleep t = some s₁ ∧ SleepInv (s₁.threadUnblock t now) [] ∧
      PlacedInv (s₁.threadUnblock t now) ∧ (s₁.threadUnblock t now).nextThread = s.nextThread ∧
      (s₁.threadUnblock t now).countState .blocked < s.countState .blocked := by
  obtain ⟨s₁, hs₁, hnext, halike, hp₁, hsleep⟩ := hs.schedCancelSleep hp t
  have hb₁ : (s₁.threads t).state = .blocked := (halike t).state.trans hb
  obtain ⟨c', he, _⟩ := threadUnblock_spec hb₁ hp₁ now
  refine ⟨s₁, hs₁, ?_, ?_, he.nextThread.trans hnext, ?_⟩
  · split at hsleep
    · exact hsleep.touches_out he.sleepList he.thread_ne he.awake
    · rename_i hawake
      refine hsleep.touches he.sleepList he.thread_ne ((halike t).asleep.trans ?_) he.awake
      simpa using hawake
  · refine hp₁.touches he.touches (hp₁.lt (by simp [hb₁])) fun hb' => ?_
    rw [he.state] at hb'
    cases hb'
  · refine countState_lt hp (by simp) (he.nextThread.trans hnext) hb (by simp [he.state])
      fun u hu => ?_
    by_cases hut : u = t
    · rwa [hut]
    · rw [he.thread_ne u hut] at hu
      rwa [← (halike u).state]

theorem SleepInv.killBlocked (hs : SleepInv s []) (hp : PlacedInv s) (k : TaskId) (now : U64)
    (hf : s.countState .blocked ≤ fuel) : ∃ s', killBlocked k now fuel s = some s' ∧
      SleepInv s' [] ∧ s'.nextThread = s.nextThread := by
  induction fuel generalizing s with
  | zero =>
    unfold Sched.killBlocked
    split
    · exact ⟨s, rfl, hs, rfl⟩
    rename_i t hfind
    have hb : (s.threads t).state = .blocked := by simpa using find?_some hfind
    have := countState_pos hp (by simp) hb
    omega
  | succ fuel ih =>
    unfold Sched.killBlocked
    split
    · exact ⟨s, rfl, hs, rfl⟩
    rename_i t hfind
    have hb : (s.threads t).state = .blocked := by simpa using find?_some hfind
    obtain ⟨s₁, hs₁, hsleep, hp₁, hnext, hlt⟩ := hs.killOne hp hb now
    rw [hs₁]
    obtain ⟨s', hs', h', hnext'⟩ := ih hsleep hp₁ (by omega)
    exact ⟨s', hs', h', hnext'.trans hnext⟩

theorem countState_schedCancelReadyTask (hp : PlacedInv s) (hs : s.schedCancelReadyTask k = some s') :
    s'.countState .ready < s.countState .ready := by
  obtain ⟨c, hc, hsome⟩ := exists_of_findSome?_eq_some hs
  obtain ⟨t, hfind, rfl⟩ := Option.map_eq_some_iff.mp hsome
  have hfound := find?_some hfind
  rw [Bool.and_eq_true, beq_iff_eq, beq_iff_eq] at hfound
  have hq := (schedReapThread_quiet ((s.setRunq c (runqRemove (s.cpus c).runq t)).updThread t
    { s.threads t with state := .dead }) t).toStill
  refine countState_lt hp (by simp) hq.nextThread hfound.2 ?_ fun u hu => ?_
  · rcases hq.thread t with ha | hf
    · simp [ha.state]
    · simp [hf.empty]
  · rcases hq.thread u with ha | hf
    · rw [ha.state] at hu
      exact updThread_cases (fun hut _ => hut ▸ hfound.2) (fun _ hu => hu) hu
    · rw [hf.empty] at hu
      cases hu

theorem CoreInv.cancelReady (h : CoreInv s ∅ none) (hkill : (s.tasks k).killing = true)
    (hf : s.countState .ready ≤ fuel) : ∃ s', cancelReady k fuel s = some s' := by
  induction fuel generalizing s with
  | zero =>
    unfold Sched.cancelReady
    split
    · exact ⟨s, rfl⟩
    · rename_i hs
      have := countState_schedCancelReadyTask h.placed hs
      omega
  | succ fuel ih =>
    unfold Sched.cancelReady
    split
    · exact ⟨s, rfl⟩
    rename_i s₁ hs
    have hlt := countState_schedCancelReadyTask h.placed hs
    obtain ⟨hmoves, hkill₁⟩ : Moves True True True s s₁ ∧ _ := Moves.schedCancelReadyTask h hkill hs
    exact ih (Moves.core h hmoves) hkill₁ (by omega)

theorem SleepInv.taskKill (hs : SleepInv s []) (h : CoreInv s ∅ none) (k : TaskId) :
    ∃ s', s.taskKill k now = some s' ∧ SleepInv s' [] := by
  unfold Sched.taskKill
  split
  · exact ⟨s, rfl, hs⟩
  have hq := Still.updTask (s := s) (k := k) { s.tasks k with killing := true }
  have h₁ := h.still hq
  obtain ⟨s₂, hs₂, hsleep, hnext⟩ := (hs.still hq).killBlocked h₁.placed k now (countState_le _ _)
  obtain ⟨hmoves, htasks⟩ : Moves True False True _ s₂ ∧ _ := Moves.killBlocked h₁ hs₂
  have h₂ := Moves.core h₁ hmoves
  have hkill : (s₂.tasks k).killing = true := by
    rw [htasks]
    show (Function.update s.tasks k _ k).killing = true
    rw [Function.update_self]
  obtain ⟨s₃, hs₃⟩ := h₂.cancelReady hkill (countState_le s₂ .ready)
  have hrest : Moves True True True s₂ s₃ := .cancelReady h₂ hkill hs₃
  refine ⟨s₃, ?_, Moves.sleeping h₂ hrest hsleep⟩
  dsimp only
  rw [hs₂, ← hnext]
  exact hs₃

end Bunix.Kernel.Sched
