import Bunix.Kernel.SchedSpec

/-! # The run-queue invariant

What holds in every state between two scheduler operations: each CPU's queue is well
formed and holds exactly the ready threads placed there, each current thread runs on its
own CPU, and the sleep list holds exactly the sleeping threads.
-/
namespace Bunix.Kernel.Sched

open Bunix.Lib List

variable {s s' : Sched} {c c' : CpuId} {t u : ThreadId} {k : TaskId} {now : U64}
  {held' : Set ThreadId} {runq : RunQueue}

/-- The queues hold exactly the ready threads, each on the CPU it records. The threads `held`
have been taken off their queues and are in none, whatever their records say. -/
structure QueueInv (s : Sched) (held : Set ThreadId) : Prop where
  ok : ∀ c < s.cpuCount, (s.cpus c).runq.Ok s.key
  queued : ∀ c < s.cpuCount, ∀ t ∈ s.queue c,
    t ∉ held ∧ (s.threads t).state = .ready ∧ (s.threads t).cpuId = c
  ready : ∀ t, t ∉ held → (s.threads t).state = .ready →
    (s.threads t).cpuId < s.cpuCount ∧ t ∈ s.queue (s.threads t).cpuId

/-- Current threads run where they are placed, on every CPU but `skip`. -/
def RunningInv (s : Sched) (skip : Option CpuId) : Prop :=
  ∀ c < s.cpuCount, some c ≠ skip → ∀ t, (s.cpus c).current = some t →
    (s.threads t).state = .running ∧ (s.threads t).cpuId = c

/-- The sleeping threads are blocked, and are exactly those on the sleep list and those of
`out`, which have been taken off it and are about to be woken. -/
def SleepInv (s : Sched) (out : List ThreadId) : Prop :=
  ∃ xs, s.sleepList.Represents xs ∧ (xs ++ out).Nodup ∧
    (∀ t, t ∈ xs ++ out ↔ (s.threads t).asleep = true) ∧
    ∀ t, (s.threads t).asleep = true → (s.threads t).state = .blocked

/-- Threads exist below `nextThread` only, and blocked threads record an existing CPU. -/
structure PlacedInv (s : Sched) : Prop where
  cpuCount_pos : 0 < s.cpuCount
  blocked : ∀ t, (s.threads t).state = .blocked → (s.threads t).cpuId < s.cpuCount
  fresh : ∀ t, s.nextThread ≤ t → (s.threads t).state = .empty

/-- The invariant. Inside an operation it holds but for the threads `held` in the operation's
hands, the CPU `skip` that is about to be switched and the threads `out` about to be woken;
between operations it is `Inv s ∅ none []`. -/
structure Inv (s : Sched) (held : Set ThreadId) (skip : Option CpuId) (out : List ThreadId) :
    Prop where
  queues : QueueInv s held
  running : RunningInv s skip
  sleeping : SleepInv s out
  placed : PlacedInv s

variable {held : Set ThreadId} {skip : Option CpuId} {out : List ThreadId}

/-! ## Changes that leave everything in place -/

theorem QueueInv.still (h : QueueInv s held) (hq : Still s s') :
    QueueInv s' held := by
  have hqueue : ∀ c, s'.queue c = s.queue c := fun c => (hq.cpu c).queue
  refine ⟨fun c hc => ?_, fun c hc t ht => ?_, fun t hn ht => ?_⟩
  · have hc' : c < s.cpuCount := hq.cpuCount ▸ hc
    refine (h.ok c hc').congr (hq.cpu c).queue (hq.cpu c).tail (hq.cpu c).count fun t ht => ?_
    have hr := (h.queued c hc' t ht).2.1
    exact (hq.alike (by simp [hr])).key hr
  · have hc' : c < s.cpuCount := hq.cpuCount ▸ hc
    rw [hqueue] at ht
    obtain ⟨hn, hr, hcpu⟩ := h.queued c hc' t ht
    have ha := hq.alike (t := t) (by simp [hr])
    exact ⟨hn, ha.state.trans hr, ha.cpuId.trans hcpu⟩
  · have ha := hq.alike_of_used (t := t) (by simp [ht])
    obtain ⟨hlt, hm⟩ := h.ready t hn (ha.state ▸ ht)
    rw [ha.cpuId, hq.cpuCount, hqueue]
    exact ⟨hlt, hm⟩

theorem RunningInv.still (h : RunningInv s skip) (hq : Still s s') : RunningInv s' skip := by
  intro c hc hs t ht
  rw [(hq.cpu c).current] at ht
  obtain ⟨hr, hcpu⟩ := h c (hq.cpuCount ▸ hc) hs t ht
  have ha := hq.alike (t := t) (by simp [hr])
  exact ⟨ha.state.trans hr, ha.cpuId.trans hcpu⟩

theorem SleepInv.still (h : SleepInv s out) (hq : Still s s') : SleepInv s' out := by
  obtain ⟨xs, hr, hn, hm, hb⟩ := h
  have hasleep : ∀ t, (s'.threads t).asleep = true ↔ (s.threads t).asleep = true := by
    intro t
    rcases hq.thread t with ha | hf
    · rw [ha.asleep]
    refine ⟨fun h => ?_, fun h => ?_⟩
    · rw [hf.awake] at h
      cases h
    · exact absurd (hf.dead.symm.trans (hb t h)) (by simp)
  refine ⟨xs, hq.sleepList xs hr fun t ht => hb t ((hm t).mp (by simp [ht])), hn, fun t => ?_, fun t ht => ?_⟩
  · rw [hm, hasleep]
  · have ht' := (hasleep t).mp ht
    exact (hq.alike (by simp [hb t ht'])).state.trans (hb t ht')

theorem PlacedInv.still (h : PlacedInv s) (hq : Still s s') : PlacedInv s' := by
  refine ⟨hq.cpuCount ▸ h.cpuCount_pos, fun t ht => ?_, fun t ht => ?_⟩
  · have ha := hq.alike_of_used (t := t) (by simp [ht])
    rw [ha.cpuId, hq.cpuCount]
    exact h.blocked t (ha.state ▸ ht)
  · rcases hq.thread t with ha | hf
    · exact ha.state.trans (h.fresh t (hq.nextThread ▸ ht))
    · exact hf.empty

/-! ## Changing one thread -/

theorem QueueInv.congr (h : QueueInv s held) (hcount : s'.cpuCount = s.cpuCount)
    (hrunq : ∀ c, (s'.cpus c).runq = (s.cpus c).runq)
    (hne : ∀ u, u ∉ held → s'.threads u = s.threads u) : QueueInv s' held := by
  have hqueue : ∀ c, s'.queue c = s.queue c := fun c => congrArg RunQueue.queue (hrunq c)
  refine ⟨fun c hc => ?_, fun c hc u hu => ?_, fun u hn hu => ?_⟩
  · rw [hcount] at hc
    rw [hrunq]
    refine (h.ok c hc).congr rfl rfl rfl fun u hu => ?_
    simp only [key, hne u (h.queued c hc u hu).1]
  · rw [hcount] at hc
    rw [hqueue] at hu
    have hu' := h.queued c hc u hu
    rwa [hne u hu'.1]
  · rw [hne u hn] at hu ⊢
    rw [hcount, hqueue]
    exact h.ready u hn hu

theorem QueueInv.updThread_held (h : QueueInv s held) (ht : t ∈ held) (thread : Thread) :
    QueueInv (s.updThread t thread) held := by
  refine h.congr rfl (fun _ => rfl) fun u hu => updThread_threads_ne _ ?_
  rintro rfl
  exact hu ht

theorem QueueInv.hold (h : QueueInv s held) (ht : (s.threads t).state ≠ .ready) :
    QueueInv s (insert t held) := by
  refine ⟨h.ok, fun c hc u hu => ?_, fun u hn hu => h.ready u (fun hm => hn (.inr hm)) hu⟩
  obtain ⟨hn, hr, hcpu⟩ := h.queued c hc u hu
  refine ⟨?_, hr, hcpu⟩
  intro hm
  rcases hm with rfl | hm
  · exact ht hr
  · exact hn hm

theorem QueueInv.mono (h : QueueInv s held) (hsub : held' ⊆ held)
    (hout : ∀ t ∈ held, t ∉ held' → (s.threads t).state ≠ .ready) : QueueInv s held' := by
  refine ⟨h.ok, fun c hc u hu => ?_, fun u hn hu => h.ready u ?_ hu⟩
  · obtain ⟨hn, hr, hcpu⟩ := h.queued c hc u hu
    exact ⟨fun hm => hn (hsub hm), hr, hcpu⟩
  · intro hm
    exact hout u hm hn hu

theorem QueueInv.release (h : QueueInv s (insert t held)) (ht : (s.threads t).state ≠ .ready) :
    QueueInv s held := by
  refine h.mono (Set.subset_insert t held) fun u hu hn => ?_
  rcases hu with rfl | hu
  · exact ht
  · exact absurd hu hn

theorem QueueInv.updThread (h : QueueInv s held) (thread : Thread)
    (hb : (s.threads t).state ≠ .ready) (ha : thread.state ≠ .ready) :
    QueueInv (s.updThread t thread) held :=
  ((h.hold hb).updThread_held (Set.mem_insert t held) thread).release (by rwa [updThread_threads_self])

theorem QueueInv.updCpu (h : QueueInv s held) {cpu}
    (hr : cpu.runq = (s.cpus c).runq) : QueueInv (s.updCpu c cpu) held := by
  refine h.congr rfl (fun c' => ?_) fun _ _ => rfl
  exact updCpu_cases (fun hc => hc ▸ hr) fun _ => rfl

/-! ## Enqueueing and dequeueing -/

theorem QueueInv.enqueued (h : QueueInv s (insert t held)) (ht : t ∉ held)
    (he : Enqueued s t c s') : QueueInv s' held := by
  obtain ⟨runq, hqueue, htail, hcount, hcpu⟩ := he.cpu_eq
  have hnot : ∀ c' < s.cpuCount, t ∉ s.queue c' := fun c' hc' hm =>
    (h.queued c' hc' t hm).1 (Set.mem_insert t held)
  have hkey : ∀ u, u ≠ t → s'.key u = s.key u := fun u hu => by rw [key, he.thread_ne u hu, key]
  have hmem : ∀ u, u ∈ s'.queue c ↔ u = t ∨ u ∈ s.queue c := by
    intro u
    rw [Sched.queue, hcpu, mem_runqPush, hqueue]
    rfl
  refine ⟨fun c' hc' => ?_, fun c' hc' u hu => ?_, fun u hn hu => ?_⟩
  · rw [he.cpuCount] at hc'
    by_cases hcc : c' = c
    · subst hcc
      rw [hcpu]
      refine RunQueue.Ok.push ((h.ok c' hc').congr hqueue htail hcount fun u hu => ?_) ?_
      · exact hkey u fun hut => hnot c' hc' (hut ▸ hu)
      · rw [hqueue]
        exact hnot c' hc'
    · rw [he.cpu_ne c' hcc]
      refine (h.ok c' hc').congr rfl rfl rfl fun u hu => ?_
      exact hkey u fun hut => hnot c' hc' (hut ▸ hu)
  · rw [he.cpuCount] at hc'
    by_cases hut : u = t
    · subst hut
      by_cases hcc : c' = c
      · subst hcc
        exact ⟨ht, he.state, he.cpuId⟩
      · rw [Sched.queue, he.cpu_ne c' hcc] at hu
        exact absurd hu (hnot c' hc')
    · rw [he.thread_ne u hut]
      by_cases hcc : c' = c
      · subst hcc
        obtain ⟨hn, hr⟩ := h.queued c' hc' u (((hmem u).mp hu).resolve_left hut)
        exact ⟨fun hm => hn (.inr hm), hr⟩
      · rw [Sched.queue, he.cpu_ne c' hcc] at hu
        obtain ⟨hn, hr⟩ := h.queued c' hc' u hu
        exact ⟨fun hm => hn (.inr hm), hr⟩
  · rw [he.cpuCount]
    by_cases hut : u = t
    · subst hut
      rw [he.cpuId]
      exact ⟨he.lt, (hmem u).mpr (.inl rfl)⟩
    · rw [he.thread_ne u hut] at hu ⊢
      obtain ⟨hlt, hm⟩ := h.ready u (fun hm => hm.elim hut hn) hu
      refine ⟨hlt, ?_⟩
      by_cases hcc : (s.threads u).cpuId = c
      · rw [hcc]
        exact (hmem u).mpr (.inr (hcc ▸ hm))
      · rw [Sched.queue, he.cpu_ne _ hcc]
        exact hm

/-- `t` has been taken off the queue of CPU `c`. -/
structure Dequeued (s : Sched) (t : ThreadId) (c : CpuId) (runq : RunQueue) : Prop where
  lt : c < s.cpuCount
  mem : t ∈ s.queue c
  ok : runq.Ok s.key
  rest : ∀ u, u ∈ runq.queue ↔ u ∈ s.queue c ∧ u ≠ t

theorem QueueInv.unlink (h : QueueInv s held) (hc : c < s.cpuCount) (ht : t ∈ s.queue c) :
    Dequeued s t c ((s.cpus c).runq.unlink t) := by
  refine ⟨hc, ht, (h.ok c hc).unlink ht, fun u => ?_⟩
  rw [RunQueue.unlink, (h.ok c hc).nodup.mem_erase_iff, and_comm]
  rfl

theorem QueueInv.pop (h : QueueInv s held) (hc : c < s.cpuCount)
    (hp : runqPop s.threads (s.cpus c).runq = some (t, runq)) : Dequeued s t c runq := by
  obtain ⟨hok, hq, hn⟩ := (h.ok c hc).pop hp
  have hq' : s.queue c = t :: runq.queue := hq
  refine ⟨hc, by simp [hq'], hok, fun u => ?_⟩
  rw [hq', mem_cons]
  refine ⟨fun hu => ⟨.inr hu, ?_⟩, fun ⟨hu, hne⟩ => hu.resolve_left hne⟩
  rintro rfl
  exact hn hu

theorem QueueInv.dequeue (h : QueueInv s held) (hd : Dequeued s t c runq) :
    QueueInv (s.setRunq c runq) (insert t held) := by
  have hcpu : (s.threads t).cpuId = c := (h.queued c hd.lt t hd.mem).2.2
  have hself : (s.setRunq c runq).queue c = runq.queue := by
    simp only [Sched.queue, setRunq, updCpu_cpus_self]
  have hother : ∀ c', c' ≠ c → (s.setRunq c runq).queue c' = s.queue c' := by
    intro c' hc
    simp only [Sched.queue, setRunq, updCpu_cpus_ne _ hc]
  refine ⟨fun c' hc => ?_, fun c' hc u hu => ?_, fun u hu hr => ?_⟩
  · exact updCpu_cases (fun _ => hd.ok) fun _ => h.ok c' hc
  · by_cases hcc : c' = c
    · subst hcc
      rw [hself, hd.rest] at hu
      obtain ⟨hn, hr⟩ := h.queued c' hc u hu.1
      exact ⟨fun hm => hm.elim hu.2 hn, hr⟩
    · rw [hother c' hcc] at hu
      obtain ⟨hn, hq⟩ := h.queued c' hc u hu
      refine ⟨fun hm => hm.elim (fun he => ?_) hn, hq⟩
      rw [he, hcpu] at hq
      exact hcc hq.2.symm
  · obtain ⟨hlt, hm⟩ := h.ready u (fun hm => hu (.inr hm)) hr
    refine ⟨hlt, ?_⟩
    change u ∈ (s.setRunq c runq).queue (s.threads u).cpuId
    by_cases hcc : (s.threads u).cpuId = c
    · rw [hcc] at hm ⊢
      rw [hself, hd.rest]
      exact ⟨hm, fun he => hu (.inl he)⟩
    · rw [hother _ hcc]
      exact hm

/-! ## The other parts of the invariant -/

/-- `t` is current on no CPU but `skip`. -/
def Off (s : Sched) (skip : Option CpuId) (t : ThreadId) : Prop :=
  ∀ c < s.cpuCount, some c ≠ skip → (s.cpus c).current ≠ some t

theorem Off.updCpu {cpu} (h : Off s (some c) t) : Off (s.updCpu c cpu) (some c) t := by
  intro c' hc' hs
  rw [updCpu_cpus_ne _ fun he => hs (congrArg some he)]
  exact h c' hc' hs

theorem RunningInv.off (h : RunningInv s skip) (ht : (s.threads t).state ≠ .running) :
    Off s skip t := fun c hc hs hcur => ht (h c hc hs t hcur).1

theorem RunningInv.off_current (h : RunningInv s none) (hc : c < s.cpuCount)
    (hcur : (s.cpus c).current = some t) : Off s (some c) t := by
  intro c' hc' hs hcur'
  have hcpu := (h c hc (by simp) t hcur).2
  have hcpu' := (h c' hc' (by simp) t hcur').2
  exact hs (congrArg some (hcpu'.symm.trans hcpu))

theorem RunningInv.weaken (h : RunningInv s none) (skip : Option CpuId) : RunningInv s skip :=
  fun c hc _ => h c hc (by simp)

/-- Outside the run queues only the record of `t` changes. -/
structure Touches (s : Sched) (t : ThreadId) (s' : Sched) : Prop where
  cpuCount : s'.cpuCount = s.cpuCount
  nextThread : s'.nextThread = s.nextThread
  sleepList : s'.sleepList = s.sleepList
  current : ∀ c, (s'.cpus c).current = (s.cpus c).current
  next : ∀ c, (s'.cpus c).next = (s.cpus c).next
  prepared : ∀ c, (s'.cpus c).prepared = (s.cpus c).prepared
  thread_ne : ∀ u, u ≠ t → s'.threads u = s.threads u

theorem Touches.updThread (thread : Thread) : Touches s t (s.updThread t thread) :=
  ⟨rfl, rfl, rfl, fun _ => rfl, fun _ => rfl, fun _ => rfl, fun _ => updThread_threads_ne _⟩

theorem Enqueued.cpu (he : Enqueued s t c s') (c' : CpuId) :
    ∃ runq, s'.cpus c' = { s.cpus c' with runq } := by
  by_cases hc : c' = c
  · obtain ⟨runq, _, _, _, hcpu⟩ := he.cpu_eq
    rw [hc]
    exact ⟨_, hcpu⟩
  · exact ⟨_, he.cpu_ne c' hc⟩

theorem Enqueued.touches (he : Enqueued s t c s') : Touches s t s' := by
  refine ⟨he.cpuCount, he.nextThread, he.sleepList, fun c' => ?_, fun c' => ?_, fun c' => ?_,
    he.thread_ne⟩ <;>
  · obtain ⟨runq, hcpu⟩ := he.cpu c'
    rw [hcpu]

theorem Enqueued.current (he : Enqueued s t c s') (c' : CpuId) :
    (s'.cpus c').current = (s.cpus c').current := he.touches.current c'

theorem RunningInv.touches (h : RunningInv s skip) (ht : Touches s t s') (hoff : Off s skip t) :
    RunningInv s' skip := by
  intro c hc hs u hu
  rw [ht.cpuCount] at hc
  rw [ht.current] at hu
  have hut : u ≠ t := fun he => hoff c hc hs (he ▸ hu)
  rw [ht.thread_ne u hut]
  exact h c hc hs u hu

/-- Only the record of `t` changes, which does not sleep. -/
theorem SleepInv.touches (h : SleepInv s out) (hlist : s'.sleepList = s.sleepList)
    (hne : ∀ u, u ≠ t → s'.threads u = s.threads u) (hb : (s.threads t).asleep = false)
    (ha : (s'.threads t).asleep = false) : SleepInv s' out := by
  obtain ⟨xs, hr, hn, hm, hblocked⟩ := h
  have hasleep : ∀ u, (s'.threads u).asleep = (s.threads u).asleep := by
    intro u
    by_cases hut : u = t
    · rw [hut, ha, hb]
    · rw [hne u hut]
  refine ⟨xs, hlist ▸ hr, hn, fun u => by rw [hm, hasleep], fun u hu => ?_⟩
  have hut : u ≠ t := by
    intro he
    rw [he, ha] at hu
    cases hu
  rw [hne u hut] at hu ⊢
  exact hblocked u hu

theorem SleepInv.touches_out (h : SleepInv s (t :: out)) (hlist : s'.sleepList = s.sleepList)
    (hne : ∀ u, u ≠ t → s'.threads u = s.threads u) (ha : (s'.threads t).asleep = false) :
    SleepInv s' out := by
  obtain ⟨xs, hr, hn, hm, hblocked⟩ := h
  have hn' : (t :: (xs ++ out)).Nodup := (perm_middle.nodup_iff).mp hn
  refine ⟨xs, hlist ▸ hr, (nodup_cons.mp hn').2, fun u => ?_, fun u hu => ?_⟩
  · by_cases hut : u = t
    · rw [hut, ha]
      simpa using (nodup_cons.mp hn').1
    · rw [hne u hut, ← hm]
      simp [hut]
  · have hut : u ≠ t := by
      intro he
      rw [he, ha] at hu
      cases hu
    rw [hne u hut] at hu ⊢
    exact hblocked u hu

theorem SleepInv.fallAsleep (h : SleepInv s out) (hlist : s'.sleepList = s.sleepList)
    (hne : ∀ u, u ≠ t → s'.threads u = s.threads u) (hb : (s.threads t).asleep = false)
    (ha : (s'.threads t).asleep = true) (hs : (s'.threads t).state = .blocked) :
    SleepInv s' (t :: out) := by
  obtain ⟨xs, hr, hn, hm, hblocked⟩ := h
  have hnot : t ∉ xs ++ out := by
    rw [hm, hb]
    simp
  refine ⟨xs, hlist ▸ hr, ?_, fun u => ?_, fun u hu => ?_⟩
  · exact (perm_middle.nodup_iff).mpr (nodup_cons.mpr ⟨hnot, hn⟩)
  · by_cases hut : u = t
    · simp [hut, ha]
    · rw [hne u hut, ← hm]
      simp [hut]
  · by_cases hut : u = t
    · rw [hut]
      exact hs
    · rw [hne u hut] at hu ⊢
      exact hblocked u hu

theorem SleepInv.awake (h : SleepInv s out) (ht : (s.threads t).state ≠ .blocked) :
    (s.threads t).asleep = false := by
  obtain ⟨_, _, _, _, hb⟩ := h
  cases ha : (s.threads t).asleep with
  | false => rfl
  | true => exact absurd (hb t ha) ht

theorem PlacedInv.congr (h : PlacedInv s) (hcount : s'.cpuCount = s.cpuCount)
    (hnext : s'.nextThread = s.nextThread) (hne : ∀ u, u ≠ t → s'.threads u = s.threads u)
    (hlt : t < s.nextThread)
    (hb : (s'.threads t).state = .blocked → (s'.threads t).cpuId < s.cpuCount) : PlacedInv s' := by
  refine ⟨hcount ▸ h.cpuCount_pos, fun u hu => ?_, fun u hu => ?_⟩
  · rw [hcount]
    by_cases hut : u = t
    · subst hut
      exact hb hu
    · rw [hne u hut] at hu ⊢
      exact h.blocked u hu
  · rw [hnext] at hu
    have hut : u ≠ t := fun he => absurd (he ▸ hlt) (Nat.not_lt.mpr hu)
    rw [hne u hut]
    exact h.fresh u hu

theorem PlacedInv.touches (h : PlacedInv s) (ht : Touches s t s') (hlt : t < s.nextThread)
    (hb : (s'.threads t).state = .blocked → (s'.threads t).cpuId < s.cpuCount) : PlacedInv s' :=
  h.congr ht.cpuCount ht.nextThread ht.thread_ne hlt hb

theorem PlacedInv.lt (h : PlacedInv s) (ht : (s.threads t).state ≠ .empty) : t < s.nextThread :=
  Nat.lt_of_not_le fun hle => ht (h.fresh t hle)

/-! ## Queues, current threads and places together -/

/-- The invariant without the sleep list, which some operations can damage. -/
structure CoreInv (s : Sched) (held : Set ThreadId) (skip : Option CpuId) : Prop where
  queues : QueueInv s held
  running : RunningInv s skip
  placed : PlacedInv s

theorem Inv.core (h : Inv s held skip out) : CoreInv s held skip := ⟨h.queues, h.running, h.placed⟩

namespace CoreInv

theorem leave (h : CoreInv s held none) (c : CpuId) : CoreInv s held (some c) :=
  ⟨h.queues, h.running.weaken _, h.placed⟩

theorem updCpu (h : CoreInv s held (some c)) {cpu} (hr : cpu.runq = (s.cpus c).runq)
    (hcur : ∀ t, cpu.current = some t → (s.threads t).state = .running ∧ (s.threads t).cpuId = c) :
    CoreInv (s.updCpu c cpu) held none := by
  refine ⟨h.queues.updCpu hr, fun c' hc' _ u hu => ?_,
    ⟨h.placed.cpuCount_pos, h.placed.blocked, h.placed.fresh⟩⟩
  refine updCpu_cases (fun hcc hu => hcc ▸ hcur u hu) (fun hcc hu => ?_) hu
  exact h.running c' hc' (fun h => hcc (Option.some.inj h)) u hu

section
variable (h : CoreInv s held skip)
include h

theorem still (hq : Still s s') : CoreInv s' held skip :=
  ⟨h.queues.still hq, h.running.still hq, h.placed.still hq⟩

theorem hold (ht : (s.threads t).state ≠ .ready) : CoreInv s (insert t held) skip :=
  ⟨h.queues.hold ht, h.running, h.placed⟩

theorem touches (ht : Touches s t s') (hoff : Off s skip t)
    (hlt : t < s.nextThread) (hq : QueueInv s' held')
    (hb : (s'.threads t).state = .blocked → (s'.threads t).cpuId < s.cpuCount) :
    CoreInv s' held' skip := ⟨hq, h.running.touches ht hoff, h.placed.touches ht hlt hb⟩

theorem enqueued (he : Enqueued s t c s') (hstate : (s.threads t).state ≠ .ready) (ht : t ∉ held)
    (hoff : Off s skip t) (hlt : t < s.nextThread) : CoreInv s' held skip := by
  refine h.touches he.touches hoff hlt ((h.queues.hold hstate).enqueued ht he) fun hb => ?_
  rw [he.state] at hb
  cases hb

theorem dequeue (hd : Dequeued s t c runq) :
    CoreInv (s.setRunq c runq) (insert t held) skip := by
  refine ⟨h.queues.dequeue hd, fun d hd' hs u hu => ?_,
    ⟨h.placed.cpuCount_pos, h.placed.blocked, h.placed.fresh⟩⟩
  rw [setRunq_current] at hu
  exact h.running d hd' hs u hu

theorem relink (list : PtrList ThreadId) : CoreInv { s with sleepList := list } held skip :=
  ⟨⟨h.queues.ok, h.queues.queued, h.queues.ready⟩, h.running,
    ⟨h.placed.cpuCount_pos, h.placed.blocked, h.placed.fresh⟩⟩

end

end CoreInv

end Bunix.Kernel.Sched
