import Bunix.Lib.PointUpdate
import Bunix.Types
import Mathlib.Data.Prod.Lex

/-! # Threads and run queues

The scheduling part of `struct thread` and the per-CPU run queue of `kernel/sched.c`. A
thread is named by a number that stands for its address; the queue's chain of `run_next`
pointers is a list, while `tail` and `count` are kept beside it as the source keeps them.
Counters that nothing but statistics reads are left out.
-/
namespace Bunix.Kernel

open List

variable {threads : ThreadId → Thread}

inductive ThreadState where
  | empty | ready | running | blocked | dead
deriving DecidableEq, Repr

inductive SchedClass where
  | kernel | server | user | batch | idle
deriving DecidableEq, Repr

def schedQuantumTicks : Nat := 5
def schedBaseWeight : U32 := 1024
def schedBaseSliceTicks : U64 := 5
def schedWakeBonusMaxTicks : U64 := 20
def schedIdlePullMinSourceRunq : Nat := 2

structure Thread where
  tid : U32 := 0
  task : Option TaskId := none
  state : ThreadState := .empty
  cpuId : CpuId := 0
  weight : U32 := 0
  schedClass : SchedClass := .kernel
  schedPriority : U32 := 0
  affinityMask : U64 := 0
  wakeTick : U64 := 0
  vruntime : U64 := 0
  virtualDeadline : U64 := 0
  eligibleTime : U64 := 0
  enqueueSeq : U64 := 0
  enqueueTick : U64 := 0
  execStartTick : U64 := 0
  blockedSinceTick : U64 := 0
  wakeReadyTick : U64 := 0
  /-- The CPU whose `thread_handoff` this thread is suspended in: its tail runs when the
  thread is next switched to. -/
  handoffOn : Option CpuId := none
  /-- Ghost: the thread is suspended inside `thread_sleep_ticks`. No function reads it. -/
  asleep : Bool := false
  /-- Ghost: `context` holds the thread's registers, so it may be switched to. No function
  reads it. -/
  saved : Bool := false
deriving DecidableEq, Repr

structure RunQueue where
  queue : List ThreadId := []
  tail : Option ThreadId := none
  count : Nat := 0
  minVruntime : U64 := 0
  enqueueSeq : U64 := 0
deriving DecidableEq, Repr

/-- The comparison of `runq_push`: `thread` belongs behind `queued`. -/
def Thread.runsAfter (thread queued : Thread) : Bool :=
  decide (queued.virtualDeadline < thread.virtualDeadline) ||
    (thread.virtualDeadline == queued.virtualDeadline &&
      decide (queued.eligibleTime < thread.eligibleTime)) ||
    (thread.virtualDeadline == queued.virtualDeadline && thread.eligibleTime == queued.eligibleTime &&
      decide (queued.enqueueSeq < thread.enqueueSeq)) ||
    (thread.virtualDeadline == queued.virtualDeadline && thread.eligibleTime == queued.eligibleTime &&
      thread.enqueueSeq == queued.enqueueSeq && decide (queued.tid < thread.tid))

/-- The walk of `runq_push` along the links. -/
def runqInsert (threads : ThreadId → Thread) (t : ThreadId) : List ThreadId → List ThreadId
  | [] => [t]
  | queued :: rest =>
    if (threads t).runsAfter (threads queued) then queued :: runqInsert threads t rest
    else t :: queued :: rest

def runqPush (threads : ThreadId → Thread) (runq : RunQueue) (t : ThreadId) : RunQueue :=
  let queue := runqInsert threads t runq.queue
  -- `run_next == 0` says that the thread ended up last
  let tail := if queue.getLast? = some t then some t else runq.tail
  { runq with queue, tail := if tail = none then some t else tail, count := runq.count + 1 }

def runqPop (threads : ThreadId → Thread) (runq : RunQueue) : Option (ThreadId × RunQueue) :=
  match runq.queue with
  | [] => none
  | t :: rest =>
    some (t, { runq with
      queue := rest
      tail := if rest = [] then none else runq.tail
      count := runq.count - 1
      minVruntime := maxU64 (threads t).vruntime runq.minVruntime })

/-- Unlinking one thread, as `runq_remove` and `runq_remove_first_eligible` do it: when the
tail goes, a scan finds the new one. -/
def RunQueue.unlink (runq : RunQueue) (t : ThreadId) : RunQueue :=
  let queue := runq.queue.erase t
  { runq with
    queue
    tail := if runq.tail = some t then queue.getLast? else runq.tail
    count := runq.count - 1 }

def runqRemove (runq : RunQueue) (t : ThreadId) : RunQueue :=
  if t ∈ runq.queue then runq.unlink t else runq

/-- A thread `sched_idle_pull` may take to CPU `dst`. -/
def Thread.pullable (thread : Thread) (dst : CpuId) : Bool :=
  (thread.schedClass == .user || thread.schedClass == .batch) && thread.affinityMask.getLsbD dst

def runqRemoveFirstEligible (threads : ThreadId → Thread) (runq : RunQueue) (dst : CpuId) :
    Option (ThreadId × RunQueue) :=
  (runq.queue.find? fun t => (threads t).pullable dst).map fun t => (t, runq.unlink t)

/-! ## The sort key -/

def schedScaleDelta (delta : U64) (weight : U32) : U64 :=
  let weight := (if weight = 0 then schedBaseWeight else weight).setWidth 64
  (delta * schedBaseWeight.setWidth 64 + weight - 1) / weight

def schedRefreshDeadline (thread : Thread) : Thread :=
  let slice := schedScaleDelta schedBaseSliceTicks thread.weight
  { thread with
    eligibleTime := thread.vruntime
    virtualDeadline := thread.vruntime + (if slice ≠ 0 then slice else 1) }

/-- The virtual runtime of a woken thread: up to `SCHED_WAKE_BONUS_MAX_TICKS` of the time it was
blocked count in its favour, but never past the queue's minimum. -/
def wakeVruntime (minVruntime vruntime blockedSinceTick now : U64) (weight : U32) : U64 :=
  let slept := if blockedSinceTick ≠ 0 ∧ blockedSinceTick < now then now - blockedSinceTick else 0
  let slept := minU64 schedWakeBonusMaxTicks slept
  if 0 < slept then
    let credit := schedScaleDelta slept weight
    if minVruntime + credit < vruntime then vruntime - credit else minVruntime
  else vruntime

/-- `sched_prepare_enqueue_locked`, given the queue's `min_vruntime` and the sequence number
it hands out. -/
def schedPrepareEnqueueLocked (runq : RunQueue) (thread : Thread) (wakeup : Bool) (now : U64) :
    Thread :=
  let weight := if thread.weight = 0 then schedBaseWeight else thread.weight
  let vruntime := maxU64 runq.minVruntime thread.vruntime
  schedRefreshDeadline { thread with
    weight
    vruntime := if wakeup then
      wakeVruntime runq.minVruntime vruntime thread.blockedSinceTick now weight else vruntime
    wakeReadyTick := if wakeup then now else thread.wakeReadyTick
    blockedSinceTick := if wakeup then 0 else thread.blockedSinceTick
    enqueueSeq := runq.enqueueSeq + 1
    enqueueTick := now }

/-! ## Well-formed queues -/

/-- What the queue is sorted by, compared lexicographically. -/
def Thread.sortKey (thread : Thread) : Nat ×ₗ Nat ×ₗ Nat ×ₗ Nat :=
  toLex (thread.virtualDeadline.toNat, toLex (thread.eligibleTime.toNat,
    toLex (thread.enqueueSeq.toNat, thread.tid.toNat)))

theorem Thread.runsAfter_iff (a b : Thread) : a.runsAfter b = true ↔ b.sortKey < a.sortKey := by
  simp only [Thread.runsAfter, Thread.sortKey, Prod.Lex.toLex_lt_toLex, Bool.or_eq_true,
    Bool.and_eq_true, decide_eq_true_eq, beq_iff_eq, BitVec.lt_def, ← BitVec.toNat_inj]
  omega

/-- The queue of a CPU as the scheduler relies on it, for the sort keys `key`. -/
structure RunQueue.Ok (key : ThreadId → Nat ×ₗ Nat ×ₗ Nat ×ₗ Nat) (runq : RunQueue) : Prop where
  nodup : runq.queue.Nodup
  sorted : runq.queue.Pairwise fun a b => key a ≤ key b
  tail_eq : runq.tail = runq.queue.getLast?
  count_eq : runq.count = runq.queue.length

namespace RunQueue.Ok

variable {key key' : ThreadId → Nat ×ₗ Nat ×ₗ Nat ×ₗ Nat} {runq runq' : RunQueue} {t : ThreadId}

theorem empty : RunQueue.Ok key {} := ⟨.nil, .nil, rfl, rfl⟩

theorem congr (h : runq.Ok key) (hq : runq'.queue = runq.queue) (ht : runq'.tail = runq.tail)
    (hc : runq'.count = runq.count) (hk : ∀ t ∈ runq.queue, key' t = key t) : runq'.Ok key' := by
  refine ⟨hq ▸ h.nodup, ?_, by rw [ht, hq, h.tail_eq], by rw [hc, hq, h.count_eq]⟩
  rw [hq]
  exact h.sorted.imp_of_mem fun ha hb hab => by rwa [hk _ ha, hk _ hb]

theorem unlink (h : runq.Ok key) (ht : t ∈ runq.queue) : (runq.unlink t).Ok key := by
  refine ⟨h.nodup.erase t, h.sorted.sublist erase_sublist, ?_, ?_⟩
  · simp only [RunQueue.unlink]
    split
    · rfl
    -- the last thread stays the last one
    rename_i hne
    rw [h.tail_eq] at hne ⊢
    obtain ⟨init, last, hq⟩ : ∃ init last, runq.queue = init ++ [last] :=
      ⟨_, _, (dropLast_append_getLast (ne_nil_of_mem ht)).symm⟩
    have hlast : last ≠ t := by
      intro he
      apply hne
      rw [hq, he]
      simp
    rw [hq] at ht ⊢
    have hi : t ∈ init := by
      rcases mem_append.mp ht with hi | hl
      · exact hi
      · exact absurd (mem_singleton.mp hl).symm hlast
    rw [erase_append_left _ hi]
    simp
  · simp only [RunQueue.unlink, h.count_eq, length_erase_of_mem ht]

end RunQueue.Ok

theorem runqInsert_eq (threads : ThreadId → Thread) (t : ThreadId) (l : List ThreadId) :
    runqInsert threads t l =
      l.orderedInsert (fun a b => (threads a).sortKey ≤ (threads b).sortKey) t := by
  induction l with
  | nil => rfl
  | cons q l ih =>
    rw [runqInsert, orderedInsert, ih]
    by_cases h : (threads t).sortKey ≤ (threads q).sortKey
    · have hn : ¬ (threads t).runsAfter (threads q) = true := by
        rw [Thread.runsAfter_iff]
        exact not_lt.mpr h
      simp [h, hn]
    · have hn : (threads t).runsAfter (threads q) = true := by
        rw [Thread.runsAfter_iff]
        exact not_le.mp h
      simp [h, hn]

theorem runqInsert_perm (threads : ThreadId → Thread) (t : ThreadId) (l : List ThreadId) :
    (runqInsert threads t l).Perm (t :: l) := by
  rw [runqInsert_eq]
  exact perm_orderedInsert _ t l

theorem mem_runqPush {runq} :
    u ∈ (runqPush threads runq t).queue ↔ u = t ∨ u ∈ runq.queue := by
  simp only [runqPush, (runqInsert_perm threads t runq.queue).mem_iff, mem_cons]

theorem getLast?_runqInsert (h : (runqInsert threads t l).getLast? ≠ some t) :
    (runqInsert threads t l).getLast? = l.getLast? ∧ l ≠ [] := by
  induction l with
  | nil => simp [runqInsert] at h
  | cons q l ih =>
    unfold runqInsert at h ⊢
    split
    · rename_i ha
      rw [if_pos ha] at h
      cases hl : runqInsert threads t l with
      | nil =>
        have := (runqInsert_perm threads t l).length_eq
        simp [hl] at this
      | cons x xs =>
        rw [hl] at h ih
        rw [getLast?_cons_cons] at h ⊢
        obtain ⟨he, hne⟩ := ih h
        refine ⟨?_, by simp⟩
        rw [he]
        cases l with
        | nil => exact absurd rfl hne
        | cons y ys => rw [getLast?_cons_cons]
    · exact ⟨getLast?_cons_cons, by simp⟩

/-- **`runq_push` keeps a queue well formed.** -/
theorem RunQueue.Ok.push {runq} (h : runq.Ok fun t => (threads t).sortKey) (ht : t ∉ runq.queue) :
    (runqPush threads runq t).Ok fun t => (threads t).sortKey := by
  have hp := runqInsert_perm threads t runq.queue
  refine ⟨hp.nodup_iff.mpr (nodup_cons.mpr ⟨ht, h.nodup⟩), ?_, ?_, ?_⟩
  · simp only [runqPush, runqInsert_eq]
    exact h.sorted.orderedInsert t _
  · simp only [runqPush]
    by_cases hl : (runqInsert threads t runq.queue).getLast? = some t
    · simp [hl]
    · obtain ⟨he, hne⟩ := getLast?_runqInsert hl
      rw [if_neg hl, h.tail_eq, he]
      simp [getLast?_eq_none_iff, hne]
  · simp only [runqPush, hp.length_eq, h.count_eq, length_cons]

theorem RunQueue.Ok.pop {key runq runq'}
    (h : runq.Ok key) (hp : runqPop threads runq = some (t, runq')) :
    runq'.Ok key ∧ runq.queue = t :: runq'.queue ∧ t ∉ runq'.queue := by
  unfold runqPop at hp
  split at hp
  · cases hp
  rename_i u rest hq
  cases hp
  have hn := h.nodup
  have hs := h.sorted
  rw [hq] at hn hs
  refine ⟨⟨hn.of_cons, hs.of_cons, ?_, ?_⟩, hq, (nodup_cons.mp hn).1⟩
  · simp only [h.tail_eq, hq]
    cases rest with
    | nil => rfl
    | cons x xs => simp [getLast?_cons_cons]
  · simp [h.count_eq, hq]

theorem runqRemoveFirstEligible_some {runq runq'}
    {dst} (h : runqRemoveFirstEligible threads runq dst = some (t, runq')) :
    t ∈ runq.queue ∧ (threads t).pullable dst = true ∧ runq' = runq.unlink t := by
  unfold runqRemoveFirstEligible at h
  cases hf : runq.queue.find? fun t => (threads t).pullable dst with
  | none => rw [hf] at h; cases h
  | some u =>
    rw [hf] at h
    cases h
    have hpull := find?_some hf
    exact ⟨mem_of_find?_eq_some hf, hpull, rfl⟩

end Bunix.Kernel
