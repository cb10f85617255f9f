import Bunix.Kernel.RunQueue
import Bunix.Lib.PtrList

/-! # The scheduler

State and operations of `kernel/sched.c` on any number of CPUs. `timer_ticks()` is the
argument `now`. The sleep list is kept through its pointers, because the operations below
can damage it; a walk that does not end is `none`. Inter-processor interrupts, address
space activation and log output have no effect on this state.
-/
namespace Bunix.Kernel

open Bunix.Lib

structure CpuSched where
  runq : RunQueue := {}
  /-- `none` is the CPU's own `scheduler_thread`. -/
  current : Option ThreadId := none
  reap : Option ThreadId := none
  quantumLeft : Nat := schedQuantumTicks
  handoffDepth : Nat := 0
  /-- The local variable `next` of `sched_run` between taking a thread and switching to it. -/
  next : Option ThreadId := none
  /-- The current thread has run `thread_prepare_block` and not yet `thread_block_prepared`. -/
  prepared : Bool := false

/-- The scheduling part of `struct task`. -/
structure SchedTask where
  dead : Bool := false
  killing : Bool := false
  threadCount : Nat := 0
  threads : List ThreadId := []
  ipcAffinityCpu : CpuId := 0
  ipcAffinityValid : Bool := false
  schedClass : SchedClass := .user
  schedPriority : U32 := 0
  schedAffinityMask : U64 := 0

def kernelTask : TaskId := 0

structure Sched where
  cpuCount : Nat
  cpus : CpuId → CpuSched
  threads : ThreadId → Thread
  tasks : TaskId → SchedTask
  sleepList : PtrList ThreadId
  nextAutoCpu : CpuId
  nextTid : U32
  /-- Threads are allocated at fresh names from here on. -/
  nextThread : ThreadId
  preemptionEnabled : Bool

namespace Sched

variable (s : Sched) (k : TaskId) (c : CpuId) (t : ThreadId) (now : U64)

@[simps -fullyApplied cpus tasks cpuCount sleepList nextThread]
def updThread (thread : Thread) : Sched :=
  { s with threads := Function.update s.threads t thread }

@[simps -fullyApplied threads tasks cpuCount sleepList nextThread]
def updCpu (cpu : CpuSched) : Sched :=
  { s with cpus := Function.update s.cpus c cpu }

@[simps -fullyApplied threads cpus cpuCount sleepList nextThread]
def updTask (task : SchedTask) : Sched :=
  { s with tasks := Function.update s.tasks k task }

def setRunq (runq : RunQueue) : Sched := s.updCpu c { s.cpus c with runq }

/-! ## Accounting -/

def schedAccountRuntime (chargeMin : Bool) (now : U64) : Sched :=
  match (s.cpus c).current with
  | none => s
  | some t =>
    let thread := s.threads t
    if thread.state ≠ .running then s
    else if thread.execStartTick = 0 then s.updThread t { thread with execStartTick := now }
    else if now ≤ thread.execStartTick ∧ chargeMin = false then s
    else
      let delta := if now ≤ thread.execStartTick then 1 else now - thread.execStartTick
      let thread := { thread with
        execStartTick := now
        vruntime := thread.vruntime + schedScaleDelta delta thread.weight }
      let runq := (s.cpus c).runq
      (s.setRunq c { runq with minVruntime := maxU64 thread.vruntime runq.minVruntime }).updThread t
        (schedRefreshDeadline thread)

def schedNoteSwitch (thread : Thread) (now : U64) : Thread :=
  { thread with enqueueTick := 0, wakeReadyTick := 0, execStartTick := now }

/-! ## Placement -/

def schedCpuLoad : Nat :=
  let running : Bool := match (s.cpus c).current with
    | none => false
    | some t => (s.threads t).state == .running
  (s.cpus c).runq.count + (if running then 1 else 0)

def schedOnlineCpuMask : U64 :=
  (List.range (min s.cpuCount 64)).foldl (fun mask i => mask ||| (1#64 <<< i)) 0

def schedPolicyValidCpuMask (mask : U64) : Bool :=
  mask != 0 && mask &&& ~~~s.schedOnlineCpuMask == 0

def schedPolicyMaskFirstCpu (mask : U64) : CpuId :=
  ((List.range (min s.cpuCount 64)).find? fun i => mask.getLsbD i).getD 0

/-- The scan of `sched_select_auto_cpu_mask`, starting at `next_auto_cpu`. -/
def leastLoaded (mask : U64) (best : CpuId) : CpuId :=
  (List.range s.cpuCount).foldl (fun best scanned =>
    let cpuId := (s.nextAutoCpu + scanned) % s.cpuCount
    if mask.getLsbD cpuId && decide (s.schedCpuLoad cpuId < s.schedCpuLoad best) then cpuId
    else best) best

def schedSelectAutoCpuMask (mask : U64) : CpuId × Sched :=
  let mask := if s.schedPolicyValidCpuMask mask then mask else s.schedOnlineCpuMask
  let best := s.leastLoaded mask (s.schedPolicyMaskFirstCpu mask)
  (best, { s with nextAutoCpu := (best + 1) % s.cpuCount })

/-- The CPU `sched_enqueue_on_reason` settles on: a thread that may not run on `c` is placed
anew. -/
def enqueueTarget : CpuId × Sched :=
  let mask := (s.threads t).affinityMask
  if mask ≠ 0 ∧ mask.getLsbD c = false then s.schedSelectAutoCpuMask mask else (c, s)

/-- The part of `sched_enqueue_on_reason` under the queue's lock. -/
def enqueueLocked (wakeup : Bool) (now : U64) : Sched :=
  let runq := (s.cpus c).runq
  let thread := { s.threads t with cpuId := c, state := .ready, asleep := false }
  let s := s.updThread t (schedPrepareEnqueueLocked runq thread wakeup now)
  s.setRunq c (runqPush s.threads { runq with enqueueSeq := runq.enqueueSeq + 1 } t)

def schedEnqueueOnReason (wakeup : Bool) (now : U64) : Sched :=
  (s.enqueueTarget c t).2.enqueueLocked (s.enqueueTarget c t).1 t wakeup now

def schedEnqueueOn : Sched :=
  s.schedEnqueueOnReason c t false now

/-- One round of the scan of `sched_idle_pull`: CPU `c` is better than `best` when its queue
is longer, holds at least two threads and has one that may move to `dst`. -/
def betterSource (dst : CpuId) (best : Option CpuId) (c : CpuId) : Option CpuId :=
  let runq := (s.cpus c).runq
  let bestLoad := match best with
    | none => 0
    | some b => (s.cpus b).runq.count
  if c ≠ dst ∧ schedIdlePullMinSourceRunq ≤ runq.count ∧
      runq.queue.any (fun t => (s.threads t).pullable dst) = true ∧ bestLoad < runq.count then some c
  else best

/-- The CPU `sched_idle_pull` takes from. -/
def pullSource (dst : CpuId) : Option CpuId :=
  (List.range s.cpuCount).foldl (s.betterSource dst) none

def schedIdlePull (dst : CpuId) : Option (ThreadId × Sched) :=
  if s.cpuCount < 2 then none
  else match s.pullSource dst with
    | none => none
    | some src =>
      match runqRemoveFirstEligible s.threads (s.cpus src).runq dst with
      | none => none
      | some (t, runq) =>
        let s := s.setRunq src runq
        let thread := s.threads t
        let min := (s.cpus dst).runq.minVruntime
        let thread := if thread.vruntime < min then schedRefreshDeadline { thread with vruntime := min }
          else thread
        some (t, s.updThread t { thread with cpuId := dst })

/-! ## Reaping and exit -/

def schedReapThread : Sched :=
  let thread := s.threads t
  match thread.state, thread.task with
  | .dead, some k =>
    let task := s.tasks k
    let remaining := task.threadCount - 1
    let task := { task with
      threads := task.threads.erase t
      threadCount := remaining
      dead := task.dead || (remaining == 0 && k != kernelTask) }
    { (s.updThread t {}).updTask k task with sleepList := s.sleepList.setNext t none }
  | _, _ => s

/-- `dead = cpu->reap; cpu->reap = 0; sched_reap_thread(dead)`. -/
def schedReapPending : Sched :=
  match (s.cpus c).reap with
  | none => s
  | some t => (s.updCpu c { s.cpus c with reap := none }).schedReapThread t

def threadTaskIsKilling : Bool :=
  match (s.threads t).task with
  | none => false
  | some k => (s.tasks k).killing

/-- Give the CPU back to its scheduler thread, saving the current thread `t`. The scheduler
continues in `sched_run` behind its own switch, which reaps. -/
def switchToScheduler : Sched :=
  let s := s.updThread t { s.threads t with saved := true }
  (s.updCpu c { s.cpus c with current := none, prepared := false }).schedReapPending c

/-- Switch CPU `c` to thread `t`. A thread suspended in `thread_handoff` first runs the tail
of that function, on the CPU it was called on. -/
def switchToThread : Sched :=
  let handoffOn := (s.threads t).handoffOn
  let s := s.updThread t { s.threads t with saved := false, handoffOn := none }
  let s := s.updCpu c { s.cpus c with current := some t, next := none, prepared := false }
  match handoffOn with
  | none => s
  | some c₀ =>
    let cpu := s.cpus c₀
    (s.updCpu c₀ { cpu with handoffDepth := cpu.handoffDepth - 1 }).schedReapPending c₀

def threadExit : Sched :=
  let s := s.schedAccountRuntime c true now
  let s := s.updThread t { s.threads t with state := .dead }
  (s.updCpu c { s.cpus c with reap := some t }).switchToScheduler c t

/-! ## Creation -/

def taskSelectCpu : CpuId × Sched :=
  let task := s.tasks k
  if task.ipcAffinityValid && decide (task.ipcAffinityCpu < s.cpuCount) &&
      task.schedAffinityMask.getLsbD task.ipcAffinityCpu then
    (task.ipcAffinityCpu, s)
  else s.schedSelectAutoCpuMask task.schedAffinityMask

/-- Link the new thread into its task. -/
def addThread (thread : Thread) : Sched :=
  let t := s.nextThread
  let task := s.tasks k
  let s := s.updTask k { task with threads := t :: task.threads, threadCount := task.threadCount + 1 }
  { s.updThread t thread with nextTid := s.nextTid + 1, nextThread := t + 1 }

/-- `thread_create_placed`; `alloc` is whether the slab allocator has room for a thread. -/
def threadCreatePlaced (alloc : Bool) (now : U64) : Sched :=
  let task := s.tasks k
  if task.dead || task.killing || !alloc then s
  else
    let affinityMask := if s.schedPolicyValidCpuMask task.schedAffinityMask then
      task.schedAffinityMask else s.schedOnlineCpuMask
    let thread : Thread := {
      tid := s.nextTid, task := some k, weight := schedBaseWeight, schedClass := task.schedClass
      schedPriority := task.schedPriority, affinityMask, saved := true }
    let (c, s) := if affinityMask.getLsbD c then (c, s) else s.schedSelectAutoCpuMask affinityMask
    (s.addThread k thread).schedEnqueueOn c s.nextThread now

def threadCreate (alloc : Bool) (now : U64) : Sched :=
  let (c, s) := s.taskSelectCpu k
  s.threadCreatePlaced k c alloc now

def threadCreateOnCpu (alloc : Bool) (now : U64) : Sched :=
  s.threadCreatePlaced k (if s.cpuCount ≤ c then 0 else c) alloc now

/-! ## Dispatch -/

/-- The first half of a round of `sched_run`: pop a thread, or pull one from another CPU. -/
def schedRunPick : Option (ThreadId × Sched) :=
  match runqPop s.threads (s.cpus c).runq with
  | some (t, runq) => some (t, s.setRunq c runq)
  | none => s.schedIdlePull c

/-- The second half: switch to it, unless its task is being killed. -/
def schedRunSwitch : Sched :=
  if s.threadTaskIsKilling t then
    let s := s.updCpu c { s.cpus c with next := none }
    (s.updThread t { s.threads t with state := .dead }).schedReapThread t
  else
    let s := s.updThread t (schedNoteSwitch { s.threads t with state := .running } now)
    (s.updCpu c { s.cpus c with quantumLeft := schedQuantumTicks }).switchToThread c t

/-- One round of `sched_run` on a CPU that runs its scheduler thread. -/
def schedRun : Sched :=
  match s.schedRunPick c with
  | none => s
  | some (t, s) => s.schedRunSwitch c t now

/-! ## What a running thread does -/

/-- Put the current thread back on a queue and leave it. -/
def requeue : Sched :=
  (s.schedEnqueueOn c t now).switchToScheduler c t

def threadYield : Sched :=
  match (s.cpus c).current with
  | none => s.schedRun c now
  | some t =>
    if s.threadTaskIsKilling t then s.threadExit c t now
    else (s.schedAccountRuntime c true now).requeue c t now

def schedTick : Sched :=
  match (s.cpus c).current with
  | none => s
  | some t =>
    if s.preemptionEnabled = false ∨ (s.threads t).state ≠ .running then s
    else if (s.cpus c).runq.count = 0 then s
    else
      let s := s.schedAccountRuntime c false now
      let cpu := s.cpus c
      if 1 < cpu.quantumLeft then s.updCpu c { cpu with quantumLeft := cpu.quantumLeft - 1 }
      else (s.updCpu c { cpu with quantumLeft := schedQuantumTicks }).requeue c t now

def threadPrepareBlock : Sched :=
  match (s.cpus c).current with
  | none => s
  | some t =>
    if s.threadTaskIsKilling t then s.threadExit c t now
    else
      let s := s.schedAccountRuntime c true now
      let s := s.updThread t { s.threads t with blockedSinceTick := now, state := .blocked }
      s.updCpu c { s.cpus c with prepared := true }

def threadBlockPrepared : Sched :=
  match (s.cpus c).current with
  | none => s
  | some t => s.switchToScheduler c t

def threadBlock : Sched :=
  (s.threadPrepareBlock c now).threadBlockPrepared c

/-- The part of `thread_sleep_ticks` under `sleep_lock`: sorted insertion into the sleep list.
`none` when the walk does not end. -/
def sleepInsert (wakeTick now : U64) : Option Sched :=
  let s := s.updThread t { s.threads t with
    wakeTick, blockedSinceTick := now, state := .blocked, asleep := true }
  (s.sleepList.seek (fun q => decide ((s.threads q).wakeTick ≤ wakeTick)) s.nextThread none).map
    fun link => { s with sleepList := s.sleepList.insertAt link t }

def threadSleepTicks (ticks now : U64) : Option Sched :=
  if ticks = 0 then some (s.threadYield c now)
  else match (s.cpus c).current with
    | none => some s
    | some t =>
      if s.threadTaskIsKilling t then some (s.threadExit c t now)
      else ((s.schedAccountRuntime c true now).sleepInsert t (now + ticks) now).map fun s =>
        s.switchToScheduler c t

/-! ## Waking -/

def threadUnblock : Sched :=
  if (s.threads t).state ≠ .blocked then s
  else s.schedEnqueueOnReason (s.threads t).cpuId t true now

/-- The first loop of `sched_wake_sleepers`: move the due threads to the list `ready`. -/
def collectDue (upTo : U64) : Option (PtrList ThreadId × Option ThreadId) :=
  PtrList.drain (fun t => !decide (upTo < (s.threads t).wakeTick)) s.nextThread s.sleepList none none

/-- The second loop: wake what was collected. -/
def wakeCollected (now : U64) : Nat → Sched → Option ThreadId → Option Sched
  | _, s, none => some s
  | 0, _, some _ => none
  | fuel + 1, s, some t =>
    let ready := s.sleepList.next t
    let s := { s with sleepList := s.sleepList.setNext t none }
    let s := s.updThread t { s.threads t with wakeTick := 0 }
    wakeCollected now fuel (s.threadUnblock t now) ready

def schedWakeSleepers (upTo now : U64) : Option Sched :=
  match s.collectDue upTo with
  | none => none
  | some (sleepList, ready) => wakeCollected now s.nextThread { s with sleepList } ready

/-- `thread_handoff`, called on CPU `c` for thread `t`. -/
def threadHandoff : Sched :=
  if (s.threads t).state ≠ .blocked then s
  else match (s.cpus c).current with
    | none => s.threadUnblock t now
    | some prev =>
      if (s.threads t).cpuId ≠ c then s.threadUnblock t now
      else if (s.cpus c).handoffDepth ≠ 0 then s.threadUnblock t now
      else if s.threadTaskIsKilling prev then (s.threadUnblock t now).threadExit c prev now
      else
        let s := s.schedAccountRuntime c true now
        let s := s.schedEnqueueOn c prev now
        let s := s.updThread prev { s.threads prev with handoffOn := some c, saved := true }
        let thread := { s.threads t with
          state := .running, blockedSinceTick := 0, enqueueTick := 0, wakeReadyTick := now
          asleep := false }
        let s := s.updThread t (schedNoteSwitch thread now)
        let cpu := s.cpus c
        (s.updCpu c { cpu with
          quantumLeft := schedQuantumTicks, handoffDepth := cpu.handoffDepth + 1 }).switchToThread c t

/-! ## Policy and killing -/

structure SchedPolicy where
  schedClass : SchedClass
  priority : U32
  weight : U32
  cpuMask : U64

def setThreadPolicy (p : SchedPolicy) (t : ThreadId) : Sched :=
  s.updThread t { s.threads t with
    schedClass := p.schedClass, schedPriority := p.priority, weight := p.weight
    affinityMask := p.cpuMask }

/-- `sched_policy_set` on a task, once the request is allowed. -/
def schedPolicySetTask (p : SchedPolicy) : Sched :=
  let task := s.tasks k
  let s := s.updTask k { task with
    schedClass := p.schedClass, schedPriority := p.priority, schedAffinityMask := p.cpuMask }
  task.threads.foldl (fun s t => s.setThreadPolicy p t) s

/-- `sched_policy_set` on a thread that is not dead. -/
def schedPolicySetThread (p : SchedPolicy) : Sched :=
  if (s.threads t).state = .dead then s else s.setThreadPolicy p t

/-- `sched_cancel_sleep`; `none` when the walk does not end. -/
def schedCancelSleep : Option Sched :=
  match s.sleepList.seek (fun q => q != t) s.nextThread none with
  | none => none
  | some link =>
    if s.sleepList.read link = some t then
      let sleepList := (s.sleepList.write link (s.sleepList.next t)).setNext t none
      some ({ s with sleepList }.updThread t { s.threads t with wakeTick := 0 })
    else some s

/-- The loop of `task_kill` over the blocked threads of the task. -/
def killBlocked (k : TaskId) (now : U64) : Nat → Sched → Option Sched
  | fuel, s =>
    match (s.tasks k).threads.find? fun t => (s.threads t).state == .blocked with
    | none => some s
    | some t =>
      match fuel, s.schedCancelSleep t with
      | fuel + 1, some s => killBlocked k now fuel (s.threadUnblock t now)
      | _, _ => none

/-- `sched_cancel_ready_task`: take one ready thread of the task off its queue and reap it. -/
def schedCancelReadyTask : Option Sched :=
  (List.range s.cpuCount).findSome? fun c =>
    ((s.cpus c).runq.queue.find? fun t =>
      (s.threads t).task == some k && (s.threads t).state == .ready).map fun t =>
        ((s.setRunq c (runqRemove (s.cpus c).runq t)).updThread t
          { s.threads t with state := .dead }).schedReapThread t

def cancelReady (k : TaskId) : Nat → Sched → Option Sched
  | fuel, s =>
    match s.schedCancelReadyTask k with
    | none => some s
    | some s =>
      match fuel with
      | 0 => none
      | fuel + 1 => cancelReady k fuel s

/-- `task_kill`; the rounds granted are one for each thread there ever was. -/
def taskKill : Option Sched :=
  if k = kernelTask ∨ (s.tasks k).dead = true then some s
  else
    let s := s.updTask k { s.tasks k with killing := true }
    (killBlocked k now s.nextThread s).bind (cancelReady k s.nextThread)

/-! ## Operations as one step each -/

inductive Op where
  | create (k : TaskId) (alloc : Bool)
  | createOnCpu (k : TaskId) (c : CpuId) (alloc : Bool)
  | run (c : CpuId)
  | yield (c : CpuId)
  | tick (c : CpuId)
  | block (c : CpuId)
  | unblock (t : ThreadId)
  | sleep (c : CpuId) (ticks : U64)
  | wakeSleepers (upTo : U64)
  | handoff (c : CpuId) (t : ThreadId)
  | policyTask (k : TaskId) (p : SchedPolicy)
  | policyThread (t : ThreadId) (p : SchedPolicy)
  | kill (k : TaskId)
  | exit (c : CpuId)

/-- The operation at tick `now`; `none` when it does not return. -/
def Op.exec (s : Sched) : Op → Option Sched
  | .create k alloc => some (s.threadCreate k alloc now)
  | .createOnCpu k c alloc => some (s.threadCreateOnCpu k c alloc now)
  | .run c => some (if (s.cpus c).current = none then s.schedRun c now else s)
  | .yield c => some (s.threadYield c now)
  | .tick c => some (s.schedTick c now)
  | .block c => some (s.threadBlock c now)
  | .unblock t => some (s.threadUnblock t now)
  | .sleep c ticks => s.threadSleepTicks c ticks now
  | .wakeSleepers upTo => s.schedWakeSleepers upTo now
  | .handoff c t => some (s.threadHandoff c t now)
  | .policyTask k p => some (s.schedPolicySetTask k p)
  | .policyThread t p => some (s.schedPolicySetThread t p)
  | .kill k => s.taskKill k now
  | .exit c => some (match (s.cpus c).current with
    | none => s
    | some t => s.threadExit c t now)

/-- The CPU an operation runs on, where the operation names it. -/
def Op.cpu? : Op → Option CpuId
  | .run c | .yield c | .tick c | .block c | .sleep c _ | .handoff c _ | .exit c => some c
  | _ => none

/-- The state `sched_init` leaves behind, for any task table without threads. -/
structure Init (s : Sched) : Prop where
  cpuCount_pos : 0 < s.cpuCount
  cpus_eq : ∀ c, s.cpus c = {}
  threads_eq : ∀ t, s.threads t = {}
  sleepList_eq : s.sleepList = ⟨none, fun _ => none⟩
  tasks_empty : ∀ k, (s.tasks k).threads = []

end Sched

end Bunix.Kernel
