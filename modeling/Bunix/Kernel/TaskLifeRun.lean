import Bunix.Kernel.TaskLife
import Mathlib.Algebra.Order.BigOperators.Group.Finset

/-! # Teardown of tasks

The reference count of a task is its life plus the handles, messages and threads that refer to it,
so that `task_teardown` runs once, after all of them are gone. That it runs at all needs more: a
handle of the task on itself is closed by the teardown only, which it prevents; a task that never
had a thread keeps the reference of its life unless its creator discards it. The count itself is
wrong after `ipc_message_retain` on a dead task.
-/
namespace Bunix.Kernel

open Bunix.Lib Function Finset Nat

variable {f : LifeTask → LifeTask}

/-- What holds of a task, given the handles on it in its own table, the handles on it in all tables,
the messages and the threads that refer to it. -/
structure LifeTask.Ok (r : LifeTask) (own slots queued held : Nat) : Prop where
  exact : r.refCount = (if r.dead = true then 0 else 1) + (slots + queued + held)
  threads : r.threadCount = r.live + r.exited
  deadThreads : r.dead = true → r.threadCount = 0
  torn : r.teardowns = if r.dead = true ∧ r.refCount = 0 then 1 else 0
  released : r.teardowns ≠ 0 → r.handles = [] ∧ r.replyPort = none ∧ r.ownsVmSpace = false
  selfless : r.dead = true → own = 0
  rooted : r.dead = false → r.threadCount = 0 → r.making = true ∨ own < slots + queued + held

namespace LifeTask.Ok

variable {r : LifeTask} {own slots queued held own' slots' queued' held' : Nat}

section
variable (h : r.Ok own slots queued held)
include h

theorem move (hown : own' ≤ own)
    (hsum : slots' + queued' + held' = slots + queued + held) : r.Ok own' slots' queued' held' where
  __ := h
  exact := by rw [hsum, h.exact]
  selfless := fun hd => le_zero.mp (h.selfless hd ▸ hown)
  rooted := fun hd ht => (h.rooted hd ht).imp_right fun _ => by omega

theorem retain (hd : r.dead = false) (hown : own' ≤ own + n)
    (hsum : slots' + queued' + held' = slots + queued + held + n) (b : Bool) :
    ({ r with refCount := r.refCount + n, killing := b }).Ok own' slots' queued' held' where
  __ := h
  exact := by
    have := h.exact
    simp only [hd] at this ⊢
    omega
  torn := by
    have := h.torn
    simp only [hd] at this ⊢
    exact this
  selfless := fun hdead => absurd (hd.symm.trans hdead) (by decide)
  rooted := fun hdead ht => (h.rooted hdead ht).imp_right fun _ => by omega

theorem die (hd : r.dead = false) (hown : own = 0) (hthreads : r.live + e = 0) (b m : Bool) :
    ({ r with threadCount := 0, exited := e, dead := true, killing := b, making := m }).Ok
      own slots queued (held + 1) where
  exact := by
    have := h.exact
    simp only [hd, Bool.false_eq_true, if_false, if_true] at this ⊢
    omega
  threads := hthreads.symm
  deadThreads := fun _ => rfl
  torn := by
    have hexact := h.exact
    have htorn := h.torn
    rw [hd] at hexact htorn
    simp only [Bool.false_eq_true, false_and, if_false] at hexact htorn
    rw [if_neg]
    · exact htorn
    · simp only
      omega
  released := h.released
  selfless := fun _ => hown
  rooted := fun hdead => Bool.noConfusion hdead

theorem of_torn (ht : r.teardowns ≠ 0) :
    r.teardowns = 1 ∧ r.dead = true ∧ slots + queued + held = 0 ∧ r.live + r.exited = 0 := by
  have htorn := h.torn
  split at htorn
  · rename_i hzero
    have hexact := h.exact
    exact ⟨htorn, hzero.1, by omega, by rw [← h.threads, h.deadThreads hzero.1]⟩
  · exact absurd htorn ht

theorem torn_of_unreferenced (hthreads : r.live + r.exited = 0)
    (hmaking : r.making = false) (hown : slots + queued + held = own) : r.teardowns = 1 := by
  have hcount : r.threadCount = 0 := by rw [h.threads, hthreads]
  have hdead : r.dead = true := by
    cases hd : r.dead with
    | true => rfl
    | false =>
      rcases h.rooted hd hcount with hm | hlt
      · rw [hmaking] at hm
        cases hm
      · omega
  have hexact := h.exact
  rw [if_pos hdead, hown, h.selfless hdead] at hexact
  rw [h.torn, if_pos ⟨hdead, hexact⟩]

end

end LifeTask.Ok

namespace TaskLife

variable {s s' : TaskLife} {i j k : TaskId}

def OkAt (s : TaskLife) (k : TaskId) : Prop :=
  (s.task k).Ok (s.slotsIn k k) (s.slots k) (s.queued k) (s.held k)

structure Inv (s : TaskLife) : Prop where
  kernel : kernelTask < s.nextTask
  ok : ∀ k, k ≠ kernelTask → k < s.nextTask → s.OkAt k
  fresh : ∀ k, s.nextTask ≤ k → s.task k = {} ∧ s.queued k = 0 ∧ s.held k = 0 ∧ s.slots k = 0

/-! ## Handles -/

theorem slotsIn_le_slots (hi : i < s.nextTask) : s.slotsIn i j ≤ s.slots j :=
  single_le_sum (f := fun i => s.slotsIn i j) (fun _ _ => zero_le _)
    (mem_range.mpr hi)

theorem slotsIn_congr (hh : (s'.task i).handles = (s.task i).handles) : s'.slotsIn i j = s.slotsIn i j := by
  unfold slotsIn
  rw [hh]

theorem slotsIn_eq_zero (hh : (s.task i).handles = []) : s.slotsIn i j = 0 := by
  unfold slotsIn
  rw [hh]
  rfl

theorem slotsIn_ne_zero (hmem : some e ∈ (s.task i).handles) (hobj : e.obj = .task j) : s.slotsIn i j ≠ 0 := by
  unfold slotsIn
  rw [Multiset.count_ne_zero, ← hobj]
  exact HandleTable.mem_objs hmem

theorem slots_congr (hn : s'.nextTask = s.nextTask)
    (hh : ∀ i, (s'.task i).handles = (s.task i).handles) : s'.slots j = s.slots j := by
  unfold slots
  rw [hn]
  exact sum_congr rfl fun i _ => slotsIn_congr (hh i)

theorem slots_of_eq_off (hi : i < s.nextTask) (hn : s'.nextTask = s.nextTask)
    (hh : ∀ i', i' ≠ i → (s'.task i').handles = (s.task i').handles) :
    s'.slots j + s.slotsIn i j = s.slots j + s'.slotsIn i j := by
  unfold slots
  rw [hn]
  exact sum_range_of_eq_off (fun i => s.slotsIn i j) (fun i => s'.slotsIn i j) hi
    fun i' hne => slotsIn_congr (hh i' hne)

theorem slots_eq_own (hk : k < s.nextTask) (h : ∀ i, i < s.nextTask → i ≠ k → s.slotsIn i k = 0) :
    s.slots k = s.slotsIn k k :=
  sum_eq_single k (fun i hi hne => h i (mem_range.mp hi) hne)
    fun hne => absurd (mem_range.mpr hk) hne

/-! ## Steps that leave the tables alone -/

/-- Only what belongs to `k` changes, and no table. -/
structure Change (s s' : TaskLife) (k : TaskId) : Prop where
  nextTask : s'.nextTask = s.nextTask := by rfl
  task : ∀ j, j ≠ k → s'.task j = s.task j := by intros; rfl
  queued : ∀ j, j ≠ k → s'.queued j = s.queued j := by intros; rfl
  held : ∀ j, j ≠ k → s'.held j = s.held j := by intros; rfl
  handles : (s'.task k).handles = (s.task k).handles := by rfl

namespace Inv

theorem lt_of_usable (h : s.Inv) (hu : s.usable k = true) : k < s.nextTask := by
  by_contra hle
  obtain ⟨htask, -, hheld, -⟩ := h.fresh k (not_lt.mp hle)
  simp [usable, htask, hheld] at hu

theorem lt_of_held (h : s.Inv) (hu : 0 < s.held k) : k < s.nextTask := by
  by_contra hle
  obtain ⟨-, -, hheld, -⟩ := h.fresh k (not_lt.mp hle)
  omega

theorem lt_of_task (h : s.Inv) (hu : s.task k ≠ {}) : k < s.nextTask := by
  by_contra hle
  exact hu (h.fresh k (not_lt.mp hle)).1

theorem slotsIn_fresh (h : s.Inv) (hi : i < s.nextTask) (hle : s.nextTask ≤ k) : s.slotsIn i k = 0 := by
  have hsum := slotsIn_le_slots (j := k) hi
  have hzero := (h.fresh k hle).2.2.2
  omega

theorem exists_of_slotsIn (h : s.Inv) (hi : i < s.nextTask) (hne : s.slotsIn i k ≠ 0) :
    k < s.nextTask := by
  by_contra hle
  exact hne (h.slotsIn_fresh hi (not_lt.mp hle))

theorem change (h : s.Inv) (hc : Change s s' k) (hk : k < s.nextTask) (hok : k ≠ kernelTask → s.OkAt k →
      (s'.task k).Ok (s.slotsIn k k) (s.slots k) (s'.queued k) (s'.held k)) : s'.Inv := by
  have hhandles : ∀ i, (s'.task i).handles = (s.task i).handles := by
    intro i
    by_cases hik : i = k
    · exact hik ▸ hc.handles
    · rw [hc.task i hik]
  have hslots : ∀ j, s'.slots j = s.slots j := fun j => slots_congr hc.nextTask hhandles
  have hown : ∀ j, s'.slotsIn j j = s.slotsIn j j := fun j => slotsIn_congr (hhandles j)
  refine ⟨hc.nextTask ▸ h.kernel, fun j hj hlt => ?_, fun j hle => ?_⟩
  · rw [hc.nextTask] at hlt
    unfold OkAt
    rw [hown, hslots]
    by_cases hjk : j = k
    · subst hjk
      exact hok hj (h.ok j hj hlt)
    · rw [hc.task j hjk, hc.queued j hjk, hc.held j hjk]
      exact h.ok j hj hlt
  · rw [hc.nextTask] at hle
    have hjk : j ≠ k := (hk.trans_le hle).ne'
    rw [hc.task j hjk, hc.queued j hjk, hc.held j hjk, hslots]
    exact h.fresh j hle

end Inv

theorem Change.modify (hf : (f (s.task k)).handles = (s.task k).handles) :
    Change s (s.modify k f) k where
  task := fun _ hj => update_of_ne hj ..
  handles := by
    show (update s.task k (f (s.task k)) k).handles = _
    rw [update_self, hf]

theorem Change.hold (s : TaskLife) (k : TaskId) : Change s (s.hold k) k where
  held := fun _ hj => update_of_ne hj ..

theorem Change.unhold (s : TaskLife) (k : TaskId) : Change s (s.unhold k) k where
  held := fun _ hj => update_of_ne hj ..

theorem Change.trans (h : Change s s' k) (h' : Change s' s'' k) : Change s s'' k where
  nextTask := h'.nextTask.trans h.nextTask
  task := fun j hj => (h'.task j hj).trans (h.task j hj)
  queued := fun j hj => (h'.queued j hj).trans (h.queued j hj)
  held := fun j hj => (h'.held j hj).trans (h.held j hj)
  handles := h'.handles.trans h.handles

@[simp] theorem modify_task_self (f : LifeTask → LifeTask) :
    (s.modify k f).task k = f (s.task k) := update_self ..

@[simp] theorem hold_held_self : (s.hold k).held k = s.held k + 1 := update_self ..

@[simp] theorem unhold_held_self : (s.unhold k).held k = s.held k - 1 := update_self ..

namespace Inv

section
variable (h : s.Inv)
include h

theorem threadCreate (hk : k < s.nextTask) : (s.threadCreate k).Inv := by
  unfold TaskLife.threadCreate
  split
  · exact h
  rename_i hd
  refine h.change (.modify rfl) hk fun _ hok => ?_
  simp only [not_or, Bool.not_eq_true] at hd
  have hthreads := hok.threads
  rw [modify_task_self]
  exact { hok with
    threads := by simp only; omega
    deadThreads := fun hdead => absurd (hd.1.symm.trans hdead) (by decide)
    rooted := fun _ h0 => absurd h0 (by simp) }

theorem threadExit (hlive : 0 < (s.task k).live) : (s.threadExit k).Inv := by
  have hk : k < s.nextTask := h.lt_of_task fun he => by simp [he] at hlive
  refine h.change (.modify rfl) hk fun _ hok => ?_
  have hthreads := hok.threads
  unfold TaskLife.threadExit
  rw [modify_task_self]
  exact { hok with threads := by simp only; omega }

theorem schedReapThread (hexited : 0 < (s.task k).exited)
    (hself : (s.task k).threadCount = 1 → s.slotsIn k k = 0) : (s.schedReapThread k).Inv := by
  have hk : k < s.nextTask := h.lt_of_task fun he => by simp [he] at hexited
  have hc : Change s (s.schedReapThread k) k := by
    unfold TaskLife.schedReapThread
    dsimp only
    split
    · exact (Change.modify rfl).trans (.hold ..)
    · exact .modify rfl
  refine h.change hc hk fun hne hok => ?_
  have hthreads := hok.threads
  have hdead : (s.task k).dead = false := by
    cases hd : (s.task k).dead with
    | false => rfl
    | true =>
      have := hok.deadThreads hd
      omega
  have hkernel : (k != kernelTask) = true := bne_iff_ne.mpr hne
  unfold TaskLife.schedReapThread
  by_cases hone : (s.task k).threadCount = 1
  · have hlast : ((s.task k).threadCount - 1 == 0 && k != kernelTask) = true := by
      rw [hone, hkernel]
      rfl
    have hzero : (s.task k).threadCount - 1 = 0 := by omega
    simp only [hlast, if_true, Bool.or_true, hold_task, modify_task_self, hold_queued,
      modify_queued, hold_held_self, modify_held]
    rw [hzero]
    exact hok.die hdead (hself hone) (by omega) _ _
  · have hmore : ((s.task k).threadCount - 1 == 0 && k != kernelTask) = false := by
      rw [beq_eq_false_iff_ne.mpr (by omega), Bool.false_and]
    simp only [hmore, Bool.or_false, Bool.false_eq_true, if_false, modify_task_self, modify_queued,
      modify_held]
    exact { hok with
      threads := by simp only; omega
      deadThreads := fun hd => absurd (hdead.symm.trans hd) (by decide)
      rooted := fun _ h0 => absurd h0 (by simp only; omega) }

theorem retained (hk : k < s.nextTask) (hd : (s.task k).dead = false) (b : Bool) :
    ((s.modify k fun r => { r with killing := b, refCount := r.refCount + 1 }).hold k).Inv := by
  refine h.change ((Change.modify rfl).trans (.hold ..)) hk fun _ hok => ?_
  simp only [hold_task, modify_task_self, hold_queued, modify_queued, hold_held_self, modify_held]
  exact hok.retain hd (le_succ _) (by omega) _

theorem taskRetain (hk : k < s.nextTask) : (s.taskRetain k).Inv := by
  unfold TaskLife.taskRetain
  split
  · exact h
  · rename_i hd
    exact h.retained hk (Bool.eq_false_iff.mpr (not_or.mp hd).2) (s.task k).killing

theorem taskFromHandle (hu : s.usable i = true) (handle : Nat) (rights : U32) :
    (s.taskFromHandle i handle rights).Inv := by
  unfold TaskLife.taskFromHandle
  split
  · rename_i k hw
    obtain ⟨e, hmem, hobj, -⟩ := HandleTable.withRights_some hw
    exact h.taskRetain (h.exists_of_slotsIn (h.lt_of_usable hu) (slotsIn_ne_zero hmem hobj))
  · exact h

theorem taskKill (hk : k < s.nextTask) : (s.taskKill k).Inv := by
  unfold TaskLife.taskKill
  split
  · exact h
  · rename_i hd
    exact h.retained hk (Bool.eq_false_iff.mpr (not_or.mp hd).2) true

theorem taskDiscardUnstarted (hk : k < s.nextTask) (hself : s.slotsIn k k = 0) :
    (s.taskDiscardUnstarted k).Inv := by
  unfold TaskLife.taskDiscardUnstarted
  split
  · exact h
  rename_i hd
  simp only [not_or, Bool.not_eq_true, not_not] at hd
  refine h.change ((Change.modify rfl).trans (.hold ..)) hk fun _ hok => ?_
  have hthreads := hok.threads
  simp only [hold_task, modify_task_self, hold_queued, modify_queued, hold_held_self, modify_held]
  have hdie := hok.die hd.2.1 hself (e := (s.task k).exited) (by omega) true false
  rw [← hd.2.2] at hdie
  exact hdie

theorem ipcMessageRetain (hk : k < s.nextTask) (hd : (s.task k).dead = false) :
    (s.ipcMessageRetain k).Inv := by
  unfold TaskLife.ipcMessageRetain
  split
  · rename_i hor
    have hker : k = kernelTask := hor.resolve_right (by rw [hd]; decide)
    exact h.change (.hold ..) hk fun hne => absurd hker hne
  · exact h.taskRetain hk

theorem queue (hheld : 0 < s.held k) : (s.queue k).Inv := by
  have hc : Change s (s.queue k) k :=
    { Change.unhold s k with queued := fun _ hj => update_of_ne hj .. }
  refine h.change hc (h.lt_of_held hheld) fun _ hok => hok.move le_rfl ?_
  have hqueued : (s.queue k).queued k = s.queued k + 1 := update_self ..
  have hunheld : (s.queue k).held k = s.held k - 1 := update_self ..
  omega

theorem lt_of_queued (hq : 0 < s.queued k) : k < s.nextTask := by
  by_contra hle
  obtain ⟨-, hqueued, -, -⟩ := h.fresh k (not_lt.mp hle)
  omega

theorem unqueue (hqueued : 0 < s.queued k) : (s.unqueue k).Inv := by
  have hc : Change s (s.unqueue k) k :=
    { Change.hold s k with queued := fun _ hj => update_of_ne hj .. }
  refine h.change hc (h.lt_of_queued hqueued) fun _ hok => hok.move le_rfl ?_
  have hq : (s.unqueue k).queued k = s.queued k - 1 := update_self ..
  have hheld : (s.unqueue k).held k = s.held k + 1 := update_self ..
  omega

theorem made (hmaking : (s.task k).making = true)
    (hroot : (s.task k).dead = true ∨ 0 < (s.task k).threadCount ∨
      s.slotsIn k k < s.slots k + s.queued k + s.held k) :
    (s.modify k fun r => { r with making := false }).Inv := by
  have hk : k < s.nextTask := h.lt_of_task fun he => by simp [he] at hmaking
  refine h.change (.modify rfl) hk fun _ hok => ?_
  rw [modify_task_self]
  refine { hok with rooted := fun hd h0 => ?_ }
  rcases hroot with hdead | hpos | hlt
  · exact absurd (hd.symm.trans hdead) (by decide)
  · exact absurd h0 hpos.ne'
  · exact .inr hlt

theorem not_torn (hne : k ≠ kernelTask) (hu : s.usable k = true) : (s.task k).teardowns = 0 := by
  by_contra ht
  obtain ⟨-, hdead, hrefs, hthreads⟩ := (h.ok k hne (h.lt_of_usable hu)).of_torn ht
  have hlive : (s.task k).live = 0 := by omega
  have hheld : s.held k = 0 := by omega
  simp [usable, hlive, hheld, hdead] at hu

theorem setReplyPort (hu : s.usable k = true) (p : PortId) :
    (s.modify k fun r => { r with replyPort := some p }).Inv := by
  refine h.change (.modify rfl) (h.lt_of_usable hu) fun hne hok => ?_
  rw [modify_task_self]
  exact { hok with released := fun ht => absurd (h.not_torn hne hu) ht }

theorem taskCreate (ownsVmSpace : Bool) : (s.taskCreate ownsVmSpace).Inv := by
  have hold : ∀ {j}, j ≠ s.nextTask → (s.taskCreate ownsVmSpace).task j = s.task j :=
    fun hj => update_of_ne hj ..
  have hnew : (s.taskCreate ownsVmSpace).task s.nextTask = { refCount := 1, ownsVmSpace, making := true } :=
    update_self ..
  have hempty : ∀ {j}, (s.taskCreate ownsVmSpace).slotsIn s.nextTask j = 0 := slotsIn_eq_zero (by rw [hnew])
  have hslots : ∀ j, (s.taskCreate ownsVmSpace).slots j = s.slots j := by
    intro j
    unfold slots
    rw [show (s.taskCreate ownsVmSpace).nextTask = s.nextTask + 1 from rfl, sum_range_succ]
    rw [hempty, add_zero]
    exact sum_congr rfl fun i hi => slotsIn_congr (by rw [hold (mem_range.mp hi).ne])
  refine ⟨lt_succ_of_lt h.kernel, fun j hj hlt => ?_, fun j hle => ?_⟩
  · unfold OkAt
    rw [hslots]
    by_cases hjn : j = s.nextTask
    · subst hjn
      obtain ⟨-, hq, hh, hs⟩ := h.fresh s.nextTask le_rfl
      rw [hnew, hempty, hs, show (s.taskCreate ownsVmSpace).queued s.nextTask = 0 from hq,
        show (s.taskCreate ownsVmSpace).held s.nextTask = 0 from hh]
      constructor <;> simp
    · have hlt' : j < s.nextTask := lt_of_le_of_ne (le_of_lt_succ hlt) hjn
      rw [slotsIn_congr (congrArg LifeTask.handles (hold hjn)), hold hjn]
      exact h.ok j hj hlt'
  · have hlt : s.nextTask < j := hle
    rw [hold hlt.ne', hslots]
    exact h.fresh j hlt.le

/-! ## Steps that change a table -/

theorem table (hn : s'.nextTask = s.nextTask) (hi : i < s.nextTask)
    (hoff : ∀ j, j ≠ i → (s'.task j).handles = (s.task j).handles)
    (hok : ∀ k, k ≠ kernelTask → k < s.nextTask →
      s'.slots k + s.slotsIn i k = s.slots k + s'.slotsIn i k → s.OkAt k → s'.OkAt k)
    (hfresh : ∀ k, s.nextTask ≤ k → s'.task k = s.task k ∧ s'.queued k = s.queued k ∧
      s'.held k = s.held k ∧ s'.slotsIn i k = s.slotsIn i k) : s'.Inv := by
  have hslots : ∀ k, s'.slots k + s.slotsIn i k = s.slots k + s'.slotsIn i k :=
    fun k => slots_of_eq_off hi hn hoff
  refine ⟨hn ▸ h.kernel, fun k hk hlt => ?_, fun k hle => ?_⟩
  · rw [hn] at hlt
    exact hok k hk hlt (hslots k) (h.ok k hk hlt)
  · rw [hn] at hle
    obtain ⟨htask, hqueued, hheld, hin⟩ := hfresh k hle
    have := hslots k
    rw [hin, (h.fresh k hle).2.2.2] at this
    rw [htask, hqueued, hheld]
    obtain ⟨h₁, h₂, h₃, -⟩ := h.fresh k hle
    exact ⟨h₁, h₂, h₃, by omega⟩

end

end Inv

theorem modify_task_ne (hjk : j ≠ k) : (s.modify k f).task j = s.task j := update_of_ne hjk ..

theorem modify_handles_task (t : HandleTable) (k : TaskId) :
    (s.modify i fun r => { r with handles := t }).task k =
      { s.task k with handles := if k = i then t else (s.task k).handles } := by
  by_cases hki : k = i
  · subst hki
    rw [modify_task_self, if_pos rfl]
  · rw [modify_task_ne hki, if_neg hki]

/-- The table of `i` is replaced by `t`. Of the references to `k`, `gained k` are new and `lost k`
have gone to threads. -/
structure Retabled (s s' : TaskLife) (i : TaskId) (t : HandleTable) (gained lost : TaskId → Nat) :
    Prop where
  nextTask : s'.nextTask = s.nextTask := by rfl
  queued : s'.queued = s.queued := by rfl
  held : ∀ k, s'.held k = s.held k + lost k := by intro; rfl
  task : ∀ k, s'.task k = { (s.task k) with
    handles := if k = i then t else (s.task k).handles
    refCount := (s.task k).refCount + gained k }
  balance : ∀ k, t.objs.count (.task k) + lost k = s.slotsIn i k + gained k
  alive : ∀ k, gained k ≠ 0 → k ≠ kernelTask → (s.task k).dead = false := by
    exact fun _ h0 => absurd rfl h0
  exists_of_gained : ∀ k, gained k ≠ 0 → k < s.nextTask := by exact fun _ h0 => absurd rfl h0

theorem mem_cloneable (hm : some h ∈ s.cloneable i) :
    some h ∈ (s.task i).handles ∧
      ∀ k, h.obj = .task k → k = i ∨ k ≠ kernelTask ∧ (s.task k).dead = false := by
  obtain ⟨e, he, hfilter⟩ := List.mem_map.mp hm
  obtain ⟨rfl, hkeep⟩ := Option.filter_eq_some_iff.mp hfilter
  refine ⟨he, fun k hk => ?_⟩
  rw [hk] at hkeep
  simpa using hkeep

namespace Inv

theorem retabled (h : s.Inv) (hu : s.usable i = true) (t : HandleTable) (gained lost : TaskId → Nat)
    (hr : Retabled s s' i t gained lost) : s'.Inv := by
  have hi := h.lt_of_usable hu
  have hin : ∀ k, s'.slotsIn i k = t.objs.count (.task k) := by
    intro k
    unfold slotsIn
    rw [hr.task]
    simp only [if_true]
  have hout : ∀ {j}, j ≠ i → (s'.task j).handles = (s.task j).handles := by
    intro j hj
    rw [hr.task]
    simp only [if_neg hj]
  refine h.table hr.nextTask hi (fun _ => hout) (fun k hk _ hslots hok => ?_) fun k hle => ?_
  · have hbal := hr.balance k
    rw [hin] at hslots
    have hsum : s'.slots k + s'.queued k + s'.held k =
        s.slots k + s.queued k + s.held k + gained k := by
      rw [hr.queued, hr.held]
      omega
    have hown : s'.slotsIn k k ≤ s.slotsIn k k + gained k := by
      by_cases hki : k = i
      · subst hki
        rw [hin]
        omega
      · rw [slotsIn_congr (hout hki)]
        exact Nat.le_add_right ..
    have hrec : ({ (s.task k) with
        handles := if k = i then t else (s.task k).handles } : LifeTask).Ok (s.slotsIn k k)
          (s.slots k) (s.queued k) (s.held k) := by
      refine { hok with released := fun ht => ?_ }
      have hki : k ≠ i := fun he => ht (h.not_torn hk (he ▸ hu))
      simp only [if_neg hki]
      exact hok.released ht
    unfold OkAt
    rw [hr.task]
    by_cases hg : gained k = 0
    · rw [hg] at hown hsum ⊢
      exact hrec.move hown hsum
    · exact hrec.retain (hr.alive k hg hk) hown hsum _
  · have hg : gained k = 0 := by
      by_contra hne
      exact absurd (hr.exists_of_gained k hne) (not_lt.mpr hle)
    have hki : k ≠ i := (hi.trans_le hle).ne'
    have hzero : s.slotsIn i k = 0 := h.slotsIn_fresh hi hle
    have hbal := hr.balance k
    refine ⟨?_, by rw [hr.queued], by rw [hr.held]; omega, by rw [hin]; omega⟩
    rw [hr.task, if_neg hki, hg]
    rfl

theorem taskCloseHandle (h : s.Inv) (hu : s.usable i = true) (handle : Nat) :
    (s.taskCloseHandle i handle).Inv := by
  unfold TaskLife.taskCloseHandle
  split
  · rename_i j t hclear
    obtain ⟨hobjs, -⟩ := HandleTable.clear_some hclear
    refine h.retabled hu t (fun _ => 0) (fun k => if k = j then 1 else 0) {
      held := fun k => ?_
      task := modify_handles_task t
      balance := fun k => ?_ }
    · by_cases hkj : k = j
      · subst hkj
        rw [hold_held_self, if_pos rfl]
        rfl
      · rw [if_neg hkj]
        exact update_of_ne hkj ..
    · unfold slotsIn
      rw [hobjs, Multiset.count_cons]
      simp only [Obj.task.injEq]
      rfl
  · rename_i o t hnot hclear
    obtain ⟨hobjs, -⟩ := HandleTable.clear_some hclear
    refine h.retabled hu t (fun _ => 0) (fun _ => 0) {
      task := modify_handles_task t
      balance := fun k => ?_ }
    unfold slotsIn
    rw [hobjs, Multiset.count_cons_of_ne fun he => hnot k he.symm]
  · exact h

theorem taskGrantTask (h : s.Inv) (hu : s.usable i = true) (hj : j < s.nextTask) (slab : Bool)
    (rights : U32) : (s.taskGrantTask slab i j rights).Inv := by
  unfold TaskLife.taskGrantTask
  split
  · exact h
  rename_i hd
  split
  · rename_i t hg
    rcases HandleTable.grantObj_spec hg with ⟨hf, -⟩ | ⟨-, -, hfilled⟩
    · cases hf
    refine h.retabled hu t (fun k => if k = j then 1 else 0) (fun _ => 0) {
      task := fun k => ?_
      balance := fun k => ?_
      alive := fun k hne _ => ?_
      exists_of_gained := fun k hne => ?_ }
    · by_cases hkj : k = j
      · subst hkj
        rw [modify_task_self, modify_handles_task, if_pos rfl]
      · rw [modify_task_ne hkj, modify_handles_task, if_neg hkj]
        rfl
    · unfold slotsIn
      rw [hfilled.objs_eq, Multiset.count_cons]
      simp only [Obj.task.injEq]
      rfl
    · obtain rfl : k = j := by
        by_contra hkj
        exact hne (if_neg hkj)
      exact Bool.not_eq_true _ ▸ hd
    · obtain rfl : k = j := by
        by_contra hkj
        exact hne (if_neg hkj)
      exact hj
  · exact h

/-- What a fork copies: handles on tasks that can be retained, and the ones on the parent, which
become handles on the child. -/
theorem taskCloneHandles (h : s.Inv) (hu : s.usable i = true) (hd : (s.task i).dead = false)
    (hempty : (s.task i).handles = []) (hsrc : j < s.nextTask) (slab : Bool) :
    (s.taskCloneHandles slab i j).Inv := by
  have hi := h.lt_of_usable hu
  unfold TaskLife.taskCloneHandles
  rw [hempty]
  split
  · exact h
  rename_i t copied hc
  obtain ⟨hobjs, hcopied⟩ := HandleTable.taskCloneHandles_nil hc
  have hmem : ∀ k, (copied.map (·.obj)).count (.task k) ≠ 0 →
      k < s.nextTask ∧ (k ≠ kernelTask → (s.task k).dead = false) := by
    intro k hne
    have hin : Obj.task k ∈ copied.map (·.obj) := List.count_pos_iff.mp (pos_of_ne_zero hne)
    obtain ⟨h', hh', hobj⟩ := List.mem_map.mp hin
    rw [hcopied, List.mem_filterMap] at hh'
    obtain ⟨e, he, hmap⟩ := hh'
    obtain ⟨h₀, rfl, rfl⟩ := Option.map_eq_some_iff.mp hmap
    obtain ⟨hslot, hretain⟩ := mem_cloneable he
    unfold HandleTable.cloned at hobj
    split at hobj
    · cases hobj
      exact ⟨hi, fun _ => hd⟩
    rename_i hother
    refine ⟨h.exists_of_slotsIn hsrc (slotsIn_ne_zero hslot hobj), fun _ => ?_⟩
    rcases hretain k hobj with rfl | ⟨-, hdead⟩
    · exact absurd hobj hother
    · exact hdead
  exact h.retabled hu t (fun k => (copied.map (·.obj)).count (.task k)) (fun _ => 0) {
    task := fun k => by
      dsimp only
      rw [modify_handles_task]
    balance := fun k => by
      unfold slotsIn
      rw [hobjs, hempty, Multiset.coe_count]
      simp [HandleTable.objs]
    alive := fun k hne => (hmem k hne).2
    exists_of_gained := fun k hne => (hmem k hne).1 }

theorem lastRelease (h : s.Inv) (hk : k ≠ kernelTask) (hlt : k < s.nextTask) (hheld : s.held k = 1)
    (hdead : (s.task k).dead = true) (hcount : (s.task k).refCount = 1) :
    (((s.unhold k).modify k fun r => { r with refCount := r.refCount - 1 }).taskTeardown k).Inv := by
  have hok := h.ok k hk hlt
  have hexact := hok.exact
  have hself : s.slotsIn k k = 0 := hok.selfless hdead
  have htorn : (s.task k).teardowns = 0 := by
    rw [hok.torn, hcount]
    simp
  set s₁ := (s.unhold k).modify k fun r => { r with refCount := r.refCount - 1 } with hs₁
  have hin : ∀ j, s₁.slotsIn k j = s.slotsIn k j := fun j => slotsIn_congr (by rw [hs₁, modify_task_self]; rfl)
  have hne : ∀ {j}, j ≠ k → (s₁.taskTeardown k).task j = s.task j := by
    intro j hj
    unfold taskTeardown
    rw [modify_task_ne hj, hs₁, modify_task_ne hj]
    rfl
  have hout : ∀ {j}, j ≠ k → (s₁.taskTeardown k).held j = s.held j + s.slotsIn k j := by
    intro j hj
    show s₁.held j + s₁.slotsIn k j = _
    rw [hin]
    congr 1
    exact update_of_ne hj ..
  have hempty : ∀ j, (s₁.taskTeardown k).slotsIn k j = 0 :=
    fun j => slotsIn_eq_zero (by rw [taskTeardown, modify_task_self])
  refine h.table rfl hlt (fun j hj => by rw [hne hj]) (fun j hj _ hslots hokj => ?_) fun j hle => ?_
  · rw [hempty] at hslots
    by_cases hjk : j = k
    · subst hjk
      have hnone : (s₁.taskTeardown j).held j = 0 := by
        show s₁.held j + s₁.slotsIn j j = 0
        rw [hin, hself, hs₁, modify_held, unhold_held_self, hheld]
      have hrec : (s₁.taskTeardown j).task j = { s.task j with
          refCount := 0, handles := [], replyPort := none, ownsVmSpace := false, teardowns := 1 } := by
        unfold taskTeardown
        rw [modify_task_self, hs₁, modify_task_self, unhold_task, hcount, htorn]
      have hq : (s₁.taskTeardown j).queued j = s.queued j := rfl
      unfold OkAt
      rw [hrec, hempty, hnone, hq]
      exact { hok with
        exact := by
          simp only [hdead, if_true]
          omega
        torn := (if_pos ⟨hdead, rfl⟩).symm
        released := fun _ => ⟨rfl, rfl, rfl⟩
        selfless := fun _ => rfl
        rooted := fun hd => absurd (hd.symm.trans hdead) (by decide) }
    · have hq : (s₁.taskTeardown k).queued j = s.queued j := rfl
      unfold OkAt
      rw [slotsIn_congr (congrArg LifeTask.handles (hne hjk)), hne hjk]
      refine hokj.move le_rfl ?_
      rw [hout hjk, hq]
      omega
  · have hjk : j ≠ k := (hlt.trans_le hle).ne'
    have hzero : s.slotsIn k j = 0 := h.slotsIn_fresh hlt hle
    exact ⟨hne hjk, rfl, by rw [hout hjk, hzero, add_zero], by rw [hempty, hzero]⟩

/-- Whoever drops the last reference to a task that has no threads and is not dead is its creator,
and has not lost it. -/
theorem taskRelease (h : s.Inv) (hheld : 0 < s.held k)
    (hroot : (s.task k).dead = true ∨ 0 < (s.task k).threadCount ∨ (s.task k).making = true ∨
      s.slotsIn k k + 1 < s.slots k + s.queued k + s.held k) : (s.taskRelease k).Inv := by
  have hlt := h.lt_of_held hheld
  unfold TaskLife.taskRelease
  split
  · rename_i hker
    exact h.change (.unhold ..) hlt fun hne => absurd hker hne
  rename_i hk
  have hok := h.ok k hk hlt
  have hexact := hok.exact
  dsimp only
  rw [modify_task_self, unhold_task]
  split
  · rename_i hlast
    dsimp only at hlast
    exact h.lastRelease hk hlt (by omega) hlast.2 (by omega)
  · rename_i hmore
    refine h.change ((Change.unhold ..).trans (.modify rfl)) hlt fun _ _ => ?_
    simp only [modify_task_self, unhold_task, modify_queued, unhold_queued, modify_held,
      unhold_held_self]
    exact { hok with
      exact := by
        simp only
        omega
      torn := by
        have htorn := hok.torn
        rw [if_neg (by omega)] at htorn
        rw [if_neg fun hlast => hmore ⟨hlast.2, hlast.1⟩, htorn]
      rooted := fun hd h0 => by
        rcases hroot with hdead | hpos | hmaking | hrefs
        · exact absurd (hd.symm.trans hdead) (by decide)
        · exact absurd h0 hpos.ne'
        · exact .inl hmaking
        · exact .inr (by omega) }

end Inv

/-! ## Runs -/

/-- The condition on a step. A message retains no dead task; the step that makes a task dead finds
no handle of the task on itself; and nobody drops the last reference from elsewhere to a task that
has not been started, nor leaves it without one after creating it. -/
def CleanStep (s : TaskLife) : LifeOp → Prop
  | .messageRetain k => (s.task k).dead = false
  | .reap k => (s.task k).threadCount = 1 → s.slotsIn k k = 0
  | .discard k => s.slotsIn k k = 0
  | .release k => (s.task k).dead = true ∨ 0 < (s.task k).threadCount ∨ (s.task k).making = true ∨
      s.slotsIn k k + 1 < s.slots k + s.queued k + s.held k
  | .made k => (s.task k).dead = true ∨ 0 < (s.task k).threadCount ∨
      s.slotsIn k k < s.slots k + s.queued k + s.held k
  | _ => True

instance (s : TaskLife) (op : LifeOp) : Decidable (s.CleanStep op) := by
  cases op <;> unfold CleanStep <;> infer_instance

/-- The kernel task alone, with its threads. -/
structure Init (s : TaskLife) : Prop where
  nextTask : s.nextTask = kernelTask + 1
  handles : (s.task kernelTask).handles = []
  fresh : ∀ k, k ≠ kernelTask → s.task k = {}
  queued : ∀ k, s.queued k = 0
  held : ∀ k, s.held k = 0

theorem Init.inv (h : s.Init) : s.Inv := by
  refine ⟨by rw [h.nextTask]; exact lt_succ_self _, fun k hk hlt => ?_, fun k hle => ?_⟩
  · rw [h.nextTask] at hlt
    exact absurd (lt_one_iff.mp hlt) hk
  · rw [h.nextTask] at hle
    refine ⟨h.fresh k fun he => ?_, h.queued k, h.held k, ?_⟩
    · rw [he] at hle
      exact absurd hle (not_succ_le_self _)
    · unfold slots slotsIn
      rw [h.nextTask, show kernelTask + 1 = 1 from rfl, sum_range_one]
      exact congrArg (fun t => HandleTable.objs t |>.count (.task k)) h.handles

theorem Inv.step {op} (h : s.Inv) (hclean : s.CleanStep op) (hs : s.step op = some s') :
    s'.Inv := by
  have hguard : ∀ {c : Prop} [Decidable c] {u : TaskLife},
      (if c then some u else none) = some s' → (c → u.Inv) → s'.Inv := by
    intro c _ u he hu
    obtain ⟨hc, he⟩ := Option.ite_none_right_eq_some.mp he
    cases he
    exact hu hc
  cases op with
  | create ownsVmSpace =>
    cases hs
    exact h.taskCreate ownsVmSpace
  | threadCreate k =>
    exact hguard hs fun hu => h.threadCreate (h.lt_of_usable hu)
  | threadExit k =>
    exact hguard hs fun hlive => h.threadExit hlive
  | reap k =>
    exact hguard hs fun hexited => h.schedReapThread hexited hclean
  | kill k =>
    exact hguard hs fun hu => h.taskKill (h.lt_of_usable hu)
  | discard k =>
    exact hguard hs fun hm => h.taskDiscardUnstarted (h.lt_of_task fun he => by simp [he] at hm) hclean
  | findById k =>
    exact hguard hs fun hex => h.taskRetain hex.1
  | fromHandle owner handle rights =>
    exact hguard hs fun hu => h.taskFromHandle hu handle rights
  | grant owner target rights slab =>
    exact hguard hs fun hu => h.taskGrantTask hu.1 (h.lt_of_usable hu.2) slab rights
  | close owner handle =>
    exact hguard hs fun hu => h.taskCloseHandle hu handle
  | clone dst src slab =>
    refine hguard hs fun ⟨hm, hd, hempty, hu⟩ => ?_
    have hdst : s.usable dst = true := by simp [usable, hm, hd]
    exact h.taskCloneHandles hdst hd hempty (h.lt_of_usable hu) slab
  | setReplyPort k p =>
    exact hguard hs fun hu => h.setReplyPort hu p
  | messageRetain k =>
    exact hguard hs fun hheld => h.ipcMessageRetain (h.lt_of_held hheld) hclean
  | messageQueue k =>
    exact hguard hs fun hheld => h.queue hheld
  | messageTake k =>
    exact hguard hs fun hq => h.unqueue hq
  | release k =>
    exact hguard hs fun hheld => h.taskRelease hheld hclean
  | made k =>
    exact hguard hs fun hm => h.made hm hclean

/-- No thread, no handle of another task and no message refers to the task, and nobody inside the
kernel has anything left to do for it. -/
structure Unreferenced (s : TaskLife) (k : TaskId) : Prop where
  live : (s.task k).live = 0
  exited : (s.task k).exited = 0
  making : (s.task k).making = false
  handles : ∀ i, i < s.nextTask → i ≠ k → .task k ∉ (s.task i).handles.objs
  queued : s.queued k = 0
  held : s.held k = 0

/-- The teardown has run, and has left nothing of the task. -/
structure Torn (s : TaskLife) (k : TaskId) : Prop where
  once : (s.task k).teardowns = 1
  handles : (s.task k).handles = []
  replyPort : (s.task k).replyPort = none
  ownsVmSpace : (s.task k).ownsVmSpace = false

/-- One thread of the kernel task. -/
def boot : TaskLife where
  nextTask := 1
  task := fun k => if k = kernelTask then { refCount := 1, threadCount := 1, live := 1 } else {}
  queued := fun _ => 0
  held := fun _ => 0

theorem boot_init : boot.Init := ⟨rfl, rfl, fun _ hk => if_neg hk, fun _ => rfl, fun _ => rfl⟩

end TaskLife

end Bunix.Kernel
