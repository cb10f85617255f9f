import Bunix.Kernel.CapSyscall
import Bunix.Kernel.IpcWait
import Bunix.Lib.RangeSum
import Mathlib.Algebra.Order.BigOperators.Group.Multiset

/-! # Reference counts

Where the references to an object are: in the slots of the tasks, in queued messages, in the
reply ports of the tasks, in a message that was handed to a waiting thread, and in the hands of
threads inside a system call. Each action moves references between these places or makes and
drops one together with the count.
-/
namespace Bunix.Kernel

open Bunix.Lib Prog Function Multiset Finset

/-- The objects whose count is exact: tasks have other references as well, and hardware
resources that are not owned have none. -/
def Obj.Exact (cfg : CapConfig) : Obj → Prop
  | .task _ => False
  | .hwResource r => cfg.hwOwned r = true
  | _ => True

/-- What a thread inside a system call has. -/
structure Share where
  /-- The references it holds. -/
  refs : Multiset Obj
  /-- Objects it knows to exist without holding a reference. -/
  known : List Obj
  wait : Option (WaitId × RecvCall)
  /-- All it has done to the counts are the references it holds. -/
  clean : Bool
  /-- The call went smoothly so far. -/
  smooth : Bool

def Share.idle : Share := ⟨0, [], none, true, true⟩

namespace CapState

def queueRefs (s : CapState) (p : PortId) : Multiset Obj :=
  ((s.ipc.ports p).queue.flatMap IpcMessage.refs : List Obj)

def replyRefs (s : CapState) (k : TaskId) : Multiset Obj := ((s.replyPort k).map Obj.port).toList

/-- The references that do not belong to a system call in progress. -/
def references (s : CapState) : Multiset Obj :=
  ∑ k ∈ Finset.range s.ids.task, (s.handles k).objs +
    ∑ p ∈ Finset.range s.ids.port, s.queueRefs p + ∑ k ∈ Finset.range s.ids.task, s.replyRefs k

/-- What was handed to a thread that has not run since. -/
def delivered (s : CapState) (t : ThreadId) : Multiset Obj :=
  match s.waiting t with
  | some (w, _) => ((s.ipc.waits w).elim [] fun d => d.1.refs : List Obj)
  | none => 0

/-- The references outside the hands of a thread. -/
def shared (cfg : CapConfig) (s : CapState) : Multiset Obj :=
  s.references + ∑ t ∈ Finset.range cfg.threadCount, s.delivered t

def total (cfg : CapConfig) (s : CapState) (g : ThreadId → Share) : Multiset Obj :=
  s.shared cfg + ∑ t ∈ Finset.range cfg.threadCount, (g t).refs

end CapState

/-! ## The parts of the state -/

namespace CapState

variable {cfg : CapConfig} {s s' : CapState} {o o' : Obj} {k : TaskId} {p : PortId}

/-- The references outside threads are in the tables, the queues, the reply ports and the wait
records. -/
theorem shared_congr (hids : s'.ids = s.ids) (hhandles : s'.handles = s.handles)
    (hreply : s'.replyPort = s.replyPort) (hipc : s'.ipc = s.ipc) (hwaiting : s'.waiting = s.waiting) :
    s'.shared cfg = s.shared cfg := by
  unfold shared references delivered queueRefs replyRefs
  rw [hids, hhandles, hreply, hipc, hwaiting]

/-- Counting touches nothing but the counts. -/
structure SameButRef (s s' : CapState) : Prop where
  ids : s'.ids = s.ids
  handles : s'.handles = s.handles
  replyPort : s'.replyPort = s.replyPort
  ipc : s'.ipc = s.ipc
  nextWait : s'.nextWait = s.nextWait
  waiting : s'.waiting = s.waiting
  acquired : s'.acquired = s.acquired

theorem retain_same (cfg : CapConfig) (s : CapState) (o : Obj) : SameButRef s (s.retain cfg o) := by
  unfold retain
  split <;> exact ⟨rfl, rfl, rfl, rfl, rfl, rfl, rfl⟩

theorem release_same (cfg : CapConfig) (s : CapState) (o : Obj) : SameButRef s (s.release cfg o) := by
  unfold release
  split <;> exact ⟨rfl, rfl, rfl, rfl, rfl, rfl, rfl⟩

theorem SameButRef.shared (h : SameButRef s s') : s'.shared cfg = s.shared cfg :=
  shared_congr h.ids h.handles h.replyPort h.ipc h.waiting

theorem counted_of_exact (ho : o.Exact cfg) : counted cfg o = true := by
  cases o with
  | task k => exact absurd ho id
  | hwResource r => exact ho
  | port p | buffer b | schedPolicy c => rfl

theorem retain_ref (ho : o'.Exact cfg) : (s.retain cfg o).ref o' = s.ref o' + count o' {o} := by
  unfold retain
  by_cases heq : o' = o
  · subst heq
    rw [if_pos (counted_of_exact ho)]
    simp
  · rw [count_eq_zero.mpr (by simpa using heq)]
    split
    · simp [update_of_ne heq]
    · rfl

theorem release_ref (ho : o'.Exact cfg) (hpos : o'.Exact cfg → o' = o → 0 < s.ref o') :
    (s.release cfg o).ref o' + count o' {o} = s.ref o' := by
  unfold release
  by_cases heq : o' = o
  · have := hpos ho heq
    subst heq
    rw [if_pos (counted_of_exact ho)]
    simp
    omega
  · rw [count_eq_zero.mpr (by simpa using heq)]
    split
    · simp [update_of_ne heq]
    · rfl

theorem references_setTable (table : HandleTable) (hk : k < s.ids.task) :
    (s.setTable k table).references + (s.handles k).objs = s.references + table.objs := by
  have hsum := sum_range_of_eq_off (fun j => (s.handles j).objs)
    (fun j => ((s.setTable k table).handles j).objs) hk fun j hj => by
      simp only [setTable, update_of_ne hj]
  have hself : ((s.setTable k table).handles k).objs = table.objs := by
    simp only [setTable, update_self]
  simp only [hself] at hsum
  unfold references
  calc _ = (∑ j ∈ range s.ids.task, ((s.setTable k table).handles j).objs + (s.handles k).objs) +
        ∑ p ∈ range s.ids.port, s.queueRefs p + ∑ k ∈ range s.ids.task, s.replyRefs k := by
        show ∑ j ∈ range s.ids.task, ((s.setTable k table).handles j).objs +
          ∑ p ∈ range s.ids.port, s.queueRefs p +
          ∑ k ∈ range s.ids.task, s.replyRefs k + _ = _
        abel
    _ = _ := by
        rw [hsum]
        abel

theorem shared_setTable (cfg : CapConfig) (table : HandleTable) (hk : k < s.ids.task) :
    (s.setTable k table).shared cfg + (s.handles k).objs = s.shared cfg + table.objs := by
  have hrefs := references_setTable table hk
  show (s.setTable k table).references + ∑ t ∈ range cfg.threadCount, s.delivered t + _ =
    s.references + ∑ t ∈ range cfg.threadCount, s.delivered t + _
  rw [add_right_comm, hrefs, add_right_comm]

theorem shared_queue (cfg : CapConfig) (s' : CapState) (hp : p < s.ids.port) (hids : s'.ids = s.ids) (hhandles : s'.handles = s.handles)
    (hreply : s'.replyPort = s.replyPort) (hq : ∀ q, q ≠ p → s'.queueRefs q = s.queueRefs q)
    (hd : ∀ t, s'.delivered t = s.delivered t) :
    s'.shared cfg + s.queueRefs p = s.shared cfg + s'.queueRefs p := by
  have hsum := sum_range_of_eq_off _ _ hp hq
  have hr : s'.replyRefs = s.replyRefs := by
    unfold replyRefs
    rw [hreply]
  unfold shared references
  rw [hids, hhandles, hr, sum_congr rfl fun t _ => hd t]
  calc _ = ∑ k ∈ range s.ids.task, (s.handles k).objs +
        (∑ q ∈ range s.ids.port, s'.queueRefs q + s.queueRefs p) +
        ∑ k ∈ range s.ids.task, s.replyRefs k +
        ∑ t ∈ range cfg.threadCount, s.delivered t := by abel
    _ = _ := by
        rw [hsum]
        abel

theorem shared_delivered (cfg : CapConfig) (ht : t < cfg.threadCount) (hrefs : s'.references = s.references)
    (hd : ∀ u, u ≠ t → s'.delivered u = s.delivered u) :
    s'.shared cfg + s.delivered t = s.shared cfg + s'.delivered t := by
  have hsum := sum_range_of_eq_off _ _ ht hd
  unfold shared
  rw [hrefs, add_assoc, hsum, add_assoc]

end CapState

/-! ## The invariant -/

/-- The state and what is written down about the calls, with what each thread has. -/
structure RefInv (cfg : CapConfig) (x : CapState × (ThreadId → CallInfo)) (g : ThreadId → Share) :
    Prop where
  exact : ∀ o, o.Exact cfg → x.1.ref o = (x.1.total cfg g).count o
  all : ∀ o ∈ x.1.total cfg g, o.Exists x.1.ids
  known : ∀ t, ∀ o ∈ (g t).known, o.Exists x.1.ids
  queues : ∀ p, x.1.ids.port ≤ p → (x.1.ipc.ports p).queue = []
  records : x.1.ipc.WaitInv x.1.waiting x.1.nextWait
  wait : ∀ t, (g t).wait = x.1.waiting t
  threads : ∀ t w, x.1.waiting t = some w → t < cfg.threadCount
  tasks : ∀ t, t < cfg.threadCount → cfg.taskOf t < x.1.ids.task
  smooth : ∀ t, (g t).smooth = (x.2 t).smooth
  net : ∀ t, (g t).clean = true → ∀ o, o.Exact cfg → o.Exists (x.2 t).ids →
    (x.2 t).net o = (g t).refs.count o
  began : ∀ t (o : Obj), o.Exists (x.2 t).ids → o.Exists x.1.ids

/-- Tables of tasks: an action may ask for the table of its own task or of one it holds. -/
def Share.mayUse (k : TaskId) (g : Share) (task : TaskId) : Prop := task = k ∨ .task task ∈ g.refs

def Share.knows (g : Share) (o : Obj) : Prop := o ∈ g.refs ∨ o ∈ g.known

/-- How a thread of task `k` has to deal with references. -/
def refDiscipline (k : TaskId) : Discipline CapAct CapAct.Res Share where
  may
    | .grant task o _ _, g => g.mayUse k task ∧ g.knows o
    | .setHandleTag task _ _, g => g.mayUse k task
    | .clearHandle task _, g => g.mayUse k task
    | .cloneHandles _, _ | .takeTable _, _ | .createTask, _ => False
    | .retain o, g => g.knows o
    | .release o, g => o ∈ g.refs
    | .sendDirect _ m, g => (m.refs : Multiset Obj) ≤ g.refs
    | .sendQueue p m, g => .port p ∈ g.refs ∧ (m.refs : Multiset Obj) ≤ g.refs
    | .recvBegin call, g => g.wait = none ∧ call.ports.Nodup
    | .recvWait w call, g => g.wait = some (w, call)
    | _, _ => True
  upd
    | .portFromHandle .., r, g, g' => g' = { g with refs := ((r.map Obj.port).toList : Multiset Obj) + g.refs }
    | .taskFromHandle .., r, g, g' => g' = { g with refs := ((r.map Obj.task).toList : Multiset Obj) + g.refs }
    | .exportCap .., r, g, g' => g' = { g with refs := (r.toList : Multiset Obj) + g.refs }
    | .inherit .., r, g, g' => g' = { g with refs := (r.toList : Multiset Obj) + g.refs }
    | .grant .., handle, g, g' => g' = { g with clean := g.clean && decide (handle = 0) }
    | .setHandleTag .., ok, g, g' => g' = { g with smooth := g.smooth && ok }
    | .clearHandle .., r, g, g' =>
      g' = { g with refs := (r.toList : Multiset Obj) + g.refs, clean := g.clean && r.isNone }
    | .retain o, _, g, g' => g' = { g with refs := o ::ₘ g.refs }
    | .release o, _, g, g' => g.refs = o ::ₘ g'.refs ∧ g' = { g with refs := g'.refs }
    | .replyPort, r, g, g' => g' = { g with known := (r.map Obj.port).toList ++ g.known }
    | .createPort, r, g, g' => g' = { g with known := (r.map Obj.port).toList ++ g.known }
    | .createBuffer, r, g, g' => g' = { g with refs := ((r.map Obj.buffer).toList : Multiset Obj) + g.refs }
    | .sendDirect _ m, r, g, g' =>
      if r.isSome then g.refs = (m.refs : Multiset Obj) + g'.refs ∧ g' = { g with refs := g'.refs, clean := false }
      else g' = g
    | .sendQueue _ m, _, g, g' =>
      g.refs = (m.refs : Multiset Obj) + g'.refs ∧ g' = { g with refs := g'.refs, clean := false }
    | .handoff _, ok, g, g' => g' = { g with smooth := g.smooth && ok }
    | .recvBegin call, .inl w, g, g' => g' = { g with wait := some (w, call) }
    | .recvBegin _, .inr (_, m), g, g' =>
      g' = { g with refs := (m.refs : Multiset Obj) + g.refs, clean := false }
    | .recvWait .., (_, m), g, g' =>
      g' = { g with refs := (m.refs : Multiset Obj) + g.refs, wait := none, clean := false }
    | .tryTake _, r, g, g' =>
      g' = { g with refs := (r.elim [] IpcMessage.refs : List Obj) + g.refs, clean := g.clean && r.isNone }
    | _, _, g, g' => g' = g

/-! ## One action -/

namespace RefInv

open CapSystem (recordAct)

variable {cfg : CapConfig} {s s' : CapState} {info info' : ThreadId → CallInfo}
  {g : ThreadId → Share} {g' : Share} {t : ThreadId} {added removed : Multiset Obj} {o : Obj}

theorem total_update (ht : t < cfg.threadCount)
    (hbal : s'.shared cfg + g'.refs + removed = s.shared cfg + (g t).refs + added) :
    s'.total cfg (update g t g') + removed = s.total cfg g + added := by
  have hsum := sum_range_of_eq_off (fun u => (g u).refs)
    (fun u => (update g t g' u).refs) ht fun u hu => by
      rw [update_of_ne hu]
  simp only [update_self] at hsum
  unfold CapState.total
  refine add_right_cancel (b := (g t).refs) ?_
  calc _ = s'.shared cfg + (∑ u ∈ range cfg.threadCount, (update g t g' u).refs +
        (g t).refs) + removed := by abel
    _ = s'.shared cfg + g'.refs + removed + ∑ u ∈ range cfg.threadCount, (g u).refs := by
        rw [hsum]
        abel
    _ = _ := by
        rw [hbal]
        abel

/-- What an action of thread `t` does to the references and counts. -/
structure Moves (cfg : CapConfig) (s s' : CapState) (before after : Share) (began : ObjIds) : Prop where
  /-- References made or dropped by the action change the count. -/
  balance : ∃ added removed : Multiset Obj,
    s'.shared cfg + after.refs + removed = s.shared cfg + before.refs + added ∧
    (∀ o, o.Exact cfg → s'.ref o + removed.count o = s.ref o + added.count o) ∧
    ∀ o ∈ added, o.Exists s'.ids
  ids : ∀ o : Obj, o.Exists s.ids → o.Exists s'.ids
  known : ∀ o ∈ after.known, o ∈ before.known ∨ o.Exists s'.ids
  /-- As long as the call is clean, nothing changed outside the thread. -/
  clean : after.clean = true → before.clean = true ∧
    ∀ o, o.Exact cfg → o.Exists began → (s'.shared cfg).count o = (s.shared cfg).count o

/-- The invariant after the action `a` of `t`. -/
abbrev After (cfg : CapConfig) (s : CapState) (info : ThreadId → CallInfo) (g : ThreadId → Share)
    (t : ThreadId) (a : CapAct) (s' : CapState) (g' : Share) : Prop :=
  RefInv cfg (s', recordAct info t a s s') (update g t g')

section
variable (h : RefInv cfg (s, info) g)
include h

theorem waits : s.ipc.WaitInv s.waiting s.nextWait := h.records

theorem queue_eq_nil (hp : s.ids.port ≤ p) : (s.ipc.ports p).queue = [] := h.queues p hp

section
variable (ht : t < cfg.threadCount)
include ht

theorem next (hm : Moves cfg s s' (g t) g' (info t).ids)
    (hqueues : ∀ p, s'.ids.port ≤ p → (s'.ipc.ports p).queue = [])
    (hrecords : s'.ipc.WaitInv s'.waiting s'.nextWait)
    (hwait : ∀ u, (update g t g' u).wait = s'.waiting u)
    (htasks : s.ids.task ≤ s'.ids.task) (hsmooth : g'.smooth = ((g t).smooth && a.smooth s)) :
    After cfg s info g t a s' g' := by
  obtain ⟨added, removed, hbal, href, hadd⟩ := hm.balance
  have htotal := total_update ht hbal
  constructor
  · intro o ho
    have hcount := congrArg (count o) htotal
    simp only [count_add] at hcount
    have hr := href o ho
    have he := h.exact o ho
    simp only at he ⊢
    omega
  · intro o ho
    have hmem : o ∈ s.total cfg g + added := by
      rw [← htotal]
      exact mem_add.mpr (.inl ho)
    rcases mem_add.mp hmem with hmem | hmem
    · exact hm.ids o (h.all o hmem)
    · exact hadd o hmem
  · intro u o ho
    refine update_cases (fun _ ho => ?_) (fun _ ho => hm.ids o (h.known u o ho)) ho
    rcases hm.known o ho with ho | ho
    · exact hm.ids o (h.known t o ho)
    · exact ho
  · exact hqueues
  · exact hrecords
  · exact hwait
  · intro u w hu
    have hu' := hwait u
    by_cases hut : u = t
    · exact hut ▸ ht
    · rw [update_of_ne hut, h.wait u] at hu'
      exact h.threads u w (hu'.trans hu)
  · intro u hu
    exact lt_of_lt_of_le (h.tasks u hu) htasks
  · intro u
    simp only [recordAct]
    exact update_cases₂ (fun _ => by rw [hsmooth, h.smooth t]) fun _ => h.smooth u
  · intro u hclean o ho hex
    simp only [recordAct] at hex ⊢
    refine update_cases₂ (fun _ hclean hex => ?_) (fun _ hclean => h.net u hclean o ho) hclean hex
    obtain ⟨hbefore, hsame⟩ := hm.clean hclean
    have hnet := h.net t hbefore o ho hex
    have hcount := congrArg (count o) hbal
    simp only [count_add] at hcount
    have hr := href o ho
    have hs := hsame o ho hex
    simp only at hnet ⊢
    omega
  · intro u o hex
    simp only [recordAct] at hex
    exact update_cases (fun _ hex => hm.ids o (h.began t o hex)) (fun _ hex => hm.ids o (h.began u o hex)) hex

theorem nextQuiet (hm : Moves cfg s s' (g t) g' (info t).ids) (hipc : s'.ipc = s.ipc)
    (hnext : s'.nextWait = s.nextWait) (hwaiting : s'.waiting = s.waiting)
    (hports : s.ids.port ≤ s'.ids.port) (htasks : s.ids.task ≤ s'.ids.task)
    (hwait : g'.wait = (g t).wait) (hsmooth : g'.smooth = ((g t).smooth && a.smooth s)) :
    After cfg s info g t a s' g' := by
  refine h.next ht hm (fun p hp => ?_) ?_ (fun u => ?_) htasks hsmooth
  · rw [hipc]
    exact h.queues p (le_trans hports hp)
  · rw [hipc, hnext, hwaiting]
    exact h.records
  · rw [hwaiting]
    exact update_cases (fun hut => by rw [hut, hwait]; exact h.wait t) fun _ => h.wait u

theorem exists_of_mem (ho : o ∈ (g t).refs) :
    o.Exists s.ids := by
  refine h.all o (mem_add.mpr (.inr ?_))
  exact mem_sum.mpr ⟨t, Finset.mem_range.mpr ht, ho⟩

theorem exists_of_knows (ho : (g t).knows o) :
    o.Exists s.ids := by
  rcases ho with ho | ho
  · exact h.exists_of_mem ht ho
  · exact h.known t o ho

theorem ref_pos (ho : o ∈ (g t).refs) (hexact : o.Exact cfg) : 0 < s.ref o := by
  have he : s.ref o = (s.total cfg g).count o := h.exact o hexact
  rw [he, count_pos]
  refine mem_add.mpr (.inr ?_)
  exact mem_sum.mpr ⟨t, Finset.mem_range.mpr ht, ho⟩

theorem task_lt (hk : (g t).mayUse (cfg.taskOf t) k) : k < s.ids.task := by
  rcases hk with rfl | hk
  · exact h.tasks t ht
  · exact h.exists_of_mem ht hk

end

end

end RefInv

end Bunix.Kernel
