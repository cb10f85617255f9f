import Bunix.Kernel.CapRefs

/-! # Reference counts: the actions

Every action that a thread may take under `refDiscipline` keeps the counts exact.
-/
namespace Bunix.Kernel

open Function Option Nat

/-- A thread has left the receive call `call`. -/
abbrev CapState.left (s : CapState) (t : ThreadId) (call : RecvCall) : CapState :=
  { s with
    ipc := s.ipc.unregister t call.ports
    waiting := update s.waiting t none }

namespace RefInv

open Bunix.Lib Prog CapState Multiset
open CapSystem (recordAct)

variable {cfg : CapConfig} {s s' : CapState} {info : ThreadId → CallInfo} {began : ObjIds}
  {g : ThreadId → Share} {before after g' : Share} {t : ThreadId} {o : Obj} {k : TaskId}
  {p : PortId} {m : IpcMessage} {slab : Bool} {ipc : Ipc IpcMessage} {a : CapAct} {handle : Nat}
  {w : WaitId} {call : RecvCall}

/-! ## What an action moves -/

theorem Moves.still (hids : s'.ids = s.ids) (href : s'.ref = s.ref)
    (hshared : s'.shared cfg = s.shared cfg) (hrefs : after.refs = before.refs)
    (hknown : after.known = before.known) (hclean : after.clean = true → before.clean = true) :
    Moves cfg s s' before after began := by
  refine ⟨⟨0, 0, ?_, fun o _ => ?_, fun o ho => ?_⟩, fun o ho => ?_, fun o ho => ?_, fun hc => ?_⟩
  · rw [hshared, hrefs]
  · rw [href]
  · cases notMem_zero _ ho
  · rw [hids]
    exact ho
  · rw [← hknown]
    exact .inl ho
  · exact ⟨hclean hc, fun o _ _ => by rw [hshared]⟩

theorem Moves.retain (hex : o.Exists s.ids) (hrefs : after.refs = o ::ₘ before.refs)
    (hknown : after.known = before.known) (hclean : after.clean = before.clean) :
    Moves cfg s (s.retain cfg o) before after began := by
  have hsame := retain_same cfg s o
  refine ⟨⟨{o}, 0, ?_, fun o' ho' => ?_, fun o' ho' => ?_⟩, fun o' ho' => ?_, fun o' ho' => ?_, fun hc => ?_⟩
  · rw [hsame.shared, hrefs, ← singleton_add]
    abel
  · rw [retain_ref ho']
    simp
  · rw [mem_singleton.mp ho', hsame.ids]
    exact hex
  · rw [hsame.ids]
    exact ho'
  · rw [← hknown]
    exact .inl ho'
  · exact ⟨hclean ▸ hc, fun o' _ _ => by rw [hsame.shared]⟩

theorem Moves.release (hpos : o.Exact cfg → 0 < s.ref o) (hrefs : before.refs = o ::ₘ after.refs)
    (hknown : after.known = before.known) (hclean : after.clean = before.clean) :
    Moves cfg s (s.release cfg o) before after began := by
  have hsame := release_same cfg s o
  refine ⟨⟨0, {o}, ?_, fun o' ho' => ?_, fun o' ho' => ?_⟩, fun o' ho' => ?_, fun o' ho' => ?_, fun hc => ?_⟩
  · rw [hsame.shared, hrefs, ← singleton_add]
    abel
  · rw [release_ref ho' fun he heq => heq ▸ hpos (heq ▸ he)]
    simp
  · cases notMem_zero _ ho'
  · rw [hsame.ids]
    exact ho'
  · rw [← hknown]
    exact .inl ho'
  · exact ⟨hclean ▸ hc, fun o' _ _ => by rw [hsame.shared]⟩

theorem Moves.pass (hids : s'.ids = s.ids) (href : s'.ref = s.ref)
    (hbal : s'.shared cfg + after.refs = s.shared cfg + before.refs)
    (hknown : after.known = before.known) (hclean : after.clean = false) :
    Moves cfg s s' before after began := by
  refine ⟨⟨0, 0, ?_, fun o _ => ?_, fun o ho => ?_⟩, fun o ho => ?_, fun o ho => ?_, fun hc => ?_⟩
  · rw [hbal]
  · rw [href]
  · cases notMem_zero _ ho
  · rw [hids]
    exact ho
  · rw [← hknown]
    exact .inl ho
  · rw [hclean] at hc
    cases hc

/-- A slot of task `k` is filled and the object retained. -/
theorem Moves.fill {table acquired}
    (hf : HandleTable.Filled h (s.handles k) table) (hk : k < s.ids.task) (hex : h.obj.Exists s.ids)
    (hrefs : after.refs = before.refs) (hknown : after.known = before.known)
    (hclean : after.clean = false) :
    Moves cfg s (({ s with acquired }.setTable k table).retain cfg h.obj) before after began := by
  have hsame := retain_same cfg ({ s with acquired }.setTable k table) h.obj
  have htable : ({ s with acquired }.setTable k table).shared cfg = s.shared cfg + {h.obj} := by
    refine add_right_cancel (b := (s.handles k).objs) ?_
    have hset : (s.setTable k table).shared cfg + (s.handles k).objs = s.shared cfg + table.objs :=
      shared_setTable cfg table hk
    rw [hf.objs_eq, ← singleton_add, ← add_assoc] at hset
    exact hset
  refine ⟨⟨{h.obj}, 0, ?_, fun o' ho' => ?_, fun o' ho' => ?_⟩, fun o' ho' => ?_, fun o' ho' => ?_, fun hc => ?_⟩
  · rw [hsame.shared, htable, hrefs]
    abel
  · rw [retain_ref ho']
    simp [setTable]
  · rw [mem_singleton.mp ho', hsame.ids]
    exact hex
  · rw [hsame.ids]
    exact ho'
  · rw [← hknown]
    exact .inl ho'
  · rw [hclean] at hc
    cases hc

/-! ## New objects -/

theorem shared_newPort (cfg : CapConfig) (hq : (s.ipc.ports s.ids.port).queue = []) :
    ({ s with ids := { s.ids with port := s.ids.port + 1 } } : CapState).shared cfg = s.shared cfg := by
  have hzero : s.queueRefs s.ids.port = 0 := by
    unfold queueRefs
    rw [hq]
    rfl
  show ∑ k ∈ Finset.range s.ids.task, (s.handles k).objs +
      ∑ p ∈ Finset.range (s.ids.port + 1), s.queueRefs p +
      ∑ k ∈ Finset.range s.ids.task, s.replyRefs k +
      ∑ t ∈ Finset.range cfg.threadCount, s.delivered t = _
  rw [Finset.sum_range_succ, hzero, add_zero]
  rfl

theorem exists_newPort (ids : ObjIds) (o : Obj) (ho : o.Exists ids) :
    o.Exists { ids with port := ids.port + 1 } := by
  cases o with
  | port p => exact lt_succ_of_lt ho
  | buffer b | task k => exact ho
  | hwResource r | schedPolicy c => trivial

theorem exists_newBuffer (ids : ObjIds) (o : Obj) (ho : o.Exists ids) :
    o.Exists { ids with buffer := ids.buffer + 1 } := by
  cases o with
  | port p | task k => exact ho
  | buffer b => exact lt_succ_of_lt ho
  | hwResource r | schedPolicy c => trivial

theorem Moves.newPort (hq : (s.ipc.ports s.ids.port).queue = []) (hrefs : after.refs = before.refs)
    (hknown : after.known = .port s.ids.port :: before.known) (hclean : after.clean = before.clean) :
    Moves cfg s { s with ids := { s.ids with port := s.ids.port + 1 } } before after began := by
  have hshared := shared_newPort cfg hq
  refine ⟨⟨0, 0, ?_, fun o _ => rfl, fun o ho => ?_⟩, exists_newPort s.ids, fun o ho => ?_, fun hc => ?_⟩
  · rw [hshared, hrefs]
  · cases notMem_zero _ ho
  · rw [hknown, List.mem_cons] at ho
    rcases ho with rfl | ho
    · exact .inr (lt_succ_self _)
    · exact .inl ho
  · exact ⟨hclean ▸ hc, fun o _ _ => by rw [hshared]⟩

theorem ref_eq_zero (h : RefInv cfg (s, info) g) (hexact : o.Exact cfg) (hex : ¬o.Exists s.ids) :
    s.ref o = 0 := by
  have he : s.ref o = (s.total cfg g).count o := h.exact o hexact
  rw [he, count_eq_zero]
  exact fun ho => hex (h.all o ho)

theorem Moves.newBuffer (hzero : s.ref (.buffer s.ids.buffer) = 0)
    (hrefs : after.refs = .buffer s.ids.buffer ::ₘ before.refs) (hknown : after.known = before.known)
    (hclean : after.clean = before.clean) :
    Moves cfg s { s with
      ids := { s.ids with buffer := s.ids.buffer + 1 }
      ref := update s.ref (.buffer s.ids.buffer) 1 } before after began := by
  have hshared : ({ s with
      ids := { s.ids with buffer := s.ids.buffer + 1 }
      ref := update s.ref (.buffer s.ids.buffer) 1 } : CapState).shared cfg = s.shared cfg := rfl
  refine ⟨⟨{.buffer s.ids.buffer}, 0, ?_, fun o _ => ?_, fun o ho => ?_⟩, exists_newBuffer s.ids,
    fun o ho => ?_, fun hc => ?_⟩
  · rw [hshared, hrefs, ← singleton_add]
    abel
  · by_cases heq : o = .buffer s.ids.buffer
    · subst heq
      simp [hzero]
    · have hcount : count o {Obj.buffer s.ids.buffer} = 0 := by
        rw [count_eq_zero, mem_singleton]
        exact heq
      rw [hcount]
      simp [update_of_ne heq]
  · rw [mem_singleton.mp ho]
    exact lt_succ_self _
  · rw [← hknown]
    exact .inl ho
  · exact ⟨hclean ▸ hc, fun o _ _ => by rw [hshared]⟩

theorem shared_setReply (cfg : CapConfig) (hk : k < s.ids.task) (hnone : s.replyPort k = none) (p : PortId) :
    ({ s with replyPort := update s.replyPort k (some p) } : CapState).shared cfg =
      s.shared cfg + {.port p} := by
  have hsum := sum_range_of_eq_off s.replyRefs
    (({ s with replyPort := update s.replyPort k (some p) } : CapState).replyRefs) hk
    fun j hj => by simp only [replyRefs, update_of_ne hj]
  have hold : s.replyRefs k = 0 := by simp [replyRefs, hnone]
  have hnew : ({ s with replyPort := update s.replyPort k (some p) } : CapState).replyRefs k =
    {.port p} := by simp [replyRefs]
  rw [hold, hnew, add_zero] at hsum
  show ∑ k ∈ Finset.range s.ids.task, (s.handles k).objs +
      ∑ p ∈ Finset.range s.ids.port, s.queueRefs p + ∑ j ∈ Finset.range s.ids.task,
        ({ s with replyPort := update s.replyPort k (some p) } : CapState).replyRefs j +
      ∑ t ∈ Finset.range cfg.threadCount, s.delivered t = _
  rw [hsum]
  unfold CapState.shared references
  abel

/-- The first call of `task_reply_port`: the new port gets its reference from the task. -/
theorem Moves.newReplyPort (hbegan : ¬(Obj.port s.ids.port).Exists began)
    (hids : s'.ids = { s.ids with port := s.ids.port + 1 })
    (hshared : s'.shared cfg = s.shared cfg + {.port s.ids.port}) (href : s'.ref = s.ref)
    (hrefs : after.refs = before.refs) (hknown : after.known = .port s.ids.port :: before.known)
    (hclean : after.clean = before.clean) :
    Moves cfg s (s'.retain cfg (.port s.ids.port)) before after began := by
  have hsame := retain_same cfg s' (.port s.ids.port)
  refine ⟨⟨{.port s.ids.port}, 0, ?_, fun o' ho' => ?_, fun o' ho' => ?_⟩, fun o' ho' => ?_,
    fun o' ho' => ?_, fun hc => ?_⟩
  · rw [hsame.shared, hshared, hrefs]
    abel
  · rw [retain_ref ho', href]
    simp
  · rw [mem_singleton.mp ho', hsame.ids, hids]
    exact lt_succ_self _
  · rw [hsame.ids, hids]
    exact exists_newPort s.ids o' ho'
  · rw [hknown, List.mem_cons] at ho'
    rw [hsame.ids, hids]
    rcases ho' with rfl | ho'
    · exact .inr (lt_succ_self _)
    · exact .inl ho'
  · refine ⟨hclean ▸ hc, fun o' _ hex => ?_⟩
    -- the new port was not there when the call began
    have hcount : count o' {Obj.port s.ids.port} = 0 := by
      rw [count_eq_zero, mem_singleton]
      exact fun he => hbegan (he ▸ hex)
    rw [hsame.shared, hshared, Multiset.count_add, hcount, add_zero]

/-! ## Messages -/

theorem shared_eq (hids : s'.ids = s.ids) (hhandles : s'.handles = s.handles)
    (hreply : s'.replyPort = s.replyPort) (hqueue : ∀ q, (s'.ipc.ports q).queue = (s.ipc.ports q).queue)
    (hd : ∀ u, s'.delivered u = s.delivered u) : s'.shared cfg = s.shared cfg := by
  unfold CapState.shared references queueRefs replyRefs
  simp only [hids, hhandles, hreply, hqueue, hd]

theorem delivered_eq (hwaiting : s'.waiting = s.waiting) (hwaits : s'.ipc.waits = s.ipc.waits)
    (u : ThreadId) : s'.delivered u = s.delivered u := by
  unfold delivered
  rw [hwaiting, hwaits]

theorem shared_sendQueue (hp : p < s.ids.port) :
    ({ s with ipc := (s.ipc.sendQueue p m).2 } : CapState).shared cfg = s.shared cfg + m.refs := by
  have hbal := shared_queue cfg { s with ipc := (s.ipc.sendQueue p m).2 } hp rfl rfl rfl
    (fun q hq => by simp [queueRefs, Ipc.sendQueue, hq]) (delivered_eq rfl rfl)
  have hnew : ({ s with ipc := (s.ipc.sendQueue p m).2 } : CapState).queueRefs p =
      m.refs + s.queueRefs p := by
    simpa [queueRefs, Ipc.sendQueue] using List.perm_append_comm
  rw [hnew, ← add_assoc] at hbal
  exact add_right_cancel hbal

theorem shared_take (h : RefInv cfg (s, info) g) (htake : s.ipc.take p = some (m, ipc)) :
    ({ s with ipc } : CapState).shared cfg + m.refs = s.shared cfg := by
  obtain ⟨rest, hq, rfl⟩ := Ipc.take_some htake
  have hp : p < s.ids.port := by
    by_contra hp
    rw [h.queue_eq_nil (Nat.le_of_not_lt hp)] at hq
    cases hq
  have hbal := shared_queue cfg
    { s with ipc := s.ipc.setPort p { s.ipc.ports p with queue := rest } } hp rfl rfl rfl
    (fun q hqp => by simp [queueRefs, hqp]) (delivered_eq rfl rfl)
  have hold : s.queueRefs p = m.refs + ({ s with
      ipc := s.ipc.setPort p { s.ipc.ports p with queue := rest } } : CapState).queueRefs p := by
    simp [queueRefs, hq]
  rw [hold, ← add_assoc] at hbal
  exact add_right_cancel hbal

theorem shared_sendDirect (h : RefInv cfg (s, info) g) (hs : s.ipc.sendDirect p m = some (r, ipc)) :
    ({ s with ipc } : CapState).shared cfg = s.shared cfg + m.refs := by
  obtain ⟨w, call, hr, hnone, _, _, hipc⟩ := h.waits.sendDirect_spec hs
  have hwaits : ipc.waits = update s.ipc.waits w (some (m, (s.ipc.ports p).receiverIndex)) := by
    rw [hipc]
    rfl
  have hqueue : ∀ q, (ipc.ports q).queue = (s.ipc.ports q).queue := by
    intro q
    rw [hipc]
    exact Ipc.setPort_cases (fun hqp => by rw [hqp]) fun _ => rfl
  have hrefs : ({ s with ipc } : CapState).references = s.references := by
    unfold references queueRefs replyRefs
    simp only [hqueue]
  have hbal := shared_delivered cfg (h.threads r _ hr) hrefs fun u hu => by
    unfold delivered
    cases hw : s.waiting u with
    | none => rfl
    | some v =>
      have hne : v.1 ≠ w := by
        intro he
        exact hu (h.waits.distinct u r w v.2 call (by rw [← he]; exact hw) hr)
      simp [hwaits, update_of_ne hne]
  have hbefore : s.delivered r = 0 := by simp [delivered, hr, hnone]
  have hafter : ({ s with ipc } : CapState).delivered r = m.refs := by simp [delivered, hr, hwaits]
  rw [hbefore, hafter, add_zero] at hbal
  exact hbal

/-! ## The actions of `CapState.exec` -/

theorem of_map (h : some (y.map some id) = some (some r, s')) : y = (r, s') := by
  obtain ⟨rfl, rfl⟩ := h
  rfl

section
variable (h : RefInv cfg (s, info) g)
include h

theorem exists_of_handle (hk : k < s.ids.task) {hd}
    (hmem : some hd ∈ s.handles k) : hd.obj.Exists s.ids := by
  refine h.all _ (mem_add.mpr (.inl (mem_add.mpr (.inl ?_))))
  refine mem_add.mpr (.inl (mem_add.mpr (.inl ?_)))
  refine mem_sum.mpr ⟨k, Finset.mem_range.mpr hk, ?_⟩
  exact List.mem_filterMap.mpr ⟨some hd, hmem, rfl⟩

section
variable (ht : t < cfg.threadCount)
include ht

theorem nextRetain
    (ha : a.smooth s = true) (hex : o.Exists s.ids) (hg : g' = { g t with refs := o ::ₘ (g t).refs }) :
    After cfg s info g t a (s.retain cfg o) g' := by
  subst hg
  have hsame := retain_same cfg s o
  exact h.nextQuiet ht (.retain hex rfl rfl rfl) hsame.ipc hsame.nextWait hsame.waiting
    (by rw [hsame.ids]) (by rw [hsame.ids]) rfl (by rw [ha, Bool.and_true])

theorem nextSame (hrefs : g'.refs = (g t).refs) (hknown : g'.known = (g t).known)
    (hclean : g'.clean = true → (g t).clean = true) (hwait : g'.wait = (g t).wait)
    (hsmooth : g'.smooth = ((g t).smooth && a.smooth s)) :
    After cfg s info g t a s g' :=
  h.nextQuiet ht (.still rfl rfl rfl hrefs hknown hclean) rfl rfl rfl le_rfl le_rfl hwait hsmooth

theorem nextIdle (hg' : g' = g t) (ha : a.smooth s = true) : After cfg s info g t a s g' := by
  subst hg'
  exact h.nextSame ht rfl rfl id rfl (by rw [ha, Bool.and_true])

theorem next_lookup (ha : a.smooth s = true) {found}
    (hl : s.lookup cfg found = (r, s')) (hex : ∀ o, found = some o → o.Exists s.ids)
    (hg : g' = { g t with refs := (r.toList : Multiset Obj) + (g t).refs }) :
    After cfg s info g t a s' g' := by
  unfold CapState.lookup at hl
  split at hl
  · rename_i o
    cases hl
    exact h.nextRetain ht ha (hex o rfl) (by rw [hg]; simp [singleton_add])
  · cases hl
    subst hg
    exact h.nextSame ht (by simp) rfl id rfl (by rw [ha, Bool.and_true])

theorem next_grant {rights how} (hk : (g t).mayUse (cfg.taskOf t) k)
    (ho : (g t).knows o) (hg : s.grant cfg slab k o rights how = (handle, s'))
    (hg' : g' = { g t with clean := (g t).clean && decide (handle = 0) }) :
    After cfg s info g t (.grant k o rights how) s' g' := by
  subst hg'
  unfold CapState.grant at hg
  split at hg
  · rename_i handle' table hgrant
    cases hg
    rcases HandleTable.grantObj_spec hgrant with ⟨hf, _⟩ | ⟨_, hne, hfilled⟩
    · cases hf
    have hsame := retain_same cfg
      ({ s with acquired := ⟨k, o, rights, how⟩ :: s.acquired }.setTable k table) o
    refine h.nextQuiet ht (.fill hfilled (h.task_lt ht hk) (h.exists_of_knows ht ho) rfl rfl ?_)
      hsame.ipc hsame.nextWait hsame.waiting (by rw [hsame.ids]; rfl) (by rw [hsame.ids]; rfl) rfl
      (by simp [CapAct.smooth])
    simp [hne]
  · cases hg
    refine h.nextSame ht rfl rfl (fun hc => ?_) rfl (by simp [CapAct.smooth])
    exact (Bool.and_eq_true_iff.mp hc).1

theorem next_setHandleTag {tag ok} (hk : (g t).mayUse (cfg.taskOf t) k)
    (hs : s.setHandleTag k handle tag = (ok, s'))
    (hg' : g' = { g t with smooth := (g t).smooth && ok }) :
    After cfg s info g t (.setHandleTag k handle tag) s' g' := by
  subst hg'
  have hok : ok = ((s.handles k).slot handle).isSome ∧
      s' = s.setTable k ((s.handles k).taskSetHandleTag handle tag).2 := by
    simp only [CapState.setHandleTag, Prod.mk.injEq] at hs
    obtain ⟨rfl, rfl⟩ := hs
    refine ⟨?_, rfl⟩
    unfold HandleTable.taskSetHandleTag
    split
    · rename_i hslot
      rw [hslot]
      rfl
    · rename_i hslot
      rw [hslot]
      rfl
  obtain ⟨hok, rfl⟩ := hok
  have hshared := shared_setTable cfg ((s.handles k).taskSetHandleTag handle tag).2
    (h.task_lt ht hk)
  rw [HandleTable.objs_taskSetHandleTag] at hshared
  exact h.nextQuiet ht (.still rfl rfl (add_right_cancel hshared) rfl rfl id) rfl rfl rfl le_rfl le_rfl
    rfl (by simp [CapAct.smooth, hok])

theorem next_clearHandle (hk : (g t).mayUse (cfg.taskOf t) k) (hs : s.clearHandle k handle = (r, s'))
    (hg' : g' = { g t with
      refs := (r.toList : Multiset Obj) + (g t).refs, clean := (g t).clean && r.isNone }) :
    After cfg s info g t (.clearHandle k handle) s' g' := by
  subst hg'
  unfold CapState.clearHandle at hs
  split at hs
  · rename_i o table hclear
    cases hs
    obtain ⟨hobjs, _⟩ := HandleTable.clear_some hclear
    have hshared := shared_setTable cfg table (h.task_lt ht hk)
    rw [hobjs, ← singleton_add, ← add_assoc] at hshared
    have hmoved := add_right_cancel hshared
    refine h.nextQuiet ht (.pass rfl rfl ?_ rfl (by simp)) rfl rfl rfl le_rfl le_rfl rfl
      (by simp [CapAct.smooth])
    rw [← hmoved]
    simp only [toList_some, coe_singleton]
    abel
  · cases hs
    exact h.nextSame ht (by simp) rfl (by simp) rfl (by simp [CapAct.smooth])

theorem next_replyPort (hs : s.taskReplyPort cfg slab (cfg.taskOf t) = (r, s'))
    (hex : ∀ p, s.replyPort (cfg.taskOf t) = some p → (Obj.port p).Exists s.ids)
    (hg' : g' = { g t with known := (r.map Obj.port).toList ++ (g t).known }) :
    After cfg s info g t .replyPort s' g' := by
  subst hg'
  unfold CapState.taskReplyPort CapState.createPort at hs
  split at hs
  · rename_i p hp
    cases hs
    refine h.nextQuiet ht ?_ rfl rfl rfl le_rfl le_rfl rfl (by simp [CapAct.smooth])
    refine ⟨⟨0, 0, rfl, fun _ _ => rfl, fun o ho => ?_⟩, fun _ ho => ho, fun o ho => ?_,
      fun hc => ⟨hc, fun _ _ _ => rfl⟩⟩
    · cases notMem_zero _ ho
    · rcases List.mem_append.mp ho with ho | ho
      · simp only [map_some, toList_some, List.mem_singleton] at ho
        rw [ho]
        exact .inr (hex p hp)
      · exact .inl ho
  · rename_i hnone
    cases slab with
    | false =>
      cases hs
      exact h.nextIdle ht rfl rfl
    | true =>
      cases hs
      have hshared := shared_setReply cfg
        (s := { s with ids := { s.ids with port := s.ids.port + 1 } }) (h.tasks t ht) hnone s.ids.port
      rw [shared_newPort cfg (h.queue_eq_nil le_rfl)] at hshared
      have hsame := retain_same cfg ({ s with
        ids := { s.ids with port := s.ids.port + 1 }
        replyPort := update s.replyPort (cfg.taskOf t) (some s.ids.port) }) (.port s.ids.port)
      refine h.nextQuiet ht (.newReplyPort ?_ rfl hshared rfl rfl rfl rfl) hsame.ipc hsame.nextWait
        hsame.waiting (by rw [hsame.ids]; exact le_succ _) (by rw [hsame.ids]) rfl
        (by simp [CapAct.smooth])
      exact fun hex => lt_irrefl _ (h.began t (.port s.ids.port) hex)

theorem next_createPort (hs : s.createPort slab = (r, s'))
    (hg' : g' = { g t with known := (r.map Obj.port).toList ++ (g t).known }) :
    After cfg s info g t .createPort s' g' := by
  subst hg'
  cases slab with
  | false =>
    cases hs
    exact h.nextIdle ht rfl rfl
  | true =>
    cases hs
    exact h.nextQuiet ht (.newPort (h.queues _ le_rfl) rfl rfl rfl) rfl rfl rfl (le_succ _) le_rfl rfl
      (by simp [CapAct.smooth])

theorem next_createBuffer (hs : s.createBuffer slab = (r, s'))
    (hg' : g' = { g t with refs := ((r.map Obj.buffer).toList : Multiset Obj) + (g t).refs }) :
    After cfg s info g t .createBuffer s' g' := by
  subst hg'
  cases slab with
  | false =>
    cases hs
    exact h.nextSame ht (by simp) rfl id rfl (by simp [CapAct.smooth])
  | true =>
    cases hs
    have hzero : s.ref (.buffer s.ids.buffer) = 0 := h.ref_eq_zero trivial (lt_irrefl _)
    exact h.nextQuiet ht (.newBuffer hzero (by simp [singleton_add]) rfl rfl) rfl rfl rfl le_rfl
      le_rfl rfl (by simp [CapAct.smooth])

theorem nextIpc
    (ha : a.smooth s = true) (hm : Moves cfg s s' (g t) g' (info t).ids) (hids : s'.ids = s.ids)
    (hqueues : ∀ p, s.ids.port ≤ p → (s'.ipc.ports p).queue = [])
    (hrecords : s'.ipc.WaitInv s'.waiting s'.nextWait) (hwait : s'.waiting = update s.waiting t g'.wait)
    (hsmooth : g'.smooth = (g t).smooth) :
    After cfg s info g t a s' g' := by
  refine h.next ht hm (by rw [hids]; exact hqueues) hrecords (fun u => ?_) (by rw [hids])
    (by rw [ha, Bool.and_true]; exact hsmooth)
  rw [hwait]
  exact update_cases₂ (fun _ => rfl) fun _ => h.wait u

end

theorem waiting_self : update s.waiting t (g t).wait = s.waiting := by
  have hwait : (g t).wait = s.waiting t := h.wait t
  rw [hwait, update_eq_self]

theorem next_sendDirect (ht : t < cfg.threadCount) (hs : s.sendDirect p m = (r, s'))
    (hg' : if r.isSome then (g t).refs = (m.refs : Multiset Obj) + g'.refs ∧
        g' = { g t with refs := g'.refs, clean := false } else g' = g t) :
    After cfg s info g t (.sendDirect p m) s' g' := by
  unfold CapState.sendDirect at hs
  split at hs
  · rename_i receiver ipc hd
    cases hs
    obtain ⟨hrefs, hg'⟩ := hg'
    have hw : g'.wait = (g t).wait := by rw [hg']
    refine h.nextIpc ht rfl (.pass rfl rfl ?_ (by rw [hg']) (by rw [hg'])) rfl (fun q hq => ?_)
      (h.waits.sendDirect hd) (by rw [hw, h.waiting_self]) (by rw [hg'])
    · rw [h.shared_sendDirect hd, hrefs]
      abel
    · obtain ⟨_, _, _, _, _, _, rfl⟩ := h.waits.sendDirect_spec hd
      exact Ipc.setPort_cases (fun hqp => by rw [← hqp]; exact h.queue_eq_nil hq) fun _ => h.queue_eq_nil hq
  · cases hs
    exact h.nextIdle ht hg' rfl

theorem next_sendQueue (ht : t < cfg.threadCount) (hp : .port p ∈ (g t).refs)
    (hs : s.sendQueue p m = (r, s')) (hrefs : (g t).refs = (m.refs : Multiset Obj) + g'.refs)
    (hg' : g' = { g t with refs := g'.refs, clean := false }) :
    After cfg s info g t (.sendQueue p m) s' g' := by
  have hlt : p < s.ids.port := h.exists_of_mem ht hp
  have hs' : s' = { s with ipc := (s.ipc.sendQueue p m).2 } := by
    simp only [CapState.sendQueue, Prod.mk.injEq] at hs
    exact hs.2.symm
  subst hs'
  have hw : g'.wait = (g t).wait := by rw [hg']
  refine h.nextIpc ht rfl (.pass rfl rfl ?_ (by rw [hg']) (by rw [hg'])) rfl (fun q hq => ?_)
    h.waits.sendQueue (by rw [hw, h.waiting_self]) (by rw [hg'])
  · rw [shared_sendQueue hlt, hrefs]
    abel
  · have hqp : q ≠ p := fun he => absurd hlt (not_lt.mpr (he ▸ hq))
    simp only [Ipc.sendQueue, Ipc.setPort_ports_ne _ hqp]
    exact h.queues q hq

/-! ## Receiving -/

theorem queues_take (htake : s.ipc.take p = some (m, ipc)) (q : PortId) (hq : s.ids.port ≤ q) :
    (ipc.ports q).queue = [] := by
  obtain ⟨rest, hp, rfl⟩ := Ipc.take_some htake
  have hqp : q ≠ p := by
    intro he
    rw [← he, h.queue_eq_nil hq] at hp
    cases hp
  rw [Ipc.setPort_ports_ne _ hqp]
  exact h.queue_eq_nil hq

theorem next_take (ht : t < cfg.threadCount)
    (ha : a.smooth s = true) (htake : s.ipc.take p = some (m, ipc))
    (hg' : g' = { g t with refs := (m.refs : Multiset Obj) + (g t).refs, clean := false }) :
    After cfg s info g t a { s with ipc } g' := by
  subst hg'
  refine h.nextIpc ht ha (.pass rfl rfl ?_ rfl rfl) rfl (h.queues_take htake) (h.waits.take htake)
    h.waiting_self.symm rfl
  rw [← h.shared_take htake]
  abel_nf

theorem congr (href : s'.ref = s.ref) (hids : s'.ids = s.ids) (hshared : s'.shared cfg = s.shared cfg)
    (hqueues : ∀ p, s.ids.port ≤ p → (s'.ipc.ports p).queue = [])
    (hrecords : s'.ipc.WaitInv s'.waiting s'.nextWait) (hwaiting : s'.waiting = s.waiting) :
    RefInv cfg (s', info) g := by
  have htotal : s'.total cfg g = s.total cfg g := by
    unfold CapState.total
    rw [hshared]
  constructor
  · intro o ho
    simp only [href, htotal]
    exact h.exact o ho
  · intro o ho
    simp only [hids, htotal] at ho ⊢
    exact h.all o ho
  · simp only [hids]
    exact h.known
  · simp only [hids]
    exact hqueues
  · exact hrecords
  · simp only [hwaiting]
    exact h.wait
  · simp only [hwaiting]
    exact h.threads
  · simp only [hids]
    exact h.tasks
  · exact h.smooth
  · exact h.net
  · simp only [hids]
    exact h.began

theorem newWait :
    RefInv cfg ({ s with ipc := s.ipc.setWait s.nextWait none, nextWait := s.nextWait + 1 }, info) g := by
  refine h.congr rfl rfl (shared_eq rfl rfl rfl (fun _ => rfl) fun u => ?_) h.queues
    h.waits.newWait rfl
  unfold delivered
  cases hw : s.waiting u with
  | none => rfl
  | some v =>
    have hne : v.1 ≠ s.nextWait := Nat.ne_of_lt (h.waits.fresh u v.1 v.2 hw)
    simp [hne]

theorem next_block (ht : t < cfg.threadCount) (ha : a.smooth s = true) (hawake : s.waiting t = none)
    (hw : w < s.nextWait) (hfree : ∀ u c, s.waiting u ≠ some (w, c)) (hnone : s.ipc.waits w = none)
    (hn : call.ports.Nodup) (hempty : s.ipc.takeAny call.ports = none)
    (hg' : g' = { g t with wait := some (w, call) }) :
    RefInv cfg (s.block t w call (s.ipc.register t w call.ports), recordAct info t a s
      (s.block t w call (s.ipc.register t w call.ports))) (update g t g') := by
  subst hg'
  have hqueue : ∀ q, ((s.ipc.register t w call.ports).ports q).queue = (s.ipc.ports q).queue := by
    intro q
    simp only [Ipc.register]
    split <;> rfl
  have hdelivered : ∀ u, (s.block t w call (s.ipc.register t w call.ports)).delivered u =
      s.delivered u := by
    intro u
    unfold delivered CapState.block
    by_cases hut : u = t
    · subst hut
      simp [hawake, Ipc.register, hnone]
    · simp [update_of_ne hut, Ipc.register]
  refine h.nextIpc ht ha (.still rfl rfl (shared_eq rfl rfl rfl hqueue hdelivered) rfl rfl id) rfl
    (fun q hq => ?_) ?_ rfl rfl
  · rw [CapState.block, hqueue]
    exact h.queues q hq
  · exact h.waits.register hawake hw hfree hnone hn (Ipc.takeAny_none hempty)

theorem shared_leave (hw : s.waiting t = some (w, call)) :
    (s.left t call).shared cfg + s.delivered t = s.shared cfg := by
  have hrefs : (s.left t call).references = s.references := by
    unfold references queueRefs replyRefs
    simp only [Ipc.unregister_queue]
  have hbal := shared_delivered cfg (h.threads t _ hw) hrefs fun u hu => by
    unfold delivered
    simp [update_of_ne hu]
  have hafter : (s.left t call).delivered t = 0 := by
    simp [delivered]
  rw [hafter, add_zero] at hbal
  exact hbal

section
variable (ht : t < cfg.threadCount)
include ht

theorem next_leave (ha : a.smooth s = true) (hw : s.waiting t = some (w, call))
    (hd : s.ipc.waits w = some (m, i))
    (hg' : g' = { g t with refs := (m.refs : Multiset Obj) + (g t).refs, wait := none, clean := false }) :
    After cfg s info g t a (s.left t call) g' := by
  subst hg'
  have hdelivered : s.delivered t = m.refs := by simp [delivered, hw, hd]
  refine h.nextIpc ht ha (.pass rfl rfl ?_ rfl rfl) rfl (fun q hq => ?_) (h.waits.leave hw) rfl rfl
  · rw [← h.shared_leave hw, hdelivered]
    abel_nf
  · rw [Ipc.unregister_queue]
    exact h.queues q hq

theorem leave (hw : s.waiting t = some (w, call)) (hd : s.ipc.waits w = none) :
    RefInv cfg (s.left t call, info)
      (update g t { g t with wait := none }) := by
  have hdelivered : s.delivered t = 0 := by simp [delivered, hw, hd]
  have hshared := h.shared_leave hw
  rw [hdelivered, add_zero] at hshared
  have hnext : After cfg s info g t .messageAlloc (s.left t call) { g t with wait := none } :=
    h.nextIpc ht rfl (.still rfl rfl hshared rfl rfl id) rfl (fun q hq => by
      rw [Ipc.unregister_queue]
      exact h.queues q hq) (h.waits.leave hw) rfl rfl
  have hinfo : recordAct info t .messageAlloc s (s.left t call) = info := by
    unfold recordAct
    simp [CapAct.smooth]
  rw [After, hinfo] at hnext
  exact hnext

theorem next_recvBegin (hawake : (g t).wait = none)
    (hn : call.ports.Nodup) (hs : s.recvBegin t call = (r, s'))
    (hg' : (refDiscipline (cfg.taskOf t)).upd (.recvBegin call) r (g t) g') :
    After cfg s info g t (.recvBegin call) s' g' := by
  have hwait : s.waiting t = none := (h.wait t).symm.trans hawake
  have h₁ := h.newWait
  unfold CapState.recvBegin at hs
  cases htake : (s.ipc.setWait s.nextWait none).takeAny call.ports with
  | some y =>
    obtain ⟨p, _, hp⟩ := Ipc.takeAny_some htake
    simp only [Ipc.recvRound_some htake, Prod.mk.injEq] at hs
    obtain ⟨rfl, rfl⟩ := hs
    exact h₁.next_take (a := .recvBegin call) ht rfl hp hg'
  | none =>
    have hround := Ipc.recvRound_none (t := t) htake (Ipc.setWait_waits_self none)
    simp only [hround, Prod.mk.injEq] at hs
    obtain ⟨rfl, rfl⟩ := hs
    refine h₁.next_block (a := .recvBegin call) ht rfl hwait (lt_succ_self _) (fun u c hu => ?_)
      (Ipc.setWait_waits_self none) hn htake hg'
    exact absurd (h.waits.fresh u _ c hu) (lt_irrefl _)

theorem next_recvWait (hwait : (g t).wait = some (w, call)) :
    (∀ r ipc, s.ipc.recvResume t w call = (some r, ipc) → ∀ g', g' = { g t with
        refs := (r.2.refs : Multiset Obj) + (g t).refs, wait := none, clean := false } →
      RefInv cfg ({ s with ipc, waiting := update s.waiting t none },
        recordAct info t (.recvWait w call) s { s with ipc, waiting := update s.waiting t none })
        (update g t g')) ∧ ∀ ipc, s.ipc.recvResume t w call = (none, ipc) →
      RefInv cfg (s.block t w call ipc, recordAct info t (.recvWait w call) s (s.block t w call ipc)) g := by
  have hw : s.waiting t = some (w, call) := (h.wait t).symm.trans hwait
  rw [h.waits.recvResume_eq hw]
  cases hd : s.ipc.waits w with
  | some d =>
    refine ⟨fun r ipc hr g' hg' => ?_, fun ipc hr => ?_⟩
    · cases hr
      exact h.next_leave ht rfl hw hd hg'
    · cases hr
  | none =>
    have h₁ := h.leave ht hw hd
    have hidle : ∀ f : Share, update (update g t { g t with wait := none }) t f =
        update g t f := fun f => update_idem ..
    have hfree : ∀ u c, update s.waiting t none u ≠ some (w, c) := by
      intro u c hu
      obtain ⟨hut, hu⟩ := of_update_none hu
      exact hut (h.waits.distinct u t w c call hu hw)
    cases htake : (s.ipc.unregister t call.ports).takeAny call.ports with
    | some y =>
      obtain ⟨p, _, hp⟩ := Ipc.takeAny_some htake
      rw [Ipc.recvRound_some htake]
      refine ⟨fun r ipc hr g' hg' => ?_, fun ipc hr => ?_⟩
      · cases hr
        have hnext := h₁.next_take (a := .recvWait w call) ht rfl hp rfl
        rw [After, hidle, update_self] at hnext
        rw [hg']
        exact hnext
      · cases hr
    | none =>
      have hround := Ipc.recvRound_none (t := t) htake
        (show (s.ipc.unregister t call.ports).waits w = none from hd)
      rw [hround]
      refine ⟨fun r ipc hr g' hg' => ?_, fun ipc hr => ?_⟩
      · cases hr
      · cases hr
        have hnext := h₁.next_block (a := .recvWait w call) ht rfl (update_self ..)
          (h.waits.fresh t w call hw) hfree hd (h.waits.nodup t w call hw) htake rfl
        rw [hidle, update_self] at hnext
        have hself : update g t { g t with wait := some (w, call) } = g := by
          rw [← hwait, update_eq_self]
        have hblock : ∀ ipc : Ipc IpcMessage, (s.left t call).block t w call ipc = s.block t w call ipc := by
          intro ipc
          simp [CapState.block]
        rw [hblock] at hnext
        rw [hself] at hnext
        exact hnext

/-- **Every action** of a thread that keeps to the discipline keeps the invariant. -/
theorem next_exec (hmay : (refDiscipline (cfg.taskOf t)).may a (g t))
    (he : CapState.exec cfg t slab a s = some (some r, s'))
    (hupd : (refDiscipline (cfg.taskOf t)).upd a r (g t) g') :
    After cfg s info g t a s' g' := by
  have hk := h.tasks t ht
  have hex : ∀ {handle : Nat} {rights : U32} {o : Obj},
      (s.handles (cfg.taskOf t)).withRights handle rights = some o → o.Exists s.ids := by
    intro handle rights o ho
    obtain ⟨hd, hmem, hobj, _⟩ := HandleTable.withRights_some ho
    exact hobj ▸ h.exists_of_handle hk hmem
  cases a with
  | portFromHandle handle rights | taskFromHandle handle rights =>
    have hs := of_map he
    simp only [CapState.portFromHandle, CapState.taskFromHandle] at hs
    split at hs
    · rename_i hfound
      cases hs
      exact h.nextRetain ht rfl (hex hfound) (by rw [hupd]; simp [singleton_add])
    · cases hs
      exact h.nextIdle ht (by rw [hupd]; simp) rfl
  | exportCap handle rights =>
    exact h.next_lookup ht rfl (of_map he) (fun _ => hex) hupd
  | canInherit handle rights | messageAlloc =>
    cases he
    exact h.nextIdle ht hupd rfl
  | inherit handle rights =>
    refine h.next_lookup ht rfl (of_map he) (fun o ho => ?_) hupd
    obtain ⟨hd, hmem, hobj, _⟩ := HandleTable.inheritable_some ho
    exact hobj ▸ h.exists_of_handle hk hmem
  | grant k o rights how => exact h.next_grant ht hmay.1 hmay.2 (of_map he) hupd
  | setHandleTag k handle tag => exact h.next_setHandleTag ht hmay (of_map he) hupd
  | clearHandle k handle => exact h.next_clearHandle ht hmay (of_map he) hupd
  | cloneHandles dst | takeTable k | createTask => exact absurd hmay id
  | retain o =>
    cases he
    exact h.nextRetain ht rfl (h.exists_of_knows ht hmay) hupd
  | release o =>
    cases he
    obtain ⟨hrefs, hg'⟩ := hupd
    have hsame := release_same cfg s o
    exact h.nextQuiet ht (.release (h.ref_pos ht hmay) hrefs (by rw [hg']) (by rw [hg'])) hsame.ipc
      hsame.nextWait hsame.waiting (by rw [hsame.ids]) (by rw [hsame.ids]) (by rw [hg'])
      (by rw [hg']; simp [CapAct.smooth])
  | replyPort =>
    refine h.next_replyPort ht (of_map he) (fun p hp => ?_) hupd
    refine h.all _ (mem_add.mpr (.inl (mem_add.mpr (.inl ?_))))
    refine mem_add.mpr (.inr (mem_sum.mpr ⟨_, Finset.mem_range.mpr hk, ?_⟩))
    simp [replyRefs, hp]
  | createPort => exact h.next_createPort ht (of_map he) hupd
  | createBuffer => exact h.next_createBuffer ht (of_map he) hupd
  | sendDirect p m => exact h.next_sendDirect ht (of_map he) hupd
  | sendQueue p m => exact h.next_sendQueue ht hmay.1 (of_map he) hupd.1 hupd.2
  | handoff r =>
    cases he
    rw [show g' = _ from hupd]
    exact h.nextQuiet ht (.still rfl rfl rfl rfl rfl id) rfl rfl rfl le_rfl le_rfl rfl rfl
  | unblock r =>
    cases he
    rw [show g' = g t from hupd]
    exact h.nextQuiet ht (.still rfl rfl rfl rfl rfl id) rfl rfl rfl le_rfl le_rfl rfl
      (by simp [CapAct.smooth])
  | recvBegin call => exact h.next_recvBegin ht hmay.1 hmay.2 (of_map he) hupd
  | recvWait w call =>
    simp only [CapState.exec] at he
    split at he
    · cases he
    simp only [some.injEq, CapState.recvWait] at he
    split at he
    · rename_i y ipc hres
      simp only [Prod.mk.injEq, some.injEq] at he
      obtain ⟨rfl, rfl⟩ := he
      exact (h.next_recvWait ht hmay).1 y ipc hres g' hupd
    · cases he
  | tryTake p =>
    have hs := of_map he
    unfold CapState.tryTake at hs
    split at hs
    · rename_i m ipc htake
      cases hs
      exact h.next_take ht rfl htake (by rw [hupd]; simp)
    · cases hs
      rw [show g' = _ from hupd]
      exact h.nextSame ht (by simp) rfl (by simp) rfl (by simp [CapAct.smooth])

theorem again_exec (hmay : (refDiscipline (cfg.taskOf t)).may a (g t))
    (he : CapState.exec cfg t slab a s = some (none, s')) :
    RefInv cfg (s', recordAct info t a s s') g := by
  cases a with
  | recvWait w call =>
    simp only [CapState.exec] at he
    split at he
    · cases he
    simp only [some.injEq, CapState.recvWait] at he
    split at he
    · cases he
    rename_i ipc hres
    simp only [Prod.mk.injEq, true_and] at he
    subst he
    exact (h.next_recvWait ht hmay).2 ipc hres
  | _ => cases he

end

end

end RefInv

end Bunix.Kernel
