import Bunix.Kernel.CapRefsRun
import Mathlib.Algebra.Order.BigOperators.Group.Finset

/-! # Reclaiming ports

A port is freed by the `ipc_port_release` that takes its count to 0, if no message is queued on it
and no thread is registered as its receiver. Nothing looks at the port again otherwise, so that a
port whose last reference goes while messages are queued stays for ever, with everything the
messages name; so does a port that is named by nothing but messages on its own queue. As long as no
step drops the last reference from outside the queues to a port in that state, every port that
nothing names has been freed, and everything that is named can be reached.
-/
namespace Bunix.Kernel

open Bunix.Lib Prog Function Multiset Finset

variable {sys : CapSystem} {op : CapOp}

namespace CapState

variable {cfg : CapConfig} {s s' s'' : CapState} {o : Obj} {p : PortId} {t : ThreadId}

def queuedRefs (s : CapState) : Multiset Obj := ∑ p ∈ Finset.range s.ids.port, s.queueRefs p

/-- What `ipc_port_release` tests once it has dropped a reference. -/
def portDestroyed (immortal : PortId → Bool) (s : CapState) (p : PortId) : Bool :=
  !immortal p && s.ref (.port p) == 0 && (s.ipc.ports p).queue.isEmpty &&
    (s.ipc.ports p).receiver.isNone

/-- No port loses a reference, and queues lose messages at most. -/
structure Grows (s s' : CapState) : Prop where
  ref : ∀ p, s.ref (.port p) ≤ s'.ref (.port p)
  queue : ∀ p, (s'.ipc.ports p).queue ≠ [] → (s.ipc.ports p).queue ≠ []
  queued : s'.queuedRefs ≤ s.queuedRefs

theorem Grows.refl (s : CapState) : Grows s s := ⟨fun _ => le_rfl, fun _ => id, le_rfl⟩

theorem Grows.trans (h : Grows s s') (h' : Grows s' s'') : Grows s s'' :=
  ⟨fun p => (h.ref p).trans (h'.ref p), fun p hp => h.queue p (h'.queue p hp), h'.queued.trans h.queued⟩

theorem Grows.congr (href : ∀ p, s.ref (.port p) ≤ s'.ref (.port p))
    (hids : s'.ids.port = s.ids.port) (hipc : s'.ipc = s.ipc) : Grows s s' := by
  refine ⟨href, fun p hp => hipc ▸ hp, ?_⟩
  unfold queuedRefs queueRefs
  rw [hids, hipc]

theorem Grows.retain (cfg : CapConfig) (s : CapState) (o : Obj) : Grows s (s.retain cfg o) := by
  have hsame := retain_same cfg s o
  refine .congr (fun p => ?_) (by rw [hsame.ids]) hsame.ipc
  have href : (s.retain cfg o).ref (.port p) = s.ref (.port p) + count (.port p) {o} :=
    retain_ref trivial
  rw [href]
  exact Nat.le_add_right ..

theorem Grows.suffix (href : s'.ref = s.ref) (hids : s'.ids.port = s.ids.port)
    (hq : ∀ p, (s'.ipc.ports p).queue <:+ (s.ipc.ports p).queue) : Grows s s' := by
  refine ⟨fun p => by rw [href], fun p hp he => hp ?_, ?_⟩
  · have := hq p
    rw [he] at this
    exact List.suffix_nil.mp this
  · unfold queuedRefs
    rw [hids]
    refine sum_le_sum fun p _ => ?_
    obtain ⟨front, hfront⟩ := hq p
    unfold queueRefs
    rw [← hfront, List.flatMap_append, ← coe_add]
    exact le_add_left _ _

theorem Grows.newPort (href : s'.ref = s.ref) (hids : s'.ids.port = s.ids.port + 1)
    (hipc : s'.ipc = s.ipc) (hq : (s.ipc.ports s.ids.port).queue = []) : Grows s s' := by
  refine ⟨fun p => by rw [href], fun p hp => hipc ▸ hp, ?_⟩
  unfold queuedRefs
  rw [hids, sum_range_succ]
  unfold queueRefs
  rw [hipc, hq]
  simp

end CapState

namespace Ipc

variable {M : Type} {s s' : Ipc M} {p q : PortId} {t : ThreadId} {w : WaitId} {m : M}

theorem take_suffix (h : s.take p = some (m, s')) (q : PortId) :
    (s'.ports q).queue <:+ (s.ports q).queue := by
  obtain ⟨rest, hp, rfl⟩ := take_some h
  refine setPort_cases (fun hqp => ?_) fun _ => List.suffix_rfl
  rw [hqp, hp]
  exact List.suffix_cons m rest

theorem recvRound_suffix (s : Ipc M) (t : ThreadId) (w : WaitId) (call : RecvCall) (q : PortId) :
    ((s.recvRound t w call).2.ports q).queue <:+ (s.ports q).queue := by
  unfold recvRound
  split
  · rename_i htake
    obtain ⟨p, _, hp⟩ := takeAny_some htake
    exact take_suffix hp q
  · cases call <;>
    · simp only [register, setWait_ports]
      split <;> exact List.suffix_refl _

theorem recvResume_suffix (s : Ipc M) (t : ThreadId) (w : WaitId) (call : RecvCall) (q : PortId) :
    ((s.recvResume t w call).2.ports q).queue <:+ (s.ports q).queue := by
  obtain ⟨s₁, hs₁, hresume⟩ := s.recvResume_from t w call
  have hq : (s₁.ports q).queue = (s.ports q).queue := by
    rcases hs₁ with rfl | ⟨ps, rfl⟩
    exacts [rfl, unregister_queue]
  rw [hresume]
  split
  · exact hq ▸ List.suffix_refl _
  · exact hq ▸ recvRound_suffix s₁ t w call q

theorem sendDirect_queue (h : s.sendDirect p m = some (t, s')) (q : PortId) :
    (s'.ports q).queue = (s.ports q).queue := by
  obtain ⟨w, _, _, _, _, rfl⟩ := sendDirect_some h
  by_cases hqp : q = p
  · subst hqp
    simp
  · simp [hqp]

end Ipc

/-! ## One action -/

namespace RefInv

variable {cfg : CapConfig} {s s' : CapState} {info : ThreadId → CallInfo} {g : ThreadId → Share}
  {t : ThreadId} {slab : Bool}

open CapState

theorem snd_of_map {α : Type} {y : α × CapState} {r : Option α}
    (he : some (y.map some id) = some (r, s')) : s' = y.2 := by
  cases he
  rfl

theorem exec_grows (h : RefInv cfg (s, info) g) (hmay : (refDiscipline (cfg.taskOf t)).may a (g t))
    (he : CapState.exec cfg t slab a s = some (r, s')) (hrelease : ∀ p, a ≠ .release (.port p))
    (hsend : ∀ p m, a ≠ .sendQueue p m) : Grows s s' := by
  cases a with
  | portFromHandle handle rights | taskFromHandle handle rights | exportCap handle rights
  | inherit handle rights =>
    rw [snd_of_map he]
    simp only [CapState.portFromHandle, CapState.taskFromHandle, taskExportCap, CapState.inherit,
      CapState.lookup]
    split <;> dsimp only
    · exact Grows.retain cfg s _
    · exact .refl s
  | canInherit handle rights | messageAlloc =>
    cases he
    exact .refl s
  | grant k o rights how =>
    rw [snd_of_map he]
    unfold CapState.grant
    split
    · refine Grows.trans ?_ (Grows.retain cfg _ o)
      exact .congr (fun _ => le_rfl) rfl rfl
    · exact .refl s
  | setHandleTag k handle tag | handoff receiver | unblock receiver =>
    cases he
    exact .congr (fun _ => le_rfl) rfl rfl
  | clearHandle k handle =>
    rw [snd_of_map he]
    unfold CapState.clearHandle
    split
    · exact .congr (fun _ => le_rfl) rfl rfl
    · exact .refl s
  | cloneHandles dst | takeTable k | createTask => exact absurd hmay id
  | retain o =>
    cases he
    exact Grows.retain cfg s o
  | release o =>
    cases he
    have hsame := release_same cfg s o
    refine .congr (fun p => ?_) (by rw [hsame.ids]) hsame.ipc
    unfold CapState.release
    split
    · show s.ref (.port p) ≤ update s.ref o _ (.port p)
      rw [update_of_ne]
      rintro rfl
      exact hrelease p rfl
    · exact le_rfl
  | replyPort =>
    rw [snd_of_map he]
    unfold CapState.taskReplyPort
    split
    · exact .refl s
    cases slab with
    | false => exact .refl s
    | true =>
      refine Grows.trans ?_ (Grows.retain cfg _ (.port s.ids.port))
      exact .newPort rfl rfl rfl (h.queues _ le_rfl)
  | createPort =>
    rw [snd_of_map he]
    cases slab with
    | false => exact .refl s
    | true => exact .newPort rfl rfl rfl (h.queues _ le_rfl)
  | createBuffer =>
    rw [snd_of_map he]
    unfold CapState.createBuffer
    cases slab with
    | false => exact .refl s
    | true => exact .congr (fun p => by simp) rfl rfl
  | sendDirect p m =>
    rw [snd_of_map he]
    unfold CapState.sendDirect
    split
    · rename_i hd
      exact .suffix rfl rfl fun q => Ipc.sendDirect_queue hd q ▸ List.suffix_refl _
    · exact .refl s
  | sendQueue p m => exact absurd rfl (hsend p m)
  | recvBegin call =>
    have hround := Ipc.recvRound_suffix (s.ipc.setWait s.nextWait none) t s.nextWait call
    rw [snd_of_map he]
    simp only [CapState.recvBegin]
    split
    · rename_i hr
      rw [hr] at hround
      exact .suffix rfl rfl hround
    · rename_i hr
      rw [hr] at hround
      exact .suffix rfl rfl hround
  | recvWait w call =>
    have hround := Ipc.recvResume_suffix s.ipc t w call
    simp only [CapState.exec] at he
    split at he
    · cases he
    simp only [Option.some.injEq, CapState.recvWait] at he
    split at he <;> rename_i hr <;> cases he <;> rw [hr] at hround
    · exact .suffix rfl rfl hround
    · exact .suffix rfl rfl hround
  | tryTake p =>
    rw [snd_of_map he]
    unfold CapState.tryTake
    split
    · rename_i htake
      exact .suffix rfl rfl (Ipc.take_suffix htake)
    · exact .refl s

/-- The references of queued messages are among those that are counted, beside those of one
thread. -/
theorem queued_add_refs_le (h : RefInv cfg (s, info) g) (ht : t < cfg.threadCount) (p : PortId) :
    s.queuedRefs.count (.port p) + (g t).refs.count (.port p) ≤ s.ref (.port p) := by
  have hexact : s.ref (.port p) = (s.total cfg g).count (.port p) := h.exact (.port p) trivial
  have hle : s.queuedRefs + (g t).refs ≤ s.total cfg g := by
    have hqueued : s.queuedRefs ≤ s.shared cfg := by
      refine le_trans ?_ (le_add_right _ _)
      refine le_trans ?_ (le_add_right _ _)
      exact le_add_left _ _
    have hthread : (g t).refs ≤ ∑ u ∈ range cfg.threadCount, (g u).refs :=
      Finset.single_le_sum (fun u _ => zero_le (g u).refs) (Finset.mem_range.mpr ht)
    exact add_le_add hqueued hthread
  rw [hexact, ← count_add]
  exact count_le_of_le _ hle

theorem queuedRefs_sendQueue (hp : p < s.ids.port) :
    (s.sendQueue p m).2.queuedRefs = s.queuedRefs + m.refs := by
  have hsum := sum_range_of_eq_off s.queueRefs (s.sendQueue p m).2.queueRefs hp fun q hq => by
    simp [queueRefs, CapState.sendQueue, Ipc.sendQueue, hq]
  have hnew : (s.sendQueue p m).2.queueRefs p = m.refs + s.queueRefs p := by
    simpa [queueRefs, CapState.sendQueue, Ipc.sendQueue] using List.perm_append_comm
  rw [hnew, ← add_assoc] at hsum
  exact add_right_cancel hsum

end RefInv

/-! ## The life of ports -/

/-- The port whose `ipc_port_release` is the next step. -/
def CapOp.releases (s : CapSystem) : CapOp → Option PortId
  | .call .. => none
  | .run t _ =>
    match s.prog t with
    | some (Prog.act (.release (.port p)) _) => some p
    | _ => none

/-- The system, and for each port whether it has ever been referenced and whether it has been
freed. -/
structure PortLife where
  sys : CapSystem
  held : PortId → Bool
  freed : PortId → Bool

namespace PortLife

variable {cfg : CapConfig} {immortal : PortId → Bool} {x x' : PortLife} {g : ThreadId → Share}
  {t : ThreadId}

/-- The ghosts after a step to `sys`. -/
def next (immortal : PortId → Bool) (x : PortLife) (op : CapOp) (sys : CapSystem) : PortLife where
  sys
  held := fun p => x.held p || sys.state.ref (.port p) != 0
  freed := fun p => x.freed p || (op.releases x.sys == some p && sys.state.portDestroyed immortal p)

def step (cfg : CapConfig) (immortal : PortId → Bool) (x : PortLife) (op : CapOp) : Option PortLife :=
  (CapSystem.step cfg x.sys op).map (x.next immortal op)

/-- The last reference to a port from outside the queues goes only when no message is queued on
it and no receiver is registered. -/
def DropsClean (immortal : PortId → Bool) (s : CapState) : Option PortId → Prop
  | none => True
  | some p => immortal p = true ∨ s.queuedRefs.count (.port p) + 1 < s.ref (.port p) ∨
      ((s.ipc.ports p).queue = [] ∧ (s.ipc.ports p).receiver = none)

instance (s : CapState) : ∀ released, Decidable (DropsClean immortal s released)
  | none => inferInstanceAs (Decidable True)
  | some _ => inferInstanceAs (Decidable (_ ∨ _ ∨ _))

/-- The condition on a step; messages name no capability with `cap_rights` 0 either. -/
def CleanStep (immortal : PortId → Bool) (x : PortLife) (op : CapOp) : Prop :=
  CapSystem.CountedStep op ∧ DropsClean immortal x.sys.state (op.releases x.sys)

instance (x : PortLife) (op : CapOp) : Decidable (CleanStep immortal x op) :=
  inferInstanceAs (Decidable (_ ∧ _))

/-- What can be reached: from the tables, the reply ports, the threads in a call, the ports that
are found by name, and through queues. -/
inductive Reachable (cfg : CapConfig) (immortal : PortId → Bool) (s : CapState)
    (g : ThreadId → Share) : Obj → Prop
  | handle {k o} (h : o ∈ (s.handles k).objs) : Reachable cfg immortal s g o
  | reply {k p} (h : s.replyPort k = some p) : Reachable cfg immortal s g (.port p)
  | delivered {t o} (h : o ∈ s.delivered t) : Reachable cfg immortal s g o
  | thread {t o} (h : o ∈ (g t).refs) : Reachable cfg immortal s g o
  | named {p} (h : immortal p = true) : Reachable cfg immortal s g (.port p)
  | queued {p m o} (hp : Reachable cfg immortal s g (.port p)) (hm : m ∈ (s.ipc.ports p).queue)
      (ho : o ∈ m.refs) : Reachable cfg immortal s g o

/-- Ports that nothing names any more are freed and have no messages, and whatever a slot, a
message, a reply port or a thread names can be reached. -/
structure Reclaimed (cfg : CapConfig) (immortal : PortId → Bool) (x : PortLife)
    (g : ThreadId → Share) : Prop where
  freed : ∀ p, immortal p = false → x.held p = true → .port p ∉ x.sys.state.total cfg g →
    x.freed p = true ∧ (x.sys.state.ipc.ports p).queue = []
  reachable : ∀ o ∈ x.sys.state.total cfg g, Reachable cfg immortal x.sys.state g o

/-- A start: exact counts, and nothing queued or freed yet. -/
structure Init (cfg : CapConfig) (x : PortLife) : Prop where
  sys : x.sys.Init cfg
  queues : ∀ p, (x.sys.state.ipc.ports p).queue = []
  held : ∀ p, x.held p = true → x.sys.state.ref (.port p) ≠ 0

/-- The references outside the queues. -/
def outside (cfg : CapConfig) (s : CapState) (g : ThreadId → Share) : Multiset Obj :=
  ∑ k ∈ Finset.range s.ids.task, (s.handles k).objs + ∑ k ∈ Finset.range s.ids.task, s.replyRefs k +
    ∑ t ∈ Finset.range cfg.threadCount, s.delivered t + ∑ t ∈ Finset.range cfg.threadCount, (g t).refs

theorem total_eq (cfg : CapConfig) (s : CapState) (g : ThreadId → Share) :
    s.total cfg g = outside cfg s g + s.queuedRefs := by
  unfold CapState.total CapState.shared CapState.references outside CapState.queuedRefs
  abel

theorem reachable_of_outside (ho : o ∈ outside cfg s g) :
    Reachable cfg immortal s g o := by
  simp only [outside, mem_add, mem_sum] at ho
  rcases ho with ((⟨k, -, hk⟩ | ⟨k, -, hk⟩) | ⟨t, -, ht⟩) | ⟨t, -, ht⟩
  · exact .handle hk
  · obtain ⟨p, hp, rfl⟩ : ∃ p, s.replyPort k = some p ∧ Obj.port p = o := by
      simpa [CapState.replyRefs] using hk
    exact .reply hp
  · exact .delivered ht
  · exact .thread ht

/-! ## The invariant -/

/-- A port with messages is referenced from outside the queues. -/
def Rooted (immortal : PortId → Bool) (s : CapState) : Prop :=
  ∀ p, immortal p = false → (s.ipc.ports p).queue ≠ [] → s.queuedRefs.count (.port p) < s.ref (.port p)

/-- A port that has lost its last reference is freed. -/
def Freed (immortal : PortId → Bool) (x : PortLife) : Prop :=
  ∀ p, immortal p = false → x.held p = true → x.sys.state.ref (.port p) = 0 → x.freed p = true

structure PortInv (cfg : CapConfig) (immortal : PortId → Bool) (x : PortLife)
    (g : ThreadId → Share) : Prop where
  count : CapSystem.CountInv cfg x.sys g
  rooted : Rooted immortal x.sys.state
  freed : Freed immortal x

theorem Rooted.grows (h : Rooted immortal s) (hg : s.Grows s') :
    Rooted immortal s' := by
  intro p hp hq
  have hcount := count_le_of_le (.port p) hg.queued
  have := h p hp (hg.queue p hq)
  have := hg.ref p
  omega

theorem Freed.next (h : Freed immortal x)
    (href : ∀ p, x.sys.state.ref (.port p) ≤ sys.state.ref (.port p)) :
    Freed immortal (x.next immortal op sys) := by
  intro p hp hheld hzero
  have hzero : sys.state.ref (.port p) = 0 := hzero
  have hold : x.sys.state.ref (.port p) = 0 := Nat.le_zero.mp (hzero ▸ href p)
  have hheld : x.held p = true := by simpa [PortLife.next, hzero] using hheld
  simp [PortLife.next, h p hp hheld hold]

theorem Rooted.release (cfg : CapConfig) (h : Rooted immortal s)
    (hclean : DropsClean immortal s (some p)) : Rooted immortal (s.release cfg (.port p)) := by
  have hsame := CapState.release_same cfg s (.port p)
  have hqueued : (s.release cfg (.port p)).queuedRefs = s.queuedRefs := by
    unfold CapState.queuedRefs CapState.queueRefs
    rw [hsame.ids, hsame.ipc]
  have href : (s.release cfg (.port p)).ref = update s.ref (.port p) (s.ref (.port p) - 1) := rfl
  intro q hq hne
  have hold := h q hq hne
  rw [hqueued, href]
  by_cases hqp : q = p
  · subst hqp
    rw [update_self]
    rcases hclean with himm | hmany | ⟨hempty, -⟩
    · rw [hq] at himm
      cases himm
    · omega
    · exact absurd hempty hne
  · rw [update_of_ne (fun he => hqp (Obj.port.inj he))]
    exact hold

theorem Rooted.sendQueue {info}
    (h : Rooted immortal s) (hrefs : RefInv cfg (s, info) g) (ht : t < cfg.threadCount)
    (hmay : (sendDiscipline (cfg.taskOf t)).may (.sendQueue p m) (g t)) :
    Rooted immortal (s.sendQueue p m).2 := by
  have hlt : p < s.ids.port := hrefs.exists_of_mem ht (mem_of_le hmay (mem_cons_self ..))
  intro q hq hne
  have hle := hrefs.queued_add_refs_le ht q
  have hcount := count_le_of_le (.port q) hmay
  rw [RefInv.queuedRefs_sendQueue hlt, count_add]
  show _ < s.ref (.port q)
  rw [count_cons, count_add] at hcount
  by_cases hqp : q = p
  · rw [if_pos (by rw [hqp])] at hcount
    omega
  · have hold := h q hq (by simpa [CapState.sendQueue, Ipc.sendQueue, hqp] using hne)
    omega

theorem Freed.release (cfg : CapConfig) (h : Freed immortal x)
    (hop : op.releases x.sys = some p) (hclean : DropsClean immortal x.sys.state (some p))
    (hstate : sys.state = x.sys.state.release cfg (.port p))
    (hpos : 0 < x.sys.state.ref (.port p)) : Freed immortal (x.next immortal op sys) := by
  have href : sys.state.ref = update x.sys.state.ref (.port p) (x.sys.state.ref (.port p) - 1) := by
    rw [hstate]
    rfl
  have hipc : sys.state.ipc = x.sys.state.ipc := by
    rw [hstate]
    exact (CapState.release_same cfg x.sys.state (.port p)).ipc
  intro q hq hheld hzero
  replace hzero : sys.state.ref (.port q) = 0 := hzero
  replace hheld : x.held q = true := by simpa [PortLife.next, hzero] using hheld
  by_cases hqp : q = p
  · subst hqp
    have hlast : x.sys.state.ref (.port q) ≤ 1 := by
      rw [href, update_self] at hzero
      omega
    have hfree : (x.sys.state.ipc.ports q).queue = [] ∧ (x.sys.state.ipc.ports q).receiver = none := by
      rcases hclean with himm | hmany | hfree
      · rw [hq] at himm
        cases himm
      · omega
      · exact hfree
    simp [PortLife.next, hop, CapState.portDestroyed, hq, hzero, hipc, hfree.1, hfree.2]
  · have hold : x.sys.state.ref (.port q) = 0 := by
      rwa [href, update_of_ne (fun he => hqp (Obj.port.inj he))] at hzero
    simp [PortLife.next, h q hq hheld hold]

namespace PortInv

theorem act {slab}
    (h : PortInv cfg immortal x g) (ht : t < cfg.threadCount) (hp : x.sys.prog t = some (Prog.act a k))
    (hmay : (sendDiscipline (cfg.taskOf t)).may a (g t))
    (he : CapState.exec cfg t slab a x.sys.state = some (r, sys.state))
    (hclean : DropsClean immortal x.sys.state ((CapOp.run t slab).releases x.sys)) :
    Rooted immortal sys.state ∧ Freed immortal (x.next immortal (.run t slab) sys) := by
  have hmay' := sendDiscipline_may a (g t) hmay
  by_cases hrel : ∃ q, a = .release (.port q)
  · obtain ⟨q, rfl⟩ := hrel
    have hstate : sys.state = x.sys.state.release cfg (.port q) :=
      (Prod.mk.inj (Option.some.inj he)).2.symm
    have hop : (CapOp.run t slab).releases x.sys = some q := by simp only [CapOp.releases, hp]
    rw [hop] at hclean
    refine ⟨?_, h.freed.release cfg hop hclean hstate (h.count.refs.ref_pos ht hmay' trivial)⟩
    rw [hstate]
    exact h.rooted.release cfg hclean
  by_cases hsend : ∃ q m, a = .sendQueue q m
  · obtain ⟨q, m, rfl⟩ := hsend
    have hstate : sys.state = (x.sys.state.sendQueue q m).2 := RefInv.snd_of_map he
    refine ⟨?_, h.freed.next fun q' => ?_⟩
    · rw [hstate]
      exact h.rooted.sendQueue h.count.refs ht hmay
    · rw [hstate]
      exact le_rfl
  · have hgrows := h.count.refs.exec_grows hmay' he (fun q hq => hrel ⟨q, hq⟩)
      fun q m hq => hsend ⟨q, m, hq⟩
    exact ⟨h.rooted.grows hgrows, h.freed.next hgrows.ref⟩

theorem step (h : PortInv cfg immortal x g) (hop : CleanStep immortal x op)
    (hs : PortLife.step cfg immortal x op = some x') : ∃ g', PortInv cfg immortal x' g' := by
  obtain ⟨sys, hsys, rfl⟩ := Option.map_eq_some_iff.mp hs
  obtain ⟨⟨g', hcount⟩, hstate | ⟨t, slab, a, k, r, rfl, hp, ht, hmay, he⟩⟩ := h.count.step hop.1 hsys
  · have hgrows : x.sys.state.Grows sys.state := hstate ▸ .refl _
    exact ⟨g', hcount, h.rooted.grows hgrows, h.freed.next hgrows.ref⟩
  · obtain ⟨hrooted, hfreed⟩ := h.act ht hp hmay he hop.2
    exact ⟨g', hcount, hrooted, hfreed⟩

theorem of_init (h : x.Init cfg) :
    PortInv cfg immortal x fun t => CapSystem.CountInv.shareOfInfo (x.sys.info t) := by
  have hcount := CapSystem.CountInv.of_init h.sys
  exact ⟨hcount, fun p _ hq => absurd (h.queues p) hq,
    fun p _ hheld hzero => absurd hzero (h.held p hheld)⟩

theorem run {ops} (h : PortInv cfg immortal x g)
    (hr : Run (fun x op x' => CleanStep immortal x op ∧ PortLife.step cfg immortal x op = some x')
      x ops x') : ∃ g', PortInv cfg immortal x' g' :=
  hr.invariant (P := fun x => ∃ g, PortInv cfg immortal x g)
    (fun _ _ _ ⟨_, hx⟩ ⟨hop, hstep⟩ => hx.step hop hstep) ⟨g, h⟩

theorem reclaimed (h : PortInv cfg immortal x g) : Reclaimed cfg immortal x g := by
  have hexact : ∀ p, x.sys.state.ref (.port p) = (x.sys.state.total cfg g).count (.port p) :=
    fun p => h.count.refs.exact (.port p) trivial
  refine ⟨fun p hp hheld hnone => ?_, fun o ho => ?_⟩
  · have hzero : x.sys.state.ref (.port p) = 0 := by
      rw [hexact p]
      exact count_eq_zero.mpr hnone
    refine ⟨h.freed p hp hheld hzero, ?_⟩
    by_contra hq
    have := h.rooted p hp hq
    omega
  · rw [total_eq, mem_add] at ho
    rcases ho with ho | ho
    · exact reachable_of_outside ho
    -- the port that holds the message is reached without the help of a queue
    obtain ⟨p, -, hp⟩ := mem_sum.mp ho
    obtain ⟨m, hm, hom⟩ := List.mem_flatMap.mp (mem_coe.mp hp)
    refine .queued ?_ hm hom
    cases himm : immortal p with
    | true => exact .named himm
    | false =>
      refine reachable_of_outside (count_pos.mp ?_)
      have hlt := h.rooted p himm (List.ne_nil_of_mem hm)
      have hsum := hexact p
      rw [total_eq, count_add] at hsum
      omega

end PortInv

/-- **Ports are reclaimed**, in every run in which the last reference to a port from outside the
queues goes only when the port has neither messages nor a receiver. `g` is what the threads inside
system calls hold: together with it the counts are exact. -/
theorem ports_reclaimed {ops : List CapOp} (hinit : x.Init cfg)
    (hr : Run (fun x op x' => CleanStep immortal x op ∧ step cfg immortal x op = some x')
      x ops x') :
    ∃ g, (∀ t, x'.sys.prog t = none → (g t).refs = 0) ∧
      (∀ o : Obj, o.Exact cfg → x'.sys.state.ref o = (x'.sys.state.total cfg g).count o) ∧
      Reclaimed cfg immortal x' g := by
  obtain ⟨g, hg⟩ := (PortInv.of_init hinit).run hr
  exact ⟨g, fun t ht => (hg.count.idle t ht).1, hg.count.refs.exact, hg.reclaimed⟩

/-- The port of `CapSystem.onePort`, with one handle. -/
def onePort : PortLife := ⟨CapSystem.onePort, fun p => p == 0, fun _ => false⟩

theorem onePort_init : onePort.Init CapSystem.oneThread := by
  refine ⟨CapSystem.onePort_init, fun _ => rfl, fun p hp => ?_⟩
  obtain rfl : p = 0 := by simpa [onePort] using hp
  decide

theorem ports_reclaimed_closed : ∃ x', Run (fun x op x' => CleanStep (fun _ => false) x op ∧
        step CapSystem.oneThread (fun _ => false) x op = some x') onePort
      (CapSystem.callAndRun (.handleClose 1) 3) x' ∧
    x'.freed 0 = true ∧ ∃ g, Reclaimed CapSystem.oneThread (fun _ => false) x' g := by
  obtain ⟨x', hr, hfreed⟩ := Run.exists_of_exec_guard (step CapSystem.oneThread fun _ => false) onePort
    (CapSystem.callAndRun (.handleClose 1) 3) (fun x' => x'.freed 0 = true) (CleanStep fun _ => false)
    (by decide +kernel)
  obtain ⟨g, -, -, hg⟩ := ports_reclaimed onePort_init hr
  exact ⟨x', hr, hfreed, g, hg⟩

def plainMessage : UserIpcMessage := ⟨0, 0, 0, 0, 0, 0, []⟩

/-- The only handle on a port with a message is closed: no call is in progress, nothing names the
port, and it has not been freed. -/
theorem port_leaked : ∃ x',
    Run (fun x op x' => step CapSystem.oneThread (fun _ => false) x op = some x') onePort
      (CapSystem.callAndRun (.ipcSend 1 1 (some plainMessage)) 7 ++
        CapSystem.callAndRun (.handleClose 1) 3) x' ∧ x'.sys.Idle CapSystem.oneThread ∧
    ∀ g, (∀ t, x'.sys.prog t = none → (g t).refs = 0) →
      ¬ Reclaimed CapSystem.oneThread (fun _ => false) x' g := by
  obtain ⟨x', hrun, hidle, hheld, hfreed, hnone⟩ := Run.exists_of_exec
    (step CapSystem.oneThread fun _ => false) onePort
    (CapSystem.callAndRun (.ipcSend 1 1 (some plainMessage)) 7 ++ CapSystem.callAndRun (.handleClose 1) 3)
    (fun x' => (x'.sys.prog 0).isNone = true ∧ x'.held 0 = true ∧ x'.freed 0 = false ∧
      Obj.port 0 ∉ x'.sys.state.shared CapSystem.oneThread) (by decide +kernel)
  have hprog : x'.sys.prog 0 = none := Option.isNone_iff_eq_none.mp hidle
  refine ⟨x', hrun, fun t ht => ?_, fun g hg hrec => ?_⟩
  · obtain rfl : t = 0 := Nat.lt_one_iff.mp ht
    exact hprog
  · have htotal : Obj.port 0 ∉ x'.sys.state.total CapSystem.oneThread g := by
      have hsum : ∑ t ∈ range CapSystem.oneThread.threadCount, (g t).refs = 0 := by
        show ∑ t ∈ range 1, (g t).refs = 0
        rw [sum_range_one, hg 0 hprog]
      unfold CapState.total
      rw [hsum, add_zero]
      exact hnone
    have := (hrec.freed 0 rfl hheld htotal).1
    rw [hfreed] at this
    cases this

end PortLife

end Bunix.Kernel
