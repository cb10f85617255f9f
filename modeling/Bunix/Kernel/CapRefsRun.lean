import Bunix.Kernel.CapRefsCalls

/-! # Reference counts: runs

Threads enter system calls and take their steps in any order. As long as no message names a
capability with `cap_rights` 0, the counts are exact whenever no call is in progress, and a call
that went smoothly and returns an error has not changed any of them.
-/
namespace Bunix.Kernel

open Bunix.Lib Prog Function Option Finset

variable {cfg : CapConfig} {s s' : CapSystem} {g : ThreadId → Share} {t : ThreadId}
  {info : ThreadId → CallInfo}

namespace RefInv

theorem enter (h : RefInv cfg (x, info) g)
    (hrefs : (g t).refs = 0) (hwait : (g t).wait = none) (sys : Syscall) :
    RefInv cfg (x, update info t ⟨sys, x.ids, fun _ => 0, sys.copiesOut⟩)
      (update g t (Share.start sys)) := by
  have htotal : x.total cfg (update g t (Share.start sys)) = x.total cfg g := by
    unfold CapState.total
    congr 1
    refine sum_congr rfl fun u _ => ?_
    exact update_cases (fun hut => by rw [hut, hrefs]; rfl) fun _ => rfl
  constructor
  · intro o ho
    rw [htotal]
    exact h.exact o ho
  · intro o ho
    rw [htotal] at ho
    exact h.all o ho
  · intro u o ho
    exact update_cases (fun _ ho => by cases ho) (fun _ => h.known u o) ho
  · exact h.queues
  · exact h.records
  · intro u
    exact update_cases (fun hut => by rw [hut, ← h.wait t, hwait]; rfl) fun _ => h.wait u
  · exact h.threads
  · exact h.tasks
  · intro u
    dsimp only
    exact update_cases₂ (fun _ => rfl) fun _ => h.smooth u
  · intro u hclean o ho hex
    dsimp only at hex ⊢
    exact update_cases₂ (fun _ _ _ => rfl) (fun _ hclean => h.net u hclean o ho) hclean hex
  · intro u o hex
    dsimp only at hex
    exact update_cases (fun _ hex => hex) (fun _ => h.began u o) hex

end RefInv

namespace CapSystem

/-- A call that went smoothly and returned an error has not changed any count. -/
def FailureNeutral (cfg : CapConfig) (s : CapSystem) : Prop :=
  ∀ call r, (call, r) ∈ s.finished → call.sys.failed r = true → call.smooth = true →
    ∀ o : Obj, o.Exact cfg → o.Exists call.ids → call.net o = 0

/-- The counts are the numbers of references in the tables, the queues and the reply ports. -/
def CountsExact (cfg : CapConfig) (s : CapSystem) : Prop :=
  ∀ o : Obj, o.Exact cfg → s.state.ref o = s.state.references.count o

def Idle (cfg : CapConfig) (s : CapSystem) : Prop := ∀ t < cfg.threadCount, s.prog t = none

/-- A start of the system: no thread is in a call or waits for a message, and the counts are
exact. -/
structure Init (cfg : CapConfig) (s : CapSystem) : Prop where
  idle : ∀ t, s.prog t = none
  exact : s.CountsExact cfg
  all : ∀ o ∈ s.state.references, o.Exists s.state.ids
  queues : ∀ p, s.state.ids.port ≤ p → (s.state.ipc.ports p).queue = []
  waiting : ∀ t, s.state.waiting t = none
  receivers : ∀ p, (s.state.ipc.ports p).receiver = none
  tasks : ∀ t, t < cfg.threadCount → cfg.taskOf t < s.state.ids.task
  /-- Nothing has been written down yet. -/
  info : ∀ t, (s.info t).ids = s.state.ids
  finished : s.finished = []

def CountedStep : CapOp → Prop
  | .call _ sys => sys.Counted
  | .run .. => True

instance (op : CapOp) : Decidable (CountedStep op) := by
  cases op <;> unfold CountedStep <;> infer_instance

structure CountInv (cfg : CapConfig) (s : CapSystem) (g : ThreadId → Share) : Prop where
  refs : RefInv cfg (s.state, s.info) g
  running : ∀ t p, s.prog t = some p →
    t < cfg.threadCount ∧ wp (sendDiscipline (cfg.taskOf t)) p (Share.Done (s.info t).sys) (g t)
  idle : ∀ t, s.prog t = none → (g t).refs = 0 ∧ (g t).wait = none
  finished : s.FailureNeutral cfg

namespace CountInv

theorem call {sys} (h : CountInv cfg s g) (hsys : sys.Counted)
    (hs : step cfg s (.call t sys) = some s') :
    (∃ g', CountInv cfg s' g') ∧ s'.state = s.state := by
  simp only [step] at hs
  split at hs
  · rename_i hcond
    cases hs
    obtain ⟨ht, hnone⟩ := hcond
    obtain ⟨hrefs, hwait⟩ := h.idle t (isNone_iff_eq_none.mp hnone)
    refine ⟨⟨update g t (Share.start sys), h.refs.enter hrefs hwait sys, ?_, ?_, h.finished⟩, rfl⟩
    · intro u p hp
      by_cases hut : u = t
      · subst hut
        simp only [update_self, some.injEq] at hp ⊢
        subst hp
        exact ⟨ht, wp_prog hsys⟩
      · simp only [update_of_ne hut] at hp ⊢
        exact h.running u p hp
    · intro u hu
      dsimp only at hu
      exact update_cases₂ (fun _ hu => by cases hu) (fun _ => h.idle u) hu
  · cases hs

theorem ret (h : CountInv cfg s g) (hp : s.prog t = some (.ret r)) :
    CountInv cfg { s with
      prog := update s.prog t none
      finished := (s.info t, r) :: s.finished } g := by
  obtain ⟨ht, hdone⟩ := h.running t _ hp
  constructor
  · exact h.refs
  · intro u p hu
    exact h.running u p (of_update_none hu).2
  · intro u hu
    by_cases hut : u = t
    · subst hut
      exact ⟨hdone.refs, hdone.wait⟩
    · simp only [update_of_ne hut] at hu
      exact h.idle u hu
  · intro call r' hmem hfailed hsmooth o ho hex
    rcases List.mem_cons.mp hmem with heq | hmem
    · cases heq
      have hclean := hdone.clean hfailed ((h.refs.smooth t).trans hsmooth)
      rw [h.refs.net t hclean o ho hex, hdone.refs]
      rfl
    · exact h.finished call r' hmem hfailed hsmooth o ho hex

theorem act {slab state} (h : CountInv cfg s g) (hp : s.prog t = some p)
    (hs : p.step (exec cfg t slab) (s.state, s.info) = some (p', state, info)) :
    (∃ g', CountInv cfg { s with prog := update s.prog t (some p'), state, info } g') ∧
    ∃ a k r, p = Prog.act a k ∧ t < cfg.threadCount ∧ (sendDiscipline (cfg.taskOf t)).may a (g t) ∧
      CapState.exec cfg t slab a s.state = some (r, state) := by
  obtain ⟨ht, hwp⟩ := h.running t p hp
  have hinfo : ∀ (a : CapAct) (x' : CapState) u,
      (recordAct s.info t a s.state x' u).sys = (s.info u).sys := by
    intro a x' u
    unfold recordAct
    exact update_cases (fun hut => by rw [hut]) fun _ => rfl
  obtain ⟨a, k, r, g', hact, hmay, he, ⟨hrefs, hsys⟩, hwp'⟩ := wp_step
    (fun x g => RefInv cfg x g ∧ ∀ u, (x.2 u).sys = (s.info u).sys) hwp hs
    (fun a r g' hmay he hupd => by
      obtain ⟨⟨_, x⟩, hx, hy⟩ := map_eq_some_iff.mp he
      cases hy
      exact ⟨h.refs.next_exec ht (sendDiscipline_may a _ hmay) hx hupd, hinfo a x⟩)
    (fun a hmay he => by
      obtain ⟨⟨_, x⟩, hx, hy⟩ := map_eq_some_iff.mp he
      cases hy
      exact ⟨h.refs.again_exec ht (sendDiscipline_may a _ hmay) hx, hinfo a x⟩)
  refine ⟨⟨update g t g', hrefs, ?_, ?_, h.finished⟩, a, k, r, hact, ht, hmay, ?_⟩
  · intro u q hq
    rw [hsys u]
    by_cases hut : u = t
    · subst hut
      simp only [update_self, some.injEq] at hq ⊢
      subst hq
      exact ⟨ht, hwp'⟩
    · simp only [update_of_ne hut] at hq ⊢
      exact h.running u q hq
  · intro u hu
    dsimp only at hu
    exact update_cases₂ (fun _ hu => by cases hu) (fun _ => h.idle u) hu
  · obtain ⟨⟨_, x⟩, hx, hy⟩ := map_eq_some_iff.mp he
    cases hy
    exact hx

/-- The invariant after a step, and what the step does to the shared state: nothing, or one action
of a thread that keeps to the discipline. -/
theorem step {op} (h : CountInv cfg s g) (hop : CountedStep op)
    (hs : CapSystem.step cfg s op = some s') : (∃ g', CountInv cfg s' g') ∧ (s'.state = s.state ∨
      ∃ t slab a k r, op = .run t slab ∧ s.prog t = some (Prog.act a k) ∧ t < cfg.threadCount ∧
        (sendDiscipline (cfg.taskOf t)).may a (g t) ∧
        CapState.exec cfg t slab a s.state = some (r, s'.state)) := by
  cases op with
  | call t sys =>
    obtain ⟨hinv, hstate⟩ := h.call hop hs
    exact ⟨hinv, .inl hstate⟩
  | run t slab =>
    simp only [CapSystem.step] at hs
    split at hs
    · cases hs
    · rename_i r hp
      cases hs
      exact ⟨⟨g, h.ret hp⟩, .inl rfl⟩
    · rename_i p _ hp
      split at hs
      · cases hs
      rename_i p' state info hstep
      cases hs
      obtain ⟨hinv, a, k, r, rfl, hact⟩ := h.act hp hstep
      exact ⟨hinv, .inr ⟨t, slab, a, k, r, rfl, hp, hact⟩⟩

/-- What a thread has before its first call. -/
def shareOfInfo (info : CallInfo) : Share := ⟨0, [], none, false, info.smooth⟩

theorem of_init (h : s.Init cfg) : CountInv cfg s fun t => shareOfInfo (s.info t) := by
  have hdelivered : ∀ t, s.state.delivered t = 0 := by
    intro t
    unfold CapState.delivered
    rw [h.waiting t]
  have htotal : s.state.total cfg (fun t => shareOfInfo (s.info t)) = s.state.references := by
    unfold CapState.total CapState.shared
    rw [sum_congr rfl fun t _ => hdelivered t]
    simp [shareOfInfo]
  have hnot : ∀ {t : ThreadId} {x : WaitId × RecvCall}, s.state.waiting t ≠ some x := by
    intro t x hx
    rw [h.waiting t] at hx
    cases hx
  constructor
  · constructor
    · intro o ho
      rw [htotal]
      exact h.exact o ho
    · intro o ho
      rw [htotal] at ho
      exact h.all o ho
    · intro t o ho
      cases ho
    · exact h.queues
    · refine ⟨fun _ _ _ hw => absurd hw hnot, fun _ _ _ _ _ hw => absurd hw hnot,
        fun _ _ _ hw => absurd hw hnot, fun p t hp => ?_, fun _ _ _ hw => absurd hw hnot⟩
      rw [h.receivers p] at hp
      cases hp
    · intro t
      exact (h.waiting t).symm
    · intro t w hw
      exact absurd hw hnot
    · exact h.tasks
    · intro t
      rfl
    · intro t hclean
      cases hclean
    · intro t o ho
      rw [← h.info t]
      exact ho
  · intro t p hp
    rw [h.idle t] at hp
    cases hp
  · intro t _
    exact ⟨rfl, rfl⟩
  · intro call r hmem
    rw [h.finished] at hmem
    cases hmem

theorem run {ops} (h : CountInv cfg s g)
    (hr : Run (fun s op s' => CountedStep op ∧ CapSystem.step cfg s op = some s') s ops s') :
    ∃ g', CountInv cfg s' g' :=
  hr.invariant (P := fun s => ∃ g, CountInv cfg s g)
    (fun _ _ _ ⟨_, hs⟩ ⟨hop, hstep⟩ => (hs.step hop hstep).1) ⟨g, h⟩

theorem countsExact (h : CountInv cfg s g) (hidle : s.Idle cfg) : s.CountsExact cfg := by
  have htotal : s.state.total cfg g = s.state.references := by
    have hthread : ∀ t ∈ range cfg.threadCount, (g t).refs = 0 ∧ s.state.delivered t = 0 := by
      intro t ht
      obtain ⟨hrefs, hwait⟩ := h.idle t (hidle t (mem_range.mp ht))
      refine ⟨hrefs, ?_⟩
      unfold CapState.delivered
      rw [← h.refs.wait t, hwait]
    unfold CapState.total CapState.shared
    rw [sum_congr rfl fun t ht => (hthread t ht).1,
      sum_congr rfl fun t ht => (hthread t ht).2]
    simp
  intro o ho
  rw [← htotal]
  exact h.refs.exact o ho

end CountInv

/-- **Counts are exact.** In every run in which no message names a capability with `cap_rights`
0: when no call is in progress, the count of each object is the number of slots, queued messages
and reply ports that name it; and a call that went smoothly and returned an error has not changed
the count of any object. -/
theorem countsExact_failureNeutral {ops : List CapOp} (hinit : s.Init cfg)
    (hr : Run (fun s op s' => CountedStep op ∧ step cfg s op = some s') s ops s') :
    (s'.Idle cfg → s'.CountsExact cfg) ∧ s'.FailureNeutral cfg := by
  obtain ⟨g, hg⟩ := (CountInv.of_init hinit).run hr
  exact ⟨hg.countsExact, hg.finished⟩

/-- One thread, whose task has one handle, with all rights, on a port. -/
def onePort : CapSystem where
  state :=
    { ids := ⟨1, 1, 0⟩
      handles := fun k => if k = 0 then [some ⟨.port 0, CapProg.validRights, 0⟩] else []
      replyPort := fun _ => none
      ref := fun o => if o = .port 0 then 1 else 0
      ipc := ⟨fun _ => {}, fun _ => none⟩
      nextWait := 0
      waiting := fun _ => none
      blocked := fun _ => false
      acquired := [] }
  prog := fun _ => none
  info := fun _ => ⟨.handleClose 0, ⟨1, 1, 0⟩, fun _ => 0, true⟩
  finished := []

def oneThread : CapConfig := ⟨1, fun _ => 0, fun _ => false⟩

theorem onePort_init : onePort.Init oneThread := by
  have hrefs : onePort.state.references = {Obj.port 0} := by decide +kernel
  constructor
  · exact fun _ => rfl
  · intro o _
    rw [hrefs, Multiset.count_singleton]
    rfl
  · intro o ho
    rw [hrefs, Multiset.mem_singleton] at ho
    subst ho
    decide
  · exact fun _ _ => rfl
  · exact fun _ => rfl
  · exact fun _ => rfl
  · exact fun _ _ => Nat.one_pos
  · exact fun _ => rfl
  · rfl

/-- A message that carries the port itself, with the given `cap_rights`. -/
def ownPort (capRights : U32) : UserIpcMessage := ⟨0, 0, 0, capRights, 0, 1, []⟩

/-- The thread makes a call and runs until it returns. -/
def callAndRun (sys : Syscall) (n : Nat) : List CapOp := .call 0 sys :: List.replicate n (.run 0 true)

theorem countsExact_failureNeutral_queued : ∃ s',
    Run (fun s op s' => CountedStep op ∧ step oneThread s op = some s') onePort
      (callAndRun (.ipcSend 1 1 (some (ownPort taskRightSend))) 12 ++
        callAndRun (.ipcSend 9 1 (some (ownPort taskRightSend))) 2) s' ∧
    s'.finished.map Prod.snd = [-1, 0] ∧ s'.state.ref (.port 0) = 2 ∧
    s'.CountsExact oneThread ∧ s'.FailureNeutral oneThread := by
  obtain ⟨s', hr, h₁, h₂, h₃⟩ := Run.exists_of_exec_guard (step oneThread) onePort
    (callAndRun (.ipcSend 1 1 (some (ownPort taskRightSend))) 12 ++
      callAndRun (.ipcSend 9 1 (some (ownPort taskRightSend))) 2)
    (fun s' => s'.finished.map Prod.snd = [-1, 0] ∧ s'.state.ref (.port 0) = 2 ∧
      (s'.prog 0).isNone = true) (fun _ => CountedStep) (by decide +kernel)
  obtain ⟨hexact, hneutral⟩ := countsExact_failureNeutral onePort_init hr
  refine ⟨s', hr, h₁, h₂, hexact fun t ht => ?_, hneutral⟩
  obtain rfl : t = 0 := Nat.lt_one_iff.mp ht
  exact isNone_iff_eq_none.mp h₃

/-- A message that names a capability with `cap_rights` 0: the call returns an error and leaves a
count of 2 for a port with one handle. -/
theorem count_leaked : ∃ s', Run (fun s op s' => step oneThread s op = some s') onePort
      (callAndRun (.ipcSend 1 1 (some (ownPort 0))) 5) s' ∧
    s'.Idle oneThread ∧ ¬ s'.CountsExact oneThread ∧ ¬ s'.FailureNeutral oneThread := by
  obtain ⟨s', hrun, hidle, href, hcount, ⟨call, r⟩, hmem, hfailed, hsmooth, hex, hnet⟩ := Run.exists_of_exec
    (step oneThread) onePort (callAndRun (.ipcSend 1 1 (some (ownPort 0))) 5) (fun s' =>
      (s'.prog 0).isNone = true ∧ s'.state.ref (.port 0) = 2 ∧ s'.state.references.count (.port 0) = 1 ∧
      ∃ e ∈ s'.finished, e.1.sys.failed e.2 = true ∧ e.1.smooth = true ∧ (Obj.port 0).Exists e.1.ids ∧
        e.1.net (.port 0) = 1) (by decide +kernel)
  refine ⟨s', hrun, fun t ht => ?_, fun hexact => ?_, fun hneutral => ?_⟩
  · obtain rfl : t = 0 := Nat.lt_one_iff.mp ht
    exact isNone_iff_eq_none.mp hidle
  · have := hexact (.port 0) trivial
    omega
  · exact absurd ((hneutral call r hmem hfailed hsmooth (.port 0) trivial hex).symm.trans hnet) (by decide)

end CapSystem

end Bunix.Kernel
