import Bunix.Kernel.Ipc

/-! # Registrations and wait records

What the sections of `ipc.c` keep about the receivers, whatever the threads do in between.
`waiting t` is the wait record and the receive call of thread `t`, when it is in one.
-/
namespace Bunix.Kernel.Ipc

open Bunix.Lib Function

variable {M : Type} {waiting : ThreadId → Option (WaitId × RecvCall)} {next : WaitId} {s s' : Ipc M}
  {p : PortId} {t r : ThreadId} {w : WaitId} {m : M} {call : RecvCall}

/-- A port points to the record of a thread that waits on it, and then its queue is empty; a
record in use is that of one thread; a delivered `ipc_recv` is not registered any more. -/
structure WaitInv (waiting : ThreadId → Option (WaitId × RecvCall)) (next : WaitId) (s : Ipc M) :
    Prop where
  fresh : ∀ t w call, waiting t = some (w, call) → w < next
  distinct : ∀ t t' w call call', waiting t = some (w, call) → waiting t' = some (w, call') → t = t'
  nodup : ∀ t w call, waiting t = some (w, call) → call.ports.Nodup
  registered : ∀ p t, (s.ports p).receiver = some t → ∃ w call, waiting t = some (w, call) ∧
    (s.ports p).receiverWait = some w ∧ call.ports[(s.ports p).receiverIndex]? = some p ∧
    (s.ports p).queue = []
  once : ∀ t w p, waiting t = some (w, .recv p) → s.waits w ≠ none → (s.ports p).receiver ≠ some t

section
variable (h : WaitInv waiting next s)
include h

theorem WaitInv.setPort (port : IpcPort M) (hr : port.receiver = none) :
    WaitInv waiting next (s.setPort p port) := by
  refine ⟨h.fresh, h.distinct, h.nodup, fun q u hu => ?_, fun u w q hu hw => ?_⟩
  · exact setPort_cases (fun _ hu => by rw [hr] at hu; cases hu) (fun _ => h.registered q u) hu
  · exact setPort_cases (fun _ => by simp [hr]) fun _ => h.once u w q hu hw

theorem WaitInv.setWait (ht : waiting t = some (w, call))
    (hone : ∀ q, call = .recv q → (s.ports q).receiver ≠ some t) (wait : Option (M × Nat)) :
    WaitInv waiting next (s.setWait w wait) := by
  refine ⟨h.fresh, h.distinct, h.nodup, h.registered, fun u v q hu hv => ?_⟩
  refine setWait_cases (fun hvw _ => ?_) (fun _ => h.once u v q hu) hv
  subst hvw
  obtain rfl := h.distinct u t v (.recv q) call hu ht
  rw [ht] at hu
  cases hu
  exact hone q rfl

theorem WaitInv.sendDirect_spec (hs : s.sendDirect p m = some (r, s')) :
    ∃ w call, waiting r = some (w, call) ∧ s.waits w = none ∧ (s.ports p).queue = [] ∧
      call.ports[(s.ports p).receiverIndex]? = some p ∧
      s' = (s.setWait w (some (m, (s.ports p).receiverIndex))).setPort p
            { s.ports p with receiver := none, receiverWait := none } := by
  obtain ⟨w, hr, hw, hnone, hq, rfl⟩ := sendDirect_some hs
  obtain ⟨w', call, ht, hw', hidx, _⟩ := h.registered p r hr
  obtain rfl : w' = w := Option.some.inj (hw'.symm.trans hw)
  exact ⟨w', call, ht, hnone, hq, hidx, rfl⟩

theorem WaitInv.sendDirect (hs : s.sendDirect p m = some (r, s')) :
    WaitInv waiting next s' := by
  obtain ⟨w, call, ht, _, _, hidx, rfl⟩ := h.sendDirect_spec hs
  have h₁ := h.setPort (p := p) { s.ports p with receiver := none, receiverWait := none } rfl
  refine h₁.setWait ht (fun q hq => ?_) _
  -- the one port of an `ipc_recv` is the one that was just cleared
  subst hq
  have hqp : p = q := by simpa using List.mem_of_getElem? hidx
  rw [← hqp, setPort_ports_self]
  simp

theorem WaitInv.sendQueue :
    WaitInv waiting next (s.sendQueue p m).2 :=
  h.setPort _ rfl

theorem WaitInv.not_registered (hq : (s.ports p).queue ≠ []) : (s.ports p).receiver = none := by
  cases hr : (s.ports p).receiver with
  | none => rfl
  | some t =>
    obtain ⟨_, _, _, _, _, hempty⟩ := h.registered p t hr
    exact absurd hempty hq

theorem WaitInv.take (hs : s.take p = some (m, s')) :
    WaitInv waiting next s' := by
  obtain ⟨rest, hq, rfl⟩ := take_some hs
  exact h.setPort _ (h.not_registered (by simp [hq]))

theorem WaitInv.newWait : WaitInv waiting (next + 1) (s.setWait next none) := by
  refine ⟨fun u w call hu => ?_, h.distinct, h.nodup, h.registered, fun u w p hu hw => ?_⟩
  · exact Nat.lt_succ_of_lt (h.fresh u w call hu)
  · rw [setWait_waits_ne _ (Nat.ne_of_lt (h.fresh u w _ hu))] at hw
    exact h.once u w p hu hw

end

theorem update_waiting {call'} (hu : update waiting t (some (w, call)) u = some (v, call')) :
    u = t ∧ v = w ∧ call' = call ∨ u ≠ t ∧ waiting u = some (v, call') := by
  refine update_cases (fun hut hu => ?_) (fun hut hu => .inr ⟨hut, hu⟩) hu
  cases hu
  exact .inl ⟨hut, rfl, rfl⟩

theorem WaitInv.register (h : WaitInv waiting next s) (ht : waiting t = none) (hw : w < next)
    (hfree : ∀ u call', waiting u ≠ some (w, call')) (hnone : s.waits w = none)
    (hn : call.ports.Nodup) (hempty : ∀ p ∈ call.ports, (s.ports p).queue = []) :
    WaitInv (update waiting t (some (w, call))) next (s.register t w call.ports) := by
  refine ⟨fun u v call' hu => ?_, fun u u' v call₁ call₂ hu hu' => ?_, fun u v call' hu => ?_,
    fun p u hu => ?_, fun u v p hu hv => ?_⟩
  · rcases update_waiting hu with ⟨_, rfl, _⟩ | ⟨_, hu⟩
    · exact hw
    · exact h.fresh u v call' hu
  · rcases update_waiting hu with ⟨rfl, rfl, _⟩ | ⟨_, hu₁⟩
    · rcases update_waiting hu' with ⟨rfl, _⟩ | ⟨_, hu₂⟩
      · rfl
      · exact absurd hu₂ (hfree u' call₂)
    · rcases update_waiting hu' with ⟨_, rfl, _⟩ | ⟨_, hu₂⟩
      · exact absurd hu₁ (hfree u call₁)
      · exact h.distinct u u' v call₁ call₂ hu₁ hu₂
  · rcases update_waiting hu with ⟨_, _, rfl⟩ | ⟨_, hu⟩
    · exact hn
    · exact h.nodup u v call' hu
  · simp only [Ipc.register] at hu ⊢
    by_cases hp : p ∈ call.ports
    · rw [if_pos hp] at hu ⊢
      cases hu
      exact ⟨w, call, update_self .., rfl, List.getElem?_idxOf hp, hempty p hp⟩
    · rw [if_neg hp] at hu ⊢
      obtain ⟨v, call', hv, hrest⟩ := h.registered p u hu
      have hut : u ≠ t := by
        intro he
        rw [he, ht] at hv
        cases hv
      exact ⟨v, call', by rw [update_of_ne hut]; exact hv, hrest⟩
  · rcases update_waiting hu with ⟨rfl, rfl, he⟩ | ⟨hut, hu⟩
    · exact absurd hnone hv
    · simp only [Ipc.register]
      split
      · intro he
        exact hut (Option.some.inj he).symm
      · exact h.once u v p hu hv

theorem WaitInv.leave (h : WaitInv waiting next s) (ht : waiting t = some (w, call)) :
    WaitInv (update waiting t none) next (s.unregister t call.ports) := by
  have hother : ∀ u v call', update waiting t none u = some (v, call') →
      u ≠ t ∧ waiting u = some (v, call') := by
    intro u v call' hu
    exact of_update_none hu
  refine ⟨fun u v call' hu => h.fresh u v call' (hother u v call' hu).2,
    fun u u' v call₁ call₂ hu hu' => h.distinct u u' v call₁ call₂ (hother u v call₁ hu).2
      (hother u' v call₂ hu').2,
    fun u v call' hu => h.nodup u v call' (hother u v call' hu).2, fun p u hu => ?_,
    fun u v p hu hv => ?_⟩
  · simp only [Ipc.unregister] at hu ⊢
    split at hu
    · cases hu
    rename_i hp
    rw [if_neg hp]
    obtain ⟨v, call', hv, hwait, hidx, hq⟩ := h.registered p u hu
    have hut : u ≠ t := by
      -- a port registered for `t` is a port of its call
      intro he
      rw [he, ht] at hv
      cases hv
      exact hp ⟨List.mem_of_getElem? hidx, he ▸ hu⟩
    exact ⟨v, call', by rw [update_of_ne hut]; exact hv, hwait, hidx, hq⟩
  · obtain ⟨_, hu⟩ := hother u v (.recv p) hu
    simp only [Ipc.unregister]
    split
    · simp
    · exact h.once u v p hu hv

/-- `ipc_recv` does not take back its registration, but that makes no difference. -/
theorem WaitInv.recvResume_eq (h : WaitInv waiting next s) (ht : waiting t = some (w, call)) :
    s.recvResume t w call = match s.waits w with
      | some (y, i) => (some (i, y), s.unregister t call.ports)
      | none => (s.unregister t call.ports).recvRound t w call := by
  unfold Ipc.recvResume
  cases call with
  | recvAny ps => cases hw : s.waits w <;> simp [hw]
  | recv p =>
    simp only
    cases hw : s.waits w with
    | some yi =>
      have hone := h.once t w p ht (by simp [hw])
      rw [unregister_eq_self]
      simpa using hone
    | none =>
      cases hq : (s.ports p).queue with
      | cons y rest =>
        have hr := h.not_registered (p := p) (by simp [hq])
        rw [unregister_eq_self]
        simp [hr]
      | nil =>
        have htake : s.takeAny [p] = none := by simp [Ipc.takeAny, Ipc.take, hq]
        have htake' : (s.unregister t [p]).takeAny [p] = none := by
          simp [Ipc.takeAny, Ipc.take, hq]
        simp only [Ipc.recvRound, RecvCall.ports_recv, htake, htake']
        refine Prod.ext rfl ?_
        simp only [Ipc.register, Ipc.setWait, Ipc.unregister, Ipc.mk.injEq, and_true]
        funext q
        by_cases hqp : q = p
        · simp only [hqp, List.mem_singleton, ↓reduceIte, true_and]
          split <;> rfl
        · simp [hqp]

end Bunix.Kernel.Ipc
