import Mathlib.Data.Set.Insert

/-! # Sharing a processor in virtual time

Clients wait in a queue in the order of a deadline and run one at a time. A client that runs is
charged virtual time; the queue's minimum follows what is charged and what is taken out, and a
client that enters the queue never starts behind it. Nothing is said about the size of a charge
but that it is positive, nor about the order of clients with the same deadline.
-/
namespace Bunix.Lib

structure VirtualTime (ι : Type*) where
  min : Nat
  vruntime : ι → Nat
  deadline : ι → Nat
  queued : Set ι
  /-- The client that runs, and whether it has been charged since it was dispatched. -/
  current : Option (ι × Bool)
  /-- How often each client has been taken out of the queue. -/
  pops : ι → Nat

namespace VirtualTime

open Function Nat

variable {ι : Type*}

inductive Step [DecidableEq ι] : VirtualTime ι → VirtualTime ι → Prop
  | charge {q u b} (v d : Nat) (hc : q.current = some (u, b)) (hv : q.vruntime u < v) :
      Step q { q with
        min := max v q.min, vruntime := update q.vruntime u v, deadline := update q.deadline u d
        current := some (u, true) }
  | leave {q u} (hc : q.current = some (u, true)) : Step q { q with current := none }
  | enqueue {q u} (v d : Nat) (hu : u ∉ q.queued) (hc : ∀ b, q.current ≠ some (u, b))
      (hm : q.min ≤ v) (hd : v < d) :
      Step q { q with
        vruntime := update q.vruntime u v, deadline := update q.deadline u d
        queued := insert u q.queued }
  | pop {q u} (hu : u ∈ q.queued) (hfirst : ∀ w ∈ q.queued, q.deadline u ≤ q.deadline w)
      (hc : q.current = none) :
      Step q { q with
        min := max (q.vruntime u) q.min, queued := q.queued \ {u}, current := some (u, false)
        pops := update q.pops u (q.pops u + 1) }
  | handoff {q u} (hu : u ∉ q.queued) (hc : q.current = none) :
      Step q { q with current := some (u, false) }

abbrev Steps [DecidableEq ι] : VirtualTime ι → VirtualTime ι → Prop := Relation.ReflTransGen Step

variable {q q' : VirtualTime ι} {t u : ι}

section

variable [DecidableEq ι]

theorem Step.min_le (h : Step q q') : q.min ≤ q'.min := by
  cases h with
  | charge | pop => exact le_max_right ..
  | leave | enqueue | handoff => exact le_refl _

theorem Steps.min_le (h : Steps q q') : q.min ≤ q'.min := by
  induction h with
  | refl => exact le_refl _
  | tail _ hs ih => exact ih.trans hs.min_le

theorem Step.pops_le (h : Step q q') (u : ι) : q.pops u ≤ q'.pops u := by
  cases h with
  | @pop w =>
    by_cases hu : u = w
    · subst hu
      simp
    · simp [hu]
  | charge | leave | enqueue | handoff => exact le_refl _

end

/-- Deadlines lie ahead, and a client does not wait while it runs. -/
structure Ok (q : VirtualTime ι) : Prop where
  ahead : ∀ u ∈ q.queued, q.vruntime u < q.deadline u
  apart : ∀ u b, q.current = some (u, b) → u ∉ q.queued

theorem Ok.step [DecidableEq ι] (h : q.Ok) (hs : Step q q') : q'.Ok := by
  cases hs with
  | @charge w b v d hc hv =>
    have hne : ∀ u ∈ q.queued, u ≠ w := by
      rintro u hu rfl
      exact h.apart _ _ hc hu
    refine ⟨fun u hu => ?_, fun u b hu => ?_⟩
    · simpa [hne u hu] using h.ahead u hu
    · cases hu
      exact h.apart _ _ hc
  | leave => exact ⟨h.ahead, fun _ _ hu => by cases hu⟩
  | @enqueue w v d hw hc hm hd =>
    refine ⟨fun u hu => ?_, fun u b hu => ?_⟩
    · by_cases huw : u = w
      · subst huw
        simpa using hd
      · simpa [huw] using h.ahead u (hu.resolve_left huw)
    · rintro (rfl | hmem)
      · exact hc b hu
      · exact h.apart _ _ hu hmem
  | pop =>
    refine ⟨fun u hu => h.ahead u hu.1, fun u b hu => ?_⟩
    cases hu
    exact fun hmem => hmem.2 rfl
  | handoff hw =>
    refine ⟨h.ahead, fun u b hu => ?_⟩
    cases hu
    exact hw

theorem Ok.steps [DecidableEq ι] (h : q.Ok) (hs : Steps q q') : q'.Ok := by
  induction hs with
  | refl => exact h
  | tail _ hstep ih => exact ih.step hstep

/-- What holds while `t` waits with deadline `D`, counting the pops from `pops₀` on and with
`m` the minimum at the start. A client that was popped `n` times has pushed the minimum to
`m + n - 1`, unless it was popped just now and has not been charged yet. -/
structure Window (t : ι) (D m : Nat) (pops₀ : ι → Nat) (q : VirtualTime ι) : Prop extends Ok q where
  target : t ∈ q.queued
  deadline : q.deadline t = D
  room : m < D
  min : m ≤ q.min
  bound : ∀ u ≠ t, m + (q.pops u - pops₀ u) ≤ D + 1
  waiting : ∀ u ∈ q.queued, u ≠ t → pops₀ u < q.pops u → m + (q.pops u - pops₀ u) ≤ q.vruntime u + 1
  away : ∀ u ≠ t, q.current ≠ some (u, false) → m + (q.pops u - pops₀ u) ≤ q.min + 1
  dispatched : ∀ u ≠ t, q.current = some (u, false) →
    m + (q.pops u - pops₀ u) ≤ q.min + 1 ∨ m + (q.pops u - pops₀ u) ≤ q.vruntime u + 2

theorem Window.start (h : q.Ok) (ht : t ∈ q.queued) (hm : q.min ≤ q.vruntime t) :
    q.Window t (q.deadline t) q.min q.pops := by
  have hroom : q.min < q.deadline t := hm.trans_lt (h.ahead t ht)
  exact ⟨h, ht, rfl, hroom, le_refl _, by omega, by omega, by omega, by omega⟩

/-- A step either takes `t` out of the queue or keeps the window open. -/
theorem Window.step [DecidableEq ι] {D m : Nat} {pops₀ : ι → Nat} (h : q.Window t D m pops₀)
    (h₀ : ∀ u, pops₀ u ≤ q.pops u) (hs : Step q q') :
    pops₀ t < q'.pops t ∨ q'.Window t D m pops₀ := by
  have hok := h.toOk.step hs
  cases hs with
  | @charge w b v d hc hv =>
    have hne : ∀ u ∈ q.queued, u ≠ w := by
      rintro u hu rfl
      exact h.apart _ _ hc hu
    refine .inr ⟨hok, h.target, ?_, h.room, h.min.trans (le_max_right ..), h.bound, ?_, ?_, ?_⟩
    · simpa [hne t h.target] using h.deadline
    · intro u hu hut hp
      simpa [hne u hu] using h.waiting u hu hut hp
    · intro u hut _
      simp only
      by_cases huc : q.current = some (u, false)
      · -- the charge makes up for the pop that is not paid for yet
        have huw : u = w := by
          rw [hc] at huc
          cases huc
          rfl
        subst huw
        rcases h.dispatched u hut huc with hd | hd <;> omega
      · have := h.away u hut huc
        omega
    · intro u _ hu
      cases hu
  | @leave w hc =>
    refine .inr ⟨hok, h.target, h.deadline, h.room, h.min, h.bound, h.waiting, fun u hut _ => ?_,
      fun u _ hu => by cases hu⟩
    refine h.away u hut fun hu => ?_
    rw [hc] at hu
    cases hu
  | @enqueue w v d hw hc hm hd =>
    have htw : t ≠ w := fun he => hw (he ▸ h.target)
    refine .inr ⟨hok, .inr h.target, by simpa [htw] using h.deadline, h.room, h.min, h.bound, ?_,
      h.away, ?_⟩
    · intro u hu hut hp
      by_cases huw : u = w
      · subst huw
        have := h.away u hut (hc false)
        simp only [update_self]
        omega
      · simpa [huw] using h.waiting u (hu.resolve_left huw) hut hp
    · intro u hut hu
      have huw : u ≠ w := by
        rintro rfl
        exact hc false hu
      simpa [huw] using h.dispatched u hut hu
  | @pop w hw hfirst hc =>
    by_cases hwt : w = t
    · subst hwt
      refine .inl ?_
      have := h₀ w
      simp only [update_self]
      omega
    · have hfree : ∀ u, q.current ≠ some (u, false) := fun u hu => by
        rw [hc] at hu
        cases hu
      have hahead := h.ahead w hw
      have hle : q.deadline w ≤ D := h.deadline ▸ hfirst t h.target
      have hroom := h.room
      have hmin := h.min
      -- what the popped client had paid for before this pop
      have hpaid : pops₀ w < q.pops w → m + (q.pops w - pops₀ w) ≤ q.vruntime w + 1 :=
        h.waiting w hw hwt
      refine .inr ⟨hok, ⟨h.target, fun he => hwt he.symm⟩, h.deadline, h.room,
        h.min.trans (le_max_right ..), fun u hut => ?_, fun u hu hut hp => ?_, fun u hut hu => ?_,
        fun u hut hu => ?_⟩
      · by_cases huw : u = w
        · subst huw
          simp only [update_self]
          omega
        · simpa [huw] using h.bound u hut
      · have huw : u ≠ w := fun he => hu.2 he
        simp only [update_of_ne huw] at hp ⊢
        exact h.waiting u hu.1 hut hp
      · have huw : u ≠ w := fun he => hu (by rw [he])
        have := h.away u hut (hfree u)
        simp only [update_of_ne huw]
        omega
      · cases hu
        simp only [update_self]
        omega
  | @handoff w hw hc =>
    have hfree : ∀ u, q.current ≠ some (u, false) := fun u hu => by
      rw [hc] at hu
      cases hu
    exact .inr ⟨hok, h.target, h.deadline, h.room, h.min, h.bound, h.waiting,
      fun u hut _ => h.away u hut (hfree u), fun u hut _ => .inl (h.away u hut (hfree u))⟩

/-- **Bounded waiting.** While a client that entered the queue with deadline `D` at minimum `m`
waits, every other client is taken out at most `D - m + 1` times. -/
theorem Steps.pops_bounded [DecidableEq ι] (h : q.Ok) (ht : t ∈ q.queued) (hm : q.min ≤ q.vruntime t)
    (hs : Steps q q') (hpops : q'.pops t = q.pops t) (hu : u ≠ t) :
    q'.pops u - q.pops u ≤ q.deadline t - q.min + 1 := by
  have hwin : (∀ u, q.pops u ≤ q'.pops u) ∧
      (q.pops t < q'.pops t ∨ q'.Window t (q.deadline t) q.min q.pops) := by
    clear hpops
    induction hs with
    | refl => exact ⟨fun _ => le_refl _, .inr (.start h ht hm)⟩
    | tail _ hstep ih =>
      obtain ⟨hmono, hwin⟩ := ih
      refine ⟨fun u => (hmono u).trans (hstep.pops_le u), ?_⟩
      rcases hwin with hlt | hwin
      · exact .inl (hlt.trans_le (hstep.pops_le t))
      · exact hwin.step hmono hstep
  rcases hwin.2 with hlt | hwin
  · omega
  · have := hwin.bound u hu
    omega

end VirtualTime

end Bunix.Lib
