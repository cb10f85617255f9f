import Mathlib.Logic.Basic

/-! # Runs of a labelled transition system

A system is a step relation `step s a s'`. A run is a finite sequence of steps with the
labels it takes. What one step preserves a run preserves, a step-by-step simulation carries
over to runs, and a list of labels that can be executed is a run.
-/
namespace Bunix.Lib

variable {σ τ α : Type*}

inductive Run (step : σ → α → σ → Prop) : σ → List α → σ → Prop
  | nil (s) : Run step s [] s
  | cons {s a s' as s''} (head : step s a s') (tail : Run step s' as s'') :
      Run step s (a :: as) s''

namespace Run

variable {step : σ → α → σ → Prop} {s s' s'' : σ} {as bs : List α} {a : α}

theorem append (h : Run step s as s') (h' : Run step s' bs s'') : Run step s (as ++ bs) s'' := by
  induction h with
  | nil => exact h'
  | cons head _ ih => exact .cons head (ih h')

theorem snoc (h : Run step s as s') (hs : step s' a s'') : Run step s (as ++ [a]) s'' :=
  h.append (.cons hs (.nil _))

theorem invariant {P : σ → Prop} (hstep : ∀ s a s', P s → step s a s' → P s')
    (h : Run step s as s') (hs : P s) : P s' := by
  induction h with
  | nil => exact hs
  | cons head _ ih => exact ih (hstep _ _ _ hs head)

theorem simulate {stepA : τ → α → τ → Prop} {R : σ → τ → Prop}
    (hsim : ∀ s t a s', R s t → step s a s' → ∃ t', stepA t a t' ∧ R s' t')
    (h : Run step s as s') {t : τ} (hs : R s t) : ∃ t', Run stepA t as t' ∧ R s' t' := by
  induction h generalizing t with
  | nil => exact ⟨t, .nil t, hs⟩
  | cons head _ ih =>
    obtain ⟨t₁, hstep, h₁⟩ := hsim _ _ _ _ hs head
    obtain ⟨t₂, hrun, h₂⟩ := ih h₁
    exact ⟨t₂, .cons hstep hrun, h₂⟩

/-- Execute labels one after the other; `none` as soon as one of them cannot be taken. -/
def exec (f : σ → α → Option σ) : σ → List α → Option σ
  | s, [] => some s
  | s, a :: as => (f s a).bind fun s' => exec f s' as

theorem of_exec {f : σ → α → Option σ} (hf : ∀ s a s', f s a = some s' → step s a s')
    (h : exec f s as = some s') : Run step s as s' := by
  induction as generalizing s with
  | nil =>
    cases h
    exact .nil _
  | cons a as ih =>
    obtain ⟨s₁, hs₁, h₁⟩ := Option.bind_eq_some_iff.mp h
    exact .cons (hf _ _ _ hs₁) (ih h₁)

theorem of_exec_guard {guard : σ → α → Prop} [∀ s a, Decidable (guard s a)] {f : σ → α → Option σ}
    (h : exec (fun s a => if guard s a then f s a else none) s as = some s') :
    Run (fun s a s' => guard s a ∧ f s a = some s') s as s' := by
  refine of_exec (fun s a s' hs => ?_) h
  split at hs
  · rename_i hg
    exact ⟨hg, hs⟩
  · cases hs

section
variable (f : σ → α → Option σ) (s : σ) (as : List α) (Q : σ → Prop) [DecidablePred Q]

theorem exists_of_exec (h : (exec f s as).any (fun s' => decide (Q s')) = true) :
    ∃ s', Run (fun s a s' => f s a = some s') s as s' ∧ Q s' := by
  obtain ⟨s', hexec, hQ⟩ := (Option.any_eq_true _ _).mp h
  exact ⟨s', of_exec (fun _ _ _ h => h) hexec, of_decide_eq_true hQ⟩

theorem exists_of_exec_guard (guard : σ → α → Prop) [∀ s a, Decidable (guard s a)]
    (h : (exec (fun s a => if guard s a then f s a else none) s as).any (fun s' => decide (Q s')) = true) :
    ∃ s', Run (fun s a s' => guard s a ∧ f s a = some s') s as s' ∧ Q s' := by
  obtain ⟨s', hexec, hQ⟩ := (Option.any_eq_true _ _).mp h
  exact ⟨s', of_exec_guard hexec, of_decide_eq_true hQ⟩

end

end Run

end Bunix.Lib
