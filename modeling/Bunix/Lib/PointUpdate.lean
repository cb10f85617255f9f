import Mathlib.Logic.Function.Basic

/-! # Functions changed at one point -/
namespace Bunix.Lib

open Function

variable {α β : Type*} [DecidableEq α] {f : α → β} {a x : α} {v : β}

@[elab_as_elim]
theorem update_cases {motive : β → Prop} (self : x = a → motive v) (ne : x ≠ a → motive (f x)) :
    motive (update f a v x) := by
  by_cases hx : x = a
  · rw [hx, update_self]
    exact self hx
  · rw [update_of_ne hx]
    exact ne hx

@[elab_as_elim]
theorem update_cases₂ {γ : Type*} {g : α → γ} {w : γ} {motive : β → γ → Prop} (self : x = a → motive v w)
    (ne : x ≠ a → motive (f x) (g x)) : motive (update f a v x) (update g a w x) := by
  by_cases hx : x = a
  · rw [hx, update_self, update_self]
    exact self hx
  · rw [update_of_ne hx, update_of_ne hx]
    exact ne hx

theorem of_update_none {f : α → Option β} (h : update f a none x = some v) : x ≠ a ∧ f x = some v :=
  update_cases (fun _ h => by cases h) (fun hx h => ⟨hx, h⟩) h

theorem le_update_succ (f : α → Nat) : f x ≤ update f a (f a + 1) x :=
  update_cases (fun hx => by rw [hx]; exact Nat.le_succ _) fun _ => Nat.le_refl _

end Bunix.Lib
