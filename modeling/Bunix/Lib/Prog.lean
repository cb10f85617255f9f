import Mathlib.Logic.Function.Basic

/-! # Programs of threads that share a state

A program is a sequence of actions on a shared state; what an action returns decides how the
program goes on. Each action is atomic, and between two of them other threads may act.

A *discipline* is how to reason about such threads one by one: every thread has a ghost value
(what it owns, what it knows), an action may ask for something of that value and changes it.
`wp` checks one program against a discipline, whatever the other threads do. `wp_step` carries
an invariant of the shared state and all ghost values over one action of one thread.
-/
namespace Bunix.Lib

inductive Prog (A : Type) (Res : A → Type) (β : Type) where
  | ret (b : β)
  | act (a : A) (k : Res a → Prog A Res β)

namespace Prog

variable {A : Type} {Res : A → Type} {β γ σ τ G : Type}

protected def bind : Prog A Res β → (β → Prog A Res γ) → Prog A Res γ
  | .ret b, f => f b
  | .act a k, f => .act a fun r => (k r).bind f

instance : Monad (Prog A Res) where
  pure := .ret
  bind := Prog.bind

def perform (a : A) : Prog A Res (Res a) := .act a .ret

/-- One action of a program. `exec` gives nothing when the action cannot be taken now, and no
result when it has to be tried again. -/
def step (exec : (a : A) → σ → Option (Option (Res a) × σ)) (p : Prog A Res β) (s : σ) :
    Option (Prog A Res β × σ) :=
  match p with
  | .ret _ => none
  | .act a k =>
    match exec a s with
    | none => none
    | some (none, s') => some (.act a k, s')
    | some (some r, s') => some (k r, s')

/-- What an action asks of the ghost value of its thread, and how the value may change with it. -/
structure Discipline (A : Type) (Res : A → Type) (G : Type) where
  may : A → G → Prop
  upd : (a : A) → Res a → G → G → Prop

/-- The program keeps to the discipline from the ghost value `g` on, and what it returns meets
`Q` together with the ghost value it leaves. -/
def wp (d : Discipline A Res G) : Prog A Res β → (β → G → Prop) → G → Prop
  | .ret b, Q, g => Q b g
  | .act a k, Q, g => d.may a g ∧ ∀ r, ∃ g', d.upd a r g g' ∧ wp d (k r) Q g'

variable {d : Discipline A Res G} {Q Q' : β → G → Prop} {g : G} {p p' : Prog A Res β}

@[simp] theorem wp_pure (b : β) : wp d (pure b : Prog A Res β) Q g ↔ Q b g := Iff.rfl

@[simp] theorem wp_bind {f : β → Prog A Res γ} {Q : γ → G → Prop} :
    wp d (p >>= f) Q g ↔ wp d p (fun b g' => wp d (f b) Q g') g := by
  show wp d (p.bind f) Q g ↔ _
  induction p generalizing g with
  | ret b => exact Iff.rfl
  | act a k ih =>
    simp only [Prog.bind, wp, ih]

theorem wp_cases {exec : (a : A) → σ → Option (Option (Res a) × σ)} {s s' : σ} (hwp : wp d p Q g)
    (hs : p.step exec s = some (p', s')) :
    ∃ a k, p = .act a k ∧ d.may a g ∧ ((exec a s = some (none, s') ∧ p' = .act a k) ∨
      ∃ r g', exec a s = some (some r, s') ∧ d.upd a r g g' ∧ p' = k r ∧ wp d p' Q g') := by
  cases p with
  | ret b => cases hs
  | act a k =>
    obtain ⟨hmay, hk⟩ := hwp
    refine ⟨a, k, rfl, hmay, ?_⟩
    simp only [step] at hs
    split at hs
    · cases hs
    · rename_i he
      cases hs
      exact .inl ⟨he, rfl⟩
    · rename_i r _ he
      cases hs
      obtain ⟨g', hupd, hk'⟩ := hk r
      exact .inr ⟨r, g', he, hupd, rfl, hk'⟩

/-- One action of thread `t` keeps an invariant `Inv` of the shared state and the ghost values,
when the discipline does. -/
theorem wp_step [DecidableEq τ] {exec : (a : A) → σ → Option (Option (Res a) × σ)} {s s' : σ}
    (Inv : σ → (τ → G) → Prop) {g : τ → G} {t : τ} (hwp : wp d p Q (g t))
    (hs : p.step exec s = some (p', s'))
    (hnext : ∀ a r g', d.may a (g t) → exec a s = some (some r, s') → d.upd a r (g t) g' →
      Inv s' (Function.update g t g'))
    (hagain : ∀ a, d.may a (g t) → exec a s = some (none, s') → Inv s' g) :
    ∃ a k r g', p = .act a k ∧ d.may a (g t) ∧ exec a s = some (r, s') ∧
      Inv s' (Function.update g t g') ∧ wp d p' Q g' := by
  obtain ⟨a, k, rfl, hmay, ⟨he, rfl⟩ | ⟨r, g', he, hupd, rfl, hk⟩⟩ := wp_cases hwp hs
  · refine ⟨a, k, none, g t, rfl, hmay, he, ?_, hwp⟩
    rw [Function.update_eq_self]
    exact hagain a hmay he
  · exact ⟨a, k, some r, g', rfl, hmay, he, hnext a r g' hmay he hupd, hk⟩

end Prog

end Bunix.Lib
