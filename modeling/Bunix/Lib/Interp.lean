import Bunix.Lib.Performs

/-! # Running a program

`exec` answers the actions of a program out of a state. `Along` says what holds of every action that
is performed in this run, in the state it is performed in. Two runs of one program whose answers are
the same return the same: `exec_simulate`.
-/
namespace Bunix.Lib.Prog

variable {A : Type} {Res : A → Type} {β γ σ τ : Type} {h : (a : A) → σ → Res a × σ}
  {P P' : A → σ → Prop} {p : Prog A Res β} {f : β → Prog A Res γ} {s : σ} {t : τ}

def exec (h : (a : A) → σ → Res a × σ) : Prog A Res β → σ → β × σ
  | .ret b, s => (b, s)
  | .act a k, s => exec h (k (h a s).1) (h a s).2

/-- Every action of the run meets `P`. -/
def Along (h : (a : A) → σ → Res a × σ) (P : A → σ → Prop) : Prog A Res β → σ → Prop
  | .ret _, _ => True
  | .act a k, s => P a s ∧ Along h P (k (h a s).1) (h a s).2

theorem returns_exec {env : (a : A) → Res a → Prop} (henv : ∀ a s, env a (h a s).1) :
    Returns env p (exec h p s).1 := by
  induction p generalizing s with
  | ret b => exact .ret
  | act a k ih => exact .later (henv a s) (ih _)

theorem exec_bind : exec h (p >>= f) s = exec h (f (exec h p s).1) (exec h p s).2 := by
  induction p generalizing s with
  | ret b => rfl
  | act a k ih => exact ih _

theorem exec_bindT {ρ : Type} {m : StateT ρ (Prog A Res) β} {g : β → StateT ρ (Prog A Res) γ} {r : ρ} :
    exec h ((m >>= g) r) s =
      exec h (g (exec h (m r) s).1.1 (exec h (m r) s).1.2) (exec h (m r) s).2 := exec_bind

theorem along_bind : Along h P (p >>= f) s ↔
    Along h P p s ∧ Along h P (f (exec h p s).1) (exec h p s).2 := by
  show Along h P (p.bind f) s ↔ _
  induction p generalizing s with
  | ret b => exact (and_iff_right trivial).symm
  | act a k ih =>
    simp only [Prog.bind, Along, exec, ih]
    exact and_assoc.symm

theorem along_bindT {ρ : Type} {m : StateT ρ (Prog A Res) β} {g : β → StateT ρ (Prog A Res) γ} {r : ρ} :
    Along h P ((m >>= g) r) s ↔ Along h P (m r) s ∧
      Along h P (g (exec h (m r) s).1.1 (exec h (m r) s).1.2) (exec h (m r) s).2 := along_bind

theorem Along.mono (hP : ∀ a s, P a s → P' a s) (hp : Along h P p s) : Along h P' p s := by
  induction p generalizing s with
  | ret b => trivial
  | act a k ih => exact ⟨hP a s hp.1, ih _ hp.2⟩

/-- The same result, in states that are related. -/
abbrev Agree (R : σ → τ → Prop) (x : β × σ) (y : β × τ) : Prop := y.1 = x.1 ∧ R x.2 y.2

/-- **Simulation.** Two ways to answer that agree, as long as the actions meet `P`, on states that
are related. -/
theorem exec_simulate {g : (a : A) → τ → Res a × τ} (R : σ → τ → Prop)
    (hstep : ∀ a s t, R s t → P a s → Agree R (h a s) (g a t)) (hR : R s t) (hp : Along h P p s) :
    Agree R (exec h p s) (exec g p t) := by
  induction p generalizing s t with
  | ret b => exact ⟨rfl, hR⟩
  | act a k ih =>
    obtain ⟨hres, hnext⟩ := hstep a s t hR hp.1
    simp only [exec, hres]
    exact ih _ hnext hp.2

theorem exec_invariant (I : σ → Prop) (hstep : ∀ a s, I s → P a s → I (h a s).2) (hI : I s)
    (hp : Along h P p s) : I (exec h p s).2 := by
  induction p generalizing s with
  | ret b => exact hI
  | act a k ih => exact ih _ (hstep a s hI hp.1) hp.2

/-- A rule for all answers holds of the answers of a run. The answers are those that `env` allows as
long as `I` holds. -/
theorem Only.exec {env : (a : A) → Res a → Prop} {O : A → Prop} {Q : β → Prop} (I : σ → Prop)
    (hstep : ∀ a s, I s → P a s → O a → env a (h a s).1 ∧ I (h a s).2) (hI : I s)
    (honly : Only env O p Q) (hp : Along h P p s) :
    Along h (fun a s => P a s ∧ O a ∧ I s) p s ∧ Q (exec h p s).1 ∧ I (exec h p s).2 := by
  induction p generalizing s with
  | ret b => exact ⟨trivial, honly, hI⟩
  | act a k ih =>
    obtain ⟨henv, hnext⟩ := hstep a s hI hp.1 honly.1
    obtain ⟨halong, hrest⟩ := ih _ hnext (honly.2 _ henv) hp.2
    exact ⟨⟨⟨hp.1, honly.1, hI⟩, halong⟩, hrest⟩

theorem Only.along {O : A → Prop} {Q : β → Prop} (honly : Only (fun _ _ => True) O p Q) :
    Along h (fun a _ => O a) p s := by
  induction p generalizing s with
  | ret b => trivial
  | act a k ih => exact ⟨honly.1, ih _ (honly.2 _ trivial)⟩

end Bunix.Lib.Prog
