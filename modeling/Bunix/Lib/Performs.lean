import Bunix.Lib.Prog

/-! # What a program performs

A program with a state of its own asks the outside and goes on with the answers. `env` says which
answers the outside may give. `Only` is the rule for showing that every action a program can come to
perform is allowed, whatever the answers; `Performs` is one action it does come to.
-/
namespace Bunix.Lib.Prog

variable {A : Type} {Res : A → Type} {β γ σ : Type} {env : (a : A) → Res a → Prop} {P : A → Prop}
  {p : Prog A Res β} {f : β → Prog A Res γ} {Q Q' : β → Prop} {a : A} {b : β}

inductive Performs (env : (a : A) → Res a → Prop) : Prog A Res β → A → Prop
  | here {a : A} {k : Res a → Prog A Res β} : Performs env (.act a k) a
  | later {a b : A} {k : Res b → Prog A Res β} {r : Res b} (answer : env b r)
      (next : Performs env (k r) a) : Performs env (.act b k) a

inductive Returns (env : (a : A) → Res a → Prop) : Prog A Res β → β → Prop
  | ret {b : β} : Returns env (.ret b) b
  | later {a : A} {b : β} {k : Res a → Prog A Res β} {r : Res a} (answer : env a r)
      (next : Returns env (k r) b) : Returns env (.act a k) b

/-- The program performs only actions that meet `P`, and returns only what meets `Q`. -/
def Only (env : (a : A) → Res a → Prop) (P : A → Prop) : Prog A Res β → (β → Prop) → Prop
  | .ret b, Q => Q b
  | .act a k, Q => P a ∧ ∀ r, env a r → Only env P (k r) Q

theorem Only.performs (h : Only env P p Q) (ha : Performs env p a) : P a := by
  induction ha with
  | here => exact h.1
  | later answer _ ih => exact ih (h.2 _ answer)

theorem Only.returns (h : Only env P p Q) (hb : Returns env p b) : Q b := by
  induction hb with
  | ret => exact h
  | later answer _ ih => exact ih (h.2 _ answer)

theorem Only.mono (h : Only env P p Q) (hQ : ∀ b, Q b → Q' b) : Only env P p Q' := by
  induction p with
  | ret b => exact hQ b h
  | act a k ih => exact ⟨h.1, fun r hr => ih r (h.2 r hr)⟩

theorem Only.monoAction {P' : A → Prop} (h : Only env P p Q) (hP : ∀ a, P a → P' a) :
    Only env P' p Q := by
  induction p with
  | ret b => exact h
  | act a k ih => exact ⟨hP a h.1, fun r hr => ih r (h.2 r hr)⟩

theorem only_bind {Q : γ → Prop} :
    Only env P (p >>= f) Q ↔ Only env P p fun b => Only env P (f b) Q := by
  show Only env P (p.bind f) Q ↔ _
  induction p with
  | ret b => exact Iff.rfl
  | act a k ih => simp only [Prog.bind, Only, ih]

theorem Performs.bind (h : Performs env p a) : Performs env (p >>= f) a := by
  induction h with
  | here => exact .here
  | later answer _ ih => exact .later answer ih

/-! ## With a state -/

variable {s : σ} {m : StateT σ (Prog A Res) β} {g : β → StateT σ (Prog A Res) γ}
  {R : β × σ → Prop} {S : γ × σ → Prop}

/-- An action of a program with a state. -/
def performT (a : A) : StateT σ (Prog A Res) (Res a) := fun s => .act a fun r => .ret (r, s)

@[simp] theorem only_get {R : σ × σ → Prop} :
    Only env P ((get : StateT σ (Prog A Res) σ) s) R ↔ R (s, s) := Iff.rfl

@[simp] theorem only_modify {h : σ → σ} {R : PUnit × σ → Prop} :
    Only env P ((modify h : StateT σ (Prog A Res) PUnit) s) R ↔ R (⟨⟩, h s) := Iff.rfl

@[simp] theorem only_bindT :
    Only env P ((m >>= g) s) S ↔ Only env P (m s) fun bs => Only env P (g bs.1 bs.2) S := only_bind

/-! ## What a handler keeps -/

/-- Every action meets `P`, and the state at the end stands in the relation `K` to the one at the
start. -/
def Keeps (env : (a : A) → Res a → Prop) (P : A → Prop) (K : σ → σ → Prop)
    (m : StateT σ (Prog A Res) β) (s : σ) : Prop :=
  Only env P (m s) fun bs => K s bs.2

namespace Keeps

variable {K : σ → σ → Prop} {s' : σ}

theorem getBind {f : σ → StateT σ (Prog A Res) β} (hf : Keeps env P K (f s) s) :
    Keeps env P K (get >>= f) s := hf

theorem actBind {f : Res a → StateT σ (Prog A Res) β} (ha : P a)
    (hf : ∀ r, env a r → Keeps env P K (f r) s) : Keeps env P K (performT a >>= f) s := ⟨ha, hf⟩

theorem map {f : β → γ} (hm : Keeps env P K m s) : Keeps env P K (m >>= fun b => Pure.pure (f b)) s :=
  only_bindT.mpr hm

theorem bind [IsTrans σ K] (hm : Keeps env P K m s) (hg : ∀ b s', Keeps env P K (g b) s') :
    Keeps env P K (m >>= g) s :=
  only_bindT.mpr (Only.mono hm fun bs h => Only.mono (hg bs.1 bs.2) fun _ => IsTrans.trans _ _ _ h)

theorem setBind [IsTrans σ K] {f : PUnit → StateT σ (Prog A Res) β} (h : K s s')
    (hf : Keeps env P K (f ⟨⟩) s') : Keeps env P K (set s' >>= f) s :=
  Only.mono hf fun _ => IsTrans.trans _ _ _ h

variable [Std.Refl K]

theorem pure (b : β) : Keeps env P K (Pure.pure b) s := Std.Refl.refl s

theorem act (ha : P a) : Keeps env P K (performT a) s := ⟨ha, fun _ _ => Std.Refl.refl s⟩

theorem guard {c : Prop} [Decidable c] (hm : Keeps env P K m s) :
    Keeps env P K (if c then Pure.pure b else m) s := by
  split
  · exact .pure b
  · exact hm

theorem when {c : Prop} [Decidable c] (hm : Keeps env P K m s) :
    Keeps env P K (if c then m else Pure.pure b) s := by
  split
  · exact hm
  · exact .pure b

end Keeps

end Bunix.Lib.Prog
