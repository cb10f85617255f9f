import Bunix.Lib.PointUpdate
import Bunix.Lib.SlashPath

/-! # Name spaces that are trees

A name space maps paths to what they name. It is closed if the parent of every path in it is a root
or a directory in it. Adding a name below a directory, removing one that has nothing below it and
moving a subtree keep it closed.
-/
namespace Bunix.Lib

open Function

abbrev NameTree (κ : Type*) := SlashPath → Option κ

namespace NameTree

open SlashPath

variable {κ : Type*} {isDir : κ → Prop} {root : SlashPath → Prop} {T T' : NameTree κ}
  {p q d old new : SlashPath} {k k' : κ}

/-- The parent of `p` is a root or a directory. -/
def ParentOk (isDir : κ → Prop) (root : SlashPath → Prop) (T : NameTree κ) (p : SlashPath) : Prop :=
  ∃ d, Parent d p ∧ (root d ∨ ∃ k, T d = some k ∧ isDir k)

/-- Every name stands below a root or a directory. -/
def Closed (isDir : κ → Prop) (root : SlashPath → Prop) (T : NameTree κ) : Prop :=
  ∀ p k, T p = some k → ParentOk isDir root T p

theorem Closed.head? (h : Closed isDir root T) (hp : T p = some k) : p.head? = some '/' := by
  obtain ⟨d, hd, -⟩ := h p k hp
  exact hd.1

theorem Closed.mono_root {root' : SlashPath → Prop} (h : Closed isDir root T)
    (hroot : ∀ p, root p → root' p) : Closed isDir root' T := by
  intro p k hp
  obtain ⟨d, hd, hok⟩ := h p k hp
  exact ⟨d, hd, hok.imp_left (hroot d)⟩

theorem ParentOk.mono (h : ParentOk isDir root T p)
    (hdir : ∀ d k, Parent d p → T d = some k → isDir k → ∃ k', T' d = some k' ∧ isDir k') :
    ParentOk isDir root T' p := by
  obtain ⟨d, hd, hroot | ⟨k, hk, hdk⟩⟩ := h
  · exact ⟨d, hd, .inl hroot⟩
  · exact ⟨d, hd, .inr (hdir d k hd hk hdk)⟩

section
variable (h : Closed isDir root T)
include h

theorem Closed.congr (hsome : ∀ p k', T' p = some k' → ∃ k, T p = some k ∧ (isDir k ↔ isDir k'))
    (hsome' : ∀ p k, T p = some k → ∃ k', T' p = some k' ∧ (isDir k ↔ isDir k')) :
    Closed isDir root T' := by
  intro p k' hp
  obtain ⟨k, hk, -⟩ := hsome p k' hp
  refine (h p k hk).mono fun d kd _ hd hdir => ?_
  obtain ⟨kd', hd', hiff⟩ := hsome' d kd hd
  exact ⟨kd', hd', hiff.mp hdir⟩

theorem Closed.insert (hp : T p = none) (hparent : ParentOk isDir root T p) :
    Closed isDir root (update T p (some k)) := by
  have hkeep : ∀ q, ParentOk isDir root T q → ParentOk isDir root (update T p (some k)) q := by
    refine fun q hq => hq.mono fun d kd _ hd hdir => ⟨kd, ?_, hdir⟩
    rw [update_of_ne]
    · exact hd
    · rintro rfl
      rw [hp] at hd
      cases hd
  intro q kq hq
  exact update_cases (fun hqp _ => hqp ▸ hkeep p hparent) (fun _ hq => hkeep q (h q kq hq)) hq

theorem Closed.remove
    (hleaf : (∀ k, T p = some k → ¬ isDir k) ∨ root p ∨ ∀ q k, T q = some k → ¬ Parent p q) :
    Closed isDir root (update T p none) := by
  intro q kq hq
  have hqp : q ≠ p := by
    rintro rfl
    rw [update_self] at hq
    cases hq
  rw [update_of_ne hqp] at hq
  obtain ⟨d, hd, hok⟩ := h q kq hq
  by_cases hdp : d = p
  · subst hdp
    rcases hleaf with hnot | hroot | hno
    · rcases hok with hroot | ⟨k, hk, hdir⟩
      · exact ⟨d, hd, .inl hroot⟩
      · exact absurd hdir (hnot k hk)
    · exact ⟨d, hd, .inl hroot⟩
    · exact absurd hd (hno q kq hq)
  · refine ⟨d, hd, hok.imp_right fun ⟨k, hk, hdir⟩ => ⟨k, ?_, hdir⟩⟩
    rw [update_of_ne hdp]
    exact hk

theorem Closed.move (hold : T old = some k) (hnew : T new = none)
    (hk : ¬ isDir k) (hparent : ParentOk isDir root T new) :
    Closed isDir root (update (update T old none) new (some k)) := by
  have hne : new ≠ old := by
    rintro rfl
    rw [hnew] at hold
    cases hold
  have hnot : ∀ k', T old = some k' → ¬ isDir k' := by
    intro k' hk'
    rw [hold] at hk'
    cases hk'
    exact hk
  refine Closed.insert (h.remove (.inl hnot)) ?_ ?_
  · rw [update_of_ne hne]
    exact hnew
  · refine hparent.mono fun d kd _ hd hdir => ⟨kd, ?_, hdir⟩
    rw [update_of_ne]
    · exact hd
    · rintro rfl
      exact hnot kd hd hdir

end

theorem rebase_rebase (h : AtOrUnder old p) : rebase new old (rebase old new p) = p := by
  obtain ⟨s, rfl, -⟩ := h.exists_append
  rw [rebase_append, rebase_append]

open Classical in
/-- The names at and below `old` move to `new`. -/
noncomputable def moveSubtree (T : NameTree κ) (old new : SlashPath) : NameTree κ := fun q =>
  if AtOrUnder new q ∧ T (rebase new old q) ≠ none then T (rebase new old q)
  else if AtOrUnder old q then none else T q

theorem moveSubtree_rebase (h : AtOrUnder old p) (hp : T p = some k) :
    moveSubtree T old new (rebase old new p) = some k := by
  unfold moveSubtree
  rw [rebase_rebase h, hp, if_pos ⟨h.rebase, by simp⟩]

theorem moveSubtree_old (hq : AtOrUnder old q) (h : ∀ p, AtOrUnder old p → q = rebase old new p → T p = none) :
    moveSubtree T old new q = none := by
  unfold moveSubtree
  rw [if_neg, if_pos hq]
  rintro ⟨hat, hne⟩
  exact hne (h _ hat.rebase (rebase_rebase hat).symm)

theorem moveSubtree_other (hq : ¬ AtOrUnder old q)
    (h : ∀ p, AtOrUnder old p → q = rebase old new p → T p = none) :
    moveSubtree T old new q = T q := by
  unfold moveSubtree
  rw [if_neg, if_neg hq]
  rintro ⟨hat, hne⟩
  exact hne (h _ hat.rebase (rebase_rebase hat).symm)

/-- A name afterwards is one that has moved, or one that was there, is not below the old path, and
is not moved over. -/
theorem moveSubtree_eq_some : moveSubtree T old new q = some k ↔
    (∃ p, AtOrUnder old p ∧ T p = some k ∧ q = rebase old new p) ∨
      ¬ AtOrUnder old q ∧ T q = some k ∧ ∀ p, AtOrUnder old p → q = rebase old new p → T p = none := by
  by_cases himage : ∃ p k', AtOrUnder old p ∧ T p = some k' ∧ q = rebase old new p
  · obtain ⟨p, k', hp, hk', rfl⟩ := himage
    rw [moveSubtree_rebase hp hk']
    constructor
    · rintro ⟨⟩
      exact .inl ⟨p, hp, hk', rfl⟩
    · rintro (⟨p', hp', hk, he⟩ | ⟨-, -, hno⟩)
      · rw [← rebase_injective hp hp' he, hk'] at hk
        exact hk
      · rw [hno p hp rfl] at hk'
        cases hk'
  · have hno : ∀ p, AtOrUnder old p → q = rebase old new p → T p = none := by
      intro p hp he
      cases hT : T p with
      | none => rfl
      | some k' => exact absurd ⟨p, k', hp, hT, he⟩ himage
    by_cases hq : AtOrUnder old q
    · rw [moveSubtree_old hq hno]
      constructor
      · rintro ⟨⟩
      · rintro (⟨p, hp, hk, he⟩ | ⟨hnot, -⟩)
        · exact absurd ⟨p, k, hp, hk, he⟩ himage
        · exact absurd hq hnot
    · rw [moveSubtree_other hq hno]
      constructor
      · exact fun hk => .inr ⟨hq, hk, hno⟩
      · rintro (⟨p, hp, hk, he⟩ | ⟨-, hk, -⟩)
        · exact absurd ⟨p, k, hp, hk, he⟩ himage
        · exact hk

theorem moveSubtree_leaf (hold : T old = some k) (hbelow : ∀ q, Under old q → T q = none) :
    moveSubtree T old new = update (update T old none) new (some k) := by
  funext q
  by_cases hq : q = new
  · subst hq
    rw [update_self, ← hold]
    nth_rewrite 2 [← @rebase_self old q]
    rw [moveSubtree_rebase (.inl rfl) hold, hold]
  · rw [update_of_ne hq]
    have hno : ∀ p, AtOrUnder old p → q = rebase old new p → T p = none := by
      rintro p (rfl | hp) he
      · exact absurd (he.trans rebase_self) hq
      · exact hbelow p hp
    by_cases hat : AtOrUnder old q
    · rw [moveSubtree_old hat hno]
      rcases hat with rfl | hu
      · rw [update_self]
      · rw [update_of_ne fun he => not_under_self (he ▸ hu), hbelow q hu]
    · rw [moveSubtree_other hat hno, update_of_ne fun he => hat (.inl he)]

theorem moveSubtree_bind {μ : Type*} {φ : κ → Option μ} (hφ : ∀ p k, T p = some k → φ k ≠ none) :
    moveSubtree (fun p => (T p).bind φ) old new = fun p => (moveSubtree T old new p).bind φ := by
  funext q
  unfold moveSubtree
  have hnone : (T (rebase new old q)).bind φ ≠ none ↔ T (rebase new old q) ≠ none := by
    cases hT : T (rebase new old q) with
    | none => simp
    | some k => simpa using hφ _ k hT
  by_cases hq : AtOrUnder new q ∧ T (rebase new old q) ≠ none
  · rw [if_pos hq, if_pos ⟨hq.1, hnone.mpr hq.2⟩]
  · rw [if_neg hq, if_neg fun h => hq ⟨h.1, hnone.mp h.2⟩]
    split <;> rfl

/-- The new path is not below the old one, no root is at or below the old path, and what is moved
meets no other name. -/
theorem Closed.moveSubtree (h : Closed isDir root T) (hslash : root ['/'])
    (hnew : new ≠ []) (hold : old ≠ []) (hunder : ¬ Under old new)
    (hparent : ParentOk isDir root T new) (hslash' : old ≠ ['/'])
    (hroots : ∀ d, AtOrUnder old d → root d → ∃ k, T d = some k ∧ isDir k)
    (hfree : ∀ p k, AtOrUnder old p → T p = some k → T (rebase old new p) = none ∨
      AtOrUnder old (rebase old new p)) :
    Closed isDir root (moveSubtree T old new) := by
  -- a directory that is not moved stays, since nothing is moved over it
  have hkeep : ∀ q d, Parent d q → ¬ AtOrUnder old d → (root d ∨ ∃ k, T d = some k ∧ isDir k) →
      ParentOk isDir root (NameTree.moveSubtree T old new) q := by
    intro q d hd hdo hok
    refine ⟨d, hd, hok.imp_right fun ⟨k, hk, hdir⟩ => ⟨k, ?_, hdir⟩⟩
    rw [moveSubtree_other hdo]
    · exact hk
    · rintro p hp rfl
      cases hT : T p with
      | none => rfl
      | some k' =>
        rcases hfree p k' hp hT with h0 | h0
        · rw [h0] at hk
          cases hk
        · exact absurd h0 hdo
  have hmoved : ∀ p k, AtOrUnder old p → T p = some k →
      ParentOk isDir root (NameTree.moveSubtree T old new) (rebase old new p) := by
    rintro p k (rfl | ⟨rest, rfl⟩) hp
    · -- the moved directory itself, below the parent that has been checked
      rw [rebase_self]
      obtain ⟨d, hd, hok⟩ := hparent
      by_cases hdr : d = ['/']
      · exact ⟨d, hd, .inl (hdr ▸ hslash)⟩
      · exact hkeep new d hd (fun hdo => hunder (hd.under hdr hdo)) hok
    · -- below it, next to its parent as before
      rw [rebase_append]
      obtain ⟨d, hd, hok⟩ := h _ k hp
      have hdo : AtOrUnder old d := hd.atOrUnder hold ⟨rest, rfl⟩
      obtain ⟨kd, hkd, hdir⟩ : ∃ k, T d = some k ∧ isDir k := hok.elim (hroots d hdo) id
      have hchild : Child d (old ++ '/' :: rest) := by
        obtain ⟨-, ⟨-, hc⟩ | ⟨rfl, -⟩⟩ := hd
        · exact hc
        · rcases hdo with h0 | ⟨rest, h0⟩
          · exact absurd h0.symm hslash'
          · have := congrArg List.length h0
            cases old with
            | nil => exact absurd rfl hold
            | cons c old => simp at this
      have hchild' : Child (rebase old new d) (new ++ '/' :: rest) := by
        have hr : Child (rebase old new d) (rebase old new (old ++ '/' :: rest)) := hchild.rebase hdo
        rwa [rebase_append] at hr
      have hhead : (new ++ '/' :: rest).head? = some '/' := by
        obtain ⟨_, hn, -⟩ := hparent
        have := hn.1
        cases new with
        | nil => exact absurd rfl hnew
        | cons c new => exact this
      have hat : AtOrUnder new (rebase old new d) := hdo.rebase
      refine ⟨rebase old new d, ⟨hhead, .inl ⟨?_, hchild'⟩⟩,
        .inr ⟨kd, moveSubtree_rebase hdo hkd, hdir⟩⟩
      intro hnil
      rw [hnil] at hat
      rcases hat with h0 | ⟨rest, h0⟩
      · exact hnew h0.symm
      · exact absurd h0 (by simp)
  intro q kq hq
  by_cases himage : ∃ p k, AtOrUnder old p ∧ T p = some k ∧ q = rebase old new p
  · obtain ⟨p, k, hp, hk, rfl⟩ := himage
    exact hmoved p k hp hk
  have hno : ∀ p, AtOrUnder old p → q = rebase old new p → T p = none := by
    intro p hp he
    cases hT : T p with
    | none => rfl
    | some k => exact absurd ⟨p, k, hp, hT, he⟩ himage
  by_cases hqo : AtOrUnder old q
  · rw [moveSubtree_old hqo hno] at hq
    cases hq
  rw [moveSubtree_other hqo hno] at hq
  obtain ⟨d, hd, hok⟩ := h q kq hq
  by_cases hdr : d = ['/']
  · exact ⟨d, hd, .inl (hdr ▸ hslash)⟩
  · exact hkeep q d hd (fun hdo => hqo (.inr (hd.under hdr hdo))) hok

end NameTree

end Bunix.Lib
