import Mathlib.Data.List.Basic

/-! # Paths as strings

A path is the list of its characters and is not normalised: two paths are the same if they are
equal, and one is below another if it continues it with a slash. Every path that starts with a
slash splits in one way into what stands before its last slash and a name without slash.
-/
namespace Bunix.Lib

open List

abbrev SlashPath := List Char

namespace SlashPath

variable {p p' d d' q rest name : SlashPath}

def Under (d p : SlashPath) : Prop := ∃ rest, p = d ++ '/' :: rest

def AtOrUnder (d p : SlashPath) : Prop := p = d ∨ Under d p

/-- `p` is `d`, a slash and a name. -/
def Child (d p : SlashPath) : Prop := ∃ name, '/' ∉ name ∧ p = d ++ '/' :: name

theorem Child.under (h : Child d p) : Under d p := by
  obtain ⟨name, -, rfl⟩ := h
  exact ⟨name, rfl⟩

theorem Under.trans_child (h : AtOrUnder q d) (hc : Child d p) : Under q p := by
  obtain ⟨name, -, rfl⟩ := hc
  rcases h with rfl | ⟨rest, rfl⟩
  · exact ⟨name, rfl⟩
  · exact ⟨rest ++ '/' :: name, by simp⟩

theorem Under.length_lt (h : Under d p) : d.length < p.length := by
  obtain ⟨rest, rfl⟩ := h
  simp

theorem not_under_self : ¬ Under p p := fun h => absurd h.length_lt (Nat.lt_irrefl _)

theorem Child.unique (h : Child d p) (h' : Child d' p) : d = d' := by
  obtain ⟨name, hname, rfl⟩ := h
  obtain ⟨name', hname', he⟩ := h'
  rcases append_eq_append_iff.mp he with ⟨w, rfl, hw⟩ | ⟨w, rfl, hw⟩ <;> cases w with
  | nil => simp
  | cons c w =>
    simp only [cons_append, cons.injEq] at hw
    simp [hw.2] at hname hname'

theorem exists_last_slash (h : '/' ∈ p) : ∃ d, Child d p := by
  induction p with
  | nil => cases h
  | cons c p ih =>
    by_cases hp : '/' ∈ p
    · obtain ⟨d, name, hname, he⟩ := ih hp
      exact ⟨c :: d, name, hname, by rw [he]; rfl⟩
    · obtain rfl : '/' = c := (mem_cons.mp h).resolve_right hp
      exact ⟨[], p, hp, rfl⟩

/-- A path below `q` has its parent at or below `q`. -/
theorem AtOrUnder.of_child (h : Under q p) (hc : Child d p) : AtOrUnder q d := by
  obtain ⟨rest, rfl⟩ := h
  by_cases hr : '/' ∈ rest
  · obtain ⟨d', name, hname, rfl⟩ := exists_last_slash hr
    have hd : d = q ++ '/' :: d' := hc.unique ⟨name, hname, by simp⟩
    exact .inr ⟨d', hd⟩
  · exact .inl (hc.unique ⟨rest, hr, rfl⟩)

/-- The parent of a path that starts with a slash: what stands before the last slash, or the root
if nothing does. -/
def Parent (d p : SlashPath) : Prop :=
  p.head? = some '/' ∧ (d ≠ [] ∧ Child d p ∨ d = ['/'] ∧ Child [] p)

theorem Parent.unique (h : Parent d p) (h' : Parent d' p) : d = d' := by
  obtain ⟨-, ⟨hd, hc⟩ | ⟨rfl, hc⟩⟩ := h <;> obtain ⟨-, ⟨hd', hc'⟩ | ⟨rfl, hc'⟩⟩ := h'
  · exact hc.unique hc'
  · exact absurd (hc.unique hc') hd
  · exact absurd (hc'.unique hc) hd'
  · rfl

/-- A path below `q` has its parent at or below `q`. -/
theorem Parent.atOrUnder (h : Parent d p) (hq : q ≠ []) (hu : Under q p) : AtOrUnder q d := by
  obtain ⟨-, ⟨-, hc⟩ | ⟨-, hc⟩⟩ := h
  · exact .of_child hu hc
  · rcases AtOrUnder.of_child hu hc with h | ⟨rest, h⟩
    · exact absurd h.symm hq
    · exact absurd h (by simp)

/-- What has its parent at or below `q` is below `q`, unless the parent is the root. -/
theorem Parent.under (h : Parent d p) (hd : d ≠ ['/']) (hu : AtOrUnder q d) : Under q p := by
  obtain ⟨-, ⟨-, hc⟩ | ⟨rfl, -⟩⟩ := h
  · exact .trans_child hu hc
  · exact absurd rfl hd

/-! ## Moving a subtree -/

/-- `p`, at or below `old`, after `old` has become `new`. -/
def rebase (old new p : SlashPath) : SlashPath := new ++ p.drop old.length

variable {old new : SlashPath}

theorem rebase_self : rebase old new old = new := by simp [rebase]

theorem rebase_append : rebase old new (old ++ q) = new ++ q := by simp [rebase]

theorem AtOrUnder.exists_append (h : AtOrUnder old p) :
    ∃ s, p = old ++ s ∧ (s = [] ∨ s.head? = some '/') := by
  rcases h with rfl | ⟨rest, rfl⟩
  · exact ⟨[], by simp, .inl rfl⟩
  · exact ⟨'/' :: rest, rfl, .inr rfl⟩

theorem AtOrUnder.rebase (h : AtOrUnder old p) : AtOrUnder new (rebase old new p) := by
  rcases h with rfl | ⟨rest, rfl⟩
  · exact .inl rebase_self
  · exact .inr ⟨rest, rebase_append⟩

theorem rebase_injective (h : AtOrUnder old p) (h' : AtOrUnder old p')
    (he : SlashPath.rebase old new p = SlashPath.rebase old new p') : p = p' := by
  obtain ⟨s, rfl, -⟩ := h.exists_append
  obtain ⟨s', rfl, -⟩ := h'.exists_append
  rw [rebase_append, rebase_append] at he
  rw [append_cancel_left he]

theorem Child.rebase (h : Child d p) (hd : AtOrUnder old d) :
    Child (rebase old new d) (SlashPath.rebase old new p) := by
  obtain ⟨name, hname, rfl⟩ := h
  obtain ⟨s, rfl, -⟩ := hd.exists_append
  exact ⟨name, hname, by rw [append_assoc, rebase_append, rebase_append, append_assoc]⟩

/-! ## Names -/

/-- The names between the slashes of a path that starts with one; the root has none. -/
def names (p : SlashPath) : List SlashPath := if p = ['/'] then [] else p.tail.splitOn '/'

def render (ns : List SlashPath) : SlashPath := if ns = [] then ['/'] else ns.flatMap ('/' :: ·)

theorem cons_intercalate {ns : List SlashPath} (h : ns ≠ []) :
    '/' :: ['/'].intercalate ns = ns.flatMap ('/' :: ·) := by
  induction ns with
  | nil => exact absurd rfl h
  | cons n ns ih =>
    cases ns with
    | nil => simp
    | cons n' ns =>
      rw [intercalate_cons_cons, flatMap_cons, ← ih (by simp)]
      simp

theorem flatMap_splitOn (p : SlashPath) : (p.splitOn '/').flatMap ('/' :: ·) = '/' :: p := by
  rw [← cons_intercalate (splitOn_ne_nil '/' p), intercalate_splitOn]

theorem render_names (h : p.head? = some '/') : render (names p) = p := by
  obtain ⟨rest, rfl⟩ : ∃ rest, p = '/' :: rest := head?_eq_some_iff.mp h
  unfold names render
  by_cases hroot : '/' :: rest = ['/']
  · rw [if_pos hroot, if_pos rfl, hroot]
  · rw [if_neg hroot, if_neg (splitOn_ne_nil _ _)]
    exact flatMap_splitOn rest

theorem names_prefix_iff (hd : d.head? = some '/') (hp : p.head? = some '/') :
    names d <+: names p ↔ d = ['/'] ∨ AtOrUnder d p := by
  by_cases hroot : d = ['/']
  · simp [hroot, names]
  constructor
  · rintro ⟨rest, he⟩
    have hd' : names d ≠ [] := by
      unfold names
      rw [if_neg hroot]
      exact splitOn_ne_nil _ _
    have hp' : p = d ++ rest.flatMap ('/' :: ·) := by
      rw [← render_names hp, ← render_names hd, ← he]
      unfold render
      rw [if_neg (by simp [hd']), if_neg hd', flatMap_append]
    cases rest with
    | nil => exact .inr (.inl (by simpa using hp'))
    | cons n rest => exact .inr (.inr ⟨n ++ rest.flatMap ('/' :: ·), by simpa using hp'⟩)
  · rintro (he | rfl | ⟨rest, rfl⟩)
    · exact absurd he hroot
    · exact prefix_rfl
    · obtain ⟨d, rfl⟩ : ∃ d', d = '/' :: d' := head?_eq_some_iff.mp hd
      refine ⟨rest.splitOn '/', ?_⟩
      unfold names
      rw [if_neg hroot, if_neg (by simp)]
      exact (splitOn_append_cons_self d rest).symm

end SlashPath

end Bunix.Lib
