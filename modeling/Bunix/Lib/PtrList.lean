import Mathlib.Data.List.Basic

/-! # Singly linked lists through their pointers

A list head and the `next` field of every node, as kernel code keeps them. A link is the
place a pointer is stored: the head, or the `next` field of a node. Code walks a link
forward, reads the node behind it and stores through it. `Represents` says which list the
pointers spell out; a pointer structure that has been damaged represents no list, or not
the one its owner believes in.
-/
namespace Bunix.Lib

open List

open Function

structure PtrList (α : Type*) where
  head : Option α
  next : α → Option α

namespace PtrList

variable {α : Type*} [DecidableEq α]

/-- `*link`; the link `none` is the head and `some a` the `next` field of `a`. -/
def read (l : PtrList α) : Option α → Option α
  | none => l.head
  | some a => l.next a

/-- `a->next = v`. -/
def setNext (l : PtrList α) (a : α) (v : Option α) : PtrList α :=
  { l with next := update l.next a v }

/-- `*link = v`. -/
def write (l : PtrList α) (link : Option α) (v : Option α) : PtrList α :=
  match link with
  | none => { l with head := v }
  | some a => l.setNext a v

/-- `while (*link != 0 && p(*link)) link = &(*link)->next`; `none` when the rounds run out. -/
def seek (l : PtrList α) (p : α → Bool) : Nat → Option α → Option (Option α)
  | fuel, link =>
    match l.read link with
    | none => some link
    | some a =>
      if p a then
        match fuel with
        | 0 => none
        | fuel + 1 => seek l p fuel (some a)
      else some link

/-- `a->next = *link; *link = a`. -/
def insertAt (l : PtrList α) (link : Option α) (a : α) : PtrList α :=
  (l.setNext a (l.read link)).write link (some a)

/-- Walk the links and move every node that satisfies `p` to the front of the chain `acc`:

    while (*link != 0) {
      if (!p(a = *link)) { link = &a->next; continue; }
      *link = a->next; a->next = acc; acc = a;
    }

`none` when the rounds run out. -/
def drain (p : α → Bool) : Nat → PtrList α → Option α → Option α → Option (PtrList α × Option α)
  | fuel, l, link, acc =>
    match l.read link with
    | none => some (l, acc)
    | some a =>
      match fuel with
      | 0 => none
      | fuel + 1 =>
        if p a then drain p fuel ((l.write link (l.next a)).setNext a acc) link (some a)
        else drain p fuel l (some a) acc

/-- Following `next` from `h` visits exactly the nodes of the list and then ends. -/
def Chain (next : α → Option α) : Option α → List α → Prop
  | h, [] => h = none
  | h, a :: xs => h = some a ∧ Chain next (next a) xs

def Represents (l : PtrList α) (xs : List α) : Prop := Chain l.next l.head xs

variable {l : PtrList α} {next next' : α → Option α} {h : Option α} {xs ys : List α} {a : α}

omit [DecidableEq α] in
theorem Chain.congr (hc : Chain next h xs) (he : ∀ a ∈ xs, next' a = next a) :
    Chain next' h xs := by
  induction xs generalizing h with
  | nil => exact hc
  | cons a xs ih =>
    obtain ⟨hh, hc⟩ := hc
    refine ⟨hh, ?_⟩
    rw [he a (by simp)]
    exact ih hc fun b hb => he b (by simp [hb])

omit [DecidableEq α] in
theorem Chain.head_eq (hc : Chain next h xs) : h = xs.head? := by
  cases xs with
  | nil => exact hc
  | cons a xs => exact hc.1

omit [DecidableEq α] in
theorem Chain.next_mem (hc : Chain next h xs) (ha : a ∈ xs) {b : α} (hb : next a = some b) : b ∈ xs := by
  induction xs generalizing h with
  | nil => cases ha
  | cons c xs ih =>
    rcases mem_cons.mp ha with rfl | ha
    · have hhead := hc.2.head_eq
      rw [hb] at hhead
      exact mem_cons_of_mem _ (mem_of_mem_head? hhead.symm)
    · exact mem_cons_of_mem _ (ih hc.2 ha)

omit [DecidableEq α] in
theorem Chain.suffix (hc : Chain l.next l.head (xs ++ ys)) :
    Chain l.next (l.read xs.getLast?) ys := by
  suffices ∀ h link, l.read link = h → Chain l.next h (xs ++ ys) →
      Chain l.next (l.read (xs.getLast?.or link)) ys by
    simpa using this l.head none rfl hc
  clear hc
  induction xs with
  | nil => intro h link hr hc; simpa [hr] using hc
  | cons a xs ih =>
    intro h link hr hc
    have hlast : (a :: xs).getLast?.or link = xs.getLast?.or (some a) := by
      cases xs with
      | nil => rfl
      | cons b xs =>
        rw [getLast?_cons_cons]
        cases hz : (b :: xs).getLast? with
        | none => simp at hz
        | some z => rfl
    rw [hlast]
    exact ih (l.next a) (some a) rfl hc.2

omit [DecidableEq α] in
theorem Represents.read_eq (hc : l.Represents (xs ++ ys)) : l.read xs.getLast? = ys.head? :=
  (Chain.suffix hc).head_eq

theorem Represents.write (hc : l.Represents (xs ++ ys)) (hn : xs.Nodup) {v : Option α}
    {zs : List α} (hz : Chain l.next v zs) (hd : ∀ a ∈ xs, a ∉ zs) :
    (l.write xs.getLast? v).Represents (xs ++ zs) := by
  cases hx : xs.getLast? with
  | none =>
    rw [getLast?_eq_none_iff] at hx
    subst hx
    simpa [PtrList.write, Represents] using hz
  | some a =>
    obtain ⟨init, rfl⟩ := getLast?_eq_some_iff.mp hx
    have ha : a ∉ init := by
      intro hm
      have := nodup_append.mp hn
      exact this.2.2 a hm a (by simp) rfl
    have hza : a ∉ zs := hd a (by simp)
    have hzs : Chain (update l.next a v) v zs :=
      hz.congr fun b hb => update_of_ne (fun hb' => hza (by rwa [← hb'])) _ _
    have key : ∀ h init, a ∉ init → Chain l.next h (init ++ [a] ++ ys) →
        Chain (update l.next a v) h (init ++ [a] ++ zs) := by
      intro h init hi hc
      induction init generalizing h with
      | nil => exact ⟨hc.1, by simpa using hzs⟩
      | cons b init ih =>
        have hb : b ≠ a := fun hb => hi (by simp [hb])
        refine ⟨hc.1, ?_⟩
        rw [update_of_ne hb]
        exact ih _ (fun hm => hi (by simp [hm])) hc.2
    simpa [PtrList.write, setNext, Represents] using key l.head init ha hc

theorem Represents.insertAt (hc : l.Represents (xs ++ ys)) (hn : (xs ++ ys).Nodup)
    (ha : a ∉ xs ++ ys) : (l.insertAt xs.getLast? a).Represents (xs ++ a :: ys) := by
  have hxs : a ∉ xs := fun hm => ha (by simp [hm])
  have hne : ∀ b, b ∈ xs ++ ys → b ≠ a := fun b hb he => ha (he ▸ hb)
  have hc' : (l.setNext a (l.read xs.getLast?)).Represents (xs ++ ys) :=
    Chain.congr hc fun b hb => update_of_ne (hne b hb) _ _
  refine hc'.write (nodup_append.mp hn).1 ?_ ?_
  · refine ⟨rfl, ?_⟩
    have : (l.setNext a (l.read xs.getLast?)).next a = l.read xs.getLast? := by simp [setNext]
    rw [this]
    exact (Chain.suffix hc).congr fun b hb =>
      update_of_ne (hne b (by simp [hb])) _ _
  · intro b hb hm
    rcases mem_cons.mp hm with rfl | hm
    · exact hxs hb
    · exact (nodup_append.mp hn).2.2 b hb b hm rfl

theorem Represents.unlink (hc : l.Represents (xs ++ a :: ys)) (hn : (xs ++ a :: ys).Nodup) :
    (l.write xs.getLast? (l.next a)).Represents (xs ++ ys) := by
  have hn' := nodup_append.mp hn
  refine hc.write hn'.1 (Chain.suffix hc).2 fun b hb hm => ?_
  exact hn'.2.2 b hb b (by simp [hm]) rfl

omit [DecidableEq α] in
/-- From any link of a represented list the walk stops behind the longest prefix that satisfies `p`. -/
theorem Represents.seek_from (p : α → Bool) {fuel : Nat} (hc : l.Represents (xs ++ ys))
    (hf : ys.length ≤ fuel) : ∃ ys₁ ys₂, ys = ys₁ ++ ys₂ ∧ (∀ a ∈ ys₁, p a = true) ∧
      (∀ a, ys₂.head? = some a → p a = false) ∧
      l.seek p fuel xs.getLast? = some (xs ++ ys₁).getLast? := by
  induction ys generalizing xs fuel with
  | nil =>
    have hr := hc.read_eq
    refine ⟨[], [], rfl, by simp, by simp, ?_⟩
    unfold PtrList.seek
    rw [hr]
    simp
  | cons a ys ih =>
    have hr := hc.read_eq
    unfold PtrList.seek
    rw [hr]
    simp only [head?_cons]
    cases hp : p a with
    | true =>
      cases fuel with
      | zero => simp at hf
      | succ fuel =>
        have hc' : l.Represents ((xs ++ [a]) ++ ys) := by simpa using hc
        obtain ⟨ys₁, ys₂, rfl, h₁, h₂, hs⟩ := ih hc' (by simpa using hf)
        refine ⟨a :: ys₁, ys₂, by simp, ?_, h₂, ?_⟩
        · simpa [hp] using h₁
        · simpa using hs
    | false => exact ⟨[], a :: ys, rfl, by simp, by simpa using hp, by simp⟩

omit [DecidableEq α] in
theorem Represents.seek (p : α → Bool) {fuel : Nat} (hc : l.Represents ys)
    (hf : ys.length ≤ fuel) : ∃ ys₁ ys₂, ys = ys₁ ++ ys₂ ∧ (∀ a ∈ ys₁, p a = true) ∧
      (∀ a, ys₂.head? = some a → p a = false) ∧ l.seek p fuel none = some ys₁.getLast? := by
  have hc' : l.Represents ([] ++ ys) := hc
  exact hc'.seek_from p hf

theorem setNext_next_of_ne {b : α} {v : Option α} (h : b ≠ a) : (l.setNext a v).next b = l.next b :=
  update_of_ne h _ _

theorem write_next_of_ne {link v : Option α} (h : link ≠ some a) :
    (l.write link v).next a = l.next a := by
  cases link with
  | none => rfl
  | some b => exact update_of_ne (fun he => h (congrArg some he.symm)) _ _

/-- Moving the node behind a prefix from the list to the front of the chain `acc`. -/
theorem Represents.move {acc : Option α} {zs : List α} (hc : l.Represents (xs ++ a :: ys))
    (hz : Chain l.next acc zs) (hn : (xs ++ a :: ys ++ zs).Nodup) :
    ((l.write xs.getLast? (l.next a)).setNext a acc).Represents (xs ++ ys) ∧
      Chain ((l.write xs.getLast? (l.next a)).setNext a acc).next (some a) (a :: zs) := by
  obtain ⟨hn₁, hnz, hd⟩ := nodup_append.mp hn
  have ha : a ∉ xs ++ ys := by
    have hp : (a :: (xs ++ ys)).Nodup := (perm_middle.nodup_iff).mp hn₁
    exact (nodup_cons.mp hp).1
  have hne : ∀ b ∈ zs, b ≠ a := fun b hb he => hd a (by simp) b hb he.symm
  have hlink : ∀ b ∈ zs, xs.getLast? ≠ some b := by
    intro b hb hl
    exact hd b (by simp [mem_of_mem_getLast? (by simpa using hl)]) b hb rfl
  refine ⟨?_, rfl, ?_⟩
  · refine Chain.congr (hc.unlink hn₁) fun b hb => setNext_next_of_ne ?_
    intro he
    exact ha (he ▸ hb)
  · have hnext : ((l.write xs.getLast? (l.next a)).setNext a acc).next a = acc := by simp [setNext]
    rw [hnext]
    refine hz.congr fun b hb => ?_
    rw [setNext_next_of_ne (hne b hb), write_next_of_ne (hlink b hb)]

/-- Draining splits a list: what satisfies `p` ends up on the chain, the rest stays. -/
theorem Represents.drain_from (p : α → Bool) {fuel : Nat} {acc : Option α} {zs : List α}
    (hc : l.Represents (xs ++ ys)) (hz : Chain l.next acc zs) (hn : (xs ++ ys ++ zs).Nodup)
    (hf : ys.length ≤ fuel) : ∃ l' acc', PtrList.drain p fuel l xs.getLast? acc = some (l', acc') ∧
      l'.Represents (xs ++ ys.filter fun a => !p a) ∧
      Chain l'.next acc' ((ys.filter p).reverse ++ zs) := by
  induction ys generalizing xs zs l acc fuel with
  | nil =>
    refine ⟨l, acc, ?_, by simpa using hc, by simpa using hz⟩
    unfold PtrList.drain
    rw [hc.read_eq]
    rfl
  | cons a ys ih =>
    unfold PtrList.drain
    rw [hc.read_eq]
    cases fuel with
    | zero => simp at hf
    | succ fuel =>
      have hf' : ys.length ≤ fuel := by simpa using hf
      simp only [head?_cons]
      cases hp : p a with
      | true =>
        obtain ⟨hc', hz'⟩ := hc.move hz hn
        have hn' : (xs ++ ys ++ a :: zs).Nodup := by
          refine (Perm.nodup_iff ?_).mp hn
          simpa using Perm.append_left xs perm_middle.symm
        obtain ⟨l', acc', he, hr, hch⟩ := ih hc' hz' hn' hf'
        refine ⟨l', acc', by simpa using he, ?_, ?_⟩
        · simpa [hp] using hr
        · simpa [hp] using hch
      | false =>
        have hc' : l.Represents ((xs ++ [a]) ++ ys) := by simpa using hc
        obtain ⟨l', acc', he, hr, hch⟩ := ih hc' hz (by simpa using hn) hf'
        refine ⟨l', acc', by simpa using he, ?_, ?_⟩
        · simpa [hp] using hr
        · simpa [hp] using hch

theorem Represents.drain (p : α → Bool) {fuel : Nat} (hc : l.Represents ys) (hn : ys.Nodup)
    (hf : ys.length ≤ fuel) : ∃ l' acc', PtrList.drain p fuel l none none = some (l', acc') ∧
      l'.Represents (ys.filter fun a => !p a) ∧ Chain l'.next acc' (ys.filter p).reverse := by
  have hc' : l.Represents ([] ++ ys) := hc
  have hz : Chain l.next none [] := rfl
  simpa using hc'.drain_from p hz (by simpa using hn) hf

end PtrList

/-- A list with a pointer to its last node as well, to put nodes at its end. -/
structure LinkedQueue (α : Type*) extends PtrList α where
  tail : Option α

namespace LinkedQueue

variable {α : Type*} [DecidableEq α] {q : LinkedQueue α} {xs kept rest : List α} {a : α}

/-- Walk on from `node`, which comes after `prev`, and unlink the nodes that satisfy `p`; `none` when
the rounds run out. -/
def removeIf (p : α → Bool) : Nat → LinkedQueue α → Option α → Option α → Option (LinkedQueue α)
  | _, q, _, none => some q
  | 0, _, _, some _ => none
  | fuel + 1, q, prev, some node =>
    if p node then
      removeIf p fuel ⟨q.write prev (q.next node), if q.tail = some node then prev else q.tail⟩ prev
        (q.next node)
    else removeIf p fuel q (some node) (q.next node)

/-- `a->next = 0`, and `a` becomes the last node. -/
def append (q : LinkedQueue α) (a : α) : LinkedQueue α :=
  ⟨(q.setNext a none).write q.tail (some a), some a⟩

/-- Head, links and tail spell out the list. -/
structure Holds (q : LinkedQueue α) (xs : List α) : Prop where
  represents : q.toPtrList.Represents xs
  nodup : xs.Nodup
  tail : q.tail = xs.getLast?

theorem Holds.append (h : q.Holds xs) (ha : a ∉ xs) : (q.append a).Holds (xs ++ [a]) := by
  have hc : q.toPtrList.Represents (xs ++ []) := by simpa using h.represents
  have hinsert := hc.insertAt (by simpa using h.nodup) (by simpa using ha)
  rw [PtrList.insertAt, hc.read_eq, ← h.tail] at hinsert
  refine ⟨hinsert, ?_, by simp [LinkedQueue.append]⟩
  simpa [nodup_append] using ⟨h.nodup, fun b hb he => ha (he ▸ hb)⟩

theorem Holds.unlink (h : q.Holds (kept ++ a :: rest)) :
    Holds ⟨q.write kept.getLast? (q.next a), if q.tail = some a then kept.getLast? else q.tail⟩
      (kept ++ rest) := by
  refine ⟨h.represents.unlink h.nodup, h.nodup.sublist (by simp), ?_⟩
  simp only [h.tail]
  cases rest with
  | nil => simp
  | cons b rest =>
    have hlast : (kept ++ a :: b :: rest).getLast? ≠ some a := by
      intro hlast
      have hmem : a ∈ b :: rest := mem_of_mem_getLast? (by simpa using hlast)
      exact (nodup_cons.1 (nodup_append.1 h.nodup).2.1).1 hmem
    rw [if_neg hlast]
    simp

theorem removeIf_spec (p : α → Bool) {fuel : Nat} (h : q.Holds (kept ++ rest)) (hf : rest.length ≤ fuel) :
    ∃ q', removeIf p fuel q kept.getLast? rest.head? = some q' ∧
      q'.Holds (kept ++ rest.filter (!p ·)) := by
  induction rest generalizing q kept fuel with
  | nil => exact ⟨q, by cases fuel <;> rfl, by simpa using h⟩
  | cons a rest ih =>
    cases fuel with
    | zero => simp at hf
    | succ fuel =>
      have hf : rest.length ≤ fuel := by simpa using hf
      have hnext : q.next a = rest.head? := (PtrList.Chain.suffix h.represents).2.head_eq
      simp only [head?_cons, removeIf, hnext]
      cases hp : p a with
      | true => simpa [hp, hnext] using ih h.unlink hf
      | false =>
        have h : q.Holds ((kept ++ [a]) ++ rest) := by simpa using h
        simpa [hp] using ih h hf

end LinkedQueue

end Bunix.Lib
