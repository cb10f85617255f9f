import Bunix.Lib.SerialNumber

/-! # Ring buffers

A queue in an array that is used round and round.
-/
namespace Bunix.Lib

open List

variable {α : Type*} {cap n : Nat} {xs : List α}

structure RingBuffer (α : Type*) where
  data : Nat → α
  start : Nat := 0
  len : Nat := 0

namespace RingBuffer

variable {r : RingBuffer α}

def front (cap : Nat) (r : RingBuffer α) (n : Nat) : List α := slice (fun i => r.data (i % cap)) r.start n

def contents (cap : Nat) (r : RingBuffer α) : List α := r.front cap r.len

def pop (cap : Nat) (r : RingBuffer α) (n : Nat) : RingBuffer α :=
  { r with start := (r.start + n) % cap, len := r.len - n }

def push (cap : Nat) : RingBuffer α → List α → RingBuffer α
  | r, [] => r
  | r, x :: xs =>
    push cap { r with data := Function.update r.data ((r.start + r.len) % cap) x, len := r.len + 1 } xs

theorem contents_pop (cap : Nat) (h : n ≤ r.len) :
    r.contents cap = r.front cap n ++ (r.pop cap n).contents cap := by
  have hmod : (r.pop cap n).contents cap = slice (fun i => r.data (i % cap)) (r.start + n) (r.len - n) := by
    simp only [contents, front, pop, slice, range'_eq_map_range, map_map]
    refine map_congr_left fun i _ => ?_
    simp [Nat.mod_add_mod]
  rw [hmod, front, slice_append, Nat.add_sub_cancel' h]
  rfl

theorem push_len : (r.push cap xs).len = r.len + xs.length := by
  induction xs generalizing r with
  | nil => rfl
  | cons x xs ih =>
    rw [push, ih, length_cons]
    dsimp only
    omega

theorem contents_push (h : r.len + xs.length ≤ cap) :
    (r.push cap xs).contents cap = r.contents cap ++ xs := by
  induction xs generalizing r with
  | nil => simp [push]
  | cons x xs ih =>
    rw [length_cons] at h
    rw [push, ih (by dsimp only; omega), append_cons]
    congr 1
    simp only [contents, front, slice, range'_concat, map_append]
    congr 1
    · refine map_congr_left fun i hi => Function.update_of_ne (fun he => ?_) ..
      obtain ⟨hlo, hhi⟩ := mem_range'_1.mp hi
      have hdvd : cap ∣ r.start + r.len - i := (Nat.modEq_iff_dvd' (by omega)).mp he
      have hle := Nat.le_of_dvd (by omega) hdvd
      omega
    · simp

end RingBuffer

end Bunix.Lib
