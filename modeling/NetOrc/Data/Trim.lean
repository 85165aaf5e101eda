import Mathlib.Data.List.DropRight
import Mathlib.Data.List.TakeWhile

/-!
This module contains lemmas on the longest part of a list that satisfies a predicate, and lists without
such a part at their ends.
-/

namespace Trim

variable {α : Type} {p : α → Bool}

theorem takeWhile_append_of_head {xs ys : List α} (hxs : ∀ a ∈ xs, p a) (hys : ∀ a ∈ ys.head?, ¬p a) :
    (xs ++ ys).takeWhile p = xs := by
  rw [List.takeWhile_append_of_pos hxs]
  cases ys with
  | nil => simp
  | cons y ys => rw [List.takeWhile_cons_of_neg (hys y rfl), List.append_nil]

theorem dropWhile_append_of_head {xs ys : List α} (hxs : ∀ a ∈ xs, p a) (hys : ∀ a ∈ ys.head?, ¬p a) :
    (xs ++ ys).dropWhile p = ys := by
  rw [List.dropWhile_append_of_pos hxs]
  cases ys with
  | nil => rfl
  | cons y ys => exact List.dropWhile_cons_of_neg (hys y rfl)

theorem rdropWhile_append_of_last {xs ys : List α} (hys : ∀ a ∈ ys, p a)
    (hxs : ∀ a ∈ xs.getLast?, ¬p a) : (xs ++ ys).rdropWhile p = xs := by
  rw [List.rdropWhile, List.reverse_append, dropWhile_append_of_head (by simpa using hys),
    List.reverse_reverse]
  rwa [List.head?_reverse]

structure Trimmed (p : α → Bool) (xs : List α) : Prop where
  head : ∀ a ∈ xs.head?, ¬p a
  last : ∀ a ∈ xs.getLast?, ¬p a

theorem trimmed_iff (xs : List α) :
    Trimmed p xs ↔ xs.head?.all (fun a => !p a) ∧ xs.getLast?.all (fun a => !p a) := by
  rw [Option.all_eq_true, Option.all_eq_true]
  constructor
  . intro h
    exact ⟨fun a ha => by simpa using h.head a ha, fun a ha => by simpa using h.last a ha⟩
  . rintro ⟨hhead, hlast⟩
    exact ⟨fun a ha => by simpa using hhead a ha, fun a ha => by simpa using hlast a ha⟩

instance instDecidableTrimmed (xs : List α) : Decidable (Trimmed p xs) :=
  decidable_of_iff _ (trimmed_iff xs).symm

def trim (p : α → Bool) (xs : List α) : List α := (xs.dropWhile p).rdropWhile p

theorem trim_of_all {xs : List α} (h : ∀ a ∈ xs, p a) : trim p xs = [] := by
  have hdrop : xs.dropWhile p = [] := List.dropWhile_eq_nil_iff.mpr h
  rw [trim, hdrop, List.rdropWhile_nil]

theorem trim_append {front back : List α} {xs : List α} (hfront : ∀ a ∈ front, p a)
    (hxs : Trimmed p xs) (hback : ∀ a ∈ back, p a) : trim p (front ++ (xs ++ back)) = xs := by
  cases xs with
  | nil =>
    apply trim_of_all
    intro a ha
    rcases List.mem_append.mp ha with ha | ha
    . exact hfront a ha
    . exact hback a ha
  | cons x xs =>
    rw [trim, dropWhile_append_of_head hfront, rdropWhile_append_of_last hback hxs.last]
    exact hxs.head

theorem rdropWhile_cons_of_neg {a : α} (ha : ¬p a) (xs : List α) :
    (a :: xs).rdropWhile p = a :: xs.rdropWhile p := by
  induction xs using List.reverseRecOn with
  | nil => simp [List.rdropWhile, ha]
  | append_singleton xs x ih =>
    rw [← List.cons_append, List.rdropWhile_concat, List.rdropWhile_concat, ih]
    split
    . rfl
    . rfl

theorem trim_append_cons {front : List α} {a : α} (hfront : ∀ a ∈ front, p a) (ha : ¬p a)
    (rest : List α) : trim p (front ++ a :: rest) = a :: rest.rdropWhile p := by
  rw [trim, dropWhile_append_of_head hfront (by simpa using ha), rdropWhile_cons_of_neg ha]

theorem mem_of_mem_trim {xs : List α} {a : α} (h : a ∈ trim p xs) : a ∈ xs :=
  (List.dropWhile_suffix p).subset ((List.rdropWhile_prefix p _).subset h)

end Trim
