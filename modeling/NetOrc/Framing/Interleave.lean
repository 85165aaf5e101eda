import Mathlib.Data.List.Basic
import Mathlib.Logic.Function.Basic

/-!
This module contains two writers that take turns on one stream, and shows when the stream is what one
writer wrote followed by what the other wrote.
-/

namespace Framing

variable {β : Type}

abbrev Turn := Bool × Nat

def weave (turns : List Turn) (rest : Bool → List β) : List β :=
  match turns with
  | [] => []
  | (t, n) :: turns =>
    (rest t).take n ++ weave turns (Function.update rest t ((rest t).drop n))

def total (t : Bool) (turns : List Turn) : Nat :=
  match turns with
  | [] => 0
  | (u, n) :: turns => (if u = t then n else 0) + total t turns

structure Completes (turns : List Turn) (size : Bool → Nat) : Prop where
  pos : ∀ turn ∈ turns, 0 < turn.2
  total : ∀ t, total t turns = size t

def Serial (turns : List Turn) : Prop :=
  ∃ t, turns.Pairwise (fun turn later => turn.1 ≠ t → later.1 ≠ t)

theorem total_eq_zero_iff {t : Bool} {turns : List Turn} (hpos : ∀ turn ∈ turns, 0 < turn.2) :
    total t turns = 0 ↔ ∀ turn ∈ turns, turn.1 ≠ t := by
  induction turns with
  | nil => simp [total]
  | cons turn turns ih =>
    have hn := hpos turn (by simp)
    have ih := ih (fun turn hturn => hpos turn (by simp [hturn]))
    rw [total, Nat.add_eq_zero_iff, ih, List.forall_mem_cons]
    apply and_congr_left
    intro _
    split
    . next ht => simp [ht]; omega
    . next ht => simp [ht]

theorem Completes.tail {t : Bool} {n : Nat} {turns : List Turn} {rest : Bool → List β}
    (h : Completes ((t, n) :: turns) (fun u => (rest u).length)) :
    Completes turns (fun u => (Function.update rest t ((rest t).drop n) u).length) where
  pos := fun turn hturn => h.pos turn (by simp [hturn])
  total := by
    intro u
    have htotal := h.total u
    rw [Framing.total] at htotal
    by_cases hu : t = u
    . subst hu
      rw [if_pos rfl] at htotal
      rw [Function.update_self, List.length_drop]
      omega
    . rw [if_neg hu] at htotal
      rw [Function.update_of_ne (Ne.symm hu)]
      omega

theorem weave_of_first {t : Bool} {turns : List Turn} {rest : Bool → List β}
    (hcomplete : Completes turns (fun u => (rest u).length))
    (hserial : turns.Pairwise (fun turn later => turn.1 ≠ t → later.1 ≠ t)) :
    weave turns rest = rest t ++ rest (!t) := by
  induction turns generalizing rest with
  | nil =>
    have hnil : ∀ u, rest u = [] := fun u => List.length_eq_zero_iff.mp (hcomplete.total u).symm
    simp [weave, hnil]
  | cons turn turns ih =>
    rcases turn with ⟨u, n⟩
    rw [List.pairwise_cons] at hserial
    rw [weave, ih hcomplete.tail hserial.2]
    by_cases hu : u = t
    . subst hu
      rw [Function.update_self, Function.update_of_ne (by simp), ← List.append_assoc,
        List.take_append_drop]
    . -- The other writer has begun, so `t` has nothing left.
      have hother : u = !t := Bool.eq_not.mpr hu
      have hzero := (total_eq_zero_iff hcomplete.tail.pos).mpr fun turn hturn =>
        hserial.1 turn hturn hu
      have hdone : rest t = [] := by
        have htotal := hcomplete.total t
        rw [total, if_neg hu, hzero] at htotal
        exact List.length_eq_zero_iff.mp htotal.symm
      subst hother
      rw [Function.update_of_ne (by simp), Function.update_self, hdone, List.nil_append,
        List.nil_append, List.take_append_drop]

theorem sublist_weave {turns : List Turn} {rest : Bool → List β}
    (hcomplete : Completes turns (fun u => (rest u).length)) (t : Bool) :
    (rest t).Sublist (weave turns rest) := by
  induction turns generalizing rest with
  | nil =>
    have hnil : rest t = [] := List.length_eq_zero_iff.mp (hcomplete.total t).symm
    rw [hnil]
    exact List.nil_sublist _
  | cons turn turns ih =>
    rcases turn with ⟨u, n⟩
    have ih := ih hcomplete.tail
    rw [weave]
    by_cases hu : u = t
    . subst hu
      rw [Function.update_self] at ih
      have happend := (List.Sublist.refl ((rest u).take n)).append ih
      rwa [List.take_append_drop] at happend
    . rw [Function.update_of_ne (Ne.symm hu)] at ih
      exact ih.trans (List.sublist_append_right _ _)

theorem mem_of_weave_overtaken {t : Bool} {front w : List β} {rest : Bool → List β} {x : β}
    (hfront : front ≠ []) (hsub : (rest t).Sublist w) (hx : (rest t).getLast? = some x)
    (h : front ++ w = rest t ++ rest (!t)) : x ∈ rest (!t) := by
  rcases List.append_eq_append_iff.mp h with ⟨w', hrest, hw⟩ | ⟨front', _, hother⟩
  . rw [hw, List.sublist_append_iff] at hsub
    rcases hsub with ⟨l₁, l₂, hsplit, hl₁, hl₂⟩
    have hlength : l₁.length < (rest t).length := by
      have hpos := List.length_pos_iff.mpr hfront
      have hle := hl₁.length_le
      rw [hrest, List.length_append]
      omega
    have hne : l₂ ≠ [] := by
      rintro rfl
      rw [hsplit, List.append_nil] at hlength
      omega
    rw [hsplit, List.getLast?_append_of_ne_nil _ hne] at hx
    exact hl₂.subset (List.mem_of_getLast? hx)
  . rw [hother]
    exact List.mem_append_right _ (hsub.subset (List.mem_of_getLast? hx))

theorem first_of_weave {t : Bool} {turns : List Turn} {rest : Bool → List β}
    (hcomplete : Completes turns (fun u => (rest u).length))
    (hlast : ∀ x, (rest t).getLast? = some x → x ∉ rest (!t))
    (h : weave turns rest = rest t ++ rest (!t)) :
    turns.Pairwise (fun turn later => turn.1 ≠ t → later.1 ≠ t) := by
  induction turns generalizing rest with
  | nil => exact .nil
  | cons turn turns ih =>
    rcases turn with ⟨u, n⟩
    rw [weave] at h
    by_cases hu : u = t
    . subst hu
      refine List.pairwise_cons.mpr ⟨fun _ _ hne => absurd rfl hne, ih hcomplete.tail ?_ ?_⟩
      . rw [Function.update_self, Function.update_of_ne (by simp)]
        intro x hx
        rw [List.getLast?_drop] at hx
        split at hx
        . contradiction
        . exact hlast x hx
      . rw [Function.update_self, Function.update_of_ne (by simp)]
        rw [← List.append_right_inj ((rest u).take n), h, ← List.append_assoc, List.take_append_drop]
    . have hother : u = !t := Bool.eq_not.mpr hu
      cases hx : (rest t).getLast? with
      | none =>
        -- `t` takes no turn at all.
        have hzero : total t ((u, n) :: turns) = 0 := by
          rw [hcomplete.total, List.getLast?_eq_none_iff.mp hx, List.length_nil]
        have hnone := (total_eq_zero_iff hcomplete.pos).mp hzero
        exact List.pairwise_of_forall_mem_list fun _ _ later hlater _ => hnone later hlater
      | some x =>
        have hfront : (rest u).take n ≠ [] := by
          have hn := hcomplete.pos (u, n) (by simp)
          have htotal := hcomplete.total u
          rw [total, if_pos rfl] at htotal
          rw [ne_eq, List.take_eq_nil_iff, ← List.length_eq_zero_iff]
          omega
        have hsub := sublist_weave hcomplete.tail t
        rw [Function.update_of_ne (Ne.symm hu)] at hsub
        exact absurd (mem_of_weave_overtaken hfront hsub hx h) (hlast x hx)

/--
For writers whose last items tell them apart, the stream is one writer's items followed by the other's
exactly if their turns do not alternate.
-/
theorem weave_eq_append_iff {turns : List Turn} {rest : Bool → List β}
    (hcomplete : Completes turns (fun u => (rest u).length))
    (hlast : ∀ t x, (rest t).getLast? = some x → x ∉ rest (!t)) :
    (∃ t, weave turns rest = rest t ++ rest (!t)) ↔ Serial turns := by
  constructor
  . rintro ⟨t, h⟩
    exact ⟨t, first_of_weave hcomplete (hlast t) h⟩
  . rintro ⟨t, hserial⟩
    exact ⟨t, weave_of_first hcomplete hserial⟩

end Framing
