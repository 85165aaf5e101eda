import Mathlib.Data.List.Basic

/-!
This module contains lists whose elements come in the order of their keys: such a list is its groups of equal
keys, one after another.
-/

namespace Grouped

variable {α : Type}

theorem filter_append_filter_not {p : α → Bool} {xs : List α} (h : xs.Pairwise (fun x y => p y → p x)) :
    xs.filter p ++ xs.filter (fun x => ¬p x) = xs := by
  induction xs with
  | nil => rfl
  | cons x xs ih =>
    rw [List.pairwise_cons] at h
    have ih := ih h.2
    by_cases hx : p x
    . rw [List.filter_cons_of_pos hx, List.filter_cons_of_neg (by simpa using hx), List.cons_append, ih]
    . have hnil : xs.filter p = [] := by
        apply List.filter_eq_nil_iff.mpr
        exact fun y hy hp => hx (h.1 y hy hp)
      rw [hnil, List.nil_append] at ih
      rw [List.filter_cons_of_neg hx, List.filter_cons_of_pos (by simpa using hx), hnil, ih,
        List.nil_append]

theorem flatMap_groups {key : α → Nat} {keys : List Nat} {xs : List α}
    (hkeys : keys.Pairwise (fun k k' => k < k')) (hxs : xs.Pairwise (fun x y => key x ≤ key y))
    (hmem : ∀ x ∈ xs, key x ∈ keys) :
    keys.flatMap (fun k => xs.filter (fun x => key x = k)) = xs := by
  induction keys generalizing xs with
  | nil =>
    have hnil : xs = [] := List.eq_nil_iff_forall_not_mem.mpr fun x hx => by simpa using hmem x hx
    rw [hnil]
    rfl
  | cons k keys ih =>
    rw [List.pairwise_cons] at hkeys
    -- The smallest key comes first, and the rest has the other keys.
    have hfirst : xs.Pairwise (fun x y => decide (key y = k) → decide (key x = k)) := by
      refine hxs.imp_of_mem ?_
      intro x y hx hy hle hyk
      have hyk := of_decide_eq_true hyk
      rcases List.mem_cons.mp (hmem x hx) with hxk | hxk
      . exact decide_eq_true hxk
      . have hlt := hkeys.1 _ hxk
        omega
    have hsplit := filter_append_filter_not hfirst
    have hrest := ih hkeys.2 (hxs.filter (fun x => ¬decide (key x = k))) (by
      intro x hx
      rcases List.mem_filter.mp hx with ⟨hx, hne⟩
      exact (List.mem_cons.mp (hmem x hx)).resolve_left (by simpa using hne))
    have hgroups : keys.flatMap (fun k' => (xs.filter (fun x => ¬decide (key x = k))).filter
          (fun x => key x = k'))
        = keys.flatMap (fun k' => xs.filter (fun x => key x = k')) := by
      apply List.flatMap_congr
      intro k' hk'
      rw [List.filter_filter]
      apply List.filter_congr
      intro x _
      have hlt := hkeys.1 k' hk'
      by_cases hx : key x = k' <;> simp [hx]
      omega
    rw [List.flatMap_cons, ← hgroups, hrest]
    exact hsplit

theorem flatMap_isPrefix {κ : Type} {f g : κ → List α} {keys : List κ} (hfg : ∀ k ∈ keys, f k <+: g k)
    (hcut : keys.Pairwise (fun k k' => f k = g k ∨ f k' = [])) : keys.flatMap f <+: keys.flatMap g := by
  induction keys with
  | nil => exact List.prefix_rfl
  | cons k keys ih =>
    rw [List.pairwise_cons] at hcut
    rw [List.flatMap_cons, List.flatMap_cons]
    by_cases hk : f k = g k
    . rw [hk]
      exact (List.prefix_append_right_inj _).mpr
        (ih (fun k' hk' => hfg k' (List.mem_cons_of_mem _ hk')) hcut.2)
    . have hnil : keys.flatMap f = [] := by
        apply List.flatMap_eq_nil_iff.mpr
        exact fun k' hk' => (hcut.1 k' hk').resolve_left hk
      rw [hnil, List.append_nil]
      exact (hfg k List.mem_cons_self).trans (List.prefix_append _ _)

end Grouped
