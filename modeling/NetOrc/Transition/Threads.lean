import Mathlib.Algebra.BigOperators.Group.Finset.Basic
import Mathlib.Algebra.BigOperators.Group.Finset.Piecewise
import Mathlib.Algebra.Order.BigOperators.Group.Finset
import Mathlib.Data.Fintype.Card

/-!
This module counts threads by their program counter, where a step changes the counter of one thread.
-/

namespace Transition

variable {ι P : Type} [Fintype ι]

def threads (p : P → Bool) (pcs : ι → P) : Nat := (Finset.univ.filter (fun i => p (pcs i))).card

variable {p : P → Bool}

theorem threads_update [DecidableEq ι] (pcs : ι → P) (i : ι) (pc : P) :
    threads p (Function.update pcs i pc) + (p (pcs i)).toNat = threads p pcs + (p pc).toNat := by
  have hcard : ∀ pcs : ι → P, threads p pcs
      = (p (pcs i)).toNat + ∑ j ∈ Finset.univ.erase i, (p (pcs j)).toNat := by
    intro pcs
    rw [threads, Finset.card_filter, Finset.add_sum_erase _ (fun j => (p (pcs j)).toNat)
      (Finset.mem_univ i)]
    apply Finset.sum_congr rfl
    intro j _
    cases p (pcs j) <;> rfl
  have hothers : ∑ j ∈ Finset.univ.erase i, (p (Function.update pcs i pc j)).toNat
      = ∑ j ∈ Finset.univ.erase i, (p (pcs j)).toNat := by
    apply Finset.sum_congr rfl
    intro j hj
    rw [Function.update_of_ne (Finset.ne_of_mem_erase hj)]
  rw [hcard pcs, hcard (Function.update pcs i pc), hothers, Function.update_self]
  omega

theorem threads_update_of_eq [DecidableEq ι] {pcs : ι → P} {i : ι} {pc : P} (h : p pc = p (pcs i)) :
    threads p (Function.update pcs i pc) = threads p pcs := by
  have hupdate := threads_update (p := p) pcs i pc
  rw [h] at hupdate
  omega

theorem threads_pos (pcs : ι → P) (i : ι) (h : p (pcs i)) : 0 < threads p pcs :=
  Finset.card_pos.mpr ⟨i, by simp [h]⟩

theorem exists_of_threads_pos {pcs : ι → P} (h : 0 < threads p pcs) : ∃ i, p (pcs i) := by
  rcases Finset.card_pos.mp h with ⟨i, hi⟩
  exact ⟨i, (Finset.mem_filter.mp hi).2⟩

theorem eq_of_threads_le_one (pcs : ι → P) (h : threads p pcs ≤ 1) {i j : ι} (hi : p (pcs i))
    (hj : p (pcs j)) : i = j :=
  Finset.card_le_one.mp h i (by simp [hi]) j (by simp [hj])

theorem exists_not_of_threads_lt {pcs : ι → P} (h : threads p pcs < Fintype.card ι) :
    ∃ i, ¬p (pcs i) := by
  by_contra hall
  push Not at hall
  have hcard : threads p pcs = Fintype.card ι := by
    rw [threads, Finset.filter_true_of_mem (fun i _ => hall i), Finset.card_univ]
  omega

def weights (w : P → Nat) (pcs : ι → P) : Nat := ∑ i, w (pcs i)

theorem weights_update [DecidableEq ι] (w : P → Nat) (pcs : ι → P) (i : ι) (pc : P) :
    weights w (Function.update pcs i pc) + w (pcs i) = weights w pcs + w pc := by
  have hsum : ∀ pcs : ι → P, weights w pcs = w (pcs i) + ∑ j ∈ Finset.univ.erase i, w (pcs j) :=
    fun pcs => (Finset.add_sum_erase _ (fun j => w (pcs j)) (Finset.mem_univ i)).symm
  have hothers : ∑ j ∈ Finset.univ.erase i, w (Function.update pcs i pc j)
      = ∑ j ∈ Finset.univ.erase i, w (pcs j) := by
    apply Finset.sum_congr rfl
    intro j hj
    rw [Function.update_of_ne (Finset.ne_of_mem_erase hj)]
  rw [hsum pcs, hsum (Function.update pcs i pc), hothers, Function.update_self]
  omega

theorem weights_le {w : P → Nat} {k : Nat} (h : ∀ pc, w pc ≤ k) (pcs : ι → P) :
    weights w pcs ≤ k * Fintype.card ι := by
  have hle := Finset.sum_le_card_nsmul Finset.univ (fun i => w (pcs i)) k (fun i _ => h (pcs i))
  rwa [Finset.card_univ, Nat.nsmul_eq_mul, Nat.mul_comm] at hle

theorem countP_set {pcs : List P} {a : Nat} {pc : P} (h : pcs[a]? = some pc) (pc' : P) :
    (pcs.set a pc').countP p + (p pc).toNat = pcs.countP p + (p pc').toNat := by
  induction pcs generalizing a with
  | nil => simp at h
  | cons x pcs ih =>
    cases a with
    | zero =>
      rw [List.getElem?_cons_zero, Option.some.injEq] at h
      subst h
      rw [List.set_cons_zero, List.countP_cons, List.countP_cons]
      cases p x <;> cases p pc' <;> simp
    | succ a =>
      rw [List.getElem?_cons_succ] at h
      rw [List.set_cons_succ, List.countP_cons, List.countP_cons]
      have ih := ih h
      omega

end Transition
