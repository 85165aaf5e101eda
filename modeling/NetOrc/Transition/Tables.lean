import Mathlib.Algebra.GroupWithZero.Nat
import Mathlib.Data.List.AList

/-!
This module counts the entries of a keyed table.
-/

namespace Transition

variable {κ β : Type}

def entriesWith (p : β → Bool) (t : AList (fun _ : κ => β)) : Nat :=
  t.entries.countP (fun x => p x.2)

variable {p : β → Bool}

@[simp]
theorem entriesWith_empty : entriesWith p (∅ : AList (fun _ : κ => β)) = 0 := rfl

variable [DecidableEq κ]

theorem countP_kerase (p : β → Bool) (k : κ) (l : List (Σ _ : κ, β)) :
    (l.kerase k).countP (fun x => p x.2) + ((l.dlookup k).any p).toNat
      =
    l.countP (fun x => p x.2) := by
  induction l with
  | nil => rfl
  | cons x l ih =>
    by_cases hk : k = x.1
    . subst hk
      rw [List.kerase_cons_eq rfl, List.dlookup_cons_eq, List.countP_cons, Option.any_some]
      cases p x.2 <;> rfl
    . rw [List.kerase_cons_ne hk, List.dlookup_cons_ne _ _ hk, List.countP_cons, List.countP_cons]
      omega

variable {t : AList (fun _ : κ => β)}

theorem entriesWith_insert (t : AList (fun _ : κ => β)) (k : κ) (b : β) :
    entriesWith p (t.insert k b) + ((t.lookup k).any p).toNat = entriesWith p t + (p b).toNat := by
  have hkerase := countP_kerase p k t.entries
  unfold entriesWith AList.lookup
  rw [AList.entries_insert, List.countP_cons]
  cases p b <;> simp <;> omega

theorem entriesWith_erase (t : AList (fun _ : κ => β)) (k : κ) :
    entriesWith p (t.erase k) + ((t.lookup k).any p).toNat = entriesWith p t :=
  countP_kerase p k t.entries

theorem entriesWith_pos {k : κ} {b : β} (hlookup : t.lookup k = some b) (hb : p b) :
    0 < entriesWith p t := by
  have herase := entriesWith_erase (p := p) t k
  rw [hlookup, Option.any_some, hb, Bool.toNat_true] at herase
  omega

theorem key_eq_of_entriesWith_le_one (hone : entriesWith p t ≤ 1) {k k' : κ} {b b' : β}
    (hlookup : t.lookup k = some b) (hlookup' : t.lookup k' = some b') (hb : p b) (hb' : p b') :
    k = k' := by
  by_contra hne
  have herase := entriesWith_erase (p := p) t k
  rw [hlookup, Option.any_some, hb, Bool.toNat_true] at herase
  have hpos := entriesWith_pos (p := p) (t := t.erase k)
    (by rw [AList.lookup_erase_ne (Ne.symm hne)]; exact hlookup') hb'
  omega

/-! What the entries weigh together. -/

def entriesSum (f : κ → β → Nat) (t : AList (fun _ : κ => β)) : Nat :=
  (t.entries.map (fun x => f x.1 x.2)).sum

theorem sum_kerase (f : κ → β → Nat) (k : κ) (l : List (Σ _ : κ, β)) :
    ((l.kerase k).map (fun x => f x.1 x.2)).sum + (l.dlookup k).elim 0 (f k)
      =
    (l.map (fun x => f x.1 x.2)).sum := by
  induction l with
  | nil => rfl
  | cons x l ih =>
    by_cases hk : k = x.1
    . subst hk
      rw [List.kerase_cons_eq rfl, List.dlookup_cons_eq, List.map_cons, List.sum_cons, Option.elim_some,
        Nat.add_comm]
    . rw [List.kerase_cons_ne hk, List.dlookup_cons_ne _ _ hk, List.map_cons, List.sum_cons,
        List.map_cons, List.sum_cons, Nat.add_assoc, ih]

theorem entriesSum_erase (f : κ → β → Nat) (t : AList (fun _ : κ => β)) (k : κ) :
    entriesSum f (t.erase k) + (t.lookup k).elim 0 (f k) = entriesSum f t :=
  sum_kerase f k t.entries

theorem entriesSum_insert (f : κ → β → Nat) (t : AList (fun _ : κ => β)) (k : κ) (b : β) :
    entriesSum f (t.insert k b) + (t.lookup k).elim 0 (f k) = entriesSum f t + f k b := by
  have hkerase := sum_kerase f k t.entries
  unfold entriesSum AList.lookup
  rw [AList.entries_insert, List.map_cons, List.sum_cons]
  dsimp only
  omega

theorem entriesSum_congr {f g : κ → β → Nat} {k : κ} (h : ∀ k', k' ≠ k → f k' = g k')
    (t : AList (fun _ : κ => β)) :
    entriesSum f t + (t.lookup k).elim 0 (g k) = entriesSum g t + (t.lookup k).elim 0 (f k) := by
  have hsame : entriesSum f (t.erase k) = entriesSum g (t.erase k) := by
    unfold entriesSum
    congr 1
    apply List.map_congr_left
    intro x hx
    have hne : x.1 ≠ k := by
      rintro rfl
      have hmem : x.1 ∈ t.erase x.1 := List.mem_keys_of_mem hx
      exact (AList.mem_erase.mp hmem).1 rfl
    rw [h x.1 hne]
  have hf := entriesSum_erase f t k
  have hg := entriesSum_erase g t k
  omega

end Transition
