import Mathlib.Data.List.Dedup
import Mathlib.Data.List.Pairwise

/-!
This module contains maps that keep their entries in the order of their keys.
-/

structure KeyOrder (κ : Type) where
  lt : κ → κ → Bool
  irrefl : ∀ a, lt a a = false
  trans : ∀ a b c, lt a b = true → lt b c = true → lt a c = true
  trichotomy : ∀ a b, lt a b = false → lt b a = false → a = b

namespace KeyOrder

def lexList {α : Type} (lt : α → α → Bool) (as bs : List α) : Bool :=
  match as, bs with
  | [], [] => false
  | [], _ :: _ => true
  | _ :: _, [] => false
  | a :: as, b :: bs => if lt a b then true else if lt b a then false else lexList lt as bs

variable {α κ : Type} (o : KeyOrder α)

theorem lt_asymm {a b : α} (h : o.lt a b = true) : o.lt b a = false := by
  by_contra hba
  have haa := o.trans a b a h (by simpa using hba)
  rw [o.irrefl] at haa
  contradiction

theorem lexList_cons_iff (a b : α) (as bs : List α) :
    lexList o.lt (a :: as) (b :: bs) = true
      ↔
    o.lt a b = true ∨ (a = b ∧ lexList o.lt as bs = true) := by
  rw [lexList]
  split
  . next h => simp [h]
  . next hab =>
    split
    . next hba =>
      have hne : a ≠ b := by
        rintro rfl
        exact hab hba
      simp [hab, hne]
    . next hba =>
      have heq := o.trichotomy a b (by simpa using hab) (by simpa using hba)
      simp [heq, o.irrefl]

def list : KeyOrder (List α) where
  lt := lexList o.lt
  irrefl := by
    intro as
    induction as with
    | nil => rfl
    | cons a as ih =>
      rw [← Bool.not_eq_true, o.lexList_cons_iff, o.irrefl, ih]
      simp
  trans := by
    intro as bs cs hab hbc
    induction as generalizing bs cs with
    | nil =>
      cases cs with
      | nil => cases bs <;> contradiction
      | cons => rfl
    | cons a as ih =>
      cases bs with
      | nil => contradiction
      | cons b bs =>
        cases cs with
        | nil => contradiction
        | cons c cs =>
          rw [o.lexList_cons_iff] at hab hbc ⊢
          rcases hab with hab | ⟨rfl, hab⟩
          . rcases hbc with hbc | ⟨rfl, hbc⟩
            . exact .inl (o.trans _ _ _ hab hbc)
            . exact .inl hab
          . rcases hbc with hbc | ⟨rfl, hbc⟩
            . exact .inl hbc
            . exact .inr ⟨rfl, ih _ _ hab hbc⟩
  trichotomy := by
    intro as bs hab hba
    induction as generalizing bs with
    | nil =>
      cases bs with
      | nil => rfl
      | cons => contradiction
    | cons a as ih =>
      cases bs with
      | nil => contradiction
      | cons b bs =>
        rw [← Bool.not_eq_true, o.lexList_cons_iff] at hab hba
        simp only [not_or, not_and, Bool.not_eq_true] at hab hba
        have heq := o.trichotomy a b hab.1 hba.1
        rw [heq, ih bs (hab.2 heq) (hba.2 heq.symm)]

end KeyOrder

structure OrderedMap {κ : Type} (o : KeyOrder κ) (β : Type) where
  entries : List (κ × β) := []
  sorted : entries.Pairwise (fun a b => o.lt a.1 b.1 = true) := by exact List.Pairwise.nil

namespace OrderedMap

variable {κ β : Type} {o : KeyOrder κ}

instance instEmptyCollection : EmptyCollection (OrderedMap o β) := ⟨{}⟩

@[simp]
theorem entries_empty : (∅ : OrderedMap o β).entries = [] := rfl

def upsertEntries (o : KeyOrder κ) (k : κ) (f : Option β → β) (entries : List (κ × β)) :
    List (κ × β) :=
  match entries with
  | [] => [(k, f none)]
  | e :: rest =>
    if o.lt k e.1 then
      (k, f none) :: e :: rest
    else if o.lt e.1 k then
      e :: upsertEntries o k f rest
    else
      (e.1, f (some e.2)) :: rest

theorem key_of_mem_upsertEntries {k : κ} {f : Option β → β} {entries : List (κ × β)} {e : κ × β}
    (h : e ∈ upsertEntries o k f entries) : e.1 = k ∨ ∃ e' ∈ entries, e.1 = e'.1 := by
  induction entries with
  | nil =>
    rw [List.mem_singleton.mp h]
    exact .inl rfl
  | cons e' rest ih =>
    rw [upsertEntries] at h
    split at h
    . rcases List.mem_cons.mp h with rfl | h
      . exact .inl rfl
      . exact .inr ⟨e, h, rfl⟩
    . split at h
      . rcases List.mem_cons.mp h with rfl | h
        . exact .inr ⟨e, by simp, rfl⟩
        . rcases ih h with hk | ⟨e'', he'', hkey⟩
          . exact .inl hk
          . exact .inr ⟨e'', by simp [he''], hkey⟩
      . rcases List.mem_cons.mp h with rfl | h
        . exact .inr ⟨e', by simp, rfl⟩
        . exact .inr ⟨e, by simp [h], rfl⟩

theorem sorted_upsertEntries {k : κ} {f : Option β → β} {entries : List (κ × β)}
    (h : entries.Pairwise (fun a b => o.lt a.1 b.1 = true)) :
    (upsertEntries o k f entries).Pairwise (fun a b => o.lt a.1 b.1 = true) := by
  induction entries with
  | nil => exact List.pairwise_singleton _ _
  | cons e rest ih =>
    rw [List.pairwise_cons] at h
    rw [upsertEntries]
    split
    . next hlt =>
      apply List.Pairwise.cons
      . intro e' he'
        rcases List.mem_cons.mp he' with rfl | he'
        . exact hlt
        . exact o.trans _ _ _ hlt (h.1 e' he')
      . exact List.Pairwise.cons h.1 h.2
    . split
      . next hgt =>
        apply List.Pairwise.cons
        . intro e' he'
          rcases key_of_mem_upsertEntries he' with hkey | ⟨e'', he'', hkey⟩
          . rw [hkey]
            exact hgt
          . rw [hkey]
            exact h.1 e'' he''
        . exact ih h.2
      . exact List.Pairwise.cons h.1 h.2

/--
`f (m[k])`, where `f none` is stored for a key that was not there.
-/
def upsert (m : OrderedMap o β) (k : κ) (f : Option β → β) : OrderedMap o β where
  entries := upsertEntries o k f m.entries
  sorted := sorted_upsertEntries m.sorted

def keys (m : OrderedMap o β) : List κ := m.entries.map Prod.fst

theorem nodup_keys (m : OrderedMap o β) : m.keys.Nodup := by
  rw [keys, List.Nodup, List.pairwise_map]
  apply m.sorted.imp
  intro a b hlt heq
  rw [heq, o.irrefl] at hlt
  contradiction

theorem mem_upsert_of_ne {m : OrderedMap o β} {k : κ} {f : Option β → β} {e : κ × β} (hne : e.1 ≠ k) :
    e ∈ (m.upsert k f).entries ↔ e ∈ m.entries := by
  rw [upsert]
  dsimp only
  induction m.entries with
  | nil =>
    simp only [upsertEntries, List.mem_singleton, List.not_mem_nil, iff_false]
    rintro rfl
    exact hne rfl
  | cons e' rest ih =>
    have hne' : e ≠ (k, f none) := by
      rintro rfl
      exact hne rfl
    rw [upsertEntries]
    split
    . simp [hne']
    . next hlt =>
      split
      . rw [List.mem_cons, List.mem_cons, ih]
      . next hgt =>
        have hkey := o.trichotomy k e'.1 (by simpa using hlt) (by simpa using hgt)
        have hsome : ∀ v, e ≠ (e'.1, v) := by
          rintro v rfl
          exact hne hkey.symm
        rw [List.mem_cons, List.mem_cons]
        simp only [hsome, false_or]

theorem mem_upsert_of_mem {m : OrderedMap o β} {k : κ} {f : Option β → β} {v v' : β}
    (hmem : (k, v) ∈ m.entries) : (k, v') ∈ (m.upsert k f).entries ↔ v' = f (some v) := by
  rcases m with ⟨entries, hsorted⟩
  rw [upsert]
  dsimp only at hmem ⊢
  induction entries with
  | nil => simp at hmem
  | cons e rest ih =>
    rw [List.pairwise_cons] at hsorted
    rw [upsertEntries]
    rcases List.mem_cons.mp hmem with rfl | hmem
    . rw [if_neg (by simp [o.irrefl]), if_neg (by simp [o.irrefl])]
      have hrest : (k, v') ∉ rest := by
        intro h
        have hlt := hsorted.1 _ h
        rw [o.irrefl] at hlt
        contradiction
      simp [hrest]
    . have hlt := hsorted.1 _ hmem
      have hne : (k, v') ≠ e := by
        rintro rfl
        rw [o.irrefl] at hlt
        contradiction
      rw [if_neg (by simp [o.lt_asymm hlt]), if_pos hlt, List.mem_cons]
      simp only [hne, false_or]
      exact ih hsorted.2 hmem

theorem mem_upsert_of_not_mem {m : OrderedMap o β} {k : κ} {f : Option β → β} {v' : β}
    (hmem : k ∉ m.keys) : (k, v') ∈ (m.upsert k f).entries ↔ v' = f none := by
  rcases m with ⟨entries, hsorted⟩
  rw [upsert]
  rw [keys] at hmem
  dsimp only at hmem ⊢
  induction entries with
  | nil => simp [upsertEntries]
  | cons e rest ih =>
    simp only [List.map_cons, List.mem_cons, not_or] at hmem
    have hrest : ∀ v, (k, v) ∉ rest := fun v hv => hmem.2 (List.mem_map_of_mem hv)
    have hne : ∀ v, (k, v) ≠ e := by
      rintro v rfl
      exact hmem.1 rfl
    rw [upsertEntries]
    split
    . simp [hrest, hne]
    . next hlt =>
      split
      . rw [List.mem_cons]
        simp only [hne, false_or]
        exact ih hsorted.of_cons hmem.2
      . next hgt =>
        exact absurd (o.trichotomy k e.1 (by simpa using hlt) (by simpa using hgt)) hmem.1

theorem mem_keys_upsert {m : OrderedMap o β} {k k' : κ} {f : Option β → β} :
    k' ∈ (m.upsert k f).keys ↔ k' = k ∨ k' ∈ m.keys := by
  have hkeys : ∀ m : OrderedMap o β, k' ∈ m.keys ↔ ∃ v, (k', v) ∈ m.entries := by
    intro m
    simp [keys]
  by_cases hk : k' = k
  . subst hk
    apply iff_of_true _ (.inl rfl)
    rw [hkeys]
    by_cases hmem : k' ∈ m.keys
    . rcases (hkeys m).mp hmem with ⟨v, hv⟩
      exact ⟨_, (mem_upsert_of_mem hv).mpr rfl⟩
    . exact ⟨_, (mem_upsert_of_not_mem hmem).mpr rfl⟩
  . rw [hkeys, hkeys]
    simp only [hk, false_or]
    apply exists_congr
    intro v
    exact mem_upsert_of_ne hk

end OrderedMap
