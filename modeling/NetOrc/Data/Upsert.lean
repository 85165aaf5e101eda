import Mathlib.Data.List.Basic
import Mathlib.Data.List.Induction

/-!
This module contains lists of rows that are updated in place: a row replaces the first one with its key,
or goes to the end.
-/

namespace Upsert

theorem eraseDups_concat {κ : Type} [BEq κ] [LawfulBEq κ] (ks : List κ) (k : κ) :
    (ks ++ [k]).eraseDups = if k ∈ ks then ks.eraseDups else ks.eraseDups ++ [k] := by
  rw [List.eraseDups_append]
  by_cases hk : k ∈ ks
  . simp [List.removeAll, hk]
  . simp [List.removeAll, hk, List.eraseDups_cons]

variable {α κ : Type} [DecidableEq κ] {key : α → κ}

def upsert (key : α → κ) (rows : List α) (x : α) : List α :=
  match rows with
  | [] => [x]
  | y :: rows => if key y = key x then x :: rows else y :: upsert key rows x

theorem map_key_upsert (rows : List α) (x : α) :
    (upsert key rows x).map key
      =
    if key x ∈ rows.map key then rows.map key else rows.map key ++ [key x] := by
  induction rows with
  | nil => rfl
  | cons y rows ih =>
    rw [upsert, List.map_cons]
    by_cases hkey : key y = key x
    . rw [if_pos hkey, if_pos (by simp [hkey]), List.map_cons, hkey]
    . rw [if_neg hkey, List.map_cons, ih]
      by_cases hmem : key x ∈ rows.map key
      . rw [if_pos hmem, if_pos (List.mem_cons_of_mem _ hmem)]
      . rw [if_neg hmem, if_neg, List.cons_append]
        rw [List.mem_cons, not_or]
        exact ⟨Ne.symm hkey, hmem⟩

theorem filter_upsert (rows : List α) (x : α) :
    (upsert key rows x).filter (fun y => key y ≠ key x) = rows.filter (fun y => key y ≠ key x) := by
  induction rows with
  | nil => simp [upsert]
  | cons y rows ih =>
    rw [upsert]
    by_cases hkey : key y = key x
    . simp [hkey]
    . rw [if_neg hkey, List.filter_cons_of_pos (by simpa using hkey),
        List.filter_cons_of_pos (by simpa using hkey), ih]

theorem nodup_upsert {rows : List α} (h : (rows.map key).Nodup) (x : α) :
    ((upsert key rows x).map key).Nodup := by
  rw [map_key_upsert]
  split
  . exact h
  . next hmem =>
    rw [List.nodup_append]
    refine ⟨h, by simp, ?_⟩
    intro k hk k' hk'
    rw [List.mem_singleton.mp hk']
    exact fun hkk' => hmem (hkk' ▸ hk)

theorem mem_upsert {rows : List α} (h : (rows.map key).Nodup) {x y : α} (hy : y ∈ upsert key rows x) :
    y = x ∨ (y ∈ rows ∧ key y ≠ key x) := by
  induction rows with
  | nil => exact .inl (List.mem_singleton.mp hy)
  | cons z rows ih =>
    rw [List.map_cons, List.nodup_cons] at h
    rw [upsert] at hy
    split at hy
    . next hkey =>
      rcases List.mem_cons.mp hy with rfl | hy
      . exact .inl rfl
      . right
        refine ⟨List.mem_cons_of_mem _ hy, fun hyx => h.1 ?_⟩
        rw [hkey, ← hyx]
        exact List.mem_map_of_mem hy
    . next hkey =>
      rcases List.mem_cons.mp hy with rfl | hy
      . exact .inr ⟨List.mem_cons_self, hkey⟩
      . exact (ih h.2 hy).imp_right (fun hy => ⟨List.mem_cons_of_mem _ hy.1, hy.2⟩)

theorem filter_key_upsert_self {rows : List α} (h : (rows.map key).Nodup) (x : α) :
    (upsert key rows x).filter (fun y => key y = key x) = [x] := by
  induction rows with
  | nil => simp [upsert]
  | cons y rows ih =>
    rw [List.map_cons, List.nodup_cons] at h
    rw [upsert]
    split
    . next hkey =>
      rw [List.filter_cons_of_pos (by simp)]
      congr 1
      apply List.filter_eq_nil_iff.mpr
      intro z hz hzx
      apply h.1
      rw [hkey, ← of_decide_eq_true hzx]
      exact List.mem_map_of_mem hz
    . next hkey => rw [List.filter_cons_of_neg (by simpa using hkey), ih h.2]

theorem filter_key_upsert_of_ne {x : α} {k : κ} (h : key x ≠ k) (rows : List α) :
    (upsert key rows x).filter (fun y => key y = k) = rows.filter (fun y => key y = k) := by
  induction rows with
  | nil => simp [upsert, h]
  | cons y rows ih =>
    rw [upsert]
    split
    . next hkey =>
      have hy : key y ≠ k := hkey ▸ h
      rw [List.filter_cons_of_neg (by simpa using h), List.filter_cons_of_neg (by simpa using hy)]
    . rw [List.filter_cons, List.filter_cons, ih]

/-! Sequences of updates. -/

def upserts (key : α → κ) (xs : List α) : List α := xs.foldl (upsert key) []

theorem upserts_concat (xs : List α) (x : α) :
    upserts key (xs ++ [x]) = upsert key (upserts key xs) x := by
  simp [upserts]

theorem nodup_upserts (xs : List α) : ((upserts key xs).map key).Nodup := by
  induction xs using List.reverseRecOn with
  | nil => exact List.nodup_nil
  | append_singleton xs x ih =>
    rw [upserts_concat]
    exact nodup_upsert ih x

theorem map_key_upserts [BEq κ] [LawfulBEq κ] (xs : List α) :
    (upserts key xs).map key = (xs.map key).eraseDups := by
  induction xs using List.reverseRecOn with
  | nil => rfl
  | append_singleton xs x ih =>
    rw [upserts_concat, map_key_upsert, ih, List.map_append, List.map_singleton, eraseDups_concat]
    simp only [List.mem_eraseDups]

theorem getLast?_of_mem_upserts (xs : List α) {y : α} (hy : y ∈ upserts key xs) :
    (xs.filter (fun x => key x = key y)).getLast? = some y := by
  induction xs using List.reverseRecOn with
  | nil => simp [upserts] at hy
  | append_singleton xs x ih =>
    rw [upserts_concat] at hy
    rw [List.filter_append]
    rcases mem_upsert (nodup_upserts xs) hy with rfl | ⟨hy, hne⟩
    . simp
    . simpa [hne.symm] using ih hy

theorem filter_key_upserts (xs : List α) (k : κ) :
    (upserts key xs).filter (fun x => key x = k)
      =
    (xs.filter (fun x => key x = k)).getLast?.toList := by
  induction xs using List.reverseRecOn with
  | nil => rfl
  | append_singleton xs x ih =>
    rw [upserts_concat, List.filter_append]
    by_cases hk : key x = k
    . subst hk
      rw [filter_key_upsert_self (nodup_upserts xs)]
      simp
    . rw [filter_key_upsert_of_ne hk, ih]
      simp [hk]

end Upsert
