import Mathlib.Data.List.Induction
import NetOrc.Transition.Basic

/-!
This module contains programs that are started again and again: a life of the program begins with what the
last one has left on disk, and may end in any state.
-/

namespace Transition

variable {S A D L : Type} {step : S → A → Option S} {guard : S → A → Prop} {boot : D → S} {disk : S → D}
  {blank : D}

def diskAfter (disk : S → D) (blank : D) (lives : List S) : D :=
  match lives.getLast? with
  | none => blank
  | some s => disk s

@[simp]
theorem diskAfter_nil : diskAfter disk blank [] = blank := rfl

@[simp]
theorem diskAfter_concat (lives : List S) (s : S) : diskAfter disk blank (lives ++ [s]) = disk s := by
  simp [diskAfter]

inductive Lives (step : S → A → Option S) (guard : S → A → Prop) (boot : D → S) (disk : S → D) (blank : D) :
    List S → Prop where
  | none : Lives step guard boot disk blank []
  | again {lives : List S} {s : S} (h : Lives step guard boot disk blank lives)
    (hlife : Reaches step guard (boot (diskAfter disk blank lives)) s) :
    Lives step guard boot disk blank (lives ++ [s])

theorem Lives.forall_mem {I : D → Prop} {P : S → Prop} (hblank : I blank)
    (hlife : ∀ d s, I d → Reaches step guard (boot d) s → I (disk s) ∧ P s) {lives : List S}
    (h : Lives step guard boot disk blank lives) : I (diskAfter disk blank lives) ∧ ∀ s ∈ lives, P s := by
  induction h with
  | none => exact ⟨hblank, by simp⟩
  | @again lives s _ hreaches ih =>
    rcases ih with ⟨hdisk, hlives⟩
    have hs := hlife _ s hdisk hreaches
    rw [diskAfter_concat]
    refine ⟨hs.1, fun s' hs' => ?_⟩
    rcases List.mem_append.mp hs' with hs' | hs'
    . exact hlives s' hs'
    . rw [List.mem_singleton.mp hs']
      exact hs.2

theorem Lives.follows {F : D → List L → Prop} {written : S → List L} (hblank : F blank [])
    (hlife : ∀ d log s, F d log → Reaches step guard (boot d) s → F (disk s) (log ++ written s))
    {lives : List S} (h : Lives step guard boot disk blank lives) :
    F (diskAfter disk blank lives) (lives.flatMap written) := by
  induction h with
  | none => exact hblank
  | @again lives s _ hreaches ih =>
    have hlog : (lives ++ [s]).flatMap written = lives.flatMap written ++ written s := by simp
    rw [diskAfter_concat, hlog]
    exact hlife _ _ s ih hreaches

theorem Lives.take {lives : List S} (h : Lives step guard boot disk blank lives) (k : Nat) :
    Lives step guard boot disk blank (lives.take k) := by
  induction h with
  | none => simpa using .none
  | @again lives s h hlife ih =>
    by_cases hk : k ≤ lives.length
    . rw [List.take_append_of_le_length hk]
      exact ih
    . rw [List.take_of_length_le (by simp; omega)]
      exact .again h hlife

end Transition
