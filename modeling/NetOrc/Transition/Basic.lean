import Mathlib.Logic.Relation

/-!
This module contains transition systems whose steps are a partial function of the state and of an
action. An action carries everything about a step that the state does not determine.
-/

namespace Transition

variable {S A : Type}

def Next (step : S → A → Option S) (guard : S → A → Prop) (s s' : S) : Prop :=
  ∃ a, guard s a ∧ step s a = some s'

abbrev Reaches (step : S → A → Option S) (guard : S → A → Prop) : S → S → Prop :=
  Relation.ReflTransGen (Next step guard)

variable {step : S → A → Option S} {guard : S → A → Prop}

theorem Next.reaches {s s' : S} {a : A} (hguard : guard s a) (hstep : step s a = some s') :
    Reaches step guard s s' := .single ⟨a, hguard, hstep⟩

theorem Reaches.weaken {guard' : S → A → Prop} (himp : ∀ s a, guard s a → guard' s a) {s s' : S}
    (h : Reaches step guard s s') : Reaches step guard' s s' := by
  refine Relation.ReflTransGen.mono ?_ _ _ h
  rintro s s' ⟨a, hguard, hstep⟩
  exact ⟨a, himp s a hguard, hstep⟩

theorem Reaches.lift {T B : Type} {stepT : T → B → Option T} {guardT : T → B → Prop} (proj : T → S)
    (hlift : ∀ t a s', guard (proj t) a → step (proj t) a = some s' →
      ∃ t', Reaches stepT guardT t t' ∧ proj t' = s') {t : T} {s' : S}
    (h : Reaches step guard (proj t) s') : ∃ t', Reaches stepT guardT t t' ∧ proj t' = s' := by
  induction h with
  | refl => exact ⟨t, .refl, rfl⟩
  | tail _ hnext ih =>
    rcases ih with ⟨t₁, hreaches, rfl⟩
    rcases hnext with ⟨a, hguard, hstep⟩
    rcases hlift t₁ a _ hguard hstep with ⟨t', hstepT, hproj⟩
    exact ⟨t', hreaches.trans hstepT, hproj⟩

theorem Reaches.map {T B : Type} {stepT : T → B → Option T} {guardT : T → B → Prop} (f : S → T)
    (hmap : ∀ s a s', guard s a → step s a = some s' → Reaches stepT guardT (f s) (f s')) {s s' : S}
    (h : Reaches step guard s s') : Reaches stepT guardT (f s) (f s') := by
  induction h with
  | refl => exact .refl
  | tail _ hnext ih =>
    rcases hnext with ⟨a, hguard, hstep⟩
    exact ih.trans (hmap _ a _ hguard hstep)

theorem Reaches.invariant (inv : S → Prop)
    (hstep : ∀ s a s', inv s → guard s a → step s a = some s' → inv s') {s s' : S} (hinit : inv s)
    (h : Reaches step guard s s') : inv s' := by
  induction h with
  | refl => exact hinit
  | tail _ hnext ih =>
    rcases hnext with ⟨a, hguard, ha⟩
    exact hstep _ a _ ih hguard ha

def run (step : S → A → Option S) (guard : S → A → Bool) (s : S) (as : List A) : Option S :=
  match as with
  | [] => some s
  | a :: as => if guard s a then (step s a).bind (fun s => run step guard s as) else none

theorem reaches_of_run {guard : S → A → Bool} {s s' : S} {as : List A}
    (h : run step guard s as = some s') : Reaches step (fun s a => guard s a) s s' := by
  induction as generalizing s with
  | nil => cases h; exact .refl
  | cons a as ih =>
    unfold run at h
    split at h
    . next hguard =>
      rcases Option.bind_eq_some_iff.mp h with ⟨s₁, hstep, hrest⟩
      exact .head ⟨a, hguard, hstep⟩ (ih hrest)
    . contradiction

theorem invariant_of_run {guard : S → A → Bool} (inv : S → List A → Prop)
    (hstep : ∀ s past a s', inv s past → guard s a → step s a = some s' → inv s' (past ++ [a])) {s s' : S}
    {past as : List A} (hinit : inv s past) (h : run step guard s as = some s') : inv s' (past ++ as) := by
  induction as generalizing s past with
  | nil =>
    cases h
    rwa [List.append_nil]
  | cons a as ih =>
    unfold run at h
    split at h
    . next hguard =>
      rcases Option.bind_eq_some_iff.mp h with ⟨s₁, ha, hrest⟩
      rw [List.append_cons]
      exact ih (hstep s past a s₁ hinit hguard ha) hrest
    . contradiction

theorem length_le_of_run {guard : S → A → Bool} (rank : S → Nat)
    (hstep : ∀ s a s', guard s a → step s a = some s' → rank s' < rank s) {s s' : S} {as : List A}
    (h : run step guard s as = some s') : as.length ≤ rank s := by
  induction as generalizing s with
  | nil => exact Nat.zero_le _
  | cons a as ih =>
    unfold run at h
    split at h
    . next hguard =>
      rcases Option.bind_eq_some_iff.mp h with ⟨s₁, ha, hrest⟩
      have hlt := hstep s a s₁ hguard ha
      have hle := ih hrest
      rw [List.length_cons]
      omega
    . contradiction

theorem countP_le_add_of_run {guard : S → A → Bool} (inv : S → Prop) (rank : S → Nat)
    (lowers raises : A → Bool)
    (hstep : ∀ s a s', inv s → guard s a → step s a = some s' →
      inv s' ∧ rank s' + (lowers a).toNat ≤ rank s + (raises a).toNat) {s s' : S} {as : List A}
    (hs : inv s) (h : run step guard s as = some s') :
    as.countP lowers ≤ rank s + as.countP raises := by
  induction as generalizing s with
  | nil => exact Nat.zero_le _
  | cons a as ih =>
    unfold run at h
    split at h
    . next hguard =>
      rcases Option.bind_eq_some_iff.mp h with ⟨s₁, ha, hrest⟩
      rcases hstep s a s₁ hs hguard ha with ⟨hs₁, hle⟩
      have hrest := ih hs₁ hrest
      have hcons : ∀ p : A → Bool, (a :: as).countP p = as.countP p + (p a).toNat := by
        intro p
        rw [List.countP_cons]
        cases p a <;> rfl
      rw [hcons, hcons]
      omega
    . contradiction

theorem countP_le_of_run {guard : S → A → Bool} (inv : S → Prop) (rank : S → Nat) (lowers : A → Bool)
    (hstep : ∀ s a s', inv s → guard s a → step s a = some s' →
      inv s' ∧ rank s' + (lowers a).toNat ≤ rank s) {s s' : S} {as : List A} (hs : inv s)
    (h : run step guard s as = some s') : as.countP lowers ≤ rank s := by
  have hle := countP_le_add_of_run inv rank lowers (fun _ => false) hstep hs h
  rwa [List.countP_false] at hle

/--
A relation to another run goes through the steps that the other run leaves out, if they keep it, and
through the others, if the other run can take them as well.
-/
theorem run_erase (related : S → S → Prop) (keeps : A → Bool)
    (hskip : ∀ s t a s', related s t → keeps a = false → step s a = some s' → related s' t)
    (hkeep : ∀ s t a s', related s t → keeps a = true → step s a = some s' →
      ∃ t', step t a = some t' ∧ related s' t') {s t s' : S} {as : List A} (hst : related s t)
    (h : run step (fun _ _ => true) s as = some s') :
    ∃ t', run step (fun _ _ => true) t (as.filter keeps) = some t' ∧ related s' t' := by
  induction as generalizing s t with
  | nil =>
    cases h
    exact ⟨t, rfl, hst⟩
  | cons a as ih =>
    rw [run, if_pos rfl] at h
    rcases Option.bind_eq_some_iff.mp h with ⟨s₁, ha, hrest⟩
    cases hkeeps : keeps a with
    | false =>
      rw [List.filter_cons_of_neg (by simp [hkeeps])]
      exact ih (hskip s t a s₁ hst hkeeps ha) hrest
    | true =>
      rcases hkeep s t a s₁ hst hkeeps ha with ⟨t₁, hta, hst₁⟩
      rcases ih hst₁ hrest with ⟨t', ht', hrelated⟩
      refine ⟨t', ?_, hrelated⟩
      rw [List.filter_cons_of_pos hkeeps, run, if_pos rfl, hta]
      exact ht'

theorem run_guarded_iff {guard : S → A → Bool} {P : S → Prop}
    (hstep : ∀ s a s', step s a = some s' → (P s' ↔ P s ∧ guard s a)) {s s' : S} {as : List A}
    (h : run step (fun _ _ => true) s as = some s') : P s' ↔ P s ∧ run step guard s as = some s' := by
  induction as generalizing s with
  | nil =>
    cases h
    exact (and_iff_left rfl).symm
  | cons a as ih =>
    rw [run, if_pos rfl] at h
    rcases Option.bind_eq_some_iff.mp h with ⟨s₁, ha, hrest⟩
    rw [ih hrest, hstep s a s₁ ha, run, ha, Option.bind_some, and_assoc]
    apply and_congr_right
    intro _
    split
    . next hguard => exact and_iff_right hguard
    . next hguard => simp [hguard]

/-! A system with a record of its past. -/

/--
The system together with a record that every step may extend. The steps do not depend on it.
-/
def recorded {R : Type} (step : S → A → Option S) (record : S → A → R → R) (p : S × R) (a : A) :
    Option (S × R) :=
  (step p.1 a).map (fun s => (s, record p.1 a p.2))

theorem recorded_eq_some_iff {R : Type} {record : S → A → R → R} {p q : S × R} {a : A} :
    recorded step record p a = some q ↔ step p.1 a = some q.1 ∧ q.2 = record p.1 a p.2 := by
  rcases q with ⟨s, r⟩
  unfold recorded
  simp only [Option.map_eq_some_iff, Prod.mk.injEq]
  constructor
  . rintro ⟨_, hstep, rfl, rfl⟩
    exact ⟨hstep, rfl⟩
  . rintro ⟨hstep, rfl⟩
    exact ⟨s, hstep, rfl, rfl⟩

/-! A run of several parties, and the run of one of them alone. -/

/--
Party `i` is isolated from the others: their steps do not change what it sees, and what it sees after a
step of its own only depends on what it saw before, also when the other run takes its steps by `step'`.
The states of a run satisfy `inv`.
-/
structure Isolated {ι V : Type} (step step' : S → ι × A → Option S) (inv : S → Prop) (view : S → V) (i : ι) :
    Prop where
  keeps : ∀ s a s', inv s → step s a = some s' → inv s'
  others : ∀ s j a s', inv s → j ≠ i → step s (j, a) = some s' → view s' = view s
  own : ∀ s t a s', inv s → view s = view t → step s (i, a) = some s' →
    ∃ t', step' t (i, a) = some t' ∧ view s' = view t'

section
variable {ι V : Type} {step step' : S → ι × A → Option S} {inv : S → Prop} {view : S → V} {i : ι}

theorem Isolated.run [DecidableEq ι] (h : Isolated step step' inv view i) {s s' t : S}
    {as : List (ι × A)} (hinv : inv s) (hview : view s = view t)
    (hrun : run step (fun _ _ => true) s as = some s') :
    ∃ t', Transition.run step' (fun _ _ => true) t (as.filter (fun a => a.1 = i)) = some t'
      ∧ view s' = view t' := by
  induction as generalizing s t with
  | nil =>
    cases hrun
    exact ⟨t, rfl, hview⟩
  | cons a as ih =>
    rcases a with ⟨j, a⟩
    rw [Transition.run, if_pos rfl] at hrun
    rcases Option.bind_eq_some_iff.mp hrun with ⟨s₁, hstep, hrest⟩
    have hinv₁ := h.keeps s (j, a) s₁ hinv hstep
    by_cases hj : j = i
    . subst hj
      rcases h.own s t a s₁ hinv hview hstep with ⟨t₁, hstep', hview₁⟩
      rcases ih hinv₁ hview₁ hrest with ⟨t', hrun', hview'⟩
      refine ⟨t', ?_, hview'⟩
      rw [List.filter_cons_of_pos (by simp), Transition.run, if_pos rfl, hstep', Option.bind_some]
      exact hrun'
    . have hview₁ := h.others s j a s₁ hinv hj hstep
      rw [List.filter_cons_of_neg (by simpa using hj)]
      exact ih hinv₁ (hview₁.trans hview) hrest

end

end Transition
