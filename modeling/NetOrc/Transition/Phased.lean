import Mathlib.Data.Fintype.Defs
import Mathlib.Data.List.Nodup
import Mathlib.Logic.Function.Basic
import NetOrc.Transition.Basic

/-!
This module contains calls that take effect in two steps, while calls of other threads go on. If calls for
different keys do not disturb each other's first steps, a run is as good as one in which the calls are made
one after another.
-/

namespace Transition

variable {ι S C K : Type}

/--
The two effects of a call. Only calls with the same key may depend on the first effect.
-/
structure Phases (S C K : Type) where
  key : C → K
  first : C → S → S
  second : C → S → S
  first_first : ∀ {c d}, key c ≠ key d → ∀ w, first c (first d w) = first d (first c w)
  second_first : ∀ {c d}, key c ≠ key d → ∀ w, second c (first d w) = first d (second c w)

inductive PhasePc (C : Type) where
  | idle
  | started (c : C)
  | prepared (c : C)
  | committed (c : C)
  deriving DecidableEq, Repr

def PhasePc.call (pc : PhasePc C) : Option C :=
  match pc with
  | .idle => none
  | .started c => some c
  | .prepared c => some c
  | .committed c => some c

def PhasePc.effective (pc : PhasePc C) : List C :=
  match pc with
  | .committed c => [c]
  | _ => []

/--
The shared state and the threads with their calls. The lists are the history: the calls in the orders in
which they were started, took their second effect, and came to their end.
-/
structure Phased (ι S C : Type) where
  shared : S
  pcs : ι → PhasePc C := fun _ => .idle
  started : List C := []
  order : List C := []
  finished : List C := []

inductive PhaseAction (ι C : Type) where
  | start (i : ι) (c : C)
  | first (i : ι)
  | second (i : ι)
  | finish (i : ι)
  deriving DecidableEq, Repr

namespace Phases

def serialCall (p : Phases S C K) (w : S) (c : C) : S := p.second c (p.first c w)

def owned (p : Phases S C K) (s : Phased ι S C) (a : PhaseAction ι C) : Prop :=
  match a with
  | .start _ c => ∀ j d, (s.pcs j).call = some d → p.key d ≠ p.key c
  | _ => True

instance [Fintype ι] [DecidableEq K] (p : Phases S C K) (s : Phased ι S C) (a : PhaseAction ι C) :
    Decidable (p.owned s a) := by
  cases a with
  | start _ c =>
    exact inferInstanceAs (Decidable (∀ j, ∀ d ∈ (s.pcs j).call, p.key d ≠ p.key c))
  | _ => exact isTrue trivial

def Apart (p : Phases S C K) (s : Phased ι S C) : Prop :=
  ∀ i j c d, i ≠ j → (s.pcs i).call = some c → (s.pcs j).call = some d → p.key c ≠ p.key d

def prepare (p : Phases S C K) (w : S) (pending : List (ι × C)) : S :=
  pending.foldl (fun w x => p.first x.2 w) w

variable {p : Phases S C K}

theorem first_prepare {pending : List (ι × C)} {c : C} (h : ∀ x ∈ pending, p.key c ≠ p.key x.2) (w : S) :
    p.first c (p.prepare w pending) = p.prepare (p.first c w) pending := by
  induction pending generalizing w with
  | nil => rfl
  | cons x pending ih =>
    have hx := h x (List.mem_cons_self ..)
    have hpending := fun y hy => h y (List.mem_cons_of_mem _ hy)
    simp only [prepare, List.foldl_cons] at ih ⊢
    rw [ih hpending, p.first_first hx]

theorem second_prepare {pending : List (ι × C)} {c : C} (h : ∀ x ∈ pending, p.key c ≠ p.key x.2) (w : S) :
    p.second c (p.prepare w pending) = p.prepare (p.second c w) pending := by
  induction pending generalizing w with
  | nil => rfl
  | cons x pending ih =>
    have hx := h x (List.mem_cons_self ..)
    have hpending := fun y hy => h y (List.mem_cons_of_mem _ hy)
    simp only [prepare, List.foldl_cons] at ih ⊢
    rw [ih hpending, p.second_first hx]

structure Pending (s : Phased ι S C) (pending : List (ι × C)) : Prop where
  nodup : (pending.map Prod.fst).Nodup
  mem : ∀ i c, (i, c) ∈ pending ↔ s.pcs i = .prepared c

def Serial (p : Phases S C K) (init : S) (s : Phased ι S C) : Prop :=
  ∃ pending, Pending s pending
    ∧ s.shared = p.prepare (s.order.foldl p.serialCall init) pending

theorem Apart.ne_of_mem {s : Phased ι S C} {pending : List (ι × C)} (hs : p.Apart s)
    (h : Pending s pending) {i : ι} {c : C} (hcall : (s.pcs i).call = some c) :
    ∀ x ∈ pending, x.1 ≠ i → p.key c ≠ p.key x.2 := by
  rintro ⟨j, d⟩ hx hj
  exact hs i j c d (Ne.symm hj) hcall (by rw [(h.mem j d).mp hx]; rfl)

variable [DecidableEq ι] (p)

def step (s : Phased ι S C) (a : PhaseAction ι C) : Option (Phased ι S C) :=
  match a with
  | .start i c =>
    match s.pcs i with
    | .idle => some { s with
        pcs := Function.update s.pcs i (.started c)
        started := s.started ++ [c] }
    | _ => none
  | .first i =>
    match s.pcs i with
    | .started c => some { s with
        shared := p.first c s.shared
        pcs := Function.update s.pcs i (.prepared c) }
    | _ => none
  | .second i =>
    match s.pcs i with
    | .prepared c => some { s with
        shared := p.second c s.shared
        pcs := Function.update s.pcs i (.committed c)
        order := s.order ++ [c] }
    | _ => none
  | .finish i =>
    match s.pcs i with
    | .committed c => some { s with
        pcs := Function.update s.pcs i .idle
        finished := s.finished ++ [c] }
    | _ => none

inductive Step (s : Phased ι S C) : PhaseAction ι C → Phased ι S C → Prop where
  | start {i : ι} {c : C} (hpc : s.pcs i = .idle) :
    Step s (.start i c) { s with
      pcs := Function.update s.pcs i (.started c)
      started := s.started ++ [c] }
  | first {i : ι} {c : C} (hpc : s.pcs i = .started c) :
    Step s (.first i) { s with
      shared := p.first c s.shared
      pcs := Function.update s.pcs i (.prepared c) }
  | second {i : ι} {c : C} (hpc : s.pcs i = .prepared c) :
    Step s (.second i) { s with
      shared := p.second c s.shared
      pcs := Function.update s.pcs i (.committed c)
      order := s.order ++ [c] }
  | finish {i : ι} {c : C} (hpc : s.pcs i = .committed c) :
    Step s (.finish i) { s with
      pcs := Function.update s.pcs i .idle
      finished := s.finished ++ [c] }

variable {p} {s s' : Phased ι S C} {a : PhaseAction ι C}

theorem Step.of_step (h : p.step s a = some s') : p.Step s a s' := by
  cases a with
  | start i c =>
    dsimp only [Phases.step] at h
    split at h
    . next hpc => cases h; exact .start hpc
    . contradiction
  | first i =>
    dsimp only [Phases.step] at h
    split at h
    . next hpc => cases h; exact .first hpc
    . contradiction
  | second i =>
    dsimp only [Phases.step] at h
    split at h
    . next hpc => cases h; exact .second hpc
    . contradiction
  | finish i =>
    dsimp only [Phases.step] at h
    split at h
    . next hpc => cases h; exact .finish hpc
    . contradiction

theorem exists_uninterrupted (p : Phases S C K) {i : ι} (hpc : s.pcs i = .idle) (c : C) :
    ∃ s₁ s₂ s₃ s', p.step s (.start i c) = some s₁ ∧ p.step s₁ (.first i) = some s₂
      ∧ p.step s₂ (.second i) = some s₃ ∧ p.step s₃ (.finish i) = some s'
      ∧ s'.shared = p.serialCall s.shared c ∧ s'.pcs = s.pcs ∧ s'.finished = s.finished ++ [c] := by
  let s₁ : Phased ι S C :=
    { s with pcs := Function.update s.pcs i (.started c), started := s.started ++ [c] }
  let s₂ : Phased ι S C :=
    { s₁ with shared := p.first c s.shared, pcs := Function.update s₁.pcs i (.prepared c) }
  let s₃ : Phased ι S C :=
    { s₂ with
      shared := p.serialCall s.shared c
      pcs := Function.update s₂.pcs i (.committed c)
      order := s.order ++ [c] }
  let s' : Phased ι S C :=
    { s₃ with pcs := Function.update s₃.pcs i .idle, finished := s.finished ++ [c] }
  refine ⟨s₁, s₂, s₃, s', ?_, ?_, ?_, ?_, rfl, ?_, rfl⟩
  . simp only [step, hpc, s₁]
  . simp only [step, Function.update_self, s₁, s₂]
  . simp only [step, Function.update_self, s₂, s₃, s₁]
    rfl
  . simp only [step, Function.update_self, s₃, s', s₂, s₁]
  . dsimp only [s', s₃, s₂, s₁]
    rw [Function.update_idem, Function.update_idem, Function.update_idem, ← hpc, Function.update_eq_self]

/-! No two calls with the same key are under way. -/

theorem call_update {pcs : ι → PhasePc C} {i j : ι} {pc : PhasePc C} {c : C}
    (hpc : pc.call = (pcs i).call) (h : (Function.update pcs i pc j).call = some c) :
    (pcs j).call = some c := by
  by_cases hj : j = i
  . rw [hj, Function.update_self, hpc] at h
    rw [hj, h]
  . rwa [Function.update_of_ne hj] at h

theorem Apart.step (hs : p.Apart s) (hguard : p.owned s a) (h : p.Step s a s') : p.Apart s' := by
  intro j k c d hjk hj hk
  cases h with
  | @start i c' hpc =>
    dsimp only at hj hk
    by_cases hji : j = i
    . subst hji
      rw [Function.update_self] at hj
      rw [Function.update_of_ne (Ne.symm hjk)] at hk
      cases hj
      exact (hguard k d hk).symm
    . rw [Function.update_of_ne hji] at hj
      by_cases hki : k = i
      . subst hki
        rw [Function.update_self] at hk
        cases hk
        exact hguard j c hj
      . rw [Function.update_of_ne hki] at hk
        exact hs j k c d hjk hj hk
  | first hpc =>
    exact hs j k c d hjk (call_update (by rw [hpc]; rfl) hj) (call_update (by rw [hpc]; rfl) hk)
  | second hpc =>
    exact hs j k c d hjk (call_update (by rw [hpc]; rfl) hj) (call_update (by rw [hpc]; rfl) hk)
  | @finish i c' hpc =>
    dsimp only at hj hk
    have hother : ∀ {l e}, (Function.update s.pcs i .idle l).call = some e →
        (s.pcs l).call = some e := by
      intro l e hl
      by_cases hli : l = i
      . rw [hli, Function.update_self] at hl
        contradiction
      . rwa [Function.update_of_ne hli] at hl
    exact hs j k c d hjk (hother hj) (hother hk)

/-! The shared state is that of a serial run, with the first effects of the calls under way on top. -/

theorem Pending.of_update {s : Phased ι S C} {pending : List (ι × C)} (h : Pending s pending) {i : ι}
    {pc : PhasePc C} (hold : ∀ c, s.pcs i ≠ .prepared c) (hnew : ∀ c, pc ≠ .prepared c)
    (hpcs : s'.pcs = Function.update s.pcs i pc) : Pending s' pending where
  nodup := h.nodup
  mem j c := by
    rw [h.mem j c, hpcs]
    by_cases hj : j = i
    . rw [hj, Function.update_self]
      exact ⟨fun hc => absurd hc (hold c), fun hc => absurd hc (hnew c)⟩
    . rw [Function.update_of_ne hj]

theorem Pending.concat {s : Phased ι S C} {pending : List (ι × C)} (h : Pending s pending) {i : ι} {c : C}
    (hold : ∀ c, s.pcs i ≠ .prepared c) (hpcs : s'.pcs = Function.update s.pcs i (.prepared c)) :
    Pending s' (pending ++ [(i, c)]) where
  nodup := by
    rw [List.map_append, List.map_singleton, List.nodup_append]
    refine ⟨h.nodup, List.nodup_singleton _, ?_⟩
    intro j hj k hk
    rw [List.mem_singleton.mp hk]
    rintro rfl
    rcases List.mem_map.mp hj with ⟨⟨_, d⟩, hd, rfl⟩
    exact hold d ((h.mem _ d).mp hd)
  mem j d := by
    rw [List.mem_append, List.mem_singleton, h.mem j d, hpcs, Prod.mk.injEq]
    by_cases hj : j = i
    . rw [hj, Function.update_self]
      simp only [hold d, false_or, true_and, PhasePc.prepared.injEq]
      exact eq_comm
    . rw [Function.update_of_ne hj]
      simp [hj]

theorem Pending.remove {s : Phased ι S C} {before after : List (ι × C)} {i : ι} {c : C}
    (h : Pending s (before ++ (i, c) :: after)) {pc : PhasePc C} (hnew : ∀ c, pc ≠ .prepared c)
    (hpcs : s'.pcs = Function.update s.pcs i pc) : Pending s' (before ++ after) := by
  have hnodup := h.nodup
  rw [List.map_append, List.map_cons] at hnodup
  have hcons := (List.nodup_middle.mp hnodup)
  rw [List.nodup_cons, ← List.map_append] at hcons
  refine ⟨hcons.2, fun j d => ?_⟩
  have hmem := h.mem j d
  rw [hpcs]
  by_cases hj : j = i
  . rw [hj, Function.update_self]
    refine ⟨fun hd => absurd (List.mem_map_of_mem hd) hcons.1, fun hd => absurd hd (hnew d)⟩
  . rw [Function.update_of_ne hj, ← hmem]
    simp [hj]

theorem Serial.step {init : S} (hs : p.Serial init s) (hapart : p.Apart s) (h : p.Step s a s') :
    p.Serial init s' := by
  rcases hs with ⟨pending, hpending, hshared⟩
  cases h with
  | start hpc =>
    exact ⟨pending, hpending.of_update (by simp [hpc]) (by simp) rfl, hshared⟩
  | @first i c hpc =>
    refine ⟨_, hpending.concat (by simp [hpc]) rfl, ?_⟩
    dsimp only
    rw [hshared, prepare, prepare, List.foldl_append]
    rfl
  | @second i c hpc =>
    -- The first effect of this call may be taken as the first of all, and so it meets the second one.
    rcases List.append_of_mem ((hpending.mem i c).mpr hpc) with ⟨before, after, rfl⟩
    refine ⟨before ++ after, hpending.remove (by simp) rfl, ?_⟩
    have hnodup := hpending.nodup
    rw [List.map_append, List.map_cons] at hnodup
    have hnot := (List.nodup_cons.mp (List.nodup_middle.mp hnodup)).1
    have hne : ∀ x ∈ before ++ after, p.key c ≠ p.key x.2 := by
      intro x hx
      refine hapart.ne_of_mem hpending (by rw [hpc]; rfl) x ?_ ?_
      . rcases List.mem_append.mp hx with hx | hx
        . exact List.mem_append_left _ hx
        . exact List.mem_append_right _ (List.mem_cons_of_mem _ hx)
      . rintro rfl
        rw [← List.map_append] at hnot
        exact hnot (List.mem_map.mpr ⟨x, hx, rfl⟩)
    have hbefore := fun x hx => hne x (List.mem_append_left _ hx)
    have hmove : ∀ w, p.prepare w (before ++ (i, c) :: after)
        = p.prepare (p.first c w) (before ++ after) := by
      intro w
      have hfirst := first_prepare hbefore w
      simp only [prepare, List.foldl_append, List.foldl_cons] at hfirst ⊢
      rw [hfirst]
    dsimp only
    rw [hshared, hmove, second_prepare hne, List.foldl_concat]
    rfl
  | finish hpc =>
    exact ⟨pending, hpending.of_update (by simp [hpc]) (by simp) rfl, hshared⟩

/-! For each key the three histories only differ by the call under way. -/

variable [DecidableEq K]

def ofKey (p : Phases S C K) (k : K) (calls : List C) : List C := calls.filter (fun c => p.key c = k)

theorem ofKey_concat (k : K) (calls : List C) (c : C) :
    p.ofKey k (calls ++ [c]) = p.ofKey k calls ++ if p.key c = k then [c] else [] := by
  unfold ofKey
  rw [List.filter_append, List.filter_singleton]
  by_cases hc : p.key c = k <;> simp [hc]

def OrderedFor (p : Phases S C K) (k : K) (s : Phased ι S C) : Prop :=
  (∃ i c, (s.pcs i).call = some c ∧ p.key c = k
      ∧ p.ofKey k s.started = p.ofKey k s.finished ++ [c]
      ∧ p.ofKey k s.order = p.ofKey k s.finished ++ (s.pcs i).effective)
    ∨ ((∀ i c, (s.pcs i).call = some c → p.key c ≠ k)
      ∧ p.ofKey k s.started = p.ofKey k s.finished ∧ p.ofKey k s.order = p.ofKey k s.finished)

def Ordered (p : Phases S C K) (s : Phased ι S C) : Prop := ∀ k, p.OrderedFor k s

theorem Ordered.of_update (hs : p.Ordered s) {i : ι} {pc : PhasePc C}
    (hpcs : s'.pcs = Function.update s.pcs i pc) {k : K}
    (hold : ∀ c, (s.pcs i).call = some c → p.key c ≠ k) (hnew : ∀ c, pc.call = some c → p.key c ≠ k)
    (hstarted : p.ofKey k s'.started = p.ofKey k s.started)
    (horder : p.ofKey k s'.order = p.ofKey k s.order)
    (hfinished : p.ofKey k s'.finished = p.ofKey k s.finished) : p.OrderedFor k s' := by
  unfold OrderedFor
  rw [hstarted, horder, hfinished, hpcs]
  rcases hs k with ⟨j, d, hj, hd, hactive⟩ | ⟨hnone, hquiet⟩
  . have hji : j ≠ i := by
      rintro rfl
      exact hold d hj hd
    left
    refine ⟨j, d, ?_, hd, ?_⟩
    . rwa [Function.update_of_ne hji]
    . rwa [Function.update_of_ne hji]
  . right
    refine ⟨fun j d hj => ?_, hquiet⟩
    by_cases hji : j = i
    . rw [hji, Function.update_self] at hj
      exact hnew d hj
    . rw [Function.update_of_ne hji] at hj
      exact hnone j d hj

theorem Ordered.of_call (hs : p.Ordered s) (hapart : p.Apart s) {i : ι} {c : C}
    (hcall : (s.pcs i).call = some c) :
    p.ofKey (p.key c) s.started = p.ofKey (p.key c) s.finished ++ [c]
      ∧ p.ofKey (p.key c) s.order = p.ofKey (p.key c) s.finished ++ (s.pcs i).effective := by
  rcases hs (p.key c) with ⟨j, d, hj, hd, hactive⟩ | ⟨hnone, _⟩
  . have hji : j = i := by
      by_contra hji
      exact hapart j i d c hji hj hcall hd
    subst hji
    rw [hcall] at hj
    cases hj
    exact hactive
  . exact absurd rfl (hnone i c hcall)

theorem Ordered.step (hs : p.Ordered s) (hapart : p.Apart s) (hguard : p.owned s a)
    (h : p.Step s a s') : p.Ordered s' := by
  intro k
  cases h with
  | @start i c hpc =>
    by_cases hk : p.key c = k
    . left
      rcases hs k with ⟨j, d, hj, hd, _⟩ | ⟨_, hstarted, horder⟩
      . exact absurd (hd.trans hk.symm) (hguard j d hj)
      . refine ⟨i, c, ?_, hk, ?_, ?_⟩
        . dsimp only
          rw [Function.update_self]
          rfl
        . rw [ofKey_concat, if_pos hk, hstarted]
        . dsimp only
          rw [Function.update_self, horder]
          exact (List.append_nil _).symm
    . refine hs.of_update rfl (by simp [hpc, PhasePc.call]) ?_ ?_ rfl rfl
      . intro d hd
        cases hd
        exact hk
      . rw [ofKey_concat, if_neg hk, List.append_nil]
  | @first i c hpc =>
    have hcall : (s.pcs i).call = some c := by rw [hpc]; rfl
    by_cases hk : p.key c = k
    . subst hk
      rcases hs.of_call hapart hcall with ⟨hstarted, horder⟩
      left
      refine ⟨i, c, ?_, rfl, hstarted, ?_⟩
      . dsimp only
        rw [Function.update_self]
        rfl
      . dsimp only
        rw [Function.update_self, horder, hpc]
        rfl
    . refine hs.of_update rfl ?_ ?_ rfl rfl rfl
      . intro d hd
        rw [hcall] at hd
        cases hd
        exact hk
      . intro d hd
        cases hd
        exact hk
  | @second i c hpc =>
    have hcall : (s.pcs i).call = some c := by rw [hpc]; rfl
    by_cases hk : p.key c = k
    . subst hk
      rcases hs.of_call hapart hcall with ⟨hstarted, horder⟩
      left
      refine ⟨i, c, ?_, rfl, hstarted, ?_⟩
      . dsimp only
        rw [Function.update_self]
        rfl
      . dsimp only
        rw [ofKey_concat, if_pos rfl, Function.update_self, horder, hpc]
        simp [PhasePc.effective]
    . refine hs.of_update rfl ?_ ?_ rfl ?_ rfl
      . intro d hd
        rw [hcall] at hd
        cases hd
        exact hk
      . intro d hd
        cases hd
        exact hk
      . rw [ofKey_concat, if_neg hk, List.append_nil]
  | @finish i c hpc =>
    have hcall : (s.pcs i).call = some c := by rw [hpc]; rfl
    by_cases hk : p.key c = k
    . subst hk
      rcases hs.of_call hapart hcall with ⟨hstarted, horder⟩
      right
      refine ⟨fun j d hj => ?_, ?_, ?_⟩
      . by_cases hji : j = i
        . dsimp only at hj
          rw [hji, Function.update_self] at hj
          contradiction
        . dsimp only at hj
          rw [Function.update_of_ne hji] at hj
          exact hapart j i d c hji hj hcall
      . rw [ofKey_concat, if_pos rfl, hstarted]
      . rw [ofKey_concat, if_pos rfl, horder, hpc]
        rfl
    . refine hs.of_update rfl ?_ nofun rfl rfl ?_
      . intro d hd
        rw [hcall] at hd
        cases hd
        exact hk
      . rw [ofKey_concat, if_neg hk, List.append_nil]

omit [DecidableEq ι] in
theorem Ordered.isPrefix (hs : p.Ordered s) (k : K) : p.ofKey k s.order <+: p.ofKey k s.started := by
  rcases hs k with ⟨i, c, hcall, _, hstarted, horder⟩ | ⟨_, hstarted, horder⟩
  . rw [hstarted, horder]
    apply (List.prefix_append_right_inj _).mpr
    cases hpc : s.pcs i with
    | committed d =>
      rw [hpc] at hcall
      cases hcall
      exact List.prefix_rfl
    | _ => exact List.nil_prefix
  . have heq : p.ofKey k s.order = p.ofKey k s.started := horder.trans hstarted.symm
    exact heq ▸ List.prefix_rfl

theorem Ordered.append_pending_isPrefix (hs : p.Ordered s) (hapart : p.Apart s) {pending : List (ι × C)}
    (hpending : Pending s pending) (k : K) :
    p.ofKey k s.order ++ p.ofKey k (pending.map Prod.snd) <+: p.ofKey k s.started := by
  by_cases hprepared : ∃ i c, s.pcs i = .prepared c ∧ p.key c = k
  . rcases hprepared with ⟨i, c, hpc, rfl⟩
    have hcall : (s.pcs i).call = some c := by rw [hpc]; rfl
    rcases hs.of_call hapart hcall with ⟨hstarted, horder⟩
    rcases List.append_of_mem ((hpending.mem i c).mpr hpc) with ⟨before, after, rfl⟩
    have hnodup := hpending.nodup
    rw [List.map_append, List.map_cons] at hnodup
    have hnot := (List.nodup_cons.mp (List.nodup_middle.mp hnodup)).1
    have hothers : ∀ xs : List (ι × C), (∀ x ∈ xs, x ∈ before ++ after) →
        p.ofKey (p.key c) (xs.map Prod.snd) = [] := by
      intro xs hxs
      apply List.filter_eq_nil_iff.mpr
      intro d hd hkey
      rcases List.mem_map.mp hd with ⟨x, hx, rfl⟩
      have hmem := hxs x hx
      refine hapart.ne_of_mem hpending hcall x ?_ ?_ (of_decide_eq_true hkey).symm
      . rcases List.mem_append.mp hmem with hmem | hmem
        . exact List.mem_append_left _ hmem
        . exact List.mem_append_right _ (List.mem_cons_of_mem _ hmem)
      . rintro rfl
        rw [← List.map_append] at hnot
        exact hnot (List.mem_map.mpr ⟨x, hmem, rfl⟩)
    have hbefore := hothers before (fun x hx => List.mem_append_left _ hx)
    have hafter := hothers after (fun x hx => List.mem_append_right _ hx)
    have hone : p.ofKey (p.key c) ((before ++ (i, c) :: after).map Prod.snd) = [c] := by
      unfold ofKey at hbefore hafter ⊢
      rw [List.map_append, List.map_cons, List.filter_append, List.filter_cons_of_pos (by simp), hbefore,
        hafter]
      rfl
    rw [hone, horder, hstarted, hpc]
    simp [PhasePc.effective]
  . have hnone : p.ofKey k (pending.map Prod.snd) = [] := by
      apply List.filter_eq_nil_iff.mpr
      intro c hc hkey
      rcases List.mem_map.mp hc with ⟨⟨i, d⟩, hd, rfl⟩
      exact hprepared ⟨i, d, (hpending.mem i d).mp hd, of_decide_eq_true hkey⟩
    rw [hnone, List.append_nil]
    exact hs.isPrefix k

theorem invariants_of_reaches {init : S}
    (h : Reaches p.step p.owned ({ shared := init } : Phased ι S C) s) :
    p.Apart s ∧ p.Serial init s ∧ p.Ordered s := by
  refine h.invariant (fun s => p.Apart s ∧ p.Serial init s ∧ p.Ordered s) ?_ ⟨?_, ?_, ?_⟩
  . rintro s a s' ⟨hapart, hserial, hordered⟩ hguard hstep
    have hstep := Step.of_step hstep
    exact ⟨hapart.step hguard hstep, hserial.step hapart hstep, hordered.step hapart hguard hstep⟩
  . intro i j c d _ hi
    contradiction
  . exact ⟨[], ⟨List.nodup_nil, by simp⟩, rfl⟩
  . exact fun k => .inr ⟨fun i c hi => by contradiction, rfl, rfl⟩

/--
Once all calls have come to their end, the shared state is the one that the calls leave when they are made
one after another in the order of their second effects. For each key this is the order in which they were
started, and the one in which they came to their end.
-/
theorem serial_of_reaches {init : S}
    (h : Reaches p.step p.owned ({ shared := init } : Phased ι S C) s) (hidle : ∀ i, s.pcs i = .idle) :
    s.shared = s.order.foldl p.serialCall init
      ∧ ∀ k, p.ofKey k s.started = p.ofKey k s.order ∧ p.ofKey k s.finished = p.ofKey k s.order := by
  rcases invariants_of_reaches h with ⟨_, ⟨pending, hpending, hshared⟩, hordered⟩
  constructor
  . have hnil : pending = [] := by
      apply List.eq_nil_iff_forall_not_mem.mpr
      rintro ⟨i, c⟩ hx
      have hprepared := (hpending.mem i c).mp hx
      rw [hidle i] at hprepared
      contradiction
    rw [hshared, hnil]
    rfl
  . intro k
    rcases hordered k with ⟨i, c, hi, _⟩ | ⟨_, hstarted, horder⟩
    . rw [hidle i] at hi
      contradiction
    . exact ⟨hstarted.trans horder.symm, horder.symm⟩

end Phases

end Transition
