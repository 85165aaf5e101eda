import Mathlib.Logic.Function.Basic
import NetOrc.Transition.Basic

/-!
This module contains threads that share a state under one mutex. Between `lock` and `unlock` a thread
takes as many steps as its code has, and the threads outside of the mutex go on meanwhile. It shows that
the regions under the mutex may be taken as single steps.
-/

namespace Transition

variable {ι Q L O : Type}

/--
The code of the threads: `lock` leads into a region, `act` takes a step inside of it and `unlock` leads
out. `outer` is a step outside of the mutex. It may see and change several threads, but for it a thread
inside of a region is one that still waits for the mutex.
-/
structure Monitor (ι Q L O : Type) [DecidableEq ι] where
  inside : L → Bool
  lock : L → Option L
  act : ι → Q → L → Option (Q × L)
  unlock : L → Option L
  outer : (ι → L) → O → Option (ι → L)
  lock_inside : ∀ {l l'}, lock l = some l' → inside l = false ∧ inside l' = true
  act_inside : ∀ {i q l q' l'}, act i q l = some (q', l') → inside l = true ∧ inside l' = true
  unlock_inside : ∀ {l l'}, unlock l = some l' → inside l = true ∧ inside l' = false
  outer_inside : ∀ {pcs o pcs'}, outer pcs o = some pcs' → ∀ i, inside (pcs' i) = inside (pcs i)
  outer_update : ∀ {pcs o pcs'}, outer pcs o = some pcs' → ∀ i, inside (pcs i) = true →
    pcs' i = pcs i
      ∧ ∀ l, (lock l).isSome → outer (Function.update pcs i l) o = some (Function.update pcs' i l)

structure Locked (ι Q L : Type) where
  shared : Q
  owner : Option ι := none
  pcs : ι → L

structure Atomic (ι Q L : Type) where
  shared : Q
  pcs : ι → L

inductive LockAction (ι O : Type) where
  | lock (i : ι)
  | act (i : ι)
  | unlock (i : ι)
  | outer (o : O)
  deriving DecidableEq, Repr

/--
`region i k` is a whole region of thread `i`, with `k` steps between `lock` and `unlock`.
-/
inductive RegionAction (ι O : Type) where
  | region (i : ι) (k : Nat)
  | outer (o : O)
  deriving DecidableEq, Repr

namespace Monitor

variable [DecidableEq ι] (m : Monitor ι Q L O)

def step (s : Locked ι Q L) (a : LockAction ι O) : Option (Locked ι Q L) :=
  match a with
  | .lock i =>
    match s.owner with
    | none => (m.lock (s.pcs i)).map (fun l =>
        { s with owner := some i, pcs := Function.update s.pcs i l })
    | some _ => none
  | .act i => (m.act i s.shared (s.pcs i)).map (fun p =>
      { s with shared := p.1, pcs := Function.update s.pcs i p.2 })
  | .unlock i => (m.unlock (s.pcs i)).map (fun l =>
      { s with owner := none, pcs := Function.update s.pcs i l })
  | .outer o => (m.outer s.pcs o).map (fun pcs => { s with pcs := pcs })

def acts (i : ι) (k : Nat) (q : Q) (l : L) : Option (Q × L) :=
  match k with
  | 0 => some (q, l)
  | k + 1 => (acts i k q l).bind (fun p => m.act i p.1 p.2)

def region (i : ι) (k : Nat) (q : Q) (l : L) : Option (Q × L) :=
  (m.lock l).bind (fun l =>
    (m.acts i k q l).bind (fun p => (m.unlock p.2).map (fun l => (p.1, l))))

def atomicStep (t : Atomic ι Q L) (a : RegionAction ι O) : Option (Atomic ι Q L) :=
  match a with
  | .region i k => (m.region i k t.shared (t.pcs i)).map (fun p =>
      ⟨p.1, Function.update t.pcs i p.2⟩)
  | .outer o => (m.outer t.pcs o).map (fun pcs => { t with pcs := pcs })

variable {m} {s s' : Locked ι Q L} {t t' : Atomic ι Q L}

theorem region_eq_some_iff {i : ι} {k : Nat} {q : Q} {l : L} {p : Q × L} :
    m.region i k q l = some p
      ↔
    ∃ l₁ l₂, m.lock l = some l₁ ∧ m.acts i k q l₁ = some (p.1, l₂) ∧ m.unlock l₂ = some p.2 := by
  unfold region
  constructor
  . intro h
    rcases Option.bind_eq_some_iff.mp h with ⟨l₁, hlock, h⟩
    rcases Option.bind_eq_some_iff.mp h with ⟨⟨q', l₂⟩, hacts, h⟩
    rcases Option.map_eq_some_iff.mp h with ⟨l₃, hunlock, rfl⟩
    exact ⟨l₁, l₂, hlock, hacts, hunlock⟩
  . rintro ⟨l₁, l₂, hlock, hacts, hunlock⟩
    rw [hlock, Option.bind_some, hacts, Option.bind_some, hunlock, Option.map_some]

theorem acts_inside {i : ι} {k : Nat} {q q' : Q} {l l' : L} (h : m.acts i k q l = some (q', l'))
    (hl : m.inside l = true) : m.inside l' = true := by
  cases k with
  | zero => cases h; exact hl
  | succ k =>
    rcases Option.bind_eq_some_iff.mp h with ⟨p, _, hact⟩
    exact (m.act_inside hact).2

/--
What the regions are as single steps, while one of them is in progress: `t` has not begun it.
-/
structure InRegion (m : Monitor ι Q L O) (s : Locked ι Q L) (t : Atomic ι Q L) (i : ι) : Prop where
  others : s.pcs = Function.update t.pcs i (s.pcs i)
  holder : ∃ k l, m.lock (t.pcs i) = some l ∧ m.acts i k t.shared l = some (s.shared, s.pcs i)

structure Simulates (m : Monitor ι Q L O) (s : Locked ι Q L) (t : Atomic ι Q L) : Prop where
  outside : ∀ i, m.inside (t.pcs i) = false
  free : s.owner = none → s.shared = t.shared ∧ s.pcs = t.pcs
  held : ∀ i, s.owner = some i → m.InRegion s t i

theorem InRegion.inside {i : ι} (h : m.InRegion s t i) : m.inside (s.pcs i) = true := by
  rcases h.holder with ⟨k, l, hlock, hacts⟩
  exact acts_inside hacts (m.lock_inside hlock).2

theorem Simulates.inside_iff (h : m.Simulates s t) (i : ι) :
    m.inside (s.pcs i) = true ↔ s.owner = some i := by
  cases howner : s.owner with
  | none =>
    rw [(h.free howner).2, h.outside i]
    simp
  | some j =>
    have hregion := h.held j howner
    by_cases hij : i = j
    . subst hij
      simp [hregion.inside]
    . rw [hregion.others, Function.update_of_ne hij, h.outside i]
      simp [Ne.symm hij]

theorem Simulates.lock {i : ι} {l : L} (h : m.Simulates s t) (howner : s.owner = none)
    (hlock : m.lock (s.pcs i) = some l) :
    m.Simulates { s with owner := some i, pcs := Function.update s.pcs i l } t := by
  rcases h.free howner with ⟨hshared, hpcs⟩
  refine ⟨h.outside, nofun, ?_⟩
  intro j hj
  cases hj
  constructor
  . dsimp only
    rw [Function.update_self, hpcs]
  . refine ⟨0, l, ?_, ?_⟩
    . rw [← hpcs]
      exact hlock
    . dsimp only
      rw [Function.update_self, hshared]
      rfl

theorem Simulates.act {i : ι} {p : Q × L} (h : m.Simulates s t)
    (hact : m.act i s.shared (s.pcs i) = some p) :
    m.Simulates { s with shared := p.1, pcs := Function.update s.pcs i p.2 } t := by
  have howner := (h.inside_iff i).mp (m.act_inside hact).1
  refine ⟨h.outside, fun hfree => ?_, fun j hj => ?_⟩
  . rw [howner] at hfree
    contradiction
  . rw [howner] at hj
    cases hj
    rcases h.held i howner with ⟨hothers, k, l, hlock, hacts⟩
    constructor
    . dsimp only
      rw [hothers, Function.update_idem, Function.update_self]
    . refine ⟨k + 1, l, hlock, ?_⟩
      dsimp only
      rw [acts, hacts, Option.bind_some, Function.update_self, hact]

theorem Simulates.unlock {i : ι} {l : L} (h : m.Simulates s t)
    (hunlock : m.unlock (s.pcs i) = some l) :
    ∃ k, m.atomicStep t (.region i k) = some ⟨s.shared, Function.update t.pcs i l⟩
      ∧ m.Simulates { s with owner := none, pcs := Function.update s.pcs i l }
        ⟨s.shared, Function.update t.pcs i l⟩ := by
  have hinside := m.unlock_inside hunlock
  have howner := (h.inside_iff i).mp hinside.1
  rcases h.held i howner with ⟨hothers, k, l₁, hlock, hacts⟩
  refine ⟨k, ?_, ?_, fun _ => ⟨rfl, ?_⟩, nofun⟩
  . have hregion : m.region i k t.shared (t.pcs i) = some (s.shared, l) :=
      region_eq_some_iff.mpr ⟨l₁, s.pcs i, hlock, hacts, hunlock⟩
    rw [atomicStep, hregion, Option.map_some]
  . intro j
    dsimp only
    by_cases hj : j = i
    . rw [hj, Function.update_self]
      exact hinside.2
    . rw [Function.update_of_ne hj]
      exact h.outside j
  . dsimp only
    rw [hothers, Function.update_idem]

theorem Simulates.outer {o : O} {pcs : ι → L} (h : m.Simulates s t)
    (houter : m.outer s.pcs o = some pcs) :
    ∃ t', m.atomicStep t (.outer o) = some t' ∧ m.Simulates { s with pcs := pcs } t' := by
  cases howner : s.owner with
  | none =>
    rcases h.free howner with ⟨hshared, hpcs⟩
    rw [hpcs] at houter
    refine ⟨⟨t.shared, pcs⟩, ?_, fun i => ?_, fun _ => ⟨hshared, rfl⟩, nofun⟩
    . rw [atomicStep, houter, Option.map_some]
    . rw [m.outer_inside houter i]
      exact h.outside i
  | some i =>
    have hregion := h.held i howner
    rcases m.outer_update houter i hregion.inside with ⟨hsame, hupdate⟩
    rcases hregion with ⟨hothers, k, l, hlock, hacts⟩
    have houter' := hupdate (t.pcs i) (Option.isSome_iff_exists.mpr ⟨l, hlock⟩)
    rw [hothers, Function.update_idem, Function.update_eq_self] at houter'
    refine ⟨⟨t.shared, Function.update pcs i (t.pcs i)⟩, ?_, fun j => ?_, nofun, fun j hj => ?_⟩
    . rw [atomicStep, houter', Option.map_some]
    . rw [m.outer_inside houter' j]
      exact h.outside j
    . cases hj
      refine ⟨?_, k, l, ?_, ?_⟩
      . dsimp only
        rw [Function.update_idem, Function.update_eq_self]
      . dsimp only
        rw [Function.update_self]
        exact hlock
      . dsimp only
        rw [hsame]
        exact hacts

theorem Simulates.step {a : LockAction ι O} (h : m.Simulates s t) (hstep : m.step s a = some s') :
    ∃ t', Reaches m.atomicStep (fun _ _ => True) t t' ∧ m.Simulates s' t' := by
  cases a with
  | lock i =>
    dsimp only [Monitor.step] at hstep
    split at hstep
    . next howner =>
      rcases Option.map_eq_some_iff.mp hstep with ⟨l, hlock, rfl⟩
      exact ⟨t, .refl, h.lock howner hlock⟩
    . contradiction
  | act i =>
    rcases Option.map_eq_some_iff.mp hstep with ⟨p, hact, rfl⟩
    exact ⟨t, .refl, h.act hact⟩
  | unlock i =>
    rcases Option.map_eq_some_iff.mp hstep with ⟨l, hunlock, rfl⟩
    rcases h.unlock hunlock with ⟨k, hregion, hsim⟩
    exact ⟨_, Next.reaches trivial hregion, hsim⟩
  | outer o =>
    rcases Option.map_eq_some_iff.mp hstep with ⟨pcs, houter, rfl⟩
    rcases h.outer houter with ⟨t', ht, hsim⟩
    exact ⟨t', Next.reaches trivial ht, hsim⟩

theorem simulates_of_reaches {q : Q} {pcs : ι → L} (hinit : ∀ i, m.inside (pcs i) = false)
    (h : Reaches m.step (fun _ _ => True) ⟨q, none, pcs⟩ s) :
    ∃ t, Reaches m.atomicStep (fun _ _ => True) ⟨q, pcs⟩ t ∧ m.Simulates s t := by
  have hsim : m.Simulates ⟨q, none, pcs⟩ ⟨q, pcs⟩ := ⟨hinit, fun _ => ⟨rfl, rfl⟩, nofun⟩
  refine h.invariant (fun s => ∃ t, Reaches m.atomicStep (fun _ _ => True) ⟨q, pcs⟩ t
    ∧ m.Simulates s t) ?_ ⟨⟨q, pcs⟩, .refl, hsim⟩
  rintro s a s' ⟨t, ht, hsim⟩ _ hstep
  rcases hsim.step hstep with ⟨t', ht', hsim'⟩
  exact ⟨t', ht.trans ht', hsim'⟩

/-! A region that is one step is also taken step by step. -/

theorem reaches_acts {i : ι} {q q' : Q} {pcs : ι → L} {l : L} {k : Nat} (owner : Option ι)
    (h : m.acts i k q (pcs i) = some (q', l)) :
    Reaches m.step (fun _ _ => True) ⟨q, owner, pcs⟩ ⟨q', owner, Function.update pcs i l⟩ := by
  induction k generalizing q' l with
  | zero =>
    cases h
    rw [Function.update_eq_self]
  | succ k ih =>
    rcases Option.bind_eq_some_iff.mp h with ⟨⟨q₁, l₁⟩, hacts, hact⟩
    refine (ih hacts).tail ⟨.act i, trivial, ?_⟩
    simp only [step, Function.update_self, hact, Option.map_some, Function.update_idem]

theorem reaches_region {a : RegionAction ι O} (h : m.atomicStep t a = some t') :
    Reaches m.step (fun _ _ => True) ⟨t.shared, none, t.pcs⟩ ⟨t'.shared, none, t'.pcs⟩ := by
  cases a with
  | region i k =>
    rcases Option.map_eq_some_iff.mp h with ⟨p, hregion, rfl⟩
    rcases region_eq_some_iff.mp hregion with ⟨l₁, l₂, hlock, hacts, hunlock⟩
    have hbegin : m.step ⟨t.shared, none, t.pcs⟩ (.lock i)
        = some ⟨t.shared, some i, Function.update t.pcs i l₁⟩ := by
      simp only [step, hlock, Option.map_some]
    have hend : m.step ⟨p.1, some i, Function.update t.pcs i l₂⟩ (.unlock i)
        = some ⟨p.1, none, Function.update t.pcs i p.2⟩ := by
      simp only [step, Function.update_self, hunlock, Option.map_some, Function.update_idem]
    have hmiddle : Reaches m.step (fun _ _ => True) ⟨t.shared, some i, Function.update t.pcs i l₁⟩
        ⟨p.1, some i, Function.update (Function.update t.pcs i l₁) i l₂⟩ :=
      reaches_acts (some i) (by rw [Function.update_self]; exact hacts)
    rw [Function.update_idem] at hmiddle
    exact (hmiddle.head ⟨_, trivial, hbegin⟩).tail ⟨_, trivial, hend⟩
  | outer o =>
    rcases Option.map_eq_some_iff.mp h with ⟨pcs, houter, rfl⟩
    refine Next.reaches (a := .outer o) trivial ?_
    simp only [step, houter, Option.map_some]

/--
The states in which the mutex is free are those of the system whose regions are single steps.
-/
theorem reaches_free_iff {q q' : Q} {pcs pcs' : ι → L} (hinit : ∀ i, m.inside (pcs i) = false) :
    Reaches m.step (fun _ _ => True) ⟨q, none, pcs⟩ ⟨q', none, pcs'⟩
      ↔
    Reaches m.atomicStep (fun _ _ => True) ⟨q, pcs⟩ ⟨q', pcs'⟩ := by
  constructor
  . intro h
    rcases simulates_of_reaches hinit h with ⟨t, ht, hsim⟩
    rcases hsim.free rfl with ⟨hshared, hpcs⟩
    dsimp only at hshared hpcs
    subst hshared hpcs
    exact ht
  . intro h
    exact Reaches.map (fun t : Atomic ι Q L => (⟨t.shared, none, t.pcs⟩ : Locked ι Q L))
      (fun t a t' _ hstep => reaches_region hstep) h

end Monitor

end Transition
