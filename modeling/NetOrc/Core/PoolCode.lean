import Mathlib.Data.Fintype.Sum
import NetOrc.Core.ThreadEnvironment
import NetOrc.Transition.Monitor

/-!
This module contains the code of the thread pool at the level of its single instructions: the loop of the
workers, `enqueue` and the destructor.
-/

namespace NetOrc

open Transition

variable {n : Nat} {γ τ : Type}

inductive PoolThread (n : Nat) (γ : Type) where
  | worker (i : Fin n)
  | caller (c : γ)
  | destructor
  deriving DecidableEq, Repr

def PoolThread.equivSum : PoolThread n γ ≃ Fin n ⊕ γ ⊕ Unit where
  toFun
    | .worker i => .inl i
    | .caller c => .inr (.inl c)
    | .destructor => .inr (.inr ())
  invFun
    | .inl i => .worker i
    | .inr (.inl c) => .caller c
    | .inr (.inr ()) => .destructor
  left_inv := by rintro (_ | _ | _) <;> rfl
  right_inv := by rintro (_ | _ | _) <;> rfl

instance poolThreadFintype [Fintype γ] : Fintype (PoolThread n γ) :=
  Fintype.ofEquiv _ PoolThread.equivSum.symm

/--
Where a worker is in its loop. `ready` waits for the mutex, at the top of the loop or after a wakeup. The
instructions from `predicate` to `popped` are under the mutex.
-/
inductive WorkerCode (τ : Type) where
  | ready
  | predicate
  | blocking
  | sleeping
  | stopCheck
  | returning
  | front
  | pop (task : τ)
  | popped (task : τ)
  | running (task : τ)
  | finished
  deriving DecidableEq, Repr

inductive EnqueueCode (τ : Type) where
  | idle
  | start (task : τ)
  | emplace (task : τ)
  | emplaced
  | notifyOne
  deriving DecidableEq, Repr

inductive DestructorCode where
  | idle
  | start
  | setStop
  | stopSet
  | notifyAll
  | joining (k : Nat)
  deriving DecidableEq, Repr

inductive PoolCode (τ : Type) where
  | worker (pc : WorkerCode τ) (ran : List τ)
  | caller (pc : EnqueueCode τ)
  | destructor (pc : DestructorCode)
  deriving DecidableEq, Repr

/--
What the mutex protects. The last three fields are the history, as in `ThreadEnvironment`.
-/
structure PoolQueue (τ : Type) where
  tasks : List τ := []
  stop : Bool := false
  enqueued : List τ := []
  accepted : List τ := []
  popped : List τ := []
  deriving DecidableEq, Repr

inductive PoolEvent (n : Nat) (γ τ : Type) where
  | enqueue (c : γ) (task : τ)
  | notifyOne (c : γ) (woken : Option (Fin n))
  | spuriousWake (i : Fin n)
  | run (i : Fin n)
  | destroy
  | notifyAll
  | join
  deriving DecidableEq, Repr

namespace PoolCode

def isInside (l : PoolCode τ) : Bool :=
  match l with
  | .worker .predicate _ => true
  | .worker .blocking _ => true
  | .worker .stopCheck _ => true
  | .worker .returning _ => true
  | .worker .front _ => true
  | .worker (.pop _) _ => true
  | .worker (.popped _) _ => true
  | .caller (.emplace _) => true
  | .caller .emplaced => true
  | .destructor .setStop => true
  | .destructor .stopSet => true
  | _ => false

def isSleeping (l : PoolCode τ) : Bool :=
  match l with
  | .worker .sleeping _ => true
  | _ => false

def isNotifying (l : PoolCode τ) : Bool :=
  match l with
  | .caller .notifyOne => true
  | _ => false

def wake (l : PoolCode τ) : PoolCode τ :=
  match l with
  | .worker .sleeping ran => .worker .ready ran
  | _ => l

def lock (l : PoolCode τ) : Option (PoolCode τ) :=
  match l with
  | .worker .ready ran => some (.worker .predicate ran)
  | .caller (.start task) => some (.caller (.emplace task))
  | .destructor .start => some (.destructor .setStop)
  | _ => none

def unlock (l : PoolCode τ) : Option (PoolCode τ) :=
  match l with
  | .worker .blocking ran => some (.worker .sleeping ran)
  | .worker .returning ran => some (.worker .finished ran)
  | .worker (.popped task) ran => some (.worker (.running task) ran)
  | .caller .emplaced => some (.caller .notifyOne)
  | .destructor .stopSet => some (.destructor .notifyAll)
  | _ => none

end PoolCode

namespace PoolQueue

def enqueue (q : PoolQueue τ) (task : τ) : PoolQueue τ :=
  { q with
    tasks := q.tasks ++ [task]
    enqueued := q.enqueued ++ [task]
    accepted := if q.stop then q.accepted else q.accepted ++ [task] }

def pop (q : PoolQueue τ) (task : τ) : PoolQueue τ :=
  { q with tasks := q.tasks.tail, popped := q.popped ++ [task] }

def act (q : PoolQueue τ) (l : PoolCode τ) : Option (PoolQueue τ × PoolCode τ) :=
  match l with
  | .worker .predicate ran =>
    some (q, .worker (if q.stop || !q.tasks.isEmpty then .stopCheck else .blocking) ran)
  | .worker .stopCheck ran =>
    some (q, .worker (if q.stop && q.tasks.isEmpty then .returning else .front) ran)
  | .worker .front ran =>
    match q.tasks with
    | [] => none
    | task :: _ => some (q, .worker (.pop task) ran)
  | .worker (.pop task) ran => some (q.pop task, .worker (.popped task) ran)
  | .caller (.emplace task) => some (q.enqueue task, .caller .emplaced)
  | .destructor .setStop => some ({ q with stop := true }, .destructor .stopSet)
  | _ => none

end PoolQueue

namespace PoolThread

variable {pcs pcs' : PoolThread n γ → PoolCode τ} {event : PoolEvent n γ τ}

theorem ne_of_isInside {i j : PoolThread n γ} {l : PoolCode τ} (hi : (pcs i).isInside = true)
    (hj : pcs j = l) (hl : l.isInside = false) : i ≠ j := by
  rintro rfl
  rw [hj, hl] at hi
  contradiction

variable [DecidableEq γ]

def outer (pcs : PoolThread n γ → PoolCode τ) (event : PoolEvent n γ τ) :
    Option (PoolThread n γ → PoolCode τ) :=
  match event with
  | .enqueue c task =>
    match pcs (.caller c) with
    | .caller .idle => some (Function.update pcs (.caller c) (.caller (.start task)))
    | _ => none
  | .notifyOne c (some i) =>
    match pcs (.caller c), pcs (.worker i) with
    | .caller .notifyOne, .worker .sleeping ran =>
      some (Function.update (Function.update pcs (.worker i) (.worker .ready ran)) (.caller c)
        (.caller .idle))
    | _, _ => none
  | .notifyOne c none =>
    match pcs (.caller c) with
    | .caller .notifyOne =>
      if ∀ i, ¬(pcs (.worker i)).isSleeping then
        some (Function.update pcs (.caller c) (.caller .idle))
      else
        none
    | _ => none
  | .spuriousWake i =>
    match pcs (.worker i) with
    | .worker .sleeping ran => some (Function.update pcs (.worker i) (.worker .ready ran))
    | _ => none
  | .run i =>
    match pcs (.worker i) with
    | .worker (.running task) ran =>
      some (Function.update pcs (.worker i) (.worker .ready (ran ++ [task])))
    | _ => none
  | .destroy =>
    match pcs .destructor with
    | .destructor .idle => some (Function.update pcs .destructor (.destructor .start))
    | _ => none
  | .notifyAll =>
    match pcs .destructor with
    | .destructor .notifyAll =>
      some (Function.update (fun j => (pcs j).wake) .destructor (.destructor (.joining 0)))
    | _ => none
  | .join =>
    match pcs .destructor with
    | .destructor (.joining k) =>
      if hk : k < n then
        match pcs (.worker ⟨k, hk⟩) with
        | .worker .finished _ =>
          some (Function.update pcs .destructor (.destructor (.joining (k + 1))))
        | _ => none
      else
        none
    | _ => none

inductive Outer (pcs : PoolThread n γ → PoolCode τ) :
    PoolEvent n γ τ → (PoolThread n γ → PoolCode τ) → Prop where
  | enqueue {c : γ} {task : τ} (hpc : pcs (.caller c) = .caller .idle) :
    Outer pcs (.enqueue c task) (Function.update pcs (.caller c) (.caller (.start task)))
  | notifyOne {c : γ} {i : Fin n} {ran : List τ} (hpc : pcs (.caller c) = .caller .notifyOne)
    (hsleeping : pcs (.worker i) = .worker .sleeping ran) :
    Outer pcs (.notifyOne c (some i))
      (Function.update (Function.update pcs (.worker i) (.worker .ready ran)) (.caller c) (.caller .idle))
  | notifyNone {c : γ} (hpc : pcs (.caller c) = .caller .notifyOne)
    (hawake : ∀ i, ¬(pcs (.worker i)).isSleeping) :
    Outer pcs (.notifyOne c none) (Function.update pcs (.caller c) (.caller .idle))
  | spuriousWake {i : Fin n} {ran : List τ} (hpc : pcs (.worker i) = .worker .sleeping ran) :
    Outer pcs (.spuriousWake i) (Function.update pcs (.worker i) (.worker .ready ran))
  | run {i : Fin n} {task : τ} {ran : List τ} (hpc : pcs (.worker i) = .worker (.running task) ran) :
    Outer pcs (.run i) (Function.update pcs (.worker i) (.worker .ready (ran ++ [task])))
  | destroy (hpc : pcs .destructor = .destructor .idle) :
    Outer pcs .destroy (Function.update pcs .destructor (.destructor .start))
  | notifyAll (hpc : pcs .destructor = .destructor .notifyAll) :
    Outer pcs .notifyAll
      (Function.update (fun j => (pcs j).wake) .destructor (.destructor (.joining 0)))
  | join {i : Fin n} {ran : List τ} (hpc : pcs .destructor = .destructor (.joining i))
    (hfinished : pcs (.worker i) = .worker .finished ran) :
    Outer pcs .join (Function.update pcs .destructor (.destructor (.joining (i + 1))))

theorem Outer.of_outer (h : outer pcs event = some pcs') : Outer pcs event pcs' := by
  unfold outer at h
  split at h
  . split at h
    . next hpc => cases h; exact .enqueue hpc
    . contradiction
  . split at h
    . next hpc hsleeping => cases h; exact .notifyOne hpc hsleeping
    . contradiction
  . split at h
    . next hpc =>
      split at h
      . next hawake => cases h; exact .notifyNone hpc hawake
      . contradiction
    . contradiction
  . split at h
    . next hpc => cases h; exact .spuriousWake hpc
    . contradiction
  . split at h
    . next hpc => cases h; exact .run hpc
    . contradiction
  . split at h
    . next hpc => cases h; exact .destroy hpc
    . contradiction
  . split at h
    . next hpc => cases h; exact .notifyAll hpc
    . contradiction
  . split at h
    . next k hpc =>
      split at h
      . next hk =>
        split at h
        . next hfinished => cases h; exact .join (i := ⟨k, hk⟩) hpc hfinished
        . contradiction
      . contradiction
    . contradiction

theorem Outer.outer_eq (h : Outer pcs event pcs') : outer pcs event = some pcs' := by
  unfold outer
  cases h with
  | enqueue hpc => simp only [hpc]
  | notifyOne hpc hsleeping => simp only [hpc, hsleeping]
  | notifyNone hpc hawake => simp only [hpc, if_pos hawake]
  | spuriousWake hpc => simp only [hpc]
  | run hpc => simp only [hpc]
  | destroy hpc => simp only [hpc]
  | notifyAll hpc => simp only [hpc]
  | @join i ran hpc hfinished => simp only [hpc, i.isLt, dite_true, hfinished]

/-! A thread inside of the mutex is one that waits for it, to the others. -/

theorem isInside_wake (l : PoolCode τ) : l.wake.isInside = l.isInside := by
  unfold PoolCode.wake
  split <;> rfl

theorem wake_of_isInside {l : PoolCode τ} (h : l.isInside = true) : l.wake = l := by
  unfold PoolCode.wake
  split
  . contradiction
  . rfl

theorem wake_of_lock {l : PoolCode τ} (h : l.lock.isSome) : l.wake = l := by
  unfold PoolCode.wake
  split
  . contradiction
  . rfl

theorem isInside_update {j : PoolThread n γ} {l : PoolCode τ} (h : l.isInside = (pcs j).isInside)
    (i : PoolThread n γ) : (Function.update pcs j l i).isInside = (pcs i).isInside := by
  by_cases hij : i = j
  . rw [hij, Function.update_self, h]
  . rw [Function.update_of_ne hij]

theorem Outer.isInside (h : Outer pcs event pcs') (j : PoolThread n γ) :
    (pcs' j).isInside = (pcs j).isInside := by
  cases h with
  | enqueue hpc => exact isInside_update (by rw [hpc]; rfl) j
  | @notifyOne c i ran hpc hsleeping =>
    have hwoken : ∀ j, (Function.update pcs (.worker i) (.worker .ready ran) j).isInside
        = (pcs j).isInside :=
      isInside_update (by rw [hsleeping]; rfl)
    rw [isInside_update ?_ j, hwoken j]
    rw [hwoken, hpc]
    rfl
  | notifyNone hpc => exact isInside_update (by rw [hpc]; rfl) j
  | spuriousWake hpc => exact isInside_update (by rw [hpc]; rfl) j
  | run hpc => exact isInside_update (by rw [hpc]; rfl) j
  | destroy hpc => exact isInside_update (by rw [hpc]; rfl) j
  | notifyAll hpc =>
    rw [isInside_update (by rw [hpc]; rfl) j, isInside_wake]
  | join hpc => exact isInside_update (by rw [hpc]; rfl) j

theorem Outer.update (h : Outer pcs event pcs') {i : PoolThread n γ} (hi : (pcs i).isInside = true)
    {l : PoolCode τ} (hl : l.lock.isSome) :
    pcs' i = pcs i ∧ Outer (Function.update pcs i l) event (Function.update pcs' i l) := by
  have hsame : ∀ {j l'}, pcs j = l' → l'.isInside = false → Function.update pcs i l j = l' := by
    intro j l' hj hl'
    rw [Function.update_of_ne (ne_of_isInside hi hj hl').symm, hj]
  cases h with
  | @enqueue c task hpc =>
    have hne := ne_of_isInside hi hpc rfl
    refine ⟨Function.update_of_ne hne _ _, ?_⟩
    rw [Function.update_comm hne.symm]
    exact .enqueue (hsame hpc rfl)
  | @notifyOne c k ran hpc hsleeping =>
    have hne := ne_of_isInside hi hpc rfl
    have hne' := ne_of_isInside hi hsleeping rfl
    constructor
    . rw [Function.update_of_ne hne, Function.update_of_ne hne']
    . rw [Function.update_comm hne.symm, Function.update_comm hne'.symm]
      exact .notifyOne (hsame hpc rfl) (hsame hsleeping rfl)
  | @notifyNone c hpc hawake =>
    have hne := ne_of_isInside hi hpc rfl
    refine ⟨Function.update_of_ne hne _ _, ?_⟩
    rw [Function.update_comm hne.symm]
    refine .notifyNone (hsame hpc rfl) (fun k => ?_)
    by_cases hk : .worker k = i
    . rw [hk, Function.update_self]
      intro hsleeping
      cases l with
      | worker pc ran => cases pc <;> contradiction
      | _ => contradiction
    . rw [Function.update_of_ne hk]
      exact hawake k
  | @spuriousWake k ran hpc =>
    have hne := ne_of_isInside hi hpc rfl
    refine ⟨Function.update_of_ne hne _ _, ?_⟩
    rw [Function.update_comm hne.symm]
    exact .spuriousWake (hsame hpc rfl)
  | @run k task ran hpc =>
    have hne := ne_of_isInside hi hpc rfl
    refine ⟨Function.update_of_ne hne _ _, ?_⟩
    rw [Function.update_comm hne.symm]
    exact .run (hsame hpc rfl)
  | destroy hpc =>
    have hne := ne_of_isInside hi hpc rfl
    refine ⟨Function.update_of_ne hne _ _, ?_⟩
    rw [Function.update_comm hne.symm]
    exact .destroy (hsame hpc rfl)
  | notifyAll hpc =>
    have hne := ne_of_isInside hi hpc rfl
    constructor
    . rw [Function.update_of_ne hne, wake_of_isInside hi]
    . have hwake : (fun j => (Function.update pcs i l j).wake)
          = Function.update (fun j => (pcs j).wake) i l := by
        have hcomp := Function.comp_update PoolCode.wake pcs i l
        rwa [wake_of_lock hl] at hcomp
      rw [Function.update_comm hne.symm, ← hwake]
      exact .notifyAll (hsame hpc rfl)
  | @join k ran hpc hfinished =>
    have hne := ne_of_isInside hi hpc rfl
    refine ⟨Function.update_of_ne hne _ _, ?_⟩
    rw [Function.update_comm hne.symm]
    exact .join (hsame hpc rfl) (hsame hfinished rfl)

theorem lock_isInside {l l' : PoolCode τ} (h : l.lock = some l') :
    l.isInside = false ∧ l'.isInside = true := by
  unfold PoolCode.lock at h
  split at h <;> cases h <;> exact ⟨rfl, rfl⟩

theorem unlock_isInside {l l' : PoolCode τ} (h : l.unlock = some l') :
    l.isInside = true ∧ l'.isInside = false := by
  unfold PoolCode.unlock at h
  split at h <;> cases h <;> exact ⟨rfl, rfl⟩

theorem act_isInside {q q' : PoolQueue τ} {l l' : PoolCode τ} (h : q.act l = some (q', l')) :
    l.isInside = true ∧ l'.isInside = true := by
  unfold PoolQueue.act at h
  split at h
  . cases h
    split <;> exact ⟨rfl, rfl⟩
  . cases h
    split <;> exact ⟨rfl, rfl⟩
  . split at h <;> cases h
    exact ⟨rfl, rfl⟩
  . cases h; exact ⟨rfl, rfl⟩
  . cases h; exact ⟨rfl, rfl⟩
  . cases h; exact ⟨rfl, rfl⟩
  . contradiction

def monitor : Monitor (PoolThread n γ) (PoolQueue τ) (PoolCode τ) (PoolEvent n γ τ) where
  inside := PoolCode.isInside
  lock := PoolCode.lock
  act := fun _ => PoolQueue.act
  unlock := PoolCode.unlock
  outer := outer
  lock_inside := lock_isInside
  act_inside := act_isInside
  unlock_inside := unlock_isInside
  outer_inside h := (Outer.of_outer h).isInside
  outer_update h i hi := by
    have hupdate := fun l hl => (Outer.of_outer h).update hi (l := l) hl
    exact ⟨(hupdate (.destructor .start) rfl).1, fun l hlock => (hupdate l hlock).2.outer_eq⟩

/-! A whole region. -/

inductive Inside (q : PoolQueue τ) : PoolCode τ → PoolQueue τ → PoolCode τ → Prop where
  | predicate {ran : List τ} : Inside q (.worker .ready ran) q (.worker .predicate ran)
  | blocking {ran : List τ} (hstop : q.stop = false) (htasks : q.tasks = []) :
    Inside q (.worker .ready ran) q (.worker .blocking ran)
  | stopCheck {ran : List τ} (h : q.stop = true ∨ q.tasks ≠ []) :
    Inside q (.worker .ready ran) q (.worker .stopCheck ran)
  | returning {ran : List τ} (hstop : q.stop = true) (htasks : q.tasks = []) :
    Inside q (.worker .ready ran) q (.worker .returning ran)
  | front {ran : List τ} {task : τ} {tasks : List τ} (htasks : q.tasks = task :: tasks) :
    Inside q (.worker .ready ran) q (.worker .front ran)
  | pop {ran : List τ} {task : τ} {tasks : List τ} (htasks : q.tasks = task :: tasks) :
    Inside q (.worker .ready ran) q (.worker (.pop task) ran)
  | popped {ran : List τ} {task : τ} {tasks : List τ} (htasks : q.tasks = task :: tasks) :
    Inside q (.worker .ready ran) (q.pop task) (.worker (.popped task) ran)
  | emplace {task : τ} : Inside q (.caller (.start task)) q (.caller (.emplace task))
  | emplaced {task : τ} : Inside q (.caller (.start task)) (q.enqueue task) (.caller .emplaced)
  | setStop : Inside q (.destructor .start) q (.destructor .setStop)
  | stopSet : Inside q (.destructor .start) { q with stop := true } (.destructor .stopSet)

theorem inside_of_lock {q : PoolQueue τ} {l l' : PoolCode τ} (h : l.lock = some l') :
    Inside q l q l' := by
  unfold PoolCode.lock at h
  split at h
  . cases h; exact .predicate
  . cases h; exact .emplace
  . cases h; exact .setStop
  . contradiction

theorem Inside.act {q q₁ q₂ : PoolQueue τ} {l l₁ l₂ : PoolCode τ} (h : Inside q l q₁ l₁)
    (hact : q₁.act l₁ = some (q₂, l₂)) : Inside q l q₂ l₂ := by
  cases h with
  | predicate =>
    cases hact
    split
    . next h =>
      rw [Bool.or_eq_true, Bool.not_eq_true', List.isEmpty_eq_false_iff] at h
      exact .stopCheck h
    . next h =>
      rw [Bool.or_eq_true, Bool.not_eq_true', List.isEmpty_eq_false_iff, not_or, not_not] at h
      exact .blocking (Bool.not_eq_true _ ▸ h.1) h.2
  | stopCheck h =>
    cases hact
    split
    . next hexit =>
      rw [Bool.and_eq_true, List.isEmpty_iff] at hexit
      exact .returning hexit.1 hexit.2
    . next hexit =>
      rw [Bool.and_eq_true, List.isEmpty_iff] at hexit
      cases htasks : q.tasks with
      | nil => exact absurd ⟨h.resolve_right (not_not.mpr htasks), htasks⟩ hexit
      | cons task tasks => exact .front htasks
  | front htasks =>
    simp only [PoolQueue.act, htasks, Option.some.injEq, Prod.mk.injEq] at hact
    rcases hact with ⟨rfl, rfl⟩
    exact .pop htasks
  | pop htasks =>
    cases hact
    exact .popped htasks
  | emplace =>
    cases hact
    exact .emplaced
  | setStop =>
    cases hact
    exact .stopSet
  | _ => contradiction

theorem inside_of_acts {i : PoolThread n γ} {q q' : PoolQueue τ} {l l₁ l₂ : PoolCode τ} {k : Nat}
    (hlock : l.lock = some l₁) (h : monitor.acts i k q l₁ = some (q', l₂)) : Inside q l q' l₂ := by
  induction k generalizing q' l₂ with
  | zero =>
    cases h
    exact inside_of_lock hlock
  | succ k ih =>
    rcases Option.bind_eq_some_iff.mp h with ⟨⟨q₁, l'⟩, hacts, hact⟩
    exact (ih hacts).act hact

inductive Region (q : PoolQueue τ) : PoolCode τ → PoolQueue τ → PoolCode τ → Prop where
  | sleep {ran : List τ} (hstop : q.stop = false) (htasks : q.tasks = []) :
    Region q (.worker .ready ran) q (.worker .sleeping ran)
  | finish {ran : List τ} (hstop : q.stop = true) (htasks : q.tasks = []) :
    Region q (.worker .ready ran) q (.worker .finished ran)
  | pop {ran : List τ} {task : τ} {tasks : List τ} (htasks : q.tasks = task :: tasks) :
    Region q (.worker .ready ran) (q.pop task) (.worker (.running task) ran)
  | enqueue {task : τ} : Region q (.caller (.start task)) (q.enqueue task) (.caller .notifyOne)
  | setStop : Region q (.destructor .start) { q with stop := true } (.destructor .notifyAll)

theorem region_cases {i : PoolThread n γ} {q q' : PoolQueue τ} {l l' : PoolCode τ} {k : Nat}
    (h : monitor.region i k q l = some (q', l')) : Region q l q' l' := by
  rcases Monitor.region_eq_some_iff.mp h with ⟨l₁, l₂, hlock, hacts, hunlock⟩
  dsimp only [monitor] at hlock hacts hunlock
  cases inside_of_acts hlock hacts with
  | blocking hstop htasks =>
    cases hunlock
    exact .sleep hstop htasks
  | returning hstop htasks =>
    cases hunlock
    exact .finish hstop htasks
  | popped htasks =>
    cases hunlock
    exact .pop htasks
  | emplaced =>
    cases hunlock
    exact .enqueue
  | stopSet =>
    cases hunlock
    exact .setStop
  | _ => contradiction

end PoolThread

end NetOrc
