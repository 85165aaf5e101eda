import NetOrc.Core.PoolRefinement

/-!
This module shows what the thread pool promises at the level of its single instructions.
-/

namespace NetOrc

open PoolCode
open Transition

variable {n : Nat} {γ τ : Type}

abbrev PoolState (n : Nat) (γ τ : Type) := Locked (PoolThread n γ) (PoolQueue τ) (PoolCode τ)

/--
The number of steps that are left until a thread sleeps or is done, where a task in the queue counts
seven of them, and a notification those of the threads that it wakes. `woken` bounds what `notify_all`
adds.
-/
def PoolCode.weight (n woken : Nat) (l : PoolCode τ) : Nat :=
  match l with
  | .worker .ready _ => 5
  | .worker .predicate _ => 4
  | .worker .blocking _ => 1
  | .worker .sleeping _ => 0
  | .worker .stopCheck _ => 3
  | .worker .returning _ => 1
  | .worker .front _ => 2
  | .worker (.pop _) _ => 1
  | .worker (.popped _) _ => 7
  | .worker (.running _) _ => 6
  | .worker .finished _ => 0
  | .caller .idle => 0
  | .caller (.start _) => 16
  | .caller (.emplace _) => 15
  | .caller .emplaced => 7
  | .caller .notifyOne => 6
  | .destructor .idle => 0
  | .destructor .start => woken + n + 4
  | .destructor .setStop => woken + n + 3
  | .destructor .stopSet => woken + n + 2
  | .destructor .notifyAll => woken + n + 1
  | .destructor (.joining k) => n - k

def PoolCode.holds [DecidableEq τ] (task : τ) (l : PoolCode τ) : Bool :=
  match l with
  | .worker (.popped task') _ => task' = task
  | .worker (.running task') _ => task' = task
  | _ => false

namespace PoolThread

/-! What a thread has done inside of its region. -/

theorem Inside.queue {q q' : PoolQueue τ} {l l' : PoolCode τ} (h : Inside q l q' l')
    (hq : q.popped ++ q.tasks = q.enqueued) : q'.popped ++ q'.tasks = q'.enqueued := by
  cases h with
  | @popped _ task _ htasks =>
    have hpop : (q.pop task).popped ++ (q.pop task).tasks = q.popped ++ q.tasks := by
      simp [PoolQueue.pop, htasks]
    exact hpop.trans hq
  | emplaced =>
    simp only [PoolQueue.enqueue]
    rw [← List.append_assoc, hq]
  | _ => exact hq

theorem Inside.balance [DecidableEq τ] {q q' : PoolQueue τ} {l l' : PoolCode τ} (h : Inside q l q' l')
    (task : τ) :
    l'.ranCount task = l.ranCount task
      ∧ q'.popped.count task + (l.holds task).toNat = q.popped.count task + (l'.holds task).toNat := by
  cases h with
  | @popped _ task' _ htasks =>
    refine ⟨rfl, ?_⟩
    simp only [PoolQueue.pop, List.count_append, List.count_singleton, PoolCode.holds]
    by_cases heq : task' = task <;> simp [heq]
  | _ => exact ⟨rfl, rfl⟩

theorem Inside.accepted {q q' : PoolQueue τ} {l l' : PoolCode τ} (h : Inside q l q' l')
    (hstop : q.stop = true) : q'.accepted = q.accepted ∧ q.enqueued <+: q'.enqueued := by
  cases h with
  | emplaced => exact ⟨if_pos hstop, List.prefix_append _ _⟩
  | _ => exact ⟨rfl, List.prefix_refl _⟩

theorem Inside.enabled {q q' : PoolQueue τ} {l l' : PoolCode τ} (h : Inside q l q' l') :
    q'.act l' ≠ none ∨ l'.unlock ≠ none := by
  cases h with
  | front htasks => exact .inl (by simp [PoolQueue.act, htasks])
  | blocking => exact .inr (Option.some_ne_none _)
  | returning => exact .inr (Option.some_ne_none _)
  | popped => exact .inr (Option.some_ne_none _)
  | emplaced => exact .inr (Option.some_ne_none _)
  | stopSet => exact .inr (Option.some_ne_none _)
  | _ => exact .inl (Option.some_ne_none _)

theorem Inside.weight_lt {q q₁ q₂ : PoolQueue τ} {l l₁ l₂ : PoolCode τ} (h : Inside q l q₁ l₁)
    (hact : q₁.act l₁ = some (q₂, l₂)) (n woken : Nat) :
    7 * q₂.tasks.length + l₂.weight n woken < 7 * q₁.tasks.length + l₁.weight n woken := by
  cases h with
  | predicate =>
    cases hact
    split <;> simp [PoolCode.weight]
  | stopCheck =>
    cases hact
    split <;> simp [PoolCode.weight]
  | front htasks =>
    simp only [PoolQueue.act, htasks, Option.some.injEq, Prod.mk.injEq] at hact
    rcases hact with ⟨rfl, rfl⟩
    simp [PoolCode.weight]
  | pop htasks =>
    cases hact
    simp only [PoolQueue.pop, PoolCode.weight, htasks, List.tail_cons, List.length_cons]
    omega
  | emplace =>
    cases hact
    simp only [PoolQueue.enqueue, PoolCode.weight, List.length_append, List.length_singleton]
    omega
  | setStop =>
    cases hact
    simp [PoolCode.weight]
  | _ => contradiction

theorem unlock_weight_lt {l l' : PoolCode τ} (h : l.unlock = some l') (n woken : Nat) :
    l'.weight n woken < l.weight n woken := by
  unfold PoolCode.unlock at h
  split at h <;> cases h <;> simp [PoolCode.weight]

theorem lock_weight_lt {l l' : PoolCode τ} (h : l.lock = some l') (n woken : Nat) :
    l'.weight n woken < l.weight n woken := by
  unfold PoolCode.lock at h
  split at h <;> cases h <;> simp [PoolCode.weight]

theorem weight_wake_le (n woken : Nat) (l : PoolCode τ) :
    l.wake.weight n woken ≤ l.weight n woken + 5 := by
  unfold PoolCode.wake
  split
  . exact Nat.le_refl _
  . exact Nat.le_add_right _ _

def woken (n : Nat) (γ : Type) [Fintype γ] : Nat := 5 * Fintype.card (PoolThread n γ)

theorem weights_wake_le [Fintype γ] (pcs : PoolThread n γ → PoolCode τ) :
    weights (PoolCode.weight n (woken n γ)) (fun j => (pcs j).wake)
      ≤
    weights (PoolCode.weight n (woken n γ)) pcs + woken n γ := by
  have hle := Finset.sum_le_sum (s := Finset.univ) (fun j _ => weight_wake_le n (woken n γ) (pcs j))
  rw [Finset.sum_add_distrib, Finset.sum_const, Finset.card_univ, Nat.nsmul_eq_mul, Nat.mul_comm] at hle
  exact hle

/-! Every state of a run. -/

theorem isInside_start (i : PoolThread n γ) : (start i : PoolCode τ).isInside = false := by
  cases i <;> rfl

variable [DecidableEq γ]

def init : PoolState n γ τ := ⟨{}, none, start⟩

abbrev step (s : PoolState n γ τ) (a : LockAction (PoolThread n γ) (PoolEvent n γ τ)) :
    Option (PoolState n γ τ) :=
  monitor.step s a

variable {s s' : PoolState n γ τ} {t : Atomic (PoolThread n γ) (PoolQueue τ) (PoolCode τ)}

theorem inside_of_simulates (h : monitor.Simulates s t) {i : PoolThread n γ} (hi : s.owner = some i) :
    Inside t.shared (t.pcs i) s.shared (s.pcs i) := by
  rcases (h.held i hi).holder with ⟨k, l, hlock, hacts⟩
  exact inside_of_acts hlock hacts

theorem pcs_of_simulates (h : monitor.Simulates s t) {i : PoolThread n γ} (hi : s.owner = some i) :
    s.pcs = Function.update t.pcs i (s.pcs i) := (h.held i hi).others

def isInternal (a : LockAction (PoolThread n γ) (PoolEvent n γ τ)) : Bool :=
  match a with
  | .outer (.enqueue _ _) => false
  | .outer (.spuriousWake _) => false
  | .outer .destroy => false
  | _ => true

/--
Nothing happens any more without a call or a spurious wakeup.
-/
def Quiescent (s : PoolState n γ τ) : Prop := ∀ a, isInternal a → step s a = none

theorem Quiescent.owner_eq_none (hs : Quiescent s) (hsim : monitor.Simulates s t) : s.owner = none := by
  cases howner : s.owner with
  | none => rfl
  | some i =>
    cases (inside_of_simulates hsim howner).enabled with
    | inl hact => exact absurd (Option.map_eq_none_iff.mp (hs (.act i) rfl)) hact
    | inr hunlock => exact absurd (Option.map_eq_none_iff.mp (hs (.unlock i) rfl)) hunlock

theorem Quiescent.not_outer (hs : Quiescent s) {event : PoolEvent n γ τ}
    {pcs : PoolThread n γ → PoolCode τ} (hinternal : isInternal (.outer event)) :
    ¬Outer s.pcs event pcs := by
  intro houter
  have hnone : outer s.pcs event = none := Option.map_eq_none_iff.mp (hs (.outer event) hinternal)
  rw [houter.outer_eq] at hnone
  contradiction

theorem front_defined (hsim : monitor.Simulates s t) {i : Fin n} {ran : List τ}
    (hpc : s.pcs (.worker i) = .worker .front ran) : s.shared.tasks ≠ [] := by
  have howner : s.owner = some (.worker i) := by
    refine (hsim.inside_iff _).mp ?_
    rw [hpc]
    rfl
  have hinside := inside_of_simulates hsim howner
  rw [hpc] at hinside
  generalize hq : s.shared = q at hinside
  generalize t.pcs (.worker i) = l at hinside
  cases hinside with
  | front htasks =>
    rw [htasks]
    exact List.cons_ne_nil _ _

variable [Fintype γ]

def rank (s : PoolState n γ τ) : Nat :=
  7 * s.shared.tasks.length + weights (PoolCode.weight n (woken n γ)) s.pcs

theorem weights_lt {pcs : PoolThread n γ → PoolCode τ} {i : PoolThread n γ} {l : PoolCode τ}
    (h : l.weight n (woken n γ) < (pcs i).weight n (woken n γ)) :
    weights (PoolCode.weight n (woken n γ)) (Function.update pcs i l)
      < weights (PoolCode.weight n (woken n γ)) pcs := by
  have hupdate := weights_update (PoolCode.weight n (woken n γ)) pcs i l
  omega

theorem Outer.weights_lt {pcs pcs' : PoolThread n γ → PoolCode τ} {event : PoolEvent n γ τ}
    (h : Outer pcs event pcs') (ha : isInternal (.outer event)) :
    weights (PoolCode.weight n (woken n γ)) pcs' < weights (PoolCode.weight n (woken n γ)) pcs := by
  cases h with
  | enqueue => contradiction
  | @notifyOne c i ran hpc hsleeping =>
    have hne : (.caller c : PoolThread n γ) ≠ .worker i := nofun
    have hwoken := weights_update (PoolCode.weight n (woken n γ)) pcs (.worker i) (.worker .ready ran)
    have hidle := weights_update (PoolCode.weight n (woken n γ))
      (Function.update pcs (.worker i) (.worker .ready ran)) (.caller c) (.caller .idle)
    rw [hsleeping] at hwoken
    rw [Function.update_of_ne hne, hpc] at hidle
    simp only [PoolCode.weight] at hwoken hidle
    omega
  | notifyNone hpc => exact PoolThread.weights_lt (by rw [hpc]; simp [PoolCode.weight])
  | spuriousWake => contradiction
  | run hpc => exact PoolThread.weights_lt (by rw [hpc]; simp [PoolCode.weight])
  | destroy => contradiction
  | notifyAll hpc =>
    have hle := weights_wake_le pcs
    have hupdate := weights_update (PoolCode.weight n (woken n γ)) (fun j => (pcs j).wake) .destructor
      (.destructor (.joining 0))
    have hwake : (pcs .destructor).wake = .destructor .notifyAll := by
      rw [hpc]
      rfl
    rw [hwake] at hupdate
    simp only [PoolCode.weight] at hupdate
    omega
  | @join i ran hpc =>
    refine PoolThread.weights_lt ?_
    rw [hpc]
    simp only [PoolCode.weight]
    omega

theorem rank_lt (hsim : monitor.Simulates s t) {a : LockAction (PoolThread n γ) (PoolEvent n γ τ)}
    (ha : isInternal a) (hstep : step s a = some s') : rank s' < rank s := by
  cases a with
  | lock i =>
    dsimp only [step, Monitor.step] at hstep
    split at hstep
    . rcases Option.map_eq_some_iff.mp hstep with ⟨l, hlock, rfl⟩
      exact Nat.add_lt_add_left (weights_lt (lock_weight_lt hlock _ _)) _
    . contradiction
  | act i =>
    rcases Option.map_eq_some_iff.mp hstep with ⟨⟨q, l⟩, hact, rfl⟩
    have howner := (hsim.inside_iff i).mp (monitor.act_inside hact).1
    have hlt := (inside_of_simulates hsim howner).weight_lt hact n (woken n γ)
    have hupdate := weights_update (PoolCode.weight n (woken n γ)) s.pcs i l
    unfold rank
    dsimp only
    omega
  | unlock i =>
    rcases Option.map_eq_some_iff.mp hstep with ⟨l, hunlock, rfl⟩
    exact Nat.add_lt_add_left (weights_lt (unlock_weight_lt hunlock _ _)) _
  | outer event =>
    rcases Option.map_eq_some_iff.mp hstep with ⟨pcs, houter, rfl⟩
    exact Nat.add_lt_add_left ((Outer.of_outer houter).weights_lt ha) _

theorem length_le_rank (hsim : monitor.Simulates s t)
    {as : List (LockAction (PoolThread n γ) (PoolEvent n γ τ))}
    (h : run step (fun _ a => isInternal a) s as = some s') : as.length ≤ rank s := by
  have hle := countP_le_of_run (fun s => ∃ t, monitor.Simulates s t) rank (fun _ => true) ?_ ⟨t, hsim⟩ h
  . rwa [List.countP_true] at hle
  . rintro s a s' ⟨t, hsim⟩ ha hstep
    rcases hsim.step hstep with ⟨t', _, hsim'⟩
    have hlt := rank_lt hsim ha hstep
    exact ⟨⟨t', hsim'⟩, hlt⟩

theorem threads_eq_workers {p : PoolCode τ → Bool} {pcs : PoolThread n γ → PoolCode τ}
    (hother : ∀ i, p (pcs i) = true → ∃ k, i = .worker k) :
    threads p pcs = threads p (fun k => pcs (.worker k)) := by
  have himage : Finset.univ.filter (fun i => p (pcs i) = true)
      = (Finset.univ.filter (fun k => p (pcs (.worker k)) = true)).image PoolThread.worker := by
    ext i
    simp only [Finset.mem_filter, Finset.mem_univ, true_and, Finset.mem_image]
    constructor
    . intro hi
      rcases hother i hi with ⟨k, rfl⟩
      exact ⟨k, hi, rfl⟩
    . rintro ⟨k, hk, rfl⟩
      exact hk
  rw [threads, himage, Finset.card_image_of_injective _ (fun _ _ h => PoolThread.worker.inj h)]
  rfl

variable [DecidableEq τ]

/--
What was accepted is run, each task as often as it was enqueued, in front of what came later.
-/
def AllRun (s : PoolState n γ τ) : Prop :=
  ∃ later, s.shared.accepted ++ later <+: s.shared.enqueued
    ∧ ∀ task, weights (ranCount task) s.pcs = (s.shared.accepted ++ later).count task

def Returned (s : PoolState n γ τ) : Prop := s.pcs .destructor = .destructor (.joining n)

/--
The pool whose regions are single steps has got to `e`, and `s` is at most one region ahead.
-/
structure Follows (s : PoolState n γ τ) (t : Atomic (PoolThread n γ) (PoolQueue τ) (PoolCode τ))
    (e : ThreadEnvironment n τ) : Prop where
  reaches : Reaches ThreadEnvironment.step (fun _ _ => True) {} e
  simulates : monitor.Simulates s t
  related : Related t e

theorem follows_of_reaches (h : Reaches step (fun _ _ => True) init s) : ∃ t e, Follows s t e := by
  rcases Monitor.simulates_of_reaches isInside_start h with ⟨t, ht, hsim⟩
  rcases related_of_reaches ht with ⟨e, he, hrelated⟩
  exact ⟨t, e, he, hsim, hrelated⟩

variable {e : ThreadEnvironment n τ}

theorem Follows.queue (h : Follows s t e) : s.shared.popped ++ s.shared.tasks = s.shared.enqueued := by
  rcases ThreadEnvironment.Reaches.keeps h.reaches with ⟨hordered, _, _⟩
  have hqueue : t.shared.popped ++ t.shared.tasks = t.shared.enqueued := by
    rw [h.related.queue]
    exact hordered.queue
  cases howner : s.owner with
  | none =>
    rw [(h.simulates.free howner).1]
    exact hqueue
  | some i => exact (inside_of_simulates h.simulates howner).queue hqueue

theorem Related.threads_holds (h : Related t e) (task : τ) :
    Transition.threads (PoolCode.holds task) t.pcs
      =
    Transition.threads (PoolPc.runs task) e.workers := by
  rw [threads_eq_workers]
  . have hholds : ∀ k, (t.pcs (.worker k)).holds task = (e.workers k).runs task := by
      intro k
      have hworker := h.threads.worker k
      generalize t.pcs (.worker k) = l, e.workers k = pc at hworker
      cases hworker <;> rfl
    simp only [Transition.threads, hholds]
  . intro i hi
    cases i with
    | worker k => exact ⟨k, rfl⟩
    | caller c =>
      rcases h.threads.caller c with ⟨pc, hpc⟩
      rw [hpc] at hi
      contradiction
    | destructor =>
      have hdestructor := h.threads.destructor
      generalize t.pcs .destructor = l, e.destructor = pc at hi hdestructor
      cases hdestructor <;> contradiction

theorem Follows.balance (h : Follows s t e) (task : τ) :
    weights (ranCount task) s.pcs + threads (PoolCode.holds task) s.pcs = s.shared.popped.count task := by
  have hbalance : weights (ranCount task) t.pcs + threads (PoolCode.holds task) t.pcs
      = t.shared.popped.count task := by
    rw [h.related.threads.ran, h.related.threads_holds, h.related.queue]
    exact ThreadEnvironment.Reaches.counted h.reaches task
  cases howner : s.owner with
  | none =>
    rcases h.simulates.free howner with ⟨hshared, hpcs⟩
    rw [hshared, hpcs]
    exact hbalance
  | some i =>
    have hinside := (inside_of_simulates h.simulates howner).balance task
    have hran := weights_update (ranCount task) t.pcs i (s.pcs i)
    have hholds := threads_update (p := PoolCode.holds task) t.pcs i (s.pcs i)
    rw [← pcs_of_simulates h.simulates howner] at hran hholds
    omega

/-! The pool comes to rest. -/

theorem Follows.quiescent (h : Follows s t e) (hs : Quiescent s) : e.Quiescent := by
  have hfree := hs.owner_eq_none h.simulates
  have hpcs := (h.simulates.free hfree).2
  have hthreads := h.related.threads
  rw [← hpcs] at hthreads
  have hnotifying : 0 < e.notifies → ∃ c, s.pcs (.caller c) = .caller .notifyOne := by
    intro hpos
    rw [← hthreads.notifies] at hpos
    rcases exists_of_threads_pos hpos with ⟨i, hi⟩
    cases i with
    | worker k =>
      rw [(hthreads.worker k).isNotifying] at hi
      contradiction
    | caller c =>
      rcases hthreads.caller c with ⟨pc, hpc⟩
      rw [hpc] at hi
      cases pc <;> first | exact ⟨c, hpc⟩ | contradiction
    | destructor =>
      rw [hthreads.destructor.isNotifying] at hi
      contradiction
  have hready : ∀ i, e.workers i ≠ .ready := by
    intro i hi
    have hworker := hthreads.worker i
    rw [hi] at hworker
    generalize hpc : s.pcs (.worker i) = l at hworker
    cases hworker
    have hlock := hs (.lock (.worker i)) rfl
    simp only [step, Monitor.step, hfree] at hlock
    have hnone := Option.map_eq_none_iff.mp hlock
    rw [hpc] at hnone
    contradiction
  intro a ha
  by_contra hsome
  rcases Option.ne_none_iff_exists'.mp hsome with ⟨e', hstep⟩
  cases ThreadEnvironment.Step.of_step hstep with
  | enqueue => contradiction
  | @notifyOne i hnotifies hpc =>
    rcases hnotifying hnotifies with ⟨c, hc⟩
    have hworker := hthreads.worker i
    rw [hpc] at hworker
    generalize hsleeping : s.pcs (.worker i) = l at hworker
    cases hworker
    exact hs.not_outer rfl (.notifyOne hc hsleeping)
  | notifyNone hnotifies hawake =>
    rcases hnotifying hnotifies with ⟨c, hc⟩
    refine hs.not_outer rfl (.notifyNone hc (fun i => ?_))
    rw [(hthreads.worker i).isSleeping_eq]
    exact hawake i
  | spuriousWake => contradiction
  | sleep hpc => exact hready _ hpc
  | finish hpc => exact hready _ hpc
  | pop hpc => exact hready _ hpc
  | @run i task hpc =>
    have hworker := hthreads.worker i
    rw [hpc] at hworker
    generalize hrunning : s.pcs (.worker i) = l at hworker
    cases hworker
    exact hs.not_outer rfl (.run hrunning)
  | setStop => contradiction
  | notifyAll hdestructor =>
    have hpc := hthreads.destructor
    rw [hdestructor] at hpc
    generalize hnotify : s.pcs .destructor = l at hpc
    cases hpc
    exact hs.not_outer rfl (.notifyAll hnotify)
  | @join i hdestructor hpc =>
    have hjoining := hthreads.destructor
    rw [hdestructor] at hjoining
    generalize hpc' : s.pcs .destructor = l at hjoining
    cases hjoining
    have hworker := hthreads.worker i
    rw [hpc] at hworker
    generalize hfinished : s.pcs (.worker i) = l at hworker
    cases hworker
    exact hs.not_outer rfl (.join hpc' hfinished)

theorem Follows.weights_ranCount (h : Follows s t e) (task : τ) :
    weights (ranCount task) s.pcs = e.ran.count task := by
  rw [← h.related.threads.ran task]
  cases howner : s.owner with
  | none => rw [(h.simulates.free howner).2]
  | some i =>
    have hinside := (inside_of_simulates h.simulates howner).balance task
    have hran := weights_update (ranCount task) t.pcs i (s.pcs i)
    rw [← pcs_of_simulates h.simulates howner] at hran
    omega

theorem Follows.allRun (h : Follows s t e) (hrest : e.stop = true ∨ s.owner = none) (hall : e.AllRun) :
    AllRun s := by
  have hqueue := h.related.queue
  have haccepted : s.shared.accepted = e.accepted ∧ e.enqueued <+: s.shared.enqueued := by
    cases howner : s.owner with
    | none =>
      rw [(h.simulates.free howner).1, hqueue]
      exact ⟨rfl, List.prefix_refl _⟩
    | some i =>
      have hinside := inside_of_simulates h.simulates howner
      rw [hqueue] at hinside
      exact hinside.accepted (hrest.resolve_right (by simp [howner]))
  rcases hall with ⟨later, hprefix, hperm⟩
  refine ⟨later, ?_, fun task => ?_⟩
  . rw [haccepted.1]
    exact hprefix.trans haccepted.2
  . rw [h.weights_ranCount, haccepted.1]
    exact hperm.count_eq task

theorem Follows.destructor_joining (h : Follows s t e) {k : Nat}
    (hpc : s.pcs .destructor = .destructor (.joining k)) : e.destructor = .joining k := by
  have hdestructor := h.related.threads.destructor
  have hsame : t.pcs .destructor = s.pcs .destructor := by
    cases howner : s.owner with
    | none => rw [(h.simulates.free howner).2]
    | some i =>
      have hne : .destructor ≠ i := by
        rintro rfl
        have hinside := (h.simulates.inside_iff _).mpr howner
        rw [hpc] at hinside
        contradiction
      rw [pcs_of_simulates h.simulates howner, Function.update_of_ne hne]
  rw [hsame, hpc] at hdestructor
  generalize he : e.destructor = pc at hdestructor
  cases hdestructor
  rfl

theorem Follows.finished (h : Follows s t e) {i : Fin n} (hpc : e.workers i = .finished) :
    ∃ ran, s.pcs (.worker i) = .worker .finished ran := by
  have hworker := h.related.threads.worker i
  rw [hpc] at hworker
  generalize hl : t.pcs (.worker i) = l at hworker
  cases hworker with
  | @finished ran =>
    refine ⟨ran, ?_⟩
    rw [← hl]
    cases howner : s.owner with
    | none => rw [(h.simulates.free howner).2]
    | some j =>
      have hne : .worker i ≠ j := by
        rintro rfl
        have hinside := inside_of_simulates h.simulates howner
        rw [hl] at hinside
        cases hinside
      rw [pcs_of_simulates h.simulates howner, Function.update_of_ne hne]

/--
Every task is in the queue, with the worker that popped it, or run, as often as it was enqueued, and
`front` is only called if there is a task. When the destructor has returned, the workers have run all
tasks from before `stop`. Left to itself the pool comes to rest, and then it has run them as well.
-/
theorem tasks_delivered (hn : 0 < n) (h : Reaches step (fun _ _ => True) init s) :
    (∀ i ran, s.pcs (.worker i) = .worker .front ran → s.shared.tasks ≠ [])
      ∧ s.shared.popped ++ s.shared.tasks = s.shared.enqueued
      ∧ (∀ task, weights (ranCount task) s.pcs + threads (PoolCode.holds task) s.pcs
        = s.shared.popped.count task)
      ∧ (Returned s → (∀ i, ∃ ran, s.pcs (.worker i) = .worker .finished ran) ∧ AllRun s)
      ∧ (∀ as s', run step (fun _ a => isInternal a) s as = some s' → as.length ≤ rank s)
      ∧ (Quiescent s → s.owner = none ∧ AllRun s ∧ (s.shared.stop = true → Returned s)) := by
  rcases follows_of_reaches h with ⟨t, e, hfollows⟩
  rcases ThreadEnvironment.Reaches.keeps hfollows.reaches with ⟨hordered, hstopping, hwatched⟩
  have hcounted := ThreadEnvironment.Reaches.counted hfollows.reaches
  refine ⟨fun i ran => front_defined hfollows.simulates, hfollows.queue, hfollows.balance, ?_,
    fun as s' => length_le_rank hfollows.simulates, ?_⟩
  . intro hreturned
    have hjoining := hfollows.destructor_joining hreturned
    have hstop : e.stop = true := hstopping.stop.mpr (by rw [hjoining]; nofun)
    rcases ThreadEnvironment.Returned.all hn hordered hcounted hstopping hjoining with ⟨hfinished, hall⟩
    exact ⟨fun i => hfollows.finished (hfinished i), hfollows.allRun (.inl hstop) hall⟩
  . intro hs
    have hfree := hs.owner_eq_none hfollows.simulates
    have hrest := (hfollows.quiescent hs).all hn hordered hcounted hstopping hwatched
    refine ⟨hfree, hfollows.allRun (.inr hfree) hrest.1, ?_⟩
    intro hstop
    rw [(hfollows.simulates.free hfree).1, hfollows.related.queue] at hstop
    have hreturned := hrest.2 hstop
    have hdestructor := hfollows.related.threads.destructor
    rw [← (hfollows.simulates.free hfree).2, hreturned] at hdestructor
    unfold Returned
    generalize s.pcs .destructor = l at hdestructor
    cases hdestructor
    rfl

def lateTask : List (LockAction (PoolThread 1 Unit) (PoolEvent 1 Unit Nat)) :=
  [.lock (.worker 0), .act (.worker 0), .unlock (.worker 0), .outer (.enqueue () 7), .lock (.caller ()),
    .outer .destroy, .act (.caller ())]

theorem tasks_delivered_lateTask :
    ∃ s : PoolState 1 Unit Nat, run step (fun _ _ => true) init lateTask = some s
      ∧ s.shared.tasks = [7] ∧ (Quiescent s → AllRun s) := by
  obtain ⟨s, hs, htasks⟩ : ∃ s : PoolState 1 Unit Nat,
      run step (fun _ _ => true) init lateTask = some s ∧ s.shared.tasks = [7] :=
    ⟨_, rfl, by decide +kernel⟩
  have hreaches : Reaches step (fun _ _ => True) init s :=
    (reaches_of_run hs).weaken (fun _ _ _ => trivial)
  exact ⟨s, hs, htasks, fun hq => ((tasks_delivered (by decide) hreaches).2.2.2.2.2 hq).2.1⟩

end PoolThread

end NetOrc
