import Mathlib.Data.List.Count
import Mathlib.Order.Fin.Basic
import NetOrc.Transition.Basic
import NetOrc.Transition.Threads

/-!
This module contains the thread pool: workers that sleep on a condition variable until a task is queued
or the destructor stops them. A step is a region under the mutex, or a notification, which comes after
the mutex is released.
-/

namespace NetOrc

open Transition

variable {n : Nat} {τ : Type}

inductive PoolPc (τ : Type) where
  | ready
  | sleeping
  | running (task : τ)
  | finished
  deriving DecidableEq, Repr

namespace PoolPc

def isReady (pc : PoolPc τ) : Bool :=
  match pc with
  | .ready => true
  | _ => false

def isSleeping (pc : PoolPc τ) : Bool :=
  match pc with
  | .sleeping => true
  | _ => false

def isRunning (pc : PoolPc τ) : Bool :=
  match pc with
  | .running _ => true
  | _ => false

def isFinished (pc : PoolPc τ) : Bool :=
  match pc with
  | .finished => true
  | _ => false

def runs [DecidableEq τ] (task : τ) (pc : PoolPc τ) : Bool :=
  match pc with
  | .running task' => task' = task
  | _ => false

def wake (pc : PoolPc τ) : PoolPc τ :=
  match pc with
  | .sleeping => .ready
  | _ => pc

end PoolPc

/--
Where `~ThreadEnvironment` is. `joining k` has joined the first `k` workers.
-/
inductive DestructorPc where
  | uncalled
  | notifying
  | joining (k : Nat)
  deriving DecidableEq, Repr

/--
`notifies` counts the `enqueue` calls that have released the mutex and not notified yet. The last four
fields are the history: the tasks of all `enqueue` calls, of those before `stop` was set, of all pops,
and of all runs that are over.
-/
structure ThreadEnvironment (n : Nat) (τ : Type) where
  tasks : List τ := []
  stop : Bool := false
  workers : Fin n → PoolPc τ := fun _ => .ready
  notifies : Nat := 0
  destructor : DestructorPc := .uncalled
  enqueued : List τ := []
  accepted : List τ := []
  popped : List τ := []
  ran : List τ := []

inductive PoolAction (n : Nat) (τ : Type) where
  | enqueue (task : τ)
  | notifyOne (woken : Option (Fin n))
  | spuriousWake (i : Fin n)
  | wait (i : Fin n)
  | run (i : Fin n)
  | setStop
  | notifyAll
  | join
  deriving DecidableEq, Repr

def PoolAction.isInternal (a : PoolAction n τ) : Bool :=
  match a with
  | .notifyOne _ => true
  | .wait _ => true
  | .run _ => true
  | .notifyAll => true
  | .join => true
  | _ => false

namespace ThreadEnvironment

def setWorker (s : ThreadEnvironment n τ) (i : Fin n) (pc : PoolPc τ) : ThreadEnvironment n τ :=
  { s with workers := Function.update s.workers i pc }

def waitAndPop (s : ThreadEnvironment n τ) (i : Fin n) : Option (ThreadEnvironment n τ) :=
  if !(s.stop || !s.tasks.isEmpty) then
    some (s.setWorker i .sleeping)
  else if s.stop && s.tasks.isEmpty then
    some (s.setWorker i .finished)
  else
    match s.tasks with
    | [] => none
    | task :: tasks =>
      some { s with
        tasks := tasks
        workers := Function.update s.workers i (.running task)
        popped := s.popped ++ [task] }

def step (s : ThreadEnvironment n τ) (a : PoolAction n τ) : Option (ThreadEnvironment n τ) :=
  match a with
  | .enqueue task =>
    some { s with
      tasks := s.tasks ++ [task]
      notifies := s.notifies + 1
      enqueued := s.enqueued ++ [task]
      accepted := if s.stop then s.accepted else s.accepted ++ [task] }
  | .notifyOne (some i) =>
    if 0 < s.notifies ∧ (s.workers i).isSleeping then
      some { s with notifies := s.notifies - 1, workers := Function.update s.workers i .ready }
    else
      none
  | .notifyOne none =>
    if 0 < s.notifies ∧ ∀ i, ¬(s.workers i).isSleeping then
      some { s with notifies := s.notifies - 1 }
    else
      none
  | .spuriousWake i => if (s.workers i).isSleeping then some (s.setWorker i .ready) else none
  | .wait i => if (s.workers i).isReady then s.waitAndPop i else none
  | .run i =>
    match s.workers i with
    | .running task =>
      some { s with workers := Function.update s.workers i .ready, ran := s.ran ++ [task] }
    | _ => none
  | .setStop =>
    if s.destructor = .uncalled then
      some { s with stop := true, destructor := .notifying }
    else
      none
  | .notifyAll =>
    if s.destructor = .notifying then
      some { s with workers := fun i => (s.workers i).wake, destructor := .joining 0 }
    else
      none
  | .join =>
    match s.destructor with
    | .joining k =>
      if hk : k < n then
        if (s.workers ⟨k, hk⟩).isFinished then
          some { s with destructor := .joining (k + 1) }
        else
          none
      else
        none
    | _ => none

inductive Step (s : ThreadEnvironment n τ) : PoolAction n τ → ThreadEnvironment n τ → Prop where
  | enqueue {task : τ} :
    Step s (.enqueue task) { s with
      tasks := s.tasks ++ [task]
      notifies := s.notifies + 1
      enqueued := s.enqueued ++ [task]
      accepted := if s.stop then s.accepted else s.accepted ++ [task] }
  | notifyOne {i : Fin n} (hnotifies : 0 < s.notifies) (hpc : s.workers i = .sleeping) :
    Step s (.notifyOne (some i))
      { s with notifies := s.notifies - 1, workers := Function.update s.workers i .ready }
  | notifyNone (hnotifies : 0 < s.notifies) (hawake : ∀ i, ¬(s.workers i).isSleeping) :
    Step s (.notifyOne none) { s with notifies := s.notifies - 1 }
  | spuriousWake {i : Fin n} (hpc : s.workers i = .sleeping) :
    Step s (.spuriousWake i) (s.setWorker i .ready)
  | sleep {i : Fin n} (hpc : s.workers i = .ready) (hstop : s.stop = false)
    (htasks : s.tasks = []) :
    Step s (.wait i) (s.setWorker i .sleeping)
  | finish {i : Fin n} (hpc : s.workers i = .ready) (hstop : s.stop = true)
    (htasks : s.tasks = []) :
    Step s (.wait i) (s.setWorker i .finished)
  | pop {i : Fin n} {task : τ} {tasks : List τ} (hpc : s.workers i = .ready)
    (htasks : s.tasks = task :: tasks) :
    Step s (.wait i) { s with
      tasks := tasks
      workers := Function.update s.workers i (.running task)
      popped := s.popped ++ [task] }
  | run {i : Fin n} {task : τ} (hpc : s.workers i = .running task) :
    Step s (.run i)
      { s with workers := Function.update s.workers i .ready, ran := s.ran ++ [task] }
  | setStop (hdestructor : s.destructor = .uncalled) :
    Step s .setStop { s with stop := true, destructor := .notifying }
  | notifyAll (hdestructor : s.destructor = .notifying) :
    Step s .notifyAll
      { s with workers := fun i => (s.workers i).wake, destructor := .joining 0 }
  | join {i : Fin n} (hdestructor : s.destructor = .joining i) (hpc : s.workers i = .finished) :
    Step s .join { s with destructor := .joining (i + 1) }

theorem isReady_iff {pc : PoolPc τ} : pc.isReady ↔ pc = .ready := by
  cases pc <;> simp [PoolPc.isReady]

theorem isSleeping_iff {pc : PoolPc τ} : pc.isSleeping ↔ pc = .sleeping := by
  cases pc <;> simp [PoolPc.isSleeping]

theorem isFinished_iff {pc : PoolPc τ} : pc.isFinished ↔ pc = .finished := by
  cases pc <;> simp [PoolPc.isFinished]

theorem Step.of_waitAndPop {s s' : ThreadEnvironment n τ} {i : Fin n} (hpc : s.workers i = .ready)
    (h : s.waitAndPop i = some s') : Step s (.wait i) s' := by
  unfold waitAndPop at h
  split at h
  . next hwait =>
    simp only [Bool.not_eq_true', Bool.or_eq_false_iff, Bool.not_eq_false', List.isEmpty_iff] at hwait
    cases h
    exact .sleep hpc hwait.1 hwait.2
  . split at h
    . next hexit =>
      simp only [Bool.and_eq_true, List.isEmpty_iff] at hexit
      cases h
      exact .finish hpc hexit.1 hexit.2
    . split at h
      . contradiction
      . next task tasks htasks =>
        cases h
        exact .pop hpc htasks

theorem Step.of_step {s s' : ThreadEnvironment n τ} {a : PoolAction n τ} (h : s.step a = some s') :
    Step s a s' := by
  cases a with
  | enqueue task =>
    cases h
    exact .enqueue
  | notifyOne woken =>
    cases woken with
    | none =>
      simp only [step] at h
      split at h
      . next hguard => cases h; exact .notifyNone hguard.1 hguard.2
      . contradiction
    | some i =>
      simp only [step] at h
      split at h
      . next hguard => cases h; exact .notifyOne hguard.1 (isSleeping_iff.mp hguard.2)
      . contradiction
  | spuriousWake i =>
    simp only [step] at h
    split at h
    . next hpc => cases h; exact .spuriousWake (isSleeping_iff.mp hpc)
    . contradiction
  | wait i =>
    simp only [step] at h
    split at h
    . next hpc => exact .of_waitAndPop (isReady_iff.mp hpc) h
    . contradiction
  | run i =>
    simp only [step] at h
    split at h
    . next task hpc => cases h; exact .run hpc
    . contradiction
  | setStop =>
    simp only [step] at h
    split at h
    . next hdestructor => cases h; exact .setStop hdestructor
    . contradiction
  | notifyAll =>
    simp only [step] at h
    split at h
    . next hdestructor => cases h; exact .notifyAll hdestructor
    . contradiction
  | join =>
    simp only [step] at h
    split at h
    . next k hdestructor =>
      split at h
      . next hk =>
        split at h
        . next hpc => cases h; exact .join (i := ⟨k, hk⟩) hdestructor (isFinished_iff.mp hpc)
        . contradiction
      . contradiction
    . contradiction

theorem Step.step_eq {s s' : ThreadEnvironment n τ} {a : PoolAction n τ}
    (h : Step s a s') : s.step a = some s' := by
  unfold ThreadEnvironment.step
  cases h with
  | enqueue => rfl
  | notifyOne hnotifies hpc => simp [hnotifies, hpc, PoolPc.isSleeping]
  | notifyNone hnotifies hawake => rw [if_pos ⟨hnotifies, hawake⟩]
  | spuriousWake hpc => simp [hpc, PoolPc.isSleeping]
  | sleep hpc hstop htasks => simp [hpc, PoolPc.isReady, waitAndPop, hstop, htasks]
  | finish hpc hstop htasks => simp [hpc, PoolPc.isReady, waitAndPop, hstop, htasks]
  | pop hpc htasks => simp [hpc, PoolPc.isReady, waitAndPop, htasks]
  | run hpc => simp only [hpc]
  | setStop hdestructor => simp only [hdestructor, if_true]
  | notifyAll hdestructor => simp only [hdestructor, if_true]
  | @join i hdestructor hpc => simp [hdestructor, hpc, PoolPc.isFinished]

/-! What every state satisfies. -/

theorem finished_of_update {workers : Fin n → PoolPc τ} {i j : Fin n} {pc : PoolPc τ}
    (hpc : pc ≠ .finished) (h : Function.update workers i pc j = .finished) :
    workers j = .finished := by
  by_cases hj : j = i
  . rw [hj, Function.update_self] at h
    contradiction
  . rwa [Function.update_of_ne hj] at h

theorem update_finished {workers : Fin n → PoolPc τ} {i j : Fin n} (pc : PoolPc τ)
    (hi : workers i ≠ .finished) (hj : workers j = .finished) :
    Function.update workers i pc j = .finished := by
  have hne : j ≠ i := by
    rintro rfl
    exact hi hj
  rwa [Function.update_of_ne hne]

theorem wake_eq_finished_iff {pc : PoolPc τ} : pc.wake = .finished ↔ pc = .finished := by
  cases pc <;> simp [PoolPc.wake]

/--
The queue is what is enqueued and not popped, and a worker leaves only when everything accepted is
popped.
-/
structure Ordered (s : ThreadEnvironment n τ) : Prop where
  queue : s.popped ++ s.tasks = s.enqueued
  accepted : s.accepted <+: s.enqueued
  open_accepts : s.stop = false → s.accepted = s.enqueued
  finished : ∀ i, s.workers i = .finished → s.stop = true ∧ s.accepted <+: s.popped

theorem Ordered.step {s s' : ThreadEnvironment n τ} {a : PoolAction n τ} (h : s.Ordered)
    (hstep : Step s a s') : s'.Ordered := by
  rcases h with ⟨hqueue, haccepted, hopen, hfinished⟩
  cases hstep with
  | enqueue =>
    refine ⟨?_, ?_, ?_, ?_⟩
    . rw [← List.append_assoc, hqueue]
    . dsimp only
      split
      . exact haccepted.trans (List.prefix_append _ _)
      . next hstop => rw [hopen (by simpa using hstop)]
    . intro hstop
      dsimp only at hstop ⊢
      rw [if_neg (by simp [hstop]), hopen hstop]
    . intro i hi
      have hi := hfinished i hi
      dsimp only
      rw [if_pos hi.1]
      exact hi
  | notifyOne hnotifies hpc =>
    refine ⟨hqueue, haccepted, hopen, ?_⟩
    intro j hj
    exact hfinished j (finished_of_update (by simp) hj)
  | notifyNone => exact ⟨hqueue, haccepted, hopen, hfinished⟩
  | spuriousWake hpc =>
    refine ⟨hqueue, haccepted, hopen, ?_⟩
    intro j hj
    exact hfinished j (finished_of_update (by simp) hj)
  | sleep hpc hstop htasks =>
    refine ⟨hqueue, haccepted, hopen, ?_⟩
    intro j hj
    exact hfinished j (finished_of_update (by simp) hj)
  | finish hpc hstop htasks =>
    refine ⟨hqueue, haccepted, hopen, ?_⟩
    -- nothing is queued, so everything that was enqueued is popped
    have hall : s.popped = s.enqueued := by rw [← hqueue, htasks, List.append_nil]
    intro j hj
    exact ⟨hstop, hall ▸ haccepted⟩
  | @pop i task tasks hpc htasks =>
    refine ⟨?_, haccepted, hopen, ?_⟩
    . rw [← hqueue, htasks, List.append_assoc, List.singleton_append]
    . intro j hj
      have hj : s.workers j = .finished := finished_of_update (by simp) hj
      exact ⟨(hfinished j hj).1, (hfinished j hj).2.trans (List.prefix_append _ _)⟩
  | run hpc =>
    refine ⟨hqueue, haccepted, hopen, ?_⟩
    intro j hj
    exact hfinished j (finished_of_update (by simp) hj)
  | setStop hdestructor =>
    refine ⟨hqueue, haccepted, ?_, ?_⟩
    . intro hstop
      contradiction
    . intro j hj
      exact ⟨rfl, (hfinished j hj).2⟩
  | notifyAll hdestructor =>
    refine ⟨hqueue, haccepted, hopen, ?_⟩
    intro j hj
    exact hfinished j (wake_eq_finished_iff.mp hj)
  | join => exact ⟨hqueue, haccepted, hopen, hfinished⟩

def Counted [DecidableEq τ] (s : ThreadEnvironment n τ) : Prop :=
  ∀ task, s.ran.count task + threads (PoolPc.runs task) s.workers = s.popped.count task

theorem threads_runs_update [DecidableEq τ] (task : τ) {workers : Fin n → PoolPc τ} {i : Fin n}
    {pc pc' : PoolPc τ} (hpc : workers i = pc) (hruns : pc'.runs task = pc.runs task) :
    threads (PoolPc.runs task) (Function.update workers i pc')
      =
    threads (PoolPc.runs task) workers := by
  apply threads_update_of_eq
  rw [hpc, hruns]

theorem count_append_runs [DecidableEq τ] (tasks : List τ) (task task' : τ) :
    (tasks ++ [task']).count task = tasks.count task + ((PoolPc.running task').runs task).toNat := by
  rw [List.count_append, List.count_singleton, beq_eq_decide, PoolPc.runs]
  cases decide (task' = task) <;> rfl

theorem Counted.step [DecidableEq τ] {s s' : ThreadEnvironment n τ} {a : PoolAction n τ}
    (h : s.Counted) (hstep : Step s a s') : s'.Counted := by
  intro task
  have hcount := h task
  cases hstep with
  | enqueue => exact hcount
  | notifyOne hnotifies hpc =>
    exact (congrArg (s.ran.count task + ·) (threads_runs_update task hpc (by rfl))).trans hcount
  | notifyNone => exact hcount
  | spuriousWake hpc =>
    exact (congrArg (s.ran.count task + ·) (threads_runs_update task hpc (by rfl))).trans hcount
  | sleep hpc hstop htasks =>
    exact (congrArg (s.ran.count task + ·) (threads_runs_update task hpc (by rfl))).trans hcount
  | finish hpc hstop htasks =>
    exact (congrArg (s.ran.count task + ·) (threads_runs_update task hpc (by rfl))).trans hcount
  | @pop i task' tasks hpc htasks =>
    have hthreads := threads_update (p := PoolPc.runs task) s.workers i (.running task')
    rw [hpc] at hthreads
    have hready : ((PoolPc.ready : PoolPc τ).runs task).toNat = 0 := rfl
    dsimp only
    rw [count_append_runs, ← hcount]
    omega
  | @run i task' hpc =>
    have hthreads := threads_update (p := PoolPc.runs task) s.workers i .ready
    rw [hpc] at hthreads
    have hready : ((PoolPc.ready : PoolPc τ).runs task).toNat = 0 := rfl
    dsimp only
    rw [count_append_runs, ← hcount]
    omega
  | setStop => exact hcount
  | notifyAll hdestructor =>
    have hwake : ∀ pc : PoolPc τ, pc.wake.runs task = pc.runs task := by
      intro pc
      cases pc <;> rfl
    unfold threads at hcount ⊢
    simp only [hwake]
    exact hcount
  | join => exact hcount

structure Stopping (s : ThreadEnvironment n τ) : Prop where
  stop : s.stop = true ↔ s.destructor ≠ .uncalled
  joined : ∀ k, s.destructor = .joining k → k ≤ n ∧ ∀ i : Fin n, i < k → s.workers i = .finished

theorem Step.finished {s s' : ThreadEnvironment n τ} {a : PoolAction n τ} (hstep : Step s a s')
    {j : Fin n} (hj : s.workers j = .finished) : s'.workers j = .finished := by
  cases hstep with
  | enqueue => exact hj
  | notifyOne _ hpc => exact update_finished _ (by simp [hpc]) hj
  | notifyNone => exact hj
  | spuriousWake hpc => exact update_finished _ (by simp [hpc]) hj
  | sleep hpc => exact update_finished _ (by simp [hpc]) hj
  | finish hpc => exact update_finished _ (by simp [hpc]) hj
  | pop hpc => exact update_finished _ (by simp [hpc]) hj
  | run hpc => exact update_finished _ (by simp [hpc]) hj
  | setStop => exact hj
  | notifyAll => exact wake_eq_finished_iff.mpr hj
  | join => exact hj

theorem Stopping.step {s s' : ThreadEnvironment n τ} {a : PoolAction n τ} (h : s.Stopping)
    (hstep : Step s a s') : s'.Stopping := by
  rcases h with ⟨hstop, hjoined⟩
  have hfinished : ∀ k, s.destructor = .joining k →
      k ≤ n ∧ ∀ i : Fin n, i < k → s'.workers i = .finished := by
    intro k hk
    refine ⟨(hjoined k hk).1, ?_⟩
    intro i hi
    exact hstep.finished ((hjoined k hk).2 i hi)
  cases hstep with
  | enqueue => exact ⟨hstop, hfinished⟩
  | notifyOne => exact ⟨hstop, hfinished⟩
  | notifyNone => exact ⟨hstop, hfinished⟩
  | spuriousWake => exact ⟨hstop, hfinished⟩
  | sleep => exact ⟨hstop, hfinished⟩
  | finish => exact ⟨hstop, hfinished⟩
  | pop => exact ⟨hstop, hfinished⟩
  | run => exact ⟨hstop, hfinished⟩
  | setStop => exact ⟨by simp, by simp⟩
  | notifyAll hdestructor =>
    refine ⟨?_, ?_⟩
    . simp [hstop, hdestructor]
    . intro k hk
      cases hk
      exact ⟨Nat.zero_le n, fun i hi => absurd hi (Nat.not_lt_zero _)⟩
  | @join i hdestructor hpc =>
    refine ⟨?_, ?_⟩
    . simp [hstop, hdestructor]
    . intro k hk
      cases hk
      refine ⟨i.isLt, ?_⟩
      intro j hj
      by_cases hji : j = i
      . rw [hji]
        exact hpc
      . exact (hfinished i hdestructor).2 j (by omega)

/--
While a worker sleeps, each queued task is matched by a notification to come or by a worker that is
about to look at the queue, and a stop by `notify_all` to come.
-/
structure Watched (s : ThreadEnvironment n τ) : Prop where
  tasks : (∃ i, s.workers i = .sleeping) → s.tasks.length ≤ s.notifies + threads PoolPc.isReady s.workers
  stop : (∃ i, s.workers i = .sleeping) → s.stop = true → s.destructor = .notifying

theorem exists_sleeping_of_update {workers : Fin n → PoolPc τ} {i : Fin n} {pc : PoolPc τ}
    (hpc : pc ≠ .sleeping) (h : ∃ j, Function.update workers i pc j = .sleeping) :
    ∃ j, workers j = .sleeping := by
  rcases h with ⟨j, hj⟩
  by_cases hji : j = i
  . rw [hji, Function.update_self] at hj
    contradiction
  . rw [Function.update_of_ne hji] at hj
    exact ⟨j, hj⟩

theorem Watched.woken {s s' : ThreadEnvironment n τ} (h : s.Watched) {i : Fin n}
    (hpc : s.workers i = .sleeping) (hworkers : s'.workers = Function.update s.workers i .ready)
    (htasks : s'.tasks = s.tasks) (hnotifies : s.notifies ≤ s'.notifies + 1) (hstop : s'.stop = s.stop)
    (hdestructor : s'.destructor = s.destructor) : s'.Watched := by
  have hthreads := threads_update (p := PoolPc.isReady) s.workers i .ready
  simp only [hpc, PoolPc.isReady, Bool.toNat_false, Bool.toNat_true] at hthreads
  apply Watched.mk
  . intro _
    have hle := h.tasks ⟨i, hpc⟩
    rw [htasks, hworkers]
    omega
  . intro _ hstopped
    rw [hdestructor]
    rw [hstop] at hstopped
    exact h.stop ⟨i, hpc⟩ hstopped

theorem Watched.moves {s s' : ThreadEnvironment n τ} (h : s.Watched) {i : Fin n} {pc : PoolPc τ}
    (hworkers : s'.workers = Function.update s.workers i pc) (hpc : pc ≠ .sleeping)
    (htasks : s'.tasks.length + (s.workers i).isReady.toNat ≤ s.tasks.length + pc.isReady.toNat)
    (hnotifies : s'.notifies = s.notifies) (hstop : s'.stop = s.stop)
    (hdestructor : s'.destructor = s.destructor) : s'.Watched := by
  have hthreads := threads_update (p := PoolPc.isReady) s.workers i pc
  apply Watched.mk
  . intro hsleeping
    rw [hworkers] at hsleeping
    have hle := h.tasks (exists_sleeping_of_update hpc hsleeping)
    rw [hworkers, hnotifies]
    omega
  . intro hsleeping
    rw [hworkers] at hsleeping
    rw [hstop, hdestructor]
    exact h.stop (exists_sleeping_of_update hpc hsleeping)

theorem Watched.step {s s' : ThreadEnvironment n τ} {a : PoolAction n τ} (h : s.Watched)
    (hstep : Step s a s') : s'.Watched := by
  have htasks := h.tasks
  have hstop := h.stop
  cases hstep with
  | enqueue =>
    refine ⟨?_, hstop⟩
    intro hsleeping
    have hle := htasks hsleeping
    simp only [List.length_append, List.length_singleton]
    omega
  | notifyOne hnotifies hpc => exact h.woken hpc rfl rfl (by dsimp only; omega) rfl rfl
  | notifyNone hnotifies hawake =>
    have hnone : ¬∃ i, s.workers i = .sleeping := by
      rintro ⟨i, hi⟩
      exact hawake i (isSleeping_iff.mpr hi)
    exact ⟨fun hsleeping => absurd hsleeping hnone, fun hsleeping => absurd hsleeping hnone⟩
  | spuriousWake hpc => exact h.woken hpc rfl rfl (Nat.le_succ _) rfl rfl
  | sleep hpc hopen hempty =>
    apply Watched.mk
    . intro _
      dsimp only [setWorker]
      rw [hempty]
      exact Nat.zero_le _
    . intro _ hstopped
      rw [setWorker, hopen] at hstopped
      contradiction
  | finish hpc hstopped hempty =>
    apply Watched.mk
    . intro _
      dsimp only [setWorker]
      rw [hempty]
      exact Nat.zero_le _
    . intro hsleeping
      exact hstop (exists_sleeping_of_update (by simp) hsleeping)
  | @pop i task tasks hpc hqueue =>
    refine h.moves rfl (by simp) ?_ rfl rfl rfl
    simp only [hpc, hqueue, PoolPc.isReady, List.length_cons, Bool.toNat_true, Bool.toNat_false,
      Nat.add_zero, Nat.le_refl]
  | @run i task hpc =>
    refine h.moves rfl (by simp) ?_ rfl rfl rfl
    simp only [hpc, PoolPc.isReady, Bool.toNat_true, Bool.toNat_false]
    omega
  | setStop hdestructor => exact ⟨htasks, fun _ _ => rfl⟩
  | notifyAll hdestructor =>
    have hnone : ¬∃ i, (s.workers i).wake = .sleeping := by
      rintro ⟨i, hi⟩
      cases hpc : s.workers i <;> rw [hpc] at hi <;> contradiction
    exact ⟨fun hsleeping => absurd hsleeping hnone, fun hsleeping => absurd hsleeping hnone⟩
  | @join i hdestructor hpc =>
    refine ⟨htasks, ?_⟩
    intro hsleeping hstopped
    -- a sleeping worker is one that `notify_all` has not woken
    rw [hstop hsleeping hstopped] at hdestructor
    contradiction

theorem Reaches.keeps {s : ThreadEnvironment n τ}
    (h : Reaches step (fun _ _ => True) ({} : ThreadEnvironment n τ) s) :
    s.Ordered ∧ s.Stopping ∧ s.Watched := by
  apply h.invariant (fun s => s.Ordered ∧ s.Stopping ∧ s.Watched)
  . rintro s a s' ⟨hordered, hstopping, hwatched⟩ _ hstep
    have hstep := Step.of_step hstep
    exact ⟨hordered.step hstep, hstopping.step hstep, hwatched.step hstep⟩
  . refine ⟨⟨rfl, List.prefix_refl _, fun _ => rfl, ?_⟩, ⟨?_, ?_⟩, ⟨?_, ?_⟩⟩
    . simp
    . simp
    . simp
    . simp
    . simp

theorem Reaches.counted [DecidableEq τ] {s : ThreadEnvironment n τ}
    (h : Reaches step (fun _ _ => True) ({} : ThreadEnvironment n τ) s) : s.Counted := by
  apply h.invariant Counted
  . intro s a s' hcounted _ hstep
    exact hcounted.step (Step.of_step hstep)
  . intro task
    simp [threads, PoolPc.runs]

/-! The promises of the pool. -/

def Returned (s : ThreadEnvironment n τ) : Prop := s.destructor = .joining n

/--
There is something to do, and every worker that could do it sleeps with nobody left to wake it.
-/
structure Asleep (s : ThreadEnvironment n τ) : Prop where
  work : s.tasks ≠ [] ∨ s.stop = true
  unfinished : ∃ i, s.workers i ≠ .finished
  sleeping : ∀ i, s.workers i ≠ .finished → s.workers i = .sleeping
  unnotified : s.notifies = 0 ∧ s.destructor ≠ .notifying

/--
What was accepted is run, each task as often as it was enqueued, in front of what came later.
-/
def AllRun (s : ThreadEnvironment n τ) : Prop :=
  ∃ later, s.accepted ++ later <+: s.enqueued ∧ s.ran.Perm (s.accepted ++ later)

def Quiescent (s : ThreadEnvironment n τ) : Prop := ∀ a, a.isInternal → s.step a = none

theorem not_asleep {s : ThreadEnvironment n τ} (h : s.Watched) : ¬s.Asleep := by
  intro hasleep
  rcases hasleep.unfinished with ⟨i, hi⟩
  have hsleeping := hasleep.sleeping i hi
  have hready : threads PoolPc.isReady s.workers = 0 := by
    by_contra hpos
    rcases exists_of_threads_pos (Nat.pos_of_ne_zero hpos) with ⟨j, hj⟩
    have hpc := isReady_iff.mp hj
    have hsleeping := hasleep.sleeping j (by simp [hpc])
    rw [hpc] at hsleeping
    contradiction
  rcases hasleep.work with htasks | hstop
  . have hle := h.tasks ⟨i, hsleeping⟩
    rw [hasleep.unnotified.1, hready, Nat.le_zero, List.length_eq_zero_iff] at hle
    exact htasks hle
  . exact hasleep.unnotified.2 (h.stop ⟨i, hsleeping⟩ hstop)

theorem allRun_of_popped [DecidableEq τ] {s : ThreadEnvironment n τ} (hordered : s.Ordered)
    (hcounted : s.Counted) (hrunning : ∀ i, ¬(s.workers i).isRunning)
    (hpopped : s.accepted <+: s.popped) : s.AllRun := by
  rcases hpopped with ⟨later, hlater⟩
  refine ⟨later, ?_, ?_⟩
  . rw [hlater, ← hordered.queue]
    apply List.prefix_append
  . rw [hlater]
    apply List.perm_iff_count.mpr
    intro task
    have hnone : threads (PoolPc.runs task) s.workers = 0 := by
      by_contra hpos
      rcases exists_of_threads_pos (Nat.pos_of_ne_zero hpos) with ⟨i, hi⟩
      apply hrunning i
      cases hpc : s.workers i <;> rw [hpc] at hi <;> first | rfl | contradiction
    rw [← hcounted task, hnone, Nat.add_zero]

theorem Returned.all [DecidableEq τ] {s : ThreadEnvironment n τ} (hn : 0 < n) (hordered : s.Ordered)
    (hcounted : s.Counted) (hstopping : s.Stopping) (h : s.Returned) :
    (∀ i, s.workers i = .finished) ∧ s.AllRun := by
  have hfinished : ∀ i, s.workers i = .finished := by
    intro i
    exact (hstopping.joined n h).2 i i.isLt
  refine ⟨hfinished, allRun_of_popped hordered hcounted ?_ ?_⟩
  . intro i
    rw [hfinished i]
    simp [PoolPc.isRunning]
  . exact (hordered.finished ⟨0, hn⟩ (hfinished ⟨0, hn⟩)).2

/-! The pool comes to rest. -/

def DestructorPc.rank (n : Nat) (pc : DestructorPc) : Nat :=
  match pc with
  | .uncalled => 0
  | .notifying => 2 * n + 1
  | .joining k => n - k

def rank (s : ThreadEnvironment n τ) : Nat :=
  2 * s.tasks.length + 2 * threads PoolPc.isRunning s.workers + threads PoolPc.isReady s.workers
    + 2 * s.notifies + DestructorPc.rank n s.destructor

def weight (pc : PoolPc τ) : Nat := 2 * pc.isRunning.toNat + pc.isReady.toNat

theorem weight_update {workers : Fin n → PoolPc τ} {i : Fin n} {pc : PoolPc τ} (hpc : workers i = pc)
    (pc' : PoolPc τ) :
    2 * threads PoolPc.isRunning (Function.update workers i pc')
        + threads PoolPc.isReady (Function.update workers i pc') + weight pc
      =
    2 * threads PoolPc.isRunning workers + threads PoolPc.isReady workers + weight pc' := by
  have hrunning := threads_update (p := PoolPc.isRunning) workers i pc'
  have hready := threads_update (p := PoolPc.isReady) workers i pc'
  rw [hpc] at hrunning hready
  unfold weight
  omega

theorem threads_le (p : PoolPc τ → Bool) (workers : Fin n → PoolPc τ) : threads p workers ≤ n := by
  have hle := Finset.card_filter_le Finset.univ (fun i => p (workers i))
  rwa [Finset.card_univ, Fintype.card_fin] at hle

theorem Step.rank_lt {s s' : ThreadEnvironment n τ} {a : PoolAction n τ} (hstep : Step s a s')
    (ha : a.isInternal) : s'.rank < s.rank := by
  have hready : weight (.ready : PoolPc τ) = 1 := rfl
  have hsleeping : weight (.sleeping : PoolPc τ) = 0 := rfl
  have hfinished : weight (.finished : PoolPc τ) = 0 := rfl
  have hrunning : ∀ task : τ, weight (.running task) = 2 := fun _ => rfl
  unfold rank
  cases hstep with
  | enqueue => contradiction
  | notifyOne hnotifies hpc =>
    have hweight := weight_update hpc .ready
    dsimp only
    omega
  | notifyNone hnotifies =>
    dsimp only
    omega
  | spuriousWake => contradiction
  | sleep hpc =>
    have hweight := weight_update hpc .sleeping
    dsimp only [setWorker]
    omega
  | finish hpc =>
    have hweight := weight_update hpc .finished
    dsimp only [setWorker]
    omega
  | @pop i task tasks hpc htasks =>
    have hweight := weight_update hpc (.running task)
    rw [hrunning task] at hweight
    rw [htasks, List.length_cons]
    dsimp only
    omega
  | @run i task hpc =>
    have hweight := weight_update hpc .ready
    rw [hrunning task] at hweight
    dsimp only
    omega
  | setStop => contradiction
  | notifyAll hdestructor =>
    have hwake : ∀ pc : PoolPc τ, pc.wake.isRunning = pc.isRunning := by
      intro pc
      cases pc <;> rfl
    have hrunning : threads PoolPc.isRunning (fun i => (s.workers i).wake)
        = threads PoolPc.isRunning s.workers := by
      unfold threads
      simp only [hwake]
    have hready := threads_le PoolPc.isReady (fun i => (s.workers i).wake)
    rw [hdestructor]
    simp only [DestructorPc.rank]
    omega
  | @join i hdestructor =>
    have hi := i.isLt
    rw [hdestructor]
    simp only [DestructorPc.rank]
    omega

theorem rank_of_spuriousWake {s s' : ThreadEnvironment n τ} {i : Fin n}
    (h : s.step (.spuriousWake i) = some s') : s'.rank = s.rank + 1 := by
  cases Step.of_step h with
  | spuriousWake hpc =>
    have hready : weight (.ready : PoolPc τ) = 1 := rfl
    have hsleeping : weight (.sleeping : PoolPc τ) = 0 := rfl
    have hweight := weight_update hpc .ready
    simp only [rank, setWorker]
    omega

theorem length_le_rank {s s' : ThreadEnvironment n τ} {as : List (PoolAction n τ)}
    (h : run step (fun _ a => a.isInternal) s as = some s') : as.length ≤ s.rank := by
  induction as generalizing s with
  | nil => exact Nat.zero_le _
  | cons a as ih =>
    unfold run at h
    split at h
    . next ha =>
      rcases Option.bind_eq_some_iff.mp h with ⟨s₁, hstep, hrest⟩
      have hlt := (Step.of_step hstep).rank_lt ha
      have hle := ih hrest
      rw [List.length_cons]
      omega
    . contradiction

theorem waitAndPop_isSome (s : ThreadEnvironment n τ) (i : Fin n) : (s.waitAndPop i).isSome := by
  unfold waitAndPop
  split
  . rfl
  . next hawake =>
    split
    . rfl
    . next hwork =>
      split
      . next htasks =>
        simp [htasks] at hawake hwork
        rw [hawake] at hwork
        contradiction
      . rfl

theorem Quiescent.rests {s : ThreadEnvironment n τ} (h : s.Quiescent) :
    s.notifies = 0 ∧ s.destructor ≠ .notifying
      ∧ ∀ i, s.workers i = .sleeping ∨ s.workers i = .finished := by
  refine ⟨?_, ?_, ?_⟩
  . by_contra hnotifies
    have hpos := Nat.pos_of_ne_zero hnotifies
    by_cases hawake : ∀ i, ¬(s.workers i).isSleeping
    . have hnone := h (.notifyOne none) rfl
      rw [step, if_pos ⟨hpos, hawake⟩] at hnone
      contradiction
    . push Not at hawake
      rcases hawake with ⟨i, hi⟩
      have hnone := h (.notifyOne (some i)) rfl
      rw [step, if_pos ⟨hpos, hi⟩] at hnone
      contradiction
  . intro hdestructor
    have hnone := h .notifyAll rfl
    rw [step, if_pos hdestructor] at hnone
    contradiction
  . intro i
    cases hpc : s.workers i with
    | sleeping => exact .inl rfl
    | finished => exact .inr rfl
    | ready =>
      have hnone := h (.wait i) rfl
      have hsome := s.waitAndPop_isSome i
      rw [step, if_pos (isReady_iff.mpr hpc)] at hnone
      rw [hnone] at hsome
      contradiction
    | running task =>
      have hnone := h (.run i) rfl
      simp only [step, hpc] at hnone
      contradiction

theorem Quiescent.all [DecidableEq τ] {s : ThreadEnvironment n τ} (hn : 0 < n) (hordered : s.Ordered)
    (hcounted : s.Counted) (hstopping : s.Stopping) (hwatched : s.Watched) (h : s.Quiescent) :
    s.AllRun ∧ (s.stop = true → s.Returned) := by
  rcases h.rests with ⟨hnotifies, hdestructor, hworkers⟩
  have hrunning : ∀ i, ¬(s.workers i).isRunning := by
    intro i
    rcases hworkers i with hi | hi <;> rw [hi] <;> simp [PoolPc.isRunning]
  by_cases hall : ∀ i, s.workers i = .finished
  . have hfinished := hordered.finished ⟨0, hn⟩ (hall _)
    refine ⟨allRun_of_popped hordered hcounted hrunning hfinished.2, ?_⟩
    intro hstop
    cases hpc : s.destructor with
    | uncalled => exact absurd hpc (hstopping.stop.mp hstop)
    | notifying => exact absurd hpc hdestructor
    | joining k =>
      -- the next worker to join is finished, so the loop over the workers is over
      have hk := (hstopping.joined k hpc).1
      have hnone := h .join rfl
      simp only [step, hpc] at hnone
      split at hnone
      . next hlt => simp [hall, PoolPc.isFinished] at hnone
      . unfold Returned
        rw [hpc]
        congr 1
        omega
  . push Not at hall
    rcases hall with ⟨i, hi⟩
    have hsleeping : s.workers i = .sleeping := (hworkers i).resolve_right hi
    have hasleep := not_asleep hwatched
    have hwork : ¬(s.tasks ≠ [] ∨ s.stop = true) := by
      intro hwork
      exact hasleep ⟨hwork, ⟨i, hi⟩, fun j hj => (hworkers j).resolve_right hj, hnotifies, hdestructor⟩
    simp only [not_or, not_not, Bool.not_eq_true] at hwork
    refine ⟨allRun_of_popped hordered hcounted hrunning ?_, ?_⟩
    . rw [hordered.open_accepts hwork.2, ← hordered.queue, hwork.1, List.append_nil]
    . intro hstop
      rw [hwork.2] at hstop
      contradiction

theorem delivers [DecidableEq τ] (hn : 0 < n) {s : ThreadEnvironment n τ}
    (h : Reaches step (fun _ _ => True) {} s) :
    s.popped ++ s.tasks = s.enqueued
      ∧ (∀ task, s.ran.count task + threads (PoolPc.runs task) s.workers = s.popped.count task)
      ∧ (s.Returned → (∀ i, s.workers i = .finished) ∧ s.AllRun)
      ∧ ¬s.Asleep
      ∧ (∀ as s', run step (fun _ a => a.isInternal) s as = some s' → as.length ≤ s.rank)
      ∧ (s.Quiescent → s.AllRun ∧ (s.stop = true → s.Returned)) := by
  rcases Reaches.keeps h with ⟨hordered, hstopping, hwatched⟩
  have hcounted := Reaches.counted h
  refine ⟨hordered.queue, hcounted, ?_, not_asleep hwatched, ?_, ?_⟩
  . intro hreturned
    exact hreturned.all hn hordered hcounted hstopping
  . intro as s' hrun
    exact length_le_rank hrun
  . intro hquiescent
    exact hquiescent.all hn hordered hcounted hstopping hwatched

theorem delivers_lateTask :
    ∃ s : ThreadEnvironment 1 Nat,
      run step (fun _ _ => true) {} [.wait (Fin.last 0), .enqueue 7] = some s
        ∧ s.tasks = [7] ∧ s.workers (Fin.last 0) = .sleeping ∧ ¬s.Asleep := by
  have hrun : run step (fun _ _ => true) ({} : ThreadEnvironment 1 Nat)
      [.wait (Fin.last 0), .enqueue 7] = some _ := rfl
  refine ⟨_, hrun, rfl, rfl, ?_⟩
  apply (delivers (by decide) _).2.2.2.1
  apply (reaches_of_run hrun).weaken
  intro _ _ _
  trivial

end ThreadEnvironment

end NetOrc
