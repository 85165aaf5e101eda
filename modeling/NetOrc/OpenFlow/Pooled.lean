import NetOrc.Core.ThreadEnvironment
import NetOrc.OpenFlow.Drain
import NetOrc.OpenFlow.Scheduling

/-!
This module contains the server together with the thread pool that its tasks go through. An acceptor that
has queued a task notifies the pool before it goes on, and a worker that finds no task sleeps. It shows
that the list of tasks of the server is a faithful picture of this pool.
-/

namespace NetOrc

def PoolPc.task {τ : Type} (pc : PoolPc τ) : Option τ :=
  match pc with
  | .running task => some task
  | _ => none

end NetOrc

namespace Oflib

open NetOrc
open Transition

variable {σ : Type} {W : Nat}

/--
`notifying` are the acceptors that have queued a task and not notified the pool yet.
-/
structure Pooled (σ : Type) (W : Nat) where
  server : Server σ W
  pool : ThreadEnvironment W Int32 := {}
  notifying : List Nat := []

/--
The workers inside of `handle_client` and all other parties take the steps of the server. The rest are the
steps of the pool: what a worker does between two tasks, and the notifications.
-/
inductive PooledAction (W : Nat) where
  | server (action : Action W)
  | wait (i : Fin W)
  | spuriousWake (i : Fin W)
  | notifyOne (a : Nat) (woken : Option (Fin W))
  deriving DecidableEq, Repr

namespace Pooled

def acceptLoop (ep : OpenFlowEndpoint σ) (p : Pooled σ W) (a : Nat) (result : Int32) :
    Option (Pooled σ W) :=
  if a ∈ p.notifying then
    none
  else
    (p.server.step ep (.acceptLoop a result)).bind (fun server =>
      match p.server.acceptors[a]? with
      | some (.enqueue fd) =>
        (p.pool.step (.enqueue fd)).map (fun pool => ⟨server, pool, a :: p.notifying⟩)
      | _ => some { p with server := server })

def handleClient (ep : OpenFlowEndpoint σ) (p : Pooled σ W) (i : Fin W) (count : Nat) :
    Option (Pooled σ W) :=
  if p.server.workers i = .idle then
    none
  else
    (p.server.step ep (.handleClient i count)).bind (fun server =>
      if server.workers i = .idle then
        (p.pool.step (.run i)).map (fun pool => { p with server := server, pool := pool })
      else
        some { p with server := server })

def wait (ep : OpenFlowEndpoint σ) (p : Pooled σ W) (i : Fin W) : Option (Pooled σ W) :=
  (p.pool.step (.wait i)).bind (fun pool =>
    if (pool.workers i).isRunning then
      (p.server.step ep (.handleClient i 0)).map (fun server => { p with server := server, pool := pool })
    else
      some { p with pool := pool })

def notifyOne (p : Pooled σ W) (a : Nat) (woken : Option (Fin W)) : Option (Pooled σ W) :=
  if a ∈ p.notifying then
    (p.pool.step (.notifyOne woken)).map (fun pool =>
      { p with pool := pool, notifying := p.notifying.erase a })
  else
    none

def step (ep : OpenFlowEndpoint σ) (p : Pooled σ W) (action : PooledAction W) : Option (Pooled σ W) :=
  if p.server.crashed then
    none
  else
    match action with
    | .server (.acceptLoop a result) => p.acceptLoop ep a result
    | .server (.handleClient i count) => p.handleClient ep i count
    | .server action => (p.server.step ep action).map (fun server => { p with server := server })
    | .wait i => p.wait ep i
    | .spuriousWake i => (p.pool.step (.spuriousWake i)).map (fun pool => { p with pool := pool })
    | .notifyOne a woken => p.notifyOne a woken

end Pooled

namespace Server

def WithinTasks (s : Server σ W) (action : Action W) (s' : Server σ W) : Prop :=
  match action with
  | .acceptLoop a _ => ∀ fd, s.acceptors[a]? ≠ some (.enqueue fd)
  | .handleClient i _ => s.workers i ≠ .idle ∧ s'.workers i ≠ .idle
  | _ => True

variable {ep : OpenFlowEndpoint σ} {s s' : Server σ W}

theorem Step.of_worker {i : Fin W} {count : Nat} (h : Step ep s (.handleClient i count) s')
    (hpc : s.workers i ≠ .idle) :
    s'.tasks = s.tasks ∧ (∀ j, j ≠ i → s'.workers j = s.workers j)
      ∧ (s'.workers i = .idle ∨ (s'.workers i).carried = (s.workers i).carried) := by
  have hothers : ∀ pc j, j ≠ i → Function.update s.workers i pc j = s.workers j :=
    fun pc j hj => Function.update_of_ne hj _ _
  cases h with
  | pop hidle => contradiction
  | top hpc => exact ⟨rfl, hothers _, .inr (by simp [setWorker, hpc, WorkerPc.carried])⟩
  | leave => exact ⟨rfl, hothers _, .inl (Function.update_self _ _ _)⟩
  | miss => exact ⟨rfl, hothers _, .inl (Function.update_self _ _ _)⟩
  | lookup hpc => exact ⟨rfl, hothers _, .inr (by simp [setWorker, hpc, WorkerPc.carried])⟩
  | recvFails hpc => exact ⟨rfl, hothers _, .inr (by simp [setWorker, hpc, WorkerPc.carried])⟩
  | recv hpc => exact ⟨rfl, hothers _, .inr (by simp [hpc, WorkerPc.carried])⟩
  | ingestFails hpc => exact ⟨rfl, hothers _, .inr (by simp [hpc, WorkerPc.carried])⟩
  | ingest hpc => exact ⟨rfl, hothers _, .inr (by simp [hpc, WorkerPc.carried])⟩
  | accepted hpc => exact ⟨rfl, hothers _, .inr (by simp [hpc, WorkerPc.carried])⟩
  | rejected hpc => exact ⟨rfl, hothers _, .inr (by simp [hpc, WorkerPc.carried])⟩
  | dispatched => exact ⟨rfl, fun _ _ => rfl, .inr rfl⟩
  | close => exact ⟨rfl, hothers _, .inl (Function.update_self _ _ _)⟩

theorem Step.withinTasks {action : Action W} (h : Step ep s action s') (hwithin : s.WithinTasks action s') :
    s'.tasks = s.tasks ∧ ∀ j, (s'.workers j).carried = (s.workers j).carried := by
  cases action with
  | handleClient i count =>
    rcases h.of_worker hwithin.1 with ⟨htasks, hothers, hpc⟩
    refine ⟨htasks, fun j => ?_⟩
    by_cases hj : j = i
    . rw [hj]
      exact hpc.resolve_left hwithin.2
    . rw [hothers j hj]
  | acceptLoop a result =>
    cases h with
    | enqueue hpc => exact absurd hpc (hwithin _)
    | _ => exact ⟨rfl, fun _ => rfl⟩
  | _ => cases h <;> exact ⟨rfl, fun _ => rfl⟩

theorem Step.of_enqueue {a : Nat} {result fd : Int32} (h : Step ep s (.acceptLoop a result) s')
    (hpc : s.acceptors[a]? = some (.enqueue fd)) :
    s' = { s with tasks := s.tasks ++ [fd], acceptors := s.acceptors.set a .check } := by
  cases h with
  | enqueue hpc' =>
    rw [hpc] at hpc'
    cases hpc'
    rfl
  | check hpc' => simp [hpc] at hpc'
  | acceptFails hpc' => simp [hpc] at hpc'
  | accept hpc' => simp [hpc] at hpc'
  | insert hpc' => simp [hpc] at hpc'

theorem Step.of_pop {i : Fin W} {count : Nat} (h : Step ep s (.handleClient i count) s')
    (hpc : s.workers i = .idle) :
    ∃ fd tasks, s.tasks = fd :: tasks
      ∧ s' = { s with tasks := tasks, workers := Function.update s.workers i (.top fd) } := by
  cases h with
  | pop _ htasks => exact ⟨_, _, htasks, rfl⟩
  | _ => simp_all

end Server

namespace Pooled

inductive Step (ep : OpenFlowEndpoint σ) (p : Pooled σ W) : PooledAction W → Pooled σ W → Prop where
  | enqueue {a : Nat} {result fd : Int32} {server : Server σ W} {pool : ThreadEnvironment W Int32}
    (hnotifying : a ∉ p.notifying) (hpc : p.server.acceptors[a]? = some (.enqueue fd))
    (hserver : p.server.Step ep (.acceptLoop a result) server)
    (hpool : p.pool.step (.enqueue fd) = some pool) :
    Step ep p (.server (.acceptLoop a result)) ⟨server, pool, a :: p.notifying⟩
  | finish {i : Fin W} {count : Nat} {server : Server σ W} {pool : ThreadEnvironment W Int32}
    (hpc : p.server.workers i ≠ .idle) (hserver : p.server.Step ep (.handleClient i count) server)
    (hidle : server.workers i = .idle) (hpool : p.pool.step (.run i) = some pool) :
    Step ep p (.server (.handleClient i count)) { p with server := server, pool := pool }
  | within {action : Action W} {server : Server σ W} (hserver : p.server.Step ep action server)
    (hwithin : p.server.WithinTasks action server) :
    Step ep p (.server action) { p with server := server }
  | pop {i : Fin W} {server : Server σ W} {pool : ThreadEnvironment W Int32}
    (hpool : p.pool.step (.wait i) = some pool) (hrunning : (pool.workers i).isRunning)
    (hserver : p.server.Step ep (.handleClient i 0) server) :
    Step ep p (.wait i) { p with server := server, pool := pool }
  | leave {i : Fin W} {pool : ThreadEnvironment W Int32} (hpool : p.pool.step (.wait i) = some pool)
    (hrunning : ¬(pool.workers i).isRunning) :
    Step ep p (.wait i) { p with pool := pool }
  | spuriousWake {i : Fin W} {pool : ThreadEnvironment W Int32}
    (hpool : p.pool.step (.spuriousWake i) = some pool) :
    Step ep p (.spuriousWake i) { p with pool := pool }
  | notifyOne {a : Nat} {woken : Option (Fin W)} {pool : ThreadEnvironment W Int32}
    (hnotifying : a ∈ p.notifying) (hpool : p.pool.step (.notifyOne woken) = some pool) :
    Step ep p (.notifyOne a woken) { p with pool := pool, notifying := p.notifying.erase a }

variable {ep : OpenFlowEndpoint σ} {p p' : Pooled σ W}

theorem Step.of_acceptLoop {a : Nat} {result : Int32} (h : p.acceptLoop ep a result = some p') :
    Step ep p (.server (.acceptLoop a result)) p' := by
  unfold Pooled.acceptLoop at h
  split at h
  . contradiction
  . next hnotifying =>
    rcases Option.bind_eq_some_iff.mp h with ⟨server, hserver, h⟩
    have hserver := (Server.Step.of_step hserver).2
    split at h
    . next fd hpc =>
      rcases Option.map_eq_some_iff.mp h with ⟨pool, hpool, rfl⟩
      exact .enqueue hnotifying hpc hserver hpool
    . next hpc =>
      cases h
      exact .within hserver hpc

theorem Step.of_handleClient {i : Fin W} {count : Nat} (h : p.handleClient ep i count = some p') :
    Step ep p (.server (.handleClient i count)) p' := by
  unfold Pooled.handleClient at h
  split at h
  . contradiction
  . next hpc =>
    rcases Option.bind_eq_some_iff.mp h with ⟨server, hserver, h⟩
    have hserver := (Server.Step.of_step hserver).2
    split at h
    . next hidle =>
      rcases Option.map_eq_some_iff.mp h with ⟨pool, hpool, rfl⟩
      exact .finish hpc hserver hidle hpool
    . next hidle =>
      cases h
      exact .within hserver ⟨hpc, hidle⟩

theorem Step.of_wait {i : Fin W} (h : p.wait ep i = some p') : Step ep p (.wait i) p' := by
  rcases Option.bind_eq_some_iff.mp h with ⟨pool, hpool, h⟩
  split at h
  . next hrunning =>
    rcases Option.map_eq_some_iff.mp h with ⟨server, hserver, rfl⟩
    exact .pop hpool hrunning (Server.Step.of_step hserver).2
  . next hrunning =>
    cases h
    exact .leave hpool hrunning

theorem Step.of_step {action : PooledAction W} (h : p.step ep action = some p') :
    ¬p.server.crashed ∧ Step ep p action p' := by
  unfold Pooled.step at h
  split at h
  . contradiction
  . next hcrashed =>
    refine ⟨hcrashed, ?_⟩
    split at h
    . exact .of_acceptLoop h
    . exact .of_handleClient h
    . next action haccept hhandle =>
      rcases Option.map_eq_some_iff.mp h with ⟨server, hserver, rfl⟩
      refine .within (Server.Step.of_step hserver).2 ?_
      cases action <;> first | trivial | simp at haccept hhandle
    . exact .of_wait h
    . rcases Option.map_eq_some_iff.mp h with ⟨pool, hpool, rfl⟩
      exact .spuriousWake hpool
    . unfold Pooled.notifyOne at h
      split at h
      . next hnotifying =>
        rcases Option.map_eq_some_iff.mp h with ⟨pool, hpool, rfl⟩
        exact .notifyOne hnotifying hpool
      . contradiction

/-! The pool and the server go together. -/

/--
The pool has the tasks of the server, each of its workers runs the task that the server has it in, and every
notification to come is that of an acceptor.
-/
structure Coupled (p : Pooled σ W) : Prop where
  run : Reaches ThreadEnvironment.step (fun _ _ => True) {} p.pool
  opened : p.pool.stop = false
  tasks : p.pool.tasks = p.server.tasks
  workers : ∀ i, (p.pool.workers i).task = (p.server.workers i).carried
  notifies : p.pool.notifies = p.notifying.length
  nodup : p.notifying.Nodup

theorem task_update {workers : Fin W → PoolPc Int32} {i : Fin W} {pc : PoolPc Int32}
    (h : pc.task = (workers i).task) (j : Fin W) :
    (Function.update workers i pc j).task = (workers j).task := by
  by_cases hj : j = i
  . rw [hj, Function.update_self, h]
  . rw [Function.update_of_ne hj]

theorem Coupled.idle_of_ready (hp : p.Coupled) {i : Fin W} (hpc : p.pool.workers i = .ready) :
    p.server.workers i = .idle := by
  have hworker := hp.workers i
  rw [hpc] at hworker
  exact Server.eq_idle_of_carried hworker.symm

theorem Coupled.step {action : PooledAction W} (hp : p.Coupled) (h : Step ep p action p') : p'.Coupled := by
  have hrun : ∀ {part : PoolAction W Int32} {pool : ThreadEnvironment W Int32},
      p.pool.step part = some pool → Reaches ThreadEnvironment.step (fun _ _ => True) {} pool :=
    fun hpool => hp.run.tail ⟨_, trivial, hpool⟩
  have hready : ∀ i, p.pool.workers i = .ready → p.server.workers i = .idle := fun i => hp.idle_of_ready
  rcases hp with ⟨hreaches, hopened, htasks, hworkers, hnotifies, hnodup⟩
  cases h with
  | enqueue hnotifying hpc hserver hpool =>
    refine ⟨hrun hpool, ?_, ?_, ?_, ?_, List.nodup_cons.mpr ⟨hnotifying, hnodup⟩⟩
    all_goals cases hpool; rw [hserver.of_enqueue hpc]
    . exact hopened
    . dsimp only
      rw [htasks]
    . exact hworkers
    . dsimp only
      rw [hnotifies, List.length_cons]
  | @finish i count server pool hpc hserver hidle hpool =>
    rcases hserver.of_worker hpc with ⟨hqueue, hothers, _⟩
    refine ⟨hrun hpool, ?_, ?_, fun j => ?_, ?_, hnodup⟩
    all_goals cases ThreadEnvironment.Step.of_step hpool
    . exact hopened
    . exact htasks.trans hqueue.symm
    . dsimp only
      by_cases hj : j = i
      . rw [hj, Function.update_self, hidle]
        rfl
      . rw [Function.update_of_ne hj, hothers j hj]
        exact hworkers j
    . exact hnotifies
  | within hserver hwithin =>
    rcases hserver.withinTasks hwithin with ⟨hqueue, hcarried⟩
    exact ⟨hreaches, hopened, htasks.trans hqueue.symm, fun j => (hworkers j).trans (hcarried j).symm,
      hnotifies, hnodup⟩
  | @pop i server pool hpool hrunning hserver =>
    have hpool' := hrun hpool
    cases ThreadEnvironment.Step.of_step hpool with
    | sleep => simp [ThreadEnvironment.setWorker, PoolPc.isRunning] at hrunning
    | finish => simp [ThreadEnvironment.setWorker, PoolPc.isRunning] at hrunning
    | pop hpc hqueue =>
      rcases hserver.of_pop (hready i hpc) with ⟨fd, tasks, hqueue', rfl⟩
      rw [htasks, hqueue'] at hqueue
      cases hqueue
      refine ⟨hpool', hopened, rfl, fun j => ?_, hnotifies, hnodup⟩
      dsimp only
      by_cases hj : j = i
      . rw [hj, Function.update_self, Function.update_self]
        rfl
      . rw [Function.update_of_ne hj, Function.update_of_ne hj]
        exact hworkers j
  | @leave i pool hpool hrunning =>
    have hpool' := hrun hpool
    cases ThreadEnvironment.Step.of_step hpool with
    | sleep hpc =>
      refine ⟨hpool', hopened, htasks, fun j => ?_, hnotifies, hnodup⟩
      exact (task_update (by rw [hpc]; rfl) j).trans (hworkers j)
    | finish _ hstop =>
      rw [hopened] at hstop
      contradiction
    | pop => simp [PoolPc.isRunning] at hrunning
  | spuriousWake hpool =>
    have hpool' := hrun hpool
    cases ThreadEnvironment.Step.of_step hpool with
    | spuriousWake hpc =>
      refine ⟨hpool', hopened, htasks, fun j => ?_, hnotifies, hnodup⟩
      exact (task_update (by rw [hpc]; rfl) j).trans (hworkers j)
  | @notifyOne a woken pool hnotifying hpool =>
    have hpool' := hrun hpool
    have hlength : p.pool.notifies - 1 = (p.notifying.erase a).length := by
      rw [List.length_erase_of_mem hnotifying, hnotifies]
    cases ThreadEnvironment.Step.of_step hpool with
    | notifyOne _ hpc =>
      refine ⟨hpool', hopened, htasks, fun j => ?_, hlength, hnodup.erase a⟩
      exact (task_update (by rw [hpc]; rfl) j).trans (hworkers j)
    | notifyNone => exact ⟨hpool', hopened, htasks, hworkers, hlength, hnodup.erase a⟩

theorem coupled_init (w : σ) : ({ server := { world := w } } : Pooled σ W).Coupled where
  run := .refl
  opened := rfl
  tasks := rfl
  workers _ := rfl
  notifies := rfl
  nodup := List.nodup_nil

theorem Coupled.of_reaches {guard : Pooled σ W → PooledAction W → Prop} (hp : p.Coupled)
    (h : Reaches (Pooled.step ep) guard p p') : p'.Coupled :=
  h.invariant Coupled (fun _ _ _ hp _ hstep => hp.step (Step.of_step hstep).2) hp

end Pooled

def PooledAction.allowed (guard : Action W → Bool) (action : PooledAction W) : Bool :=
  match action with
  | .server action => guard action
  | _ => true

namespace Pooled

variable {ep : OpenFlowEndpoint σ} {guard : Action W → Bool} {p p' : Pooled σ W}

theorem reaches_server (hguard : ∀ i count, guard (.handleClient i count)) {p₀ : Pooled σ W}
    (h : Reaches (Pooled.step ep) (fun _ action => action.allowed guard) p₀ p) :
    Reaches (Server.step ep) (fun _ action => guard action) p₀.server p.server := by
  refine h.map Pooled.server (fun p action p' hallowed hstep => ?_)
  rcases Step.of_step hstep with ⟨hcrashed, hstep⟩
  cases hstep with
  | enqueue _ _ hserver => exact Next.reaches hallowed (hserver.step_eq hcrashed)
  | finish _ hserver => exact Next.reaches hallowed (hserver.step_eq hcrashed)
  | within hserver => exact Next.reaches hallowed (hserver.step_eq hcrashed)
  | pop _ _ hserver => exact Next.reaches (hguard _ _) (hserver.step_eq hcrashed)
  | _ => exact .refl

/-! Every step of the server can be taken with the pool. -/

theorem exists_notifyOne (hp : p.Coupled) {a : Nat} (hnotifying : a ∈ p.notifying) :
    ∃ woken pool, p.pool.step (.notifyOne woken) = some pool
      ∧ p.notifyOne a woken = some { p with pool := pool, notifying := p.notifying.erase a } := by
  have hpos : 0 < p.pool.notifies := by
    rw [hp.notifies]
    exact List.length_pos_of_mem hnotifying
  have hnotify : ∃ woken pool, p.pool.Step (.notifyOne woken) pool := by
    by_cases hawake : ∀ i, ¬(p.pool.workers i).isSleeping
    . exact ⟨none, _, .notifyNone hpos hawake⟩
    . push Not at hawake
      rcases hawake with ⟨i, hi⟩
      exact ⟨some i, _, .notifyOne hpos (ThreadEnvironment.isSleeping_iff.mp hi)⟩
  rcases hnotify with ⟨woken, pool, hpool⟩
  refine ⟨woken, pool, hpool.step_eq, ?_⟩
  rw [notifyOne, if_pos hnotifying, hpool.step_eq, Option.map_some]

theorem Coupled.unfinished (hp : p.Coupled) (i : Fin W) : p.pool.workers i ≠ .finished := by
  intro hpc
  have hstop := ((ThreadEnvironment.Reaches.keeps hp.run).1.finished i hpc).1
  rw [hp.opened] at hstop
  contradiction

theorem Coupled.free (hp : p.Coupled) {i : Fin W} (hidle : p.server.workers i = .idle) :
    p.pool.workers i = .ready ∨ p.pool.workers i = .sleeping := by
  have hworker := hp.workers i
  rw [hidle] at hworker
  cases hpc : p.pool.workers i with
  | ready => exact .inl rfl
  | sleeping => exact .inr rfl
  | running task =>
    rw [hpc] at hworker
    contradiction
  | finished => exact absurd hpc (hp.unfinished i)

section
variable (ep guard)

theorem reaches_notified (hp : p.Coupled) (hcrashed : ¬p.server.crashed) (a : Nat) :
    ∃ p', Reaches (Pooled.step ep) (fun _ action => action.allowed guard) p p'
      ∧ p'.server = p.server ∧ a ∉ p'.notifying := by
  by_cases hnotifying : a ∈ p.notifying
  . rcases exists_notifyOne hp hnotifying with ⟨woken, pool, _, hnotify⟩
    refine ⟨{ p with pool := pool, notifying := p.notifying.erase a },
      .single ⟨.notifyOne a woken, rfl, ?_⟩, rfl, hp.nodup.not_mem_erase⟩
    rw [Pooled.step, if_neg hcrashed]
    exact hnotify
  . exact ⟨p, .refl, rfl, hnotifying⟩

theorem reaches_ready (hp : p.Coupled) (hcrashed : ¬p.server.crashed) {i : Fin W}
    (hidle : p.server.workers i = .idle) :
    ∃ p', Reaches (Pooled.step ep) (fun _ action => action.allowed guard) p p'
      ∧ p'.server = p.server ∧ p'.pool.workers i = .ready := by
  rcases hp.free hidle with hready | hsleeping
  . exact ⟨p, .refl, rfl, hready⟩
  . refine ⟨{ p with pool := p.pool.setWorker i .ready }, .single ⟨.spuriousWake i, rfl, ?_⟩, rfl,
      Function.update_self _ _ _⟩
    simp only [Pooled.step, if_neg hcrashed, (ThreadEnvironment.Step.spuriousWake hsleeping).step_eq,
      Option.map_some]

end

theorem Coupled.exists_run (hp : p.Coupled) {i : Fin W} (hpc : p.server.workers i ≠ .idle) :
    ∃ pool, p.pool.step (.run i) = some pool := by
  have hworker := hp.workers i
  cases hpool : p.pool.workers i with
  | running task => exact ⟨_, (ThreadEnvironment.Step.run hpool).step_eq⟩
  | _ =>
    rw [hpool] at hworker
    exact absurd (Server.eq_idle_of_carried hworker.symm) hpc

theorem exists_acceptLoop {a : Nat} {result : Int32} {server : Server σ W}
    (hcrashed : ¬p.server.crashed) (hnotifying : a ∉ p.notifying)
    (hserver : p.server.step ep (.acceptLoop a result) = some server) :
    ∃ p', p.step ep (.server (.acceptLoop a result)) = some p' ∧ p'.server = server := by
  simp only [Pooled.step, if_neg hcrashed, Pooled.acceptLoop, if_neg hnotifying, hserver, Option.bind_some]
  split
  . exact ⟨_, rfl, rfl⟩
  . exact ⟨_, rfl, rfl⟩

theorem Coupled.exists_handleClient (hp : p.Coupled) {i : Fin W} {count : Nat} {server : Server σ W}
    (hcrashed : ¬p.server.crashed) (hpc : p.server.workers i ≠ .idle)
    (hserver : p.server.step ep (.handleClient i count) = some server) :
    ∃ p', p.step ep (.server (.handleClient i count)) = some p' ∧ p'.server = server := by
  rcases hp.exists_run hpc with ⟨pool, hpool⟩
  simp only [Pooled.step, if_neg hcrashed, Pooled.handleClient, if_neg hpc, hserver, Option.bind_some, hpool,
    Option.map_some]
  split
  . exact ⟨_, rfl, rfl⟩
  . exact ⟨_, rfl, rfl⟩

theorem Coupled.exists_pop (hp : p.Coupled) {i : Fin W} {count : Nat} {server : Server σ W}
    (hcrashed : ¬p.server.crashed) (hready : p.pool.workers i = .ready)
    (hserver : p.server.step ep (.handleClient i count) = some server) :
    ∃ p', p.step ep (.wait i) = some p' ∧ p'.server = server := by
  have hidle := hp.idle_of_ready hready
  rcases (Server.Step.of_step hserver).2.of_pop hidle with ⟨fd, tasks, htasks, rfl⟩
  have hpool := (ThreadEnvironment.Step.pop hready (hp.tasks.trans htasks)).step_eq
  -- a worker that is idle does not use the number of bytes
  have hserver : p.server.step ep (.handleClient i 0) = _ := Server.Step.step_eq hcrashed (.pop hidle htasks)
  simp only [Pooled.step, if_neg hcrashed, Pooled.wait, hpool, Option.bind_some, Function.update_self,
    PoolPc.isRunning, if_true, hserver, Option.map_some]
  exact ⟨_, rfl, rfl⟩

theorem Coupled.follow (hp : p.Coupled) {action : Action W} {server : Server σ W} (hguard : guard action)
    (hserver : p.server.step ep action = some server) :
    ∃ p', Reaches (Pooled.step ep) (fun _ action => action.allowed guard) p p' ∧ p'.server = server := by
  have hcrashed := (Server.Step.of_step hserver).1
  cases action with
  | acceptLoop a result =>
    rcases reaches_notified ep guard hp hcrashed a with ⟨p₁, hreaches, hsame, hnotifying⟩
    rw [← hsame] at hcrashed hserver
    rcases exists_acceptLoop hcrashed hnotifying hserver with ⟨p', hstep, rfl⟩
    exact ⟨p', hreaches.tail ⟨.server (.acceptLoop a result), hguard, hstep⟩, rfl⟩
  | handleClient i count =>
    by_cases hidle : p.server.workers i = .idle
    . rcases reaches_ready ep guard hp hcrashed hidle with ⟨p₁, hreaches, hsame, hready⟩
      have hp₁ := hp.of_reaches hreaches
      rw [← hsame] at hcrashed hserver
      rcases hp₁.exists_pop hcrashed hready hserver with ⟨p', hstep, rfl⟩
      exact ⟨p', hreaches.tail ⟨.wait i, rfl, hstep⟩, rfl⟩
    . rcases hp.exists_handleClient hcrashed hidle hserver with ⟨p', hstep, rfl⟩
      exact ⟨p', .single ⟨.server (.handleClient i count), hguard, hstep⟩, rfl⟩
  | _ =>
    refine ⟨{ p with server := server }, Next.reaches (a := .server _) hguard ?_, rfl⟩
    simp only [Pooled.step, if_neg hcrashed, hserver, Option.map_some]

theorem Coupled.reaches_of_server (hp : p.Coupled) {server : Server σ W}
    (h : Reaches (Server.step ep) (fun _ action => guard action) p.server server) :
    ∃ p', Reaches (Pooled.step ep) (fun _ action => action.allowed guard) p p' ∧ p'.server = server := by
  induction h with
  | refl => exact ⟨p, .refl, rfl⟩
  | tail _ hnext ih =>
    rcases ih with ⟨p₁, hreaches, rfl⟩
    rcases hnext with ⟨action, hguard, hserver⟩
    rcases (hp.of_reaches hreaches).follow hguard hserver with ⟨p', hreaches', rfl⟩
    exact ⟨p', hreaches.trans hreaches', rfl⟩

end Pooled

/-! The pool does not keep the server from coming to rest. -/

def PooledAction.isInternal (action : PooledAction W) : Bool :=
  match action with
  | .server action => action.isHandleClient
  | .wait _ => true
  | .spuriousWake _ => false
  | .notifyOne _ _ => true

def PooledAction.isSpuriousWake (action : PooledAction W) : Bool :=
  match action with
  | .spuriousWake _ => true
  | _ => false

namespace Pooled

variable {ep : OpenFlowEndpoint σ} {p p' : Pooled σ W}

def quiet (p : Pooled σ W) (action : PooledAction W) : Bool :=
  match action with
  | .server action => p.server.quiet action
  | _ => true

def Quiescent (ep : OpenFlowEndpoint σ) (p : Pooled σ W) : Prop :=
  ∀ action, action.isInternal → p.step ep action = none

def rank (p : Pooled σ W) : Nat := p.server.rank + p.pool.rank

theorem Step.owned (hkeep : KeepsDescriptor ep.dispatch) {action : PooledAction W} (h : Step ep p action p')
    (howned : p.server.Owned) : p'.server.Owned := by
  cases h with
  | enqueue _ _ hserver => exact howned.step hkeep hserver
  | finish _ hserver => exact howned.step hkeep hserver
  | within hserver => exact howned.step hkeep hserver
  | pop _ _ hserver => exact howned.step hkeep hserver
  | _ => exact howned

theorem rank_le_of_quiet {action : PooledAction W} (howned : p.server.Owned) (hquiet : p.quiet action)
    (h : Step ep p action p') :
    p'.rank + action.isInternal.toNat ≤ p.rank + action.isSpuriousWake.toNat := by
  have hpool : ∀ {part : PoolAction W Int32} {pool : ThreadEnvironment W Int32}, part.isInternal →
      p.pool.step part = some pool → pool.rank < p.pool.rank :=
    fun hinternal hpool => (ThreadEnvironment.Step.of_step hpool).rank_lt hinternal
  unfold rank
  cases h with
  | enqueue _ hpc => simp [quiet, Server.quiet, hpc] at hquiet
  | finish _ hserver _ hrun =>
    have hlt := Server.rank_lt_of_handleClient howned hserver
    have hrun := hpool rfl hrun
    simp only [PooledAction.isInternal, Action.isHandleClient, PooledAction.isSpuriousWake, Bool.toNat_true,
      Bool.toNat_false]
    omega
  | within hserver =>
    have hle := Server.rank_le_of_quiet howned hquiet hserver
    simp only [PooledAction.isInternal, PooledAction.isSpuriousWake, Bool.toNat_false]
    omega
  | pop hwait _ hserver =>
    have hlt := Server.rank_lt_of_handleClient howned hserver
    have hwait := hpool rfl hwait
    simp only [PooledAction.isInternal, PooledAction.isSpuriousWake, Bool.toNat_true, Bool.toNat_false]
    omega
  | leave hwait =>
    have hwait := hpool rfl hwait
    simp only [PooledAction.isInternal, PooledAction.isSpuriousWake, Bool.toNat_true, Bool.toNat_false]
    omega
  | spuriousWake hwake =>
    have hwake := ThreadEnvironment.rank_of_spuriousWake hwake
    simp only [PooledAction.isInternal, PooledAction.isSpuriousWake, Bool.toNat_true, Bool.toNat_false]
    omega
  | notifyOne _ hnotify =>
    have hnotify := hpool rfl hnotify
    simp only [PooledAction.isInternal, PooledAction.isSpuriousWake, Bool.toNat_true, Bool.toNat_false]
    omega

theorem Quiescent.notified (h : p.Quiescent ep) (hp : p.Coupled) (hcrashed : ¬p.server.crashed) :
    p.notifying = [] := by
  by_contra hne
  rcases List.exists_mem_of_ne_nil _ hne with ⟨a, ha⟩
  rcases exists_notifyOne hp ha with ⟨woken, pool, _, hnotify⟩
  have hnone := h (.notifyOne a woken) rfl
  simp only [Pooled.step, if_neg hcrashed, hnotify] at hnone
  contradiction

theorem Quiescent.sleeping (h : p.Quiescent ep) (hp : p.Coupled) (hcrashed : ¬p.server.crashed) {i : Fin W}
    (hidle : p.server.workers i = .idle) : p.pool.workers i = .sleeping := by
  refine (hp.free hidle).resolve_left (fun hready => ?_)
  have hnone := h (.wait i) rfl
  cases htasks : p.server.tasks with
  | nil =>
    have hpool := (ThreadEnvironment.Step.sleep hready hp.opened (hp.tasks.trans htasks)).step_eq
    simp [Pooled.step, hcrashed, Pooled.wait, hpool, ThreadEnvironment.setWorker, PoolPc.isRunning] at hnone
  | cons fd tasks =>
    have hserver : p.server.step ep (.handleClient i 0) = _ :=
      Server.Step.step_eq hcrashed (.pop hidle htasks)
    rcases hp.exists_pop hcrashed hready hserver with ⟨p', hstep, _⟩
    rw [hstep] at hnone
    contradiction

theorem Quiescent.tasks (h : p.Quiescent ep) (hp : p.Coupled) (hcrashed : ¬p.server.crashed) {i : Fin W}
    (hidle : p.server.workers i = .idle) : p.server.tasks = [] := by
  have hwatched := (ThreadEnvironment.Reaches.keeps hp.run).2.2
  have hle := hwatched.tasks ⟨i, h.sleeping hp hcrashed hidle⟩
  have hready : threads PoolPc.isReady p.pool.workers = 0 := by
    by_contra hpos
    rcases exists_of_threads_pos (Nat.pos_of_ne_zero hpos) with ⟨j, hj⟩
    have hpc := ThreadEnvironment.isReady_iff.mp hj
    have hsleeping := h.sleeping hp hcrashed (hp.idle_of_ready hpc)
    rw [hpc] at hsleeping
    contradiction
  rw [hready, hp.notifies, h.notified hp hcrashed, hp.tasks] at hle
  exact List.length_eq_zero_iff.mp (Nat.le_zero.mp hle)

theorem Quiescent.server (h : p.Quiescent ep) (hp : p.Coupled) (hcrashed : ¬p.server.crashed) :
    p.server.Quiescent ep := by
  intro i count
  cases hserver : p.server.step ep (.handleClient i count) with
  | none => rfl
  | some server =>
    by_cases hidle : p.server.workers i = .idle
    . rcases (Server.Step.of_step hserver).2.of_pop hidle with ⟨fd, tasks, htasks, _⟩
      rw [h.tasks hp hcrashed hidle] at htasks
      contradiction
    . rcases hp.exists_handleClient hcrashed hidle hserver with ⟨p', hstep, _⟩
      rw [h (.server (.handleClient i count)) rfl] at hstep
      contradiction

end Pooled

/--
The server over the pool that its tasks go through has the states of the server over a list of tasks. While
nobody connects or sends, its workers and the notifications take boundedly many steps, whatever their order,
and one more for each spurious wakeup. When none of them can move, all notifications are over, and each
worker sleeps because there is no task, or it is blocked in `recv` by a peer that is open and has sent
nothing.
-/
theorem pooled_comesToRest (ep : OpenFlowEndpoint σ) (hkeep : KeepsConnection ep.dispatch) (w : σ) :
    (∀ s : Server σ W, Reaches (Server.step ep) (fun _ action => !action.isStop) { world := w } s
        ↔ ∃ p : Pooled σ W, Reaches (Pooled.step ep) (fun _ action => action.allowed (fun a => !a.isStop))
            { server := { world := w } } p ∧ p.server = s)
      ∧ ∀ p : Pooled σ W,
        Reaches (Pooled.step ep) (fun _ action => action.allowed (fun a => !a.isStop))
          { server := { world := w } } p →
        Reaches ThreadEnvironment.step (fun _ _ => True) {} p.pool
          ∧ p.pool.tasks = p.server.tasks
          ∧ (∀ as p', run (Pooled.step ep) Pooled.quiet p as = some p' →
            as.countP PooledAction.isInternal ≤ p.rank + as.countP PooledAction.isSpuriousWake)
          ∧ (p.Quiescent ep → ¬p.server.crashed →
            p.server.Quiescent ep ∧ p.notifying = []
              ∧ ∀ i, p.pool.workers i = .sleeping ∧ p.server.tasks = []
                ∨ ∃ fd id, p.server.workers i = .recv fd id
                  ∧ p.server.sockets fd = some { unread := [], eof := false }) := by
  constructor
  . intro s
    constructor
    . exact (Pooled.coupled_init w).reaches_of_server
    . rintro ⟨p, hreaches, rfl⟩
      exact Pooled.reaches_server (fun _ _ => rfl) hreaches
  . intro p hreaches
    have hp := (Pooled.coupled_init w).of_reaches hreaches
    have hsteady := Server.steady_of_reaches hkeep.keepsDescriptor
      (Pooled.reaches_server (fun _ _ => rfl) hreaches)
    refine ⟨hp.run, hp.tasks, fun as p' hrun => ?_, fun hquiescent hcrashed => ?_⟩
    . refine countP_le_add_of_run (fun p : Pooled σ W => p.server.Owned) Pooled.rank PooledAction.isInternal
        PooledAction.isSpuriousWake ?_ hsteady.wired.owned hrun
      intro p action p' howned hquiet hstep
      have hstep := (Pooled.Step.of_step hstep).2
      exact ⟨hstep.owned hkeep.keepsDescriptor howned, Pooled.rank_le_of_quiet howned hquiet hstep⟩
    . have hserver := hquiescent.server hp hcrashed
      refine ⟨hserver, hquiescent.notified hp hcrashed, fun i => ?_⟩
      rcases hserver.blocked hsteady hcrashed i with hidle | hblocked
      . exact .inl ⟨hquiescent.sleeping hp hcrashed hidle, hquiescent.tasks hp hcrashed hidle⟩
      . exact .inr hblocked

def sleepFirst : List (PooledAction 1) :=
  [.wait 0, .server (.listen 0), .server (.caller 0), .server (.acceptLoop 0 0), .server (.acceptLoop 0 5),
    .server (.acceptLoop 0 0), .server (.acceptLoop 0 0), .server (.hangUp 5), .notifyOne 0 (some 0), .wait 0,
    .server (.handleClient 0 0), .server (.handleClient 0 0), .server (.handleClient 0 0),
    .server (.handleClient 0 0), .wait 0]

theorem pooled_comesToRest_sleepFirst :
    ∃ p : Pooled Unit 1,
      run (Pooled.step {}) (fun _ action => action.allowed (fun a => !a.isStop))
          { server := { world := () } } sleepFirst = some p
        ∧ p.pool.ran = [5]
        ∧ p.pool.tasks = p.server.tasks
        ∧ p.server.Quiescent {} := by
  obtain ⟨p, hp, hran, hcrashed, hserver, hpool, hnotifying⟩ : ∃ p : Pooled Unit 1,
      run (Pooled.step {}) (fun _ action => action.allowed (fun a => !a.isStop))
          { server := { world := () } } sleepFirst = some p
        ∧ p.pool.ran = [5] ∧ ¬p.server.crashed ∧ p.server.workers 0 = .idle
        ∧ p.pool.workers 0 = .sleeping ∧ p.notifying = [] :=
    ⟨_, rfl, by decide +kernel, by decide +kernel, by decide +kernel, by decide +kernel, by decide +kernel⟩
  have hquiescent : p.Quiescent {} := by
    intro action hinternal
    cases action with
    | server action =>
      cases action with
      | handleClient i count =>
        rw [Fin.fin_one_eq_zero i]
        simp [Pooled.step, Pooled.handleClient, hcrashed, hserver]
      | _ => contradiction
    | wait i =>
      rw [Fin.fin_one_eq_zero i]
      simp [Pooled.step, Pooled.wait, ThreadEnvironment.step, hcrashed, hpool, PoolPc.isReady]
    | spuriousWake i => contradiction
    | notifyOne a woken => simp [Pooled.step, Pooled.notifyOne, hcrashed, hnotifying]
  have hkeep := OpenFlowEndpoint.handlersKeepConnection_empty (σ := Unit)
  have hrests := (pooled_comesToRest {} hkeep.keepsConnection ()).2 p (reaches_of_run hp)
  exact ⟨p, hp, hran, hrests.2.1, (hrests.2.2.2 hquiescent hcrashed).1⟩

end Oflib
