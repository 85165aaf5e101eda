import Mathlib.Algebra.GroupWithZero.Nat
import NetOrc.OpenFlow.ServerStep
import NetOrc.Transition.Threads

/-!
This module shows when a worker that uses a pointer into `connections_` owns the entry behind it: the
entry is still there, and no other worker uses it.
-/

namespace Oflib

open Transition

variable {σ : Type} {W : Nat}

def AcceptorPc.carried (pc : AcceptorPc) : Option Int32 :=
  match pc with
  | .enqueue fd => some fd
  | _ => none

def WorkerPc.carried (pc : WorkerPc) : Option Int32 :=
  match pc with
  | .idle => none
  | .top fd => some fd
  | .lookup fd => some fd
  | .recv fd _ => some fd
  | .ingest fd _ _ => some fd
  | .loop fd _ => some fd
  | .close fd _ => some fd

def WorkerPc.holds (pc : WorkerPc) : Option (Int32 × Nat) :=
  match pc with
  | .idle => none
  | .top _ => none
  | .lookup _ => none
  | .recv fd id => some (fd, id)
  | .ingest fd id _ => some (fd, id)
  | .loop fd id => some (fd, id)
  | .close fd id => some (fd, id)

theorem WorkerPc.carried_of_holds {pc : WorkerPc} {fd : Int32} {id : Nat}
    (h : pc.holds = some (fd, id)) : pc.carried = some fd := by
  cases pc <;> simp_all [holds, carried]

namespace Server

/--
The number of unfinished tasks for a descriptor: queued, running, or about to be queued.
-/
def load (s : Server σ W) (fd : Int32) : Nat :=
  s.tasks.count fd + threads (fun pc => pc.carried = some fd) s.workers
    + s.acceptors.countP (fun pc => pc.carried = some fd)

/-! What a step does to the number of unfinished tasks. -/

theorem load_setWorker {s s' : Server σ W} {i : Fin W} {pc : WorkerPc}
    (htasks : s'.tasks = s.tasks) (hacceptors : s'.acceptors = s.acceptors)
    (hworkers : s'.workers = Function.update s.workers i pc) (fd : Int32) :
    s'.load fd + (decide ((s.workers i).carried = some fd)).toNat
      =
    s.load fd + (decide (pc.carried = some fd)).toNat := by
  have hthreads := threads_update (p := fun pc => decide (pc.carried = some fd)) s.workers i pc
  unfold load
  rw [htasks, hacceptors, hworkers]
  omega

theorem load_setAcceptor {s s' : Server σ W} {a : Nat} {pc pc' : AcceptorPc}
    (htasks : s'.tasks = s.tasks) (hworkers : s'.workers = s.workers)
    (hpc : s.acceptors[a]? = some pc) (hacceptors : s'.acceptors = s.acceptors.set a pc')
    (fd : Int32) :
    s'.load fd + (decide (pc.carried = some fd)).toNat
      =
    s.load fd + (decide (pc'.carried = some fd)).toNat := by
  have hset := countP_set (p := fun pc : AcceptorPc => decide (pc.carried = some fd)) hpc pc'
  unfold load
  rw [htasks, hworkers, hacceptors]
  omega

theorem load_eq_of_worker {s s' : Server σ W} {i : Fin W} {pc : WorkerPc}
    (htasks : s'.tasks = s.tasks) (hacceptors : s'.acceptors = s.acceptors)
    (hworkers : s'.workers = Function.update s.workers i pc)
    (hcarried : pc.carried = (s.workers i).carried) (fd : Int32) : s'.load fd = s.load fd := by
  have hload := load_setWorker htasks hacceptors hworkers fd
  rw [hcarried] at hload
  omega

theorem load_add_of_finished {s s' : Server σ W} {i : Fin W} {fd : Int32}
    (htasks : s'.tasks = s.tasks) (hacceptors : s'.acceptors = s.acceptors)
    (hworkers : s'.workers = Function.update s.workers i .idle)
    (hcarried : (s.workers i).carried = some fd) (fd' : Int32) :
    s'.load fd' + (decide (fd = fd')).toNat = s.load fd' := by
  have hload := load_setWorker htasks hacceptors hworkers fd'
  rw [hcarried] at hload
  simpa [WorkerPc.carried] using hload

theorem load_eq_of_acceptor {s s' : Server σ W} {a : Nat} {pc pc' : AcceptorPc}
    (htasks : s'.tasks = s.tasks) (hworkers : s'.workers = s.workers)
    (hpc : s.acceptors[a]? = some pc) (hacceptors : s'.acceptors = s.acceptors.set a pc')
    (hcarried : pc'.carried = pc.carried) (fd : Int32) : s'.load fd = s.load fd := by
  have hload := load_setAcceptor htasks hworkers hpc hacceptors fd
  rw [hcarried] at hload
  omega

theorem load_add_of_insert {s s' : Server σ W} {a : Nat} {fd : Int32} {id : Nat}
    (htasks : s'.tasks = s.tasks) (hworkers : s'.workers = s.workers)
    (hpc : s.acceptors[a]? = some (.insert fd id))
    (hacceptors : s'.acceptors = s.acceptors.set a (.enqueue fd)) (fd' : Int32) :
    s'.load fd' = s.load fd' + (decide (fd = fd')).toNat := by
  have hload := load_setAcceptor htasks hworkers hpc hacceptors fd'
  simpa [AcceptorPc.carried] using hload

theorem load_eq_of_enqueue {s s' : Server σ W} {a : Nat} {fd : Int32}
    (htasks : s'.tasks = s.tasks ++ [fd]) (hworkers : s'.workers = s.workers)
    (hpc : s.acceptors[a]? = some (.enqueue fd))
    (hacceptors : s'.acceptors = s.acceptors.set a .check) (fd' : Int32) :
    s'.load fd' = s.load fd' := by
  have hset := countP_set (p := fun pc : AcceptorPc => decide (pc.carried = some fd')) hpc .check
  simp only [load, htasks, hworkers, hacceptors, List.count_append, List.count_singleton,
    AcceptorPc.carried] at hset ⊢
  by_cases hfd : fd = fd'
  . simp [hfd] at hset ⊢
    omega
  . simp [hfd] at hset ⊢
    omega

theorem load_eq_of_pop {s s' : Server σ W} {i : Fin W} {fd : Int32} (htasks : s.tasks = fd :: s'.tasks)
    (hacceptors : s'.acceptors = s.acceptors) (hpc : s.workers i = .idle)
    (hworkers : s'.workers = Function.update s.workers i (.top fd)) (fd' : Int32) :
    s'.load fd' = s.load fd' := by
  have hthreads := threads_update (p := fun pc : WorkerPc => decide (pc.carried = some fd'))
    s.workers i (.top fd)
  simp only [load, htasks, hworkers, hacceptors, List.count_cons, hpc, WorkerPc.carried]
    at hthreads ⊢
  by_cases hfd : fd = fd'
  . simp [hfd] at hthreads ⊢
    omega
  . simp [hfd] at hthreads ⊢
    omega

theorem Step.load_cases {ep : OpenFlowEndpoint σ} {s s' : Server σ W} {action : Action W}
    (h : Step ep s action s') :
    (∀ fd, s'.load fd = s.load fd)
      ∨ (∃ a result fd id, action = .acceptLoop a result ∧ s.acceptors[a]? = some (.insert fd id)
          ∧ ∀ fd', s'.load fd' = s.load fd' + (decide (fd = fd')).toNat)
      ∨ (∃ fd, ∀ fd', s'.load fd' + (decide (fd = fd')).toNat = s.load fd') := by
  cases h with
  | listen => exact .inl fun fd => rfl
  | stop => exact .inl fun fd => rfl
  | spawnJoinable => exact .inl fun fd => rfl
  | spawn => exact .inl fun fd => by simp [load, AcceptorPc.carried]
  | detach => exact .inl fun fd => rfl
  | sweep => exact .inl fun fd => rfl
  | check hpc => exact .inl (load_eq_of_acceptor rfl rfl hpc rfl (by split <;> rfl))
  | acceptFails hpc => exact .inl (load_eq_of_acceptor rfl rfl hpc rfl rfl)
  | accept hpc => exact .inl (load_eq_of_acceptor rfl rfl hpc rfl rfl)
  | insert hpc => exact .inr (.inl ⟨_, _, _, _, rfl, hpc, load_add_of_insert rfl rfl hpc rfl⟩)
  | enqueue hpc => exact .inl (load_eq_of_enqueue rfl rfl hpc rfl)
  | pop hpc htasks => exact .inl (load_eq_of_pop htasks rfl hpc rfl)
  | top hpc => exact .inl (load_eq_of_worker rfl rfl rfl (by rw [hpc]; rfl))
  | leave hpc =>
    exact .inr (.inr ⟨_, load_add_of_finished (s := s) rfl rfl rfl (by rw [hpc]; rfl)⟩)
  | miss hpc =>
    exact .inr (.inr ⟨_, load_add_of_finished (s := s) rfl rfl rfl (by rw [hpc]; rfl)⟩)
  | lookup hpc => exact .inl (load_eq_of_worker rfl rfl rfl (by rw [hpc]; rfl))
  | recvFails hpc => exact .inl (load_eq_of_worker rfl rfl rfl (by rw [hpc]; rfl))
  | recv hpc => exact .inl (load_eq_of_worker rfl rfl rfl (by rw [hpc]; rfl))
  | ingestFails hpc => exact .inl (load_eq_of_worker rfl rfl rfl (by rw [hpc]; rfl))
  | ingest hpc => exact .inl (load_eq_of_worker rfl rfl rfl (by rw [hpc]; rfl))
  | accepted hpc => exact .inl (load_eq_of_worker rfl rfl rfl (by rw [hpc]; rfl))
  | rejected hpc => exact .inl (load_eq_of_worker rfl rfl rfl (by rw [hpc]; rfl))
  | dispatched => exact .inl fun fd => rfl
  | close hpc =>
    exact .inr (.inr ⟨_, load_add_of_finished (s := s) rfl rfl rfl (by rw [hpc]; rfl)⟩)
  | waitForEvent => exact .inl fun fd => rfl
  | send => exact .inl fun fd => rfl
  | hangUp => exact .inl fun fd => rfl
  | reset => exact .inl fun fd => rfl

/-! Ownership. -/

def Live (s : Server σ W) : Prop :=
  ∀ i fd id, (s.workers i).holds = some (fd, id) → ∃ e, s.connections.lookup fd = some e ∧ e.id = id

def Exclusive (s : Server σ W) : Prop :=
  ∀ i j fd id, (s.workers i).holds = some (fd, id) → (s.workers j).holds = some (fd, id) → i = j

/--
The sweep of `stop` waits until no worker uses an entry, and an entry is only inserted for a descriptor
without unfinished tasks.
-/
def keepsOwnership (s : Server σ W) (action : Action W) : Bool :=
  match action with
  | .caller t => s.callers t = .sweep → ∀ i, (s.workers i).holds = none
  | .acceptLoop a _ =>
    match s.acceptors[a]? with
    | some (.insert fd _) => s.load fd = 0
    | _ => true
  | _ => true

theorem load_pos_of_carried {s : Server σ W} {i : Fin W} {fd : Int32}
    (h : (s.workers i).carried = some fd) : 0 < s.load fd := by
  have hpos := threads_pos (p := fun pc : WorkerPc => decide (pc.carried = some fd))
    s.workers i (by simpa using h)
  unfold load
  omega

theorem eq_of_carried {s : Server σ W} {i j : Fin W} {fd : Int32} (hload : s.load fd ≤ 1)
    (hi : (s.workers i).carried = some fd) (hj : (s.workers j).carried = some fd) : i = j := by
  refine eq_of_threads_le_one (p := fun pc : WorkerPc => decide (pc.carried = some fd))
    s.workers ?_ (by simpa using hi) (by simpa using hj)
  unfold load at hload
  omega

theorem Live.worker {s s' : Server σ W} (hlive : s.Live) (hload : ∀ fd, s.load fd ≤ 1) {i : Fin W}
    {pc : WorkerPc} (hworkers : s'.workers = Function.update s.workers i pc)
    (hothers : ∀ fd, s'.connections.lookup fd = s.connections.lookup fd
      ∨ (s.workers i).carried = some fd)
    (hown : ∀ fd id, pc.holds = some (fd, id) →
      ∃ e, s'.connections.lookup fd = some e ∧ e.id = id) : s'.Live := by
  intro j fd id hholds
  rw [hworkers] at hholds
  by_cases hj : j = i
  . subst hj
    rw [Function.update_self] at hholds
    exact hown fd id hholds
  . rw [Function.update_of_ne hj] at hholds
    cases hothers fd with
    | inl hsame => rw [hsame]; exact hlive j fd id hholds
    | inr hcarried =>
      exact absurd (eq_of_carried (hload fd) (WorkerPc.carried_of_holds hholds) hcarried) hj

theorem lookup_insert_or {s : Server σ W} {i : Fin W} {pc : WorkerPc} (hpc : s.workers i = pc)
    {fd : Int32} (hcarried : pc.carried = some fd := by rfl) {e : Entry} (fd' : Int32) :
    (s.connections.insert fd e).lookup fd' = s.connections.lookup fd'
      ∨ (s.workers i).carried = some fd' := by
  by_cases hfd : fd' = fd
  . right
    rw [hpc, hcarried, hfd]
  . left
    exact AList.lookup_insert_ne hfd

theorem entry_of_holds {connections : AList (fun _ : Int32 => Entry)} {fd fd' : Int32} {id id' : Nat}
    {conn : Connection} (hentry : connections.lookup fd = some ⟨id, conn⟩)
    (hholds : some (fd, id) = some (fd', id')) :
    ∃ e, connections.lookup fd' = some e ∧ e.id = id' := by
  cases hholds
  exact ⟨_, hentry, rfl⟩

theorem Live.step {ep : OpenFlowEndpoint σ} {s s' : Server σ W} {action : Action W}
    (hlive : s.Live) (hload : ∀ fd, s.load fd ≤ 1) (hguard : s.keepsOwnership action)
    (h : Step ep s action s') : s'.Live := by
  cases h with
  | listen => exact hlive
  | stop => exact hlive
  | spawnJoinable => exact hlive
  | spawn => exact hlive
  | detach => exact hlive
  | sweep hcaller =>
    intro i fd id hholds
    have hnone := of_decide_eq_true hguard hcaller i
    rw [hnone] at hholds
    contradiction
  | check => exact hlive
  | acceptFails => exact hlive
  | accept => exact hlive
  | @insert a result fd id hpc =>
    -- No task uses the entry that is replaced.
    have hzero : s.load fd = 0 := by simpa [keepsOwnership, hpc] using hguard
    intro j fd' id' hholds
    have hpos := load_pos_of_carried (s := s) (WorkerPc.carried_of_holds hholds)
    have hne : fd' ≠ fd := by
      rintro rfl
      omega
    rw [AList.lookup_insert_ne hne]
    exact hlive j fd' id' hholds
  | enqueue => exact hlive
  | pop => exact hlive.worker hload rfl (fun _ => .inl rfl) (by simp [WorkerPc.holds])
  | top => exact hlive.worker hload rfl (fun _ => .inl rfl) (by simp [WorkerPc.holds])
  | leave => exact hlive.worker hload rfl (fun _ => .inl rfl) (by simp [WorkerPc.holds])
  | miss => exact hlive.worker hload rfl (fun _ => .inl rfl) (by simp [WorkerPc.holds])
  | lookup hpc hentry =>
    exact hlive.worker hload rfl (fun _ => .inl rfl) (fun _ _ => entry_of_holds hentry)
  | recvFails hpc hentry =>
    exact hlive.worker hload rfl (fun _ => .inl rfl) (fun _ _ => entry_of_holds hentry)
  | recv hpc hentry =>
    exact hlive.worker hload rfl (fun _ => .inl rfl) (fun _ _ => entry_of_holds hentry)
  | ingestFails hpc hentry =>
    exact hlive.worker hload rfl (fun _ => .inl rfl) (fun _ _ => entry_of_holds hentry)
  | ingest hpc hentry =>
    exact hlive.worker hload rfl (lookup_insert_or hpc)
      (fun _ _ => entry_of_holds (AList.lookup_insert _))
  | accepted hpc hentry =>
    exact hlive.worker hload rfl (lookup_insert_or hpc) (by simp [WorkerPc.holds])
  | rejected hpc hentry =>
    exact hlive.worker hload rfl (lookup_insert_or hpc)
      (fun _ _ => entry_of_holds (AList.lookup_insert _))
  | dispatched hpc hentry =>
    refine hlive.worker hload (Function.update_eq_self _ _).symm (lookup_insert_or hpc)
      (fun fd id hholds => ?_)
    rw [hpc] at hholds
    exact entry_of_holds (AList.lookup_insert _) hholds
  | @close i count fd e hpc hentry =>
    refine hlive.worker hload rfl (fun fd' => ?_) (by simp [WorkerPc.holds])
    by_cases hfd : fd' = fd
    . right
      rw [hpc, hfd]
      rfl
    . left
      exact AList.lookup_erase_ne hfd
  | waitForEvent => exact hlive
  | send => exact hlive
  | hangUp => exact hlive
  | reset => exact hlive

theorem load_le_one_step {ep : OpenFlowEndpoint σ} {s s' : Server σ W} {action : Action W}
    (hload : ∀ fd, s.load fd ≤ 1) (hguard : s.keepsOwnership action) (h : Step ep s action s')
    (fd : Int32) : s'.load fd ≤ 1 := by
  have hle := hload fd
  rcases h.load_cases with hsame | ⟨a, result, fd', id, rfl, hpc, hmore⟩ | ⟨fd', hless⟩
  . rw [hsame]
    exact hle
  . have hzero : s.load fd' = 0 := by simpa [keepsOwnership, hpc] using hguard
    rw [hmore]
    by_cases hfd : fd' = fd
    . subst hfd
      simp [hzero]
    . simpa [hfd] using hle
  . have hless := hless fd
    omega

end Server

/--
On a server whose steps keep ownership, no worker ever uses an entry that is gone or that another
worker uses.
-/
theorem live_and_exclusive_of_keepsOwnership (ep : OpenFlowEndpoint σ) (w : σ) (s : Server σ W)
    (h : Reaches (Server.step ep) (fun s action => s.keepsOwnership action) { world := w } s) :
    s.Live ∧ s.Exclusive := by
  have hinv : s.Live ∧ ∀ fd, s.load fd ≤ 1 := by
    refine h.invariant (fun s => s.Live ∧ ∀ fd, s.load fd ≤ 1)
      (fun s action s' hs hguard hstep => ?_) ?_
    . have hstep := (Server.Step.of_step hstep).2
      exact ⟨hs.1.step hs.2 hguard hstep, Server.load_le_one_step hs.2 hguard hstep⟩
    . exact ⟨by simp [Server.Live, WorkerPc.holds], by simp [Server.load, threads, WorkerPc.carried]⟩
  refine ⟨hinv.1, fun i j fd id hi hj => ?_⟩
  exact Server.eq_of_carried (hinv.2 fd) (WorkerPc.carried_of_holds hi)
    (WorkerPc.carried_of_holds hj)

/-! Runs of a server with one worker, and the connection 5 as its first. -/

-- The one worker is `0 : Fin 1`, with the same instance in every run.
instance oneWorker : NeZero 1 := ⟨Nat.one_ne_zero⟩

def serveFirst : List (Action 1) :=
  [.listen 0, .caller 0, .acceptLoop 0 0, .acceptLoop 0 5, .acceptLoop 0 0, .acceptLoop 0 0,
    .handleClient 0 0, .handleClient 0 0, .handleClient 0 0]

theorem live_and_exclusive_of_keepsOwnership_stop :
    ∃ s : Server Unit 1,
      run (Server.step {}) (fun s action => s.keepsOwnership action) { world := () }
          (serveFirst ++ [.hangUp 5, .handleClient 0 0, .handleClient 0 0, .stop 0, .caller 0,
            .caller 0]) = some s
        ∧ s.Live ∧ s.Exclusive := by
  obtain ⟨s, hs⟩ : ∃ s : Server Unit 1,
      run (Server.step {}) (fun s action => s.keepsOwnership action) { world := () }
          (serveFirst ++ [.hangUp 5, .handleClient 0 0, .handleClient 0 0, .stop 0, .caller 0,
            .caller 0]) = some s := Option.isSome_iff_exists.mp (by decide +kernel)
  exact ⟨s, hs, live_and_exclusive_of_keepsOwnership {} () s (reaches_of_run hs)⟩

/--
`stop` while a worker is inside of `recv`: the entry it looked up is gone. `stop` and `listen` while a
task for descriptor 5 is queued, and the same descriptor accepted again: two workers use one entry.
-/
theorem ownership_fails_of_stop :
    (∃ s : Server Unit 1,
      Reaches (Server.step {}) (fun _ _ => True) { world := () } s
        ∧ (s.workers 0).holds = some (5, 0) ∧ s.connections.lookup 5 = none ∧ ¬s.Live)
      ∧ ∃ s : Server Unit 2,
        Reaches (Server.step {}) (fun _ _ => True) { world := () } s
          ∧ (s.workers 0).holds = some (5, 1) ∧ (s.workers 1).holds = some (5, 1)
          ∧ ¬s.Exclusive := by
  constructor
  . obtain ⟨s, hs, hworker, hentry⟩ : ∃ s : Server Unit 1,
        run (Server.step {}) (fun _ _ => true) { world := () }
            (serveFirst ++ [.stop 0, .caller 0, .caller 0]) = some s
          ∧ (s.workers 0).holds = some (5, 0) ∧ s.connections.lookup 5 = none :=
      ⟨_, rfl, by decide +kernel, by decide +kernel⟩
    refine ⟨s, (reaches_of_run hs).weaken (fun _ _ _ => trivial), hworker, hentry, fun hlive => ?_⟩
    rcases hlive 0 5 0 hworker with ⟨e, he, _⟩
    rw [hentry] at he
    contradiction
  . obtain ⟨s, hs, hworker, hworker'⟩ : ∃ s : Server Unit 2,
        run (Server.step {}) (fun _ _ => true) { world := () }
            [.listen 0, .caller 0, .acceptLoop 0 0, .acceptLoop 0 5, .acceptLoop 0 0, .acceptLoop 0 0,
              .stop 0, .caller 0, .caller 0, .listen 0, .caller 0,
              .acceptLoop 1 0, .acceptLoop 1 5, .acceptLoop 1 0, .acceptLoop 1 0,
              .handleClient 0 0, .handleClient 0 0, .handleClient 0 0,
              .handleClient 1 0, .handleClient 1 0, .handleClient 1 0] = some s
          ∧ (s.workers 0).holds = some (5, 1) ∧ (s.workers 1).holds = some (5, 1) :=
      ⟨_, rfl, by decide +kernel, by decide +kernel⟩
    refine ⟨s, (reaches_of_run hs).weaken (fun _ _ _ => trivial), hworker, hworker', fun hexcl => ?_⟩
    have heq := hexcl 0 1 5 1 hworker hworker'
    contradiction

end Oflib
