import NetOrc.OpenFlow.Chunking
import NetOrc.OpenFlow.Scheduling

/-!
This module shows which connections the pool serves, and in which ways a connection can starve.
-/

namespace Oflib

open Transition

variable {σ : Type} {W : Nat}

namespace Server

variable {ep : OpenFlowEndpoint σ} {s s' : Server σ W}

/-! Connections that the pool does not get to. -/

/--
The accept loops and the workers alone never pass the unread bytes behind a descriptor to `ingest`.
-/
def Starves (ep : OpenFlowEndpoint σ) (s : Server σ W) (fd : Int32) : Prop :=
  s.running ∧ ∃ e sock, s.connections.lookup fd = some e ∧ s.sockets fd = some sock
    ∧ sock.unread ≠ []
    ∧ ∀ s' : Server σ W, Reaches (Server.step ep) (fun _ action => action.isServer) s s' →
      ¬∃ p, s.history.passed e.id <+: p ∧ s'.history.passed e.id = p ++ sock.unread

theorem starves_of_passed {fd : Int32} {e : Entry} {sock : Socket} (hrunning : s.running)
    (hentry : s.connections.lookup fd = some e) (hsocket : s.sockets fd = some sock)
    (hunread : sock.unread ≠ [])
    (hpassed : ∀ s' : Server σ W, Reaches (Server.step ep) (fun _ action => action.isServer) s s' →
      s'.history.passed e.id = s.history.passed e.id) : Starves ep s fd := by
  refine ⟨hrunning, e, sock, hentry, hsocket, hunread, fun s' hreaches => ?_⟩
  rintro ⟨p, hpre, hp⟩
  have hlength := congrArg List.length hp
  have hle := hpre.length_le
  have hpos := List.length_pos_iff.mpr hunread
  rw [hpassed s' hreaches, List.length_append] at hlength
  omega

def Blocked (s : Server σ W) : Prop :=
  ∀ i, ∃ fd id, s.workers i = .recv fd id ∧ s.sockets fd = some {}

theorem Blocked.handleClient (hs : s.Wired) (h : s.Blocked) {i : Fin W} {count : Nat} :
    ¬Step ep s (.handleClient i count) s' := by
  rcases h i with ⟨fd, id, hpc, hsocket⟩
  intro hstep
  have hconn : ∀ {e : Entry}, s.connections.lookup fd = some e →
      ¬e.conn.fd < 0 ∧ s.sockets e.conn.fd = some {} := by
    intro e hentry
    rcases hs.entry fd e hentry with ⟨hfd, hopen, _⟩
    rw [hfd]
    exact ⟨hopen, hsocket⟩
  cases hstep with
  | recvFails hpc' hentry hclosed =>
    cases hpc.symm.trans hpc'
    rcases hconn hentry with ⟨hopen, hsilent⟩
    rw [hsilent] at hclosed
    simp [hopen] at hclosed
  | recv hpc' hentry _ hsocket' hcount =>
    cases hpc.symm.trans hpc'
    rw [(hconn hentry).2] at hsocket'
    cases hsocket'
    simp at hcount
    omega
  | _ hpc' => cases hpc.symm.trans hpc'

theorem Blocked.passed (hkeep : KeepsDescriptor ep.dispatch) (hs : s.Steady) (h : s.Blocked)
    (hreaches : Reaches (Server.step ep) (fun _ action => action.isServer) s s') :
    s'.history.passed = s.history.passed := by
  have hinv : s'.Steady ∧ s'.Blocked ∧ s'.history.passed = s.history.passed := by
    refine hreaches.invariant
      (fun s' => s'.Steady ∧ s'.Blocked ∧ s'.history.passed = s.history.passed)
      (fun s₁ action s₂ hs₁ hguard hstep => ?_) ⟨hs, h, rfl⟩
    rcases hs₁ with ⟨hsteady, hblocked, hpassed⟩
    have hstep := (Step.of_step hstep).2
    cases action with
    | handleClient i count => exact absurd hstep (hblocked.handleClient hsteady.wired)
    | acceptLoop a result =>
      refine ⟨hsteady.step hkeep (by simp [Action.isStop]) hstep, ?_⟩
      cases hstep with
      | accept _ _ hfree =>
        refine ⟨fun i => ?_, hpassed⟩
        rcases hblocked i with ⟨fd, id, hpc, hsocket⟩
        refine ⟨fd, id, hpc, ?_⟩
        have hne : fd ≠ result := by
          rintro rfl
          rw [hfree] at hsocket
          contradiction
        exact (Function.update_of_ne hne _ _).trans hsocket
      | _ => exact ⟨hblocked, hpassed⟩
    | _ => contradiction
  exact hinv.2.2

/--
No task will read from the connection with this number: it is no longer in `connections_`, or no task
for its descriptor is left but one that is about to close it.
-/
structure Forgotten (s : Server σ W) (id : Nat) : Prop where
  accepted : id < s.history.accepted.length
  pending : ∀ (a : Nat) fd, s.acceptors[a]? ≠ some (AcceptorPc.insert fd id)
  entry : ∀ fd e, s.connections.lookup fd = some e → e.id = id →
    s.load fd = 0 ∨ s.load fd ≤ 1 ∧ ∃ i, s.workers i = .close fd id

theorem Forgotten.congr {id : Nat} (h : s.Forgotten id)
    (haccepted : s.history.accepted.length ≤ s'.history.accepted.length)
    (hpending : ∀ (a : Nat) fd, s'.acceptors[a]? = some (AcceptorPc.insert fd id) →
      s.acceptors[a]? = some (AcceptorPc.insert fd id))
    (hentry : ∀ fd e, s'.connections.lookup fd = some e → e.id = id →
      (∃ e', s.connections.lookup fd = some e' ∧ e'.id = id) ∧ s'.load fd ≤ s.load fd
        ∧ ∀ i, s.workers i = .close fd id → s'.workers i = .close fd id) : s'.Forgotten id where
  accepted := Nat.lt_of_lt_of_le h.accepted haccepted
  pending := fun a fd hpc => h.pending a fd (hpending a fd hpc)
  entry := by
    intro fd e he hid
    rcases hentry fd e he hid with ⟨⟨e', he', hid'⟩, hload, hworkers⟩
    cases h.entry fd e' he' hid' with
    | inl hzero => exact .inl (by omega)
    | inr hclose =>
      rcases hclose with ⟨hone, i, hi⟩
      exact .inr ⟨by omega, i, hworkers i hi⟩

theorem Forgotten.id_ne {id : Nat} (h : s.Forgotten id) {i : Fin W} {fd : Int32} {e : Entry}
    (hcarried : (s.workers i).carried = some fd) (hclose : ∀ id, s.workers i ≠ .close fd id)
    (hentry : s.connections.lookup fd = some e) : e.id ≠ id := by
  intro hid
  have hpos := load_pos_of_carried hcarried
  cases h.entry fd e hentry hid with
  | inl hzero => omega
  | inr hclosing =>
    rcases hclosing with ⟨hone, j, hj⟩
    cases eq_of_carried hone hcarried (congrArg WorkerPc.carried hj)
    exact hclose id hj

theorem Step.load_le {action : Action W} (h : Step ep s action s') {fd : Int32}
    (hinsert : ∀ a result id, action = .acceptLoop a result →
      s.acceptors[a]? ≠ some (AcceptorPc.insert fd id)) : s'.load fd ≤ s.load fd := by
  rcases h.load_cases with hsame | ⟨a, result, fd', id, haction, hpc, hmore⟩ | ⟨fd', hless⟩
  . exact Nat.le_of_eq (hsame fd)
  . have hne : fd' ≠ fd := by
      rintro rfl
      exact hinsert a result id haction hpc
    rw [hmore]
    simp [hne]
  . have hless := hless fd
    omega

theorem Forgotten.worker {id : Nat} (h : s.Forgotten id) {i : Fin W} {pc : WorkerPc} {fd : Int32}
    (hpc : s.workers i = pc) (hcarried : pc.carried = some fd) (hclose : ∀ id, pc ≠ .close fd id)
    {count : Nat} (hstep : Step ep s (.handleClient i count) s')
    (hothers : ∀ j, j ≠ i → s'.workers j = s.workers j)
    (hconnections : ∀ fd', s'.connections.lookup fd' = s.connections.lookup fd'
      ∨ fd' = fd ∧ ∃ e e', s.connections.lookup fd = some e ∧ e'.id = e.id
        ∧ s'.connections.lookup fd = some e')
    (hacceptors : s'.acceptors = s.acceptors)
    (haccepted : s'.history.accepted = s.history.accepted) : s'.Forgotten id := by
  refine h.congr (by rw [haccepted]) (by rw [hacceptors]; exact fun _ _ h => h)
    (fun fd' e' he' hid => ⟨?_, hstep.load_le (by nofun), fun j hj => ?_⟩)
  . rcases hconnections fd' with hsame | ⟨rfl, e, e'', hentry, hid', hentry'⟩
    . exact ⟨e', by rw [← hsame, he'], hid⟩
    . rw [hentry'] at he'
      cases he'
      exact ⟨e, hentry, by rw [← hid', hid]⟩
  . rw [hothers j ?_, hj]
    rintro rfl
    rw [hpc] at hj
    rw [hj] at hcarried
    cases hcarried
    exact hclose id hj

theorem lookup_insert_or_id {fd : Int32} {e e' : Entry} (hentry : s.connections.lookup fd = some e)
    (hid : e'.id = e.id) (fd' : Int32) :
    (s.connections.insert fd e').lookup fd' = s.connections.lookup fd'
      ∨ fd' = fd ∧ ∃ e₁ e₂, s.connections.lookup fd = some e₁ ∧ e₂.id = e₁.id
        ∧ (s.connections.insert fd e').lookup fd = some e₂ := by
  by_cases hfd : fd' = fd
  . exact .inr ⟨hfd, e, e', hentry, hid, AList.lookup_insert _⟩
  . exact .inl (AList.lookup_insert_ne hfd)

theorem Step.load_le_of_acceptor {a : Nat} {result fd : Int32} {pc : AcceptorPc}
    (h : Step ep s (.acceptLoop a result) s') (hpc : s.acceptors[a]? = some pc)
    (hinsert : ∀ id, pc ≠ .insert fd id) : s'.load fd ≤ s.load fd := by
  apply h.load_le
  rintro _ _ id ⟨⟩ hpc'
  cases hpc.symm.trans hpc'
  exact hinsert id rfl

theorem Forgotten.frame {id : Nat} (h : s.Forgotten id)
    (haccepted : s.history.accepted.length ≤ s'.history.accepted.length)
    (hpending : ∀ (a : Nat) fd, s'.acceptors[a]? = some (AcceptorPc.insert fd id) →
      s.acceptors[a]? = some (AcceptorPc.insert fd id))
    (hconnections : s'.connections = s.connections) (hworkers : s'.workers = s.workers)
    (hload : ∀ fd, s'.load fd ≤ s.load fd) : s'.Forgotten id := by
  apply h.congr haccepted hpending
  intro fd e he hid
  rw [hconnections] at he
  rw [hworkers]
  exact ⟨⟨e, he, hid⟩, hload fd, fun _ h => h⟩

theorem pending_of_set {id a : Nat} {pc : AcceptorPc} (hpc : ∀ fd, pc ≠ .insert fd id) (b : Nat)
    (fd : Int32) (hb : (s.acceptors.set a pc)[b]? = some (AcceptorPc.insert fd id)) :
    s.acceptors[b]? = some (AcceptorPc.insert fd id) :=
  (getElem?_set_insert hb).resolve_left (hpc fd)

theorem Forgotten.spawned {id : Nat} (h : s.Forgotten id)
    (hacceptors : s'.acceptors = s.acceptors ++ [.check]) (hhistory : s'.history = s.history)
    (hconnections : s'.connections = s.connections) (hworkers : s'.workers = s.workers)
    (hload : ∀ fd, s'.load fd ≤ s.load fd) : s'.Forgotten id := by
  refine h.frame (by rw [hhistory]) (fun a fd hpc => ?_) hconnections hworkers hload
  rw [hacceptors, List.getElem?_append] at hpc
  split at hpc
  . exact hpc
  . rw [List.getElem?_singleton] at hpc
    split at hpc <;> cases hpc

theorem Forgotten.inserted {id a id' : Nat} {result fd : Int32} {e : Entry} (h : s.Forgotten id)
    (hstep : Step ep s (.acceptLoop a result) s') (hpc : s.acceptors[a]? = some (.insert fd id'))
    (hid' : e.id = id') (hacceptors : s'.acceptors = s.acceptors.set a (.enqueue fd))
    (hconnections : s'.connections = s.connections.insert fd e) (hworkers : s'.workers = s.workers)
    (hhistory : s'.history = s.history) : s'.Forgotten id := by
  -- The new entry is that of another connection.
  have hne : e.id ≠ id := by
    rintro rfl
    exact h.pending a fd (by rw [hpc, hid'])
  refine h.congr (by rw [hhistory]) (by rw [hacceptors]; exact pending_of_set nofun)
    (fun fd' e' he hid => ?_)
  rw [hconnections] at he
  by_cases hfd : fd' = fd
  . rw [hfd, AList.lookup_insert] at he
    cases he
    exact absurd hid hne
  . rw [AList.lookup_insert_ne hfd] at he
    rw [hworkers]
    refine ⟨⟨e', he, hid⟩, hstep.load_le_of_acceptor hpc (fun _ heq => ?_), fun _ h => h⟩
    cases heq
    exact hfd rfl

theorem Forgotten.closed {id : Nat} {i : Fin W} {count : Nat} {fd : Int32} {e : Entry}
    (h : s.Forgotten id) (hstep : Step ep s (.handleClient i count) s')
    (hpc : s.workers i = .close fd e.id) (hconnections : s'.connections = s.connections.erase fd)
    (hworkers : s'.workers = Function.update s.workers i .idle) (hacceptors : s'.acceptors = s.acceptors)
    (hhistory : s'.history = s.history) : s'.Forgotten id := by
  refine h.congr (by rw [hhistory]) (by rw [hacceptors]; exact fun _ _ h => h)
    (fun fd' e' he' hid => ?_)
  rw [hconnections] at he'
  by_cases hfd : fd' = fd
  . rw [hfd, AList.lookup_erase] at he'
    contradiction
  . rw [AList.lookup_erase_ne hfd] at he'
    refine ⟨⟨e', he', hid⟩, hstep.load_le nofun, fun j hj => ?_⟩
    have hji : j ≠ i := by
      rintro rfl
      cases hpc.symm.trans hj
      exact hfd rfl
    rw [hworkers, Function.update_of_ne hji, hj]

theorem Forgotten.step {id : Nat} {action : Action W} (h : s.Forgotten id)
    (hstep : Step ep s action s') : s'.Forgotten id := by
  have hupdate : ∀ {i : Fin W} {pc : WorkerPc} j, j ≠ i → Function.update s.workers i pc j = s.workers j :=
    fun j hj => Function.update_of_ne hj _ _
  have hcases := hstep
  cases hcases with
  | spawn => exact h.spawned rfl rfl rfl rfl (fun fd => hstep.load_le nofun)
  | sweep => exact h.congr le_rfl (fun _ _ h => h) (fun fd e he => nomatch he)
  | check hpc =>
    refine h.frame le_rfl (pending_of_set fun fd => ?_) rfl rfl
      (fun fd => hstep.load_le_of_acceptor hpc nofun)
    split <;> nofun
  | acceptFails hpc =>
    exact h.frame le_rfl (pending_of_set nofun) rfl rfl
      (fun fd => hstep.load_le_of_acceptor hpc nofun)
  | accept hpc =>
    refine h.frame (by simp) (pending_of_set fun fd heq => ?_) rfl rfl
      (fun fd => hstep.load_le_of_acceptor hpc nofun)
    cases heq
    exact Nat.lt_irrefl _ h.accepted
  | insert hpc => exact h.inserted hstep hpc rfl rfl rfl rfl rfl
  | enqueue hpc =>
    exact h.frame le_rfl (pending_of_set nofun) rfl rfl
      (fun fd => hstep.load_le_of_acceptor hpc nofun)
  | pop hpc =>
    refine h.congr le_rfl (fun _ _ h => h)
      (fun fd e he hid => ⟨⟨e, he, hid⟩, hstep.load_le nofun, fun j hj => ?_⟩)
    refine (hupdate j ?_).trans hj
    rintro rfl
    cases hpc.symm.trans hj
  | top hpc => exact h.worker hpc rfl nofun hstep hupdate (fun _ => .inl rfl) rfl rfl
  | leave hpc => exact h.worker hpc rfl nofun hstep hupdate (fun _ => .inl rfl) rfl rfl
  | miss hpc => exact h.worker hpc rfl nofun hstep hupdate (fun _ => .inl rfl) rfl rfl
  | lookup hpc => exact h.worker hpc rfl nofun hstep hupdate (fun _ => .inl rfl) rfl rfl
  | recvFails hpc => exact h.worker hpc rfl nofun hstep hupdate (fun _ => .inl rfl) rfl rfl
  | recv hpc => exact h.worker hpc rfl nofun hstep hupdate (fun _ => .inl rfl) rfl rfl
  | ingestFails hpc => exact h.worker hpc rfl nofun hstep hupdate (fun _ => .inl rfl) rfl rfl
  | ingest hpc hentry =>
    exact h.worker hpc rfl nofun hstep hupdate (lookup_insert_or_id hentry (by rfl)) rfl rfl
  | accepted hpc hentry =>
    exact h.worker hpc rfl nofun hstep hupdate (lookup_insert_or_id hentry (by rfl)) rfl rfl
  | rejected hpc hentry =>
    exact h.worker hpc rfl nofun hstep hupdate (lookup_insert_or_id hentry (by rfl)) rfl rfl
  | dispatched hpc hentry =>
    exact h.worker hpc rfl nofun hstep (fun _ _ => rfl) (lookup_insert_or_id hentry (by rfl)) rfl rfl
  | close hpc hentry => exact h.closed hstep hpc rfl rfl rfl rfl
  | _ => exact h.frame le_rfl (fun _ _ h => h) rfl rfl (fun _ => le_rfl)

theorem Forgotten.passed_step {id : Nat} {action : Action W} (h : s.Forgotten id)
    (hstep : Step ep s action s') : s'.history.passed id = s.history.passed id := by
  cases hstep with
  | ingestFails hpc hentry =>
    have hne := h.id_ne (congrArg WorkerPc.carried hpc) (by rw [hpc]; nofun) hentry
    exact Function.update_of_ne (Ne.symm hne) _ _
  | ingest hpc hentry =>
    have hne := h.id_ne (congrArg WorkerPc.carried hpc) (by rw [hpc]; nofun) hentry
    exact Function.update_of_ne (Ne.symm hne) _ _
  | _ => rfl

theorem Forgotten.passed {id : Nat} (h : s.Forgotten id) {guard : Server σ W → Action W → Prop}
    (hreaches : Reaches (Server.step ep) guard s s') :
    s'.history.passed id = s.history.passed id := by
  have hinv : s'.Forgotten id ∧ s'.history.passed id = s.history.passed id := by
    refine hreaches.invariant
      (fun s' => s'.Forgotten id ∧ s'.history.passed id = s.history.passed id)
      (fun s₁ action s₂ hs₁ _ hstep => ?_) ⟨h, rfl⟩
    have hstep := (Step.of_step hstep).2
    exact ⟨hs₁.1.step hstep, (hs₁.1.passed_step hstep).trans hs₁.2⟩
  exact hinv.2

end Server

/--
On a running server that was never stopped, the accept loops and the workers alone can pass the unread
bytes of a connection to `ingest`, when its task is running, or when fewer than `W` of the tasks ahead
of it, running or queued, belong to peers that are still connected.
-/
theorem serves_of_free_worker (ep : OpenFlowEndpoint σ) (hkeep : KeepsDescriptor ep.dispatch) (w : σ)
    (s : Server σ W)
    (hreaches : Reaches (Server.step ep) (fun _ action => !action.isStop) { world := w } s)
    (hrunning : s.running) (fd : Int32) (e : Entry) (sock : Socket)
    (hentry : s.connections.lookup fd = some e) (hsocket : s.sockets fd = some sock)
    (hfree : (∃ i, (s.workers i).carried = some fd)
      ∨ s.busy s.peerOpen + (s.tasks.takeWhile (fun fd' => fd' ≠ fd)).countP s.peerOpen < W) :
    ∃ s' : Server σ W, Reaches (Server.step ep) (fun _ action => action.isServer) s s'
      ∧ Server.Serves s s' e sock.unread := by
  by_cases hcrashed : s.crashed
  . exact ⟨s, .refl, .inl hcrashed⟩
  have hsteady := Server.steady_of_reaches hkeep hreaches
  have hwaiting : Server.Waiting s s s.peerOpen fd e sock :=
    ⟨hsteady, hcrashed, hrunning, hentry, hsocket, rfl, fun _ h => h⟩
  rcases hfree with ⟨i, hcarried⟩ | hbusy
  . exact hwaiting.serves hkeep hcarried
  rcases hsteady.wired.carrier hentry with ⟨i, hcarried⟩ | hmem | ⟨hmem, a, hpc⟩
  . exact hwaiting.serves hkeep hcarried
  . rcases Server.eq_takeWhile_append hmem with ⟨behind, htasks⟩
    exact hwaiting.servesQueued hkeep htasks hbusy
  . -- The task is about to be queued behind all others.
    have hself : s.tasks.takeWhile (fun fd' => fd' ≠ fd) = s.tasks := by
      refine List.takeWhile_eq_self_iff.mpr fun fd' hfd' => decide_eq_true ?_
      rintro rfl
      exact hmem hfd'
    rw [hself] at hbusy
    rcases hwaiting.enqueue hkeep hpc with ⟨s₁, hreaches₁, h₁, htasks₁, hbusy₁⟩
    rcases h₁.servesQueued hkeep htasks₁ (by rwa [hbusy₁]) with ⟨s', hreaches', hserves⟩
    exact ⟨s', hreaches₁.trans hreaches', hserves⟩

/-! Runs of a server with one worker, and the connections 5 and 6. -/

def serveSecond : List (Action 1) :=
  serveFirst ++ [.acceptLoop 0 0, .acceptLoop 0 6, .acceptLoop 0 0, .acceptLoop 0 0, .send 6 [1]]

theorem serves_of_free_worker_hangUp :
    ∃ s s' : Server Unit 1,
      run (Server.step {}) (fun _ action => !action.isStop) { world := () }
          (serveSecond ++ [.hangUp 5]) = some s
        ∧ (s.workers 0).carried = some 5 ∧ s.tasks = [6]
        ∧ Reaches (Server.step {}) (fun _ action => action.isServer) s s'
        ∧ Server.Serves s s' ⟨1, { fd := 6 }⟩ [1] := by
  obtain ⟨s, hs, hrunning, hentry, hsocket, hworker, htasks, hbusy⟩ : ∃ s : Server Unit 1,
      run (Server.step {}) (fun _ action => !action.isStop) { world := () }
          (serveSecond ++ [.hangUp 5]) = some s
        ∧ s.running ∧ s.connections.lookup 6 = some ⟨1, { fd := 6 }⟩
        ∧ s.sockets 6 = some { unread := [1] } ∧ (s.workers 0).carried = some 5 ∧ s.tasks = [6]
        ∧ s.busy s.peerOpen + (s.tasks.takeWhile (fun fd' => fd' ≠ 6)).countP s.peerOpen < 1 :=
    ⟨_, rfl, by decide +kernel⟩
  obtain ⟨s', hreaches, hserves⟩ := serves_of_free_worker {} (fun _ _ _ _ => rfl) () s
    (reaches_of_run hs) hrunning 6 _ _ hentry hsocket (.inr hbusy)
  exact ⟨s, s', hs, hworker, htasks, hreaches, hserves⟩

namespace Server

/-! A server with one worker, where nothing is queued and nothing is being accepted. -/

theorem ne_insert_of_check {s : Server σ 1} (hchecks : ∀ pc ∈ s.acceptors, pc = .check) {id : Nat}
    (a : Nat) (fd : Int32) : s.acceptors[a]? ≠ some (AcceptorPc.insert fd id) := by
  intro hpc
  have hcheck := hchecks _ (List.mem_of_getElem? hpc)
  contradiction

theorem load_of_check {s : Server σ 1} (htasks : s.tasks = [])
    (hchecks : ∀ pc ∈ s.acceptors, pc = .check) (fd : Int32) :
    s.load fd = (decide ((s.workers 0).carried = some fd)).toNat := by
  have hzero : s.acceptors.countP (fun pc => pc.carried = some fd) = 0 := by
    apply List.countP_eq_zero.mpr
    intro pc hpc
    rw [hchecks pc hpc]
    simp [AcceptorPc.carried]
  have hthreads := threads_update (p := fun pc : WorkerPc => decide (pc.carried = some fd))
    (fun _ : Fin 1 => .idle) 0 (s.workers 0)
  have hworkers : Function.update (fun _ : Fin 1 => WorkerPc.idle) 0 (s.workers 0) = s.workers := by
    funext i
    rw [Fin.fin_one_eq_zero i, Function.update_self]
  rw [hworkers] at hthreads
  rw [load, htasks, hzero]
  simpa [threads, WorkerPc.carried] using hthreads

theorem Forgotten.of_idle {s : Server σ 1} {id : Nat} (haccepted : id < s.history.accepted.length)
    (hworker : s.workers 0 = .idle) (htasks : s.tasks = [])
    (hchecks : ∀ pc ∈ s.acceptors, pc = .check) : s.Forgotten id := by
  refine ⟨haccepted, ne_insert_of_check hchecks, fun fd e _ _ => .inl ?_⟩
  rw [load_of_check htasks hchecks, hworker]
  rfl

theorem Forgotten.of_close {s : Server σ 1} {fd : Int32} {id : Nat}
    (haccepted : id < s.history.accepted.length) (hworker : s.workers 0 = .close fd id)
    (htasks : s.tasks = []) (hchecks : ∀ pc ∈ s.acceptors, pc = .check) : s.Forgotten id := by
  refine ⟨haccepted, ne_insert_of_check hchecks, fun fd' e _ _ => ?_⟩
  rw [load_of_check htasks hchecks, hworker]
  by_cases hfd : fd' = fd
  . right
    rw [hfd]
    exact ⟨Bool.toNat_le _, 0, hworker⟩
  . left
    simp [WorkerPc.carried, Ne.symm hfd]

def Throws (ep : OpenFlowEndpoint σ) (s : Server σ 1) (fd : Int32) (e : Entry) : Prop :=
  s.workers 0 = .loop fd e.id ∧ s.connections.lookup fd = some e
    ∧ ∃ d r, ep.ingestStep (serverDispatch ep) e.conn (s.world, s.events) = .dispatched d r
      ∧ r.fault.isSome

theorem Throws.step {s s' : Server σ 1} {fd : Int32} {e : Entry} {action : Action 1} (hs : s.Wired)
    (h : Throws ep s fd e) (hguard : action.isServer) (hstep : Step ep s action s') :
    s'.history.passed = s.history.passed ∧ (s'.crashed ∨ Throws ep s' fd e) := by
  rcases h with ⟨hpc, hentry, d, r, hround, hfault⟩
  have hworker : ∀ i, s.workers i = .loop fd e.id := by
    intro i
    rw [Fin.fin_one_eq_zero i, hpc]
  have hsame : ∀ {i fd' e'}, s.workers i = .loop fd' e'.id → s.connections.lookup fd' = some e' →
      fd' = fd ∧ e' = e := by
    intro i fd' e' hpc' hentry'
    injection (hworker i).symm.trans hpc' with hfd
    subst hfd
    exact ⟨rfl, (Option.some.inj (hentry.symm.trans hentry')).symm⟩
  cases hstep with
  | check => exact ⟨rfl, .inr ⟨hpc, hentry, d, r, hround, hfault⟩⟩
  | acceptFails => exact ⟨rfl, .inr ⟨hpc, hentry, d, r, hround, hfault⟩⟩
  | accept => exact ⟨rfl, .inr ⟨hpc, hentry, d, r, hround, hfault⟩⟩
  | enqueue => exact ⟨rfl, .inr ⟨hpc, hentry, d, r, hround, hfault⟩⟩
  | @insert a result fd' id hinsert =>
    have hne : fd ≠ fd' := by
      rintro rfl
      rw [hs.owned.lookup_of_insert hinsert] at hentry
      contradiction
    exact ⟨rfl, .inr ⟨hpc, (AList.lookup_insert_ne hne).trans hentry, d, r, hround, hfault⟩⟩
  | dispatched hpc' hentry' hround' =>
    rcases hsame hpc' hentry' with ⟨rfl, rfl⟩
    cases hround.symm.trans hround'
    exact ⟨rfl, .inl hfault⟩
  | accepted hpc' hentry' hround' =>
    rcases hsame hpc' hentry' with ⟨rfl, rfl⟩
    cases hround.symm.trans hround'
  | rejected hpc' hentry' hround' =>
    rcases hsame hpc' hentry' with ⟨rfl, rfl⟩
    cases hround.symm.trans hround'
  | _ hpc' =>
    first
    | contradiction
    | cases (hworker _).symm.trans hpc'

theorem Throws.passed {s s' : Server σ 1} {fd : Int32} {e : Entry}
    (hkeep : KeepsDescriptor ep.dispatch) (hs : s.Steady) (h : Throws ep s fd e)
    (hreaches : Reaches (Server.step ep) (fun _ action => action.isServer) s s') :
    s'.history.passed = s.history.passed := by
  have hinv : s'.history.passed = s.history.passed
      ∧ (s'.crashed ∨ s'.Steady ∧ Throws ep s' fd e) := by
    refine hreaches.invariant (fun s' => s'.history.passed = s.history.passed
      ∧ (s'.crashed ∨ s'.Steady ∧ Throws ep s' fd e)) (fun s₁ action s₂ hs₁ hguard hstep => ?_)
      ⟨rfl, .inr ⟨hs, h⟩⟩
    rcases Step.of_step hstep with ⟨hcrashed, hstep⟩
    rcases hs₁ with ⟨hpassed, hcrashed' | ⟨hsteady, hthrows⟩⟩
    . exact absurd hcrashed' hcrashed
    . rcases hthrows.step hsteady.wired hguard hstep with ⟨hpassed', hthrows'⟩
      have hstop : ¬action.isStop := by
        cases action <;> simp_all [Action.isServer, Action.isStop]
      exact ⟨hpassed'.trans hpassed,
        hthrows'.imp_right fun hthrows' => ⟨hsteady.step hkeep hstop hstep, hthrows'⟩⟩
  exact hinv.1

end Server

theorem starves_of_silentPeer :
    ∃ s : Server Unit 1, Reaches (Server.step {}) (fun _ action => !action.isStop) { world := () } s
      ∧ Server.Starves {} s 6 := by
  obtain ⟨s, hs, hrunning, hentry, hsocket, hworker, hsilent⟩ : ∃ s : Server Unit 1,
      run (Server.step {}) (fun _ action => !action.isStop) { world := () } serveSecond = some s
        ∧ s.running ∧ s.connections.lookup 6 = some ⟨1, { fd := 6 }⟩
        ∧ s.sockets 6 = some { unread := [1] } ∧ s.workers 0 = .recv 5 0 ∧ s.sockets 5 = some {} :=
    ⟨_, rfl, by decide +kernel⟩
  have hreaches := reaches_of_run hs
  have hkeep : KeepsDescriptor ({} : OpenFlowEndpoint Unit).dispatch := fun _ _ _ _ => rfl
  have hblocked : s.Blocked := fun i => ⟨5, 0, by rw [Fin.fin_one_eq_zero i, hworker], hsilent⟩
  refine ⟨s, hreaches, Server.starves_of_passed hrunning hentry hsocket (by decide) ?_⟩
  intro s' hreaches'
  rw [hblocked.passed hkeep (Server.steady_of_reaches hkeep hreaches) hreaches']

/--
`stop` between `accept` and the insertion of the entry, and `listen` after the worker has left the task:
the entry has no task.
-/
theorem starves_of_restart :
    ∃ s : Server Unit 1, Reaches (Server.step {}) (fun _ _ => True) { world := () } s
      ∧ s.busy s.peerOpen = 0 ∧ s.tasks = [] ∧ Server.Starves {} s 5 := by
  obtain ⟨s, hs, hrunning, hentry, hsocket, hworker, htasks, hbusy, haccepted, hchecks⟩ :
      ∃ s : Server Unit 1,
        run (Server.step {}) (fun _ _ => true) { world := () }
            [.listen 0, .caller 0, .acceptLoop 0 0, .acceptLoop 0 5, .stop 0, .caller 0, .caller 0,
              .acceptLoop 0 0, .acceptLoop 0 0, .handleClient 0 0, .handleClient 0 0, .listen 0,
              .caller 0, .send 5 [1]] = some s
          ∧ s.running ∧ s.connections.lookup 5 = some ⟨0, { fd := 5 }⟩
          ∧ s.sockets 5 = some { unread := [1] } ∧ s.workers 0 = .idle ∧ s.tasks = []
          ∧ s.busy s.peerOpen = 0 ∧ 0 < s.history.accepted.length
          ∧ ∀ pc ∈ s.acceptors, pc = .check :=
    ⟨_, rfl, by decide +kernel⟩
  have hforgotten : s.Forgotten 0 := .of_idle haccepted hworker htasks hchecks
  exact ⟨s, (reaches_of_run hs).weaken fun _ _ _ => trivial, hbusy, htasks,
    Server.starves_of_passed hrunning hentry hsocket (by decide) fun s' => hforgotten.passed⟩

theorem starves_of_rejected :
    ∃ s : Server Unit 1, Reaches (Server.step {}) (fun _ action => !action.isStop) { world := () } s
      ∧ (s.workers 0).carried = some 5 ∧ Server.Starves {} s 5 := by
  obtain ⟨s, hs, hrunning, hentry, hsocket, hworker, htasks, haccepted, hchecks⟩ :
      ∃ s : Server Unit 1,
        run (Server.step {}) (fun _ action => !action.isStop) { world := () }
            (serveFirst ++ [.send 5 [0, 0, 0, 0, 0, 0, 0, 0], .handleClient 0 8, .handleClient 0 0,
              .handleClient 0 0, .send 5 [1]]) = some s
          ∧ s.running
          ∧ s.connections.lookup 5 = some ⟨0, { fd := 5, inbuf := [0, 0, 0, 0, 0, 0, 0, 0] }⟩
          ∧ s.sockets 5 = some { unread := [1] } ∧ s.workers 0 = .close 5 0 ∧ s.tasks = []
          ∧ 0 < s.history.accepted.length ∧ ∀ pc ∈ s.acceptors, pc = .check :=
    ⟨_, rfl, by decide +kernel⟩
  have hforgotten : s.Forgotten 0 := .of_close haccepted hworker htasks hchecks
  exact ⟨s, reaches_of_run hs, by rw [hworker]; rfl,
    Server.starves_of_passed hrunning hentry hsocket (by decide) fun s' => hforgotten.passed⟩

def helloEndpoint (conn : Connection → Connection)
    (hconn : ∀ c, (conn c).inbuf.length ≤ c.inbuf.length) (fault : Option Fault) :
    OpenFlowEndpoint Unit :=
  ({} : OpenFlowEndpoint Unit).on .hello
    { call := fun c _ w => ⟨conn c, w, fault⟩, length_le := fun c _ _ => hconn c }

theorem starves_of_droppedDescriptor :
    ∃ (ep : OpenFlowEndpoint Unit) (s : Server Unit 1),
      Reaches (Server.step ep) (fun _ action => !action.isStop) { world := () } s
        ∧ (s.workers 0).carried = some 5 ∧ Server.Starves ep s 5 := by
  let ep := helloEndpoint (fun c => { c with fd := -1 }) (fun _ => Nat.le_refl _) none
  obtain ⟨s, hs, hrunning, hentry, hsocket, hworker, htasks, haccepted, hchecks⟩ :
      ∃ s : Server Unit 1,
        run (Server.step ep) (fun _ action => !action.isStop) { world := () }
            (serveFirst ++ [.send 5 [1, 0, 0, 8, 0, 0, 0, 0], .handleClient 0 8, .handleClient 0 0,
              .handleClient 0 0, .handleClient 0 0, .handleClient 0 0, .handleClient 0 0,
              .handleClient 0 0, .send 5 [1]]) = some s
          ∧ s.running ∧ s.connections.lookup 5 = some ⟨0, { fd := -1, state := .helloDone }⟩
          ∧ s.sockets 5 = some { unread := [1] } ∧ s.workers 0 = .close 5 0 ∧ s.tasks = []
          ∧ 0 < s.history.accepted.length ∧ ∀ pc ∈ s.acceptors, pc = .check :=
    ⟨_, rfl, by decide +kernel⟩
  have hforgotten : s.Forgotten 0 := .of_close haccepted hworker htasks hchecks
  exact ⟨ep, s, reaches_of_run hs, by rw [hworker]; rfl,
    Server.starves_of_passed hrunning hentry hsocket (by decide) fun s' => hforgotten.passed⟩

theorem starves_of_fault :
    ∃ (ep : OpenFlowEndpoint Unit) (s : Server Unit 1), KeepsDescriptor ep.dispatch
      ∧ Reaches (Server.step ep) (fun _ action => !action.isStop) { world := () } s
      ∧ (s.workers 0).carried = some 5 ∧ Server.Starves ep s 5 := by
  let ep := helloEndpoint id (fun _ => Nat.le_refl _) (some .lengthError)
  have hkeep : KeepsDescriptor ep.dispatch := by
    apply KeepsConnection.keepsDescriptor
    apply OpenFlowEndpoint.HandlersKeepConnection.keepsConnection
    exact OpenFlowEndpoint.handlersKeepConnection_empty.on (fun _ _ _ => rfl) .hello filterAll
  obtain ⟨s, hs, hrunning, hentry, hsocket, hworker, hevents⟩ : ∃ s : Server Unit 1,
      run (Server.step ep) (fun _ action => !action.isStop) { world := () }
          (serveFirst ++ [.send 5 [1, 0, 0, 8, 0, 0, 0, 0], .handleClient 0 8, .handleClient 0 0,
            .send 5 [1]]) = some s
        ∧ s.running
        ∧ s.connections.lookup 5 = some ⟨0, { fd := 5, inbuf := [1, 0, 0, 8, 0, 0, 0, 0] }⟩
        ∧ s.sockets 5 = some { unread := [1] } ∧ s.workers 0 = .loop 5 0 ∧ s.events = [] :=
    ⟨_, rfl, by decide +kernel⟩
  have hreaches := reaches_of_run hs
  have hthrows : Server.Throws ep s 5 ⟨0, { fd := 5, inbuf := [1, 0, 0, 8, 0, 0, 0, 0] }⟩ :=
    ⟨hworker, hentry, _, _, rfl, rfl⟩
  refine ⟨ep, s, hkeep, hreaches, by rw [hworker]; rfl,
    Server.starves_of_passed hrunning hentry hsocket (by decide) fun s' hreaches' => ?_⟩
  rw [hthrows.passed hkeep (Server.steady_of_reaches hkeep hreaches) hreaches']

/--
The ways in which the unread bytes of a connection starve.
-/
theorem starvation :
    (∃ s : Server Unit 1, Reaches (Server.step {}) (fun _ action => !action.isStop) { world := () } s
      ∧ Server.Starves {} s 6)
      ∧ (∃ s : Server Unit 1, Reaches (Server.step {}) (fun _ _ => True) { world := () } s
        ∧ s.busy s.peerOpen = 0 ∧ s.tasks = [] ∧ Server.Starves {} s 5)
      ∧ (∃ s : Server Unit 1,
        Reaches (Server.step {}) (fun _ action => !action.isStop) { world := () } s
          ∧ (s.workers 0).carried = some 5 ∧ Server.Starves {} s 5)
      ∧ (∃ (ep : OpenFlowEndpoint Unit) (s : Server Unit 1),
        Reaches (Server.step ep) (fun _ action => !action.isStop) { world := () } s
          ∧ (s.workers 0).carried = some 5 ∧ Server.Starves ep s 5)
      ∧ ∃ (ep : OpenFlowEndpoint Unit) (s : Server Unit 1), KeepsDescriptor ep.dispatch
        ∧ Reaches (Server.step ep) (fun _ action => !action.isStop) { world := () } s
        ∧ (s.workers 0).carried = some 5 ∧ Server.Starves ep s 5 :=
  ⟨starves_of_silentPeer, starves_of_restart, starves_of_rejected, starves_of_droppedDescriptor,
    starves_of_fault⟩

end Oflib
