import NetOrc.OpenFlow.Server

/-!
This module lists what a step of the server can do, one constructor for each way in which a step of the
source goes.
-/

namespace Oflib

variable {σ : Type} {W : Nat}

namespace Server

theorem entry?_eq_some_iff {s : Server σ W} {fd : Int32} {id : Nat} {e : Entry} :
    s.entry? fd id = some e ↔ s.connections.lookup fd = some e ∧ e.id = id := by
  unfold entry?
  rw [Option.filter_eq_some_iff]
  simp

theorem entry?_of_lookup {s : Server σ W} {fd : Int32} {e : Entry}
    (h : s.connections.lookup fd = some e) : s.entry? fd e.id = some e :=
  entry?_eq_some_iff.mpr ⟨h, rfl⟩

inductive Step (ep : OpenFlowEndpoint σ) (s : Server σ W) : Action W → Server σ W → Prop where
  | listen {t : Nat} (hcaller : s.callers t = .idle) :
    Step ep s (.listen t)
      { s with running := true, callers := Function.update s.callers t .spawn }
  | stop {t : Nat} (hcaller : s.callers t = .idle) :
    Step ep s (.stop t)
      { s with running := false, callers := Function.update s.callers t .detach }
  | spawnJoinable {t : Nat} (hcaller : s.callers t = .spawn) (hjoinable : s.joinable) :
    Step ep s (.caller t) { s with crashed := true }
  | spawn {t : Nat} (hcaller : s.callers t = .spawn) (hjoinable : ¬s.joinable) :
    Step ep s (.caller t) { s with
      joinable := true
      acceptors := s.acceptors ++ [.check]
      callers := Function.update s.callers t .idle }
  | detach {t : Nat} (hcaller : s.callers t = .detach) :
    Step ep s (.caller t)
      { s with joinable := false, callers := Function.update s.callers t .sweep }
  | sweep {t : Nat} (hcaller : s.callers t = .sweep) :
    Step ep s (.caller t) { s with
      sockets := fun fd =>
        if s.connections.entries.any (fun p => p.2.conn.fd = fd) then none else s.sockets fd
      connections := ∅
      callers := Function.update s.callers t .idle }
  | check {a : Nat} {result : Int32} (hpc : s.acceptors[a]? = some .check) :
    Step ep s (.acceptLoop a result) (s.setAcceptor a (if s.running then .accept else .done))
  | acceptFails {a : Nat} {result : Int32} (hpc : s.acceptors[a]? = some .accept)
    (hresult : result < 0) :
    Step ep s (.acceptLoop a result) (s.setAcceptor a .check)
  | accept {a : Nat} {result : Int32} (hpc : s.acceptors[a]? = some .accept)
    (hresult : ¬result < 0) (hfree : s.sockets result = none) :
    Step ep s (.acceptLoop a result) { s with
      sockets := Function.update s.sockets result (some {})
      acceptors := s.acceptors.set a (.insert result s.history.accepted.length)
      history := { s.history with accepted := s.history.accepted ++ [result] } }
  | insert {a : Nat} {result fd : Int32} {id : Nat} (hpc : s.acceptors[a]? = some (.insert fd id)) :
    Step ep s (.acceptLoop a result) { s with
      connections := s.connections.insert fd ⟨id, { fd := fd }⟩
      acceptors := s.acceptors.set a (.enqueue fd) }
  | enqueue {a : Nat} {result fd : Int32} (hpc : s.acceptors[a]? = some (.enqueue fd)) :
    Step ep s (.acceptLoop a result)
      { s with tasks := s.tasks ++ [fd], acceptors := s.acceptors.set a .check }
  | pop {i : Fin W} {count : Nat} {fd : Int32} {tasks : List Int32} (hpc : s.workers i = .idle)
    (htasks : s.tasks = fd :: tasks) :
    Step ep s (.handleClient i count)
      { s with tasks := tasks, workers := Function.update s.workers i (.top fd) }
  | top {i : Fin W} {count : Nat} {fd : Int32} (hpc : s.workers i = .top fd)
    (hrunning : s.running) :
    Step ep s (.handleClient i count) (s.setWorker i (.lookup fd))
  | leave {i : Fin W} {count : Nat} {fd : Int32} (hpc : s.workers i = .top fd)
    (hrunning : ¬s.running) :
    Step ep s (.handleClient i count) (s.setWorker i .idle)
  | miss {i : Fin W} {count : Nat} {fd : Int32} (hpc : s.workers i = .lookup fd)
    (hentry : s.connections.lookup fd = none) :
    Step ep s (.handleClient i count) (s.setWorker i .idle)
  | lookup {i : Fin W} {count : Nat} {fd : Int32} {e : Entry} (hpc : s.workers i = .lookup fd)
    (hentry : s.connections.lookup fd = some e) :
    Step ep s (.handleClient i count) (s.setWorker i (.recv fd e.id))
  | recvFails {i : Fin W} {count : Nat} {fd : Int32} {e : Entry} (hpc : s.workers i = .recv fd e.id)
    (hentry : s.connections.lookup fd = some e)
    (hsocket : e.conn.fd < 0 ∨ s.sockets e.conn.fd = none
      ∨ s.sockets e.conn.fd = some { unread := [], eof := true }) :
    Step ep s (.handleClient i count) (s.setWorker i (.close fd e.id))
  | recv {i : Fin W} {count : Nat} {fd : Int32} {e : Entry} {sock : Socket}
    (hpc : s.workers i = .recv fd e.id) (hentry : s.connections.lookup fd = some e)
    (hfd : ¬e.conn.fd < 0) (hsocket : s.sockets e.conn.fd = some sock)
    (hcount : 1 ≤ count ∧ count ≤ 8192 ∧ count ≤ sock.unread.length) :
    Step ep s (.handleClient i count) { s with
      sockets := Function.update s.sockets e.conn.fd
        (some { sock with unread := sock.unread.drop count })
      workers := Function.update s.workers i (.ingest fd e.id (sock.unread.take count)) }
  | ingestFails {i : Fin W} {count : Nat} {fd : Int32} {e : Entry} {data : Bytes}
    (hpc : s.workers i = .ingest fd e.id data) (hentry : s.connections.lookup fd = some e)
    (hdata : data.length = 0 ∨ e.conn.fd < 0) :
    Step ep s (.handleClient i count) { s with
      workers := Function.update s.workers i (.close fd e.id)
      history := { s.history with
        passed := Function.update s.history.passed e.id (s.history.passed e.id ++ data)
        rejected := s.history.rejected ++ [e.id] } }
  | ingest {i : Fin W} {count : Nat} {fd : Int32} {e : Entry} {data : Bytes}
    (hpc : s.workers i = .ingest fd e.id data) (hentry : s.connections.lookup fd = some e)
    (hdata : ¬(data.length = 0 ∨ e.conn.fd < 0)) :
    Step ep s (.handleClient i count) { s with
      connections := s.connections.insert fd
        { e with conn := { e.conn with inbuf := e.conn.inbuf ++ data } }
      workers := Function.update s.workers i (.loop fd e.id)
      history := { s.history with
        passed := Function.update s.history.passed e.id (s.history.passed e.id ++ data) } }
  | accepted {i : Fin W} {count : Nat} {fd : Int32} {e : Entry} {conn : Connection}
    (hpc : s.workers i = .loop fd e.id) (hentry : s.connections.lookup fd = some e)
    (hstep : ep.ingestStep (serverDispatch ep) e.conn (s.world, s.events) = .ret true conn) :
    Step ep s (.handleClient i count) { s with
      connections := s.connections.insert fd { e with conn := conn }
      workers := Function.update s.workers i (.top fd) }
  | rejected {i : Fin W} {count : Nat} {fd : Int32} {e : Entry} {conn : Connection}
    (hpc : s.workers i = .loop fd e.id) (hentry : s.connections.lookup fd = some e)
    (hstep : ep.ingestStep (serverDispatch ep) e.conn (s.world, s.events) = .ret false conn) :
    Step ep s (.handleClient i count) { s with
      connections := s.connections.insert fd { e with conn := conn }
      workers := Function.update s.workers i (.close fd e.id)
      history := { s.history with rejected := s.history.rejected ++ [e.id] } }
  | dispatched {i : Fin W} {count : Nat} {fd : Int32} {e : Entry} {d : Dispatched}
    {r : HandlerResult (σ × List Event)}
    (hpc : s.workers i = .loop fd e.id) (hentry : s.connections.lookup fd = some e)
    (hstep : ep.ingestStep (serverDispatch ep) e.conn (s.world, s.events) = .dispatched d r) :
    Step ep s (.handleClient i count) { s with
      connections := s.connections.insert fd { e with conn := r.conn }
      world := r.world.1
      events := r.world.2
      crashed := r.fault.isSome
      history := { s.history with
        handled := s.history.handled ++ [⟨e.id, e.conn.fd, d.frame⟩] } }
  | close {i : Fin W} {count : Nat} {fd : Int32} {e : Entry} (hpc : s.workers i = .close fd e.id)
    (hentry : s.connections.lookup fd = some e) :
    Step ep s (.handleClient i count) { s with
      sockets := if e.conn.fd ≥ 0 then Function.update s.sockets e.conn.fd none else s.sockets
      connections := s.connections.erase fd
      workers := Function.update s.workers i .idle }
  | waitForEvent {event : Event} {events : List Event} (hevents : s.events = event :: events) :
    Step ep s .waitForEvent { s with events := events }
  | send {fd : Int32} {data : Bytes} {sock : Socket} (hsocket : s.sockets fd = some sock)
    (heof : ¬sock.eof) :
    Step ep s (.send fd data) { s with
      sockets := Function.update s.sockets fd (some { sock with unread := sock.unread ++ data }) }
  | hangUp {fd : Int32} {sock : Socket} (hsocket : s.sockets fd = some sock) (heof : ¬sock.eof) :
    Step ep s (.hangUp fd)
      { s with sockets := Function.update s.sockets fd (some { sock with eof := true }) }
  | reset {fd : Int32} {sock : Socket} (hsocket : s.sockets fd = some sock) (heof : ¬sock.eof) :
    Step ep s (.reset fd)
      { s with sockets := Function.update s.sockets fd (some { unread := [], eof := true }) }

variable {ep : OpenFlowEndpoint σ} {s s' : Server σ W}

theorem listen_eq_some {t : Nat} (h : s.listen t = some s') :
    s.callers t = .idle
      ∧ s' = { s with running := true, callers := Function.update s.callers t .spawn } := by
  unfold Server.listen at h
  split at h
  . next hcaller =>
    cases h
    exact ⟨hcaller, rfl⟩
  . contradiction

theorem Step.of_caller {t : Nat} (h : s.caller t = some s') : Step ep s (.caller t) s' := by
  unfold caller at h
  split at h
  . contradiction
  . next hcaller =>
    split at h
    . next hjoinable => cases h; exact .spawnJoinable hcaller hjoinable
    . next hjoinable => cases h; exact .spawn hcaller hjoinable
  . next hcaller => cases h; exact .detach hcaller
  . next hcaller => cases h; exact .sweep hcaller

theorem Step.of_acceptLoop {a : Nat} {result : Int32} (h : s.acceptLoop a result = some s') :
    Step ep s (.acceptLoop a result) s' := by
  unfold acceptLoop at h
  split at h
  . contradiction
  . next hpc => cases h; exact .check hpc
  . next hpc =>
    split at h
    . next hresult => cases h; exact .acceptFails hpc hresult
    . next hresult =>
      split at h
      . contradiction
      . next hfree => cases h; exact .accept hpc hresult hfree
  . next hpc => cases h; exact .insert hpc
  . next hpc => cases h; exact .enqueue hpc
  . contradiction

theorem Step.of_recvIntoBuffer {i : Fin W} {count : Nat} {fd : Int32} {e : Entry}
    (hpc : s.workers i = .recv fd e.id) (hentry : s.connections.lookup fd = some e)
    (h : s.recvIntoBuffer i fd e count = some s') : Step ep s (.handleClient i count) s' := by
  unfold recvIntoBuffer at h
  split at h
  . next hfd => cases h; exact .recvFails hpc hentry (.inl hfd)
  . next hfd =>
    split at h
    . next hsocket => cases h; exact .recvFails hpc hentry (.inr (.inl hsocket))
    . next sock hsocket =>
      split at h
      . next hunread =>
        split at h
        . next heof =>
          cases h
          refine .recvFails hpc hentry (.inr (.inr ?_))
          rw [hsocket, ← hunread, ← heof]
        . contradiction
      . split at h
        . next hcount => cases h; exact .recv hpc hentry hfd hsocket hcount
        . contradiction

theorem Step.of_ingestRound {i : Fin W} {count : Nat} {fd : Int32} {e : Entry}
    (hpc : s.workers i = .loop fd e.id) (hentry : s.connections.lookup fd = some e) :
    Step ep s (.handleClient i count) (s.ingestRound ep i fd e) := by
  unfold ingestRound
  split
  . next hstep => exact .accepted hpc hentry hstep
  . next hstep => exact .rejected hpc hentry hstep
  . next hstep => exact .dispatched hpc hentry hstep

theorem Step.of_handleClient {i : Fin W} {count : Nat} (h : s.handleClient ep i count = some s') :
    Step ep s (.handleClient i count) s' := by
  unfold handleClient at h
  split at h
  . next hpc =>
    split at h
    . contradiction
    . next htasks => cases h; exact .pop hpc htasks
  . next hpc =>
    cases h
    split
    . next hrunning => exact .top hpc hrunning
    . next hrunning => exact .leave hpc hrunning
  . next hpc =>
    split at h
    . next hentry => cases h; exact .miss hpc hentry
    . next hentry => cases h; exact .lookup hpc hentry
  . next hpc =>
    rcases Option.bind_eq_some_iff.mp h with ⟨e, he, hrecv⟩
    rcases entry?_eq_some_iff.mp he with ⟨hentry, rfl⟩
    exact .of_recvIntoBuffer hpc hentry hrecv
  . next hpc =>
    rcases Option.map_eq_some_iff.mp h with ⟨e, he, rfl⟩
    rcases entry?_eq_some_iff.mp he with ⟨hentry, rfl⟩
    unfold startIngest
    dsimp only
    split
    . next hdata => exact .ingestFails hpc hentry hdata
    . next hdata => exact .ingest hpc hentry hdata
  . next hpc =>
    rcases Option.map_eq_some_iff.mp h with ⟨e, he, rfl⟩
    rcases entry?_eq_some_iff.mp he with ⟨hentry, rfl⟩
    exact .of_ingestRound hpc hentry
  . next hpc =>
    rcases Option.map_eq_some_iff.mp h with ⟨e, he, rfl⟩
    rcases entry?_eq_some_iff.mp he with ⟨hentry, rfl⟩
    exact .close hpc hentry

theorem of_peer {fd : Int32} {f : Socket → Socket} (h : s.peer fd f = some s') :
    ∃ sock, s.sockets fd = some sock ∧ ¬sock.eof
      ∧ s' = { s with sockets := Function.update s.sockets fd (some (f sock)) } := by
  unfold peer at h
  split at h
  . contradiction
  . next sock hsocket =>
    split at h
    . contradiction
    . next heof =>
      cases h
      exact ⟨sock, hsocket, heof, rfl⟩

theorem Step.of_step {action : Action W} (h : step ep s action = some s') :
    ¬s.crashed ∧ Step ep s action s' := by
  unfold step at h
  split at h
  . contradiction
  . next hcrashed =>
    refine ⟨hcrashed, ?_⟩
    cases action with
    | listen t =>
      rcases listen_eq_some h with ⟨hcaller, rfl⟩
      exact .listen hcaller
    | stop t =>
      dsimp only [Server.stop] at h
      split at h
      . next hcaller => cases h; exact .stop hcaller
      . contradiction
    | caller t => exact .of_caller h
    | acceptLoop a result => exact .of_acceptLoop h
    | handleClient i count => exact .of_handleClient h
    | waitForEvent =>
      dsimp only [Server.waitForEvent] at h
      split at h
      . contradiction
      . next hevents => cases h; exact .waitForEvent hevents
    | send fd data =>
      rcases of_peer h with ⟨sock, hsocket, heof, rfl⟩
      exact .send hsocket heof
    | hangUp fd =>
      rcases of_peer h with ⟨sock, hsocket, heof, rfl⟩
      exact .hangUp hsocket heof
    | reset fd =>
      rcases of_peer h with ⟨sock, hsocket, heof, rfl⟩
      exact .reset hsocket heof

theorem Step.of_not_loop {i : Fin W} {count : Nat} (h : Step ep s (.handleClient i count) s')
    (hloop : ∀ fd id, s.workers i ≠ .loop fd id) :
    s'.history.handled = s.history.handled ∧ s'.events = s.events ∧ s'.crashed = s.crashed := by
  cases h with
  | accepted hpc => exact absurd hpc (hloop _ _)
  | rejected hpc => exact absurd hpc (hloop _ _)
  | dispatched hpc => exact absurd hpc (hloop _ _)
  | _ => exact ⟨rfl, rfl, rfl⟩

theorem Step.workers_eq {action : Action W} (h : Step ep s action s') {j : Fin W}
    (hne : ∀ count, action ≠ .handleClient j count) : s'.workers j = s.workers j := by
  have hupdate : ∀ {i : Fin W} {count : Nat} {pc : WorkerPc}, action = .handleClient i count →
      Function.update s.workers i pc j = s.workers j := by
    rintro i count pc rfl
    apply Function.update_of_ne
    rintro rfl
    exact hne count rfl
  cases h with
  | pop => exact hupdate rfl
  | top => exact hupdate rfl
  | leave => exact hupdate rfl
  | miss => exact hupdate rfl
  | lookup => exact hupdate rfl
  | recvFails => exact hupdate rfl
  | recv => exact hupdate rfl
  | ingestFails => exact hupdate rfl
  | ingest => exact hupdate rfl
  | accepted => exact hupdate rfl
  | rejected => exact hupdate rfl
  | close => exact hupdate rfl
  | _ => rfl

theorem Step.step_eq {action : Action W} (hcrashed : ¬s.crashed) (h : Step ep s action s') :
    step ep s action = some s' := by
  unfold step
  rw [if_neg hcrashed]
  cases h with
  | listen hcaller => simp [Server.listen, hcaller]
  | stop hcaller => simp [Server.stop, hcaller]
  | spawnJoinable hcaller hjoinable => simp [caller, hcaller, hjoinable]
  | spawn hcaller hjoinable => simp [caller, hcaller, hjoinable]
  | detach hcaller => simp [caller, hcaller]
  | sweep hcaller => simp [caller, hcaller]
  | check hpc => simp [acceptLoop, hpc]
  | acceptFails hpc hresult => simp [acceptLoop, hpc, hresult]
  | accept hpc hresult hfree => simp [acceptLoop, hpc, hresult, hfree]
  | insert hpc => simp [acceptLoop, hpc]
  | enqueue hpc => simp [acceptLoop, hpc]
  | pop hpc htasks => simp [handleClient, hpc, htasks]
  | top hpc hrunning => simp [handleClient, hpc, hrunning]
  | leave hpc hrunning => simp [handleClient, hpc, hrunning]
  | miss hpc hentry => simp [handleClient, hpc, hentry]
  | lookup hpc hentry => simp [handleClient, hpc, hentry]
  | recvFails hpc hentry hsocket =>
    simp only [handleClient, hpc, entry?_of_lookup hentry, Option.bind_some, recvIntoBuffer]
    rcases hsocket with hfd | hsocket | hsocket
    . rw [if_pos hfd]
    . rw [hsocket, ite_self]
    . simp [hsocket]
  | recv hpc hentry hfd hsocket hcount =>
    have hunread := List.ne_nil_of_length_pos (Nat.lt_of_lt_of_le hcount.1 hcount.2.2)
    simp only [handleClient, hpc, entry?_of_lookup hentry, Option.bind_some, recvIntoBuffer, hsocket,
      if_neg hfd, if_neg hunread, if_pos hcount]
  | ingestFails hpc hentry hdata =>
    simp only [handleClient, hpc, entry?_of_lookup hentry, Option.map_some, startIngest, if_pos hdata]
  | ingest hpc hentry hdata =>
    simp only [handleClient, hpc, entry?_of_lookup hentry, Option.map_some, startIngest, if_neg hdata]
  | accepted hpc hentry hstep =>
    simp only [handleClient, hpc, entry?_of_lookup hentry, Option.map_some, ingestRound, hstep]
  | rejected hpc hentry hstep =>
    simp only [handleClient, hpc, entry?_of_lookup hentry, Option.map_some, ingestRound, hstep]
  | dispatched hpc hentry hstep =>
    simp only [handleClient, hpc, entry?_of_lookup hentry, Option.map_some, ingestRound, hstep]
  | close hpc hentry =>
    simp only [handleClient, hpc, entry?_of_lookup hentry, Option.map_some, closeAndErase]
  | waitForEvent hevents => simp [Server.waitForEvent, hevents]
  | send hsocket heof => simp [peer, hsocket, heof]
  | hangUp hsocket heof => simp [peer, hsocket, heof]
  | reset hsocket heof => simp [peer, hsocket, heof]

end Server

end Oflib
