import NetOrc.OpenFlow.Wiring

/-!
This module follows a worker that is left alone with its task: it passes everything that was received
to `ingest`, and ends the task when the peer has closed the connection.
-/

namespace Oflib

open Transition

variable {σ : Type} {W : Nat}

def Action.isServer (action : Action W) : Bool :=
  match action with
  | .acceptLoop _ _ => true
  | .handleClient _ _ => true
  | _ => false

def WorkerPc.inflight (pc : WorkerPc) : Bytes :=
  match pc with
  | .ingest _ _ data => data
  | _ => []

def WorkerPc.stage (pc : WorkerPc) : Nat :=
  match pc with
  | .idle => 0
  | .close _ _ => 0
  | .recv _ _ => 1
  | .lookup _ => 2
  | .top _ => 3
  | .loop _ _ => 4
  | .ingest _ _ _ => 5

namespace Server

def peerOpen (s : Server σ W) (fd : Int32) : Bool :=
  (s.sockets fd).any (fun sock => !sock.eof)

structure Runs (s : Server σ W) (i : Fin W) (fd : Int32) (e : Entry) (sock : Socket) : Prop where
  carried : (s.workers i).carried = some fd
  entry : s.connections.lookup fd = some e
  socket : s.sockets fd = some sock

def received (s : Server σ W) (i : Fin W) (id : Nat) (sock : Socket) : Bytes :=
  s.history.passed id ++ (s.workers i).inflight ++ sock.unread

def remaining (s : Server σ W) (i : Fin W) (e : Entry) (sock : Socket) : Nat :=
  -- A byte gets cheaper on its way from the socket to the buffer and out of it.
  10 * sock.unread.length + 2 * (s.workers i).inflight.length + e.conn.inbuf.length
    + (s.workers i).stage

/-! What a worker does not touch. -/

structure WorkedOn (i : Fin W) (fd : Int32) (id : Nat) (s s' : Server σ W) : Prop where
  running : s'.running = s.running
  tasks : s'.tasks = s.tasks
  acceptors : s'.acceptors = s.acceptors
  workers : ∀ j, j ≠ i → s'.workers j = s.workers j
  connections : ∀ fd', fd' ≠ fd → s'.connections.lookup fd' = s.connections.lookup fd'
  sockets : ∀ fd', fd' ≠ fd → s'.sockets fd' = s.sockets fd'
  passed : ∀ id', id' ≠ id → s'.history.passed id' = s.history.passed id'

theorem WorkedOn.refl (i : Fin W) (fd : Int32) (id : Nat) (s : Server σ W) : WorkedOn i fd id s s :=
  ⟨rfl, rfl, rfl, fun _ _ => rfl, fun _ _ => rfl, fun _ _ => rfl, fun _ _ => rfl⟩

theorem WorkedOn.trans {i : Fin W} {fd : Int32} {id : Nat} {s s' s'' : Server σ W}
    (h : WorkedOn i fd id s s') (h' : WorkedOn i fd id s' s'') : WorkedOn i fd id s s'' where
  running := h'.running.trans h.running
  tasks := h'.tasks.trans h.tasks
  acceptors := h'.acceptors.trans h.acceptors
  workers := fun j hj => (h'.workers j hj).trans (h.workers j hj)
  connections := fun fd' hfd => (h'.connections fd' hfd).trans (h.connections fd' hfd)
  sockets := fun fd' hfd => (h'.sockets fd' hfd).trans (h.sockets fd' hfd)
  passed := fun id' hid => (h'.passed id' hid).trans (h.passed id' hid)

variable {ep : OpenFlowEndpoint σ} {s s' : Server σ W}

theorem Runs.conn_fd {i : Fin W} {fd : Int32} {e : Entry} {sock : Socket} (hs : s.Wired)
    (h : s.Runs i fd e sock) : e.conn.fd = fd ∧ ¬fd < 0 := by
  rcases hs.entry fd e h.entry with ⟨hconn, hfd, _⟩
  exact ⟨hconn, hfd⟩

theorem Step.workedOn {i : Fin W} {count : Nat} {fd : Int32} {e : Entry} {sock : Socket}
    (h : Step ep s (.handleClient i count) s') (hs : s.Wired) (hruns : s.Runs i fd e sock) :
    WorkedOn i fd e.id s s' := by
  rcases hruns.conn_fd hs with ⟨hconn, _⟩
  have hcarried := hruns.carried
  have hentry := hruns.entry
  have hother : ∀ pc j, j ≠ i → Function.update s.workers i pc j = s.workers j :=
    fun pc j hj => Function.update_of_ne hj _ _
  cases h with
  | pop hpc => rw [hpc] at hcarried; contradiction
  | top hpc =>
    exact ⟨rfl, rfl, rfl, hother _, fun _ _ => rfl, fun _ _ => rfl, fun _ _ => rfl⟩
  | leave hpc =>
    exact ⟨rfl, rfl, rfl, hother _, fun _ _ => rfl, fun _ _ => rfl, fun _ _ => rfl⟩
  | miss hpc =>
    exact ⟨rfl, rfl, rfl, hother _, fun _ _ => rfl, fun _ _ => rfl, fun _ _ => rfl⟩
  | lookup hpc =>
    exact ⟨rfl, rfl, rfl, hother _, fun _ _ => rfl, fun _ _ => rfl, fun _ _ => rfl⟩
  | recvFails hpc =>
    exact ⟨rfl, rfl, rfl, hother _, fun _ _ => rfl, fun _ _ => rfl, fun _ _ => rfl⟩
  | recv hpc hlookup =>
    rw [hpc] at hcarried
    cases hcarried
    cases hlookup.symm.trans hentry
    refine ⟨rfl, rfl, rfl, hother _, fun _ _ => rfl, fun fd' hfd => ?_, fun _ _ => rfl⟩
    exact Function.update_of_ne (by rwa [hconn]) _ _
  | ingestFails hpc hlookup =>
    rw [hpc] at hcarried
    cases hcarried
    cases hlookup.symm.trans hentry
    exact ⟨rfl, rfl, rfl, hother _, fun _ _ => rfl, fun _ _ => rfl,
      fun id' hid => Function.update_of_ne hid _ _⟩
  | ingest hpc hlookup =>
    rw [hpc] at hcarried
    cases hcarried
    cases hlookup.symm.trans hentry
    exact ⟨rfl, rfl, rfl, hother _, fun fd' hfd => AList.lookup_insert_ne hfd, fun _ _ => rfl,
      fun id' hid => Function.update_of_ne hid _ _⟩
  | accepted hpc hlookup =>
    rw [hpc] at hcarried
    cases hcarried
    exact ⟨rfl, rfl, rfl, hother _, fun fd' hfd => AList.lookup_insert_ne hfd, fun _ _ => rfl,
      fun _ _ => rfl⟩
  | rejected hpc hlookup =>
    rw [hpc] at hcarried
    cases hcarried
    exact ⟨rfl, rfl, rfl, hother _, fun fd' hfd => AList.lookup_insert_ne hfd, fun _ _ => rfl,
      fun _ _ => rfl⟩
  | dispatched hpc hlookup =>
    rw [hpc] at hcarried
    cases hcarried
    exact ⟨rfl, rfl, rfl, fun _ _ => rfl, fun fd' hfd => AList.lookup_insert_ne hfd, fun _ _ => rfl,
      fun _ _ => rfl⟩
  | close hpc hlookup =>
    rw [hpc] at hcarried
    cases hcarried
    cases hlookup.symm.trans hentry
    refine ⟨rfl, rfl, rfl, hother _, fun fd' hfd => AList.lookup_erase_ne hfd, fun fd' hfd => ?_,
      fun _ _ => rfl⟩
    dsimp only
    split
    . exact Function.update_of_ne (by rwa [hconn]) _ _
    . rfl

/-! One step of a worker. -/

structure Finished (s : Server σ W) (i : Fin W) (fd : Int32) (id : Nat) (received : Bytes) : Prop where
  idle : s.workers i = .idle
  closed : s.sockets fd = none
  passed : id ∈ s.history.rejected ∨ s.history.passed id = received

structure Advanced (s s' : Server σ W) (i : Fin W) (fd : Int32) (e e' : Entry) (sock sock' : Socket) :
    Prop where
  runs : s'.Runs i fd e' sock'
  id : e'.id = e.id
  eof : sock'.eof = sock.eof
  received : s'.received i e.id sock' = s.received i e.id sock
  remaining : s'.remaining i e' sock' < s.remaining i e sock

theorem Runs.setWorker {i : Fin W} {fd : Int32} {e : Entry} {sock : Socket} (h : s.Runs i fd e sock)
    {pc : WorkerPc} (hcarried : pc.carried = some fd)
    (hinflight : pc.inflight = (s.workers i).inflight) (hstage : pc.stage < (s.workers i).stage) :
    Advanced s (s.setWorker i pc) i fd e e sock sock := by
  have hself : (s.setWorker i pc).workers i = pc := Function.update_self _ _ _
  refine ⟨⟨by rw [hself, hcarried], h.entry, h.socket⟩, rfl, rfl, ?_, ?_⟩
  . rw [Server.received, hself, hinflight]
    rfl
  . rw [Server.remaining, hself, hinflight]
    exact Nat.add_lt_add_left hstage _

theorem Runs.replaceEntry {i : Fin W} {fd : Int32} {e e' : Entry} {sock : Socket}
    (h : s.Runs i fd e sock) (hconnections : s'.connections = s.connections.insert fd e')
    (hid : e'.id = e.id) (hcarried : (s'.workers i).carried = some fd) (hsockets : s'.sockets = s.sockets)
    (hreceived : s'.received i e.id sock = s.received i e.id sock)
    (hremaining : s'.remaining i e' sock < s.remaining i e sock) :
    Advanced s s' i fd e e' sock sock where
  runs := ⟨hcarried, by rw [hconnections, AList.lookup_insert], by rw [hsockets, h.socket]⟩
  id := hid
  eof := rfl
  received := hreceived
  remaining := hremaining

def Proceeds (ep : OpenFlowEndpoint σ) (s : Server σ W) (i : Fin W) (fd : Int32) (e : Entry)
    (sock : Socket) : Prop :=
  ∃ count s', Step ep s (.handleClient i count) s'
    ∧ (s'.crashed ∨ s'.Finished i fd e.id (s.received i e.id sock)
      ∨ ∃ e' sock', Advanced s s' i fd e e' sock sock')

theorem Step.proceeds {i : Fin W} {fd : Int32} {e e' : Entry} {sock sock' : Socket}
    (hstep : Step ep s (.handleClient i 0) s') (h : Advanced s s' i fd e e' sock sock') :
    s.Proceeds ep i fd e sock :=
  ⟨0, s', hstep, .inr (.inr ⟨e', sock', h⟩)⟩

theorem Runs.recv (ep : OpenFlowEndpoint σ) (hs : s.Wired) {i : Fin W} {fd : Int32} {e : Entry}
    {sock : Socket} (h : s.Runs i fd e sock) (hpc : s.workers i = .recv fd e.id) :
    (sock.unread = [] ∧ sock.eof = false) ∨ s.Proceeds ep i fd e sock := by
  rcases h.conn_fd hs with ⟨hconn, hfd⟩
  by_cases hunread : sock.unread = []
  . -- `recv` returns 0 if the peer has closed, and blocks otherwise.
    cases heof : sock.eof with
    | false => exact .inl ⟨hunread, rfl⟩
    | true =>
      right
      have hclosed : s.sockets e.conn.fd = some { unread := [], eof := true } := by
        rw [hconn, h.socket, ← hunread, ← heof]
      have hadvanced : Advanced s (s.setWorker i (.close fd e.id)) i fd e e sock sock := by
        apply h.setWorker rfl
        . rw [hpc]
          rfl
        . rw [hpc]
          simp [WorkerPc.stage]
      exact Step.proceeds (.recvFails hpc h.entry (.inr (.inr hclosed))) hadvanced
  . right
    have hpos : 0 < sock.unread.length := List.length_pos_iff.mpr hunread
    have hopen : s.sockets e.conn.fd = some sock := by rw [hconn, h.socket]
    refine ⟨min 8192 sock.unread.length, _,
      .recv hpc h.entry (by rwa [hconn]) hopen ⟨by omega, by omega, by omega⟩,
      .inr (.inr ⟨e, { sock with unread := sock.unread.drop (min 8192 sock.unread.length) },
        ⟨?_, h.entry, ?_⟩, rfl, rfl, ?_, ?_⟩)⟩
    . simp [WorkerPc.carried]
    . rw [hconn]
      exact Function.update_self _ _ _
    . simp [received, hpc, WorkerPc.inflight]
    . simp [remaining, hpc, WorkerPc.inflight, WorkerPc.stage]
      omega

theorem Runs.ingest (ep : OpenFlowEndpoint σ) {i : Fin W} {fd : Int32} {e : Entry} {sock : Socket}
    (h : s.Runs i fd e sock) {data : Bytes} (hpc : s.workers i = .ingest fd e.id data) :
    s.Proceeds ep i fd e sock := by
  by_cases hdata : data.length = 0 ∨ e.conn.fd < 0
  . refine ⟨0, _, .ingestFails hpc h.entry hdata,
      .inr (.inr ⟨e, sock, ⟨?_, h.entry, h.socket⟩, rfl, rfl, ?_, ?_⟩)⟩
    . simp [WorkerPc.carried]
    . simp [received, hpc, WorkerPc.inflight]
    . simp [remaining, hpc, WorkerPc.inflight, WorkerPc.stage]
      omega
  . refine Step.proceeds (.ingest hpc h.entry hdata) (h.replaceEntry rfl rfl ?_ rfl ?_ ?_)
    . simp [WorkerPc.carried]
    . simp [received, hpc, WorkerPc.inflight]
    . simp [remaining, hpc, WorkerPc.inflight, WorkerPc.stage]
      omega

theorem Runs.loop (ep : OpenFlowEndpoint σ) {i : Fin W} {fd : Int32} {e : Entry} {sock : Socket}
    (h : s.Runs i fd e sock) (hpc : s.workers i = .loop fd e.id) : s.Proceeds ep i fd e sock := by
  cases hstep : ep.ingestStep (serverDispatch ep) e.conn (s.world, s.events) with
  | ret verdict conn =>
    rcases OpenFlowEndpoint.ingestStep_ret hstep with ⟨_, hle⟩
    cases verdict with
    | true =>
      refine Step.proceeds (.accepted hpc h.entry hstep) (h.replaceEntry rfl rfl ?_ rfl ?_ ?_)
      . simp [WorkerPc.carried]
      . simp [received, hpc, WorkerPc.inflight]
      . simp [remaining, hpc, WorkerPc.inflight, WorkerPc.stage]
        omega
    | false =>
      refine Step.proceeds (.rejected hpc h.entry hstep) (h.replaceEntry rfl rfl ?_ rfl ?_ ?_)
      . simp [WorkerPc.carried]
      . simp [received, hpc, WorkerPc.inflight]
      . simp [remaining, hpc, WorkerPc.inflight, WorkerPc.stage]
        omega
  | dispatched d r =>
    have hlt := OpenFlowEndpoint.ingestStep_length_lt hstep
    refine Step.proceeds (.dispatched hpc h.entry hstep) (h.replaceEntry rfl rfl ?_ rfl rfl ?_)
    . simp [hpc, WorkerPc.carried]
    . simpa [remaining, hpc, WorkerPc.inflight, WorkerPc.stage] using hlt

theorem Runs.close (ep : OpenFlowEndpoint σ) (hs : s.Steady) {i : Fin W} {fd : Int32} {e : Entry}
    {sock : Socket} (h : s.Runs i fd e sock) (hpc : s.workers i = .close fd e.id) :
    s.Proceeds ep i fd e sock := by
  rcases h.conn_fd hs.wired with ⟨hconn, hfd⟩
  refine ⟨0, _, .close hpc h.entry, .inr (.inl ⟨Function.update_self _ _ _, ?_, ?_⟩)⟩
  . have hopen : e.conn.fd ≥ 0 := by
      rw [hconn]
      exact Int32.not_lt.mp hfd
    rw [if_pos hopen, hconn]
    exact Function.update_self _ _ _
  . apply (hs.closing i fd e.id hpc).imp_right
    intro heof
    have hsocket := h.socket
    rw [hsocket] at heof
    cases heof
    simp [received, hpc, WorkerPc.inflight]

theorem Runs.advance (ep : OpenFlowEndpoint σ) (hs : s.Steady) (hrunning : s.running) {i : Fin W}
    {fd : Int32} {e : Entry} {sock : Socket} (h : s.Runs i fd e sock) :
    (s.workers i = .recv fd e.id ∧ sock.unread = [] ∧ sock.eof = false)
      ∨ s.Proceeds ep i fd e sock := by
  have hcarried := h.carried
  -- The pointer that the worker holds is the entry of its task.
  have hholds : ∀ id, (s.workers i).holds = some (fd, id) → id = e.id := by
    intro id hid
    rcases hs.live i fd id hid with ⟨e', he', rfl⟩
    rw [h.entry] at he'
    cases he'
    rfl
  cases hpc : s.workers i with
  | idle => rw [hpc] at hcarried; contradiction
  | top fd' =>
    rw [hpc] at hcarried
    cases hcarried
    right
    refine Step.proceeds (.top hpc hrunning) (h.setWorker rfl ?_ ?_)
    . rw [hpc]
      rfl
    . rw [hpc]
      simp [WorkerPc.stage]
  | lookup fd' =>
    rw [hpc] at hcarried
    cases hcarried
    right
    refine Step.proceeds (.lookup hpc h.entry) (h.setWorker rfl ?_ ?_)
    . rw [hpc]
      rfl
    . rw [hpc]
      simp [WorkerPc.stage]
  | recv fd' id =>
    rw [hpc] at hcarried hholds
    cases hcarried
    cases hholds id rfl
    exact (h.recv ep hs.wired hpc).imp_left (fun hblocked => ⟨rfl, hblocked⟩)
  | ingest fd' id data =>
    rw [hpc] at hcarried hholds
    cases hcarried
    cases hholds id rfl
    exact .inr (h.ingest ep hpc)
  | loop fd' id =>
    rw [hpc] at hcarried hholds
    cases hcarried
    cases hholds id rfl
    exact .inr (h.loop ep hpc)
  | close fd' id =>
    rw [hpc] at hcarried hholds
    cases hcarried
    cases hholds id rfl
    exact .inr (h.close ep hs hpc)

/-! A worker until it blocks. -/

theorem Runs.settle (hkeep : KeepsDescriptor ep.dispatch) {i : Fin W} {fd : Int32} {e : Entry}
    {sock : Socket} (hs : s.Steady) (hcrashed : ¬s.crashed) (hrunning : s.running)
    (h : s.Runs i fd e sock) :
    ∃ s' : Server σ W, Reaches (Server.step ep) (fun _ action => action.isServer) s s'
      ∧ s'.Steady ∧ WorkedOn i fd e.id s s'
      ∧ (s'.crashed
        ∨ ¬s'.crashed
          ∧ (e.id ∈ s'.history.rejected ∨ s'.history.passed e.id = s.received i e.id sock)
          ∧ (sock.eof → s'.workers i = .idle ∧ s'.sockets fd = none)) := by
  -- Induction on what remains to be done, which every step of the worker lowers.
  generalize hn : s.remaining i e sock = n
  induction n using Nat.strongRecOn generalizing s e sock with
  | ind n ih =>
    rcases h.advance ep hs hrunning with ⟨hpc, hunread, heof⟩ | ⟨count, s₁, hstep, hs₁⟩
    . refine ⟨s, .refl, hs, .refl i fd e.id s, .inr ⟨hcrashed, .inr ?_, ?_⟩⟩
      . simp [received, hpc, hunread, WorkerPc.inflight]
      . rw [heof]
        exact nofun
    . have hreaches : Reaches (Server.step ep) (fun _ action => action.isServer) s s₁ :=
        Next.reaches (a := .handleClient i count) rfl (hstep.step_eq hcrashed)
      have hsteady := hs.step hkeep (by simp [Action.isStop]) hstep
      have hworked := hstep.workedOn hs.wired h
      by_cases hcrashed₁ : s₁.crashed
      . exact ⟨s₁, hreaches, hsteady, hworked, .inl hcrashed₁⟩
      rcases hs₁ with hcrashed' | hfinished | ⟨e', sock', hadvanced⟩
      . exact absurd hcrashed' hcrashed₁
      . exact ⟨s₁, hreaches, hsteady, hworked,
          .inr ⟨hcrashed₁, hfinished.passed, fun _ => ⟨hfinished.idle, hfinished.closed⟩⟩⟩
      . obtain ⟨s', hreaches', hsteady', hworked', hs'⟩ :=
          ih _ (by rw [← hn]; exact hadvanced.remaining) hsteady hcrashed₁
            (by rwa [hworked.running]) hadvanced.runs rfl
        rw [hadvanced.id, hadvanced.eof, hadvanced.received] at hs'
        rw [hadvanced.id] at hworked'
        exact ⟨s', hreaches.trans hreaches', hsteady', hworked.trans hworked', hs'⟩

end Server

end Oflib
