import Mathlib.Data.Fin.Basic
import Mathlib.Data.List.AList
import NetOrc.OpenFlow.Endpoint
import NetOrc.Transition.Basic

/-!
This module contains `oflib::Server` as a transition system: the accept loops, the pool workers with
their `handle_client` tasks, the callers of `listen` and `stop`, and the peers. Critical sections are
single steps. A worker that would use a pointer into `connections_` after the entry is gone has no
step, as the behaviour of the source is undefined there.
-/

namespace Oflib

variable {σ : Type} {W : Nat}

structure Socket where
  unread : Bytes := []
  eof : Bool := false
  deriving DecidableEq, Repr

/--
An entry of `connections_`. `id` numbers the connections in the order of their `accept`.
-/
structure Entry where
  id : Nat
  conn : Connection
  deriving DecidableEq, Repr

inductive AcceptorPc where
  | check
  | accept
  | insert (fd : Int32) (id : Nat)
  | enqueue (fd : Int32)
  | done
  deriving DecidableEq, Repr

/--
Where a pool worker is: waiting for a task, or inside of `handle_client` for a descriptor. From `recv`
on it holds the pointer to the entry it looked up.
-/
inductive WorkerPc where
  | idle
  | top (fd : Int32)
  | lookup (fd : Int32)
  | recv (fd : Int32) (id : Nat)
  | ingest (fd : Int32) (id : Nat) (data : Bytes)
  | loop (fd : Int32) (id : Nat)
  | close (fd : Int32) (id : Nat)
  deriving DecidableEq, Repr

/--
Where a caller of `listen` or `stop` is, after its first assignment to `running_`.
-/
inductive CallerPc where
  | idle
  | spawn
  | detach
  | sweep
  deriving DecidableEq, Repr

structure Handled where
  id : Nat
  fd : Int32
  frame : Frame
  deriving DecidableEq, Repr

/--
What happened so far: the descriptors that `accept` returned, the bytes passed to `ingest` for each
connection, the connections for which `ingest` returned `false`, and the handled frames. No step of
the server depends on it, except that the number of accepts names the next connection.
-/
structure History where
  accepted : List Int32 := []
  passed : Nat → Bytes := fun _ => []
  rejected : List Nat := []
  handled : List Handled := []

structure Server (σ : Type) (W : Nat) where
  running : Bool := false
  joinable : Bool := false
  acceptors : List AcceptorPc := []
  callers : Nat → CallerPc := fun _ => .idle
  tasks : List Int32 := []
  workers : Fin W → WorkerPc := fun _ => .idle
  connections : AList (fun _ : Int32 => Entry) := ∅
  sockets : Int32 → Option Socket := fun _ => none
  world : σ
  events : List Event := []
  crashed : Bool := false
  history : History := {}

/--
The party that takes the next step, with what the environment decides: the result of `accept`, the
number of bytes `recv` returns, and what a peer sends.
-/
inductive Action (W : Nat) where
  | listen (t : Nat)
  | stop (t : Nat)
  | caller (t : Nat)
  | acceptLoop (a : Nat) (result : Int32)
  | handleClient (i : Fin W) (count : Nat)
  | waitForEvent
  | send (fd : Int32) (data : Bytes)
  | hangUp (fd : Int32)
  | reset (fd : Int32)
  deriving DecidableEq, Repr

namespace Server

def entry? (s : Server σ W) (fd : Int32) (id : Nat) : Option Entry :=
  (s.connections.lookup fd).filter (fun e => e.id = id)

def setAcceptor (s : Server σ W) (a : Nat) (pc : AcceptorPc) : Server σ W :=
  { s with acceptors := s.acceptors.set a pc }

def setWorker (s : Server σ W) (i : Fin W) (pc : WorkerPc) : Server σ W :=
  { s with workers := Function.update s.workers i pc }

def listen (s : Server σ W) (t : Nat) : Option (Server σ W) :=
  match s.callers t with
  | .idle => some { s with running := true, callers := Function.update s.callers t .spawn }
  | _ => none

def stop (s : Server σ W) (t : Nat) : Option (Server σ W) :=
  match s.callers t with
  | .idle => some { s with running := false, callers := Function.update s.callers t .detach }
  | _ => none

/--
The rest of `listen` and `stop`. Assigning to a joinable thread terminates the program.
-/
def caller (s : Server σ W) (t : Nat) : Option (Server σ W) :=
  match s.callers t with
  | .idle => none
  | .spawn =>
    if s.joinable then
      some { s with crashed := true }
    else
      some { s with
        joinable := true
        acceptors := s.acceptors ++ [.check]
        callers := Function.update s.callers t .idle }
  | .detach => some { s with joinable := false, callers := Function.update s.callers t .sweep }
  | .sweep =>
    some { s with
      sockets := fun fd =>
        if s.connections.entries.any (fun p => p.2.conn.fd = fd) then none else s.sockets fd
      connections := ∅
      callers := Function.update s.callers t .idle }

def acceptLoop (s : Server σ W) (a : Nat) (result : Int32) : Option (Server σ W) :=
  match s.acceptors[a]? with
  | none => none
  | some .check => some (s.setAcceptor a (if s.running then .accept else .done))
  | some .accept =>
    if result < 0 then
      some (s.setAcceptor a .check)
    else
      match s.sockets result with
      -- The kernel only returns descriptors that are not open.
      | some _ => none
      | none =>
        some { s with
          sockets := Function.update s.sockets result (some {})
          acceptors := s.acceptors.set a (.insert result s.history.accepted.length)
          history := { s.history with accepted := s.history.accepted ++ [result] } }
  | some (.insert fd id) =>
    some { s with
      connections := s.connections.insert fd ⟨id, { fd := fd }⟩
      acceptors := s.acceptors.set a (.enqueue fd) }
  | some (.enqueue fd) =>
    some { s with tasks := s.tasks ++ [fd], acceptors := s.acceptors.set a .check }
  | some .done => none

def recvIntoBuffer (s : Server σ W) (i : Fin W) (fd : Int32) (e : Entry) (count : Nat) :
    Option (Server σ W) :=
  if e.conn.fd < 0 then
    some (s.setWorker i (.close fd e.id))
  else
    match s.sockets e.conn.fd with
    | none => some (s.setWorker i (.close fd e.id))
    | some sock =>
      if sock.unread = [] then
        if sock.eof then some (s.setWorker i (.close fd e.id)) else none
      else if 1 ≤ count ∧ count ≤ 8192 ∧ count ≤ sock.unread.length then
        some { s with
          sockets := Function.update s.sockets e.conn.fd
            (some { sock with unread := sock.unread.drop count })
          workers := Function.update s.workers i (.ingest fd e.id (sock.unread.take count)) }
      else
        none

def startIngest (s : Server σ W) (i : Fin W) (fd : Int32) (e : Entry) (data : Bytes) : Server σ W :=
  let passed := Function.update s.history.passed e.id (s.history.passed e.id ++ data)
  if data.length = 0 ∨ e.conn.fd < 0 then
    { s with
      workers := Function.update s.workers i (.close fd e.id)
      history := { s.history with passed := passed, rejected := s.history.rejected ++ [e.id] } }
  else
    { s with
      connections := s.connections.insert fd
        { e with conn := { e.conn with inbuf := e.conn.inbuf ++ data } }
      workers := Function.update s.workers i (.loop fd e.id)
      history := { s.history with passed := passed } }

/--
One round of the loop of `ingest`, as one step. The source holds no lock for so long: `Staged` takes the
round apart. A handler that throws terminates the program.
-/
def ingestRound (ep : OpenFlowEndpoint σ) (s : Server σ W) (i : Fin W) (fd : Int32) (e : Entry) :
    Server σ W :=
  match ep.ingestStep (serverDispatch ep) e.conn (s.world, s.events) with
  | .ret true conn =>
    { s with
      connections := s.connections.insert fd { e with conn := conn }
      workers := Function.update s.workers i (.top fd) }
  | .ret false conn =>
    { s with
      connections := s.connections.insert fd { e with conn := conn }
      workers := Function.update s.workers i (.close fd e.id)
      history := { s.history with rejected := s.history.rejected ++ [e.id] } }
  | .dispatched d r =>
    { s with
      connections := s.connections.insert fd { e with conn := r.conn }
      world := r.world.1
      events := r.world.2
      crashed := r.fault.isSome
      history := { s.history with
        handled := s.history.handled ++ [⟨e.id, e.conn.fd, d.frame⟩] } }

def closeAndErase (s : Server σ W) (i : Fin W) (fd : Int32) (e : Entry) : Server σ W :=
  { s with
    sockets := if e.conn.fd ≥ 0 then Function.update s.sockets e.conn.fd none else s.sockets
    connections := s.connections.erase fd
    workers := Function.update s.workers i .idle }

def handleClient (ep : OpenFlowEndpoint σ) (s : Server σ W) (i : Fin W) (count : Nat) :
    Option (Server σ W) :=
  match s.workers i with
  | .idle =>
    match s.tasks with
    | [] => none
    | fd :: tasks =>
      some { s with tasks := tasks, workers := Function.update s.workers i (.top fd) }
  | .top fd => some (s.setWorker i (if s.running then .lookup fd else .idle))
  | .lookup fd =>
    match s.connections.lookup fd with
    | none => some (s.setWorker i .idle)
    | some e => some (s.setWorker i (.recv fd e.id))
  | .recv fd id => (s.entry? fd id).bind (fun e => s.recvIntoBuffer i fd e count)
  | .ingest fd id data => (s.entry? fd id).map (fun e => s.startIngest i fd e data)
  | .loop fd id => (s.entry? fd id).map (fun e => s.ingestRound ep i fd e)
  | .close fd id => (s.entry? fd id).map (fun e => s.closeAndErase i fd e)

def waitForEvent (s : Server σ W) : Option (Server σ W) :=
  match s.events with
  | [] => none
  | _ :: events => some { s with events := events }

def peer (s : Server σ W) (fd : Int32) (f : Socket → Socket) : Option (Server σ W) :=
  match s.sockets fd with
  | none => none
  | some sock =>
    if sock.eof then none else some { s with sockets := Function.update s.sockets fd (some (f sock)) }

def step (ep : OpenFlowEndpoint σ) (s : Server σ W) (action : Action W) : Option (Server σ W) :=
  if s.crashed then
    none
  else
    match action with
    | .listen t => s.listen t
    | .stop t => s.stop t
    | .caller t => s.caller t
    | .acceptLoop a result => s.acceptLoop a result
    | .handleClient i count => s.handleClient ep i count
    | .waitForEvent => s.waitForEvent
    | .send fd data => s.peer fd (fun sock => { sock with unread := sock.unread ++ data })
    | .hangUp fd => s.peer fd (fun sock => { sock with eof := true })
    | .reset fd => s.peer fd (fun _ => { unread := [], eof := true })

end Server

end Oflib
