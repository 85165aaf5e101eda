import Mathlib.Logic.Function.Basic
import NetOrc.OpenFlow.Framer

/-!
This module contains the receive path of `OpenFlowEndpoint`: registered validators and handlers, the
dispatcher and the `ingest` loop. Everything outside the connection that a handler reads or writes is
the world `σ`.
-/

namespace Oflib

variable {σ τ : Type}

abbrev ValidatorFn := Bytes → Bool

abbrev FilterFn := Frame → Bool

structure HandlerResult (σ : Type) where
  conn : Connection
  world : σ
  fault : Option Fault := none

/--
A handler may read and write the connection it is given, but it never adds to the accumulation
buffer, which belongs to `ingest`.
-/
structure HandlerFn (σ : Type) where
  call : Connection → Frame → σ → HandlerResult σ
  length_le : ∀ (conn : Connection) (frame : Frame) (w : σ),
    (call conn frame w).conn.inbuf.length ≤ conn.inbuf.length

def idle : HandlerFn Unit := ⟨fun conn _ w => ⟨conn, w, none⟩, fun _ _ _ => Nat.le_refl _⟩

def filterAll : FilterFn := fun _ => true

structure FilteredHandler (σ : Type) where
  filter : FilterFn
  handler : HandlerFn σ

structure OpenFlowEndpoint (σ : Type) where
  validators : PacketType → Option ValidatorFn := fun _ => none
  handlers : PacketType → List (FilteredHandler σ) := fun _ => []

namespace OpenFlowEndpoint

def on (ep : OpenFlowEndpoint σ) (type : PacketType) (handler : HandlerFn σ)
    (f : FilterFn := filterAll) : OpenFlowEndpoint σ :=
  { ep with
    handlers := Function.update ep.handlers type (ep.handlers type ++ [⟨f, handler⟩]) }

def validate (ep : OpenFlowEndpoint σ) (type : PacketType) (validator : ValidatorFn) :
    OpenFlowEndpoint σ :=
  { ep with validators := Function.update ep.validators type (some validator) }

def runValidator (ep : OpenFlowEndpoint σ) (type : PacketType) (frame : Frame) : Bool :=
  match ep.validators type with
  | none => true
  | some validator => validator frame.body

def route (ep : OpenFlowEndpoint σ) (type : PacketType) (frame : Frame) : Option (HandlerFn σ) :=
  ((ep.handlers type).find? (fun entry => entry.filter frame)).map FilteredHandler.handler

def dispatch (ep : OpenFlowEndpoint σ) (type : PacketType) : HandlerFn σ where
  call conn frame w :=
    match ep.route type frame with
    | none => ⟨conn, w, none⟩
    | some handler => handler.call conn frame w
  length_le conn frame w := by
    split
    . exact Nat.le_refl _
    . next handler _ => exact handler.length_le conn frame w

end OpenFlowEndpoint

structure Dispatched where
  type : PacketType
  frame : Frame
  state : SessionState
  deriving DecidableEq, Repr

inductive IngestStep (τ : Type) where
  | ret (verdict : Bool) (conn : Connection)
  | dispatched (d : Dispatched) (result : HandlerResult τ)

structure IngestResult (τ : Type) where
  verdict : Except Fault Bool
  conn : Connection
  world : τ
  dispatched : List Dispatched

namespace OpenFlowEndpoint

variable (ep : OpenFlowEndpoint σ) (dispatch : PacketType → HandlerFn τ)

/--
The body of the `ingest` loop. `dispatch` is virtual, so it is a parameter.
-/
def ingestStep (conn : Connection) (w : τ) : IngestStep τ :=
  let carved := nextFrame conn.inbuf {}
  let conn := { conn with inbuf := carved.inbuf }
  match carved.status with
  | .needMore => .ret true conn
  | .invalid => .ret false conn
  | .ok =>
    let frame := carved.out
    let type : PacketType := ⟨frame.header.type⟩
    if ep.runValidator type frame then
      let conn := advanceLifecycle conn type
      .dispatched ⟨type, frame, conn.state⟩ ((dispatch type).call conn frame w)
    else
      .ret false conn

variable {ep dispatch}

theorem ingestStep_length_lt {conn : Connection} {w : τ} {d : Dispatched} {r : HandlerResult τ}
    (h : ep.ingestStep dispatch conn w = .dispatched d r) :
    r.conn.inbuf.length < conn.inbuf.length := by
  unfold ingestStep at h
  dsimp only at h
  split at h
  . contradiction
  . contradiction
  . next hok =>
    split at h
    . injection h with _ hr
      subst hr
      apply Nat.lt_of_le_of_lt ((dispatch _).length_le _ _ _)
      rw [advanceLifecycle_inbuf]
      exact nextFrame_ok_length hok
    . contradiction

variable (ep dispatch)

def ingestLoop (conn : Connection) (w : τ) (log : List Dispatched) : IngestResult τ :=
  match _hstep : ep.ingestStep dispatch conn w with
  | .ret verdict conn => ⟨.ok verdict, conn, w, log⟩
  | .dispatched d r =>
    match r.fault with
    | some e => ⟨.error e, r.conn, r.world, log ++ [d]⟩
    | none => ingestLoop r.conn r.world (log ++ [d])
termination_by conn.inbuf.length
decreasing_by exact ingestStep_length_lt _hstep

def ingestWith (conn : Connection) (data : Bytes) (w : τ) : IngestResult τ :=
  if data.length = 0 ∨ conn.fd < 0 then
    ⟨.ok false, conn, w, []⟩
  else
    ep.ingestLoop dispatch { conn with inbuf := conn.inbuf ++ data } w []

/--
Feed chunks to `ingest` one after another, up to the first call that does not return `true`.
-/
def ingestChunksWith (conn : Connection) (chunks : List Bytes) (w : τ) : IngestResult τ :=
  match chunks with
  | [] => ⟨.ok true, conn, w, []⟩
  | c :: cs =>
    let r := ep.ingestWith dispatch conn c w
    match r.verdict with
    | .ok true =>
      let tail := ingestChunksWith r.conn cs r.world
      { tail with dispatched := r.dispatched ++ tail.dispatched }
    | _ => r

def ingest (conn : Connection) (data : Bytes) (w : σ) : IngestResult σ :=
  ep.ingestWith ep.dispatch conn data w

def ingestChunks (conn : Connection) (chunks : List Bytes) (w : σ) : IngestResult σ :=
  ep.ingestChunksWith ep.dispatch conn chunks w

end OpenFlowEndpoint

structure Event where
  conn : Connection
  frame : Frame
  deriving DecidableEq, Repr

/--
`Server::dispatch`: run the handlers, then push the frame to the event queue, which is the second
component of the world.
-/
def serverDispatch (ep : OpenFlowEndpoint σ) (type : PacketType) : HandlerFn (σ × List Event) where
  call conn frame w :=
    let r := (ep.dispatch type).call conn frame w.1
    match r.fault with
    | some e => ⟨r.conn, (r.world, w.2), some e⟩
    | none => ⟨r.conn, (r.world, w.2 ++ [⟨r.conn, frame⟩]), none⟩
  length_le conn frame w := by
    dsimp only
    split
    all_goals exact (ep.dispatch type).length_le conn frame w.1

end Oflib
