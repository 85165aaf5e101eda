import NetOrc.OpenFlow.Attribution
import NetOrc.Southbound.HandlerCalls
import NetOrc.Southbound.Replay

/-!
This module contains the server whose handlers run region by region, as the locks of the services let them,
while all other parties go on. It shows that the services are still a function of what the switches sent.
-/

namespace NetOrc

open Oflib
open Transition

variable {W : Nat}

/--
Services without an effect. What the server does to its connections, sockets and tasks does not depend on
the services.
-/
def noServices : ServiceTable Unit where
  fm := { addFlow := fun _ _ _ w => w, getFlows := fun _ _ => [], hasMatch := fun _ _ _ => false }
  db := { saveFlow := fun _ _ _ w => w }
  topo := { updateLink := fun _ _ _ _ w => w, printTopology := fun w => w }

def receiver : OpenFlowEndpoint Unit := sbiEndpoint noServices (fun _ _ _ => ⟨0, 0, 0⟩)

def calling (s : Server Unit W) (i : Fin W) : Option Event :=
  match s.workers i with
  | .loop fd id =>
    (s.entry? fd id).bind (fun e =>
      match receiver.ingestStep (serverDispatch receiver) e.conn (s.world, s.events) with
      | .dispatched d r => some ⟨r.conn, d.frame⟩
      | .ret _ _ => none)
  | _ => none

theorem calling_eq_some {s : Server Unit W} {i : Fin W} {event : Event} (h : calling s i = some event) :
    ∃ fd e d r, s.workers i = .loop fd e.id ∧ s.connections.lookup fd = some e
      ∧ receiver.ingestStep (serverDispatch receiver) e.conn (s.world, s.events) = .dispatched d r
      ∧ event = ⟨r.conn, d.frame⟩ := by
  unfold calling at h
  split at h
  . next fd id hpc =>
    rcases Option.bind_eq_some_iff.mp h with ⟨e, he, hcall⟩
    rcases Server.entry?_eq_some_iff.mp he with ⟨hentry, rfl⟩
    split at hcall
    . next d r hstep =>
      cases hcall
      exact ⟨fd, e, d, r, hpc, hentry, hstep, rfl⟩
    . contradiction
  . contradiction

theorem calling_of_loop {s : Server Unit W} {i : Fin W} {fd : Int32} {e : Entry} {d : Dispatched}
    {r : HandlerResult (Unit × List Event)} (hpc : s.workers i = .loop fd e.id)
    (hentry : s.connections.lookup fd = some e)
    (hstep : receiver.ingestStep (serverDispatch receiver) e.conn (s.world, s.events) = .dispatched d r) :
    calling s i = some ⟨r.conn, d.frame⟩ := by
  simp only [calling, hpc, Server.entry?_of_lookup hentry, Option.bind_some, hstep]

theorem receiver_dispatched {conn : Connection} {w : Unit × List Event} {d : Dispatched}
    {r : HandlerResult (Unit × List Event)}
    (h : receiver.ingestStep (serverDispatch receiver) conn w = .dispatched d r) :
    r.conn.fd = conn.fd ∧ r.fault = lldpFault d.frame.type d.frame := by
  rcases OpenFlowEndpoint.ingestStep_dispatched h with ⟨conn', hfd, htype, rfl⟩
  have hkeep := serverDispatch_keepsConnection
    (sbiEndpoint_keepsConnection noServices (fun _ _ _ => ⟨0, 0, 0⟩))
  have hfaults := serverDispatch_faultsBy (sbiEndpoint_faultsBy noServices (fun _ _ _ => ⟨0, 0, 0⟩))
  constructor
  . exact (congrArg Connection.fd (hkeep d.type conn' d.frame w)).trans hfd
  . rw [← htype]
    exact hfaults d.type conn' d.frame w

/--
`handlers` are the calls of `dispatch` that return, each with its regions on the services and at its end the
push of its event. The event queue is `handlers.finished`, as the program never calls `wait_for_event`.
-/
structure Interleaved (W : Nat) where
  server : Server Unit W := { world := () }
  handlers : Phased (Fin W) HandlerState HandlerCall := { shared := {} }

inductive InterleavedAction (W : Nat) where
  | server (action : Action W)
  | dispatch (i : Fin W) (uninit : Uninit)
  | first (i : Fin W)
  | second (i : Fin W)
  | finish (i : Fin W)
  deriving DecidableEq, Repr

namespace Interleaved

/--
A worker goes on with `ingest` when its call is over. A handler that throws does so before it has used a
service.
-/
def allows (s : Interleaved W) (action : Action W) : Bool :=
  match action with
  | .handleClient i _ =>
    s.handlers.pcs i = .idle
      ∧ (calling s.server i).all (fun event => (lldpFault event.frame.type event.frame).isSome)
  | .waitForEvent => false
  | _ => true

def dispatch (insertFails : Nat → Bool) (s : Interleaved W) (i : Fin W) (uninit : Uninit) :
    Option (Interleaved W) :=
  match calling s.server i with
  | none => none
  | some event =>
    if hreturns : lldpFault event.frame.type event.frame = none then
      (s.server.step receiver (.handleClient i 0)).bind (fun server =>
        ((handlerPhases insertFails).step s.handlers
            (.start i ⟨event.conn, event.frame, uninit, hreturns⟩)).map (fun handlers =>
          ⟨server, handlers⟩))
    else
      none

def region (insertFails : Nat → Bool) (s : Interleaved W) (action : PhaseAction (Fin W) HandlerCall) :
    Option (Interleaved W) :=
  if s.server.crashed then
    none
  else
    ((handlerPhases insertFails).step s.handlers action).map (fun handlers =>
      { s with handlers := handlers })

def step (insertFails : Nat → Bool) (s : Interleaved W) (action : InterleavedAction W) :
    Option (Interleaved W) :=
  match action with
  | .server action =>
    if s.allows action then
      (s.server.step receiver action).map (fun server => { s with server := server })
    else
      none
  | .dispatch i uninit => s.dispatch insertFails i uninit
  | .first i => s.region insertFails (.first i)
  | .second i => s.region insertFails (.second i)
  | .finish i => s.region insertFails (.finish i)

def keepsOwnership (s : Interleaved W) (action : InterleavedAction W) : Bool :=
  match action with
  | .server action => s.server.keepsOwnership action
  | _ => true

inductive Step (insertFails : Nat → Bool) (s : Interleaved W) :
    InterleavedAction W → Interleaved W → Prop where
  | server {action : Action W} {server : Server Unit W} (hallows : s.allows action)
    (hserver : s.server.step receiver action = some server) :
    Step insertFails s (.server action) { s with server := server }
  | dispatch {i : Fin W} {uninit : Uninit} {event : Event} {server : Server Unit W}
    {handlers : Phased (Fin W) HandlerState HandlerCall} (hcalling : calling s.server i = some event)
    (hreturns : lldpFault event.frame.type event.frame = none)
    (hserver : s.server.step receiver (.handleClient i 0) = some server)
    (hhandlers : (handlerPhases insertFails).step s.handlers
      (.start i ⟨event.conn, event.frame, uninit, hreturns⟩) = some handlers) :
    Step insertFails s (.dispatch i uninit) ⟨server, handlers⟩
  | region {action : InterleavedAction W} {part : PhaseAction (Fin W) HandlerCall}
    {handlers : Phased (Fin W) HandlerState HandlerCall} (hcrashed : ¬s.server.crashed)
    (hpart : ∀ i c, part ≠ .start i c)
    (hhandlers : (handlerPhases insertFails).step s.handlers part = some handlers) :
    Step insertFails s action { s with handlers := handlers }

variable {insertFails : Nat → Bool} {s s' : Interleaved W}

theorem Step.of_region {action : InterleavedAction W} {part : PhaseAction (Fin W) HandlerCall}
    (hpart : ∀ i c, part ≠ .start i c) (h : s.region insertFails part = some s') :
    Step insertFails s action s' := by
  unfold Interleaved.region at h
  split at h
  . contradiction
  . next hcrashed =>
    rcases Option.map_eq_some_iff.mp h with ⟨handlers, hhandlers, rfl⟩
    exact .region hcrashed hpart hhandlers

theorem Step.of_step {action : InterleavedAction W} (h : s.step insertFails action = some s') :
    Step insertFails s action s' := by
  cases action with
  | server action =>
    dsimp only [Interleaved.step] at h
    split at h
    . next hallows =>
      rcases Option.map_eq_some_iff.mp h with ⟨server, hserver, rfl⟩
      exact .server hallows hserver
    . contradiction
  | dispatch i uninit =>
    dsimp only [Interleaved.step, Interleaved.dispatch] at h
    split at h
    . contradiction
    . next event hcalling =>
      split at h
      . next hreturns =>
        rcases Option.bind_eq_some_iff.mp h with ⟨server, hserver, h⟩
        rcases Option.map_eq_some_iff.mp h with ⟨handlers, hhandlers, rfl⟩
        exact .dispatch hcalling hreturns hserver hhandlers
      . contradiction
  | first i => exact .of_region (by simp) h
  | second i => exact .of_region (by simp) h
  | finish i => exact .of_region (by simp) h

/-! The server and the handlers go together. -/

/--
A worker is in its call while it is in the loop of `ingest`, and the calls were started in the order in which
the server lists the frames. Only a handler that throws has no call, and that is the last step.
-/
structure Matches (s : Interleaved W) : Prop where
  working : ∀ i c, (s.handlers.pcs i).call = some c → ∃ id, s.server.workers i = .loop c.conn.fd id
  started : s.handlers.started.map (fun c => (c.conn.fd, c.frame))
        = s.server.history.handled.map (fun h => (h.fd, h.frame))
      ∨ s.server.crashed ∧ (∃ i fd id, s.server.workers i = .loop fd id)
        ∧ s.handlers.started.map (fun c => (c.conn.fd, c.frame))
          <+: s.server.history.handled.map (fun h => (h.fd, h.frame))

theorem Matches.isPrefix (hs : Matches s) : s.handlers.started.map (fun c => (c.conn.fd, c.frame))
    <+: s.server.history.handled.map (fun h => (h.fd, h.frame)) := by
  rcases hs.started with hstarted | ⟨_, _, hstarted⟩
  . rw [hstarted]
  . exact hstarted

theorem Matches.server (hs : Matches s) {action : Action W} {server : Server Unit W}
    (hallows : s.allows action) (hserver : s.server.step receiver action = some server) :
    Matches { s with server := server } := by
  rcases Server.Step.of_step hserver with ⟨hcrashed, hstep⟩
  have hstarted := hs.started.resolve_right (fun h => hcrashed h.1)
  constructor
  . intro j c hj
    rcases hs.working j c hj with ⟨id, hpc⟩
    refine ⟨id, (hstep.workers_eq ?_).trans hpc⟩
    rintro count rfl
    have hidle : s.handlers.pcs j = .idle := (of_decide_eq_true hallows).1
    rw [hidle] at hj
    contradiction
  . dsimp only
    cases hstep with
    | @dispatched i count fd e d r hpc hentry hstep =>
      right
      have hfault := (of_decide_eq_true hallows).2
      rw [calling_of_loop hpc hentry hstep, Option.all_some, ← (receiver_dispatched hstep).2] at hfault
      refine ⟨hfault, ⟨i, fd, e.id, hpc⟩, ?_⟩
      rw [hstarted, List.map_append]
      exact List.prefix_append _ _
    | _ => exact .inl hstarted

theorem Matches.owned (hs : Matches s) (hserver : Following receiver s.server) {i : Fin W} {c : HandlerCall}
    {id : Nat} (hpc : s.server.workers i = .loop c.conn.fd id) (hidle : s.handlers.pcs i = .idle) :
    (handlerPhases insertFails).owned s.handlers (.start i c) := by
  intro j d hj hfd
  rcases hs.working j d hj with ⟨id', hpc'⟩
  have hfd : d.conn.fd = c.conn.fd := hfd
  have hji : j = i := by
    refine Server.eq_of_carried (hserver.load c.conn.fd) ?_ ?_
    . rw [hpc', hfd]
      rfl
    . rw [hpc]
      rfl
  rw [hji, hidle] at hj
  contradiction

theorem Matches.region (hs : Matches s) {part : PhaseAction (Fin W) HandlerCall}
    {handlers : Phased (Fin W) HandlerState HandlerCall} (hpart : ∀ i c, part ≠ .start i c)
    (hhandlers : (handlerPhases insertFails).step s.handlers part = some handlers) :
    Matches { s with handlers := handlers } := by
  have hcall : ∀ {i : Fin W} {pc : PhasePc HandlerCall} {j c},
      (∀ c, pc.call = some c → (s.handlers.pcs i).call = some c) →
      (Function.update s.handlers.pcs i pc j).call = some c → (s.handlers.pcs j).call = some c := by
    intro i pc j c hpc hj
    by_cases hji : j = i
    . rw [hji, Function.update_self] at hj
      rw [hji]
      exact hpc c hj
    . rwa [Function.update_of_ne hji] at hj
  cases Phases.Step.of_step hhandlers with
  | start => exact absurd rfl (hpart _ _)
  | first hpc =>
    exact ⟨fun j c hj => hs.working j c (hcall (fun c hc => by rw [hpc]; exact hc) hj), hs.started⟩
  | second hpc =>
    exact ⟨fun j c hj => hs.working j c (hcall (fun c hc => by rw [hpc]; exact hc) hj), hs.started⟩
  | finish hpc =>
    exact ⟨fun j c hj => hs.working j c (hcall (fun c hc => by contradiction) hj), hs.started⟩

theorem Matches.dispatch (hs : Matches s) (howned : s.server.Owned) {i : Fin W} {uninit : Uninit}
    {event : Event} {server : Server Unit W} {handlers : Phased (Fin W) HandlerState HandlerCall}
    (hcalling : calling s.server i = some event) (hreturns : lldpFault event.frame.type event.frame = none)
    (hserver : s.server.step receiver (.handleClient i 0) = some server)
    (hhandlers : (handlerPhases insertFails).step s.handlers
      (.start i ⟨event.conn, event.frame, uninit, hreturns⟩) = some handlers) :
    Matches ⟨server, handlers⟩ ∧ ∃ id, s.server.workers i = .loop event.conn.fd id := by
  have hcrashed := (Server.Step.of_step hserver).1
  have hstarted := hs.started.resolve_right (fun h => hcrashed h.1)
  rcases calling_eq_some hcalling with ⟨fd, e, d, r, hpc, hentry, hstep, rfl⟩
  have hconn : r.conn.fd = e.conn.fd := (receiver_dispatched hstep).1
  have hfd : e.conn.fd = fd := (howned.entry fd e hentry).1
  rw [Server.Step.step_eq hcrashed (.dispatched hpc hentry hstep)] at hserver
  cases hserver
  cases Phases.Step.of_step hhandlers
  refine ⟨⟨fun j c hj => ?_, .inl ?_⟩, e.id, ?_⟩
  . dsimp only at hj ⊢
    by_cases hji : j = i
    . rw [hji, Function.update_self] at hj
      cases hj
      rw [hji, hconn, hfd]
      exact ⟨e.id, hpc⟩
    . rw [Function.update_of_ne hji] at hj
      exact hs.working j c hj
  . dsimp only
    rw [List.map_append, List.map_append, hstarted, List.map_singleton, List.map_singleton, hconn]
  . rw [hconn, hfd]
    exact hpc

structure Followed (insertFails : Nat → Bool) (db : DatabaseService) (s : Interleaved W) : Prop where
  server : Following receiver s.server
  handlers : Reaches (handlerPhases insertFails).step (handlerPhases insertFails).owned
    { shared := { world := { db := db } } } s.handlers
  together : Matches s

variable {db : DatabaseService}

theorem Followed.step {action : InterleavedAction W} (hs : Followed insertFails db s)
    (hguard : s.keepsOwnership action) (h : s.step insertFails action = some s') :
    Followed insertFails db s' := by
  have hkeep : KeepsConnection receiver.dispatch := sbiEndpoint_keepsConnection _ _
  cases Step.of_step h with
  | server hallows hserver =>
    exact ⟨hs.server.step hkeep hguard hserver, hs.handlers, hs.together.server hallows hserver⟩
  | @dispatch i uninit event server handlers hcalling hreturns hserver hhandlers =>
    rcases hs.together.dispatch hs.server.owned hcalling hreturns hserver hhandlers with ⟨htogether, id, hpc⟩
    refine ⟨hs.server.step hkeep rfl hserver, hs.handlers.tail ⟨_, ?_, hhandlers⟩, htogether⟩
    cases Phases.Step.of_step hhandlers with
    | start hidle => exact hs.together.owned hs.server hpc hidle
  | @region action part handlers hcrashed hpart hhandlers =>
    refine ⟨hs.server, hs.handlers.tail ⟨part, ?_, hhandlers⟩, hs.together.region hpart hhandlers⟩
    cases part with
    | start i c => exact absurd rfl (hpart i c)
    | _ => trivial

/--
The state of the program when it is started: `main` opens the database and creates its table only if there is
none. The other services start empty.
-/
def bootWith (db : DatabaseService) : Interleaved W where
  handlers := { shared := { world := { db := db } } }

theorem followed_of_reaches
    (h : Reaches (Interleaved.step insertFails) (fun s action => s.keepsOwnership action) (bootWith db) s) :
    Followed insertFails db s := by
  refine h.invariant (Followed insertFails db) (fun s action s' hs hguard hstep => hs.step hguard hstep) ?_
  have hkeep : KeepsConnection receiver.dispatch := sbiEndpoint_keepsConnection _ _
  exact ⟨following_of_reaches hkeep .refl, .refl, ⟨fun i c hi => by contradiction, .inl rfl⟩⟩

theorem Followed.idle (hs : Followed insertFails db s) (hloop : ∀ i fd id, s.server.workers i ≠ .loop fd id)
    (i : Fin W) : s.handlers.pcs i = .idle := by
  cases hpc : s.handlers.pcs i with
  | idle => rfl
  | _ c =>
    rcases hs.together.working i c (by rw [hpc]; rfl) with ⟨id, hworker⟩
    exact absurd hworker (hloop i c.conn.fd id)

end Interleaved

/-! What the calls leave behind, and for whom. -/

def framesFor (fd : Int32) (calls : List HandlerCall) : List Frame :=
  (calls.filter (fun c => c.conn.fd = fd)).map HandlerCall.frame

theorem framesFor_append (fd : Int32) (calls calls' : List HandlerCall) :
    framesFor fd (calls ++ calls') = framesFor fd calls ++ framesFor fd calls' := by
  unfold framesFor
  rw [List.filter_append, List.map_append]

def HandlerCall.handled (c : HandlerCall) : Handled := ⟨0, c.conn.fd, c.frame⟩

theorem frames_handled (calls : List HandlerCall) (fd : Int32) :
    ((calls.map HandlerCall.handled).filter (fun h => h.fd = fd)).map Handled.frame = framesFor fd calls := by
  unfold framesFor
  rw [List.filter_map, List.map_map]
  rfl

def inserts (calls : List HandlerCall) : List SaveFlow :=
  (calls.filter (fun c => c.frame.type = .hello)).map (fun c => defaultFlowCall c.conn.fd)

theorem saveFlowCalls_handled (calls : List HandlerCall) :
    saveFlowCalls (calls.map HandlerCall.handled) = inserts calls := by
  unfold saveFlowCalls inserts
  rw [List.filter_map, List.map_map]
  rfl

section
variable {insertFails : Nat → Bool} {before : List SaveFlow} {db : DatabaseService}

theorem replayed_foldl (hdb : db.Holds insertFails before) (calls : List HandlerCall) :
    Replayed insertFails before
      (calls.foldl (handlerPhases insertFails).serialCall { world := { db := db } }).world
      (calls.map HandlerCall.handled) := by
  induction calls using List.reverseRecOn with
  | nil =>
    refine ⟨fun fd => ?_, rfl, ?_⟩
    . simp [FlowManager.getFlows, flowsOf]
    . rwa [List.map_nil, saveFlowCalls, List.filter_nil, List.map_nil, List.append_nil]
  | append_singleton calls c ih =>
    let w := calls.foldl (handlerPhases insertFails).serialCall { world := { db := db } }
    rw [List.foldl_concat, List.map_append, List.map_singleton]
    have hdispatch := Replayed.dispatch insertFails (fun _ _ _ => c.uninit) (w := (w.world, [])) ih 0 c.conn
      c.frame
    have hatomic := HandlerCall.atomic_eq insertFails c w []
    unfold HandlerCall.atomic at hatomic
    rw [hatomic] at hdispatch
    exact hdispatch

theorem prepare_world (insertFails : Nat → Bool) (w : HandlerState) (pending : List (Fin W × HandlerCall)) :
    let w' := (handlerPhases insertFails).prepare w pending
    w'.world.db = w.world.db ∧ w'.world.topo = w.world.topo
      ∧ ∀ fd, (w'.world.flows.getFlows (dpidOf fd)).map FlowEntry.columns
        = (w.world.flows.getFlows (dpidOf fd)).map FlowEntry.columns
          ++ flowsOf (framesFor fd (pending.map Prod.snd)) := by
  induction pending generalizing w with
  | nil => exact ⟨rfl, rfl, fun fd => (List.append_nil _).symm⟩
  | cons x pending ih =>
    rcases x with ⟨i, c⟩
    have hpush : (c.push w).world.db = w.world.db ∧ (c.push w).world.topo = w.world.topo := by
      unfold HandlerCall.push
      split <;> exact ⟨rfl, rfl⟩
    rcases ih (c.push w) with ⟨hdb, htopo, hflows⟩
    refine ⟨hdb.trans hpush.1, htopo.trans hpush.2, fun fd => ?_⟩
    refine (hflows fd).trans ?_
    rw [HandlerCall.getFlows_push, List.map_append, List.append_assoc, List.map_cons]
    congr 1
    unfold framesFor flowsOf
    by_cases hfd : c.conn.fd = fd
    . rw [List.filter_cons_of_pos (by simpa using hfd), List.map_cons, List.countP_cons]
      by_cases hhello : c.frame.type = .hello
      . simp [hfd, hhello, List.replicate_succ]
        rfl
      . simp [hhello]
    . have hdpid : dpidOf fd ≠ dpidOf c.conn.fd := fun hdpid => hfd (dpidOf_inj.mp hdpid).symm
      rw [List.filter_cons_of_neg (by simpa using hfd), if_neg (fun h => hdpid h.1)]
      rfl

end

namespace Interleaved

variable {insertFails : Nat → Bool} {s : Interleaved W} {before : List SaveFlow} {db : DatabaseService}

theorem Matches.framesFor_isPrefix (hs : Matches s) (fd : Int32) :
    framesFor fd s.handlers.started <+: s.server.framesOn fd := by
  have hframes := (hs.isPrefix.filter (fun p => p.1 = fd)).map Prod.snd
  simp only [List.filter_map, List.map_map] at hframes
  exact hframes

theorem Followed.framesFor_started (hs : Followed insertFails db s)
    (hloop : ∀ i fd id, s.server.workers i ≠ .loop fd id) (fd : Int32) :
    framesFor fd s.handlers.started = s.server.framesOn fd := by
  have hstarted := hs.together.started.resolve_right (by
    rintro ⟨_, ⟨i, fd, id, hpc⟩, _⟩
    exact hloop i fd id hpc)
  have hframes := congrArg (fun pairs => (pairs.filter (fun p => p.1 = fd)).map Prod.snd) hstarted
  simp only [List.filter_map, List.map_map] at hframes
  exact hframes

theorem Followed.framesFor_eq (hs : Followed insertFails db s)
    (hloop : ∀ i fd id, s.server.workers i ≠ .loop fd id) (fd : Int32) :
    framesFor fd s.handlers.order = s.server.framesOn fd
      ∧ framesFor fd s.handlers.finished = s.server.framesOn fd := by
  rcases (Phases.serial_of_reaches hs.handlers (hs.idle hloop)).2 fd with ⟨hstarted, hfinished⟩
  rw [← hs.framesFor_started hloop fd]
  exact ⟨congrArg (List.map HandlerCall.frame) hstarted.symm,
    congrArg (List.map HandlerCall.frame) (hfinished.trans hstarted.symm)⟩

/--
The services in any state: the database and the links are those of the calls with both regions, the flow
table of a descriptor may be one call ahead.
-/
theorem Followed.services (hs : Followed insertFails db s) (hdb : db.Holds insertFails before) :
    s.handlers.shared.world.db.Holds insertFails (before ++ inserts s.handlers.order)
      ∧ ∀ fd,
        s.handlers.shared.world.topo.links.filter (fun link => link.srcFd = fd)
            = lastLink fd (framesFor fd s.handlers.order)
          ∧ ∃ pushed, framesFor fd s.handlers.order <+: pushed ∧ pushed <+: s.server.framesOn fd
            ∧ (s.handlers.shared.world.flows.getFlows (dpidOf fd)).map FlowEntry.columns
              = flowsOf pushed := by
  rcases Phases.invariants_of_reaches hs.handlers with ⟨hapart, ⟨pending, hpending, hshared⟩, hordered⟩
  have hreplayed := replayed_foldl hdb s.handlers.order
  rcases prepare_world insertFails (s.handlers.order.foldl
    (handlerPhases insertFails).serialCall { world := { db := db } }) pending with ⟨hdb', htopo, hflows⟩
  rw [← hshared] at hdb' htopo hflows
  refine ⟨?_, fun fd => ⟨?_, framesFor fd s.handlers.order ++ framesFor fd (pending.map Prod.snd),
    List.prefix_append _ _, ?_, ?_⟩⟩
  . rw [hdb', ← saveFlowCalls_handled]
    exact hreplayed.db
  . rw [htopo, hreplayed.links_of_fd fd, frames_handled]
  . have hprefix := (hordered.append_pending_isPrefix hapart hpending fd).map HandlerCall.frame
    rw [List.map_append] at hprefix
    exact hprefix.trans (hs.together.framesFor_isPrefix fd)
  . rw [hflows fd, hreplayed.flows fd, frames_handled]
    unfold flowsOf
    rw [List.countP_append, List.replicate_add]

theorem Followed.services_of_idle (hs : Followed insertFails db s) (hdb : db.Holds insertFails before)
    (hloop : ∀ i fd id, s.server.workers i ≠ .loop fd id) (fd : Int32) :
    (s.handlers.shared.world.flows.getFlows (dpidOf fd)).map FlowEntry.columns
        = flowsOf (s.server.framesOn fd)
      ∧ s.handlers.shared.world.topo.links.filter (fun link => link.srcFd = fd)
        = lastLink fd (s.server.framesOn fd)
      ∧ ((s.handlers.finished.map HandlerCall.event).filter (fun event => event.conn.fd = fd)).map Event.frame
        = s.server.framesOn fd := by
  rcases hs.framesFor_eq hloop fd with ⟨horder, hfinished⟩
  rcases (hs.services hdb).2 fd with ⟨hlinks, pushed, hsaved, hpushed, hflows⟩
  rw [horder] at hlinks hsaved
  refine ⟨?_, hlinks, ?_⟩
  . rw [hflows, hpushed.eq_of_length_le hsaved.length_le]
  . rw [List.filter_map, List.map_map]
    exact hfinished

theorem Followed.rows_of_idle (hs : Followed insertFails {} s)
    (hloop : ∀ i fd id, s.server.workers i ≠ .loop fd id) (hfails : ∀ n, insertFails n = false) {fd : Int32}
    (hfd : 0 ≤ fd) :
    (s.handlers.shared.world.db.rowsOf (dpidOf fd)).map FlowsRow.columns
      =
    flowsOf (s.server.framesOn fd) := by
  have hdb := (hs.services (DatabaseService.holds_empty insertFails)).1
  rw [List.nil_append, ← saveFlowCalls_handled] at hdb
  rw [rowsOf_of_holds hfails hdb hfd, frames_handled, (hs.framesFor_eq hloop fd).1]

end Interleaved

/--
A controller that starts without flows and links, each of whose connections is served by one worker, and
whose handlers are interleaved region by region. Once no worker is inside of `ingest`, the flow table of a
descriptor has a default flow for each valid HELLO that its connections have sent, its link is the one that
their last LLDP frame tells, the events of the descriptor are their valid frames in order, and if no `INSERT`
fails, the database has the flows as well. The table of the database has the calls of `saveFlow` whose
`INSERT` did not fail, in the order in which they were made, with the ids 1, 2, 3 and so on.
-/
theorem services_of_interleaved (insertFails : Nat → Bool) (s : Interleaved W)
    (h : Reaches (Interleaved.step insertFails) (fun s action => s.keepsOwnership action) {} s)
    (hloop : ∀ i fd id, s.server.workers i ≠ .loop fd id) :
    (∀ fd : Int32,
      let sent := (s.server.connectionsOn fd).flatMap (s.server.validFrames receiver)
      let w := s.handlers.shared.world
      (w.flows.getFlows (dpidOf fd)).map FlowEntry.columns = flowsOf sent
        ∧ w.topo.links.filter (fun link => link.srcFd = fd) = lastLink fd sent
        ∧ ((s.handlers.finished.map HandlerCall.event).filter
            (fun event => event.conn.fd = fd)).map Event.frame = sent
        ∧ ((∀ n, insertFails n = false) → 0 ≤ fd →
          (w.db.rowsOf (dpidOf fd)).map FlowsRow.columns = flowsOf sent))
      ∧ s.handlers.shared.world.db.rows
        = DatabaseService.rowsFor (DatabaseService.stored insertFails
          ((s.handlers.order.filter (fun c => c.frame.type = .hello)).map
            (fun c => defaultFlowCall c.conn.fd))) := by
  have hs : Interleaved.Followed insertFails {} s := Interleaved.followed_of_reaches h
  have hempty := DatabaseService.holds_empty insertFails
  have hdb := (hs.services hempty).1
  rw [List.nil_append] at hdb
  refine ⟨fun fd => ?_, hdb.rows⟩
  intro sent w
  have hsent : s.server.framesOn fd = sent := by
    have hframes := hs.server.attributed.framesOn_eq fd
    rw [hframes]
    apply List.flatMap_congr
    exact fun id _ => hs.server.settled (fun i fd => hloop i fd id)
  rcases hs.services_of_idle hempty hloop fd with ⟨hflows, hlinks, hevents⟩
  have hrows := fun hfails (hfd : 0 ≤ fd) => hs.rows_of_idle hloop hfails hfd
  rw [hsent] at hflows hlinks hevents hrows
  exact ⟨hflows, hlinks, hevents, hrows⟩

def crossedHellos : List (InterleavedAction 2) :=
  let hello : Bytes := [0x01, 0x00, 0x00, 0x08, 0x00, 0x00, 0x00, 0x01]
  let i : Fin 2 := ⟨0, Nat.two_pos⟩
  let j : Fin 2 := ⟨1, Nat.one_lt_two⟩
  ([.listen 0, .caller 0, .acceptLoop 0 0, .acceptLoop 0 5, .acceptLoop 0 0, .acceptLoop 0 0,
    .acceptLoop 0 0, .acceptLoop 0 7, .acceptLoop 0 0, .acceptLoop 0 0, .send 5 hello, .send 7 hello,
    .handleClient i 0, .handleClient i 0, .handleClient i 0, .handleClient i 8, .handleClient i 0,
    .handleClient j 0, .handleClient j 0, .handleClient j 0, .handleClient j 8,
    .handleClient j 0].map .server)
    ++ [.dispatch i ⟨0, 0, 0⟩, .dispatch j ⟨0, 0, 0⟩, .first i, .first j, .second j, .second i, .finish i,
      .finish j, .server (.handleClient i 0), .server (.handleClient j 0)]

theorem services_of_interleaved_crossedHellos :
    ∃ s : Interleaved 2,
      run (Interleaved.step (fun _ => false)) (fun s action => s.keepsOwnership action) {} crossedHellos
          = some s
        ∧ s.handlers.shared.world.db.rows.map FlowsRow.dpid = [.integer 7, .integer 5]
        ∧ (s.handlers.shared.world.db.rowsOf (dpidOf 5)).map FlowsRow.columns
          = flowsOf ((s.server.connectionsOn 5).flatMap (s.server.validFrames receiver)) := by
  obtain ⟨s, hs, hstate⟩ : ∃ s : Interleaved 2,
      run (Interleaved.step (fun _ => false)) (fun s action => s.keepsOwnership action) {} crossedHellos
          = some s
        ∧ (s.handlers.shared.world.db.rows.map FlowsRow.dpid = [.integer 7, .integer 5]
          ∧ ∀ i, s.server.workers i = .top 5 ∨ s.server.workers i = .top 7 : Bool) :=
    (Option.any_eq_true _ _).mp (by decide +kernel)
  rcases of_decide_eq_true hstate with ⟨hrows, hworkers⟩
  have hservices := services_of_interleaved _ s (reaches_of_run hs)
    (Server.ne_loop_of_top hworkers)
  exact ⟨s, hs, hrows, (hservices.1 5).2.2.2 (fun _ => rfl) (by decide)⟩

end NetOrc
