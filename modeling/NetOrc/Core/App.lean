import NetOrc.Core.ThreadEnvironment
import NetOrc.Northbound.NorthBoundInterface
import NetOrc.OpenFlow.Tracks
import NetOrc.Southbound.PacketHandlers

/-!
This module puts the program of `main` and `App::run` together: the main thread, which starts the two
interfaces and then sleeps, the southbound server and its switches, the threads of the HTTP server, the
northbound pool, and the metrics.
-/

namespace NetOrc

open Oflib
open Transition

/--
Where the main thread is. `listen` stands between the two halves of `Server::listen`.
-/
inductive MainPc where
  | sbiInit
  | listen
  | nbiInit
  | sleeping
  deriving DecidableEq, Repr

/--
Where a thread of the HTTP server is with its request. `queued` has queued the task and not notified the
pool yet.
-/
inductive HttpPc where
  | idle
  | routing (req : HttpRequest)
  | queued (req : HttpRequest)
  | postRouting (req : HttpRequest)
  | writing (req : HttpRequest)

structure AppHistory where
  observed : List RoutedRequest := []
  answered : List HttpRequest := []
  pushed : List Handled := []

structure App where
  main : MainPc := .sbiInit
  server : Server Services 4 := { world := {} }
  http : Nat → HttpPc := fun _ => .idle
  pool : ThreadEnvironment 2 EventTask := {}
  metrics : MetricsRegistry := {}
  history : AppHistory := {}

/--
The thread that takes the next step, with what the environment decides: whether the southbound port can
be bound, what switches and clients send, and whether a client still takes its answer.
-/
inductive AppAction where
  | run (bound : Bool)
  | southbound (action : Action 4)
  | receive (h : Nat) (req : HttpRequest)
  | route (h : Nat)
  | notifyOne (h : Nat) (woken : Option (Fin 2))
  | postRouting (h : Nat)
  | write (h : Nat) (sent : Bool)
  | pool (action : PoolAction 2 EventTask)

def isSouthbound (action : Action 4) : Bool :=
  match action with
  | .acceptLoop _ _ => true
  | .handleClient _ _ => true
  | .send _ _ => true
  | .hangUp _ => true
  | .reset _ => true
  | _ => false

def isNorthbound (action : PoolAction 2 EventTask) : Bool :=
  match action with
  | .wait _ => true
  | .run _ => true
  | .spuriousWake _ => true
  | _ => false

namespace App

def pushes (ep : OpenFlowEndpoint Services) (server : Server Services 4) (i : Fin 4) : Option Handled :=
  (server.carves i).filter (fun h =>
    ep.runValidator h.frame.type h.frame && (lldpFault h.frame.type h.frame).isNone)

def pushedBy (ep : OpenFlowEndpoint Services) (server : Server Services 4) (action : Action 4) :
    List Handled :=
  match action with
  | .handleClient i _ => (pushes ep server i).toList
  | _ => []

def setHttp (c : App) (h : Nat) (pc : HttpPc) : App := { c with http := Function.update c.http h pc }

/--
`App::run`. The loop that keeps the main thread alive changes nothing.
-/
def run (c : App) (bound : Bool) : Option App :=
  match c.main with
  | .sbiInit =>
    if bound then
      (c.server.listen 0).map (fun server => { c with server := server, main := .listen })
    else
      some { c with main := .nbiInit }
  | .listen => (c.server.caller 0).map (fun server => { c with server := server, main := .nbiInit })
  | .nbiInit => some { c with main := .sleeping }
  | .sleeping => none

def southbound (ep : OpenFlowEndpoint Services) (c : App) (action : Action 4) : Option App :=
  if isSouthbound action then
    (c.server.step ep action).map (fun server =>
      { c with
        server := server
        history := { c.history with pushed := c.history.pushed ++ pushedBy ep c.server action } })
  else
    none

def receive (c : App) (h : Nat) (req : HttpRequest) : Option App :=
  match c.main, c.http h with
  | .sleeping, .idle => some (c.setHttp h (.routing req))
  | _, _ => none

def route (c : App) (h : Nat) : Option App :=
  match c.http h with
  | .routing (.events req) =>
    match req.handle.1 with
    | none => some (c.setHttp h (.postRouting (.events req)))
    | some task =>
      (c.pool.step (.enqueue task)).map (fun pool =>
        { c.setHttp h (.queued (.events req)) with pool := pool })
  | .routing (.other req) => some (c.setHttp h (.postRouting (.other req)))
  | _ => none

def notifyOne (c : App) (h : Nat) (woken : Option (Fin 2)) : Option App :=
  match c.http h with
  | .queued req =>
    (c.pool.step (.notifyOne woken)).map (fun pool =>
      { c.setHttp h (.postRouting req) with pool := pool })
  | _ => none

def postRouting (c : App) (h : Nat) : Option App :=
  match c.http h with
  | .postRouting req =>
    some { c.setHttp h (.writing req) with
      metrics := NetOrc.postRouting c.metrics req.routed
      history := { c.history with observed := c.history.observed ++ [req.routed] } }
  | _ => none

def write (c : App) (h : Nat) (sent : Bool) : Option App :=
  match c.http h with
  | .writing req =>
    some { c.setHttp h .idle with
      history := { c.history with
        answered := if sent then c.history.answered ++ [req] else c.history.answered } }
  | _ => none

def step (insertFails : Nat → Bool) (junk : Connection → Frame → Services → Uninit) (c : App)
    (action : AppAction) : Option App :=
  if c.server.crashed then
    none
  else
    match action with
    | .run bound => c.run bound
    | .southbound action => c.southbound (sbiEndpoint (services insertFails) junk) action
    | .receive h req => c.receive h req
    | .route h => c.route h
    | .notifyOne h woken => c.notifyOne h woken
    | .postRouting h => c.postRouting h
    | .write h sent => c.write h sent
    | .pool action =>
      if isNorthbound action then
        (c.pool.step action).map (fun pool => { c with pool := pool })
      else
        none

inductive Step (ep : OpenFlowEndpoint Services) (c : App) : AppAction → App → Prop where
  | bindFails (hmain : c.main = .sbiInit) : Step ep c (.run false) { c with main := .nbiInit }
  | listen {server : Server Services 4} (hmain : c.main = .sbiInit)
    (hserver : c.server.listen 0 = some server) :
    Step ep c (.run true) { c with server := server, main := .listen }
  | spawn {bound : Bool} {server : Server Services 4} (hmain : c.main = .listen)
    (hserver : c.server.caller 0 = some server) :
    Step ep c (.run bound) { c with server := server, main := .nbiInit }
  | nbiInit {bound : Bool} (hmain : c.main = .nbiInit) :
    Step ep c (.run bound) { c with main := .sleeping }
  | southbound {action : Action 4} {server : Server Services 4} (hsouth : isSouthbound action)
    (hserver : c.server.step ep action = some server) :
    Step ep c (.southbound action) { c with
      server := server
      history := { c.history with pushed := c.history.pushed ++ pushedBy ep c.server action } }
  | receive {h : Nat} {req : HttpRequest} (hmain : c.main = .sleeping) (hpc : c.http h = .idle) :
    Step ep c (.receive h req) (c.setHttp h (.routing req))
  | reject {h : Nat} {req : EventsRequest} (hpc : c.http h = .routing (.events req))
    (htype : req.packetType = none) :
    Step ep c (.route h) (c.setHttp h (.postRouting (.events req)))
  | enqueue {h : Nat} {req : EventsRequest} {type : PacketType} {pool : ThreadEnvironment 2 EventTask}
    (hpc : c.http h = .routing (.events req)) (htype : req.packetType = some type)
    (hpool : c.pool.step (.enqueue ⟨type, req.body⟩) = some pool) :
    Step ep c (.route h) { c.setHttp h (.queued (.events req)) with pool := pool }
  | other {h : Nat} {req : RoutedRequest} (hpc : c.http h = .routing (.other req)) :
    Step ep c (.route h) (c.setHttp h (.postRouting (.other req)))
  | notifyOne {h : Nat} {woken : Option (Fin 2)} {req : HttpRequest}
    {pool : ThreadEnvironment 2 EventTask} (hpc : c.http h = .queued req)
    (hpool : c.pool.step (.notifyOne woken) = some pool) :
    Step ep c (.notifyOne h woken) { c.setHttp h (.postRouting req) with pool := pool }
  | postRouting {h : Nat} {req : HttpRequest} (hpc : c.http h = .postRouting req) :
    Step ep c (.postRouting h) { c.setHttp h (.writing req) with
      metrics := NetOrc.postRouting c.metrics req.routed
      history := { c.history with observed := c.history.observed ++ [req.routed] } }
  | write {h : Nat} {sent : Bool} {req : HttpRequest} (hpc : c.http h = .writing req) :
    Step ep c (.write h sent) { c.setHttp h .idle with
      history := { c.history with
        answered := if sent then c.history.answered ++ [req] else c.history.answered } }
  | pool {action : PoolAction 2 EventTask} {pool : ThreadEnvironment 2 EventTask}
    (hnorth : isNorthbound action) (hpool : c.pool.step action = some pool) :
    Step ep c (.pool action) { c with pool := pool }

variable {insertFails : Nat → Bool} {junk : Connection → Frame → Services → Uninit} {c c' : App}

theorem Step.of_run {ep : OpenFlowEndpoint Services} {bound : Bool} (h : c.run bound = some c') :
    Step ep c (.run bound) c' := by
  unfold run at h
  split at h
  . next hmain =>
    cases bound with
    | false =>
      cases h
      exact .bindFails hmain
    | true =>
      rcases Option.map_eq_some_iff.mp h with ⟨server, hserver, rfl⟩
      exact .listen hmain hserver
  . next hmain =>
    rcases Option.map_eq_some_iff.mp h with ⟨server, hserver, rfl⟩
    exact .spawn hmain hserver
  . next hmain =>
    cases h
    exact .nbiInit hmain
  . contradiction

theorem Step.of_route {ep : OpenFlowEndpoint Services} {h : Nat} (hstep : c.route h = some c') :
    Step ep c (.route h) c' := by
  unfold route at hstep
  split at hstep
  . next req hpc =>
    cases htype : req.packetType with
    | none =>
      simp only [EventsRequest.handle, htype] at hstep
      cases hstep
      exact .reject hpc htype
    | some type =>
      simp only [EventsRequest.handle, htype] at hstep
      rcases Option.map_eq_some_iff.mp hstep with ⟨pool, hpool, rfl⟩
      exact .enqueue hpc htype hpool
  . next req hpc =>
    cases hstep
    exact .other hpc
  . contradiction

theorem Step.of_step {action : AppAction} (h : step insertFails junk c action = some c') :
    ¬c.server.crashed ∧ Step (sbiEndpoint (services insertFails) junk) c action c' := by
  unfold step at h
  split at h
  . contradiction
  . next hcrashed =>
    refine ⟨hcrashed, ?_⟩
    cases action with
    | run bound => exact .of_run h
    | southbound action =>
      dsimp only [App.southbound] at h
      split at h
      . next hsouth =>
        rcases Option.map_eq_some_iff.mp h with ⟨server, hserver, rfl⟩
        exact .southbound hsouth hserver
      . contradiction
    | receive n req =>
      dsimp only [App.receive] at h
      split at h
      . next hmain hpc =>
        cases h
        exact .receive hmain hpc
      . contradiction
    | route n => exact .of_route h
    | notifyOne n woken =>
      dsimp only [App.notifyOne] at h
      split at h
      . next hpc =>
        rcases Option.map_eq_some_iff.mp h with ⟨pool, hpool, rfl⟩
        exact .notifyOne hpc hpool
      . contradiction
    | postRouting n =>
      dsimp only [App.postRouting] at h
      split at h
      . next hpc =>
        cases h
        exact .postRouting hpc
      . contradiction
    | write n sent =>
      dsimp only [App.write] at h
      split at h
      . next hpc =>
        cases h
        exact .write hpc
      . contradiction
    | pool action =>
      dsimp only at h
      split at h
      . next hnorth =>
        rcases Option.map_eq_some_iff.mp h with ⟨pool, hpool, rfl⟩
        exact .pool hnorth hpool
      . contradiction

def Reachable (insertFails : Nat → Bool) (junk : Connection → Frame → Services → Uninit) (c : App) :
    Prop :=
  Reaches (step insertFails junk) (fun _ _ => True) {} c

end App

end NetOrc
