import NetOrc.OpenFlow.Tracks

/-!
This module contains the server whose workers take the rounds of `ingest` apart: a worker carves a frame,
then runs its handler region by region, and then pushes the event. No lock is held from one of these steps
to the next, so all other parties go on between them.
-/

namespace Oflib

open Transition

variable {σ : Type} {W : Nat}

/--
What a handler still has to do. A region reads and writes the connection and the world, and what comes after
it may depend on what it has read.
-/
inductive HandlerRun (σ : Type) where
  | returns
  | throws (fault : Fault)
  | region (effect : Connection → σ → Connection × σ) (next : Connection → σ → HandlerRun σ)

/--
The regions of the handlers. How a handler is taken apart depends on the locks of the services it uses.
-/
abbrev Regions (σ : Type) := HandlerFn σ → Frame → HandlerRun σ

namespace HandlerRun

def whole (run : HandlerRun σ) (conn : Connection) (w : σ) : HandlerResult σ :=
  match run with
  | .returns => ⟨conn, w, none⟩
  | .throws fault => ⟨conn, w, some fault⟩
  | .region effect next => (next conn w).whole (effect conn w).1 (effect conn w).2

def KeepsBuffer (run : HandlerRun σ) : Prop :=
  match run with
  | .returns => True
  | .throws _ => True
  | .region effect next =>
    (∀ conn w, (effect conn w).1.inbuf = conn.inbuf) ∧ ∀ conn w, (next conn w).KeepsBuffer

end HandlerRun

def Regions.Exact (regions : Regions σ) : Prop :=
  ∀ handler frame conn w, (regions handler frame).whole conn w = handler.call conn frame w

def oneRegion : Regions σ :=
  fun handler frame =>
    .region (fun conn w => ((handler.call conn frame w).conn, (handler.call conn frame w).world))
      (fun conn w =>
        match (handler.call conn frame w).fault with
        | none => .returns
        | some fault => .throws fault)

theorem oneRegion_exact : Regions.Exact (oneRegion : Regions σ) := by
  intro handler frame conn w
  simp only [oneRegion, HandlerRun.whole]
  split
  all_goals
    next hfault =>
    rw [HandlerRun.whole, ← hfault]

def OpenFlowEndpoint.dispatchRun (ep : OpenFlowEndpoint σ) (regions : Regions σ) (type : PacketType)
    (frame : Frame) : HandlerRun σ :=
  match ep.route type frame with
  | none => .returns
  | some handler => regions handler frame

def noDispatch (_ : PacketType) : HandlerFn Unit := idle

theorem noDispatch_keepsBuffer : KeepsBuffer noDispatch := by
  intro type conn frame w
  rfl

/--
Where a worker is in a round: at its beginning, inside of the handler, or before the push of the event.
-/
inductive RoundPc (σ : Type) where
  | start
  | handler (frame : Frame) (run : HandlerRun σ)
  | push (frame : Frame)

def RoundPc.frame (pc : RoundPc σ) : Option Frame :=
  match pc with
  | .start => none
  | .handler frame _ => some frame
  | .push frame => some frame

structure Staged (σ : Type) (W : Nat) where
  server : Server σ W
  rounds : Fin W → RoundPc σ := fun _ => .start

inductive StagedAction (W : Nat) where
  | server (action : Action W)
  | carve (i : Fin W)
  | region (i : Fin W)
  | push (i : Fin W)
  deriving DecidableEq, Repr

namespace Staged

variable (ep : OpenFlowEndpoint σ) (regions : Regions σ)

def serving (s : Staged σ W) (i : Fin W) : Option (Int32 × Entry) :=
  match s.server.workers i with
  | .loop fd id => (s.server.entry? fd id).map (fun e => (fd, e))
  | _ => none

/--
A round up to the call of `dispatch`: `next_frame`, the validator and the session state.
-/
def carve (s : Staged σ W) (i : Fin W) : Option (Staged σ W) :=
  match s.rounds i, s.serving i with
  | .start, some (fd, e) =>
    match ep.ingestStep noDispatch e.conn () with
    | .dispatched d r => some {
        server := { s.server with
          connections := s.server.connections.insert fd { e with conn := r.conn }
          history := { s.server.history with
            handled := s.server.history.handled ++ [⟨e.id, e.conn.fd, d.frame⟩] } }
        rounds := Function.update s.rounds i (.handler d.frame (ep.dispatchRun regions d.type d.frame)) }
    | .ret _ _ => none
  | _, _ => none

def region (s : Staged σ W) (i : Fin W) : Option (Staged σ W) :=
  match s.rounds i, s.serving i with
  | .handler frame run, some (fd, e) =>
    match run with
    | .returns => some { s with rounds := Function.update s.rounds i (.push frame) }
    | .throws _ => some { s with server := { s.server with crashed := true } }
    | .region effect next =>
      let r := effect e.conn s.server.world
      some {
        server := { s.server with
          connections := s.server.connections.insert fd { e with conn := r.1 }
          world := r.2 }
        rounds := Function.update s.rounds i (.handler frame (next e.conn s.server.world)) }
  | _, _ => none

def push (s : Staged σ W) (i : Fin W) : Option (Staged σ W) :=
  match s.rounds i, s.serving i with
  | .push frame, some (_, e) => some {
      server := { s.server with events := s.server.events ++ [⟨e.conn, frame⟩] }
      rounds := Function.update s.rounds i .start }
  | _, _ => none

/--
The steps that the server takes as before. A worker takes none while it is inside of a round, and does not
begin one that gets to `dispatch`.
-/
def allows (s : Staged σ W) (action : Action W) : Bool :=
  match action with
  | .handleClient i _ => (s.rounds i).frame.isNone && (s.carve ep regions i).isNone
  | _ => true

def step (s : Staged σ W) (action : StagedAction W) : Option (Staged σ W) :=
  if s.server.crashed then
    none
  else
    match action with
    | .server action =>
      if s.allows ep regions action then
        (s.server.step ep action).map (fun server => { s with server := server })
      else
        none
    | .carve i => s.carve ep regions i
    | .region i => s.region i
    | .push i => s.push i

def keepsOwnership (s : Staged σ W) (action : StagedAction W) : Bool :=
  match action with
  | .server action => s.server.keepsOwnership action
  | _ => true

variable {ep regions}

inductive Step (ep : OpenFlowEndpoint σ) (regions : Regions σ) (s : Staged σ W) :
    StagedAction W → Staged σ W → Prop where
  | server {action : Action W} {server : Server σ W} (hallows : s.allows ep regions action)
    (hserver : s.server.step ep action = some server) :
    Step ep regions s (.server action) { s with server := server }
  | carve {i : Fin W} {fd : Int32} {e : Entry} {d : Dispatched} {r : HandlerResult Unit}
    (hround : s.rounds i = .start) (hpc : s.server.workers i = .loop fd e.id)
    (hentry : s.server.connections.lookup fd = some e)
    (hstep : ep.ingestStep noDispatch e.conn () = .dispatched d r) :
    Step ep regions s (.carve i) {
      server := { s.server with
        connections := s.server.connections.insert fd { e with conn := r.conn }
        history := { s.server.history with
          handled := s.server.history.handled ++ [⟨e.id, e.conn.fd, d.frame⟩] } }
      rounds := Function.update s.rounds i (.handler d.frame (ep.dispatchRun regions d.type d.frame)) }
  | returned {i : Fin W} {fd : Int32} {e : Entry} {frame : Frame}
    (hround : s.rounds i = .handler frame .returns) (hpc : s.server.workers i = .loop fd e.id)
    (hentry : s.server.connections.lookup fd = some e) :
    Step ep regions s (.region i) { s with rounds := Function.update s.rounds i (.push frame) }
  | thrown {i : Fin W} {fd : Int32} {e : Entry} {frame : Frame} {fault : Fault}
    (hround : s.rounds i = .handler frame (.throws fault)) (hpc : s.server.workers i = .loop fd e.id)
    (hentry : s.server.connections.lookup fd = some e) :
    Step ep regions s (.region i) { s with server := { s.server with crashed := true } }
  | region {i : Fin W} {fd : Int32} {e : Entry} {frame : Frame}
    {effect : Connection → σ → Connection × σ} {next : Connection → σ → HandlerRun σ}
    (hround : s.rounds i = .handler frame (.region effect next))
    (hpc : s.server.workers i = .loop fd e.id) (hentry : s.server.connections.lookup fd = some e) :
    Step ep regions s (.region i) {
      server := { s.server with
        connections := s.server.connections.insert fd { e with conn := (effect e.conn s.server.world).1 }
        world := (effect e.conn s.server.world).2 }
      rounds := Function.update s.rounds i (.handler frame (next e.conn s.server.world)) }
  | push {i : Fin W} {fd : Int32} {e : Entry} {frame : Frame} (hround : s.rounds i = .push frame)
    (hpc : s.server.workers i = .loop fd e.id) (hentry : s.server.connections.lookup fd = some e) :
    Step ep regions s (.push i) {
      server := { s.server with events := s.server.events ++ [⟨e.conn, frame⟩] }
      rounds := Function.update s.rounds i .start }

variable {s s' : Staged σ W}

theorem serving_eq_some {i : Fin W} {fd : Int32} {e : Entry} :
    s.serving i = some (fd, e)
      ↔
    s.server.workers i = .loop fd e.id ∧ s.server.connections.lookup fd = some e := by
  unfold serving
  constructor
  . intro h
    split at h
    . next hpc =>
      rcases Option.map_eq_some_iff.mp h with ⟨e', he', heq⟩
      cases heq
      rcases Server.entry?_eq_some_iff.mp he' with ⟨hentry, rfl⟩
      exact ⟨hpc, hentry⟩
    . contradiction
  . rintro ⟨hpc, hentry⟩
    rw [hpc]
    simp only [Server.entry?_of_lookup hentry, Option.map_some]

theorem Step.of_region {i : Fin W} (h : s.region i = some s') : Step ep regions s (.region i) s' := by
  unfold Staged.region at h
  split at h
  . next hround hserving =>
    rcases serving_eq_some.mp hserving with ⟨hpc, hentry⟩
    split at h
    . cases h; exact .returned hround hpc hentry
    . cases h; exact .thrown hround hpc hentry
    . cases h; exact .region hround hpc hentry
  . contradiction

theorem Step.of_step {action : StagedAction W} (h : s.step ep regions action = some s') :
    ¬s.server.crashed ∧ Step ep regions s action s' := by
  unfold Staged.step at h
  split at h
  . contradiction
  . next hcrashed =>
    refine ⟨hcrashed, ?_⟩
    cases action with
    | server action =>
      dsimp only at h
      split at h
      . next hallows =>
        rcases Option.map_eq_some_iff.mp h with ⟨server, hserver, rfl⟩
        exact .server hallows hserver
      . contradiction
    | carve i =>
      dsimp only [Staged.carve] at h
      split at h
      . next hround hserving =>
        rcases serving_eq_some.mp hserving with ⟨hpc, hentry⟩
        split at h
        . next hstep => cases h; exact .carve hround hpc hentry hstep
        . contradiction
      . contradiction
    | region i => exact .of_region h
    | push i =>
      dsimp only [Staged.push] at h
      split at h
      . next hround hserving =>
        rcases serving_eq_some.mp hserving with ⟨hpc, hentry⟩
        cases h
        exact .push hround hpc hentry
      . contradiction

/-! Rounds that nothing interrupts. -/

theorem dispatchRun_whole (hexact : regions.Exact) (type : PacketType) (frame : Frame) (conn : Connection)
    (w : σ) : (ep.dispatchRun regions type frame).whole conn w = (ep.dispatch type).call conn frame w := by
  unfold OpenFlowEndpoint.dispatchRun OpenFlowEndpoint.dispatch
  dsimp only
  cases ep.route type frame with
  | none => rfl
  | some handler => exact hexact handler frame conn w

theorem step_carve {i : Fin W} {fd : Int32} {e : Entry} {d : Dispatched} {r : HandlerResult Unit}
    (hcrashed : ¬s.server.crashed) (hround : s.rounds i = .start)
    (hpc : s.server.workers i = .loop fd e.id) (hentry : s.server.connections.lookup fd = some e)
    (hstep : ep.ingestStep noDispatch e.conn () = .dispatched d r) :
    s.step ep regions (.carve i) = some {
      server := { s.server with
        connections := s.server.connections.insert fd { e with conn := r.conn }
        history := { s.server.history with
          handled := s.server.history.handled ++ [⟨e.id, e.conn.fd, d.frame⟩] } }
      rounds := Function.update s.rounds i (.handler d.frame (ep.dispatchRun regions d.type d.frame)) } := by
  simp only [Staged.step, if_neg hcrashed, Staged.carve, hround, serving_eq_some.mpr ⟨hpc, hentry⟩, hstep]

def inside (server : Server σ W) (fd : Int32) (e : Entry) (conn : Connection) (w : σ) (crashed : Bool) :
    Server σ W :=
  { server with
    connections := server.connections.insert fd { e with conn := conn }
    world := w
    crashed := crashed }

theorem serving_inside {server : Server σ W} {i : Fin W} {fd : Int32} {e : Entry}
    (hpc : server.workers i = .loop fd e.id) (rounds : Fin W → RoundPc σ) (conn : Connection) (w : σ) :
    (⟨inside server fd e conn w false, rounds⟩ : Staged σ W).serving i = some (fd, { e with conn := conn }) :=
  serving_eq_some.mpr ⟨hpc, AList.lookup_insert _⟩

theorem push_inside (ep : OpenFlowEndpoint σ) (regions : Regions σ) {server : Server σ W} {i : Fin W}
    {fd : Int32} {e : Entry} (hpc : server.workers i = .loop fd e.id) (rounds : Fin W → RoundPc σ)
    (frame : Frame) (conn : Connection) (w : σ) :
    Staged.step ep regions ⟨inside server fd e conn w false, Function.update rounds i (.push frame)⟩ (.push i)
      =
    some ⟨{ inside server fd e conn w false with events := server.events ++ [⟨conn, frame⟩] },
      Function.update rounds i .start⟩ := by
  have hcrashed : (inside server fd e conn w false).crashed = false := rfl
  simp only [Staged.step, Staged.push, hcrashed, Bool.false_eq_true, if_false, Function.update_self,
    serving_inside hpc, Function.update_idem]
  rfl

theorem reaches_whole (ep : OpenFlowEndpoint σ) (regions : Regions σ) {server : Server σ W} {i : Fin W}
    {fd : Int32} {e : Entry} (hpc : server.workers i = .loop fd e.id) (rounds : Fin W → RoundPc σ)
    (frame : Frame)
    (run : HandlerRun σ) (conn : Connection) (w : σ) :
    ∃ rounds',
      Reaches (Staged.step ep regions) (fun s action => s.keepsOwnership action)
        ⟨inside server fd e conn w false, Function.update rounds i (.handler frame run)⟩
        ⟨inside server fd e (run.whole conn w).conn (run.whole conn w).world
          (run.whole conn w).fault.isSome, rounds'⟩
      ∧ ((run.whole conn w).fault = none → rounds' = Function.update rounds i (.push frame)) := by
  have hregion : ∀ {s s' : Staged σ W}, s.server.crashed = false → s.region i = some s' →
      Reaches (Staged.step ep regions) (fun s action => s.keepsOwnership action) s s' := by
    intro s s' hcrashed hregion
    refine .single ⟨.region i, rfl, ?_⟩
    simp only [Staged.step, hcrashed, Bool.false_eq_true, if_false, hregion]
  induction run generalizing conn w with
  | returns =>
    refine ⟨_, hregion rfl ?_, fun _ => rfl⟩
    simp only [Staged.region, Function.update_self, serving_inside hpc, Function.update_idem]
    rfl
  | throws fault =>
    refine ⟨Function.update rounds i (.handler frame (.throws fault)), hregion rfl ?_, nofun⟩
    simp only [Staged.region, Function.update_self, serving_inside hpc]
    rfl
  | region effect next ih =>
    rcases ih conn w (effect conn w).1 (effect conn w).2 with ⟨rounds', hreaches, hrounds⟩
    refine ⟨rounds', .trans (hregion rfl ?_) hreaches, hrounds⟩
    simp only [Staged.region, Function.update_self, serving_inside hpc, Function.update_idem]
    simp only [inside, AList.insert_insert]

theorem reaches_of_dispatched (hexact : regions.Exact) {i : Fin W} {fd : Int32} {e : Entry}
    {d : Dispatched} {r : HandlerResult (σ × List Event)} (hcrashed : ¬s.server.crashed)
    (hround : s.rounds i = .start) (hpc : s.server.workers i = .loop fd e.id)
    (hentry : s.server.connections.lookup fd = some e)
    (hstep : ep.ingestStep (serverDispatch ep) e.conn (s.server.world, s.server.events)
      = .dispatched d r) :
    ∃ rounds,
      Reaches (Staged.step ep regions) (fun s action => s.keepsOwnership action) s
        ⟨{ s.server with
          connections := s.server.connections.insert fd { e with conn := r.conn }
          world := r.world.1
          events := r.world.2
          crashed := r.fault.isSome
          history := { s.server.history with
            handled := s.server.history.handled ++ [⟨e.id, e.conn.fd, d.frame⟩] } }, rounds⟩
      ∧ (r.fault = none → rounds = s.rounds) := by
  rcases OpenFlowEndpoint.ingestStep_dispatched_congr rfl hstep noDispatch () with ⟨conn, hr, hcarve⟩
  have htype : d.type = d.frame.type := by
    rcases OpenFlowEndpoint.ingestStep_dispatched_eq hstep with ⟨_, _, _, hd, _⟩
    rw [hd]
  have hfalse : s.server.crashed = false := Bool.not_eq_true _ ▸ hcrashed
  let server : Server σ W := { s.server with
    history := { s.server.history with
      handled := s.server.history.handled ++ [⟨e.id, e.conn.fd, d.frame⟩] } }
  let q := (ep.dispatch d.type).call conn d.frame s.server.world
  have hcalled : Reaches (Staged.step ep regions) (fun s action => s.keepsOwnership action) s
      ⟨inside server fd e conn s.server.world false,
        Function.update s.rounds i (.handler d.frame (ep.dispatchRun regions d.type d.frame))⟩ := by
    refine .single ⟨.carve i, rfl, ?_⟩
    rw [step_carve hcrashed hround hpc hentry hcarve, ← hfalse]
    rfl
  have hwhole : (ep.dispatchRun regions d.type d.frame).whole conn s.server.world = q :=
    dispatchRun_whole hexact d.type d.frame conn s.server.world
  have hpc : server.workers i = .loop fd e.id := hpc
  rcases reaches_whole ep regions hpc s.rounds d.frame (ep.dispatchRun regions d.type d.frame) conn
    s.server.world with ⟨rounds, hreturns, hrounds⟩
  rw [hwhole] at hreturns hrounds
  rw [← htype] at hr
  cases hfault : q.fault with
  | some fault =>
    have hr := hr.trans (serverDispatch_of_fault s.server.events hfault)
    subst hr
    rw [hfault] at hreturns
    exact ⟨rounds, hcalled.trans hreturns, nofun⟩
  | none =>
    have hr := hr.trans (serverDispatch_of_returns s.server.events hfault)
    subst hr
    rw [hfault, hrounds hfault] at hreturns
    have hstart : Function.update s.rounds i .start = s.rounds := by
      rw [← hround, Function.update_eq_self]
    have hpush := push_inside ep regions hpc s.rounds d.frame q.conn q.world
    rw [hstart] at hpush
    exact ⟨s.rounds, (hcalled.trans hreturns).tail ⟨.push i, rfl, hpush⟩, fun _ => rfl⟩

/--
The server that takes a round in one step has no states but those of this one.
-/
theorem reaches_of_server (hexact : regions.Exact) {w : σ} {server : Server σ W}
    (h : Reaches (Server.step ep) (fun s action => s.keepsOwnership action) { world := w } server) :
    ∃ s : Staged σ W,
      Reaches (Staged.step ep regions) (fun s action => s.keepsOwnership action)
          { server := { world := w } } s
        ∧ s.server = server ∧ (¬server.crashed → ∀ i, s.rounds i = .start) := by
  induction h with
  | refl => exact ⟨_, .refl, rfl, fun _ _ => rfl⟩
  | @tail server server' _ hnext ih =>
    rcases ih with ⟨s, hs, rfl, hrounds⟩
    rcases hnext with ⟨action, hguard, hserver⟩
    rcases Server.Step.of_step hserver with ⟨hcrashed, hstep⟩
    have hstart := hrounds hcrashed
    by_cases hallows : s.allows ep regions action
    . refine ⟨{ s with server := server' }, hs.tail ⟨.server action, hguard, ?_⟩, rfl, fun _ => hstart⟩
      simp only [Staged.step, if_neg hcrashed, if_pos hallows, hserver, Option.map_some]
    . cases action with
      | handleClient i count =>
        obtain ⟨s', hcarve⟩ : ∃ s', s.step ep regions (.carve i) = some s' := by
          rw [allows, hstart i] at hallows
          rw [Staged.step, if_neg hcrashed]
          apply Option.isSome_iff_exists.mp
          simpa [RoundPc.frame, Option.isSome_iff_ne_none] using hallows
        cases (Step.of_step hcarve).2 with
        | @carve _ fd e d _ hround hpc hentry hdispatch =>
          rcases OpenFlowEndpoint.ingestStep_dispatched_congr rfl hdispatch (serverDispatch ep)
            (s.server.world, s.server.events) with ⟨conn, _, hround'⟩
          rcases reaches_of_dispatched hexact hcrashed hround hpc hentry hround' with
            ⟨rounds, hreaches, hrounds'⟩
          have hserver' : Server.step ep s.server (.handleClient i count) = _ :=
            Server.Step.step_eq hcrashed (.dispatched hpc hentry hround')
          cases hserver'.symm.trans hserver
          refine ⟨_, hs.trans hreaches, rfl, fun hcrashed' => ?_⟩
          rw [hrounds' (Option.not_isSome_iff_eq_none.mp hcrashed')]
          exact hstart
      | _ => exact absurd rfl hallows

end Staged

end Oflib
