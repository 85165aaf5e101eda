import NetOrc.Southbound.Interleaved

/-!
This module compares the server that calls a handler in one step with the interleaved one. Its runs are
those in which no handler is interrupted, and every other run leaves the services of each switch as one of
them does.
-/

namespace NetOrc

open Oflib
open Transition

variable {W : Nat}

def bare (s : Server Services W) : Server Unit W where
  running := s.running
  joinable := s.joinable
  acceptors := s.acceptors
  callers := s.callers
  tasks := s.tasks
  workers := s.workers
  connections := s.connections
  sockets := s.sockets
  world := ()
  events := s.events
  crashed := s.crashed
  history := s.history

section
variable {insertFails : Nat → Bool} {junk : Connection → Frame → Services → Uninit}

theorem serverDispatch_eq (insertFails : Nat → Bool) (junk : Connection → Frame → Services → Uninit)
    (conn : Connection) (frame : Frame) (w : Services) (events : List Event) :
    (serverDispatch (sbiEndpoint (services insertFails) junk) frame.type).call conn frame (w, events)
      =
    if hreturns : lldpFault frame.type frame = none then
      HandlerCall.atomic insertFails ⟨conn, frame, junk conn frame w, hreturns⟩ (w, events)
    else
      ⟨conn, (w, events), lldpFault frame.type frame⟩ := by
  split
  . next hreturns =>
    unfold HandlerCall.atomic serverDispatch
    dsimp only
    rw [sbiEndpoint_call, sbiEndpoint_call]
  . next hthrows =>
    unfold lldpFault at hthrows ⊢
    split at hthrows
    . next hfault =>
      rw [if_pos hfault]
      have hne : frame.type ≠ .hello := by
        rw [hfault.1]
        decide
      unfold serverDispatch
      dsimp only
      rw [sbiEndpoint_call, if_neg hne, if_pos hfault.1, packetIn_eq, if_pos hfault.2.1, if_pos hfault.2.2]
    . contradiction

theorem serverDispatch_control {σ : Type} (svc : ServiceTable σ) (junk : Connection → Frame → σ → Uninit)
    (conn : Connection) (frame : Frame) (w : σ × List Event) :
    let r := (serverDispatch (sbiEndpoint svc junk) frame.type).call conn frame w
    r.conn = conn ∧ r.fault = lldpFault frame.type frame
      ∧ r.world.2 = if lldpFault frame.type frame = none then w.2 ++ [⟨conn, frame⟩] else w.2 := by
  have hconn := serverDispatch_keepsConnection (sbiEndpoint_keepsConnection svc junk) frame.type conn frame w
  have hfault := serverDispatch_faultsBy (sbiEndpoint_faultsBy svc junk) frame.type conn frame w
  refine ⟨hconn, hfault, ?_⟩
  split
  . next hreturns => rw [serverDispatch_events _ _ _ _ _ (hfault.trans hreturns), hconn]
  . next hthrows =>
    rw [← hfault] at hthrows
    unfold serverDispatch at hthrows ⊢
    dsimp only at hthrows ⊢
    split
    . rfl
    . next hnone => simp [hnone] at hthrows

theorem bare_step {s s' : Server Services W} {action : Action W}
    (h : Server.Step (sbiEndpoint (services insertFails) junk) s action s') :
    Server.Step receiver (bare s) action (bare s') := by
  have hvalid : receiver.runValidator = (sbiEndpoint (services insertFails) junk).runValidator :=
    sbiEndpoint_runValidator _ _ _ _
  cases h with
  | listen hcaller => exact .listen hcaller
  | stop hcaller => exact .stop hcaller
  | spawnJoinable hcaller hjoinable => exact .spawnJoinable hcaller hjoinable
  | spawn hcaller hjoinable => exact .spawn hcaller hjoinable
  | detach hcaller => exact .detach hcaller
  | sweep hcaller => exact .sweep hcaller
  | check hpc => exact .check hpc
  | acceptFails hpc hresult => exact .acceptFails hpc hresult
  | accept hpc hresult hfree => exact .accept hpc hresult hfree
  | insert hpc => exact .insert hpc
  | enqueue hpc => exact .enqueue hpc
  | pop hpc htasks => exact .pop hpc htasks
  | top hpc hrunning => exact .top hpc hrunning
  | leave hpc hrunning => exact .leave hpc hrunning
  | miss hpc hentry => exact .miss hpc hentry
  | lookup hpc hentry => exact .lookup hpc hentry
  | recvFails hpc hentry hsocket => exact .recvFails hpc hentry hsocket
  | recv hpc hentry hfd hsocket hcount => exact .recv hpc hentry hfd hsocket hcount
  | ingestFails hpc hentry hdata => exact .ingestFails hpc hentry hdata
  | ingest hpc hentry hdata => exact .ingest hpc hentry hdata
  | accepted hpc hentry hstep =>
    exact .accepted hpc hentry (OpenFlowEndpoint.ingestStep_ret_congr hvalid hstep _ _)
  | rejected hpc hentry hstep =>
    exact .rejected hpc hentry (OpenFlowEndpoint.ingestStep_ret_congr hvalid hstep _ _)
  | @dispatched i count fd e d r hpc hentry hstep =>
    rcases OpenFlowEndpoint.ingestStep_dispatched_congr hvalid hstep (serverDispatch receiver)
      ((), s.events) with ⟨conn, rfl, hstep'⟩
    have hr := serverDispatch_control (services insertFails) junk conn d.frame (s.world, s.events)
    have hr' := serverDispatch_control noServices (fun _ _ _ => ⟨0, 0, 0⟩) conn d.frame ((), s.events)
    have hnew : Server.Step receiver (bare s) (.handleClient i count) _ := .dispatched hpc hentry hstep'
    unfold receiver at hnew
    rw [hr'.1.trans hr.1.symm, hr'.2.1.trans hr.2.1.symm, hr'.2.2.trans hr.2.2.symm] at hnew
    exact hnew
  | close hpc hentry => exact .close hpc hentry
  | waitForEvent hevents => exact .waitForEvent hevents
  | send hsocket heof => exact .send hsocket heof
  | hangUp hsocket heof => exact .hangUp hsocket heof
  | reset hsocket heof => exact .reset hsocket heof

/--
The interleaved server between two steps of the one that calls a handler in one step.
-/
structure Uninterrupted (p : Interleaved W) (s : Server Services W) : Prop where
  server : p.server = bare s
  world : p.handlers.shared.world = s.world
  events : p.handlers.finished.map HandlerCall.event = s.events
  idle : ∀ i, p.handlers.pcs i = .idle

/-! Every uninterrupted run is an interleaved one. -/

theorem unchanged_of_not_calling {s s' : Server Services W} {action : Action W}
    (hstep : Server.Step (sbiEndpoint (services insertFails) junk) s action s')
    (hevent : action ≠ .waitForEvent)
    (hcalling : ∀ i count, action = .handleClient i count → calling (bare s) i = none) :
    s'.world = s.world ∧ s'.events = s.events := by
  cases hstep with
  | @dispatched i count fd e d r hpc hentry hstep =>
    have hvalid : receiver.runValidator = (sbiEndpoint (services insertFails) junk).runValidator :=
      sbiEndpoint_runValidator _ _ _ _
    rcases OpenFlowEndpoint.ingestStep_dispatched_congr hvalid hstep (serverDispatch receiver)
      ((), s.events) with ⟨conn, rfl, hstep'⟩
    have hsome := calling_of_loop (s := bare s) hpc hentry hstep'
    rw [hcalling i count rfl] at hsome
    contradiction
  | waitForEvent => exact absurd rfl hevent
  | _ => exact ⟨rfl, rfl⟩

theorem dispatched_of_calling {s s' : Server Services W} {i : Fin W} {count : Nat} {event : Event}
    (h : s.step (sbiEndpoint (services insertFails) junk) (.handleClient i count) = some s')
    (hcalling : calling (bare s) i = some event) :
    Server.Step (sbiEndpoint (services insertFails) junk) s (.handleClient i 0) s'
      ∧ ((s'.world, s'.events), s'.crashed)
        = (let r := (serverDispatch (sbiEndpoint (services insertFails) junk) event.frame.type).call
            event.conn event.frame (s.world, s.events)
          (r.world, r.fault.isSome)) := by
  have hvalid : (sbiEndpoint (services insertFails) junk).runValidator = receiver.runValidator :=
    sbiEndpoint_runValidator _ _ _ _
  rcases calling_eq_some hcalling with ⟨fd, e, d, r, hpc, hentry, hstep, rfl⟩
  rcases OpenFlowEndpoint.ingestStep_dispatched_congr hvalid hstep
    (serverDispatch (sbiEndpoint (services insertFails) junk)) (s.world, s.events) with ⟨conn, rfl, hstep'⟩
  have hcrashed := (Server.Step.of_step h).1
  have hdispatched : ∀ count,
      Server.Step (sbiEndpoint (services insertFails) junk) s (.handleClient i count) _ :=
    fun count => .dispatched hpc hentry hstep'
  rw [(hdispatched count).step_eq hcrashed] at h
  cases h
  refine ⟨hdispatched 0, ?_⟩
  have hconn := (serverDispatch_control noServices (fun _ _ _ => ⟨0, 0, 0⟩) conn d.frame
    ((bare s).world, (bare s).events)).1
  unfold receiver
  dsimp only
  rw [hconn]

theorem Uninterrupted.call {p : Interleaved W} {s s' : Server Services W} (hp : Uninterrupted p s)
    {i : Fin W} {count : Nat} {event : Event}
    (h : s.step (sbiEndpoint (services insertFails) junk) (.handleClient i count) = some s')
    (hcalling : calling (bare s) i = some event) (hreturns : lldpFault event.frame.type event.frame = none) :
    ∃ p', Reaches (Interleaved.step insertFails) (fun p action => p.keepsOwnership action) p p'
      ∧ Uninterrupted p' s' := by
  rcases dispatched_of_calling h hcalling with ⟨hstep, hresult⟩
  rw [serverDispatch_eq, dif_pos hreturns, ← hp.world, HandlerCall.atomic_eq] at hresult
  simp only [Prod.mk.injEq] at hresult
  rcases hresult with ⟨⟨hworld, hevents⟩, hcrashed⟩
  rcases Phases.exists_uninterrupted (handlerPhases insertFails) (hp.idle i)
      ⟨event.conn, event.frame, junk event.conn event.frame p.handlers.shared.world, hreturns⟩ with
    ⟨s₁, s₂, s₃, s₄, hstart, hfirst, hsecond, hfinish, hshared, hpcs, hfinished⟩
  have hserver : p.server.step receiver (.handleClient i 0) = some (bare s') := by
    rw [hp.server]
    exact (bare_step hstep).step_eq (Server.Step.of_step h).1
  have hdispatch : p.step insertFails (.dispatch i (junk event.conn event.frame p.handlers.shared.world))
      = some ⟨bare s', s₁⟩ := by
    rw [← hp.server] at hcalling
    simp only [Interleaved.step, Interleaved.dispatch, hcalling, dif_pos hreturns, hserver, Option.bind_some,
      hstart, Option.map_some]
  have hregion : ∀ {t t' : Phased (Fin W) HandlerState HandlerCall} {part},
      (handlerPhases insertFails).step t part = some t' →
      Interleaved.region insertFails ⟨bare s', t⟩ part = some ⟨bare s', t'⟩ := by
    intro t t' part hpart
    have hgoes : ¬(bare s').crashed := by
      show ¬s'.crashed
      rw [hcrashed]
      simp
    rw [Interleaved.region, if_neg hgoes, hpart, Option.map_some]
  refine ⟨⟨bare s', s₄⟩, ?_, rfl, ?_, ?_, fun j => ?_⟩
  . have hreaches : Reaches (Interleaved.step insertFails) (fun p action => p.keepsOwnership action) p
        ⟨bare s', s₁⟩ := .single ⟨_, rfl, hdispatch⟩
    exact ((hreaches.tail ⟨.first i, rfl, hregion hfirst⟩).tail ⟨.second i, rfl, hregion hsecond⟩).tail
      ⟨.finish i, rfl, hregion hfinish⟩
  . dsimp only
    rw [hshared, hworld]
    rfl
  . dsimp only
    rw [hfinished, List.map_append, hp.events, hevents]
    rfl
  . dsimp only
    rw [hpcs, hp.idle j]

theorem Uninterrupted.server_step {p : Interleaved W} {s s' : Server Services W} (hp : Uninterrupted p s)
    {action : Action W} (hguard : s.keepsOwnership action) (hallows : p.allows action)
    (h : s.step (sbiEndpoint (services insertFails) junk) action = some s') (hworld : s'.world = s.world)
    (hevents : s'.events = s.events) :
    ∃ p', Reaches (Interleaved.step insertFails) (fun p action => p.keepsOwnership action) p p'
      ∧ Uninterrupted p' s' := by
  rcases Server.Step.of_step h with ⟨hcrashed, hstep⟩
  have hserver : p.server.step receiver action = some (bare s') := by
    rw [hp.server]
    exact (bare_step hstep).step_eq hcrashed
  refine ⟨{ p with server := bare s' }, .single ⟨.server action, ?_, ?_⟩, rfl, hp.world.trans hworld.symm,
    hp.events.trans hevents.symm, hp.idle⟩
  . show p.server.keepsOwnership action
    rw [hp.server]
    exact hguard
  . simp only [Interleaved.step, if_pos hallows, hserver, Option.map_some]

theorem Uninterrupted.step {p : Interleaved W} {s s' : Server Services W} (hp : Uninterrupted p s)
    {action : Action W} (hevent : action ≠ .waitForEvent) (hguard : s.keepsOwnership action)
    (h : s.step (sbiEndpoint (services insertFails) junk) action = some s') :
    ∃ p', Reaches (Interleaved.step insertFails) (fun p action => p.keepsOwnership action) p p'
      ∧ Uninterrupted p' s' := by
  have hstep := (Server.Step.of_step h).2
  cases action with
  | handleClient i count =>
    cases hcalling : calling (bare s) i with
    | none =>
      rcases unchanged_of_not_calling hstep hevent (by rintro _ _ ⟨⟩; exact hcalling) with ⟨hworld, hevents⟩
      refine hp.server_step hguard ?_ h hworld hevents
      rw [← hp.server] at hcalling
      simp [Interleaved.allows, hp.idle i, hcalling]
    | some event =>
      by_cases hreturns : lldpFault event.frame.type event.frame = none
      . exact hp.call h hcalling hreturns
      . have hresult := (dispatched_of_calling h hcalling).2
        rw [serverDispatch_eq, dif_neg hreturns] at hresult
        simp only [Prod.mk.injEq] at hresult
        refine hp.server_step hguard ?_ h hresult.1.1 hresult.1.2
        rw [← hp.server] at hcalling
        simp [Interleaved.allows, hp.idle i, hcalling, Option.isSome_iff_ne_none, hreturns]
  | waitForEvent => contradiction
  | _ =>
    rcases unchanged_of_not_calling hstep hevent nofun with ⟨hworld, hevents⟩
    exact hp.server_step hguard rfl h hworld hevents

theorem interleaved_of_reaches {s : Server Services W}
    (h : Reaches (Server.step (sbiEndpoint (services insertFails) junk))
      (fun s action => s.keepsOwnership action ∧ action ≠ .waitForEvent) { world := {} } s) :
    ∃ p, Reaches (Interleaved.step insertFails) (fun p action => p.keepsOwnership action) {} p
      ∧ Uninterrupted p s := by
  refine h.invariant (fun s => ∃ p,
    Reaches (Interleaved.step insertFails) (fun p action => p.keepsOwnership action) {} p
      ∧ Uninterrupted p s) ?_ ⟨{}, .refl, rfl, rfl, rfl, fun i => rfl⟩
  rintro s action s' ⟨p, hreaches, hp⟩ hguard hstep
  rcases hp.step hguard.2 hguard.1 hstep with ⟨p', hreaches', hp'⟩
  exact ⟨p', hreaches.trans hreaches', hp'⟩

/-! Every interleaved run goes through the same servers as an uninterrupted one. -/

theorem receiver_of_interleaved {p : Interleaved W}
    (h : Reaches (Interleaved.step insertFails) (fun p action => p.keepsOwnership action) {} p) :
    Reaches (Server.step receiver) (fun s action => s.keepsOwnership action ∧ action ≠ .waitForEvent)
      { world := () } p.server := by
  refine Reaches.map (fun p : Interleaved W => p.server) (fun p action p' hguard hstep => ?_) h
  cases Interleaved.Step.of_step hstep with
  | server hallows hserver =>
    refine .single ⟨_, ⟨hguard, ?_⟩, hserver⟩
    rintro rfl
    contradiction
  | dispatch hcalling hreturns hserver hhandlers => exact .single ⟨_, ⟨rfl, by simp⟩, hserver⟩
  | region => exact .refl

theorem exists_step (insertFails : Nat → Bool) (junk : Connection → Frame → Services → Uninit)
    {s : Server Services W} {t : Server Unit W} {action : Action W}
    (h : Server.Step receiver (bare s) action t) :
    ∃ s', Server.Step (sbiEndpoint (services insertFails) junk) s action s' := by
  have hvalid : (sbiEndpoint (services insertFails) junk).runValidator = receiver.runValidator :=
    sbiEndpoint_runValidator _ _ _ _
  cases h with
  | listen hcaller => exact ⟨_, .listen hcaller⟩
  | stop hcaller => exact ⟨_, .stop hcaller⟩
  | spawnJoinable hcaller hjoinable => exact ⟨_, .spawnJoinable hcaller hjoinable⟩
  | spawn hcaller hjoinable => exact ⟨_, .spawn hcaller hjoinable⟩
  | detach hcaller => exact ⟨_, .detach hcaller⟩
  | sweep hcaller => exact ⟨_, .sweep hcaller⟩
  | check hpc => exact ⟨_, .check hpc⟩
  | acceptFails hpc hresult => exact ⟨_, .acceptFails hpc hresult⟩
  | accept hpc hresult hfree => exact ⟨_, .accept hpc hresult hfree⟩
  | insert hpc => exact ⟨_, .insert hpc⟩
  | enqueue hpc => exact ⟨_, .enqueue hpc⟩
  | pop hpc htasks => exact ⟨_, .pop hpc htasks⟩
  | top hpc hrunning => exact ⟨_, .top hpc hrunning⟩
  | leave hpc hrunning => exact ⟨_, .leave hpc hrunning⟩
  | miss hpc hentry => exact ⟨_, .miss hpc hentry⟩
  | lookup hpc hentry => exact ⟨_, .lookup hpc hentry⟩
  | recvFails hpc hentry hsocket => exact ⟨_, .recvFails hpc hentry hsocket⟩
  | recv hpc hentry hfd hsocket hcount => exact ⟨_, .recv hpc hentry hfd hsocket hcount⟩
  | ingestFails hpc hentry hdata => exact ⟨_, .ingestFails hpc hentry hdata⟩
  | ingest hpc hentry hdata => exact ⟨_, .ingest hpc hentry hdata⟩
  | accepted hpc hentry hstep =>
    exact ⟨_, .accepted hpc hentry (OpenFlowEndpoint.ingestStep_ret_congr hvalid hstep _ _)⟩
  | rejected hpc hentry hstep =>
    exact ⟨_, .rejected hpc hentry (OpenFlowEndpoint.ingestStep_ret_congr hvalid hstep _ _)⟩
  | dispatched hpc hentry hstep =>
    rcases OpenFlowEndpoint.ingestStep_dispatched_congr hvalid hstep
      (serverDispatch (sbiEndpoint (services insertFails) junk)) (s.world, s.events) with ⟨_, _, hstep'⟩
    exact ⟨_, .dispatched hpc hentry hstep'⟩
  | close hpc hentry => exact ⟨_, .close hpc hentry⟩
  | waitForEvent hevents => exact ⟨_, .waitForEvent hevents⟩
  | send hsocket heof => exact ⟨_, .send hsocket heof⟩
  | hangUp hsocket heof => exact ⟨_, .hangUp hsocket heof⟩
  | reset hsocket heof => exact ⟨_, .reset hsocket heof⟩

theorem exists_bare_eq (insertFails : Nat → Bool) (junk : Connection → Frame → Services → Uninit)
    {t : Server Unit W}
    (h : Reaches (Server.step receiver) (fun s action => s.keepsOwnership action ∧ action ≠ .waitForEvent)
      { world := () } t) :
    ∃ s : Server Services W,
      Reaches (Server.step (sbiEndpoint (services insertFails) junk))
          (fun s action => s.keepsOwnership action ∧ action ≠ .waitForEvent) { world := {} } s
        ∧ bare s = t := by
  refine Reaches.lift bare (t := ({ world := {} } : Server Services W)) (fun s action t hguard hstep => ?_) h
  rcases Server.Step.of_step hstep with ⟨hcrashed, hstep'⟩
  rcases exists_step insertFails junk hstep' with ⟨s', hs'⟩
  refine ⟨s', .single ⟨action, hguard, hs'.step_eq hcrashed⟩, ?_⟩
  exact Option.some.inj (((bare_step hs').step_eq hcrashed).symm.trans hstep)

end

/--
The server that calls a handler in one step has the states of the interleaved one in which no handler is
under way. And each interleaved run has an uninterrupted one with the same acceptors, workers, connections,
sockets, tasks and handled frames. Once no worker is inside of `ingest`, it leaves each descriptor the same
flows and the same link, the events of the descriptor are the same in the same order, and if no `INSERT`
fails, so are its rows.
-/
theorem granularity_of_reaches (insertFails : Nat → Bool)
    (junk : Connection → Frame → Services → Uninit) :
    (∀ s : Server Services W,
      Reaches (Server.step (sbiEndpoint (services insertFails) junk))
          (fun s action => s.keepsOwnership action ∧ action ≠ .waitForEvent) { world := {} } s →
        ∃ p, Reaches (Interleaved.step insertFails) (fun p action => p.keepsOwnership action) {} p
          ∧ Uninterrupted p s)
      ∧ ∀ p : Interleaved W,
        Reaches (Interleaved.step insertFails) (fun p action => p.keepsOwnership action) {} p →
          ∃ s : Server Services W,
            Reaches (Server.step (sbiEndpoint (services insertFails) junk))
                (fun s action => s.keepsOwnership action ∧ action ≠ .waitForEvent) { world := {} } s
              ∧ bare s = p.server
              ∧ ((∀ i fd id, p.server.workers i ≠ .loop fd id) → ∀ fd : Int32,
                let w := p.handlers.shared.world
                let events := p.handlers.finished.map HandlerCall.event
                (w.flows.getFlows (dpidOf fd)).map FlowEntry.columns
                    = (s.world.flows.getFlows (dpidOf fd)).map FlowEntry.columns
                  ∧ w.topo.links.filter (fun link => link.srcFd = fd)
                    = s.world.topo.links.filter (fun link => link.srcFd = fd)
                  ∧ (events.filter (fun event => event.conn.fd = fd)).map Event.frame
                    = (s.events.filter (fun event => event.conn.fd = fd)).map Event.frame
                  ∧ ((∀ n, insertFails n = false) → 0 ≤ fd →
                    (w.db.rowsOf (dpidOf fd)).map FlowsRow.columns
                      = (s.world.db.rowsOf (dpidOf fd)).map FlowsRow.columns)) := by
  refine ⟨fun s hs => interleaved_of_reaches hs, fun p hp => ?_⟩
  rcases exists_bare_eq insertFails junk (receiver_of_interleaved hp) with ⟨s, hs, hbare⟩
  refine ⟨s, hs, hbare, fun hloop fd => ?_⟩
  rcases interleaved_of_reaches hs with ⟨q, hq, hqs⟩
  have hserver : q.server = p.server := hqs.server.trans hbare
  have hfollowed : Interleaved.Followed insertFails {} p := Interleaved.followed_of_reaches hp
  have hfollowed' : Interleaved.Followed insertFails {} q := Interleaved.followed_of_reaches hq
  have hloop' : ∀ i fd id, q.server.workers i ≠ .loop fd id := by
    rw [hserver]
    exact hloop
  have hempty := DatabaseService.holds_empty insertFails
  rcases hfollowed.services_of_idle hempty hloop fd with ⟨hflows, hlinks, hevents⟩
  rcases hfollowed'.services_of_idle hempty hloop' fd with ⟨hflows', hlinks', hevents'⟩
  rw [hserver, hqs.world] at hflows' hlinks'
  rw [hserver, hqs.events] at hevents'
  refine ⟨hflows.trans hflows'.symm, hlinks.trans hlinks'.symm, hevents.trans hevents'.symm,
    fun hfails hfd => ?_⟩
  have hrows' := hfollowed'.rows_of_idle hloop' hfails hfd
  rw [hserver, hqs.world] at hrows'
  exact (hfollowed.rows_of_idle hloop hfails hfd).trans hrows'.symm

/--
The handlers of the two HELLO messages save their flows in the order opposite to that of their pushes. A run
without interruptions has the rows in the other order, and for each switch the same ones.
-/
theorem granularity_of_reaches_crossedHellos :
    ∃ (p : Interleaved 2) (s : Server Services 2),
      run (Interleaved.step (fun _ => false)) (fun p action => p.keepsOwnership action) {} crossedHellos
        = some p
        ∧ Reaches (Server.step (sbiEndpoint (services (fun _ => false)) (fun _ _ _ => ⟨0, 0, 0⟩)))
          (fun s action => s.keepsOwnership action ∧ action ≠ .waitForEvent) { world := {} } s
        ∧ p.handlers.shared.world.db.rows.map FlowsRow.dpid = [.integer 7, .integer 5]
        ∧ bare s = p.server
        ∧ (p.handlers.shared.world.db.rowsOf (dpidOf 5)).map FlowsRow.columns
          = (s.world.db.rowsOf (dpidOf 5)).map FlowsRow.columns := by
  obtain ⟨p, hp, hstate⟩ : ∃ p : Interleaved 2,
      run (Interleaved.step (fun _ => false)) (fun p action => p.keepsOwnership action) {} crossedHellos
        = some p
        ∧ (p.handlers.shared.world.db.rows.map FlowsRow.dpid = [.integer 7, .integer 5]
          ∧ ∀ i, p.server.workers i = .top 5 ∨ p.server.workers i = .top 7 : Bool) :=
    (Option.any_eq_true _ _).mp (by decide +kernel)
  rcases of_decide_eq_true hstate with ⟨hrows, hworkers⟩
  rcases (granularity_of_reaches (fun _ => false) (fun _ _ _ => ⟨0, 0, 0⟩)).2 p (reaches_of_run hp) with
    ⟨s, hs, hbare, hservices⟩
  have hidle := hservices (Server.ne_loop_of_top hworkers) 5
  exact ⟨p, s, hp, hs, hrows, hbare, hidle.2.2.2 (fun _ => rfl) (by decide)⟩

end NetOrc
