import NetOrc.Core.App

/-!
This module shows that nothing empties the event queue of the running program: it holds every event that
was ever pushed, and a single switch can make it as long as it likes.
-/

namespace NetOrc

open Oflib
open Framing
open Transition

/-! The queue is what was pushed. -/

section

variable {ep : OpenFlowEndpoint Services} {s s' : Server Services 4}

theorem pushes_of_ne {i : Fin 4} (hpc : ∀ fd id, s.workers i ≠ .loop fd id) :
    App.pushes ep s i = none := by
  rw [App.pushes, Server.carves_of_ne hpc]
  rfl

theorem pushes_of_loop {i : Fin 4} {fd : Int32} {e : Entry} (hpc : s.workers i = .loop fd e.id)
    (hentry : s.connections.lookup fd = some e) :
    App.pushes ep s i
      =
    match framer.carve e.conn.inbuf with
    | .frame f _ =>
      if ep.runValidator f.type f && (lldpFault f.type f).isNone then some ⟨e.id, e.conn.fd, f⟩ else none
    | _ => none := by
  rw [App.pushes, Server.carves_of_loop hpc hentry]
  cases framer.carve e.conn.inbuf with
  | more => rfl
  | bad => rfl
  | frame f rest => exact Option.filter_some

theorem events_dispatched (hfaults : FaultsBy ep.dispatch lldpFault) {conn : Connection} {d : Dispatched}
    {w : Services} {events : List Event} {r : HandlerResult (Services × List Event)}
    (hstep : ep.ingestStep (serverDispatch ep) conn (w, events) = .dispatched d r) :
    r.world.2.map Event.frame
      =
    events.map Event.frame ++ if (lldpFault d.frame.type d.frame).isNone then [d.frame] else [] := by
  rcases OpenFlowEndpoint.ingestStep_dispatched_eq hstep with ⟨rest, _, _, _, rfl⟩
  have hfault := hfaults d.frame.type ⟨conn.fd, conn.state.advance d.frame.type, rest⟩ d.frame w
  unfold serverDispatch
  rw [← hfault]
  dsimp only
  split
  . next e he => simp [he]
  . next hnone => simp [hnone]

theorem events_handleClient (hfaults : FaultsBy ep.dispatch lldpFault) {i : Fin 4} {count : Nat}
    (h : Server.Step ep s (.handleClient i count) s') :
    s'.events.map Event.frame
      =
    s.events.map Event.frame ++ (App.pushes ep s i).toList.map Handled.frame := by
  have hsame : App.pushes ep s i = none → s'.events = s.events →
      s'.events.map Event.frame
        = s.events.map Event.frame ++ (App.pushes ep s i).toList.map Handled.frame := by
    intro hpushes hevents
    rw [hpushes, hevents, Option.toList_none, List.map_nil, List.append_nil]
  by_cases hloop : ∀ fd id, s.workers i ≠ .loop fd id
  . exact hsame (pushes_of_ne hloop) (h.of_not_loop hloop).2.1
  . cases h with
    | accepted hpc hentry hret =>
      apply hsame _ rfl
      rw [pushes_of_loop hpc hentry]
      rcases OpenFlowEndpoint.ingestStep_ret_cases hret with ⟨hmore, _⟩ | ⟨_, h, _⟩
        | ⟨_, _, _, _, h, _⟩
      . rw [hmore]
      . contradiction
      . contradiction
    | rejected hpc hentry hret =>
      apply hsame _ rfl
      rw [pushes_of_loop hpc hentry]
      rcases OpenFlowEndpoint.ingestStep_ret_cases hret with ⟨_, h, _⟩ | ⟨hbad, _⟩
        | ⟨f, rest, hcarve, hreject, _⟩
      . contradiction
      . rw [hbad]
      . rw [hcarve]
        simp [hreject]
    | dispatched hpc hentry hstep =>
      rcases OpenFlowEndpoint.ingestStep_dispatched_eq hstep with ⟨rest, hcarve, haccept, _, _⟩
      rw [pushes_of_loop hpc hentry, hcarve]
      dsimp only
      rw [events_dispatched hfaults hstep, haccept, Bool.true_and]
      split <;> rfl
    | _ hpc => exact absurd (fun fd id => by simp [hpc]) hloop

theorem events_step (hfaults : FaultsBy ep.dispatch lldpFault) {action : Action 4}
    (hsouth : isSouthbound action) (h : Server.Step ep s action s') :
    s'.events.map Event.frame
      =
    s.events.map Event.frame ++ (App.pushedBy ep s action).map Handled.frame := by
  cases action with
  | handleClient i count => exact events_handleClient hfaults h
  | acceptLoop a result => cases h <;> exact (List.append_nil _).symm
  | send fd data => cases h with | send => exact (List.append_nil _).symm
  | hangUp fd => cases h with | hangUp => exact (List.append_nil _).symm
  | reset fd => cases h with | reset => exact (List.append_nil _).symm
  | _ => contradiction

end

theorem events_of_reachable {insertFails : Nat → Bool} {junk : Connection → Frame → Services → Uninit}
    {c : App} (h : App.Reachable insertFails junk c) :
    c.server.events.map Event.frame = c.history.pushed.map Handled.frame := by
  refine h.invariant (fun c => c.server.events.map Event.frame = c.history.pushed.map Handled.frame)
    (fun c action c' hc _ hstep => ?_) rfl
  cases (App.Step.of_step hstep).2 with
  | listen _ hserver =>
    rcases Server.listen_eq_some hserver with ⟨_, rfl⟩
    exact hc
  | spawn _ hserver =>
    have hcaller : Server.Step {} c.server (.caller 0) _ := .of_caller hserver
    apply Eq.trans _ hc
    cases hcaller <;> rfl
  | southbound hsouth hserver =>
    have hevents := events_step (sbiEndpoint_faultsBy (services insertFails) junk) hsouth
      (Server.Step.of_step hserver).2
    dsimp only
    rw [hevents, hc, List.map_append]
  | _ => exact hc

/-! A switch that keeps sending. -/

section

variable {σ : Type} {W : Nat} {ep : OpenFlowEndpoint σ} {s : Server σ W} {i : Fin W} {fd : Int32}
  {e : Entry}

structure Serves (s : Server σ W) (i : Fin W) (pc : WorkerPc) (fd : Int32) (e : Entry) : Prop where
  crashed : ¬s.crashed
  running : s.running
  worker : s.workers i = pc
  entry : s.connections.lookup fd = some e
  descriptor : e.conn.fd = fd
  isOpen : ¬fd < 0
  socket : s.sockets fd = some {}

def isTraffic (action : Action W) : Bool :=
  match action with
  | .handleClient _ _ => true
  | .send _ _ => true
  | _ => false

theorem reaches_of_step {s s' : Server σ W} {action : Action W} (hcrashed : ¬s.crashed)
    (htraffic : isTraffic action) (h : Server.Step ep s action s') :
    Reaches (Server.step ep) (fun _ action => isTraffic action) s s' :=
  Next.reaches htraffic (h.step_eq hcrashed)

theorem Serves.receive (ep : OpenFlowEndpoint σ) (h : Serves s i (.recv fd e.id) fd e)
    (hbuffer : e.conn.inbuf = []) {bytes : Bytes} (hpos : 1 ≤ bytes.length) (hle : bytes.length ≤ 8192) :
    ∃ s' : Server σ W, Reaches (Server.step ep) (fun _ action => isTraffic action) s s'
      ∧ Serves s' i (.loop fd e.id) fd { e with conn := { e.conn with inbuf := bytes } }
      ∧ s'.events = s.events := by
  have hfd : ¬e.conn.fd < 0 := by
    rw [h.descriptor]
    exact h.isOpen
  have hnonempty : ¬(bytes.length = 0 ∨ e.conn.fd < 0) := by
    rintro (hzero | hneg)
    . omega
    . exact hfd hneg
  let s₁ : Server σ W :=
    { s with sockets := Function.update s.sockets fd (some { unread := bytes }) }
  have hsend : Server.Step ep s (.send fd bytes) s₁ := .send h.socket Bool.false_ne_true
  have hsocket : s₁.sockets e.conn.fd = some { unread := bytes } := by
    rw [h.descriptor]
    exact Function.update_self _ _ _
  let s₂ : Server σ W :=
    { s₁ with
      sockets := Function.update s₁.sockets e.conn.fd (some { unread := bytes.drop bytes.length })
      workers := Function.update s₁.workers i (.ingest fd e.id (bytes.take bytes.length)) }
  have hrecv : Server.Step ep s₁ (.handleClient i bytes.length) s₂ :=
    .recv (s := s₁) h.worker h.entry hfd hsocket ⟨hpos, hle, Nat.le_refl _⟩
  have hingest : Server.Step ep s₂ (.handleClient i 0) _ :=
    .ingest (s := s₂) (Function.update_self i _ _) h.entry (by rwa [List.take_length])
  refine ⟨_, ((reaches_of_step h.crashed rfl hsend).trans (reaches_of_step h.crashed rfl hrecv)).trans
    (reaches_of_step h.crashed rfl hingest), ?_, rfl⟩
  refine ⟨h.crashed, h.running, Function.update_self _ _ _, ?_, h.descriptor, h.isOpen, ?_⟩
  . rw [List.take_length, hbuffer, List.nil_append]
    exact AList.lookup_insert _
  . have hdrop : bytes.drop bytes.length = [] := List.drop_length
    dsimp only [s₂]
    rw [h.descriptor, hdrop]
    exact Function.update_self _ _ _

theorem Serves.dispatch {faultOf : PacketType → Frame → Option Fault}
    (hkeep : KeepsConnection ep.dispatch) (hfaults : FaultsBy ep.dispatch faultOf)
    (h : Serves s i (.loop fd e.id) fd e) {f : Frame} {rest : Bytes}
    (hcarve : framer.carve e.conn.inbuf = .frame f rest) (hvalid : ep.runValidator f.type f)
    (hfault : faultOf f.type f = none) :
    ∃ s' : Server σ W, Reaches (Server.step ep) (fun _ action => isTraffic action) s s'
      ∧ Serves s' i (.loop fd e.id) fd
        { e with conn := ⟨e.conn.fd, e.conn.state.advance f.type, rest⟩ }
      ∧ s'.events.length = s.events.length + 1 := by
  have hstep := ep.ingestStep_eq (serverDispatch ep) e.conn (s.world, s.events)
  rw [hcarve] at hstep
  dsimp only at hstep
  rw [if_pos hvalid] at hstep
  have hreturns := (serverDispatch_faultsBy hfaults f.type
    ⟨e.conn.fd, e.conn.state.advance f.type, rest⟩ f (s.world, s.events)).trans hfault
  have hconn := serverDispatch_keepsConnection hkeep f.type
    ⟨e.conn.fd, e.conn.state.advance f.type, rest⟩ f (s.world, s.events)
  have hevents := serverDispatch_events ep f.type
    ⟨e.conn.fd, e.conn.state.advance f.type, rest⟩ f (s.world, s.events) hreturns
  have hdispatched : Server.Step ep s (.handleClient i 0) _ := .dispatched h.worker h.entry hstep
  refine ⟨_, reaches_of_step h.crashed rfl hdispatched, ?_, ?_⟩
  . refine ⟨?_, h.running, h.worker, ?_, h.descriptor, h.isOpen, h.socket⟩
    . dsimp only
      rw [hreturns]
      exact Bool.false_ne_true
    . dsimp only
      rw [hconn]
      exact AList.lookup_insert _
  . dsimp only
    rw [hevents, List.length_append]
    rfl

theorem Serves.drained (ep : OpenFlowEndpoint σ) (h : Serves s i (.loop fd e.id) fd e)
    (hcarve : framer.carve e.conn.inbuf = .more) :
    ∃ s' : Server σ W, Reaches (Server.step ep) (fun _ action => isTraffic action) s s'
      ∧ Serves s' i (.recv fd e.id) fd e ∧ s'.events = s.events := by
  have hstep := ep.ingestStep_eq (serverDispatch ep) e.conn (s.world, s.events)
  rw [hcarve] at hstep
  let s₁ : Server σ W :=
    { s with
      connections := s.connections.insert fd e
      workers := Function.update s.workers i (.top fd) }
  have haccepted : Server.Step ep s (.handleClient i 0) s₁ := .accepted h.worker h.entry hstep
  have htop : Server.Step ep s₁ (.handleClient i 0) (s₁.setWorker i (.lookup fd)) :=
    .top (s := s₁) (Function.update_self _ _ _) h.running
  have hentry : s₁.connections.lookup fd = some e := AList.lookup_insert _
  have hlookup : Server.Step ep (s₁.setWorker i (.lookup fd)) (.handleClient i 0) _ :=
    .lookup (Function.update_self _ _ _) hentry
  refine ⟨_, ((reaches_of_step h.crashed rfl haccepted).trans (reaches_of_step h.crashed rfl htop)).trans
    (reaches_of_step h.crashed rfl hlookup), ?_, rfl⟩
  exact ⟨h.crashed, h.running, Function.update_self _ _ _, hentry, h.descriptor, h.isOpen, h.socket⟩

theorem Serves.grows {faultOf : PacketType → Frame → Option Fault}
    (hkeep : KeepsConnection ep.dispatch) (hfaults : FaultsBy ep.dispatch faultOf)
    (h : Serves s i (.recv fd e.id) fd e) (hbuffer : e.conn.inbuf = []) {f : Frame}
    (hformed : f.WellFormed) (hshort : (encodeFrame f).length ≤ 8192) (hvalid : ep.runValidator f.type f)
    (hfault : faultOf f.type f = none) (n : Nat) :
    ∃ s' : Server σ W, Reaches (Server.step ep) (fun _ action => isTraffic action) s s'
      ∧ s'.events.length = s.events.length + n := by
  induction n generalizing s e with
  | zero => exact ⟨s, .refl, rfl⟩
  | succ n ih =>
    have hpos : 1 ≤ (encodeFrame f).length := by
      rw [length_encodeFrame, kOFHeaderLen]
      omega
    have hcarve : framer.carve (encodeFrame f) = .frame f [] := by
      have hwhole := carveFrame_encodeFrame hformed []
      rwa [List.append_nil] at hwhole
    obtain ⟨s₁, hreaches₁, hs₁, hevents₁⟩ := h.receive ep hbuffer hpos hshort
    obtain ⟨s₂, hreaches₂, hs₂, hevents₂⟩ := Serves.dispatch
      (e := { e with conn := { e.conn with inbuf := encodeFrame f } }) hkeep hfaults hs₁ hcarve hvalid
      hfault
    obtain ⟨s₃, hreaches₃, hs₃, hevents₃⟩ := Serves.drained ep
      (e := { e with conn := ⟨e.conn.fd, e.conn.state.advance f.type, []⟩ }) hs₂ framer_carve_nil
    obtain ⟨s', hreaches, hevents⟩ := ih hs₃ rfl
    refine ⟨s', ((hreaches₁.trans hreaches₂).trans hreaches₃).trans hreaches, ?_⟩
    rw [hevents, hevents₃, hevents₂, hevents₁]
    omega

end

/-! The program of `main`. -/

/--
A bound on the length of the event queue that holds in every state of the program, whatever the switches
send.
-/
def BoundedBacklog (insertFails : Nat → Bool) (junk : Connection → Frame → Services → Uninit) : Prop :=
  ∃ B, ∀ c, App.Reachable insertFails junk c → c.server.events.length ≤ B

def serveSwitch : List AppAction :=
  [.run true, .run true, .southbound (.acceptLoop 0 0), .southbound (.acceptLoop 0 5),
    .southbound (.acceptLoop 0 0), .southbound (.acceptLoop 0 0), .southbound (.handleClient 0 0),
    .southbound (.handleClient 0 0), .southbound (.handleClient 0 0)]

def echoRequest : Frame := ⟨⟨0x01, 0x02, 8, 0⟩, []⟩

theorem serves_serveSwitch (insertFails : Nat → Bool) (junk : Connection → Frame → Services → Uninit) :
    ∃ c, App.Reachable insertFails junk c ∧ Serves c.server 0 (.recv 5 0) 5 ⟨0, { fd := 5 }⟩ := by
  obtain ⟨c, hrun, hserves⟩ : ∃ c,
      run (App.step insertFails junk) (fun _ _ => true) {} serveSwitch = some c
        ∧ Serves c.server 0 (.recv 5 0) 5 ⟨0, { fd := 5 }⟩ := by
    exact ⟨_, rfl, Bool.false_ne_true, rfl, rfl, rfl, rfl, by decide, rfl⟩
  exact ⟨c, (reaches_of_run hrun).weaken (fun _ _ _ => trivial), hserves⟩

theorem reaches_of_traffic {insertFails : Nat → Bool} {junk : Connection → Frame → Services → Uninit}
    {c : App} {s' : Server Services 4}
    (h : Reaches (Server.step (sbiEndpoint (services insertFails) junk))
      (fun _ action => isTraffic action) c.server s') :
    ∃ c', Reaches (App.step insertFails junk) (fun _ _ => True) c c' ∧ c'.server = s' := by
  refine Reaches.lift App.server (fun c action s' htraffic hstep => ?_) h
  have hsouth : isSouthbound action := by
    cases action with
    | handleClient => rfl
    | send => rfl
    | _ => contradiction
  have happ : App.step insertFails junk c (.southbound action) = some { c with
      server := s'
      history := { c.history with
        pushed := c.history.pushed
          ++ App.pushedBy (sbiEndpoint (services insertFails) junk) c.server action } } := by
    rw [App.step, if_neg (Server.Step.of_step hstep).1]
    dsimp only
    rw [App.southbound, if_pos hsouth, hstep]
    rfl
  exact ⟨_, Next.reaches trivial happ, rfl⟩

theorem exists_reachable_of_length (insertFails : Nat → Bool)
    (junk : Connection → Frame → Services → Uninit) (n : Nat) :
    ∃ c, App.Reachable insertFails junk c ∧ n ≤ c.server.events.length := by
  rcases serves_serveSwitch insertFails junk with ⟨c, hreachable, hserves⟩
  have hvalid : (sbiEndpoint (services insertFails) junk).runValidator .echoRequest echoRequest := by
    rfl
  obtain ⟨s, hreaches, hlength⟩ := Serves.grows (e := ⟨0, { fd := 5 }⟩) (f := echoRequest)
    (sbiEndpoint_keepsConnection (services insertFails) junk)
    (sbiEndpoint_faultsBy (services insertFails) junk) hserves rfl (by decide) (by decide) hvalid
    (by decide) n
  rcases reaches_of_traffic hreaches with ⟨c', hreaches', rfl⟩
  refine ⟨c', hreachable.trans hreaches', ?_⟩
  omega

theorem not_bounded_of_exists {insertFails : Nat → Bool} {junk : Connection → Frame → Services → Uninit}
    (h : ∀ n, ∃ c, App.Reachable insertFails junk c ∧ n ≤ c.server.events.length) :
    ¬BoundedBacklog insertFails junk := by
  rintro ⟨B, hB⟩
  rcases h (B + 1) with ⟨c, hreachable, hlength⟩
  have hle := hB c hreachable
  omega

/--
However the database behaves, the event queue of the running program has no bound.
-/
theorem not_boundedBacklog (insertFails : Nat → Bool) (junk : Connection → Frame → Services → Uninit) :
    ¬BoundedBacklog insertFails junk :=
  not_bounded_of_exists (exists_reachable_of_length insertFails junk)

theorem not_boundedBacklog_echo : ¬BoundedBacklog (fun _ => false) (fun _ _ _ => ⟨0, 0, 0⟩) :=
  not_bounded_of_exists (exists_reachable_of_length _ _)

end NetOrc
