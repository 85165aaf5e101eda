import NetOrc.OpenFlow.Peers
import NetOrc.Southbound.Effects

/-!
This module shows that switches with different descriptors do not see each other: a connection, its flows
and its links are the same as if it were served alone.
-/

namespace NetOrc

open Framing
open Oflib
open Transition

variable {ι : Type}

def linksOf (w : Services) (fd : Int32) : List Link :=
  w.topo.links.filter (fun link => link.srcFd = fd)

def eraseUninit (entry : FlowEntry) : FlowEntry := { entry with tpSrc := 0, tpDst := 0 }

/--
What the controller keeps for a connection. `p` says how much of a flow is looked at.
-/
structure SwitchView where
  peer : Peer
  flows : List FlowEntry
  links : List Link

def switchView (p : FlowEntry → FlowEntry) (fd : Int32) (i : ι)
    (s : Peers ι (Services × List Event)) : SwitchView where
  peer := s.peers i
  flows := (s.world.1.flows.getFlows (dpidOf fd)).map p
  links := linksOf s.world.1 fd

def HasDescriptor {τ : Type} (fd : Int32) (i : ι) (s : Peers ι τ) : Prop :=
  ∀ j, (s.peers j).conn.fd = fd ↔ j = i

def sbiStep [DecidableEq ι] (insertFails : Nat → Bool) (junk : Connection → Frame → Services → Uninit) :
    Peers ι (Services × List Event) → ι × PeerAction → Option (Peers ι (Services × List Event)) :=
  let ep := sbiEndpoint (services insertFails) junk
  Peers.step ep (serverDispatch ep)

/-! The flows and the links of a descriptor after one call of `dispatch`. -/

section
variable (insertFails insertFails' : Nat → Bool)
  (junk junk' : Connection → Frame → Services → Uninit)

theorem linksOf_dispatch (conn : Connection) (frame : Frame) (w : Services × List Event)
    (fd : Int32) :
    linksOf ((serverDispatch (sbiEndpoint (services insertFails) junk) frame.type).call conn frame
        w).world.1 fd
      =
    if conn.fd = fd ∧ RecordsLink frame then
      TopologyManager.updateLinks (linksOf w.1 fd) conn.fd mockPort (idsOf (frame.body.drop 14)).1
        (idsOf (frame.body.drop 14)).2
    else
      linksOf w.1 fd := by
  rw [serverDispatch_world]
  unfold linksOf
  rw [sbiEndpoint_links]
  by_cases hlink : RecordsLink frame
  . rw [if_pos hlink, TopologyManager.filter_updateLinks]
    by_cases hfd : conn.fd = fd
    . rw [if_pos hfd.symm, if_pos ⟨hfd, hlink⟩]
    . rw [if_neg (Ne.symm hfd), if_neg (fun h => hfd h.1)]
  . rw [if_neg hlink, if_neg (fun h => hlink h.2)]

theorem dispatch_of_ne {fd : Int32} (conn : Connection) (hfd : conn.fd ≠ fd) (frame : Frame)
    (w : Services × List Event) :
    let r := (serverDispatch (sbiEndpoint (services insertFails) junk) frame.type).call conn frame w
    r.world.1.flows.getFlows (dpidOf fd) = w.1.flows.getFlows (dpidOf fd)
      ∧ linksOf r.world.1 fd = linksOf w.1 fd := by
  intro r
  constructor
  . rw [serverDispatch_world, sbiEndpoint_flows, if_neg (fun h => hfd h.1), List.append_nil]
  . rw [linksOf_dispatch, if_neg (fun h => hfd h.1)]

theorem dispatch_congr {p : FlowEntry → FlowEntry}
    (hp : ∀ conn frame w v, p (defaultFlow (junk conn frame w)) = p (defaultFlow (junk' conn frame v)))
    {fd : Int32} {w v : Services × List Event}
    (hflows : (w.1.flows.getFlows (dpidOf fd)).map p = (v.1.flows.getFlows (dpidOf fd)).map p)
    (hlinks : linksOf w.1 fd = linksOf v.1 fd) (conn : Connection) (frame : Frame) :
    let r := (serverDispatch (sbiEndpoint (services insertFails) junk) frame.type).call conn frame w
    let q := (serverDispatch (sbiEndpoint (services insertFails') junk') frame.type).call conn frame v
    (r.world.1.flows.getFlows (dpidOf fd)).map p = (q.world.1.flows.getFlows (dpidOf fd)).map p
      ∧ linksOf r.world.1 fd = linksOf q.world.1 fd := by
  intro r q
  constructor
  . rw [serverDispatch_world, serverDispatch_world, sbiEndpoint_flows, sbiEndpoint_flows,
      List.map_append, List.map_append, hflows]
    congr 1
    split
    . rw [List.map_singleton, List.map_singleton, hp]
    . rfl
  . rw [linksOf_dispatch, linksOf_dispatch, hlinks]

end

/-! One step of a connection. -/

section
variable {insertFails insertFails' : Nat → Bool}
  {junk junk' : Connection → Frame → Services → Uninit}

theorem peer_step_of_ne {fd : Int32} {peer peer' : Peer} {w w' : Services × List Event}
    {action : PeerAction} (hfd : peer.conn.fd ≠ fd)
    (h : peer.step (sbiEndpoint (services insertFails) junk)
      (serverDispatch (sbiEndpoint (services insertFails) junk)) w action = some (peer', w')) :
    w'.1.flows.getFlows (dpidOf fd) = w.1.flows.getFlows (dpidOf fd)
      ∧ linksOf w'.1 fd = linksOf w.1 fd := by
  rcases Peer.step_cases h with ⟨_, _, _, rfl, _⟩
    | ⟨_, _, ⟨_, _, _, rfl, _⟩ | ⟨d, r, hstep, _, rfl, _⟩⟩
  . exact ⟨rfl, rfl⟩
  . exact ⟨rfl, rfl⟩
  . rcases OpenFlowEndpoint.ingestStep_dispatched_eq hstep with ⟨rest, _, _, _, rfl⟩
    exact dispatch_of_ne insertFails junk ⟨peer.conn.fd, _, rest⟩ hfd d.frame w

theorem peer_step_congr {p : FlowEntry → FlowEntry}
    (hp : ∀ conn frame w v, p (defaultFlow (junk conn frame w)) = p (defaultFlow (junk' conn frame v)))
    {fd : Int32} {peer peer' : Peer} {w w' v : Services × List Event} {action : PeerAction}
    (hflows : (w.1.flows.getFlows (dpidOf fd)).map p = (v.1.flows.getFlows (dpidOf fd)).map p)
    (hlinks : linksOf w.1 fd = linksOf v.1 fd)
    (h : peer.step (sbiEndpoint (services insertFails) junk)
      (serverDispatch (sbiEndpoint (services insertFails) junk)) w action = some (peer', w')) :
    ∃ v', peer.step (sbiEndpoint (services insertFails') junk')
          (serverDispatch (sbiEndpoint (services insertFails') junk')) v action = some (peer', v')
      ∧ (w'.1.flows.getFlows (dpidOf fd)).map p = (v'.1.flows.getFlows (dpidOf fd)).map p
      ∧ linksOf w'.1 fd = linksOf v'.1 fd := by
  have hvalid := sbiEndpoint_runValidator (services insertFails') junk' (services insertFails) junk
  rcases Peer.step_cases h with ⟨data, rfl, hphase, rfl, ⟨hdata, rfl⟩ | ⟨hdata, rfl⟩⟩
    | ⟨rfl, hphase, ⟨verdict, conn, hstep, rfl, rfl⟩ | ⟨d, r, hstep, hfault, rfl, rfl⟩⟩
  . refine ⟨v, ?_, hflows, hlinks⟩
    simp only [Peer.step, hphase, if_pos hdata]
  . refine ⟨v, ?_, hflows, hlinks⟩
    simp only [Peer.step, hphase, if_neg hdata]
  . refine ⟨v, ?_, hflows, hlinks⟩
    have hstep' := OpenFlowEndpoint.ingestStep_ret_congr hvalid hstep
      (serverDispatch (sbiEndpoint (services insertFails') junk')) v
    simp only [Peer.step, hphase, hstep']
  . rcases OpenFlowEndpoint.ingestStep_dispatched_congr hvalid hstep
      (serverDispatch (sbiEndpoint (services insertFails') junk')) v with ⟨conn, rfl, hstep'⟩
    have hfaults := serverDispatch_faultsBy (sbiEndpoint_faultsBy (services insertFails) junk)
      d.frame.type conn d.frame w
    have hfaults' := serverDispatch_faultsBy (sbiEndpoint_faultsBy (services insertFails') junk')
      d.frame.type conn d.frame v
    have hfault' := hfaults'.trans (hfaults.symm.trans hfault)
    rcases dispatch_congr insertFails insertFails' junk junk' hp hflows hlinks conn d.frame with
      ⟨hflows', hlinks'⟩
    refine ⟨_, ?_, hflows', hlinks'⟩
    simp only [Peer.step, hphase, hstep', hfault',
      serverDispatch_keepsConnection (sbiEndpoint_keepsConnection _ _) _ _ _ _]

end

/-! Runs. -/

section
variable [DecidableEq ι] (insertFails insertFails' : Nat → Bool)
  (junk junk' : Connection → Frame → Services → Uninit)

theorem isolated {p : FlowEntry → FlowEntry}
    (hp : ∀ conn frame w v, p (defaultFlow (junk conn frame w)) = p (defaultFlow (junk' conn frame v)))
    (fd : Int32) (i : ι) :
    Isolated (sbiStep insertFails junk) (sbiStep insertFails' junk') (HasDescriptor fd i)
      (switchView p fd i) i := by
  have hkeep := (serverDispatch_keepsConnection
    (sbiEndpoint_keepsConnection (services insertFails) junk)).keepsDescriptor
  constructor
  . intro s a s' hs hstep j
    rw [Peers.step_fd hkeep hstep]
    exact hs j
  . intro s j a s' hs hj hstep
    rcases Peers.step_eq_some_iff.mp hstep with ⟨peer, w, hpeer, rfl⟩
    rcases peer_step_of_ne (fun hfd => hj ((hs j).mp hfd)) hpeer with ⟨hflows, hlinks⟩
    unfold switchView
    dsimp only
    rw [Function.update_of_ne (Ne.symm hj), hflows, hlinks]
  . intro s t a s' hs hview hstep
    rcases Peers.step_eq_some_iff.mp hstep with ⟨peer, w, hpeer, rfl⟩
    injection hview with hpeers hflows hlinks
    rcases peer_step_congr hp hflows hlinks hpeer with ⟨v, hpeer', hflows', hlinks'⟩
    rw [hpeers] at hpeer'
    refine ⟨_, Peers.step_eq_some_iff.mpr ⟨peer, v, hpeer', rfl⟩, ?_⟩
    unfold switchView
    dsimp only
    rw [Function.update_self, Function.update_self, hflows', hlinks']

def connected (conns : ι → Connection) (w : Services × List Event) : Peers ι (Services × List Event) where
  peers j := { conn := conns j }
  world := w

/--
However the chunks and the rounds of other connections come in between, a connection with a descriptor
of its own gets the frames, the session state, the residual buffer, the flows and the links that it gets
when only its own chunks are processed. This holds for the flows up to the fields that are left
uninitialised, and altogether if both runs find the same values there.
-/
theorem isolated_of_run (conns : ι → Connection) (w : Services × List Event) (i : ι)
    (hfd : ∀ j, j ≠ i → (conns j).fd ≠ (conns i).fd) (actions : List (ι × PeerAction))
    (s : Peers ι (Services × List Event))
    (hrun : run (sbiStep insertFails junk) (fun _ _ => true) (connected conns w) actions = some s) :
    ∃ alone, run (sbiStep insertFails' junk') (fun _ _ => true) (connected conns w)
          (actions.filter (fun a => a.1 = i)) = some alone
      ∧ s.peers i = alone.peers i
      ∧ (s.world.1.flows.getFlows (dpidOf (conns i).fd)).map eraseUninit
        = (alone.world.1.flows.getFlows (dpidOf (conns i).fd)).map eraseUninit
      ∧ ((∀ conn frame w v, junk conn frame w = junk' conn frame v) →
        s.world.1.flows.getFlows (dpidOf (conns i).fd)
          = alone.world.1.flows.getFlows (dpidOf (conns i).fd))
      ∧ linksOf s.world.1 (conns i).fd = linksOf alone.world.1 (conns i).fd
      ∧ ∀ verdict, (s.peers i).phase = .after verdict →
        sbiIngestChunks (services insertFails') junk' (conns i) (chunksOf i actions) w
          = ⟨.ok verdict, (s.peers i).conn, alone.world, (s.peers i).dispatched⟩ := by
  have hinv : HasDescriptor (conns i).fd i (connected conns w) := by
    intro j
    constructor
    . intro hj
      by_contra hne
      exact hfd j hne hj
    . rintro rfl
      rfl
  rcases (isolated insertFails insertFails' junk junk' (fun _ _ _ _ => rfl) (conns i).fd i).run hinv
    (Eq.refl (switchView eraseUninit _ i _)) hrun with ⟨alone, halone, hview⟩
  injection hview with hpeers hflows hlinks
  refine ⟨alone, halone, hpeers, hflows, fun hjunk => ?_, hlinks, fun verdict hphase => ?_⟩
  . have hp : ∀ conn frame w v,
        id (defaultFlow (junk conn frame w)) = id (defaultFlow (junk' conn frame v)) := by
      intro conn frame w v
      rw [hjunk conn frame w v]
    rcases (isolated insertFails insertFails' junk junk' hp (conns i).fd i).run hinv
      (Eq.refl (switchView id _ i _)) hrun with ⟨alone', halone', hview'⟩
    have hsame : alone = alone' := Option.some.inj (halone.symm.trans halone')
    injection hview' with _ hflows' _
    rw [List.map_id, List.map_id] at hflows'
    rw [hsame]
    exact hflows'
  . rw [hpeers] at hphase ⊢
    exact Peers.ingestChunksWith_eq_of_run rfl rfl halone hphase

end

def twoSwitches : List (Bool × PeerAction) :=
  [(false, .recv [0x01, 0x00, 0x00]), (true, .recv [0x01, 0x00, 0x00, 0x08, 0x00, 0x00, 0x00, 0x02]),
    (false, .round), (true, .round), (false, .recv [0x08, 0x00, 0x00, 0x00, 0x01]), (false, .round),
    (true, .round), (false, .round)]

theorem isolated_of_run_twoSwitches :
    ∃ s alone : Peers Bool (Services × List Event),
      run (sbiStep (fun _ => false) (fun _ _ _ => ⟨0, 0, 0⟩)) (fun _ _ => true)
          (connected (fun b => { fd := if b then 7 else 5 }) ({}, [])) twoSwitches = some s
        ∧ run (sbiStep (fun _ => false) (fun _ _ _ => ⟨0, 0, 0⟩)) (fun _ _ => true)
          (connected (fun b => { fd := if b then 7 else 5 }) ({}, []))
          (twoSwitches.filter (fun a => a.1 = false)) = some alone
        ∧ s.world.1.flows.getFlows (dpidOf 5) = alone.world.1.flows.getFlows (dpidOf 5) := by
  obtain ⟨s, hs⟩ : ∃ s : Peers Bool (Services × List Event),
      run (sbiStep (fun _ => false) (fun _ _ _ => ⟨0, 0, 0⟩)) (fun _ _ => true)
          (connected (fun b => { fd := if b then 7 else 5 }) ({}, [])) twoSwitches = some s :=
    Option.isSome_iff_exists.mp (by decide +kernel)
  rcases isolated_of_run (fun _ => false) (fun _ => false) (fun _ _ _ => ⟨0, 0, 0⟩)
    (fun _ _ _ => ⟨0, 0, 0⟩) (fun b => { fd := if b then 7 else 5 }) ({}, []) false (by decide)
    twoSwitches s hs with ⟨alone, halone, _, _, hflows, _⟩
  exact ⟨s, alone, hs, halone, hflows (fun _ _ _ _ => rfl)⟩

end NetOrc
