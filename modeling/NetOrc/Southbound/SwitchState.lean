import NetOrc.OpenFlow.Ownership
import NetOrc.Southbound.DefaultFlow
import NetOrc.Southbound.Effects

/-!
This module shows which flows and links a descriptor has on a running controller: what the frames
handled so far on this descriptor left, also by connections that are gone.
-/

namespace NetOrc

open Oflib
open Transition

variable {W : Nat}

/--
The flow tables and the topology hold what the handled frames left: one default flow for each HELLO on
the descriptor, and a link exactly if an LLDP frame came in on it.
-/
structure Recorded (w : Services) (handled : List Handled) : Prop where
  default : ∀ fd, ∀ entry ∈ w.flows.getFlows (dpidOf fd), IsDefaultFlow entry
  flows : ∀ fd, (w.flows.getFlows (dpidOf fd)).length
    = handled.countP (fun h => h.fd = fd ∧ h.frame.type = .hello)
  links : ∀ fd, (∃ link ∈ w.topo.links, link.srcFd = fd)
    ↔ ∃ h ∈ handled, h.fd = fd ∧ RecordsLink h.frame

theorem Recorded.dispatch {w : Services × List Event} {handled : List Handled}
    (hw : Recorded w.1 handled) (insertFails : Nat → Bool)
    (junk : Connection → Frame → Services → Uninit) (id : Nat) (conn : Connection) (frame : Frame) :
    Recorded
      ((serverDispatch (sbiEndpoint (services insertFails) junk) frame.type).call conn frame
        w).world.1
      (handled ++ [⟨id, conn.fd, frame⟩]) := by
  rw [serverDispatch_world]
  constructor
  . intro fd entry hentry
    rw [sbiEndpoint_flows] at hentry
    cases List.mem_append.mp hentry with
    | inl hold => exact hw.default fd entry hold
    | inr hnew =>
      split at hnew
      . rw [List.mem_singleton.mp hnew]
        exact ⟨rfl, rfl⟩
      . contradiction
  . intro fd
    rw [sbiEndpoint_flows, List.length_append, List.countP_append, List.countP_singleton, hw.flows fd]
    simp only [decide_eq_true_eq]
    split <;> rfl
  . intro fd
    simp only [sbiEndpoint_links, List.mem_append, List.mem_singleton, or_and_right, exists_or,
      exists_eq_left, ← hw.links fd]
    by_cases hlink : RecordsLink frame
    . rw [if_pos hlink, TopologyManager.exists_mem_updateLinks_iff, or_comm, eq_comm (a := fd)]
      simp [hlink]
    . simp [hlink]

theorem Recorded.step {insertFails : Nat → Bool} {junk : Connection → Frame → Services → Uninit}
    {s s' : Server Services W} {action : Action W} (hs : Recorded s.world s.history.handled)
    (h : Server.Step (sbiEndpoint (services insertFails) junk) s action s') :
    Recorded s'.world s'.history.handled := by
  cases h with
  | @dispatched i count fd e d r hpc hentry hstep =>
    rcases OpenFlowEndpoint.ingestStep_dispatched hstep with ⟨conn, hfd, htype, hr⟩
    have hdispatch := Recorded.dispatch (w := (s.world, s.events)) hs insertFails junk e.id conn d.frame
    rw [← htype, ← hr, hfd] at hdispatch
    exact hdispatch
  | _ => exact hs

/--
On every run of a controller that starts without flows and links, a descriptor has flows exactly if a
HELLO was handled on it, all of them match port 1 only, and it has links exactly if an LLDP frame was
handled on it. Connections that are gone count as well.
-/
theorem switchState_of_reaches (insertFails : Nat → Bool)
    (junk : Connection → Frame → Services → Uninit) (s : Server Services W)
    (h : Reaches (Server.step (sbiEndpoint (services insertFails) junk)) (fun _ _ => True)
      { world := {} } s) (fd : Int32) :
    (s.world.flows.getFlows (dpidOf fd) = []
        ↔ ∀ h ∈ s.history.handled, h.fd = fd → h.frame.type ≠ .hello)
      ∧ (∀ inPort, s.world.flows.hasMatch (dpidOf fd) inPort = false
        ↔ inPort = 1 → ∀ h ∈ s.history.handled, h.fd = fd → h.frame.type ≠ .hello)
      ∧ ((∀ link ∈ s.world.topo.links, link.srcFd ≠ fd)
        ↔ ∀ h ∈ s.history.handled, h.fd = fd → ¬RecordsLink h.frame) := by
  have hrecorded : Recorded s.world s.history.handled := by
    refine h.invariant (fun s => Recorded s.world s.history.handled)
      (fun s action s' hs _ hstep => hs.step (Server.Step.of_step hstep).2) ?_
    exact ⟨by simp [FlowManager.getFlows], by simp [FlowManager.getFlows], by simp⟩
  have hflows : s.world.flows.getFlows (dpidOf fd) = []
      ↔ ∀ h ∈ s.history.handled, h.fd = fd → h.frame.type ≠ .hello := by
    rw [← List.length_eq_zero_iff, hrecorded.flows, List.countP_eq_zero]
    simp
  refine ⟨hflows, fun inPort => ?_, ?_⟩
  . rw [FlowManager.hasMatch_eq_any, ← hflows, List.any_eq_false]
    constructor
    . intro hany hport
      apply List.eq_nil_iff_forall_not_mem.mpr
      intro entry hentry
      have hdefault := (hrecorded.default fd entry hentry).1
      exact hany entry hentry (by simp [hdefault, hport])
    . intro hnil entry hentry hport
      have hdefault := (hrecorded.default fd entry hentry).1
      have hport : entry.inPort = inPort := by simpa using hport
      rw [hnil (by rw [← hport, hdefault])] at hentry
      contradiction
  . have hlinks := not_congr (hrecorded.links fd)
    simpa using hlinks

def reuseDescriptor : List (Action 1) :=
  serveFirst ++ [.send 5 [0x01, 0x00, 0x00, 0x08, 0x00, 0x00, 0x00, 0x01], .handleClient 0 8,
    .handleClient 0 0, .handleClient 0 0, .handleClient 0 0, .hangUp 5, .handleClient 0 0,
    .handleClient 0 0, .handleClient 0 0, .handleClient 0 0, .acceptLoop 0 0, .acceptLoop 0 5,
    .acceptLoop 0 0]

theorem switchState_of_reaches_reuseDescriptor :
    ∃ s : Server Services 1,
      run (Server.step (sbiEndpoint (services (fun _ => false)) (fun _ _ _ => ⟨0, 0, 0⟩)))
          (fun _ _ => true) { world := {} } reuseDescriptor = some s
        ∧ (∃ h ∈ s.history.handled, h.fd = 5 ∧ h.frame.type = .hello)
        ∧ s.world.flows.getFlows (dpidOf 5) ≠ [] := by
  obtain ⟨s, hs, hhello⟩ : ∃ s : Server Services 1,
      run (Server.step (sbiEndpoint (services (fun _ => false)) (fun _ _ _ => ⟨0, 0, 0⟩)))
          (fun _ _ => true) { world := {} } reuseDescriptor = some s
        ∧ ∃ h ∈ s.history.handled, h.fd = 5 ∧ h.frame.type = .hello :=
    ⟨_, rfl, by decide +kernel⟩
  have hreaches : Reaches (Server.step (sbiEndpoint (services (fun _ => false)) (fun _ _ _ => ⟨0, 0, 0⟩)))
      (fun _ _ => True) { world := {} } s :=
    (reaches_of_run hs).weaken (fun _ _ _ => trivial)
  refine ⟨s, hs, hhello, fun hnil => ?_⟩
  rcases hhello with ⟨h, hh, hfd, htype⟩
  exact (switchState_of_reaches _ _ s hreaches 5).1.mp hnil h hh hfd htype

/--
The new connection on descriptor 5 finds the flow of the old one.
-/
theorem flows_of_reuseDescriptor :
    ∃ s : Server Services 1,
      Reaches (Server.step (sbiEndpoint (services (fun _ => false)) (fun _ _ _ => ⟨0, 0, 0⟩)))
          (fun _ _ => True) { world := {} } s
        ∧ s.connections.lookup 5 = some ⟨1, { fd := 5 }⟩
        ∧ (∀ h ∈ s.history.handled, h.id ≠ 1)
        ∧ s.world.flows.getFlows (dpidOf 5) ≠ []
        ∧ s.world.flows.hasMatch (dpidOf 5) 1 = true := by
  obtain ⟨s, hs, hentry, hhandled, hflows, hmatch⟩ : ∃ s : Server Services 1,
      run (Server.step (sbiEndpoint (services (fun _ => false)) (fun _ _ _ => ⟨0, 0, 0⟩)))
          (fun _ _ => true) { world := {} } reuseDescriptor = some s
        ∧ s.connections.lookup 5 = some ⟨1, { fd := 5 }⟩
        ∧ (∀ h ∈ s.history.handled, h.id ≠ 1)
        ∧ s.world.flows.getFlows (dpidOf 5) ≠ []
        ∧ s.world.flows.hasMatch (dpidOf 5) 1 = true :=
    ⟨_, rfl, by decide +kernel, by decide +kernel, by decide +kernel, by decide +kernel⟩
  exact ⟨s, (reaches_of_run hs).weaken (fun _ _ _ => trivial), hentry, hhandled, hflows, hmatch⟩

end NetOrc
