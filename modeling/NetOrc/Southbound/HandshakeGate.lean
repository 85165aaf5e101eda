import NetOrc.OpenFlow.Handshake
import NetOrc.Southbound.Safety

/-!
This module shows on which streams the controller handles PACKET_IN and FLOW_REMOVED only after the
handshake: `dispatch` does not look at the session state, so the peer decides.
-/

namespace NetOrc

open Framing
open Oflib

variable {σ : Type}

/--
A message outside of the handshake for which a handler is registered.
-/
def generalTraffic (ep : OpenFlowEndpoint σ) (type : PacketType) (frame : Frame) : Bool :=
  (ep.route type frame).isSome && !type.isHandshake

theorem generalTraffic_sbiEndpoint (svc : ServiceTable σ) (junk : Connection → Frame → σ → Uninit)
    (type : PacketType) (frame : Frame) :
    generalTraffic (sbiEndpoint svc junk) type frame
      =
    decide (type = .packetIn ∨ type = .flowRemoved) := by
  unfold generalTraffic
  rw [sbiEndpoint_route]
  by_cases hhello : type = .hello
  . subst hhello; rfl
  . by_cases hpacketIn : type = .packetIn
    . subst hpacketIn; rfl
    . by_cases hflowRemoved : type = .flowRemoved
      . subst hflowRemoved; rfl
      . simp [hhello, hpacketIn, hflowRemoved]

/--
For every stream of a new connection, in any chunking: PACKET_IN and FLOW_REMOVED are only handled
after a HELLO and a later FEATURES message exactly if, among the frames before the first rejected one,
a HELLO and a later FEATURES message come before the first PACKET_IN or FLOW_REMOVED.
-/
theorem sbiIngestChunks_handshakeGate_iff (svc : ServiceTable σ)
    (junk : Connection → Frame → σ → Uninit) (fd : Int32) (hfd : 0 ≤ fd) (chunks : List Bytes)
    (hne : ∀ c ∈ chunks, c ≠ []) (w : σ × List Event) :
    HandshakeGate (generalTraffic (sbiEndpoint svc junk))
        (sbiIngestChunks svc junk { fd := fd } chunks w).dispatched
      ↔
    StartsWithHandshake (fun type _ => type = .packetIn ∨ type = .flowRemoved)
      ((framer.split chunks.flatten).1.takeWhile
        (fun f => (sbiEndpoint svc junk).runValidator f.type f)) := by
  have h := sbiIngestChunks_describes svc junk { fd := fd } hfd framer_carve_nil hne w
  have hfault : ∀ f : Frame, lldpFault f.type f ≠ none →
      (fun (type : PacketType) (_ : Frame) =>
        decide (type = .packetIn ∨ type = .flowRemoved)) f.type f := by
    intro f hf
    unfold lldpFault at hf
    split at hf
    . next hlldp => simp [hlldp.1]
    . contradiction
  have hgeneral : generalTraffic (sbiEndpoint svc junk)
      = fun type _ => decide (type = .packetIn ∨ type = .flowRemoved) := by
    funext type frame
    exact generalTraffic_sbiEndpoint svc junk type frame
  rw [h.eqs.2.2, drain_log, hgeneral]
  exact handshakeGate_dispatches_iff hfault _

theorem sbiIngestChunks_handshakeGate_hello_features_packetIn :
    HandshakeGate (generalTraffic (sbiEndpoint (services (fun _ => false)) (fun _ _ _ => ⟨0, 0, 0⟩)))
      (sbiIngestChunks (services (fun _ => false)) (fun _ _ _ => ⟨0, 0, 0⟩) { fd := 7 }
        [[0x01, 0x00, 0x00, 0x08, 0x00, 0x00, 0x00, 0x01, 0x01, 0x06],
          [0x00, 0x08, 0x00, 0x00, 0x00, 0x02,
            0x01, 0x0A, 0x00, 0x14, 0x00, 0x00, 0x00, 0x03,
            0xFF, 0xFF, 0xFF, 0xFF, 0x00, 0x02, 0x00, 0x01, 0x00, 0x00, 0x45, 0x00]]
        ({}, [])).dispatched :=
  (sbiIngestChunks_handshakeGate_iff _ _ 7 (by decide) _ (by decide) _).mpr (by decide +kernel)

/--
A PACKET_IN as the first message: it is handled in the state CONNECTED and adds a link.
-/
theorem sbiIngestChunks_packetIn_connected :
    let r := sbiIngestChunks (services (fun _ => false)) (fun _ _ _ => ⟨0, 0, 0⟩) { fd := 7 }
      [[0x01, 0x0A, 0x00, 0x20, 0x00, 0x00, 0x00, 0x01,
        0xFF, 0xFF, 0xFF, 0xFF, 0x00, 0x0E, 0x00, 0x01, 0x00, 0x00,
        0x00, 0x00, 0x88, 0xCC, 0x02, 0x02, 0x04, 0x41, 0x04, 0x02, 0x05, 0x42, 0x00, 0x00]] ({}, [])
    r.dispatched.map (fun d => (d.type, d.state)) = [(.packetIn, .connected)]
      ∧ r.world.1.topo.links = [⟨7, mockPort, [0x41], [0x42]⟩]
      ∧ ¬HandshakeGate
          (generalTraffic (sbiEndpoint (services (fun _ => false)) (fun _ _ _ => ⟨0, 0, 0⟩)))
          r.dispatched := by
  intro r
  have hdispatched : r.dispatched.map (fun d => (d.type, d.state)) = [(.packetIn, .connected)] := by
    decide +kernel
  refine ⟨hdispatched, by decide +kernel, fun hgate => ?_⟩
  obtain ⟨d, hd⟩ : ∃ d, r.dispatched = [d] := by
    rw [← List.length_eq_one_iff, ← List.length_map (fun d : Dispatched => (d.type, d.state)),
      hdispatched]
    rfl
  rw [hd] at hdispatched hgate
  simp only [List.map_cons, List.map_nil, List.cons.injEq, Prod.mk.injEq, and_true] at hdispatched
  have hactive := (hgate [] d [] rfl (by rw [generalTraffic_sbiEndpoint, hdispatched.1]; decide)).2
  rw [hdispatched.2] at hactive
  contradiction

end NetOrc
