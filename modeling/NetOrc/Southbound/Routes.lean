import NetOrc.OpenFlow.Routing
import NetOrc.Southbound.PacketHandlers

/-!
This module compares the table `getPacketHandlers` with the routes that `setupProtocolEvents` registers:
FLOW_MOD has a handler and a validator, but no route.
-/

namespace NetOrc

open Framing
open Oflib
open Oflib.OpenFlowEndpoint

variable {σ : Type}

theorem getPacketHandlers_key {type : PacketType} {handler : PacketHandler σ}
    (h : getPacketHandlers type = some handler) :
    type = .hello ∨ type = .packetIn ∨ type = .flowMod := by
  unfold getPacketHandlers at h
  split at h
  . next htype => exact .inl htype
  . split at h
    . next htype => exact .inr (.inl htype)
    . split at h
      . next htype => exact .inr (.inr htype)
      . contradiction

theorem callPacketHandler_call {svc : ServiceTable σ} {junk : Connection → Frame → σ → Uninit}
    {type : PacketType} {handler : PacketHandler σ} (h : getPacketHandlers type = some handler)
    (conn : Connection) (frame : Frame) (w : σ) :
    (callPacketHandler svc junk type).call conn frame w
      =
    let r := handler conn.fd frame.body svc (junk conn frame w) w
    ⟨conn, r.1, r.2⟩ := by
  simp only [callPacketHandler, h]

def sbiIngestRecorded (svc : ServiceTable σ) (junk : Connection → Frame → σ → Uninit)
    (conn : Connection) (data : Bytes) (w : σ) (events : List Event) :
    IngestResult ((σ × List (Invocation σ)) × List Event) :=
  let ep := (sbiEndpoint svc junk).recorded
  ep.ingestWith (serverDispatch ep) conn data ((w, []), events)

theorem invocation_of_route (ep : OpenFlowEndpoint σ) (f : Frame) (conn : Connection) :
    let now : List (Invocation σ) := ((ep.route f.type f).map (⟨·, conn, f⟩)).toList
    (now.map Invocation.frame).Sublist [f]
      ∧ ∀ inv ∈ now, ep.route inv.frame.type inv.frame = some inv.handler := by
  cases hroute : ep.route f.type f with
  | none => simp
  | some handler => simp [hroute]

theorem recorded_ingestLoop_later {ep : OpenFlowEndpoint σ}
    (hkeep : KeepsConnection (serverDispatch ep.recorded)) (conn : Connection)
    (w : (σ × List (Invocation σ)) × List Event) (log : List Dispatched) :
    ∃ later, (ep.recorded.ingestLoop (serverDispatch ep.recorded) conn w log).world.1.2
        = w.1.2 ++ later
      ∧ (later.map Invocation.frame).Sublist (framer.split conn.inbuf).1
      ∧ ∀ inv ∈ later, ep.route inv.frame.type inv.frame = some inv.handler := by
  induction conn, w using ingest_induction ep.recorded (serverDispatch ep.recorded)
    generalizing log with
  | ret conn w verdict conn' hstep =>
    rw [ingestLoop_of_ret hstep]
    exact ⟨[], by simp⟩
  | dispatched conn w d r hstep ih =>
    rcases ingestStep_dispatched_eq hstep with ⟨rest, hcarve, _, _, hr⟩
    have hinbuf : r.conn.inbuf = rest := by rw [hr, hkeep]
    obtain ⟨now, hworld, hnow, hroutes⟩ : ∃ now : List (Invocation σ),
        r.world.1.2 = w.1.2 ++ now ∧ (now.map Invocation.frame).Sublist [d.frame]
          ∧ ∀ inv ∈ now, ep.route inv.frame.type inv.frame = some inv.handler := by
      rw [hr, serverDispatch_world, recorded_dispatch]
      exact ⟨_, rfl, invocation_of_route ep d.frame _⟩
    rw [ingestLoop_of_dispatched hstep, Decoder.split_of_frame hcarve]
    cases hfault : r.fault with
    -- A handler that throws ends the loop.
    | some e => exact ⟨now, hworld, hnow.trans (by simp), hroutes⟩
    | none =>
      rcases ih hfault (log ++ [d]) with ⟨later, hlater, hframes, hlaterRoutes⟩
      rw [hinbuf] at hframes
      refine ⟨now ++ later, by rw [hlater, hworld, List.append_assoc], ?_, ?_⟩
      . rw [List.map_append]
        exact hnow.append hframes
      . intro inv hinv
        rcases List.mem_append.mp hinv with hinv | hinv
        . exact hroutes inv hinv
        . exact hlaterRoutes inv hinv

theorem sbiIngestRecorded_eq (svc : ServiceTable σ) (junk : Connection → Frame → σ → Uninit)
    {conn : Connection} (hfd : 0 ≤ conn.fd) {data : Bytes} (hdata : data ≠ []) {f : Frame}
    (hf : f.WellFormed) {rest : Bytes} (hstream : conn.inbuf ++ data = encodeFrame f ++ rest)
    (hvalid : (sbiEndpoint svc junk).runValidator f.type f) (w : σ) (events : List Event) :
    ∃ later, (sbiIngestRecorded svc junk conn data w events).world.1.2
        = (((sbiEndpoint svc junk).route f.type f).map
            (⟨·, ⟨conn.fd, conn.state.advance f.type, rest⟩, f⟩)).toList ++ later
      ∧ (later.map Invocation.frame).Sublist (framer.split rest).1
      ∧ ∀ inv ∈ later, (sbiEndpoint svc junk).route inv.frame.type inv.frame = some inv.handler := by
  have hstep := (sbiEndpoint svc junk).recorded.ingestStep_eq
    (serverDispatch (sbiEndpoint svc junk).recorded) { conn with inbuf := conn.inbuf ++ data }
    ((w, []), events)
  have hcarve : framer.carve (conn.inbuf ++ data) = .frame f rest := by
    rw [hstream]
    exact carveFrame_encodeFrame hf rest
  simp only [hcarve, recorded_runValidator, hvalid, if_true] at hstep
  have hkeep : KeepsConnection (serverDispatch (sbiEndpoint svc junk).recorded) := by
    apply serverDispatch_keepsConnection
    intro type conn frame w
    rw [recorded_dispatch]
    exact sbiEndpoint_keepsConnection svc junk type conn frame w.1
  unfold sbiIngestRecorded
  rw [ingestWith_eq_ingestLoop _ _ hfd hdata, ingestLoop_of_dispatched hstep]
  generalize hr : (serverDispatch (sbiEndpoint svc junk).recorded f.type).call _ f _ = r
  have hconn : r.conn.inbuf = rest := by rw [← hr, hkeep]
  have hworld : r.world.1.2 = (((sbiEndpoint svc junk).route f.type f).map
      (⟨·, ⟨conn.fd, conn.state.advance f.type, rest⟩, f⟩)).toList := by
    rw [← hr, serverDispatch_world, recorded_dispatch]
    simp
  cases r.fault with
  | some e => exact ⟨[], by simp [hworld]⟩
  | none =>
    rcases recorded_ingestLoop_later hkeep r.conn r.world
      ([] ++ [⟨f.type, f, conn.state.advance f.type⟩]) with ⟨later, hlater, hframes, hroutes⟩
    rw [hconn] at hframes
    rw [hworld] at hlater
    exact ⟨later, hlater, hframes, hroutes⟩

/--
A frame whose type has a handler in the table, and whose body its validator accepts, is handed to exactly
this handler, exactly if it is not a FLOW_MOD. Every later invocation is for a frame behind it.
-/
theorem sbiIngestRecorded_routes_iff (svc : ServiceTable σ)
    (junk : Connection → Frame → σ → Uninit) (conn : Connection) (hfd : 0 ≤ conn.fd) (data : Bytes)
    (hdata : data ≠ []) (f : Frame) (hf : f.WellFormed) (rest : Bytes)
    (hstream : conn.inbuf ++ data = encodeFrame f ++ rest)
    (handler : PacketHandler σ) (hkey : getPacketHandlers f.type = some handler)
    (hvalid : (sbiEndpoint svc junk).runValidator f.type f) (w : σ) (events : List Event) :
    (∃ (inv : Invocation σ) (later : List (Invocation σ)),
        (sbiIngestRecorded svc junk conn data w events).world.1.2 = inv :: later
          ∧ inv.frame = f
          ∧ (∀ w', inv.handler.call inv.conn inv.frame w'
            = let r := handler conn.fd f.body svc (junk inv.conn f w') w'
              ⟨inv.conn, r.1, r.2⟩)
          ∧ (later.map Invocation.frame).Sublist (framer.split rest).1)
      ↔
    f.type ≠ .flowMod := by
  rcases sbiIngestRecorded_eq svc junk hfd hdata hf hstream hvalid w events with
    ⟨later, heq, hlater, hroutes⟩
  rw [heq]
  have hinvoked (hroute : (sbiEndpoint svc junk).route f.type f
      = some (callPacketHandler svc junk f.type)) :
      ∃ (inv : Invocation σ) (more : List (Invocation σ)),
        (((sbiEndpoint svc junk).route f.type f).map
            (⟨·, ⟨conn.fd, conn.state.advance f.type, rest⟩, f⟩)).toList ++ later = inv :: more
          ∧ inv.frame = f
          ∧ (∀ w', inv.handler.call inv.conn inv.frame w'
            = let r := handler conn.fd f.body svc (junk inv.conn f w') w'
              ⟨inv.conn, r.1, r.2⟩)
          ∧ (more.map Invocation.frame).Sublist (framer.split rest).1 := by
    rw [hroute]
    exact ⟨_, later, rfl, rfl, fun w' => callPacketHandler_call hkey _ f w', hlater⟩
  rcases getPacketHandlers_key hkey with htype | htype | htype
  . have hroute := sbiEndpoint_route svc junk f.type f
    rw [if_pos htype, ← htype] at hroute
    exact iff_of_true (hinvoked hroute) (by rw [htype]; decide)
  . have hroute := sbiEndpoint_route svc junk f.type f
    rw [if_neg (by rw [htype]; decide), if_pos htype, ← htype] at hroute
    exact iff_of_true (hinvoked hroute) (by rw [htype]; decide)
  . -- A FLOW_MOD has no route, so no invocation is for it, neither here nor later.
    have hroute : (sbiEndpoint svc junk).route f.type f = none := by
      rw [sbiEndpoint_route, htype, if_neg (by decide), if_neg (by decide), if_neg (by decide)]
    refine iff_of_false ?_ (fun h => h htype)
    rintro ⟨inv, more, hcons, hframe, _⟩
    rw [hroute] at hcons
    have hinv : inv ∈ later := by
      rw [Option.map_none, Option.toList_none, List.nil_append] at hcons
      rw [hcons]
      exact List.mem_cons_self
    have hsome := hroutes inv hinv
    rw [hframe, hroute] at hsome
    contradiction

theorem sbiIngestRecorded_routes_hello :
    ∃ (inv : Invocation Services) (later : List (Invocation Services)),
      (sbiIngestRecorded (services (fun _ => false)) (fun _ _ _ => ⟨0, 0, 0⟩)
          { fd := 7, state := .active, inbuf := [0x01, 0x00, 0x00] }
          [0x08, 0x00, 0x00, 0x00, 0x01, 0x01, 0x00, 0x00, 0x08, 0x00, 0x00, 0x00, 0x02]
          {} []).world.1.2 = inv :: later
        ∧ inv.frame = ⟨⟨0x01, 0x00, 8, 1⟩, []⟩
        ∧ (∀ w', inv.handler.call inv.conn inv.frame w'
            = let r := PacketHandlers.hello 7 [] (services (fun _ => false)) ⟨0, 0, 0⟩ w'
              ⟨inv.conn, r.1, r.2⟩)
        ∧ (later.map Invocation.frame).Sublist
            (framer.split [0x01, 0x00, 0x00, 0x08, 0x00, 0x00, 0x00, 0x02]).1 :=
  (sbiIngestRecorded_routes_iff (services (fun _ => false)) (fun _ _ _ => ⟨0, 0, 0⟩) _ (by decide) _
    (by decide) ⟨⟨0x01, 0x00, 8, 1⟩, []⟩ (by decide)
    [0x01, 0x00, 0x00, 0x08, 0x00, 0x00, 0x00, 0x02] (by decide) PacketHandlers.hello rfl (by decide)
    {} []).mpr (by decide)

/--
A FLOW_MOD with a body of 72 zero bytes: it has a handler and its validator accepts it, but no handler is
invoked and no flow is added.
-/
theorem sbiIngestRecorded_ignores_flowMod :
    let svc := services (fun _ => false)
    let junk : Connection → Frame → Services → Uninit := fun _ _ _ => ⟨0, 0, 0⟩
    let f : Frame := ⟨⟨0x01, 0x0E, 80, 1⟩, List.replicate 72 0⟩
    let r := sbiIngestRecorded svc junk { fd := 7 } (encodeFrame f) {} []
    (getPacketHandlers (σ := Services) f.type).isSome ∧ (sbiEndpoint svc junk).runValidator f.type f
      ∧ r.verdict = .ok true ∧ r.dispatched = [⟨.flowMod, f, .connected⟩]
      ∧ r.world.1.2.length = 0 ∧ r.world.1.1.flows.getFlows (dpidOf 7) = [] := by
  decide +kernel

end NetOrc
