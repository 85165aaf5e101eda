import NetOrc.OpenFlow.Conservation

/-!
This module lists the rounds of the `ingest` loop, one for each frame it carves, for handlers that may
do anything to the connection.
-/

namespace Oflib

open Framing

variable {σ τ : Type}

/--
A round of the `ingest` loop that carves a frame: the connection and the world at its start.
-/
structure Round (τ : Type) where
  conn : Connection
  world : τ
  frame : Frame

def Round.received (round : Round τ) : Connection :=
  advanceLifecycle { round.conn with inbuf := (nextFrame round.conn.inbuf {}).inbuf } round.frame.type

def Round.result (dispatch : PacketType → HandlerFn τ) (round : Round τ) : HandlerResult τ :=
  (dispatch round.frame.type).call round.received round.frame round.world

theorem Round.received_eq {conn : Connection} {f : Frame} {rest : Bytes}
    (hcarve : framer.carve conn.inbuf = .frame f rest) (w : τ) :
    (⟨conn, w, f⟩ : Round τ).received = ⟨conn.fd, conn.state.advance f.type, rest⟩ := by
  unfold received
  dsimp only
  rw [nextFrame_eq, hcarve, advanceLifecycle_eq]

namespace OpenFlowEndpoint

variable (ep : OpenFlowEndpoint σ) (dispatch : PacketType → HandlerFn τ)

def rounds (conn : Connection) (w : τ) : List (Round τ) :=
  match _hstep : ep.ingestStep dispatch conn w with
  | .ret _ _ =>
    let carved := nextFrame conn.inbuf {}
    if carved.status = .ok then [⟨conn, w, carved.out⟩] else []
  | .dispatched d r =>
    ⟨conn, w, d.frame⟩
      :: match r.fault with
        | some _ => []
        | none => rounds r.conn r.world
termination_by conn.inbuf.length
decreasing_by exact ingestStep_length_lt _hstep

def ingestRounds (conn : Connection) (data : Bytes) (w : τ) : List (Round τ) :=
  if data.length = 0 ∨ conn.fd < 0 then
    []
  else
    ep.rounds dispatch { conn with inbuf := conn.inbuf ++ data } w

variable {ep dispatch}

theorem rounds_of_ret {conn conn' : Connection} {w : τ} {verdict : Bool}
    (h : ep.ingestStep dispatch conn w = .ret verdict conn') :
    ep.rounds dispatch conn w
      =
    match framer.carve conn.inbuf with
    | .frame f _ => [⟨conn, w, f⟩]
    | _ => [] := by
  rw [rounds]
  split
  . rw [nextFrame_eq]
    cases framer.carve conn.inbuf with
    | more => rfl
    | bad => rfl
    | frame f rest => rfl
  . next h' => rw [h] at h'; contradiction

theorem rounds_of_dispatched {conn : Connection} {w : τ} {d : Dispatched} {r : HandlerResult τ}
    (h : ep.ingestStep dispatch conn w = .dispatched d r) :
    ep.rounds dispatch conn w
      =
    ⟨conn, w, d.frame⟩
      :: match r.fault with
        | some _ => []
        | none => ep.rounds dispatch r.conn r.world := by
  rw [rounds]
  split
  . next h' => rw [h] at h'; contradiction
  . next h' => rw [h] at h'; cases h'; rfl

theorem result_of_dispatched {conn : Connection} {w : τ} {d : Dispatched} {r : HandlerResult τ}
    (h : ep.ingestStep dispatch conn w = .dispatched d r) :
    (⟨conn, w, d.frame⟩ : Round τ).result dispatch = r := by
  rcases ingestStep_dispatched_eq h with ⟨rest, hcarve, _, _, rfl⟩
  unfold Round.result
  rw [Round.received_eq hcarve]

theorem rounds_rejected (ep : OpenFlowEndpoint σ) (dispatch : PacketType → HandlerFn τ)
    (conn : Connection) (w : τ) (log : List Dispatched) :
    ∀ round ∈ ep.rounds dispatch conn w, ¬ep.runValidator round.frame.type round.frame →
      (∃ init, ep.rounds dispatch conn w = init ++ [round])
        ∧ (ep.ingestLoop dispatch conn w log).verdict = .ok false
        ∧ (ep.ingestLoop dispatch conn w log).conn.state = round.conn.state := by
  induction conn, w using ingest_induction ep dispatch generalizing log with
  | ret conn w verdict conn' hstep =>
    intro round hround hvalid
    rw [ingestLoop_of_ret hstep]
    rw [rounds_of_ret hstep] at hround ⊢
    rcases ingestStep_ret_cases hstep with ⟨hcarve, _⟩ | ⟨hcarve, _⟩ | ⟨f, rest, hcarve, _, rfl, rfl⟩
    . simp [hcarve] at hround
    . simp [hcarve] at hround
    . simp only [hcarve, List.mem_singleton] at hround
      rw [hcarve, hround]
      exact ⟨⟨[], rfl⟩, rfl, rfl⟩
  | dispatched conn w d r hstep ih =>
    intro round hround hvalid
    rcases ingestStep_dispatched_eq hstep with ⟨_, _, hvalid', _⟩
    rw [ingestLoop_of_dispatched hstep]
    rw [rounds_of_dispatched hstep, List.mem_cons] at hround
    rw [rounds_of_dispatched hstep]
    rcases hround with rfl | hround
    . contradiction
    . cases hfault : r.fault with
      | some e => simp [hfault] at hround
      | none =>
        simp only [hfault] at hround ⊢
        rcases ih hfault (log ++ [d]) round hround hvalid with ⟨⟨init, hinit⟩, hrest⟩
        exact ⟨⟨_ :: init, by rw [hinit]; rfl⟩, hrest⟩

theorem rounds_frames (ep : OpenFlowEndpoint σ) (hkeep : KeepsBuffer dispatch) (conn : Connection)
    (w : τ) (log : List Dispatched) {v : Bool}
    (hv : (ep.ingestLoop dispatch conn w log).verdict = .ok v) :
    (ep.rounds dispatch conn w).map Round.frame <+: (framer.split conn.inbuf).1
      ∧ ((ep.rounds dispatch conn w).map Round.frame = (framer.split conn.inbuf).1
        ∨ ∃ round ∈ ep.rounds dispatch conn w, ¬ep.runValidator round.frame.type round.frame) := by
  induction conn, w using ingest_induction ep dispatch generalizing log with
  | ret conn w verdict conn' hstep =>
    rw [rounds_of_ret hstep]
    rcases ingestStep_ret_cases hstep with ⟨hcarve, _⟩ | ⟨hcarve, _⟩ | ⟨f, rest, hcarve, hvalid, _⟩
    . simp [hcarve, Decoder.split_of_more hcarve]
    . simp [hcarve, Decoder.split_of_bad hcarve]
    . simp [hcarve, Decoder.split_of_frame hcarve, hvalid]
  | dispatched conn w d r hstep ih =>
    rw [ingestLoop_of_dispatched hstep] at hv
    cases hfault : r.fault with
    | some e => rw [hfault] at hv; contradiction
    | none =>
      simp only [hfault] at hv
      rcases ih hfault (log ++ [d]) hv with ⟨hpre, hall⟩
      rw [rounds_of_dispatched hstep, hfault,
        Decoder.split_of_frame (ingestStep_dispatched_inbuf hkeep hstep)]
      simp only [List.map_cons, List.cons_prefix_cons, true_and, List.cons.injEq, List.mem_cons,
        exists_eq_or_imp]
      exact ⟨hpre, hall.imp_right .inr⟩

end OpenFlowEndpoint

end Oflib
