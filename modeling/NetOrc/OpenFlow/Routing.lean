import Mathlib.Data.List.Induction
import NetOrc.OpenFlow.Rounds

/-!
This module shows which handlers `ingest` invokes, for endpoints built by any sequence of registrations
and for handlers that may do anything.
-/

namespace Oflib

open Framing

variable {σ τ : Type}

inductive Registration (σ : Type) where
  | on (type : PacketType) (handler : HandlerFn σ) (f : FilterFn)
  | validate (type : PacketType) (validator : ValidatorFn)

def OpenFlowEndpoint.register (ep : OpenFlowEndpoint σ) (reg : Registration σ) : OpenFlowEndpoint σ :=
  match reg with
  | .on type handler f => ep.on type handler f
  | .validate type validator => ep.validate type validator

def OpenFlowEndpoint.build (regs : List (Registration σ)) : OpenFlowEndpoint σ :=
  regs.foldl OpenFlowEndpoint.register {}

namespace Registration

def validatorFor (type : PacketType) (reg : Registration σ) : Option ValidatorFn :=
  match reg with
  | .validate type' validator => if type' = type then some validator else none
  | .on .. => none

def handlerFor (type : PacketType) (reg : Registration σ) : Option (FilteredHandler σ) :=
  match reg with
  | .on type' handler f => if type' = type then some ⟨f, handler⟩ else none
  | .validate .. => none

def accepts (regs : List (Registration σ)) (frame : Frame) : Bool :=
  match (regs.filterMap (validatorFor frame.type)).getLast? with
  | none => true
  | some validator => validator frame.body

def firstHandler (regs : List (Registration σ)) (frame : Frame) : Option (HandlerFn σ) :=
  ((regs.filterMap (handlerFor frame.type)).find? (fun entry => entry.filter frame)).map
    FilteredHandler.handler

end Registration

namespace OpenFlowEndpoint

theorem build_append (regs : List (Registration σ)) (reg : Registration σ) :
    build (regs ++ [reg]) = (build regs).register reg := by
  simp [build]

theorem build_validators (regs : List (Registration σ)) (type : PacketType) :
    (build regs).validators type = (regs.filterMap (Registration.validatorFor type)).getLast? := by
  induction regs using List.reverseRecOn with
  | nil => rfl
  | append_singleton regs reg ih =>
    rw [build_append, List.filterMap_append]
    cases reg with
    | on type' handler f => simpa [register, on, Registration.validatorFor] using ih
    | validate type' validator =>
      by_cases htype : type' = type
      . subst htype
        simp [register, validate, Registration.validatorFor]
      . simpa [register, validate, Registration.validatorFor, htype, Function.update_of_ne (Ne.symm htype)]
          using ih

theorem build_handlers (regs : List (Registration σ)) (type : PacketType) :
    (build regs).handlers type = regs.filterMap (Registration.handlerFor type) := by
  induction regs using List.reverseRecOn with
  | nil => rfl
  | append_singleton regs reg ih =>
    rw [build_append, List.filterMap_append, ← ih]
    cases reg with
    | on type' handler f =>
      by_cases htype : type' = type
      . subst htype
        simp [register, on, Registration.handlerFor]
      . simp [register, on, Registration.handlerFor, htype, Function.update_of_ne (Ne.symm htype)]
    | validate type' validator => simp [register, validate, Registration.handlerFor]

theorem build_runValidator (regs : List (Registration σ)) (frame : Frame) :
    (build regs).runValidator frame.type frame = Registration.accepts regs frame := by
  have hlast := build_validators regs frame.type
  unfold runValidator Registration.accepts
  cases h : (regs.filterMap (Registration.validatorFor frame.type)).getLast? with
  | none => simp only [hlast, h]
  | some validator => simp only [hlast, h]

theorem build_route (regs : List (Registration σ)) (frame : Frame) :
    (build regs).route frame.type frame = Registration.firstHandler regs frame := by
  rw [route, build_handlers, Registration.firstHandler]

end OpenFlowEndpoint

/-! Endpoints whose handlers record their invocations. -/

structure Invocation (σ : Type) where
  handler : HandlerFn σ
  conn : Connection
  frame : Frame

def HandlerFn.recorded (handler : HandlerFn σ) : HandlerFn (σ × List (Invocation σ)) where
  call conn frame w :=
    let r := handler.call conn frame w.1
    ⟨r.conn, (r.world, w.2 ++ [⟨handler, conn, frame⟩]), r.fault⟩
  length_le conn frame w := handler.length_le conn frame w.1

namespace OpenFlowEndpoint

def recorded (ep : OpenFlowEndpoint σ) : OpenFlowEndpoint (σ × List (Invocation σ)) where
  validators := ep.validators
  handlers type := (ep.handlers type).map (fun entry => ⟨entry.filter, entry.handler.recorded⟩)

theorem recorded_runValidator (ep : OpenFlowEndpoint σ) (type : PacketType) (frame : Frame) :
    ep.recorded.runValidator type frame = ep.runValidator type frame := rfl

theorem recorded_route (ep : OpenFlowEndpoint σ) (type : PacketType) (frame : Frame) :
    ep.recorded.route type frame = (ep.route type frame).map HandlerFn.recorded := by
  unfold route recorded
  dsimp only
  rw [List.find?_map, Option.map_map, Option.map_map]
  rfl

theorem recorded_dispatch (ep : OpenFlowEndpoint σ) (type : PacketType) (conn : Connection)
    (frame : Frame) (w : σ) (log : List (Invocation σ)) :
    (ep.recorded.dispatch type).call conn frame (w, log)
      =
    let r := (ep.dispatch type).call conn frame w
    ⟨r.conn, (r.world, log ++ ((ep.route type frame).map (⟨·, conn, frame⟩)).toList), r.fault⟩ := by
  unfold dispatch
  dsimp only
  rw [recorded_route]
  cases ep.route type frame with
  | none => simp
  | some handler => rfl

theorem recorded_ingestStep (ep : OpenFlowEndpoint σ) (conn : Connection) (w : σ)
    (log : List (Invocation σ)) :
    ep.recorded.ingestStep ep.recorded.dispatch conn (w, log)
      =
    match ep.ingestStep ep.dispatch conn w with
    | .ret verdict conn => .ret verdict conn
    | .dispatched d r => .dispatched d ⟨r.conn, (r.world, log ++ ((ep.route d.frame.type d.frame).map
        (⟨·, (⟨conn, w, d.frame⟩ : Round σ).received, d.frame⟩)).toList), r.fault⟩ := by
  rw [ingestStep_eq, ingestStep_eq]
  cases hcarve : framer.carve conn.inbuf with
  | more => rfl
  | bad => rfl
  | frame f rest =>
    by_cases hvalid : ep.runValidator f.type f
    . simp only [recorded_runValidator, hvalid, if_true, recorded_dispatch, Round.received_eq hcarve]
    . simp only [recorded_runValidator, hvalid, if_false, Bool.false_eq_true]

def invocations (ep : OpenFlowEndpoint σ) (rounds : List (Round σ)) : List (Invocation σ) :=
  (rounds.takeWhile (fun round => ep.runValidator round.frame.type round.frame)).filterMap
    (fun round => (ep.route round.frame.type round.frame).map (⟨·, round.received, round.frame⟩))

theorem invocations_cons (ep : OpenFlowEndpoint σ) {round : Round σ}
    (hvalid : ep.runValidator round.frame.type round.frame) (rounds : List (Round σ)) :
    ep.invocations (round :: rounds)
      =
    ((ep.route round.frame.type round.frame).map (⟨·, round.received, round.frame⟩)).toList
      ++ ep.invocations rounds := by
  unfold invocations
  rw [List.takeWhile_cons, if_pos hvalid, List.filterMap_cons]
  cases ep.route round.frame.type round.frame with
  | none => rfl
  | some handler => rfl

theorem recorded_ingestLoop (ep : OpenFlowEndpoint σ) (conn : Connection) (w : σ)
    (log : List (Invocation σ)) (dispatched : List Dispatched) :
    ep.recorded.ingestLoop ep.recorded.dispatch conn (w, log) dispatched
      =
    let r := ep.ingestLoop ep.dispatch conn w dispatched
    ⟨r.verdict, r.conn, (r.world, log ++ ep.invocations (ep.rounds ep.dispatch conn w)),
      r.dispatched⟩ := by
  induction conn, w using ingest_induction ep ep.dispatch generalizing log dispatched with
  | ret conn w verdict conn' hstep =>
    have hstep' := ep.recorded_ingestStep conn w log
    rw [hstep] at hstep'
    rw [ingestLoop_of_ret hstep, ingestLoop_of_ret hstep', rounds_of_ret hstep]
    rcases ingestStep_ret_cases hstep with ⟨hcarve, _⟩ | ⟨hcarve, _⟩ | ⟨f, rest, hcarve, hvalid, _⟩
    . simp [hcarve, invocations]
    . simp [hcarve, invocations]
    . simp [hcarve, invocations, hvalid]
  | dispatched conn w d r hstep ih =>
    have hstep' := ep.recorded_ingestStep conn w log
    rw [hstep] at hstep'
    rcases ingestStep_dispatched_eq hstep with ⟨_, _, hvalid, _⟩
    rw [ingestLoop_of_dispatched hstep, ingestLoop_of_dispatched hstep', rounds_of_dispatched hstep]
    rw [invocations_cons ep hvalid]
    cases hfault : r.fault with
    | some e => simp [invocations]
    | none => simp only [ih hfault, List.append_assoc]

theorem recorded_ingest (ep : OpenFlowEndpoint σ) (conn : Connection) (data : Bytes) (w : σ) :
    ep.recorded.ingest conn data (w, [])
      =
    let r := ep.ingest conn data w
    ⟨r.verdict, r.conn, (r.world, ep.invocations (ep.ingestRounds ep.dispatch conn data w)),
      r.dispatched⟩ := by
  unfold ingest ingestWith ingestRounds
  split
  . rfl
  . rw [recorded_ingestLoop]
    rfl

theorem map_invocations_build (regs : List (Registration σ)) (rounds : List (Round σ)) :
    ((build regs).invocations rounds).map (fun inv => (inv.frame, inv.handler))
      =
    ((rounds.map Round.frame).takeWhile (Registration.accepts regs)).filterMap
      (fun f => (Registration.firstHandler regs f).map (f, ·)) := by
  unfold invocations
  simp only [build_runValidator, build_route]
  rw [List.map_filterMap, List.takeWhile_map, List.filterMap_map]
  simp only [Option.map_map]
  rfl

end OpenFlowEndpoint

open OpenFlowEndpoint

/--
For each carved frame up to the first one that is rejected, `ingest` invokes the first handler whose
filter accepts the frame, once. A rejected frame is the last one: nothing is invoked for it, the session
state stays and `ingest` returns `false`. Handlers that leave the buffer alone see the frames of the
stream.
-/
theorem ingest_routes (regs : List (Registration σ)) (conn : Connection) (data : Bytes) (w : σ) :
    let ep := build regs
    let rounds := ep.ingestRounds ep.dispatch conn data w
    let frames := rounds.map Round.frame
    let r := ep.ingest conn data w
    (ep.recorded.ingest conn data (w, [])).world.2.map (fun inv => (inv.frame, inv.handler))
        = (frames.takeWhile (Registration.accepts regs)).filterMap
            (fun f => (Registration.firstHandler regs f).map (f, ·))
      ∧ (∀ round ∈ rounds, ¬Registration.accepts regs round.frame →
          (∃ init, rounds = init ++ [round]) ∧ r.verdict = .ok false
            ∧ r.conn.state = round.conn.state)
      ∧ (KeepsBuffer ep.dispatch → 0 ≤ conn.fd → data ≠ [] → (∃ v, r.verdict = .ok v) →
          frames <+: (framer.split (conn.inbuf ++ data)).1
            ∧ (frames = (framer.split (conn.inbuf ++ data)).1
              ∨ ∃ f ∈ frames, ¬Registration.accepts regs f)) := by
  intro ep rounds frames r
  refine ⟨?_, ?_, ?_⟩
  . rw [recorded_ingest]
    exact map_invocations_build regs rounds
  . intro round hround hrejected
    rw [← build_runValidator] at hrejected
    unfold rounds ingestRounds at hround
    unfold rounds r ingestRounds ingest ingestWith
    split at hround
    . simp at hround
    . next hopen =>
      rw [if_neg hopen, if_neg hopen]
      exact rounds_rejected ep ep.dispatch _ w [] round hround hrejected
  . rintro hkeep hfd hdata ⟨v, hv⟩
    have hopen : ¬(data.length = 0 ∨ conn.fd < 0) := by
      simp [hdata, Int32.not_lt.mpr hfd]
    unfold r ingest ingestWith at hv
    unfold frames rounds ingestRounds
    rw [if_neg hopen] at hv ⊢
    rcases rounds_frames ep hkeep _ w [] hv with ⟨hpre, hall⟩
    refine ⟨hpre, hall.imp_right ?_⟩
    rintro ⟨round, hround, hrejected⟩
    rw [build_runValidator] at hrejected
    exact ⟨round.frame, List.mem_map_of_mem hround, hrejected⟩

end Oflib
