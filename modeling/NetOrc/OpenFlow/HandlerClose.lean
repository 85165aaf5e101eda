import NetOrc.OpenFlow.Rounds

/-!
This module shows what `ingest` does after a handler has closed the connection: it goes on with the frames
that are in the buffer already.
-/

namespace Oflib

open Framing

variable {σ τ : Type}

namespace OpenFlowEndpoint

variable {ep : OpenFlowEndpoint σ} {dispatch : PacketType → HandlerFn τ}

/--
Every frame is carved, and so validated and dispatched, on an open connection, and a call that leaves the
connection closed returns `false`.
-/
def QuietAfterClose (rounds : List (Round τ)) (r : IngestResult τ) : Prop :=
  (∀ round ∈ rounds, 0 ≤ round.conn.fd) ∧ (r.conn.fd < 0 → r.verdict = .ok false)

/--
When the handler of a frame closes the connection, it returns, and the framer refuses the bytes behind
the frame.
-/
def RefusesAfterClose (ep : OpenFlowEndpoint σ) (dispatch : PacketType → HandlerFn τ)
    (rounds : List (Round τ)) : Prop :=
  ∀ round ∈ rounds, 0 ≤ round.conn.fd → ep.runValidator round.frame.type round.frame →
    (round.result dispatch).conn.fd < 0 →
      (round.result dispatch).fault = none ∧ framer.carve (round.result dispatch).conn.inbuf = .bad

theorem refusesAfterClose_cons (round : Round τ) {rounds : List (Round τ)} (hfd : 0 ≤ round.conn.fd)
    (hvalid : ep.runValidator round.frame.type round.frame) :
    ep.RefusesAfterClose dispatch (round :: rounds)
      ↔
    ((round.result dispatch).conn.fd < 0 →
        (round.result dispatch).fault = none
          ∧ framer.carve (round.result dispatch).conn.inbuf = .bad)
      ∧ ep.RefusesAfterClose dispatch rounds := by
  unfold RefusesAfterClose
  rw [List.forall_mem_cons]
  simp only [hfd, hvalid, forall_const]

theorem rounds_ne_nil_of_frame (ep : OpenFlowEndpoint σ) (dispatch : PacketType → HandlerFn τ)
    {conn : Connection} (w : τ) {f : Frame} {rest : Bytes}
    (hcarve : framer.carve conn.inbuf = .frame f rest) :
    ∃ round ∈ ep.rounds dispatch conn w, round.conn = conn := by
  cases hstep : ep.ingestStep dispatch conn w with
  | ret verdict conn' =>
    rw [rounds_of_ret hstep, hcarve]
    exact ⟨_, List.mem_singleton_self _, rfl⟩
  | dispatched d r =>
    rw [rounds_of_dispatched hstep]
    exact ⟨_, List.mem_cons_self, rfl⟩

theorem ingestLoop_quiet_iff_of_closed {conn : Connection} (hfd : conn.fd < 0) (w : τ)
    (log : List Dispatched) :
    QuietAfterClose (ep.rounds dispatch conn w) (ep.ingestLoop dispatch conn w log)
      ↔
    framer.carve conn.inbuf = .bad := by
  have hstep := ep.ingestStep_eq dispatch conn w
  cases hcarve : framer.carve conn.inbuf with
  | more =>
    rw [hcarve] at hstep
    rw [ingestLoop_of_ret hstep]
    simp [QuietAfterClose, hfd]
  | bad =>
    rw [hcarve] at hstep
    rw [ingestLoop_of_ret hstep, rounds_of_ret hstep, hcarve]
    simp [QuietAfterClose]
  | frame f rest =>
    simp only [reduceCtorEq, iff_false]
    rintro ⟨hopen, _⟩
    rcases rounds_ne_nil_of_frame ep dispatch w hcarve with ⟨round, hround, hconn⟩
    have hround := hopen round hround
    rw [hconn] at hround
    exact absurd hfd (Int32.not_lt.mpr hround)

theorem rounds_of_bad {conn : Connection} {w : τ} (hcarve : framer.carve conn.inbuf = .bad) :
    ep.rounds dispatch conn w = [] := by
  have hstep := ep.ingestStep_eq dispatch conn w
  rw [hcarve] at hstep
  rw [rounds_of_ret hstep, hcarve]

theorem ingestLoop_quiet_iff (ep : OpenFlowEndpoint σ) (dispatch : PacketType → HandlerFn τ)
    (conn : Connection) (hfd : 0 ≤ conn.fd) (w : τ) (log : List Dispatched) :
    QuietAfterClose (ep.rounds dispatch conn w) (ep.ingestLoop dispatch conn w log)
      ↔
    ep.RefusesAfterClose dispatch (ep.rounds dispatch conn w) := by
  induction conn, w using ingest_induction ep dispatch generalizing log with
  | ret conn w verdict conn' hstep =>
    rw [ingestLoop_of_ret hstep, rounds_of_ret hstep]
    have hconn' : ¬conn'.fd < 0 := by
      rw [(ingestStep_ret hstep).1]
      exact Int32.not_lt.mpr hfd
    rcases ingestStep_ret_cases hstep with ⟨hcarve, _⟩ | ⟨hcarve, _⟩ | ⟨f, rest, hcarve, hvalid, _⟩
    . simp [hcarve, QuietAfterClose, RefusesAfterClose, hconn']
    . simp [hcarve, QuietAfterClose, RefusesAfterClose, hconn']
    . simp [hcarve, QuietAfterClose, RefusesAfterClose, hconn', hfd, hvalid]
  | dispatched conn w d r hstep ih =>
    have hvalid : ep.runValidator d.frame.type d.frame := (ingestStep_dispatched_eq hstep).choose_spec.2.1
    rw [ingestLoop_of_dispatched hstep, rounds_of_dispatched hstep,
      refusesAfterClose_cons ⟨conn, w, d.frame⟩ hfd hvalid, result_of_dispatched hstep]
    have hquiet : ∀ (rounds : List (Round τ)) res,
        QuietAfterClose (⟨conn, w, d.frame⟩ :: rounds) res ↔ QuietAfterClose rounds res := by
      intro rounds res
      simp [QuietAfterClose, hfd]
    rw [hquiet]
    by_cases hclose : r.conn.fd < 0
    . cases hfault : r.fault with
      | some e => simp [QuietAfterClose, hclose]
      | none =>
        rw [ingestLoop_quiet_iff_of_closed hclose]
        simp only [hclose, forall_const, true_and]
        constructor
        . intro hbad
          refine ⟨hbad, ?_⟩
          rw [rounds_of_bad hbad]
          simp [RefusesAfterClose]
        . exact fun h => h.1
    . have hopen : 0 ≤ r.conn.fd := Int32.not_lt.mp hclose
      cases hfault : r.fault with
      | some e => simp [QuietAfterClose, RefusesAfterClose, hclose]
      | none =>
        rw [ih hfault hopen]
        simp [hclose]

theorem ingestWith_quiet_iff (ep : OpenFlowEndpoint σ) (dispatch : PacketType → HandlerFn τ)
    (conn : Connection) (data : Bytes) (w : τ) :
    QuietAfterClose (ep.ingestRounds dispatch conn data w) (ep.ingestWith dispatch conn data w)
      ↔
    ep.RefusesAfterClose dispatch (ep.ingestRounds dispatch conn data w) := by
  unfold ingestRounds ingestWith
  split
  . simp [QuietAfterClose, RefusesAfterClose]
  . next hopen =>
    have hfd : 0 ≤ conn.fd := Int32.not_lt.mp (fun h => hopen (.inr h))
    apply ingestLoop_quiet_iff
    exact hfd

end OpenFlowEndpoint

structure IngestCall (τ : Type) where
  conn : Connection
  data : Bytes
  world : τ

def ingestCalls (ep : OpenFlowEndpoint σ) (dispatch : PacketType → HandlerFn τ) (conn : Connection)
    (chunks : List Bytes) (w : τ) : List (IngestCall τ) :=
  match chunks with
  | [] => []
  | c :: cs =>
    let r := ep.ingestWith dispatch conn c w
    ⟨conn, c, w⟩ :: ingestCalls ep dispatch r.conn cs r.world

open OpenFlowEndpoint

/--
In a run of `ingest` calls nothing happens on a connection that a handler has closed, and the call in
which it was closed returns `false`, exactly if in each call the handler that closes the connection
returns and the framer refuses the bytes that follow in the buffer.
-/
theorem ingestCalls_quiet_iff (ep : OpenFlowEndpoint σ) (dispatch : PacketType → HandlerFn τ)
    (conn : Connection) (chunks : List Bytes) (w : τ) :
    (∀ call ∈ ingestCalls ep dispatch conn chunks w,
        QuietAfterClose (ep.ingestRounds dispatch call.conn call.data call.world)
          (ep.ingestWith dispatch call.conn call.data call.world))
      ↔
    ∀ call ∈ ingestCalls ep dispatch conn chunks w,
      ep.RefusesAfterClose dispatch (ep.ingestRounds dispatch call.conn call.data call.world) := by
  apply forall₂_congr
  intro call _
  exact ingestWith_quiet_iff ep dispatch call.conn call.data call.world

def closesOnEcho : OpenFlowEndpoint (List Int32) :=
  ({} : OpenFlowEndpoint (List Int32))
    |>.on .echoRequest
      { call := fun conn _ w => ⟨closeConnection conn, w, none⟩
        length_le := fun conn _ _ => by unfold closeConnection; split <;> exact Nat.le_refl _ }
    |>.on .hello
      { call := fun conn _ w => ⟨conn, w ++ [conn.fd], none⟩
        length_le := fun _ _ _ => Nat.le_refl _ }

def echoThenHello : Bytes := [
  0x01, 0x02, 0x00, 0x08, 0x00, 0x00, 0x00, 0x01,
  0x01, 0x00, 0x00, 0x08, 0x00, 0x00, 0x00, 0x02]

/--
Both frames in one chunk: the HELLO is handled and pushed with descriptor -1, and `ingest` returns `true`.
-/
theorem closesOnEcho_not_quiet :
    let dispatch := serverDispatch closesOnEcho
    let r := closesOnEcho.ingestWith dispatch { fd := 7 } echoThenHello ([], [])
    r.verdict = .ok true ∧ r.conn.fd = -1
      ∧ r.dispatched.map Dispatched.type = [.echoRequest, .hello]
      ∧ r.world.1 = [-1] ∧ r.world.2.map (fun event => event.conn.fd) = [-1, -1]
      ∧ ¬∀ call ∈ ingestCalls closesOnEcho dispatch { fd := 7 } [echoThenHello] ([], []),
          QuietAfterClose (closesOnEcho.ingestRounds dispatch call.conn call.data call.world)
            (closesOnEcho.ingestWith dispatch call.conn call.data call.world) := by
  refine ⟨by decide +kernel, by decide +kernel, by decide +kernel, by decide +kernel,
    by decide +kernel, fun hquiet => ?_⟩
  have hverdict := (hquiet _ List.mem_cons_self).2 (by decide +kernel)
  revert hverdict
  decide +kernel

end Oflib
