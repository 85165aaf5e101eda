import NetOrc.OpenFlow.Endpoint

/-!
This module describes the `ingest` loop by a drain of the incremental decoder: as long as the handlers
leave the connection alone, what is dispatched, the verdict and the session state only depend on the
frames of the stream.
-/

namespace Oflib

open Framing

variable {σ τ : Type}

structure Session where
  state : SessionState
  log : List Dispatched
  deriving DecidableEq, Repr

structure Stopped where
  verdict : Except Fault Bool
  session : Session

/--
The loop body on a carved frame: validation, lifecycle, dispatch. `faultOf` tells which frames make a
handler throw.
-/
def receive (valid : PacketType → Frame → Bool) (faultOf : PacketType → Frame → Option Fault)
    (s : Session) (frame : Frame) : Except Stopped Session :=
  if valid frame.type frame then
    let state := s.state.advance frame.type
    let s : Session := ⟨state, s.log ++ [⟨frame.type, frame, state⟩]⟩
    match faultOf frame.type frame with
    | some e => .error ⟨.error e, s⟩
    | none => .ok s
  else
    .error ⟨.ok false, s⟩

/--
The calls of `dispatch` that the loop makes on a list of frames: up to the first frame that its
validator rejects, and up to the first call that throws.
-/
def dispatches (valid : PacketType → Frame → Bool) (faultOf : PacketType → Frame → Option Fault)
    (state : SessionState) (fs : List Frame) : List Dispatched :=
  match fs with
  | [] => []
  | f :: fs =>
    if valid f.type f then
      let state := state.advance f.type
      ⟨f.type, f, state⟩
        :: match faultOf f.type f with
          | some _ => []
          | none => dispatches valid faultOf state fs
    else
      []

def KeepsConnection (dispatch : PacketType → HandlerFn τ) : Prop :=
  ∀ type conn frame w, ((dispatch type).call conn frame w).conn = conn

def KeepsDescriptor (dispatch : PacketType → HandlerFn τ) : Prop :=
  ∀ type conn frame w, ((dispatch type).call conn frame w).conn.fd = conn.fd

theorem KeepsConnection.keepsDescriptor {dispatch : PacketType → HandlerFn τ}
    (h : KeepsConnection dispatch) : KeepsDescriptor dispatch :=
  fun type conn frame w => congrArg Connection.fd (h type conn frame w)

def FaultsBy (dispatch : PacketType → HandlerFn τ)
    (faultOf : PacketType → Frame → Option Fault) : Prop :=
  ∀ type conn frame w, ((dispatch type).call conn frame w).fault = faultOf type frame

def Drained.Describes (d : Drained UInt8 Session Stopped) (fd : Int32) (r : IngestResult τ) : Prop :=
  match d with
  | .more rest s => r.verdict = .ok true ∧ r.conn = ⟨fd, s.state, rest⟩ ∧ r.dispatched = s.log
  | .bad s => r.verdict = .ok false ∧ r.conn.state = s.state ∧ r.dispatched = s.log
  | .halt x =>
    r.verdict = x.verdict ∧ r.verdict ≠ .ok true ∧ r.conn.state = x.session.state
      ∧ r.dispatched = x.session.log

def Drained.verdict (d : Drained UInt8 Session Stopped) : Except Fault Bool :=
  match d with
  | .more _ _ => .ok true
  | .bad _ => .ok false
  | .halt x => x.verdict

def Drained.session (d : Drained UInt8 Session Stopped) : Session :=
  match d with
  | .more _ s => s
  | .bad s => s
  | .halt x => x.session

theorem Drained.Describes.eqs {d : Drained UInt8 Session Stopped} {fd : Int32} {r : IngestResult τ}
    (h : Drained.Describes d fd r) :
    r.verdict = Drained.verdict d ∧ r.conn.state = (Drained.session d).state
      ∧ r.dispatched = (Drained.session d).log := by
  cases d with
  | more rest s => exact ⟨h.1, by rw [h.2.1]; rfl, h.2.2⟩
  | bad s => exact h
  | halt x => exact ⟨h.1, h.2.2⟩

variable {valid : PacketType → Frame → Bool} {faultOf : PacketType → Frame → Option Fault}

theorem receive_of_not_valid {f : Frame} (h : ¬valid f.type f) (s : Session) :
    receive valid faultOf s f = .error ⟨.ok false, s⟩ := by
  rw [receive, if_neg h]

theorem receive_of_fault {f : Frame} (h : valid f.type f) {e : Fault}
    (he : faultOf f.type f = some e) (s : Session) :
    receive valid faultOf s f
      =
    .error ⟨.error e, s.state.advance f.type, s.log ++ [⟨f.type, f, s.state.advance f.type⟩]⟩ := by
  rw [receive, if_pos h, he]

theorem receive_of_valid {f : Frame} (h : valid f.type f) (hf : faultOf f.type f = none)
    (s : Session) :
    receive valid faultOf s f
      =
    .ok ⟨s.state.advance f.type, s.log ++ [⟨f.type, f, s.state.advance f.type⟩]⟩ := by
  rw [receive, if_pos h, hf]

/--
Folding `receive` over frames: the log grows by `dispatches`, and the fold ends in a fault exactly if
a frame before the first rejected one makes its handler throw.
-/
theorem foldlM_receive (valid : PacketType → Frame → Bool)
    (faultOf : PacketType → Frame → Option Fault) (fs : List Frame) (s : Session) :
    match fs.foldlM (receive valid faultOf) s with
    | .ok s' =>
      s'.log = s.log ++ dispatches valid faultOf s.state fs
        ∧ ∀ f ∈ fs.takeWhile (fun f => valid f.type f), faultOf f.type f = none
    | .error x =>
      x.session.log = s.log ++ dispatches valid faultOf s.state fs
        ∧ ((∃ v, x.verdict = .ok v)
          ↔ ∀ f ∈ fs.takeWhile (fun f => valid f.type f), faultOf f.type f = none) := by
  induction fs generalizing s with
  | nil => exact ⟨by simp [dispatches], by simp⟩
  | cons f fs ih =>
    rw [List.foldlM_cons]
    by_cases hvalid : valid f.type f
    . cases hfault : faultOf f.type f with
      | some e =>
        rw [receive_of_fault hvalid hfault]
        refine ⟨by simp [dispatches, hvalid, hfault], ?_⟩
        simp [hvalid, hfault]
      | none =>
        rw [receive_of_valid hvalid hfault]
        have ih := ih ⟨s.state.advance f.type, s.log ++ [⟨f.type, f, s.state.advance f.type⟩]⟩
        simp only [bind, Except.bind, dispatches, if_pos hvalid, hfault, List.takeWhile_cons,
          List.forall_mem_cons, true_and]
        simpa only [List.append_assoc, List.singleton_append] using ih
    . rw [receive_of_not_valid hvalid]
      refine ⟨by simp [dispatches, hvalid], ?_⟩
      simp [hvalid]

theorem drain_log (b : Bytes) (s : Session) :
    (Drained.session (framer.drain (receive valid faultOf) b s)).log
      =
    s.log ++ dispatches valid faultOf s.state (framer.split b).1 := by
  have h := foldlM_receive valid faultOf (framer.split b).1 s
  rw [Decoder.drain_eq_foldlM]
  cases hfold : (framer.split b).1.foldlM (receive valid faultOf) s with
  | ok s' =>
    rw [hfold] at h
    cases (framer.split b).2 with
    | some rest => exact h.1
    | none => exact h.1
  | error x => rw [hfold] at h; exact h.1

theorem drain_returns_iff (b : Bytes) (s : Session) :
    (∃ v, Drained.verdict (framer.drain (receive valid faultOf) b s) = .ok v)
      ↔
    ∀ f ∈ (framer.split b).1.takeWhile (fun f => valid f.type f), faultOf f.type f = none := by
  have h := foldlM_receive valid faultOf (framer.split b).1 s
  rw [Decoder.drain_eq_foldlM]
  cases hfold : (framer.split b).1.foldlM (receive valid faultOf) s with
  | ok s' =>
    rw [hfold] at h
    cases (framer.split b).2 with
    | some rest => exact ⟨fun _ => h.2, fun _ => ⟨true, rfl⟩⟩
    | none => exact ⟨fun _ => h.2, fun _ => ⟨false, rfl⟩⟩
  | error x => rw [hfold] at h; exact h.2

namespace OpenFlowEndpoint

variable {ep : OpenFlowEndpoint σ} {dispatch : PacketType → HandlerFn τ}
  {faultOf : PacketType → Frame → Option Fault}

theorem ingestLoop_of_ret {conn conn' : Connection} {w : τ} {verdict : Bool}
    (h : ep.ingestStep dispatch conn w = .ret verdict conn') (log : List Dispatched) :
    ep.ingestLoop dispatch conn w log = ⟨.ok verdict, conn', w, log⟩ := by
  rw [ingestLoop]
  split
  . next h' => rw [h] at h'; cases h'; rfl
  . next h' => rw [h] at h'; contradiction

theorem ingestLoop_of_dispatched {conn : Connection} {w : τ} {d : Dispatched} {r : HandlerResult τ}
    (h : ep.ingestStep dispatch conn w = .dispatched d r) (log : List Dispatched) :
    ep.ingestLoop dispatch conn w log
      =
    match r.fault with
    | some e => ⟨.error e, r.conn, r.world, log ++ [d]⟩
    | none => ep.ingestLoop dispatch r.conn r.world (log ++ [d]) := by
  rw [ingestLoop]
  split
  . next h' => rw [h] at h'; contradiction
  . next h' => rw [h] at h'; cases h'; rfl

theorem ingestStep_eq (ep : OpenFlowEndpoint σ) (dispatch : PacketType → HandlerFn τ)
    (conn : Connection) (w : τ) :
    ep.ingestStep dispatch conn w
      =
    match framer.carve conn.inbuf with
    | .more => .ret true conn
    | .bad => .ret false conn
    | .frame f rest =>
      if ep.runValidator f.type f then
        let conn : Connection := ⟨conn.fd, conn.state.advance f.type, rest⟩
        .dispatched ⟨f.type, f, conn.state⟩ ((dispatch f.type).call conn f w)
      else
        .ret false { conn with inbuf := rest } := by
  unfold ingestStep
  rw [nextFrame_eq]
  cases framer.carve conn.inbuf with
  | more => rfl
  | bad => rfl
  | frame f rest =>
    simp only [advanceLifecycle_eq, Frame.type]
    rfl

theorem ingestStep_dispatched_eq {conn : Connection} {w : τ} {d : Dispatched} {r : HandlerResult τ}
    (h : ep.ingestStep dispatch conn w = .dispatched d r) :
    ∃ rest, framer.carve conn.inbuf = .frame d.frame rest
      ∧ ep.runValidator d.frame.type d.frame
      ∧ d = ⟨d.frame.type, d.frame, conn.state.advance d.frame.type⟩
      ∧ r = (dispatch d.frame.type).call ⟨conn.fd, conn.state.advance d.frame.type, rest⟩ d.frame w := by
  rw [ingestStep_eq] at h
  split at h
  . contradiction
  . contradiction
  . next f rest hcarve =>
    split at h
    . next hvalid =>
      injection h with hd hr
      subst hd hr
      exact ⟨rest, hcarve, hvalid, rfl, rfl⟩
    . contradiction

theorem ingestStep_dispatched {conn : Connection} {w : τ} {d : Dispatched} {r : HandlerResult τ}
    (h : ep.ingestStep dispatch conn w = .dispatched d r) :
    ∃ conn' : Connection, conn'.fd = conn.fd ∧ d.type = d.frame.type
      ∧ r = (dispatch d.type).call conn' d.frame w := by
  rcases ingestStep_dispatched_eq h with ⟨rest, _, _, hd, hr⟩
  have htype : d.type = d.frame.type := by rw [hd]
  exact ⟨⟨conn.fd, conn.state.advance d.frame.type, rest⟩, rfl, htype, by rw [htype, hr]⟩

theorem ingestStep_ret_cases {conn conn' : Connection} {w : τ} {verdict : Bool}
    (h : ep.ingestStep dispatch conn w = .ret verdict conn') :
    (framer.carve conn.inbuf = .more ∧ verdict = true ∧ conn' = conn)
      ∨ (framer.carve conn.inbuf = .bad ∧ verdict = false ∧ conn' = conn)
      ∨ ∃ f rest, framer.carve conn.inbuf = .frame f rest ∧ ¬ep.runValidator f.type f
          ∧ verdict = false ∧ conn' = { conn with inbuf := rest } := by
  rw [ingestStep_eq] at h
  split at h
  . next hcarve => cases h; exact .inl ⟨hcarve, rfl, rfl⟩
  . next hcarve => cases h; exact .inr (.inl ⟨hcarve, rfl, rfl⟩)
  . next f rest hcarve =>
    split at h
    . contradiction
    . next hvalid => cases h; exact .inr (.inr ⟨f, rest, hcarve, hvalid, rfl, rfl⟩)

theorem ingestStep_ret {conn conn' : Connection} {w : τ} {verdict : Bool}
    (h : ep.ingestStep dispatch conn w = .ret verdict conn') :
    conn'.fd = conn.fd ∧ conn'.inbuf.length ≤ conn.inbuf.length := by
  rcases ingestStep_ret_cases h with ⟨_, _, rfl⟩ | ⟨_, _, rfl⟩ | ⟨f, rest, hcarve, _, _, rfl⟩
  . exact ⟨rfl, Nat.le_refl _⟩
  . exact ⟨rfl, Nat.le_refl _⟩
  . exact ⟨rfl, Nat.le_of_lt (framer.length_lt hcarve)⟩

theorem ingestStep_ret_congr {σ' τ' : Type} {ep' : OpenFlowEndpoint σ'}
    (hvalid : ep'.runValidator = ep.runValidator) {conn conn' : Connection} {w : τ} {verdict : Bool}
    (h : ep.ingestStep dispatch conn w = .ret verdict conn') (dispatch' : PacketType → HandlerFn τ')
    (v : τ') : ep'.ingestStep dispatch' conn v = .ret verdict conn' := by
  rw [ingestStep_eq]
  rcases ingestStep_ret_cases h with ⟨hcarve, rfl, rfl⟩ | ⟨hcarve, rfl, rfl⟩
    | ⟨f, rest, hcarve, hreject, rfl, rfl⟩
  . rw [hcarve]
  . rw [hcarve]
  . simp only [hcarve, hvalid]
    exact if_neg hreject

theorem ingestStep_dispatched_congr {σ' τ' : Type} {ep' : OpenFlowEndpoint σ'}
    (hvalid : ep'.runValidator = ep.runValidator) {conn : Connection} {w : τ} {d : Dispatched}
    {r : HandlerResult τ} (h : ep.ingestStep dispatch conn w = .dispatched d r)
    (dispatch' : PacketType → HandlerFn τ') (v : τ') :
    ∃ conn', r = (dispatch d.frame.type).call conn' d.frame w
      ∧ ep'.ingestStep dispatch' conn v
        = .dispatched d ((dispatch' d.frame.type).call conn' d.frame v) := by
  rcases ingestStep_dispatched_eq h with ⟨rest, hcarve, haccept, hd, hr⟩
  refine ⟨_, hr, ?_⟩
  rw [ingestStep_eq, hcarve]
  simp only [hvalid, haccept, if_true, ← hd]

theorem ingest_induction (ep : OpenFlowEndpoint σ) (dispatch : PacketType → HandlerFn τ)
    {motive : Connection → τ → Prop}
    (ret : ∀ conn w verdict conn', ep.ingestStep dispatch conn w = .ret verdict conn' →
      motive conn w)
    (dispatched : ∀ conn w d r, ep.ingestStep dispatch conn w = .dispatched d r →
      (r.fault = none → motive r.conn r.world) → motive conn w)
    (conn : Connection) (w : τ) : motive conn w := by
  generalize hn : conn.inbuf.length = n
  induction n using Nat.strongRecOn generalizing conn w with
  | ind n ih =>
    match h : ep.ingestStep dispatch conn w with
    | .ret verdict conn' => exact ret conn w verdict conn' h
    | .dispatched d r =>
      have hlt := ingestStep_length_lt h
      apply dispatched conn w d r h
      intro _
      exact ih r.conn.inbuf.length (by omega) r.conn r.world rfl

theorem ingestLoop_log (ep : OpenFlowEndpoint σ) (dispatch : PacketType → HandlerFn τ)
    (conn : Connection) (w : τ) (log : List Dispatched) :
    ep.ingestLoop dispatch conn w log
      =
    { ep.ingestLoop dispatch conn w [] with
      dispatched := log ++ (ep.ingestLoop dispatch conn w []).dispatched } := by
  induction conn, w using ingest_induction ep dispatch generalizing log with
  | ret conn w verdict conn' hstep => simp [ingestLoop_of_ret hstep]
  | dispatched conn w d r hstep ih =>
    rw [ingestLoop_of_dispatched hstep, ingestLoop_of_dispatched hstep]
    cases hfault : r.fault with
    | some e => simp
    | none =>
      have ih := ih hfault
      simp only [List.nil_append]
      rw [ih (log ++ [d]), ih [d]]
      simp

theorem ingestLoop_describes_or (hkeep : KeepsConnection dispatch)
    (faultOf : PacketType → Frame → Option Fault) (conn : Connection) (w : τ)
    (log : List Dispatched) :
    Drained.Describes
        (framer.drain (receive ep.runValidator faultOf) conn.inbuf ⟨conn.state, log⟩) conn.fd
        (ep.ingestLoop dispatch conn w log)
      ∨ ∃ type conn' frame w',
          ((dispatch type).call conn' frame w').fault ≠ faultOf type frame
            ∧ ∀ e, ((dispatch type).call conn' frame w').fault = some e →
                (ep.ingestLoop dispatch conn w log).verdict = .error e := by
  induction conn, w using ingest_induction ep dispatch generalizing log with
  | ret conn w verdict conn' hstep =>
    left
    rw [ingestLoop_of_ret hstep]
    rw [ingestStep_eq] at hstep
    cases hcarve : framer.carve conn.inbuf with
    | more =>
      rw [hcarve] at hstep
      cases hstep
      rw [Decoder.drain_of_more hcarve]
      exact ⟨rfl, rfl, rfl⟩
    | bad =>
      rw [hcarve] at hstep
      cases hstep
      rw [Decoder.drain_of_bad hcarve]
      exact ⟨rfl, rfl, rfl⟩
    | frame f rest =>
      simp only [hcarve] at hstep
      split at hstep
      . contradiction
      . next hvalid =>
        cases hstep
        rw [Decoder.drain_of_frame hcarve, receive, if_neg hvalid]
        exact ⟨rfl, by simp, rfl, rfl⟩
  | dispatched conn w d r hstep ih =>
    rw [ingestLoop_of_dispatched hstep]
    rw [ingestStep_eq] at hstep
    cases hcarve : framer.carve conn.inbuf with
    | more => rw [hcarve] at hstep; contradiction
    | bad => rw [hcarve] at hstep; contradiction
    | frame f rest =>
      simp only [hcarve] at hstep
      split at hstep
      . next hvalid =>
        injection hstep with hd hr
        rw [Decoder.drain_of_frame hcarve, receive, if_pos hvalid]
        have hconn : r.conn = ⟨conn.fd, conn.state.advance f.type, rest⟩ := by
          rw [← hr, hkeep]
        by_cases hsame : r.fault = faultOf f.type f
        . rw [← hsame]
          cases hfault : r.fault with
          | some e => left; exact ⟨rfl, by simp, by rw [hconn], by rw [← hd]⟩
          | none =>
            have ih := ih hfault (log ++ [d])
            rw [hconn, ← hd] at ih
            rw [hconn, ← hd]
            exact ih
        . right
          refine ⟨f.type, _, f, w, by rw [hr]; exact hsame, ?_⟩
          intro e he
          rw [hr] at he
          rw [he]
      . contradiction

theorem ingestLoop_describes (ep : OpenFlowEndpoint σ) (hkeep : KeepsConnection dispatch)
    (hfault : FaultsBy dispatch faultOf) (conn : Connection) (w : τ) (log : List Dispatched) :
    Drained.Describes
      (framer.drain (receive ep.runValidator faultOf) conn.inbuf ⟨conn.state, log⟩) conn.fd
      (ep.ingestLoop dispatch conn w log) := by
  cases ingestLoop_describes_or hkeep faultOf conn w log with
  | inl h => exact h
  | inr h =>
    rcases h with ⟨type, conn', frame, w', hne, _⟩
    exact absurd (hfault type conn' frame w') hne

theorem ingestLoop_describes_of_ok (hkeep : KeepsConnection dispatch) (conn : Connection) (w : τ)
    (log : List Dispatched) {v : Bool} (hv : (ep.ingestLoop dispatch conn w log).verdict = .ok v) :
    Drained.Describes
      (framer.drain (receive ep.runValidator (fun _ _ => none)) conn.inbuf ⟨conn.state, log⟩) conn.fd
      (ep.ingestLoop dispatch conn w log) := by
  cases ingestLoop_describes_or hkeep (fun _ _ => none) conn w log with
  | inl h => exact h
  | inr h =>
    rcases h with ⟨type, conn', frame, w', hne, herr⟩
    rcases Option.ne_none_iff_exists'.mp hne with ⟨e, he⟩
    rw [herr e he] at hv
    contradiction

theorem ingestLoop_invariant (ep : OpenFlowEndpoint σ) (hkeep : KeepsConnection dispatch) {fd : Int32}
    {motive : τ → List Dispatched → Prop}
    (step : ∀ conn d w log, conn.fd = fd → motive w log →
      motive ((dispatch d.type).call conn d.frame w).world (log ++ [d]))
    (conn : Connection) (hfd : conn.fd = fd) (w : τ) (log : List Dispatched) (h : motive w log) :
    motive (ep.ingestLoop dispatch conn w log).world (ep.ingestLoop dispatch conn w log).dispatched := by
  induction conn, w using ingest_induction ep dispatch generalizing log with
  | ret conn w verdict conn' hstep => rw [ingestLoop_of_ret hstep]; exact h
  | dispatched conn w d r hstep ih =>
    rw [ingestLoop_of_dispatched hstep]
    have hd : r.conn.fd = fd ∧ motive r.world (log ++ [d]) := by
      rcases ingestStep_dispatched hstep with ⟨conn', hconn', _, hr⟩
      rw [hr]
      exact ⟨by rw [hkeep, hconn', hfd], step conn' d w log (by rw [hconn', hfd]) h⟩
    cases hfault : r.fault with
    | some e => exact hd.2
    | none => exact ih hfault hd.1 _ hd.2

end OpenFlowEndpoint

end Oflib
