import NetOrc.OpenFlow.Session

/-!
This module shows that the way in which a stream is cut into chunks does not matter to `ingest`.
-/

namespace Oflib

open Framing

variable {σ τ : Type}

namespace OpenFlowEndpoint

def HandlersKeepConnection (ep : OpenFlowEndpoint σ) : Prop :=
  ∀ type, ∀ entry ∈ ep.handlers type, ∀ conn frame w,
    (entry.handler.call conn frame w).conn = conn

theorem HandlersKeepConnection.keepsConnection {ep : OpenFlowEndpoint σ}
    (h : ep.HandlersKeepConnection) : KeepsConnection ep.dispatch := by
  intro type conn frame w
  unfold dispatch route
  dsimp only
  cases hfind : (ep.handlers type).find? (fun entry => entry.filter frame) with
  | none => rfl
  | some entry => exact h type entry (List.mem_of_find?_eq_some hfind) conn frame w

theorem handlersKeepConnection_empty : ({} : OpenFlowEndpoint σ).HandlersKeepConnection := by
  intro type entry hentry
  simp at hentry

theorem HandlersKeepConnection.on {ep : OpenFlowEndpoint σ} (h : ep.HandlersKeepConnection)
    {handler : HandlerFn σ} (hhandler : ∀ conn frame w, (handler.call conn frame w).conn = conn)
    (type : PacketType) (f : FilterFn) : (ep.on type handler f).HandlersKeepConnection := by
  intro type' entry hentry
  by_cases htype : type' = type
  . subst htype
    simp only [OpenFlowEndpoint.on, Function.update_self, List.mem_append, List.mem_singleton]
      at hentry
    cases hentry with
    | inl hold => exact h type' entry hold
    | inr hnew => subst hnew; exact hhandler
  . simp only [OpenFlowEndpoint.on, Function.update_of_ne htype] at hentry
    exact h type' entry hentry

variable {ep : OpenFlowEndpoint σ} {dispatch : PacketType → HandlerFn τ}
  {faultOf : PacketType → Frame → Option Fault}

theorem ingestWith_eq_ingestLoop (ep : OpenFlowEndpoint σ) (dispatch : PacketType → HandlerFn τ)
    {conn : Connection} (hfd : 0 ≤ conn.fd) {c : Bytes} (hc : c ≠ []) (w : τ) :
    ep.ingestWith dispatch conn c w
      =
    ep.ingestLoop dispatch { conn with inbuf := conn.inbuf ++ c } w [] := by
  rw [ingestWith, if_neg]
  simp only [List.length_eq_zero_iff, hc, Int32.not_lt.mpr hfd, or_self, not_false_eq_true]

theorem ingestChunksWith_cons_of_ok {conn : Connection} {c : Bytes} {w : τ}
    (h : (ep.ingestWith dispatch conn c w).verdict = .ok true) (cs : List Bytes) :
    ep.ingestChunksWith dispatch conn (c :: cs) w
      =
    let r := ep.ingestWith dispatch conn c w
    let tail := ep.ingestChunksWith dispatch r.conn cs r.world
    { tail with dispatched := r.dispatched ++ tail.dispatched } := by
  rw [ingestChunksWith, h]

theorem ingestChunksWith_cons_of_ne {conn : Connection} {c : Bytes} {w : τ}
    (h : (ep.ingestWith dispatch conn c w).verdict ≠ .ok true) (cs : List Bytes) :
    ep.ingestChunksWith dispatch conn (c :: cs) w = ep.ingestWith dispatch conn c w := by
  rw [ingestChunksWith]
  split
  . contradiction
  . rfl

theorem ingestChunksWith_describes {P : Except Fault Bool → Prop} (hP : P (.ok true))
    (hloop : ∀ (conn : Connection) (w : τ) (log : List Dispatched),
      P (ep.ingestLoop dispatch conn w log).verdict →
        Drained.Describes
          (framer.drain (receive ep.runValidator faultOf) conn.inbuf ⟨conn.state, log⟩) conn.fd
          (ep.ingestLoop dispatch conn w log))
    (conn : Connection) (hfd : 0 ≤ conn.fd) (chunks : List Bytes) (hne : ∀ c ∈ chunks, c ≠ [])
    (w : τ) (log : List Dispatched) (hverdict : P (ep.ingestChunksWith dispatch conn chunks w).verdict) :
    Drained.Describes
      (chunks.foldl (Drained.resume framer (receive ep.runValidator faultOf))
        (.more conn.inbuf ⟨conn.state, log⟩)) conn.fd
      { ep.ingestChunksWith dispatch conn chunks w with
        dispatched := log ++ (ep.ingestChunksWith dispatch conn chunks w).dispatched } := by
  induction chunks generalizing conn w log with
  | nil => exact ⟨rfl, rfl, by simp [ingestChunksWith]⟩
  | cons c cs ih =>
    have hcall := ingestWith_eq_ingestLoop ep dispatch hfd (hne c (by simp)) w
    have hlog := ingestLoop_log ep dispatch
      { conn with inbuf := conn.inbuf ++ c } w log
    rw [← hcall] at hlog
    have hdrain := hloop { conn with inbuf := conn.inbuf ++ c } w log
    rw [hlog] at hdrain
    rw [List.foldl_cons, Drained.resume]
    by_cases hv : (ep.ingestWith dispatch conn c w).verdict = .ok true
    . rw [ingestChunksWith_cons_of_ok hv] at hverdict ⊢
      generalize ep.ingestWith dispatch conn c w = r at hdrain hverdict hv ⊢
      have hdrain := hdrain (by dsimp only; rw [hv]; exact hP)
      generalize framer.drain (receive ep.runValidator faultOf) _ _ = d at hdrain ⊢
      cases d with
      | bad s => rw [hdrain.1] at hv; contradiction
      | halt x => exact absurd hv hdrain.2.1
      | more rest s =>
        rcases hdrain with ⟨_, hconn, hlog'⟩
        have hfd' : r.conn.fd = conn.fd := by rw [hconn]
        have hstate : r.conn.state = s.state := by rw [hconn]
        have hinbuf : r.conn.inbuf = rest := by rw [hconn]
        have ih := ih r.conn (by rw [hfd']; exact hfd) (fun c hc => hne c (by simp [hc])) r.world
          s.log hverdict
        rw [hfd', hstate, hinbuf] at ih
        dsimp only at hlog' ⊢
        rw [← List.append_assoc, hlog']
        exact ih
    . rw [ingestChunksWith_cons_of_ne hv] at hverdict ⊢
      have hdrain := hdrain hverdict
      generalize framer.drain (receive ep.runValidator faultOf) _ _ = d at hdrain ⊢
      cases d with
      | more rest s => exact absurd hdrain.1 hv
      | bad s => rw [Decoder.foldl_resume_bad]; exact hdrain
      | halt x => rw [Decoder.foldl_resume_halt]; exact hdrain

theorem ingestChunksWith_describes_of_faultsBy (hkeep : KeepsConnection dispatch)
    (hfault : FaultsBy dispatch faultOf) {conn : Connection} (hfd : 0 ≤ conn.fd)
    (hwait : framer.carve conn.inbuf = .more) {chunks : List Bytes} (hne : ∀ c ∈ chunks, c ≠ [])
    (w : τ) :
    Drained.Describes
      (framer.drain (receive ep.runValidator faultOf) (conn.inbuf ++ chunks.flatten)
        ⟨conn.state, []⟩) conn.fd
      (ep.ingestChunksWith dispatch conn chunks w) := by
  have h := ingestChunksWith_describes (P := fun _ => True) trivial
    (fun conn w log _ => ingestLoop_describes ep hkeep hfault conn w log)
    conn hfd chunks hne w [] trivial
  cases chunks with
  | nil =>
    rw [List.flatten_nil, List.append_nil, Decoder.drain_of_more hwait]
    exact h
  | cons c cs =>
    rw [Decoder.foldl_resume] at h
    exact h

theorem ingestChunksWith_invariant (ep : OpenFlowEndpoint σ) (hkeep : KeepsConnection dispatch)
    (hfault : FaultsBy dispatch faultOf) {fd : Int32} {motive : τ → List Dispatched → Prop}
    (step : ∀ conn d w log, conn.fd = fd → motive w log →
      motive ((dispatch d.type).call conn d.frame w).world (log ++ [d]))
    (conn : Connection) (hfd : conn.fd = fd) (hopen : 0 ≤ fd) (chunks : List Bytes)
    (hne : ∀ c ∈ chunks, c ≠ []) (w : τ) (log : List Dispatched) (h : motive w log) :
    motive (ep.ingestChunksWith dispatch conn chunks w).world
      (log ++ (ep.ingestChunksWith dispatch conn chunks w).dispatched) := by
  induction chunks generalizing conn w log with
  | nil => simpa [ingestChunksWith] using h
  | cons c cs ih =>
    have hcall := ingestWith_eq_ingestLoop ep dispatch
      (show 0 ≤ conn.fd by rw [hfd]; exact hopen) (hne c (by simp)) w
    have hlog := ingestLoop_log ep dispatch
      { conn with inbuf := conn.inbuf ++ c } w log
    have hmotive := ingestLoop_invariant ep hkeep step { conn with inbuf := conn.inbuf ++ c }
      hfd w log h
    have hdrain := ingestLoop_describes ep hkeep hfault
      { conn with inbuf := conn.inbuf ++ c } w []
    rw [hlog, ← hcall] at hmotive
    rw [← hcall] at hdrain
    by_cases hv : (ep.ingestWith dispatch conn c w).verdict = .ok true
    . rw [ingestChunksWith_cons_of_ok hv]
      dsimp only
      rw [← List.append_assoc]
      refine ih _ ?_ (fun c hc => hne c (by simp [hc])) _ _ hmotive
      generalize framer.drain (receive ep.runValidator faultOf) _ _ = d at hdrain
      cases d with
      | more rest s => rw [hdrain.2.1]; exact hfd
      | bad s => rw [hdrain.1] at hv; contradiction
      | halt x => exact absurd hv hdrain.2.1
    . rw [ingestChunksWith_cons_of_ne hv]
      exact hmotive

end OpenFlowEndpoint

theorem Drained.Describes.agree {d : Drained UInt8 Session Stopped} {fd : Int32}
    {r r' : IngestResult τ} (h : Drained.Describes d fd r) (h' : Drained.Describes d fd r') :
    r.dispatched = r'.dispatched ∧ r.verdict = r'.verdict ∧ r.conn.state = r'.conn.state
      ∧ (r'.verdict = .ok true → r.conn.inbuf = r'.conn.inbuf) := by
  cases d with
  | more rest s =>
    rcases h with ⟨hv, hconn, hlog⟩
    rcases h' with ⟨hv', hconn', hlog'⟩
    simp [hv, hv', hconn, hconn', hlog, hlog']
  | bad s =>
    rcases h with ⟨hv, hstate, hlog⟩
    rcases h' with ⟨hv', hstate', hlog'⟩
    simp [hv, hv', hstate, hstate', hlog, hlog']
  | halt x =>
    rcases h with ⟨hv, hne, hstate, hlog⟩
    rcases h' with ⟨hv', hne', hstate', hlog'⟩
    exact ⟨hlog.trans hlog'.symm, hv.trans hv'.symm, hstate.trans hstate'.symm,
      fun h => absurd h hne'⟩

/--
Feeding a stream chunk by chunk and feeding it whole dispatch the same frames in the same session
states, and end with the same verdict, session state and, when the stream is accepted, the same
residual buffer. Both are taken to return, which they do unless a handler throws.
-/
theorem ingestChunks_eq_ingest (ep : OpenFlowEndpoint σ) (hkeep : ep.HandlersKeepConnection)
    (conn : Connection) (hfd : 0 ≤ conn.fd) (stream : Bytes) (hstream : stream ≠ [])
    (chunks : List Bytes) (hne : ∀ c ∈ chunks, c ≠ []) (hcut : chunks.flatten = stream) (w : σ)
    (hwhole : ∃ v, (ep.ingest conn stream w).verdict = .ok v)
    (hparts : ∃ v, (ep.ingestChunks conn chunks w).verdict = .ok v) :
    (ep.ingestChunks conn chunks w).dispatched = (ep.ingest conn stream w).dispatched
      ∧ (ep.ingestChunks conn chunks w).verdict = (ep.ingest conn stream w).verdict
      ∧ (ep.ingestChunks conn chunks w).conn.state = (ep.ingest conn stream w).conn.state
      ∧ ((ep.ingest conn stream w).verdict = .ok true →
          (ep.ingestChunks conn chunks w).conn.inbuf = (ep.ingest conn stream w).conn.inbuf) := by
  have hparts := OpenFlowEndpoint.ingestChunksWith_describes (P := fun v => ∃ b, v = .ok b) ⟨true, rfl⟩
    (fun conn w log ⟨_, hv⟩ =>
      OpenFlowEndpoint.ingestLoop_describes_of_ok hkeep.keepsConnection conn w log hv)
    conn hfd chunks hne w [] hparts
  rcases hwhole with ⟨v, hv⟩
  rw [OpenFlowEndpoint.ingest, OpenFlowEndpoint.ingestWith_eq_ingestLoop _ _ hfd hstream] at hv ⊢
  have hwhole := OpenFlowEndpoint.ingestLoop_describes_of_ok hkeep.keepsConnection _ w [] hv
  cases chunks with
  | nil => exact absurd hcut.symm hstream
  | cons c cs =>
    rw [Decoder.foldl_resume, hcut] at hparts
    exact hparts.agree hwhole

theorem ingestChunks_eq_ingest_hello :
    let ep : OpenFlowEndpoint Nat :=
      ({} : OpenFlowEndpoint Nat).on .hello
        ⟨fun conn _ n => ⟨conn, n + 1, none⟩, fun _ _ _ => Nat.le_refl _⟩
    (ep.ingestChunks { fd := 7 } [[0x01, 0x00, 0x00], [0x08, 0x00, 0x00, 0x00, 0x2A]] 0).dispatched
      =
    (ep.ingest { fd := 7 } [0x01, 0x00, 0x00, 0x08, 0x00, 0x00, 0x00, 0x2A] 0).dispatched :=
  (ingestChunks_eq_ingest _
    (OpenFlowEndpoint.handlersKeepConnection_empty.on (fun _ _ _ => rfl) .hello filterAll)
    { fd := 7 } (by decide) _ (by decide) _ (by decide) (by decide) 0
    ⟨true, by decide +kernel⟩ ⟨true, by decide +kernel⟩).1

end Oflib
