import NetOrc.OpenFlow.Chunking
import NetOrc.Transition.Basic

/-!
This module contains any number of connections that are served over one world. Each worker is between
two calls of `ingest` or inside of its loop, and the rounds of the loops interleave in any way.
-/

namespace Oflib

open Transition

variable {ι σ τ : Type}

inductive Phase where
  | receiving
  | ingesting
  | gone
  deriving DecidableEq, Repr

def Phase.after (verdict : Bool) : Phase := if verdict then .receiving else .gone

structure Peer where
  conn : Connection
  phase : Phase := .receiving
  dispatched : List Dispatched := []
  deriving DecidableEq, Repr

inductive PeerAction where
  | recv (data : Bytes)
  | round
  deriving DecidableEq, Repr

def PeerAction.chunk? (action : PeerAction) : Option Bytes :=
  match action with
  | .recv data => some data
  | .round => none

namespace Peer

variable (ep : OpenFlowEndpoint σ) (dispatch : PacketType → HandlerFn τ)

/--
A step of the worker of a connection: the start of `ingest` on a chunk, or a round of its loop. A
handler that throws ends the program, so there is no state behind it.
-/
def step (peer : Peer) (w : τ) (action : PeerAction) : Option (Peer × τ) :=
  match peer.phase, action with
  | .receiving, .recv data =>
    if data.length = 0 ∨ peer.conn.fd < 0 then
      some ({ peer with phase := .gone }, w)
    else
      some ({ peer with
        conn := { peer.conn with inbuf := peer.conn.inbuf ++ data }
        phase := .ingesting }, w)
  | .ingesting, .round =>
    match ep.ingestStep dispatch peer.conn w with
    | .ret verdict conn => some ({ peer with conn := conn, phase := .after verdict }, w)
    | .dispatched d r =>
      match r.fault with
      | some _ => none
      | none => some ({ peer with conn := r.conn, dispatched := peer.dispatched ++ [d] }, r.world)
  | _, _ => none

variable {ep dispatch}

theorem step_cases {peer peer' : Peer} {w w' : τ} {action : PeerAction}
    (h : peer.step ep dispatch w action = some (peer', w')) :
    (∃ data, action = .recv data ∧ peer.phase = .receiving ∧ w = w'
        ∧ ((data.length = 0 ∨ peer.conn.fd < 0) ∧ peer' = { peer with phase := .gone }
          ∨ ¬(data.length = 0 ∨ peer.conn.fd < 0)
            ∧ peer' = { peer with
                conn := { peer.conn with inbuf := peer.conn.inbuf ++ data }
                phase := .ingesting }))
      ∨ action = .round ∧ peer.phase = .ingesting
        ∧ ((∃ verdict conn, ep.ingestStep dispatch peer.conn w = .ret verdict conn ∧ w = w'
            ∧ peer' = { peer with conn := conn, phase := .after verdict })
          ∨ ∃ d r, ep.ingestStep dispatch peer.conn w = .dispatched d r ∧ r.fault = none
            ∧ w' = r.world
            ∧ peer' = { peer with conn := r.conn, dispatched := peer.dispatched ++ [d] }) := by
  unfold step at h
  split at h
  . next data hphase =>
    left
    split at h
    . next hdata => cases h; exact ⟨data, rfl, hphase, rfl, .inl ⟨hdata, rfl⟩⟩
    . next hdata => cases h; exact ⟨data, rfl, hphase, rfl, .inr ⟨hdata, rfl⟩⟩
  . next hphase =>
    right
    refine ⟨rfl, hphase, ?_⟩
    split at h
    . next hstep => cases h; exact .inl ⟨_, _, hstep, rfl, rfl⟩
    . next hstep =>
      split at h
      . contradiction
      . next hfault => cases h; exact .inr ⟨_, _, hstep, hfault, rfl, rfl⟩
  . contradiction

theorem step_fd (hkeep : KeepsDescriptor dispatch) {peer peer' : Peer} {w w' : τ}
    {action : PeerAction} (h : peer.step ep dispatch w action = some (peer', w')) :
    peer'.conn.fd = peer.conn.fd := by
  rcases step_cases h with ⟨data, _, _, _, ⟨_, rfl⟩ | ⟨_, rfl⟩⟩
    | ⟨_, _, ⟨verdict, conn, hstep, _, rfl⟩ | ⟨d, r, hstep, _, _, rfl⟩⟩
  . rfl
  . rfl
  . exact (OpenFlowEndpoint.ingestStep_ret hstep).1
  . rcases OpenFlowEndpoint.ingestStep_dispatched hstep with ⟨conn, hfd, _, rfl⟩
    exact (hkeep _ _ _ _).trans hfd

end Peer

structure Peers (ι τ : Type) where
  peers : ι → Peer
  world : τ

namespace Peers

variable [DecidableEq ι] (ep : OpenFlowEndpoint σ) (dispatch : PacketType → HandlerFn τ)

def step (s : Peers ι τ) (action : ι × PeerAction) : Option (Peers ι τ) :=
  ((s.peers action.1).step ep dispatch s.world action.2).map
    (fun r => { peers := Function.update s.peers action.1 r.1, world := r.2 })

variable {ep dispatch}

theorem step_eq_some_iff {s s' : Peers ι τ} {i : ι} {action : PeerAction} :
    s.step ep dispatch (i, action) = some s'
      ↔
    ∃ peer w, (s.peers i).step ep dispatch s.world action = some (peer, w)
      ∧ s' = { peers := Function.update s.peers i peer, world := w } := by
  unfold step
  rw [Option.map_eq_some_iff]
  simp only [Prod.exists, eq_comm]

theorem step_fd (hkeep : KeepsDescriptor dispatch) {s s' : Peers ι τ} {action : ι × PeerAction}
    (h : s.step ep dispatch action = some s') (i : ι) :
    (s'.peers i).conn.fd = (s.peers i).conn.fd := by
  rcases step_eq_some_iff.mp h with ⟨peer, w, hpeer, rfl⟩
  dsimp only
  by_cases hi : i = action.1
  . rw [hi, Function.update_self]
    exact Peer.step_fd hkeep hpeer
  . rw [Function.update_of_ne hi]

end Peers

/-! One connection alone: its steps are the calls of `ingest`. -/

namespace OpenFlowEndpoint

variable (ep : OpenFlowEndpoint σ) (dispatch : PacketType → HandlerFn τ)

def resumeChunks (r : IngestResult τ) (chunks : List Bytes) : IngestResult τ :=
  match r.verdict with
  | .ok true =>
    let tail := ep.ingestChunksWith dispatch r.conn chunks r.world
    { tail with dispatched := r.dispatched ++ tail.dispatched }
  | _ => r

theorem ingestChunksWith_cons (conn : Connection) (c : Bytes) (cs : List Bytes) (w : τ) :
    ep.ingestChunksWith dispatch conn (c :: cs) w
      =
    ep.resumeChunks dispatch (ep.ingestWith dispatch conn c w) cs := rfl

theorem resumeChunks_log (r : IngestResult τ) (log : List Dispatched) (chunks : List Bytes) :
    ep.resumeChunks dispatch { r with dispatched := log ++ r.dispatched } chunks
      =
    { ep.resumeChunks dispatch r chunks with
      dispatched := log ++ (ep.resumeChunks dispatch r chunks).dispatched } := by
  unfold resumeChunks
  dsimp only
  split
  . rw [List.append_assoc]
  . rfl

end OpenFlowEndpoint

namespace Peer

variable (ep : OpenFlowEndpoint σ) (dispatch : PacketType → HandlerFn τ)

def result (peer : Peer) (w : τ) : IngestResult τ :=
  match peer.phase with
  | .receiving => ⟨.ok true, peer.conn, w, peer.dispatched⟩
  | .ingesting => ep.ingestLoop dispatch peer.conn w peer.dispatched
  | .gone => ⟨.ok false, peer.conn, w, peer.dispatched⟩

theorem result_of_after (peer : Peer) (verdict : Bool) (hphase : peer.phase = .after verdict) (w : τ) :
    peer.result ep dispatch w = ⟨.ok verdict, peer.conn, w, peer.dispatched⟩ := by
  unfold result
  cases verdict <;> rw [hphase] <;> rfl

theorem resumeChunks_step {peer peer' : Peer} {w w' : τ} {action : PeerAction}
    (h : peer.step ep dispatch w action = some (peer', w')) (chunks : List Bytes) :
    ep.resumeChunks dispatch (peer.result ep dispatch w) (action.chunk?.toList ++ chunks)
      =
    ep.resumeChunks dispatch (peer'.result ep dispatch w') chunks := by
  rcases step_cases h with ⟨data, rfl, hphase, rfl, hdata⟩
    | ⟨rfl, hphase, ⟨verdict, conn, hstep, rfl, rfl⟩ | ⟨d, r, hstep, hfault, rfl, rfl⟩⟩
  . have hresume : ep.resumeChunks dispatch (peer.result ep dispatch w) (data :: chunks)
        = ep.resumeChunks dispatch
            { ep.ingestWith dispatch peer.conn data w with
              dispatched := peer.dispatched
                ++ (ep.ingestWith dispatch peer.conn data w).dispatched } chunks := by
      rw [OpenFlowEndpoint.resumeChunks_log, ← OpenFlowEndpoint.ingestChunksWith_cons]
      simp only [result, hphase, OpenFlowEndpoint.resumeChunks]
    refine Eq.trans hresume (congrArg (ep.resumeChunks dispatch · chunks) ?_)
    unfold OpenFlowEndpoint.ingestWith result
    rcases hdata with ⟨hdata, rfl⟩ | ⟨hdata, rfl⟩
    . simp only [if_pos hdata, List.append_nil]
    . simp only [if_neg hdata]
      exact (ep.ingestLoop_log dispatch _ w peer.dispatched).symm
  . rw [result_of_after ep dispatch { peer with conn := conn, phase := .after verdict } verdict rfl]
    simp only [result, hphase, OpenFlowEndpoint.ingestLoop_of_ret hstep]
    rfl
  . simp only [result, hphase, OpenFlowEndpoint.ingestLoop_of_dispatched hstep, hfault]
    rfl

end Peer

def chunksOf [DecidableEq ι] (i : ι) (actions : List (ι × PeerAction)) : List Bytes :=
  (actions.filter (fun a => a.1 = i)).filterMap (fun a => a.2.chunk?)

namespace Peers

variable [DecidableEq ι] {ep : OpenFlowEndpoint σ} {dispatch : PacketType → HandlerFn τ}

theorem resumeChunks_run {s s' : Peers ι τ} {i : ι} {actions : List (ι × PeerAction)}
    (hrun : run (step ep dispatch) (fun _ _ => true) s (actions.filter (fun a => a.1 = i)) = some s') :
    ep.resumeChunks dispatch ((s.peers i).result ep dispatch s.world) (chunksOf i actions)
      =
    ep.resumeChunks dispatch ((s'.peers i).result ep dispatch s'.world) [] := by
  unfold chunksOf
  generalize hown : actions.filter (fun a => a.1 = i) = own at hrun ⊢
  have hi : ∀ a ∈ own, a.1 = i := by
    intro a ha
    rw [← hown] at ha
    simpa using (List.mem_filter.mp ha).2
  clear hown
  induction own generalizing s with
  | nil => cases hrun; rfl
  | cons a own ih =>
    rcases a with ⟨j, action⟩
    have hj : j = i := hi (j, action) (by simp)
    subst hj
    rw [run, if_pos rfl] at hrun
    rcases Option.bind_eq_some_iff.mp hrun with ⟨s₁, hstep, hrest⟩
    rcases step_eq_some_iff.mp hstep with ⟨peer, w, hpeer, rfl⟩
    have ih := ih hrest (fun a ha => hi a (List.mem_cons_of_mem _ ha))
    dsimp only at ih
    rw [Function.update_self] at ih
    rw [← ih, ← Peer.resumeChunks_step ep dispatch hpeer]
    congr 1
    cases action <;> rfl

theorem ingestChunksWith_eq_of_run {s s' : Peers ι τ} {i : ι} {actions : List (ι × PeerAction)}
    {conn : Connection} {w : τ} (hpeer : s.peers i = { conn := conn }) (hworld : s.world = w)
    (hrun : run (step ep dispatch) (fun _ _ => true) s (actions.filter (fun a => a.1 = i)) = some s')
    {verdict : Bool} (hphase : (s'.peers i).phase = .after verdict) :
    ep.ingestChunksWith dispatch conn (chunksOf i actions) w
      =
    ⟨.ok verdict, (s'.peers i).conn, s'.world, (s'.peers i).dispatched⟩ := by
  have hresume := resumeChunks_run hrun
  rw [Peer.result_of_after _ _ _ true (by rw [hpeer]; rfl), Peer.result_of_after _ _ _ verdict hphase,
    hpeer, hworld] at hresume
  unfold OpenFlowEndpoint.resumeChunks at hresume
  cases verdict with
  | true =>
    simp only [OpenFlowEndpoint.ingestChunksWith, List.nil_append, List.append_nil] at hresume
    exact hresume
  | false =>
    simp only [List.nil_append] at hresume
    exact hresume

end Peers

end Oflib
