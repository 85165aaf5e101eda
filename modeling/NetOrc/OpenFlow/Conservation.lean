import NetOrc.OpenFlow.Chunking

/-!
This module shows that `ingest` neither loses nor adds bytes: what it received is the wire image of the
frames it carved, followed by the accumulation buffer.
-/

namespace Oflib

open BigEndian
open Framing

variable {σ τ : Type}

theorem length_le_of_more {b : Bytes} (h : framer.carve b = .more) : b.length ≤ 65534 := by
  rcases carveFrame_eq_more_iff.mp h with hshort | ⟨hdr, _, _, hlt⟩
  . unfold kOFHeaderLen at hshort
    omega
  . have := hdr.length.toNat_lt
    omega

theorem length_stream_ge (fs : List Frame) : 8 * fs.length ≤ (frameEncoding.stream fs).length := by
  induction fs with
  | nil => simp
  | cons f fs ih =>
    rw [Encoding.stream_cons, List.length_append, List.length_cons]
    change _ ≤ (encodeFrame f).length + _
    rw [length_encodeFrame]
    unfold kOFHeaderLen
    omega

def KeepsBuffer (dispatch : PacketType → HandlerFn τ) : Prop :=
  ∀ type conn frame w, ((dispatch type).call conn frame w).conn.inbuf = conn.inbuf

theorem KeepsConnection.keepsBuffer {dispatch : PacketType → HandlerFn τ}
    (h : KeepsConnection dispatch) : KeepsBuffer dispatch :=
  fun type conn frame w => congrArg Connection.inbuf (h type conn frame w)

namespace OpenFlowEndpoint

variable {ep : OpenFlowEndpoint σ} {dispatch : PacketType → HandlerFn τ}

theorem ingestStep_dispatched_inbuf (hkeep : KeepsBuffer dispatch) {conn : Connection} {w : τ}
    {d : Dispatched} {r : HandlerResult τ}
    (h : ep.ingestStep dispatch conn w = .dispatched d r) :
    framer.carve conn.inbuf = .frame d.frame r.conn.inbuf := by
  rcases ingestStep_dispatched_eq h with ⟨rest, hcarve, _, _, rfl⟩
  rw [hkeep]
  exact hcarve

theorem ingestLoop_wellFormed (ep : OpenFlowEndpoint σ) (dispatch : PacketType → HandlerFn τ)
    (conn : Connection) (w : τ) (log : List Dispatched) (hlog : ∀ d ∈ log, d.frame.WellFormed) :
    ∀ d ∈ (ep.ingestLoop dispatch conn w log).dispatched, d.frame.WellFormed := by
  induction conn, w using ingest_induction ep dispatch generalizing log with
  | ret conn w verdict conn' hstep =>
    rw [ingestLoop_of_ret hstep]
    exact hlog
  | dispatched conn w d r hstep ih =>
    rcases ingestStep_dispatched_eq hstep with ⟨rest, hcarve, _⟩
    have hlog : ∀ d' ∈ log ++ [d], d'.frame.WellFormed := by
      intro d' hd'
      rcases List.mem_append.mp hd' with hd' | hd'
      . exact hlog d' hd'
      . rw [List.mem_singleton.mp hd']
        exact (carveFrame_eq_frame_iff_encodeFrame.mp hcarve).1
    rw [ingestLoop_of_dispatched hstep]
    cases hfault : r.fault with
    | some e => exact hlog
    | none => exact ih hfault (log ++ [d]) hlog

theorem ingestWith_wellFormed (ep : OpenFlowEndpoint σ) (dispatch : PacketType → HandlerFn τ)
    (conn : Connection) (data : Bytes) (w : τ) :
    ∀ d ∈ (ep.ingestWith dispatch conn data w).dispatched, d.frame.WellFormed := by
  unfold ingestWith
  split
  . simp
  . exact ep.ingestLoop_wellFormed dispatch _ w [] (by simp)

theorem ingestLoop_conserves (ep : OpenFlowEndpoint σ) (hkeep : KeepsBuffer dispatch)
    (conn : Connection) (w : τ) (log : List Dispatched)
    (hv : (ep.ingestLoop dispatch conn w log).verdict = .ok true) :
    let r := ep.ingestLoop dispatch conn w log
    frameEncoding.stream (r.dispatched.map Dispatched.frame) ++ r.conn.inbuf
        = frameEncoding.stream (log.map Dispatched.frame) ++ conn.inbuf
      ∧ framer.carve r.conn.inbuf = .more := by
  induction conn, w using ingest_induction ep dispatch generalizing log with
  | ret conn w verdict conn' hstep =>
    rw [ingestLoop_of_ret hstep] at hv ⊢
    cases hv
    rcases ingestStep_ret_cases hstep with ⟨hmore, _, rfl⟩ | ⟨_, h, _⟩ | ⟨_, _, _, _, h, _⟩
    . exact ⟨rfl, hmore⟩
    . contradiction
    . contradiction
  | dispatched conn w d r hstep ih =>
    rw [ingestLoop_of_dispatched hstep] at hv ⊢
    cases hfault : r.fault with
    | some e => rw [hfault] at hv; contradiction
    | none =>
      simp only [hfault] at hv ⊢
      rcases ih hfault (log ++ [d]) hv with ⟨hbytes, hmore⟩
      refine ⟨?_, hmore⟩
      -- The frame that moves to the log is the one that leaves the buffer.
      have hcarve := ingestStep_dispatched_inbuf hkeep hstep
      rw [hbytes, List.map_append, Encoding.stream_append, List.append_assoc,
        (carveFrame_eq_frame_iff_encodeFrame.mp hcarve).2]
      simp [frameEncoding]

theorem ingestChunksWith_conserves (ep : OpenFlowEndpoint σ) (hkeep : KeepsBuffer dispatch)
    (conn : Connection) (hwait : framer.carve conn.inbuf = .more) (chunks : List Bytes) (w : τ)
    (hv : (ep.ingestChunksWith dispatch conn chunks w).verdict = .ok true) :
    let r := ep.ingestChunksWith dispatch conn chunks w
    frameEncoding.stream (r.dispatched.map Dispatched.frame) ++ r.conn.inbuf
        = conn.inbuf ++ chunks.flatten
      ∧ framer.carve r.conn.inbuf = .more := by
  induction chunks generalizing conn w with
  | nil => simp [ingestChunksWith, hwait]
  | cons c cs ih =>
    by_cases hc : (ep.ingestWith dispatch conn c w).verdict = .ok true
    . rw [ingestChunksWith_cons_of_ok hc] at hv ⊢
      have hcall : (frameEncoding.stream ((ep.ingestWith dispatch conn c w).dispatched.map
          Dispatched.frame) ++ (ep.ingestWith dispatch conn c w).conn.inbuf = conn.inbuf ++ c)
            ∧ framer.carve (ep.ingestWith dispatch conn c w).conn.inbuf = .more := by
        unfold ingestWith at hc ⊢
        split
        . next hclosed => rw [if_pos hclosed] at hc; cases hc
        . next hopen =>
          rw [if_neg hopen] at hc
          exact ep.ingestLoop_conserves hkeep _ w [] hc
      rcases ih _ hcall.2 _ hv with ⟨hbytes, hmore⟩
      refine ⟨?_, hmore⟩
      dsimp only at hbytes ⊢
      rw [List.map_append, Encoding.stream_append, List.append_assoc, hbytes, ← List.append_assoc,
        hcall.1, List.flatten_cons, List.append_assoc]
    . rw [ingestChunksWith_cons_of_ne hc] at hv
      contradiction

end OpenFlowEndpoint

/--
As long as `ingest` returns `true`, the frames it carved and the buffer it keeps are what it received.
It then waits for the rest of a frame, so the buffer is shorter than the longest frame.
-/
theorem ingestChunks_conserves (ep : OpenFlowEndpoint σ) (dispatch : PacketType → HandlerFn τ)
    (hkeep : KeepsBuffer dispatch) (conn : Connection) (hempty : conn.inbuf = [])
    (chunks : List Bytes) (w : τ)
    (hv : (ep.ingestChunksWith dispatch conn chunks w).verdict = .ok true) :
    let r := ep.ingestChunksWith dispatch conn chunks w
    (r.dispatched.map Dispatched.frame).flatMap encodeFrame ++ r.conn.inbuf = chunks.flatten
      ∧ (nextFrame r.conn.inbuf {}).status = .needMore
      ∧ r.conn.inbuf.length ≤ 65534
      ∧ r.dispatched.length ≤ chunks.flatten.length / 8 := by
  have hwait : framer.carve conn.inbuf = .more := by rw [hempty, framer_carve_nil]
  rcases ep.ingestChunksWith_conserves hkeep conn hwait chunks w hv with ⟨hbytes, hmore⟩
  rw [hempty, List.nil_append] at hbytes
  refine ⟨hbytes, ?_, length_le_of_more hmore, ?_⟩
  . rw [nextFrame_eq, hmore]
  . have hlength := congrArg List.length hbytes
    rw [List.length_append] at hlength
    have hframes := length_stream_ge ((ep.ingestChunksWith dispatch conn chunks w).dispatched.map
      Dispatched.frame)
    rw [List.length_map] at hframes
    omega

theorem ingestChunks_conserves_hello :
    let ep : OpenFlowEndpoint Nat :=
      ({} : OpenFlowEndpoint Nat).on .hello
        ⟨fun conn _ n => ⟨conn, n + 1, none⟩, fun _ _ _ => Nat.le_refl _⟩
    let r := ep.ingestChunksWith ep.dispatch { fd := 7 }
      [[0x01, 0x00, 0x00], [0x08, 0x00, 0x00, 0x00, 0x2A, 0x01, 0x00, 0x00], [0x10]] 0
    (r.dispatched.map Dispatched.frame).flatMap encodeFrame ++ r.conn.inbuf
      =
    [0x01, 0x00, 0x00, 0x08, 0x00, 0x00, 0x00, 0x2A, 0x01, 0x00, 0x00, 0x10] :=
  (ingestChunks_conserves _ _
    (OpenFlowEndpoint.handlersKeepConnection_empty.on (fun _ _ _ => rfl) .hello
      filterAll).keepsConnection.keepsBuffer
    { fd := 7 } rfl _ 0 (by decide +kernel)).1

end Oflib
