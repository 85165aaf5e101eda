import NetOrc.Southbound.PacketHandlers

/-!
This module shows on which byte streams a peer brings the controller down: an exception escapes from
`ingest` exactly if a PACKET_IN with an LLDP chassis or port id of length 0 is dispatched.
-/

namespace NetOrc

open Framing
open Oflib

variable {σ : Type}

def HasEmptyId (body : Bytes) : Prop :=
  LLDPParser.isLLDP body ∧ ∃ t ∈ LLDPParser.tlvs body, LLDPParser.EmptyId t

instance (body : Bytes) : Decidable (HasEmptyId body) := inferInstanceAs (Decidable (_ ∧ _))

theorem lldpFault_eq_none_iff {frame : Frame} :
    lldpFault frame.type frame = none ↔ (frame.type = .packetIn → ¬HasEmptyId frame.body) := by
  unfold lldpFault HasEmptyId
  split
  . next h => simp only [reduceCtorEq, false_iff, not_forall, not_not]; exact ⟨h.1, h.2⟩
  . next h => simp only [true_iff]; exact fun htype hempty => h ⟨htype, hempty⟩

def sbiIngestChunks (svc : ServiceTable σ) (junk : Connection → Frame → σ → Uninit)
    (conn : Connection) (chunks : List Bytes) (w : σ × List Event) : IngestResult (σ × List Event) :=
  let ep := sbiEndpoint svc junk
  ep.ingestChunksWith (serverDispatch ep) conn chunks w

theorem sbiIngestChunks_describes (svc : ServiceTable σ) (junk : Connection → Frame → σ → Uninit)
    (conn : Connection) (hfd : 0 ≤ conn.fd) (hwait : framer.carve conn.inbuf = .more)
    {chunks : List Bytes} (hne : ∀ c ∈ chunks, c ≠ []) (w : σ × List Event) :
    Drained.Describes
      (framer.drain (receive (sbiEndpoint svc junk).runValidator lldpFault)
        (conn.inbuf ++ chunks.flatten) ⟨conn.state, []⟩) conn.fd
      (sbiIngestChunks svc junk conn chunks w) :=
  OpenFlowEndpoint.ingestChunksWith_describes_of_faultsBy
    (serverDispatch_keepsConnection (sbiEndpoint_keepsConnection svc junk))
    (serverDispatch_faultsBy (sbiEndpoint_faultsBy svc junk)) hfd hwait hne w

theorem parse_isOk_iff (payload : Bytes) (ttl : UInt16) :
    (∃ neighbor, LLDPParser.parse payload ttl = .ok neighbor)
      ↔
    ∀ t ∈ LLDPParser.tlvs payload, ¬LLDPParser.EmptyId t := by
  rw [LLDPParser.parse_eq]
  split
  . next h =>
    rcases h with ⟨t, ht, hempty⟩
    simp only [reduceCtorEq, exists_false, false_iff, not_forall, not_not]
    exact ⟨t, ht, hempty⟩
  . next h =>
    simp only [Except.ok.injEq, exists_eq', true_iff]
    exact fun t ht hempty => h ⟨t, ht, hempty⟩

theorem parse_ne_outOfRange (payload : Bytes) (ttl : UInt16) (index : Nat) :
    LLDPParser.parse payload ttl ≠ .error (.outOfRange index) := by
  rw [LLDPParser.parse_eq]
  split <;> simp

/--
For every stream of a peer, in any chunking, no fault escapes from the `ingest` calls exactly if no
PACKET_IN before the first rejected frame has an empty chassis or port id. The parser itself stops on
every payload and never reads out of bounds.
-/
theorem sbiIngestChunks_returns_iff (svc : ServiceTable σ)
    (junk : Connection → Frame → σ → Uninit) (fd : Int32) (hfd : 0 ≤ fd) (chunks : List Bytes)
    (hne : ∀ c ∈ chunks, c ≠ []) (w : σ × List Event) :
    ((∃ v, (sbiIngestChunks svc junk { fd := fd } chunks w).verdict = .ok v)
        ↔
      ∀ f ∈ (framer.split chunks.flatten).1.takeWhile
          (fun f => (sbiEndpoint svc junk).runValidator f.type f),
        f.type = .packetIn → ¬HasEmptyId f.body)
      ∧ (∀ payload ttl, (∃ neighbor, LLDPParser.parse payload ttl = .ok neighbor)
          ↔ ∀ t ∈ LLDPParser.tlvs payload, ¬LLDPParser.EmptyId t)
      ∧ (∀ payload ttl index, LLDPParser.parse payload ttl ≠ .error (.outOfRange index)) := by
  refine ⟨?_, parse_isOk_iff, parse_ne_outOfRange⟩
  have h := sbiIngestChunks_describes svc junk { fd := fd } hfd framer_carve_nil hne w
  rw [h.eqs.1]
  simp only [← lldpFault_eq_none_iff]
  exact drain_returns_iff _ _

theorem sbiIngestChunks_returns_hello :
    ∃ v, (sbiIngestChunks (services (fun _ => false)) (fun _ _ _ => ⟨0, 0, 0⟩) { fd := 7 }
      [[0x01, 0x00, 0x00, 0x08], [0x00, 0x00, 0x00, 0x01]] ({}, [])).verdict = .ok v :=
  (sbiIngestChunks_returns_iff _ _ 7 (by decide) _ (by decide) _).1.mpr (by decide +kernel)

/--
A PACKET_IN whose chassis id TLV announces 0 bytes: the frame passes the framer and the validator,
and `std::length_error` escapes from `ingest`.
-/
theorem sbiIngestChunks_lengthError :
    (sbiIngestChunks (services (fun _ => false)) (fun _ _ _ => ⟨0, 0, 0⟩) { fd := 7 }
        [[0x01, 0x0A, 0x00, 0x18, 0x00, 0x00, 0x00, 0x01,
          0xFF, 0xFF, 0xFF, 0xFF, 0x00, 0x06, 0x00, 0x01, 0x00, 0x00,
          0x00, 0x00, 0x88, 0xCC, 0x02, 0x00]] ({}, [])).verdict
      =
    .error .lengthError := by
  decide +kernel

end NetOrc
