import NetOrc.OpenFlow.Rounds

/-!
This module contains the header validator and compares it with the checks that the framer makes: the
framer does not look at the type.
-/

namespace NetOrc

open Framing
open Oflib

variable {σ τ : Type}

def validateHeader (hdr : Header) (receivedBytes : Nat) : Bool :=
  let maxOFPacketSize := 65535
  if hdr.version ≠ 0x01 then
    false
  else if hdr.length.toNat < 8 then
    false
  else if hdr.length.toNat > maxOFPacketSize then
    false
  else if hdr.length.toNat ≠ receivedBytes then
    false
  else if hdr.type > 21 then
    false
  else
    true

theorem validateHeader_iff {hdr : Header} {receivedBytes : Nat} :
    validateHeader hdr receivedBytes
      ↔
    hdr.Framed ∧ hdr.length.toNat = receivedBytes ∧ hdr.type ≤ 21 := by
  have hlength := hdr.length.toNat_lt
  have hmax : ¬hdr.length.toNat > 65535 := by omega
  unfold validateHeader Header.Framed kOFVersion10 kOFHeaderLen
  by_cases hversion : hdr.version = 0x01
  . by_cases hmin : hdr.length.toNat < 8
    . simp [hmin, Nat.not_le.mpr hmin]
    . by_cases hreceived : hdr.length.toNat = receivedBytes
      . simp [hversion, hmax, ← hreceived, Nat.not_lt.mp hmin, hmin, UInt8.not_lt]
      . simp [hreceived]
  . simp [hversion]

theorem nextFrame_ok_nil_iff {b : Bytes} {hdr : Header} (h : parseHeader b = some hdr) :
    ((nextFrame b {}).status = .ok ∧ (nextFrame b {}).inbuf = [])
      ↔
    hdr.Framed ∧ hdr.length.toNat = b.length := by
  rcases nextFrame_cases b {} with ⟨hshort, _⟩ | ⟨hdr', hp, hf, hnext⟩ | ⟨hdr', hp, hf, hlt, hnext⟩
    | ⟨hdr', hp, hf, hle, hnext⟩
  . have hlong := parseHeader_isSome_iff.mp (by simp [h] : (parseHeader b).isSome)
    omega
  . cases h.symm.trans hp
    simp [hnext, hf]
  . cases h.symm.trans hp
    simp [hnext, hf]
    omega
  . cases h.symm.trans hp
    simp [hnext, hf]
    omega

/--
On a buffer with a header the framer carves exactly what the validator accepts, if the type is a known
one or if the framer does not carve the whole buffer either way. Of the frames that `ingest` dispatches,
the validator accepts exactly those of a known type.
-/
theorem headerChecks_agree_iff (b : Bytes) (hdr : Header) (h : parseHeader b = some hdr) :
    ((((nextFrame b {}).status = .ok ∧ (nextFrame b {}).inbuf = [])
          ↔ validateHeader hdr b.length = true)
        ↔ (hdr.type ≤ 21 ∨ hdr.version ≠ kOFVersion10 ∨ hdr.length.toNat < kOFHeaderLen
            ∨ hdr.length.toNat ≠ b.length))
      ∧ ∀ (ep : OpenFlowEndpoint σ) (dispatch : PacketType → HandlerFn τ) (conn : Connection)
          (data : Bytes) (w : τ), ∀ d ∈ (ep.ingestWith dispatch conn data w).dispatched,
            validateHeader d.frame.header (kOFHeaderLen + d.frame.body.length) = true
              ↔ d.frame.header.type ≤ 21 := by
  constructor
  . rw [nextFrame_ok_nil_iff h, validateHeader_iff]
    unfold Header.Framed
    grind
  . intro ep dispatch conn data w d hd
    have hwell := ep.ingestWith_wellFormed dispatch conn data w d hd
    rw [validateHeader_iff, and_iff_right hwell.framed, and_iff_right hwell.2]

theorem headerChecks_agree_hello :
    ((nextFrame [0x01, 0x00, 0x00, 0x08, 0x00, 0x00, 0x00, 0x01] {}).status = .ok
        ∧ (nextFrame [0x01, 0x00, 0x00, 0x08, 0x00, 0x00, 0x00, 0x01] {}).inbuf = [])
      ↔
    validateHeader ⟨0x01, 0x00, 8, 1⟩ 8 = true :=
  (headerChecks_agree_iff (σ := Unit) (τ := Unit)
    [0x01, 0x00, 0x00, 0x08, 0x00, 0x00, 0x00, 0x01] ⟨0x01, 0x00, 8, 1⟩ (by decide)).1.mpr
    (.inl (by decide))

/--
A frame of type 22: the framer carves it and `ingest` dispatches it, but the validator rejects its header.
-/
theorem headerChecks_disagree_unknown_type :
    let b : Bytes := [0x01, 0x16, 0x00, 0x08, 0x00, 0x00, 0x00, 0x01]
    parseHeader b = some ⟨0x01, 0x16, 8, 1⟩ ∧ (nextFrame b {}).status = .ok
      ∧ (nextFrame b {}).inbuf = [] ∧ validateHeader ⟨0x01, 0x16, 8, 1⟩ b.length = false
      ∧ (({} : OpenFlowEndpoint Unit).ingest { fd := 7 } b ()).dispatched
          = [⟨⟨22⟩, ⟨⟨0x01, 0x16, 8, 1⟩, []⟩, .connected⟩] := by
  decide +kernel

end NetOrc
