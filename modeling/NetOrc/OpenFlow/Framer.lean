import NetOrc.Data.BigEndian
import NetOrc.Framing.Encoding
import NetOrc.OpenFlow.Basic

/-!
This module contains the framer, which carves OpenFlow frames off an accumulation buffer, and shows
that it is an incremental decoder for the OpenFlow wire format.
-/

namespace Oflib

open BigEndian
open Framing

/--
`Framer::parse_header`. A buffer too short for a header stands for the null pointer.
-/
def parseHeader (bytes : Bytes) : Option Header :=
  match bytes with
  | b0 :: b1 :: b2 :: b3 :: b4 :: b5 :: b6 :: b7 :: _ =>
    some { version := b0, type := b1, length := u16 b2 b3, xid := u32 b4 b5 b6 b7 }
  | _ => none

structure Carved where
  status : ParseStatus
  inbuf : Bytes
  out : Frame
  deriving DecidableEq, Repr

def nextFrame (inbuf : Bytes) (out : Frame) : Carved :=
  if inbuf.length < kOFHeaderLen then
    ⟨.needMore, inbuf, out⟩
  else
    match parseHeader inbuf with
    | none => ⟨.invalid, inbuf, out⟩
    | some hdr =>
      if hdr.version ≠ kOFVersion10 ∨ hdr.length.toNat < kOFHeaderLen
          ∨ hdr.length.toNat > kOFMaxFrameLen then
        ⟨.invalid, inbuf, out⟩
      else if inbuf.length < hdr.length.toNat then
        ⟨.needMore, inbuf, out⟩
      else
        let bodyLen := hdr.length.toNat - kOFHeaderLen
        let out : Frame := ⟨hdr, (inbuf.take hdr.length.toNat).drop kOFHeaderLen⟩
        let inbuf := inbuf.drop hdr.length.toNat
        if out.body.length ≠ bodyLen then
          ⟨.invalid, inbuf, out⟩
        else
          ⟨.ok, inbuf, out⟩

theorem parseHeader_isSome_iff {b : Bytes} :
    (parseHeader b).isSome ↔ kOFHeaderLen ≤ b.length := by
  unfold parseHeader kOFHeaderLen
  split
  . simp
  . next hne =>
    simp only [Option.isSome_none, Bool.false_eq_true, false_iff, Nat.not_le]
    match b with
    | [] | [_] | [_, _] | [_, _, _] | [_, _, _, _] | [_, _, _, _, _] | [_, _, _, _, _, _]
    | [_, _, _, _, _, _, _] => simp
    | _ :: _ :: _ :: _ :: _ :: _ :: _ :: _ :: _ => exact absurd rfl (hne _ _ _ _ _ _ _ _ _)

theorem parseHeader_append {b : Bytes} {hdr : Header} (h : parseHeader b = some hdr) (c : Bytes) :
    parseHeader (b ++ c) = some hdr := by
  unfold parseHeader at h
  split at h
  . exact h
  . contradiction

def Header.Framed (hdr : Header) : Prop :=
  hdr.version = kOFVersion10 ∧ kOFHeaderLen ≤ hdr.length.toNat

instance (hdr : Header) : Decidable hdr.Framed :=
  inferInstanceAs (Decidable (_ ∧ _))

/--
What `next_frame` does, without the branches it never takes: the 16-bit length cannot exceed
`kOFMaxFrameLen`, and the body it assigns always has the announced length.
-/
theorem nextFrame_cases (b : Bytes) (out : Frame) :
    (b.length < kOFHeaderLen ∧ nextFrame b out = ⟨.needMore, b, out⟩)
      ∨ (∃ hdr, parseHeader b = some hdr ∧ ¬hdr.Framed ∧ nextFrame b out = ⟨.invalid, b, out⟩)
      ∨ (∃ hdr, parseHeader b = some hdr ∧ hdr.Framed ∧ b.length < hdr.length.toNat
          ∧ nextFrame b out = ⟨.needMore, b, out⟩)
      ∨ (∃ hdr, parseHeader b = some hdr ∧ hdr.Framed ∧ hdr.length.toNat ≤ b.length
          ∧ nextFrame b out
              =
            ⟨.ok, b.drop hdr.length.toNat,
              ⟨hdr, (b.take hdr.length.toNat).drop kOFHeaderLen⟩⟩) := by
  unfold nextFrame
  split
  . next hshort => exact .inl ⟨hshort, rfl⟩
  . next hlong =>
    have hsome : (parseHeader b).isSome := parseHeader_isSome_iff.mpr (by omega)
    rcases Option.isSome_iff_exists.mp hsome with ⟨hdr, hhdr⟩
    have hmax : hdr.length.toNat ≤ kOFMaxFrameLen := by
      have := hdr.length.toNat_lt
      unfold kOFMaxFrameLen
      omega
    simp only [hhdr]
    split
    . next hbad =>
      refine .inr (.inl ⟨hdr, rfl, ?_, rfl⟩)
      rintro ⟨hversion, hlength⟩
      rcases hbad with h | h | h
      . exact h hversion
      . omega
      . omega
    . next hgood =>
      have hframed : hdr.Framed := by
        simp only [not_or, not_not, Nat.not_lt] at hgood
        exact ⟨hgood.1, hgood.2.1⟩
      split
      . next hwait => exact .inr (.inr (.inl ⟨hdr, rfl, hframed, hwait, rfl⟩))
      . next hready =>
        refine .inr (.inr (.inr ⟨hdr, rfl, hframed, by omega, ?_⟩))
        rw [if_neg]
        simp only [List.length_drop, List.length_take, not_not]
        omega

def carveFrame (b : Bytes) : Carve UInt8 Frame :=
  let carved := nextFrame b {}
  match carved.status with
  | .needMore => .more
  | .invalid => .bad
  | .ok => .frame carved.out carved.inbuf

theorem carveFrame_eq_more_iff {b : Bytes} :
    carveFrame b = .more
      ↔
    b.length < kOFHeaderLen
      ∨ ∃ hdr, parseHeader b = some hdr ∧ hdr.Framed ∧ b.length < hdr.length.toNat := by
  unfold carveFrame
  rcases nextFrame_cases b {} with ⟨hb, h⟩ | ⟨hdr, hp, hf, h⟩ | ⟨hdr, hp, hf, hb, h⟩ | ⟨hdr, hp, hf, hb, h⟩
  . simp [h, hb]
  . have hlen := parseHeader_isSome_iff.mp (by simp [hp] : (parseHeader b).isSome)
    simp [h, hp, hf, Nat.not_lt.mpr hlen]
  . simp [h, hp, hf, hb]
  . have hlen := parseHeader_isSome_iff.mp (by simp [hp] : (parseHeader b).isSome)
    simp [h, hp, hf, Nat.not_lt.mpr hlen, Nat.not_lt.mpr hb]

theorem carveFrame_eq_bad_iff {b : Bytes} :
    carveFrame b = .bad ↔ ∃ hdr, parseHeader b = some hdr ∧ ¬hdr.Framed := by
  unfold carveFrame
  rcases nextFrame_cases b {} with ⟨hb, h⟩ | ⟨hdr, hp, hf, h⟩ | ⟨hdr, hp, hf, hb, h⟩ | ⟨hdr, hp, hf, hb, h⟩
  . have hnone : parseHeader b = none := by
      rw [← Option.not_isSome_iff_eq_none, parseHeader_isSome_iff]
      omega
    simp [h, hnone]
  . simp [h, hp, hf]
  . simp [h, hp, hf]
  . simp [h, hp, hf]

theorem carveFrame_eq_frame_iff {b : Bytes} {f : Frame} {r : Bytes} :
    carveFrame b = .frame f r
      ↔
    ∃ hdr, parseHeader b = some hdr ∧ hdr.Framed ∧ hdr.length.toNat ≤ b.length
      ∧ f = ⟨hdr, (b.take hdr.length.toNat).drop kOFHeaderLen⟩ ∧ r = b.drop hdr.length.toNat := by
  unfold carveFrame
  rcases nextFrame_cases b {} with ⟨hb, h⟩ | ⟨hdr, hp, hf, h⟩ | ⟨hdr, hp, hf, hb, h⟩ | ⟨hdr, hp, hf, hb, h⟩
  . have hnone : parseHeader b = none := by
      rw [← Option.not_isSome_iff_eq_none, parseHeader_isSome_iff]
      omega
    simp [h, hnone]
  . simp [h, hp, hf]
  . simp [h, hp, Nat.not_le.mpr hb]
  . simp only [h, hp, Carve.frame.injEq, Option.some.injEq, exists_eq_left', hf, hb, true_and]
    constructor
    . rintro ⟨rfl, rfl⟩; exact ⟨rfl, rfl⟩
    . rintro ⟨rfl, rfl⟩; exact ⟨rfl, rfl⟩

def framer : Decoder UInt8 Frame where
  carve := carveFrame
  length_lt := by
    intro b f r h
    rcases carveFrame_eq_frame_iff.mp h with ⟨hdr, _, hframed, hle, _, rfl⟩
    have := hframed.2
    unfold kOFHeaderLen at this
    simp only [List.length_drop]
    omega
  carve_append_of_frame := by
    intro b f r c h
    rcases carveFrame_eq_frame_iff.mp h with ⟨hdr, hp, hframed, hle, rfl, rfl⟩
    refine carveFrame_eq_frame_iff.mpr ⟨hdr, parseHeader_append hp c, hframed, ?_, ?_, ?_⟩
    . simp only [List.length_append]
      omega
    . rw [List.take_append_of_le_length hle]
    . rw [List.drop_append_of_le_length hle]
  carve_append_of_bad := by
    intro b c h
    rcases carveFrame_eq_bad_iff.mp h with ⟨hdr, hp, hframed⟩
    exact carveFrame_eq_bad_iff.mpr ⟨hdr, parseHeader_append hp c, hframed⟩

theorem framer_carve (b : Bytes) : framer.carve b = carveFrame b := rfl

@[simp]
theorem framer_carve_nil : framer.carve [] = .more := by
  rw [framer_carve]
  exact carveFrame_eq_more_iff.mpr (.inl (by decide))

theorem nextFrame_eq (b : Bytes) :
    nextFrame b {}
      =
    match framer.carve b with
    | .more => ⟨.needMore, b, {}⟩
    | .bad => ⟨.invalid, b, {}⟩
    | .frame f r => ⟨.ok, r, f⟩ := by
  rw [framer_carve, carveFrame]
  rcases nextFrame_cases b {} with ⟨_, h⟩ | ⟨_, _, _, h⟩ | ⟨_, _, _, _, h⟩ | ⟨_, _, _, _, h⟩
  all_goals rw [h]

theorem nextFrame_ok_length {b : Bytes} (h : (nextFrame b {}).status = .ok) :
    (nextFrame b {}).inbuf.length < b.length := by
  rw [nextFrame_eq] at h ⊢
  cases hcarve : framer.carve b with
  | more => rw [hcarve] at h; contradiction
  | bad => rw [hcarve] at h; contradiction
  | frame f r => exact framer.length_lt hcarve

/-! The wire format. -/

def encodeFrame (frame : Frame) : Bytes :=
  [frame.header.version, frame.header.type] ++ bytes16 frame.header.length
    ++ bytes32 frame.header.xid ++ frame.body

def Frame.WellFormed (frame : Frame) : Prop :=
  frame.header.version = kOFVersion10
    ∧ frame.header.length.toNat = kOFHeaderLen + frame.body.length

instance (frame : Frame) : Decidable frame.WellFormed :=
  inferInstanceAs (Decidable (_ ∧ _))

theorem encodeFrame_eq (frame : Frame) :
    ∃ b2 b3 b4 b5 b6 b7, encodeFrame frame
        = frame.header.version :: frame.header.type :: b2 :: b3 :: b4 :: b5 :: b6 :: b7 :: frame.body
      ∧ u16 b2 b3 = frame.header.length ∧ u32 b4 b5 b6 b7 = frame.header.xid :=
  ⟨_, _, _, _, _, _, rfl, u16_bytes16 _, u32_bytes32 _⟩

@[simp]
theorem length_encodeFrame (frame : Frame) :
    (encodeFrame frame).length = kOFHeaderLen + frame.body.length := by
  simp [encodeFrame, kOFHeaderLen]
  omega

theorem parseHeader_encodeFrame (frame : Frame) (r : Bytes) :
    parseHeader (encodeFrame frame ++ r) = some frame.header := by
  rcases encodeFrame_eq frame with ⟨_, _, _, _, _, _, henc, hlen, hxid⟩
  simp [henc, parseHeader, hlen, hxid]

theorem parseHeader_eq_some_iff {b : Bytes} {hdr : Header} :
    parseHeader b = some hdr ↔ ∃ body, b = encodeFrame ⟨hdr, body⟩ := by
  constructor
  . intro h
    unfold parseHeader at h
    split at h
    . next b0 b1 b2 b3 b4 b5 b6 b7 body =>
      injection h with h
      refine ⟨body, ?_⟩
      rw [← h]
      simp only [encodeFrame, bytes16_u16, bytes32_u32]
      rfl
    . contradiction
  . rintro ⟨body, rfl⟩
    have h := parseHeader_encodeFrame ⟨hdr, body⟩ []
    rwa [List.append_nil] at h

theorem encodeFrame_append (hdr : Header) (body r : Bytes) :
    encodeFrame ⟨hdr, body ++ r⟩ = encodeFrame ⟨hdr, body⟩ ++ r := by
  simp [encodeFrame]

theorem Frame.WellFormed.framed {frame : Frame} (h : frame.WellFormed) : frame.header.Framed :=
  ⟨h.1, by rw [h.2]; omega⟩

theorem carveFrame_encodeFrame {frame : Frame} (h : frame.WellFormed) (r : Bytes) :
    carveFrame (encodeFrame frame ++ r) = .frame frame r := by
  have hlen : frame.header.length.toNat = (encodeFrame frame).length := by
    rw [length_encodeFrame, h.2]
  refine carveFrame_eq_frame_iff.mpr
    ⟨frame.header, parseHeader_encodeFrame frame r, h.framed, ?_, ?_, ?_⟩
  . rw [hlen, List.length_append]
    omega
  . rcases encodeFrame_eq frame with ⟨_, _, _, _, _, _, henc, _⟩
    rw [hlen, List.take_left, henc]
    rfl
  . rw [hlen, List.drop_left]

theorem carveFrame_eq_frame_iff_encodeFrame {b : Bytes} {f : Frame} {r : Bytes} :
    carveFrame b = .frame f r ↔ f.WellFormed ∧ b = encodeFrame f ++ r := by
  constructor
  . intro h
    rcases carveFrame_eq_frame_iff.mp h with ⟨hdr, hp, hframed, hle, rfl, rfl⟩
    rcases parseHeader_eq_some_iff.mp hp with ⟨body, rfl⟩
    have hmin := hframed.2
    obtain ⟨k, hk⟩ := Nat.exists_eq_add_of_le hmin
    rw [length_encodeFrame, hk] at hle
    have hkle : k ≤ body.length := by
      apply Nat.le_of_add_le_add_left hle
    -- the header in front of the body is what the announced length counts besides the body
    have hsplit : encodeFrame ⟨hdr, body⟩ = encodeFrame ⟨hdr, body.take k⟩ ++ body.drop k := by
      rw [← encodeFrame_append, List.take_append_drop]
    have hlen : (encodeFrame ⟨hdr, body.take k⟩).length = hdr.length.toNat := by
      rw [length_encodeFrame, hk, List.length_take, Nat.min_eq_left hkle]
    have hbody : (encodeFrame ⟨hdr, body.take k⟩).drop kOFHeaderLen = body.take k := rfl
    rw [hsplit, List.take_left' hlen, List.drop_left' hlen, hbody]
    refine ⟨⟨hframed.1, ?_⟩, rfl⟩
    rw [List.length_take, Nat.min_eq_left hkle, hk]
  . rintro ⟨hf, rfl⟩
    exact carveFrame_encodeFrame hf r

theorem carveFrame_take_encodeFrame {frame : Frame} (h : frame.WellFormed) {k : Nat}
    (hk : k < (encodeFrame frame).length) : carveFrame ((encodeFrame frame).take k) = .more := by
  apply carveFrame_eq_more_iff.mpr
  by_cases hshort : k < kOFHeaderLen
  . left
    simp only [List.length_take]
    omega
  . right
    refine ⟨frame.header, ?_, h.framed, ?_⟩
    . rcases encodeFrame_eq frame with ⟨_, _, _, _, _, _, henc, hlen, hxid⟩
      obtain ⟨j, rfl⟩ : ∃ j, k = 8 + j := ⟨k - 8, by unfold kOFHeaderLen at hshort; omega⟩
      simp [henc, Nat.add_comm 8 j, parseHeader, hlen, hxid]
    . rw [length_encodeFrame] at hk
      simp only [List.length_take, h.2]
      omega

def frameEncoding : Encoding framer where
  valid := Frame.WellFormed
  enc := encodeFrame
  carve_enc := fun r h => carveFrame_encodeFrame h r
  carve_take := fun h hk => carveFrame_take_encodeFrame h hk

end Oflib
