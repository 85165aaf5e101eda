import NetOrc.OpenFlow.Send

/-!
This module contains the grammar of the OpenFlow wire format and shows that the framer decides it.
-/

namespace Oflib

open BigEndian
open Framing

namespace Message

def enc (m : Message) : Bytes :=
  [0x01, m.type.byte] ++ bytes16 (.ofNat (kOFHeaderLen + m.body.length)) ++ bytes32 m.xid ++ m.body

theorem enc_eq (m : Message) : m.enc = encodeFrame m.frame := rfl

theorem exists_frame_eq {f : Frame} (h : f.WellFormed) : ∃ m : Message, m.Fits ∧ m.frame = f := by
  have hlt := f.header.length.toNat_lt
  have hlength : UInt16.ofNat (kOFHeaderLen + f.body.length) = f.header.length := by
    rw [← h.2]
    exact UInt16.ofNat_toNat
  refine ⟨⟨⟨f.header.type⟩, f.header.xid, f.body⟩, ?_, ?_⟩
  . have hlen := h.2
    simp only [Message.Fits, kOFMaxFrameLen]
    omega
  . simp only [frame, hlength, ← h.1]

def Heads (m : Message) (b r : Bytes) : Prop := m.Fits ∧ b = m.enc ++ r

theorem Heads.unique {m m' : Message} {b r r' : Bytes} (h : m.Heads b r) (h' : m'.Heads b r') :
    m.frame = m'.frame ∧ r = r' := by
  apply frameEncoding.enc_append_inj h.1.wellFormed h'.1.wellFormed
  exact h.2.symm.trans h'.2

end Message

theorem exists_encodeFrame_prefix {b : Bytes} (hlen : kOFHeaderLen ≤ b.length)
    (h : carveFrame b = .more) : ∃ x f, f.WellFormed ∧ encodeFrame f = b ++ x := by
  rcases carveFrame_eq_more_iff.mp h with hshort | ⟨hdr, hp, hframed, hwait⟩
  . omega
  . rcases parseHeader_eq_some_iff.mp hp with ⟨body, rfl⟩
    rw [length_encodeFrame] at hwait
    let pad : Bytes := List.replicate (hdr.length.toNat - (kOFHeaderLen + body.length)) 0
    refine ⟨pad, ⟨hdr, body ++ pad⟩, ⟨hframed.1, ?_⟩, encodeFrame_append hdr body pad⟩
    simp only [pad, List.length_append, List.length_replicate] at hwait ⊢
    omega

theorem carveFrame_eq_bad_iff_no_extension {b : Bytes} :
    carveFrame b = .bad
      ↔
    kOFHeaderLen ≤ b.length ∧ ∀ x f, f.WellFormed → ¬encodeFrame f <+: b ++ x := by
  constructor
  . intro h
    apply And.intro
    . rcases carveFrame_eq_bad_iff.mp h with ⟨hdr, hp, _⟩
      apply parseHeader_isSome_iff.mp
      rw [hp]
      rfl
    . intro x f hf
      exact frameEncoding.not_enc_prefix_of_bad h x hf
  . rintro ⟨hlen, hnone⟩
    cases h : carveFrame b with
    | bad => rfl
    | more =>
      rcases exists_encodeFrame_prefix hlen h with ⟨x, f, hf, henc⟩
      exact absurd (henc ▸ List.prefix_refl _) (hnone x f hf)
    | frame f r =>
      rcases carveFrame_eq_frame_iff_encodeFrame.mp h with ⟨hf, rfl⟩
      apply absurd _ (hnone [] f hf)
      rw [List.append_nil]
      apply List.prefix_append

theorem nextFrame_eq_of_carveFrame (b : Bytes) (out : Frame) :
    nextFrame b out
      =
    match carveFrame b with
    | .more => ⟨.needMore, b, out⟩
    | .bad => ⟨.invalid, b, out⟩
    | .frame f r => ⟨.ok, r, f⟩ := by
  rcases nextFrame_cases b out with ⟨hb, h⟩ | ⟨hdr, hp, hf, h⟩ | ⟨hdr, hp, hf, hb, h⟩ | ⟨hdr, hp, hf, hb, h⟩
  . rw [h, carveFrame_eq_more_iff.mpr (.inl hb)]
  . rw [h, carveFrame_eq_bad_iff.mpr ⟨hdr, hp, hf⟩]
  . rw [h, carveFrame_eq_more_iff.mpr (.inr ⟨hdr, hp, hf, hb⟩)]
  . rw [h, carveFrame_eq_frame_iff.mpr ⟨hdr, hp, hf, hb, rfl, rfl⟩]

/--
Enough bytes for a header, and nothing that may still arrive turns them into a message.
-/
def Hopeless (b : Bytes) : Prop :=
  kOFHeaderLen ≤ b.length ∧ ∀ (x : Bytes) (m : Message), m.Fits → ¬m.enc <+: b ++ x

theorem carveFrame_eq_frame_iff_heads {b : Bytes} {f : Frame} {r : Bytes} :
    carveFrame b = .frame f r ↔ ∃ m : Message, m.frame = f ∧ m.Heads b r := by
  rw [carveFrame_eq_frame_iff_encodeFrame]
  constructor
  . rintro ⟨hf, hb⟩
    rcases Message.exists_frame_eq hf with ⟨m, hm, rfl⟩
    exact ⟨m, rfl, hm, hb⟩
  . rintro ⟨m, rfl, hm, hb⟩
    exact ⟨hm.wellFormed, hb⟩

theorem carveFrame_eq_bad_iff_hopeless {b : Bytes} : carveFrame b = .bad ↔ Hopeless b := by
  rw [carveFrame_eq_bad_iff_no_extension]
  apply and_congr_right
  intro _
  constructor
  . intro h x m hm
    exact h x m.frame hm.wellFormed
  . intro h x f hf
    rcases Message.exists_frame_eq hf with ⟨m, hm, rfl⟩
    exact h x m hm

theorem nextFrame_decides_grammar (b : Bytes) (out : Frame) :
    (∀ f r, nextFrame b out = ⟨.ok, r, f⟩ ↔ ∃ m : Message, m.frame = f ∧ m.Heads b r)
      ∧ (∀ (m m' : Message) (r r' : Bytes),
          m.Heads b r → m'.Heads b r' → m.frame = m'.frame ∧ r = r')
      ∧ (nextFrame b out = ⟨.invalid, b, out⟩ ↔ Hopeless b)
      ∧ (nextFrame b out = ⟨.needMore, b, out⟩
          ↔ (¬∃ (m : Message) (r : Bytes), m.Heads b r) ∧ ¬Hopeless b)
      ∧ ((nextFrame b out).status ≠ .ok →
          (nextFrame b out).inbuf = b ∧ (nextFrame b out).out = out) := by
  have hheads : (∃ (m : Message) (r : Bytes), m.Heads b r) ↔ ∃ f r, carveFrame b = .frame f r := by
    simp only [carveFrame_eq_frame_iff_heads]
    grind
  refine ⟨?_, fun _ _ _ _ h h' => h.unique h', ?_, ?_, ?_⟩
  . intro f r
    rw [← carveFrame_eq_frame_iff_heads, nextFrame_eq_of_carveFrame]
    cases carveFrame b <;> grind
  . rw [← carveFrame_eq_bad_iff_hopeless, nextFrame_eq_of_carveFrame]
    cases carveFrame b <;> grind
  . rw [hheads, ← carveFrame_eq_bad_iff_hopeless, nextFrame_eq_of_carveFrame]
    cases carveFrame b <;> grind
  . rw [nextFrame_eq_of_carveFrame]
    cases carveFrame b <;> grind

end Oflib
