import NetOrc.OpenFlow.Framer

/-!
This module contains the transmit path: frames are serialised and written in a loop over the counts
that `::send` returns.
-/

namespace Oflib

open BigEndian
open Framing

/--
The results of the successive `::send` calls on a socket: `send k req` is the result of the `k`-th
call, made for `req` bytes.
-/
abbrev Send := Nat → Nat → Int

structure SendState where
  calls : Nat := 0
  wire : Bytes := []
  deriving DecidableEq, Repr

/--
The write loop of `send_frame`, from the moment that `sent` bytes of `wire` are written.
-/
def sendLoop (send : Send) (wire : Bytes) (sent : Nat) (st : SendState) : Bool × SendState :=
  if _hlt : sent < wire.length then
    let n := send st.calls (wire.length - sent)
    if _hn : n ≤ 0 then
      (false, { st with calls := st.calls + 1 })
    else
      sendLoop send wire (sent + n.toNat)
        { calls := st.calls + 1, wire := st.wire ++ (wire.drop sent).take n.toNat }
  else
    (true, st)
termination_by wire.length - sent

def sendFrame (send : Send) (st : SendState) (fd : Int32) (type : PacketType) (xid : UInt32)
    (body : Bytes) : Bool × SendState :=
  if fd < 0 then
    (false, st)
  else
    let totalLen := kOFHeaderLen + body.length
    if totalLen > kOFMaxFrameLen then
      (false, st)
    else
      let wire := [kOFVersion10, type.byte] ++ bytes16 (.ofNat totalLen) ++ bytes32 xid ++ body
      sendLoop send wire 0 st

structure Message where
  type : PacketType
  xid : UInt32
  body : Bytes
  deriving DecidableEq, Repr

def Message.Fits (m : Message) : Prop := kOFHeaderLen + m.body.length ≤ kOFMaxFrameLen

instance (m : Message) : Decidable m.Fits := inferInstanceAs (Decidable (_ ≤ _))

def Message.frame (m : Message) : Frame where
  header :=
    { version := kOFVersion10
      type := m.type.byte
      length := .ofNat (kOFHeaderLen + m.body.length)
      xid := m.xid }
  body := m.body

theorem Message.Fits.wellFormed {m : Message} (h : m.Fits) : m.frame.WellFormed := by
  unfold Message.Fits kOFMaxFrameLen at h
  refine ⟨rfl, ?_⟩
  simp only [Message.frame, UInt16.toNat_ofNat']
  omega

def sendFrames (send : Send) (fd : Int32) (ms : List Message) (st : SendState) :
    List Bool × SendState :=
  match ms with
  | [] => ([], st)
  | m :: ms =>
    let (ok, st) := sendFrame send st fd m.type m.xid m.body
    let (oks, st) := sendFrames send fd ms st
    (ok :: oks, st)

def ShortCounts (send : Send) : Prop :=
  ∀ k req, 0 < req → 0 < send k req ∧ send k req ≤ req

theorem sendLoop_eq {send : Send} (hsend : ShortCounts send) (wire : Bytes) (sent : Nat)
    (st : SendState) :
    ∃ calls, sendLoop send wire sent st = (true, ⟨calls, st.wire ++ wire.drop sent⟩) := by
  fun_induction sendLoop send wire sent st with
  | case1 sent st hlt n hn =>
    have := (hsend st.calls (wire.length - sent) (by omega)).1
    omega
  | case2 sent st hlt n hn ih =>
    rcases ih with ⟨calls, ih⟩
    refine ⟨calls, ?_⟩
    rw [ih, List.append_assoc, ← List.drop_drop, List.take_append_drop]
  | case3 sent st hlt =>
    refine ⟨st.calls, ?_⟩
    rw [List.drop_eq_nil_of_le (by omega), List.append_nil]

theorem sendFrame_of_fits {send : Send} (hsend : ShortCounts send) {fd : Int32} (hfd : 0 ≤ fd)
    {m : Message} (hm : m.Fits) (st : SendState) :
    ∃ calls, sendFrame send st fd m.type m.xid m.body
      = (true, ⟨calls, st.wire ++ encodeFrame m.frame⟩) := by
  have hfd : ¬fd < 0 := Int32.not_lt.mpr hfd
  have hm : ¬kOFHeaderLen + m.body.length > kOFMaxFrameLen := Nat.not_lt.mpr hm
  rw [sendFrame, if_neg hfd, if_neg hm]
  exact sendLoop_eq hsend _ 0 st

theorem sendFrame_of_not_fits (send : Send) (fd : Int32) {m : Message} (hm : ¬m.Fits)
    (st : SendState) : sendFrame send st fd m.type m.xid m.body = (false, st) := by
  have hm : kOFHeaderLen + m.body.length > kOFMaxFrameLen := Nat.lt_of_not_le hm
  unfold sendFrame
  split
  . rfl
  . rw [if_pos hm]

theorem sendFrames_eq {send : Send} (hsend : ShortCounts send) {fd : Int32} (hfd : 0 ≤ fd)
    {ms : List Message} (hms : ∀ m ∈ ms, m.Fits) (st : SendState) :
    (sendFrames send fd ms st).1 = ms.map (fun _ => true)
      ∧ (sendFrames send fd ms st).2.wire
          = st.wire ++ frameEncoding.stream (ms.map Message.frame) := by
  induction ms generalizing st with
  | nil => simp [sendFrames]
  | cons m ms ih =>
    rcases sendFrame_of_fits hsend hfd (hms m (by simp)) st with ⟨calls, hm⟩
    have ih := ih (fun m hm => hms m (by simp [hm])) ⟨calls, st.wire ++ encodeFrame m.frame⟩
    simp only [sendFrames, hm, ih, List.map_cons, Encoding.stream_cons, List.append_assoc, true_and]
    rfl

def nextFrames (inbuf : Bytes) : List Frame × ParseStatus × Bytes :=
  let carved := nextFrame inbuf {}
  if _hok : carved.status = .ok then
    let tail := nextFrames carved.inbuf
    (carved.out :: tail.1, tail.2)
  else
    ([], carved.status, carved.inbuf)
termination_by inbuf.length
decreasing_by exact nextFrame_ok_length _hok

theorem nextFrames_eq_of_split {b : Bytes} {fs : List Frame} {r : Bytes}
    (h : framer.split b = (fs, some r)) : nextFrames b = (fs, .needMore, r) := by
  induction b using framer.carve_induction generalizing fs with
  | more b hb =>
    rw [Decoder.split_of_more hb] at h
    cases h
    rw [nextFrames, nextFrame_eq, hb]
    simp
  | bad b hb =>
    rw [Decoder.split_of_bad hb] at h
    cases h
  | frame b f rest hb ih =>
    rw [Decoder.split_of_frame hb] at h
    injection h with hfs hr
    rw [nextFrames, nextFrame_eq, hb]
    simp only [↓reduceDIte, ih (Prod.ext rfl hr), hfs]

/--
The frames written by successive `send_frame` calls, followed by a proper prefix of one more frame,
are carved back in order, and exactly the prefix stays in the buffer. A message that does not fit is
refused before anything is written.
-/
theorem nextFrames_sendFrames (send : Send) (hsend : ShortCounts send) (fd : Int32) (hfd : 0 ≤ fd)
    (ms : List Message) (hms : ∀ m ∈ ms, m.Fits) (last : Message) (hlast : last.Fits)
    (k : Nat) (hk : k < (encodeFrame last.frame).length) :
    nextFrames ((sendFrames send fd ms {}).2.wire ++ (encodeFrame last.frame).take k)
        = (ms.map Message.frame, .needMore, (encodeFrame last.frame).take k)
      ∧ (sendFrames send fd ms {}).1 = ms.map (fun _ => true)
      ∧ (∀ m ∈ ms, m.frame.header.length.toNat = kOFHeaderLen + m.body.length)
      ∧ (∀ (send : Send) (fd : Int32) (m : Message) (st : SendState), ¬m.Fits →
          sendFrame send st fd m.type m.xid m.body = (false, st)) := by
  rcases sendFrames_eq hsend hfd hms {} with ⟨hoks, hwire⟩
  have hvalid : ∀ f ∈ ms.map Message.frame, frameEncoding.valid f := by
    intro f hf
    rcases List.mem_map.mp hf with ⟨m, hm, rfl⟩
    exact (hms m hm).wellFormed
  refine ⟨?_, hoks, fun m hm => (hms m hm).wellFormed.2, ?_⟩
  . rw [hwire, List.nil_append]
    apply nextFrames_eq_of_split
    exact Encoding.split_stream_append_take (E := frameEncoding) hvalid hlast.wellFormed hk
  . intro send fd m st hm
    exact sendFrame_of_not_fits send fd hm st

theorem nextFrames_sendFrames_hello_packetIn :
    nextFrames ((sendFrames (fun _ _ => 1) 7 [⟨.hello, 1, []⟩, ⟨.packetIn, 2, [0xFF, 0x00]⟩] {}).2.wire
          ++ (encodeFrame (Message.frame ⟨.hello, 3, []⟩)).take 4)
        = ([Message.frame ⟨.hello, 1, []⟩, Message.frame ⟨.packetIn, 2, [0xFF, 0x00]⟩], .needMore,
            [0x01, 0x00, 0x00, 0x08]) :=
  (nextFrames_sendFrames (fun _ _ => 1)
    (fun _ req hreq => ⟨by dsimp only; omega, by dsimp only; omega⟩) 7 (by decide)
    [⟨.hello, 1, []⟩, ⟨.packetIn, 2, [0xFF, 0x00]⟩] (by decide) ⟨.hello, 3, []⟩ (by decide) 4
    (by decide)).1

end Oflib
