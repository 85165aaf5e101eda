import Mathlib.Data.Finset.Card
import Mathlib.Data.Finset.Dedup
import NetOrc.Framing.Interleave
import NetOrc.OpenFlow.Send
import NetOrc.Transition.Basic

/-!
This module contains two threads inside of `send_frame` on one descriptor. Nothing orders their `::send`
calls, so a frame reaches the peer in one piece only if the calls of one thread all come first.
-/

namespace Oflib

open BigEndian
open Framing
open Transition

structure Sender where
  wire : Bytes
  sent : Nat := 0
  deriving DecidableEq, Repr

structure Race where
  senders : Bool → Sender
  wire : Bytes := []

namespace Race

def start (ms : Bool → { m : Message // m.Fits }) : Race where
  senders t := { wire := encodeFrame (ms t).val.frame }

/--
One round of the loop of a thread, in which `::send` returns a positive count.
-/
def step (r : Race) (turn : Turn) : Option Race :=
  let s := r.senders turn.1
  if s.sent < s.wire.length ∧ 0 < turn.2 ∧ turn.2 ≤ s.wire.length - s.sent then
    some
      { senders := Function.update r.senders turn.1 { s with sent := s.sent + turn.2 }
        wire := r.wire ++ (s.wire.drop s.sent).take turn.2 }
  else
    none

def Done (r : Race) : Prop := ∀ t, (r.senders t).sent = (r.senders t).wire.length

def run (r : Race) (turns : List Turn) : Option Race := Transition.run step (fun _ _ => true) r turns

theorem sendLoop_eq_of_step {r r' : Race} {turn : Turn} (h : r.step turn = some r') {send : Send}
    {calls : Nat}
    (hn : send calls ((r.senders turn.1).wire.length - (r.senders turn.1).sent) = turn.2) :
    sendLoop send (r.senders turn.1).wire (r.senders turn.1).sent ⟨calls, r.wire⟩
      =
    sendLoop send (r'.senders turn.1).wire (r'.senders turn.1).sent ⟨calls + 1, r'.wire⟩ := by
  unfold step at h
  dsimp only at h
  split at h
  . next hturn =>
    cases h
    rw [sendLoop, dif_pos hturn.1, dif_neg (by rw [hn]; omega), hn]
    simp
  . contradiction

def Within (r : Race) : Prop := ∀ t, (r.senders t).sent ≤ (r.senders t).wire.length

def rest (r : Race) (t : Bool) : Bytes := (r.senders t).wire.drop (r.senders t).sent

def wrote (r : Race) (t : Bool) (n : Nat) : Race where
  senders := Function.update r.senders t { r.senders t with sent := (r.senders t).sent + n }
  wire := r.wire ++ (r.rest t).take n

theorem step_eq_wrote {r : Race} {t : Bool} {n : Nat} (hpos : 0 < n) (hle : n ≤ (r.rest t).length) :
    r.step (t, n) = some (r.wrote t n) := by
  unfold rest at hle
  rw [List.length_drop] at hle
  rw [step, if_pos]
  . rfl
  . dsimp only
    omega

theorem rest_wrote (r : Race) (t : Bool) (n : Nat) :
    (r.wrote t n).rest = Function.update r.rest t ((r.rest t).drop n) := by
  funext u
  unfold rest wrote
  by_cases hu : u = t
  . subst hu
    simp
  . simp [Function.update_of_ne hu]

theorem wrote_within {r : Race} (hsent : r.Within) {t : Bool} {n : Nat}
    (hle : n ≤ (r.rest t).length) : (r.wrote t n).Within := by
  intro u
  have hu := hsent u
  unfold wrote
  dsimp only
  by_cases htu : u = t
  . subst htu
    rw [rest, List.length_drop] at hle
    rw [Function.update_self]
    dsimp only
    omega
  . rw [Function.update_of_ne htu]
    exact hu

theorem run_eq_weave {r : Race} {turns : List Turn} (hsent : r.Within)
    (hcomplete : Completes turns (fun t => (r.rest t).length)) :
    ∃ r', r.run turns = some r' ∧ r'.Done ∧ r'.wire = r.wire ++ weave turns r.rest := by
  induction turns generalizing r with
  | nil =>
    refine ⟨r, rfl, fun t => ?_, by simp [weave]⟩
    have htotal := hcomplete.total t
    rw [total, rest, List.length_drop] at htotal
    have hle := hsent t
    omega
  | cons turn turns ih =>
    rcases turn with ⟨t, n⟩
    have hle : n ≤ (r.rest t).length := by
      have htotal := hcomplete.total t
      rw [total, if_pos rfl] at htotal
      omega
    have htail := hcomplete.tail
    rw [← rest_wrote] at htail
    rcases ih (wrote_within hsent hle) htail with ⟨r', hrun, hdone, hwire⟩
    refine ⟨r', ?_, hdone, ?_⟩
    . rw [run, Transition.run, if_pos rfl, step_eq_wrote (hcomplete.pos (t, n) (by simp)) hle]
      exact hrun
    . rw [hwire, rest_wrote, weave, ← List.append_assoc]
      rfl

end Race

def Untorn (ms : Bool → { m : Message // m.Fits }) (turns : List Turn) : Prop :=
  ∃ r, (Race.start ms).run turns = some r ∧ r.Done
    ∧ ∃ t, r.wire = encodeFrame (ms t).val.frame ++ encodeFrame (ms !t).val.frame

theorem untorn_iff {ms : Bool → { m : Message // m.Fits }} {turns : List Turn}
    (hcomplete : Completes turns (fun t => (encodeFrame (ms t).val.frame).length)) :
    Untorn ms turns
      ↔
    ∃ t, weave turns (fun t => encodeFrame (ms t).val.frame)
      = encodeFrame (ms t).val.frame ++ encodeFrame (ms !t).val.frame := by
  rcases (Race.start ms).run_eq_weave (fun _ => Nat.zero_le _) hcomplete with
    ⟨r, hrun, hdone, hwire⟩
  have hwire : r.wire = weave turns (fun t => encodeFrame (ms t).val.frame) := hwire
  constructor
  . rintro ⟨r', hrun', _, htorn⟩
    rw [hrun] at hrun'
    cases hrun'
    rwa [hwire] at htorn
  . intro h
    rw [← hwire] at h
    exact ⟨r, hrun, hdone, h⟩

/-! Frames whose last bytes tell them apart. -/

theorem exists_byte_ne (n : UInt16) (y : UInt8) :
    ∃ x : UInt8, x ≠ kOFVersion10 ∧ x ∉ bytes16 n ∧ x ≠ y := by
  have hcard : (insert y (insert kOFVersion10 (bytes16 n).toFinset)).card
      < ({2, 3, 4, 5, 6} : Finset UInt8).card := by
    have hy := Finset.card_insert_le y (insert kOFVersion10 (bytes16 n).toFinset)
    have hversion := Finset.card_insert_le kOFVersion10 (bytes16 n).toFinset
    have hlength := List.toFinset_card_le (bytes16 n)
    rw [length_bytes16] at hlength
    have hfive : ({2, 3, 4, 5, 6} : Finset UInt8).card = 5 := by decide
    omega
  rcases Finset.exists_mem_notMem_of_card_lt_card hcard with ⟨x, _, hx⟩
  simp only [Finset.mem_insert, List.mem_toFinset, not_or] at hx
  exact ⟨x, hx.2.1, hx.2.2, hx.1⟩

def plainMessage (x : UInt8) (n : Nat) : Message where
  type := ⟨x⟩
  xid := u32 x x x x
  body := List.replicate n x

theorem encodeFrame_plainMessage (x : UInt8) (n : Nat) :
    encodeFrame (plainMessage x n).frame
      =
    [kOFVersion10, x] ++ bytes16 (.ofNat (8 + n)) ++ List.replicate (4 + n) x := by
  rw [List.replicate_add]
  simp [encodeFrame, plainMessage, Message.frame, bytes32_u32, kOFHeaderLen,
    List.replicate_succ]

theorem getLast?_plainMessage (x : UInt8) (n : Nat) :
    (encodeFrame (plainMessage x n).frame).getLast? = some x := by
  rw [encodeFrame_plainMessage, List.getLast?_append_of_ne_nil _ (by simp [Nat.add_comm 4 n]),
    List.getLast?_replicate, if_neg (by omega)]

theorem not_mem_plainMessage {x y : UInt8} {n : Nat} (hversion : x ≠ kOFVersion10) (hne : x ≠ y)
    (hlength : x ∉ bytes16 (.ofNat (8 + n))) :
    x ∉ encodeFrame (plainMessage y n).frame := by
  rw [encodeFrame_plainMessage]
  simp only [List.mem_append, List.mem_cons, List.not_mem_nil, or_false, List.mem_replicate, not_or,
    not_and]
  exact ⟨⟨⟨hversion, hne⟩, hlength⟩, fun _ => hne⟩

theorem exists_told_apart (size : Bool → Nat) (hsize : ∀ t, 8 + size t ≤ kOFMaxFrameLen) :
    ∃ ms : Bool → { m : Message // m.Fits }, (∀ t, (ms t).val.body.length = size t)
      ∧ ∀ t x, (encodeFrame (ms t).val.frame).getLast? = some x →
          x ∉ encodeFrame (ms !t).val.frame := by
  rcases exists_byte_ne (.ofNat (8 + size true)) 0 with ⟨x, hxversion, hxlength, _⟩
  rcases exists_byte_ne (.ofNat (8 + size false)) x with ⟨y, hyversion, hylength, hne⟩
  refine ⟨fun t => ⟨plainMessage (if t then y else x) (size t), ?_⟩, fun t => ?_, fun t z hz => ?_⟩
  . simpa [Message.Fits, plainMessage, kOFHeaderLen] using hsize t
  . simp [plainMessage]
  . rw [getLast?_plainMessage, Option.some.injEq] at hz
    subst hz
    cases t with
    | false => exact not_mem_plainMessage hxversion (Ne.symm hne) hxlength
    | true => exact not_mem_plainMessage hyversion hne hylength

/--
Two calls of `send_frame` reach the peer untorn, whatever they send, exactly if all calls of `::send` of
one thread come first. For two frames that are told apart by their last bytes this is also exact.
-/
theorem untorn_iff_serial (ms : Bool → { m : Message // m.Fits }) (turns : List Turn)
    (hcomplete : Completes turns (fun t => (encodeFrame (ms t).val.frame).length)) :
    ((∀ ms' : Bool → { m : Message // m.Fits },
          (∀ t, (ms' t).val.body.length = (ms t).val.body.length) → Untorn ms' turns)
        ↔ Serial turns)
      ∧ ((∀ t x, (encodeFrame (ms t).val.frame).getLast? = some x →
            x ∉ encodeFrame (ms !t).val.frame) →
          (Untorn ms turns ↔ Serial turns)) := by
  have hsame : ∀ ms' : Bool → { m : Message // m.Fits },
      (∀ t, (ms' t).val.body.length = (ms t).val.body.length) →
        Completes turns (fun t => (encodeFrame (ms' t).val.frame).length) := by
    intro ms' hlength
    refine ⟨hcomplete.pos, fun t => ?_⟩
    rw [hcomplete.total t, length_encodeFrame, length_encodeFrame]
    exact congrArg (kOFHeaderLen + ·) (hlength t).symm
  have hserial : ∀ ms' : Bool → { m : Message // m.Fits },
      (∀ t, (ms' t).val.body.length = (ms t).val.body.length) → Serial turns → Untorn ms' turns := by
    rintro ms' hlength ⟨t, hfirst⟩
    exact (untorn_iff (hsame ms' hlength)).mpr ⟨t, weave_of_first (hsame ms' hlength) hfirst⟩
  have hexact : ∀ ms' : Bool → { m : Message // m.Fits },
      (∀ t, (ms' t).val.body.length = (ms t).val.body.length) →
        (∀ t x, (encodeFrame (ms' t).val.frame).getLast? = some x →
          x ∉ encodeFrame (ms' !t).val.frame) → Untorn ms' turns → Serial turns := by
    intro ms' hlength hlast huntorn
    have hcomplete' := hsame ms' hlength
    exact (weave_eq_append_iff hcomplete' hlast).mp ((untorn_iff hcomplete').mp huntorn)
  constructor
  . constructor
    . intro h
      rcases exists_told_apart (fun t => (ms t).val.body.length) (fun t => (ms t).property) with
        ⟨ms', hlength, hlast⟩
      exact hexact ms' hlength hlast (h ms' hlength)
    . exact fun h ms' hlength => hserial ms' hlength h
  . intro hlast
    exact ⟨hexact ms (fun _ => rfl) hlast, hserial ms (fun _ => rfl)⟩

def twoHellos (t : Bool) : { m : Message // m.Fits } := ⟨⟨.hello, if t then 2 else 1, []⟩, by decide +revert⟩

theorem untorn_iff_serial_twoHellos :
    Untorn twoHellos [(false, 4), (false, 4), (true, 8)] :=
  ((untorn_iff_serial twoHellos [(false, 4), (false, 4), (true, 8)]
    ⟨by decide, fun t => by decide +revert⟩).1.mpr ⟨false, by decide⟩) twoHellos (fun _ => rfl)

/--
The second thread writes its frame between the two halves of the other: the peer carves a frame that was
never sent and refuses the rest.
-/
theorem twoHellos_torn :
    ∃ r, (Race.start twoHellos).run [(false, 4), (true, 8), (false, 4)] = some r ∧ r.Done
      ∧ (¬∃ t, r.wire = encodeFrame (twoHellos t).val.frame ++ encodeFrame (twoHellos !t).val.frame)
      ∧ nextFrames r.wire = ([Message.frame ⟨.hello, 0x01000008, []⟩], .invalid,
          [0x00, 0x00, 0x00, 0x02, 0x00, 0x00, 0x00, 0x01]) :=
  ⟨_, rfl, fun t => by decide +revert, by decide, by decide +kernel⟩

end Oflib
