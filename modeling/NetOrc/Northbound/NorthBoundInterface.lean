import NetOrc.Core.Exposition
import NetOrc.Northbound.Stoi

/-!
This module contains the northbound requests: the handler of `POST /events`, the check of its type
parameter, and the status that the HTTP server finally answers with.
-/

namespace NetOrc

open Oflib
open TextFormat

abbrev Range := Int × Int

def kRangeMaxCount : Nat := 1024

/--
The range that the two bounds of a header field stand for, where -1 is a bound that is missing.
-/
def clampRange (contentLen : Int) (r : Range) : Range :=
  let (firstPos, lastPos) := if r.1 = -1 ∧ r.2 = -1 then (0, contentLen) else r
  let (firstPos, lastPos) :=
    if firstPos = -1 then (contentLen - lastPos, contentLen - 1) else (firstPos, lastPos)
  (firstPos, if lastPos = -1 ∨ lastPos ≥ contentLen then contentLen - 1 else lastPos)

def rangeErrorLoop (contentLen : Int) (ranges processed : List Range) (overlapping : Nat) : Bool :=
  match ranges with
  | [] => false
  | r :: rest =>
    let r := clampRange contentLen r
    if ¬(0 ≤ r.1 ∧ r.1 ≤ r.2 ∧ r.2 ≤ contentLen - 1) then
      true
    else
      let overlaps := processed.any (fun p => !(r.2 < p.1 || r.1 > p.2))
      let overlapping := if overlaps then overlapping + 1 else overlapping
      if overlapping > 2 then true
      else rangeErrorLoop contentLen rest (processed ++ [r]) overlapping

def rangeError (ranges : List Range) (status : Int32) (contentLen : Nat) : Bool :=
  if ranges ≠ [] ∧ 200 ≤ status ∧ status < 300 then
    ranges.length > kRangeMaxCount || rangeErrorLoop contentLen ranges [] 0
  else
    false

/-! The handler of `POST /events`. -/

structure EventsRequest where
  type : Option Bytes := none
  body : Bytes := []
  ranges : List Range := []
  deriving DecidableEq, Repr

structure EventTask where
  type : PacketType
  body : Bytes
  deriving DecidableEq, Repr

structure Response where
  status : Int32
  body : Bytes
  deriving DecidableEq, Repr

namespace EventsRequest

def packetType (req : EventsRequest) : Option PacketType :=
  match req.type with
  | none => some .vendor
  | some param =>
    (stoi param).bind (fun typeNum =>
      if typeNum < 0 ∨ typeNum > 255 then none else some ⟨.ofNat typeNum.toNat⟩)

def handle (req : EventsRequest) : Option EventTask × Response :=
  match req.packetType with
  | none => (none, ⟨400, text "\x7b\"error\":\"invalid type query parameter\"\x7d"⟩)
  | some type => (some ⟨type, req.body⟩, ⟨202, text "\x7b\"queued\":true\x7d"⟩)

/--
What the HTTP server answers: ranges that the body cannot satisfy replace the status of the handler.
-/
def status (req : EventsRequest) : Int32 :=
  let res := req.handle.2
  if rangeError req.ranges res.status res.body.length then 416 else res.status

def refusesRanges (req : EventsRequest) : Bool :=
  rangeError req.ranges 202 (text "\x7b\"queued\":true\x7d").length

theorem status_of_invalid {req : EventsRequest} (h : req.packetType = none) : req.status = 400 := by
  have hrange : ∀ contentLen, rangeError req.ranges 400 contentLen = false := by
    intro contentLen
    apply if_neg
    rintro ⟨_, _, hlt⟩
    revert hlt
    decide
  simp only [status, handle, h, hrange]
  rfl

theorem status_of_valid {req : EventsRequest} (h : req.packetType ≠ none) :
    req.status = if req.refusesRanges then 416 else 202 := by
  cases htype : req.packetType with
  | none => contradiction
  | some type =>
    simp only [status, handle, htype]
    rfl

theorem status_eq_accepted_iff (req : EventsRequest) :
    req.status = 202 ↔ req.packetType ≠ none ∧ ¬req.refusesRanges := by
  by_cases h : req.packetType = none
  . rw [status_of_invalid h]
    simp [h]
  . rw [status_of_valid h]
    split
    . next hrefuses => simp [hrefuses]
    . next hsatisfies => simp [h, hsatisfies]

theorem status_eq_invalid_iff (req : EventsRequest) : req.status = 400 ↔ req.packetType = none := by
  by_cases h : req.packetType = none
  . simp [status_of_invalid h, h]
  . rw [status_of_valid h]
    split <;> simp [h]

end EventsRequest

/--
What a client asks for. Requests other than those to the handler of `POST /events` only show in the
request counts.
-/
inductive HttpRequest where
  | events (req : EventsRequest)
  | other (req : RoutedRequest)

namespace HttpRequest

def status (req : HttpRequest) : Int32 :=
  match req with
  | .events req => req.status
  | .other req => req.status

def routed (req : HttpRequest) : RoutedRequest :=
  match req with
  | .events req => ⟨text "POST", text "/events", req.status⟩
  | .other req => req

def isAccepted (req : HttpRequest) : Bool :=
  match req with
  | .events req => req.status = 202
  | .other _ => false

def isInvalid (req : HttpRequest) : Bool :=
  match req with
  | .events req => req.status = 400
  | .other _ => false

end HttpRequest

example : ({ type := some (text "256") } : EventsRequest).status = 400 := by decide

end NetOrc
