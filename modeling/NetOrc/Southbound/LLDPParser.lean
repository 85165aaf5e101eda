import NetOrc.OpenFlow.Basic

/-!
This module contains the LLDP parser, which walks the TLVs behind the Ethernet header of a payload.
-/

namespace NetOrc

open Oflib

structure LLDPTlvType where
  byte : UInt8
  deriving DecidableEq, Repr

namespace LLDPTlvType

def endOfLldpdu : LLDPTlvType := ⟨0⟩
def chassisId : LLDPTlvType := ⟨1⟩
def portId : LLDPTlvType := ⟨2⟩
def timeToLive : LLDPTlvType := ⟨3⟩
def systemName : LLDPTlvType := ⟨5⟩

end LLDPTlvType

structure LLDPNeighbor where
  chassisId : Bytes := []
  portId : Bytes := []
  systemName : Bytes := []
  ttl : UInt16
  deriving DecidableEq, Repr

def readByte (payload : Bytes) (index : Nat) : Except Fault UInt8 :=
  match payload[index]? with
  | some b => .ok b
  | none => .error (.outOfRange index)

/--
`std::string(&payload[start], count)`. A negative count becomes a huge `size_t`, for which the
constructor throws `std::length_error`.
-/
def readString (payload : Bytes) (start : Nat) (count : Int) : Except Fault Bytes :=
  if count < 0 then
    .error .lengthError
  else if start + count.toNat > payload.length then
    .error (.outOfRange payload.length)
  else
    .ok ((payload.drop start).take count.toNat)

def readWord (payload : Bytes) (index : Nat) : Except Fault UInt16 := do
  let hi ← readByte payload index
  let lo ← readByte payload (index + 1)
  return (hi.toUInt16 <<< 8) ||| lo.toUInt16

namespace LLDPParser

def isLLDP (payload : Bytes) : Bool :=
  if h : payload.length < 14 then
    false
  else
    let etherType : UInt16 := (payload[12].toUInt16 <<< 8) ||| payload[13].toUInt16
    etherType = 0x88CC

/--
The `switch` of `parse` on a TLV that does not end the LLDPDU and whose value starts at `offset`.
-/
def storeTlv (payload : Bytes) (type : LLDPTlvType) (length : UInt16) (offset : Nat)
    (neighbor : LLDPNeighbor) : Except Fault LLDPNeighbor := do
  if type = .chassisId then
    let chassisId ← readString payload (offset + 1) ((length.toNat : Int) - 1)
    return { neighbor with chassisId := chassisId }
  else if type = .portId then
    let portId ← readString payload (offset + 1) ((length.toNat : Int) - 1)
    return { neighbor with portId := portId }
  else if type = .systemName then
    let systemName ← readString payload offset length.toNat
    return { neighbor with systemName := systemName }
  else if type = .timeToLive then
    if length = 2 then
      let ttl ← readWord payload offset
      return { neighbor with ttl := ttl }
    else
      return neighbor
  else
    return neighbor

def readTlvInfo (payload : Bytes) (offset : Nat) : Except Fault (LLDPTlvType × UInt16) := do
  let tlvInfo ← readWord payload offset
  return (⟨((tlvInfo >>> 9) &&& 0x7F).toUInt8⟩, tlvInfo &&& 0x1FF)

def parseLoop (payload : Bytes) (offset : Nat) (neighbor : LLDPNeighbor) :
    Except Fault LLDPNeighbor :=
  if _hoffset : offset + 2 ≤ payload.length then
    match readTlvInfo payload offset with
    | .error e => .error e
    | .ok (type, length) =>
      if offset + 2 + length.toNat > payload.length then
        .ok neighbor
      else if type = .endOfLldpdu then
        .ok neighbor
      else
        match storeTlv payload type length (offset + 2) neighbor with
        | .error e => .error e
        | .ok neighbor => parseLoop payload (offset + 2 + length.toNat) neighbor
  else
    .ok neighbor
termination_by payload.length - offset

/--
`LLDPParser::parse`. `ttl` is not initialised in the source, so its starting value is a parameter.
-/
def parse (payload : Bytes) (ttl : UInt16) : Except Fault LLDPNeighbor :=
  parseLoop payload 14 { ttl := ttl }

end LLDPParser

end NetOrc
