import Mathlib.Algebra.Group.Nat.Defs
import NetOrc.Data.BigEndian
import NetOrc.OpenFlow.Endpoint

/-!
This module contains the body validators and the table `packetValidators` that registers them.
-/

namespace NetOrc

open BigEndian
open Oflib

namespace BodyValidator

def validateHello (_data : Bytes) (_len : Int) : Bool := true

def validatePacketIn (data : Bytes) (len : Int) : Bool :=
  if len < 10 then
    false
  else
    let frameLen := u16 (data.getD 4 0) (data.getD 5 0)
    if (frameLen.toNat : Int) > len - 10 then
      false
    else
      true

def validateError (_data : Bytes) (len : Int) : Bool :=
  if len < 4 then false else true

def validateFlowMod (data : Bytes) (len : Int) : Bool :=
  if len < 72 then
    false
  else
    let command := u16 (data.getD 48 0) (data.getD 49 0)
    if command > 4 then
      false
    else
      true

end BodyValidator

def castInt (len : Nat) : Int := Int.bmod len (2 ^ 32)

def packetValidators : List (PacketType × ValidatorFn) := [
  (.hello, fun data => BodyValidator.validateHello data (castInt data.length)),
  (.packetIn, fun data =>
    if !BodyValidator.validatePacketIn data (castInt data.length) then false else true),
  (.error, fun data => BodyValidator.validateError data (castInt data.length)),
  (.flowMod, fun data => BodyValidator.validateFlowMod data (castInt data.length))
]

theorem castInt_eq {len : Nat} (h : len < 65536) : castInt len = len := by
  unfold castInt
  rw [Int.bmod_eq_of_le] <;> omega

end NetOrc
