import Mathlib.Data.List.GetD
import NetOrc.OpenFlow.Send
import NetOrc.Southbound.PacketHandlers

/-!
This module contains the layout of a FLOW_MOD body and what the validator makes of it: the nine fields
take 64 bytes, and the validator asks for 72.
-/

namespace NetOrc

open BigEndian
open Oflib

/--
A FLOW_MOD body, field by field. Apart from the command the fields are opaque byte strings.
-/
structure FlowMod where
  ofMatch : Bytes
  cookie : Bytes
  command : UInt16
  idle : Bytes
  hard : Bytes
  priority : Bytes
  bufferId : Bytes
  outPort : Bytes
  flags : Bytes
  actions : Bytes
  length_ofMatch : ofMatch.length = 40
  length_cookie : cookie.length = 8
  length_idle : idle.length = 2
  length_hard : hard.length = 2
  length_priority : priority.length = 2
  length_bufferId : bufferId.length = 4
  length_outPort : outPort.length = 2
  length_flags : flags.length = 2
  command_le : command ≤ 4

namespace FlowMod

def head (m : FlowMod) : Bytes := m.ofMatch ++ m.cookie

def fields (m : FlowMod) : Bytes :=
  m.idle ++ m.hard ++ m.priority ++ m.bufferId ++ m.outPort ++ m.flags

def enc (m : FlowMod) : Bytes := m.head ++ bytes16 m.command ++ m.fields ++ m.actions

@[simp]
theorem length_head (m : FlowMod) : m.head.length = 48 := by
  simp [head, m.length_ofMatch, m.length_cookie]

@[simp]
theorem length_fields (m : FlowMod) : m.fields.length = 14 := by
  simp [fields, m.length_idle, m.length_hard, m.length_priority, m.length_bufferId,
    m.length_outPort, m.length_flags]

theorem length_enc (m : FlowMod) : m.enc.length = 64 + m.actions.length := by
  simp only [enc, List.length_append, length_head, length_fields, length_bytes16]

end FlowMod

def commandOf (body : Bytes) : UInt16 := u16 (body.getD 48 0) (body.getD 49 0)

theorem commandOf_append {front : Bytes} (hfront : front.length = 48) (command : UInt16)
    (r : Bytes) : commandOf (front ++ bytes16 command ++ r) = command := by
  have h48 := List.getD_append_right front (bytes16 command ++ r) 0 48 (by omega)
  have h49 := List.getD_append_right front (bytes16 command ++ r) 0 49 (by omega)
  rw [commandOf, List.append_assoc, h48, h49, hfront]
  exact u16_bytes16 command

theorem take_two_drop {body : Bytes} (h : 50 ≤ body.length) :
    (body.drop 48).take 2 = bytes16 (commandOf body) := by
  have h48 : 48 < body.length := by omega
  have h49 : 49 < body.length := by omega
  rw [commandOf, bytes16_u16, List.getD_eq_getElem _ _ h48, List.getD_eq_getElem _ _ h49,
    List.drop_eq_getElem_cons h48, List.drop_eq_getElem_cons h49]
  rfl

theorem exists_flowMod_iff (body : Bytes) :
    (∃ m : FlowMod, body = m.enc) ↔ 64 ≤ body.length ∧ commandOf body ≤ 4 := by
  constructor
  . rintro ⟨m, rfl⟩
    rw [m.length_enc, FlowMod.enc, List.append_assoc _ m.fields, commandOf_append m.length_head]
    exact ⟨by omega, m.command_le⟩
  . rintro ⟨hlen, hcommand⟩
    -- each field is the stretch of the body at its offset
    let cut (offset count : Nat) : Bytes := (body.drop offset).take count
    have hcut : ∀ offset count, offset + count ≤ 64 → (cut offset count).length = count := by
      intro offset count h
      simp only [cut, List.length_take, List.length_drop]
      omega
    have hjoin : ∀ offset count, body.drop offset = cut offset count ++ body.drop (offset + count) := by
      intro offset count
      rw [← List.drop_drop, List.take_append_drop]
    refine ⟨{
      ofMatch := cut 0 40, cookie := cut 40 8, command := commandOf body
      idle := cut 50 2, hard := cut 52 2, priority := cut 54 2
      bufferId := cut 56 4, outPort := cut 60 2, flags := cut 62 2, actions := body.drop 64
      length_ofMatch := hcut 0 40 (by omega), length_cookie := hcut 40 8 (by omega)
      length_idle := hcut 50 2 (by omega), length_hard := hcut 52 2 (by omega)
      length_priority := hcut 54 2 (by omega), length_bufferId := hcut 56 4 (by omega)
      length_outPort := hcut 60 2 (by omega), length_flags := hcut 62 2 (by omega)
      command_le := hcommand }, ?_⟩
    have hcommand : cut 48 2 = bytes16 (commandOf body) := take_two_drop (by omega)
    calc body
      _ = body.drop 0 := rfl
      _ = _ := by
        rw [hjoin 0 40, hjoin 40 8, hjoin 48 2, hjoin 50 2, hjoin 52 2, hjoin 54 2, hjoin 56 4,
          hjoin 60 2, hjoin 62 2, hcommand]
        simp only [FlowMod.enc, FlowMod.head, FlowMod.fields, List.append_assoc]

theorem validateFlowMod_eq_true_iff (body : Bytes) :
    BodyValidator.validateFlowMod body body.length = true
      ↔
    72 ≤ body.length ∧ commandOf body ≤ 4 := by
  unfold BodyValidator.validateFlowMod commandOf
  split
  . next hshort =>
    simp only [Bool.false_eq_true, false_iff, not_and]
    omega
  . next hlong =>
    have hlong : 72 ≤ body.length := by omega
    dsimp only
    split
    . next hcommand =>
      simp only [Bool.false_eq_true, false_iff, not_and]
      intro _
      exact UInt16.not_le.mpr hcommand
    . next hcommand =>
      simp only [hlong, true_and, true_iff]
      exact UInt16.not_lt.mp hcommand

theorem runValidator_flowMod {σ : Type} (svc : ServiceTable σ)
    (junk : Connection → Frame → σ → Uninit) {xid : UInt32} {body : Bytes}
    (hfits : (Message.mk .flowMod xid body).Fits) :
    (sbiEndpoint svc junk).runValidator .flowMod (Message.mk .flowMod xid body).frame
      =
    BodyValidator.validateFlowMod body body.length := by
  have hlen : body.length < 65536 := by
    unfold Message.Fits kOFMaxFrameLen at hfits
    dsimp only at hfits
    omega
  have hvalidator : (sbiEndpoint svc junk).validators .flowMod
      = some (fun data => BodyValidator.validateFlowMod data (castInt data.length)) := by
    unfold sbiEndpoint
    rw [foldl_validate_validators]
    simp only [packetValidators, List.foldl_cons, List.foldl_nil, Function.update_self]
  rw [OpenFlowEndpoint.runValidator, hvalidator]
  simp only [Message.frame, castInt_eq hlen]

/--
The validator accepts the bodies of the layout exactly on the inputs outside the gap between the two
lengths.
-/
theorem validateFlowMod_iff_flowMod_iff (body : Bytes) :
    (BodyValidator.validateFlowMod body body.length = true ↔ ∃ m : FlowMod, body = m.enc)
      ↔
    ¬(64 ≤ body.length ∧ body.length < 72 ∧ commandOf body ≤ 4) := by
  rw [validateFlowMod_eq_true_iff, exists_flowMod_iff]
  by_cases hcommand : commandOf body ≤ 4
  . simp only [hcommand, and_true]
    omega
  . simp only [hcommand, and_false, not_false_iff]

def noActions : Bytes := List.replicate 64 0

theorem validateFlowMod_noActions :
    BodyValidator.validateFlowMod noActions noActions.length = false
      ∧ ∃ m : FlowMod, noActions = m.enc := by
  apply And.intro
  . decide
  . apply (exists_flowMod_iff noActions).mpr
    decide

end NetOrc
