import NetOrc.Core.Persistence

/-!
This module contains sequences of `addFlow` calls. The entry of a call is appended whether or not the
table already holds one for the same match, so a call adds and never updates.
-/

namespace NetOrc

open Oflib

structure MatchFields where
  inPort : UInt32
  dlSrc : Bytes
  dlDst : Bytes
  nwSrc : Bytes
  nwDst : Bytes
  tpSrc : UInt16
  tpDst : UInt16
  deriving DecidableEq, Repr

def FlowEntry.matchFields (entry : FlowEntry) : MatchFields where
  inPort := entry.inPort
  dlSrc := entry.dlSrc
  dlDst := entry.dlDst
  nwSrc := entry.nwSrc
  nwDst := entry.nwDst
  tpSrc := entry.tpSrc
  tpDst := entry.tpDst

def AddFlow.key (call : AddFlow) : UInt64 × MatchFields := (call.dpid, call.entry.matchFields)

def addFlows (insertFails : Nat → Bool) (calls : List AddFlow) (w : Services) : Services :=
  calls.foldl
    (fun w call =>
      (services insertFails).fm.addFlow call.dpid call.entry (services insertFails).db w) w

def flowsAfter (insertFails : Nat → Bool) (calls : List AddFlow) (dpid : UInt64) : List FlowEntry :=
  (services insertFails).fm.getFlows dpid (addFlows insertFails calls {})

def lastAction (calls : List AddFlow) (key : UInt64 × MatchFields) : Option UInt16 :=
  ((calls.filter (fun call => call.key = key)).getLast?).map (fun call => call.entry.actionOutputPort)

section

variable (insertFails : Nat → Bool)

theorem getFlows_addFlow (call : AddFlow) (w : Services) (dpid : UInt64) :
    (addFlows insertFails [call] w).flows.getFlows dpid
      =
    if dpid = call.dpid then w.flows.getFlows dpid ++ [call.entry] else w.flows.getFlows dpid := by
  have h := FlowManager.getFlows_pushFlow w.flows call.dpid call.entry dpid
  by_cases heq : dpid = call.dpid
  . rw [if_pos heq] at h ⊢
    rw [heq] at h ⊢
    exact h
  . rw [if_neg heq] at h ⊢
    exact h

theorem addFlows_append (calls calls' : List AddFlow) (w : Services) :
    addFlows insertFails (calls ++ calls') w
      =
    addFlows insertFails calls' (addFlows insertFails calls w) :=
  List.foldl_append

theorem getFlows_addFlows (calls : List AddFlow) (w : Services) (dpid : UInt64) :
    (addFlows insertFails calls w).flows.getFlows dpid
      =
    w.flows.getFlows dpid ++ (calls.filter (fun call => call.dpid = dpid)).map AddFlow.entry := by
  induction calls generalizing w with
  | nil => simp [addFlows]
  | cons call calls ih =>
    rw [← List.singleton_append, addFlows_append, ih, getFlows_addFlow]
    split
    . next heq => simp [← heq]
    . next hne => simp [Ne.symm hne]

theorem flowsAfter_eq (calls : List AddFlow) (dpid : UInt64) :
    flowsAfter insertFails calls dpid
      =
    (calls.filter (fun call => call.dpid = dpid)).map AddFlow.entry :=
  getFlows_addFlows insertFails calls {} dpid

theorem flowsAfter_append (before : List AddFlow) (call : AddFlow) (dpid : UInt64) :
    flowsAfter insertFails (before ++ [call]) dpid
      =
    if dpid = call.dpid then
      flowsAfter insertFails before dpid ++ [call.entry]
    else
      flowsAfter insertFails before dpid := by
  unfold flowsAfter
  rw [addFlows_append]
  apply getFlows_addFlow

theorem filter_flowsAfter (calls : List AddFlow) (dpid : UInt64) (m : MatchFields) :
    (flowsAfter insertFails calls dpid).filter (fun entry => entry.matchFields = m)
      =
    (calls.filter (fun call => call.key = (dpid, m))).map AddFlow.entry := by
  rw [flowsAfter_eq, List.filter_map, List.filter_filter]
  congr 1
  apply List.filter_congr
  intro call _
  simp only [AddFlow.key, Function.comp, Prod.mk.injEq, Bool.decide_and]
  apply Bool.and_comm

/--
What the table promises after `calls`: an entry for a match is the only one, its action is that of the
last call for the match, and a call leaves the entries of the other datapaths alone.
-/
def AddsOrUpdates (calls : List AddFlow) : Prop :=
  (∀ dpid m,
      ((flowsAfter insertFails calls dpid).filter (fun entry => entry.matchFields = m)).length ≤ 1)
    ∧ (∀ dpid, ∀ entry ∈ flowsAfter insertFails calls dpid,
        lastAction calls (dpid, entry.matchFields) = some entry.actionOutputPort)
    ∧ (∀ before call, before ++ [call] <+: calls → ∀ dpid, dpid ≠ call.dpid →
        flowsAfter insertFails (before ++ [call]) dpid = flowsAfter insertFails before dpid)

theorem length_filter_key_le_one_iff (calls : List AddFlow) :
    (∀ key, (calls.filter (fun call => call.key = key)).length ≤ 1) ↔ (calls.map AddFlow.key).Nodup := by
  rw [List.nodup_iff_count_le_one]
  apply forall_congr'
  intro key
  rw [List.count, List.countP_map, List.countP_eq_length_filter]
  simp only [Function.comp_def, Bool.beq_eq_decide_eq]

theorem lastAction_of_nodup {calls : List AddFlow} (h : (calls.map AddFlow.key).Nodup) {dpid : UInt64}
    {entry : FlowEntry} (hmem : entry ∈ flowsAfter insertFails calls dpid) :
    lastAction calls (dpid, entry.matchFields) = some entry.actionOutputPort := by
  have hle := (length_filter_key_le_one_iff calls).mpr h (dpid, entry.matchFields)
  have hfilter := filter_flowsAfter insertFails calls dpid entry.matchFields
  have hin : entry ∈ (calls.filter (fun call => call.key = (dpid, entry.matchFields))).map AddFlow.entry := by
    rw [← hfilter]
    apply List.mem_filter.mpr
    exact ⟨hmem, by simp⟩
  unfold lastAction
  match hcalls : calls.filter (fun call => call.key = (dpid, entry.matchFields)) with
  | [] => rw [hcalls] at hin; contradiction
  | [call] =>
    rw [hcalls] at hin
    have hentry : entry = call.entry := by simpa using hin
    rw [hcalls, List.getLast?_singleton, hentry]
    rfl
  | _ :: _ :: _ =>
    rw [hcalls] at hle
    simp at hle

theorem addsOrUpdates_iff_nodup (calls : List AddFlow) :
    AddsOrUpdates insertFails calls ↔ (calls.map AddFlow.key).Nodup := by
  rw [← length_filter_key_le_one_iff]
  constructor
  . rintro ⟨hunique, _⟩ ⟨dpid, m⟩
    have hle := hunique dpid m
    rwa [filter_flowsAfter, List.length_map] at hle
  . intro h
    refine ⟨?_, ?_, ?_⟩
    . intro dpid m
      rw [filter_flowsAfter, List.length_map]
      apply h
    . intro dpid entry hmem
      apply lastAction_of_nodup insertFails _ hmem
      exact (length_filter_key_le_one_iff calls).mp h
    . intro before call _ dpid hne
      rw [flowsAfter_append, if_neg hne]

end

def readdress : List AddFlow :=
  [⟨1, { inPort := 1, tpSrc := 0, tpDst := 0, actionOutputPort := 2 }⟩,
    ⟨1, { inPort := 1, tpSrc := 0, tpDst := 0, actionOutputPort := 3 }⟩]

theorem not_addsOrUpdates_readdress : ¬AddsOrUpdates (fun _ => false) readdress := by
  intro h
  have hle := h.1 1 ⟨1, [], [], [], [], 0, 0⟩
  revert hle
  decide

end NetOrc
