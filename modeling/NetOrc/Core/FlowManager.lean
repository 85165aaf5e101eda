import Mathlib.Logic.Function.Basic
import NetOrc.Core.DatabaseService
import NetOrc.OpenFlow.Basic

/-!
This module contains the in-memory flow tables, one list of entries for each datapath id.
-/

namespace NetOrc

open Oflib

structure FlowEntry where
  inPort : UInt32
  dlSrc : Bytes := []
  dlDst : Bytes := []
  nwSrc : Bytes := []
  nwDst : Bytes := []
  tpSrc : UInt16
  tpDst : UInt16
  actionOutputPort : UInt16
  packetCount : UInt64 := 0
  byteCount : UInt64 := 0
  deriving DecidableEq, Repr

structure FlowManager where
  tables : UInt64 → Option (List FlowEntry) := fun _ => none

namespace FlowManager

/--
The part of `addFlow` that runs under the lock.
-/
def pushFlow (fm : FlowManager) (dpid : UInt64) (entry : FlowEntry) : FlowManager where
  tables := Function.update fm.tables dpid (some ((fm.tables dpid).getD [] ++ [entry]))

def getFlows (fm : FlowManager) (dpid : UInt64) : List FlowEntry :=
  match fm.tables dpid with
  | some flows => flows
  | none => []

def hasMatch (fm : FlowManager) (dpid : UInt64) (inPort : UInt32) : Bool :=
  match fm.tables dpid with
  | some flows => flows.any (fun flow => flow.inPort = inPort)
  | none => false

theorem getFlows_pushFlow (fm : FlowManager) (dpid : UInt64) (entry : FlowEntry) (dpid' : UInt64) :
    (fm.pushFlow dpid entry).getFlows dpid'
      =
    if dpid' = dpid then fm.getFlows dpid ++ [entry] else fm.getFlows dpid' := by
  unfold getFlows pushFlow
  by_cases h : dpid' = dpid
  . subst h
    simp only [Function.update_self, if_true]
    cases fm.tables dpid' <;> rfl
  . simp only [Function.update_of_ne h, if_neg h]

theorem hasMatch_eq_any (fm : FlowManager) (dpid : UInt64) (inPort : UInt32) :
    fm.hasMatch dpid inPort = (fm.getFlows dpid).any (fun flow => flow.inPort = inPort) := by
  unfold hasMatch getFlows
  cases fm.tables dpid <;> rfl

end FlowManager

structure IFlowManager (σ : Type) where
  addFlow : UInt64 → FlowEntry → IDatabaseService σ → σ → σ
  getFlows : UInt64 → σ → List FlowEntry
  hasMatch : UInt64 → UInt32 → σ → Bool

end NetOrc
