import NetOrc.Core.FlowManager
import NetOrc.Core.TopologyManager
import NetOrc.OpenFlow.Chunking
import NetOrc.Southbound.BodyValidator
import NetOrc.Southbound.LLDPLemmas

/-!
This module contains the packet handlers and the endpoint that `SouthBoundInterface::init` sets up
from them. The handlers only see the interfaces of the services, which come last.
-/

namespace NetOrc

open Oflib

variable {σ : Type}

/--
The starting values of the scalars that the source leaves without an initialiser.
-/
structure Uninit where
  tpSrc : UInt16
  tpDst : UInt16
  ttl : UInt16
  deriving DecidableEq, Repr

structure ServiceTable (σ : Type) where
  fm : IFlowManager σ
  db : IDatabaseService σ
  topo : ITopologyManager σ

/--
`PacketHandler`: the world it leaves, and the fault that escapes from it. Handlers that print only
are without effect on the world.
-/
abbrev PacketHandler (σ : Type) :=
  Int32 → Bytes → ServiceTable σ → Uninit → σ → σ × Option Fault

def dpidOf (fd : Int32) : UInt64 := fd.toInt64.toUInt64

def mockPort : Bytes := [0x31]

namespace PacketHandlers

def hello : PacketHandler σ := fun fd _payload svc junk w =>
  let defaultFlow : FlowEntry :=
    { inPort := 1, actionOutputPort := 2, tpSrc := junk.tpSrc, tpDst := junk.tpDst }
  (svc.fm.addFlow (dpidOf fd) defaultFlow svc.db w, none)

def packetIn : PacketHandler σ := fun fd payload svc junk w =>
  if LLDPParser.isLLDP payload then
    match LLDPParser.parse payload junk.ttl with
    | .error e => (w, some e)
    | .ok neighbor =>
      let w := svc.topo.updateLink fd mockPort neighbor.chassisId neighbor.portId w
      (svc.topo.printTopology w, none)
  else if svc.fm.hasMatch (dpidOf fd) 1 w then
    -- flow hit and flow miss differ in the line they print
    (w, none)
  else
    (w, none)

def flowMod : PacketHandler σ := fun fd _payload svc junk w =>
  let newFlow : FlowEntry :=
    { inPort := 10, actionOutputPort := 20, tpSrc := junk.tpSrc, tpDst := junk.tpDst }
  (svc.fm.addFlow (dpidOf fd) newFlow svc.db w, none)

end PacketHandlers

def getPacketHandlers (type : PacketType) : Option (PacketHandler σ) :=
  if type = .hello then some PacketHandlers.hello
  else if type = .packetIn then some PacketHandlers.packetIn
  else if type = .flowMod then some PacketHandlers.flowMod
  else none

/--
The lambda that `setupProtocolEvents` registers for a type: look the handler up in the table and call
it. `junk` supplies the uninitialised values of a call.
-/
def callPacketHandler (svc : ServiceTable σ) (junk : Connection → Frame → σ → Uninit)
    (type : PacketType) : HandlerFn σ where
  call conn frame w :=
    match getPacketHandlers type with
    | none => ⟨conn, w, some .badFunctionCall⟩
    | some handler =>
      let r := handler conn.fd frame.body svc (junk conn frame w) w
      ⟨conn, r.1, r.2⟩
  length_le conn frame w := by
    split
    all_goals exact Nat.le_refl _

def ignoreFrame : HandlerFn σ where
  call conn _frame w := ⟨conn, w, none⟩
  length_le _ _ _ := Nat.le_refl _

def setupProtocolEvents (ep : OpenFlowEndpoint σ) (svc : ServiceTable σ)
    (junk : Connection → Frame → σ → Uninit) : OpenFlowEndpoint σ :=
  ep.on .hello (callPacketHandler svc junk .hello)
    |>.on .packetIn (callPacketHandler svc junk .packetIn)
    |>.on .flowRemoved ignoreFrame

def sbiEndpoint (svc : ServiceTable σ) (junk : Connection → Frame → σ → Uninit) :
    OpenFlowEndpoint σ :=
  packetValidators.foldl (fun ep pair => ep.validate pair.1 pair.2)
    (setupProtocolEvents {} svc junk)

variable (svc : ServiceTable σ) (junk : Connection → Frame → σ → Uninit)

theorem sbiEndpoint_handlers :
    (sbiEndpoint svc junk).handlers
      =
    Function.update
      (Function.update
        (Function.update (fun _ => []) .hello [⟨filterAll, callPacketHandler svc junk .hello⟩])
        .packetIn [⟨filterAll, callPacketHandler svc junk .packetIn⟩])
      .flowRemoved [⟨filterAll, ignoreFrame⟩] := rfl

theorem foldl_validate_validators (pairs : List (PacketType × ValidatorFn)) (ep : OpenFlowEndpoint σ) :
    (pairs.foldl (fun ep pair => ep.validate pair.1 pair.2) ep).validators
      =
    pairs.foldl (fun (validators : PacketType → Option ValidatorFn) pair =>
      Function.update validators pair.1 (some pair.2)) ep.validators := by
  induction pairs generalizing ep with
  | nil => rfl
  | cons pair pairs ih => exact ih _

theorem sbiEndpoint_runValidator {τ : Type} (svc' : ServiceTable τ)
    (junk' : Connection → Frame → τ → Uninit) :
    (sbiEndpoint svc junk).runValidator = (sbiEndpoint svc' junk').runValidator := by
  have hvalidators : (sbiEndpoint svc junk).validators = (sbiEndpoint svc' junk').validators := by
    unfold sbiEndpoint
    rw [foldl_validate_validators, foldl_validate_validators]
    rfl
  funext type frame
  unfold OpenFlowEndpoint.runValidator
  rw [hvalidators]

theorem sbiEndpoint_route (type : PacketType) (frame : Frame) :
    (sbiEndpoint svc junk).route type frame
      =
    if type = .hello then some (callPacketHandler svc junk .hello)
    else if type = .packetIn then some (callPacketHandler svc junk .packetIn)
    else if type = .flowRemoved then some ignoreFrame
    else none := by
  rw [OpenFlowEndpoint.route, sbiEndpoint_handlers]
  by_cases hhello : type = .hello
  . subst hhello; rfl
  . by_cases hpacketIn : type = .packetIn
    . subst hpacketIn; rfl
    . by_cases hflowRemoved : type = .flowRemoved
      . subst hflowRemoved; rfl
      . simp [Function.update_of_ne, hhello, hpacketIn, hflowRemoved]

/--
The frames on which a handler throws: a PACKET_IN that carries an LLDP chassis or port id of length 0.
-/
def lldpFault (type : PacketType) (frame : Frame) : Option Fault :=
  if type = .packetIn ∧ LLDPParser.isLLDP frame.body
      ∧ ∃ t ∈ LLDPParser.tlvs frame.body, LLDPParser.EmptyId t then
    some .lengthError
  else
    none

theorem packetIn_eq (fd : Int32) (payload : Bytes) (junk : Uninit) (w : σ) :
    PacketHandlers.packetIn fd payload svc junk w
      =
    if LLDPParser.isLLDP payload then
      if ∃ t ∈ LLDPParser.tlvs payload, LLDPParser.EmptyId t then
        (w, some .lengthError)
      else
        let neighbor := LLDPParser.describe { ttl := junk.ttl } (LLDPParser.tlvs payload)
        (svc.topo.printTopology
          (svc.topo.updateLink fd mockPort neighbor.chassisId neighbor.portId w), none)
    else
      (w, none) := by
  unfold PacketHandlers.packetIn
  rw [LLDPParser.parse_eq]
  by_cases hlldp : LLDPParser.isLLDP payload
  . simp only [hlldp, if_true]
    by_cases hempty : ∃ t ∈ LLDPParser.tlvs payload, LLDPParser.EmptyId t
    . simp only [hempty, if_true]
    . simp only [hempty, if_false]
  . rw [if_neg hlldp, if_neg hlldp, ite_self]

theorem sbiEndpoint_call (type : PacketType) (conn : Connection) (frame : Frame) (w : σ) :
    ((sbiEndpoint svc junk).dispatch type).call conn frame w
      =
    if type = .hello then
      let r := PacketHandlers.hello conn.fd frame.body svc (junk conn frame w) w
      ⟨conn, r.1, r.2⟩
    else if type = .packetIn then
      let r := PacketHandlers.packetIn conn.fd frame.body svc (junk conn frame w) w
      ⟨conn, r.1, r.2⟩
    else
      ⟨conn, w, none⟩ := by
  unfold OpenFlowEndpoint.dispatch
  dsimp only
  rw [sbiEndpoint_route]
  by_cases hhello : type = .hello
  . rw [if_pos hhello, if_pos hhello]; rfl
  . rw [if_neg hhello, if_neg hhello]
    by_cases hpacketIn : type = .packetIn
    . rw [if_pos hpacketIn, if_pos hpacketIn]; rfl
    . rw [if_neg hpacketIn, if_neg hpacketIn]
      by_cases hflowRemoved : type = .flowRemoved
      . rw [if_pos hflowRemoved]; rfl
      . rw [if_neg hflowRemoved]

theorem sbiEndpoint_keepsConnection : KeepsConnection (sbiEndpoint svc junk).dispatch := by
  intro type conn frame w
  rw [sbiEndpoint_call]
  split
  . rfl
  . split <;> rfl

theorem sbiEndpoint_faultsBy : FaultsBy (sbiEndpoint svc junk).dispatch lldpFault := by
  intro type conn frame w
  rw [sbiEndpoint_call, lldpFault]
  by_cases hhello : type = .hello
  . subst hhello; rfl
  . rw [if_neg hhello]
    by_cases hpacketIn : type = .packetIn
    . rw [if_pos hpacketIn, packetIn_eq]
      by_cases hlldp : LLDPParser.isLLDP frame.body
      . simp only [hlldp, hpacketIn, if_true, true_and]
        split <;> rfl
      . rw [if_neg hlldp, if_neg (fun h => hlldp h.2.1)]
    . rw [if_neg hpacketIn, if_neg (fun h => hpacketIn h.1)]

theorem serverDispatch_keepsConnection {ep : OpenFlowEndpoint σ} (h : KeepsConnection ep.dispatch) :
    KeepsConnection (serverDispatch ep) := by
  intro type conn frame w
  unfold serverDispatch
  dsimp only
  split
  all_goals exact h type conn frame w.1

theorem serverDispatch_world (ep : OpenFlowEndpoint σ) (type : PacketType) (conn : Connection)
    (frame : Frame) (w : σ × List Event) :
    ((serverDispatch ep type).call conn frame w).world.1
      =
    ((ep.dispatch type).call conn frame w.1).world := by
  unfold serverDispatch
  dsimp only
  split <;> rfl

theorem serverDispatch_faultsBy {ep : OpenFlowEndpoint σ}
    {faultOf : PacketType → Frame → Option Fault} (h : FaultsBy ep.dispatch faultOf) :
    FaultsBy (serverDispatch ep) faultOf := by
  intro type conn frame w
  have h := h type conn frame w.1
  unfold serverDispatch
  dsimp only
  split
  . next e he => rw [← h, he]
  . next hnone => rw [← h, hnone]

/-! The services of the program. -/

structure Services where
  flows : FlowManager := {}
  db : DatabaseService := {}
  topo : TopologyManager := {}

def addFlow (dpid : UInt64) (entry : FlowEntry) (db : IDatabaseService Services) (w : Services) :
    Services :=
  let w := { w with flows := w.flows.pushFlow dpid entry }
  db.saveFlow dpid entry.inPort (.ofNat entry.actionOutputPort.toNat) w

/--
The services of `main`. `insertFails` tells which `INSERT` statements fail, counted from 0.
-/
def services (insertFails : Nat → Bool) : ServiceTable Services where
  fm :=
    { addFlow := addFlow
      getFlows := fun dpid w => w.flows.getFlows dpid
      hasMatch := fun dpid inPort w => w.flows.hasMatch dpid inPort }
  db :=
    { saveFlow := fun dpid inPort actionPort w =>
        { w with
          db := w.db.saveFlow (insertFails w.db.calls.length) ⟨dpid, inPort, actionPort⟩ } }
  topo :=
    { updateLink := fun srcFd srcPort dstChassis dstPort w =>
        { w with topo := w.topo.updateLink srcFd srcPort dstChassis dstPort }
      printTopology := fun w => w }

end NetOrc
