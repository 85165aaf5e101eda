import NetOrc.Southbound.Discovery
import NetOrc.Southbound.Safety

/-!
This module says what a call of `dispatch` does to the flows and the links of a descriptor.
-/

namespace NetOrc

open Oflib

theorem dpidOf_inj {fd fd' : Int32} : dpidOf fd = dpidOf fd' ↔ fd = fd' := by
  constructor
  . intro h
    have h := congrArg (fun dpid => dpid.toInt64.toInt) h
    exact Int32.toInt_inj.mp (by simpa [dpidOf] using h)
  . rintro rfl
    rfl

theorem dpidOf_toNat_lt {fd : Int32} (h : 0 ≤ fd) : (dpidOf fd).toNat < 2 ^ 63 := by
  have hfd : (0 : Int64) ≤ fd.toInt64 := by
    rw [Int64.le_iff_toInt_le, Int32.toInt_toInt64]
    exact Int32.le_iff_toInt_le.mp h
  have hlt := Int64.toInt_lt fd.toInt64
  unfold dpidOf
  have hnat := Int64.toNat_toUInt64_of_le hfd
  rw [hnat, Int64.toNatClampNeg]
  omega

def RecordsLink (frame : Frame) : Prop :=
  frame.type = .packetIn ∧ LLDPParser.isLLDP frame.body ∧ ¬HasEmptyId frame.body

instance (frame : Frame) : Decidable (RecordsLink frame) := inferInstanceAs (Decidable (_ ∧ _ ∧ _))

def defaultFlow (junk : Uninit) : FlowEntry :=
  { inPort := 1, actionOutputPort := 2, tpSrc := junk.tpSrc, tpDst := junk.tpDst }

section
variable (insertFails : Nat → Bool) (junk : Connection → Frame → Services → Uninit)

theorem sbiEndpoint_getFlows (type : PacketType) (conn : Connection) (frame : Frame) (w : Services)
    (dpid : UInt64) :
    (((sbiEndpoint (services insertFails) junk).dispatch type).call conn frame
        w).world.flows.getFlows dpid
      =
    w.flows.getFlows dpid
      ++ if dpid = dpidOf conn.fd ∧ type = .hello then [defaultFlow (junk conn frame w)] else [] := by
  rw [sbiEndpoint_call]
  by_cases hhello : type = .hello
  . simp only [hhello, if_true, and_true, PacketHandlers.hello, services, addFlow,
      FlowManager.getFlows_pushFlow]
    by_cases hdpid : dpid = dpidOf conn.fd
    . rw [if_pos hdpid, if_pos hdpid, hdpid]
      rfl
    . rw [if_neg hdpid, if_neg hdpid, List.append_nil]
  . simp only [hhello, if_false, and_false, List.append_nil, packetIn_eq]
    split
    . split
      . split <;> rfl
      . rfl
    . rfl

theorem sbiEndpoint_flows (conn : Connection) (frame : Frame) (w : Services) (fd : Int32) :
    (((sbiEndpoint (services insertFails) junk).dispatch frame.type).call conn frame
        w).world.flows.getFlows (dpidOf fd)
      =
    w.flows.getFlows (dpidOf fd)
      ++ if conn.fd = fd ∧ frame.type = .hello then [defaultFlow (junk conn frame w)] else [] := by
  rw [sbiEndpoint_getFlows]
  simp only [dpidOf_inj, eq_comm (a := fd)]

theorem sbiEndpoint_links (conn : Connection) (frame : Frame) (w : Services) :
    (((sbiEndpoint (services insertFails) junk).dispatch frame.type).call conn frame
        w).world.topo.links
      =
    if RecordsLink frame then
      TopologyManager.updateLinks w.topo.links conn.fd mockPort (idsOf (frame.body.drop 14)).1
        (idsOf (frame.body.drop 14)).2
    else
      w.topo.links := by
  rw [sbiEndpoint_call]
  by_cases hpacketIn : frame.type = .packetIn
  . rw [if_neg (by rw [hpacketIn]; decide), if_pos hpacketIn, packetIn_eq]
    by_cases hlldp : LLDPParser.isLLDP frame.body
    . rw [if_pos hlldp]
      by_cases hempty : ∃ t ∈ LLDPParser.tlvs frame.body, LLDPParser.EmptyId t
      . rw [if_pos hempty, if_neg (fun h => h.2.2 ⟨hlldp, hempty⟩)]
      . rw [if_neg hempty, if_pos ⟨hpacketIn, hlldp, fun h => hempty h.2⟩]
        rfl
    . rw [if_neg hlldp, if_neg (fun h => hlldp h.2.1)]
  . rw [if_neg (fun h : RecordsLink frame => hpacketIn h.1)]
    simp only [hpacketIn, if_false]
    split <;> rfl

end

end NetOrc
