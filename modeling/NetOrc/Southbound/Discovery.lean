import Mathlib.Data.List.GetD
import NetOrc.Southbound.PacketHandlers

/-!
This module compares LLDP discovery with the layout of a PACKET_IN body. The handler looks for the
Ethernet header at byte 0 of the body, while the encapsulated frame starts at byte 10.
-/

namespace NetOrc

open BigEndian
open Oflib

variable {σ : Type}

structure UpdateLink where
  srcFd : Int32
  srcPort : Bytes
  dstChassis : Bytes
  dstPort : Bytes
  deriving DecidableEq, Repr

def ServiceTable.recording (svc : ServiceTable σ) : ServiceTable (σ × List UpdateLink) :=
  let db : IDatabaseService (σ × List UpdateLink) :=
    { saveFlow := fun dpid inPort actionPort w =>
        (svc.db.saveFlow dpid inPort actionPort w.1, w.2) }
  { fm :=
      { addFlow := fun dpid entry _ w => (svc.fm.addFlow dpid entry svc.db w.1, w.2)
        getFlows := fun dpid w => svc.fm.getFlows dpid w.1
        hasMatch := fun dpid inPort w => svc.fm.hasMatch dpid inPort w.1 }
    db := db
    topo :=
      { updateLink := fun srcFd srcPort dstChassis dstPort w =>
          (svc.topo.updateLink srcFd srcPort dstChassis dstPort w.1,
            w.2 ++ [⟨srcFd, srcPort, dstChassis, dstPort⟩])
        printTopology := fun w => (svc.topo.printTopology w.1, w.2) } }

/--
The `updateLink` calls that the PACKET_IN handler makes on a body, and the fault that escapes from it.
-/
def discover (svc : ServiceTable σ) (fd : Int32) (junk : Uninit) (w : σ) (body : Bytes) :
    List UpdateLink × Option Fault :=
  let r := PacketHandlers.packetIn fd body svc.recording junk (w, [])
  (r.1.2, r.2)

/-! The encapsulated frame. -/

def totalLen (body : Bytes) : Nat := (u16 (body.getD 4 0) (body.getD 5 0)).toNat

def ethernetFrame (body : Bytes) : Bytes := (body.drop 10).take (totalLen body)

def IsLLDPFrame (eth : Bytes) : Prop :=
  14 ≤ eth.length ∧ eth.getD 12 0 = 0x88 ∧ eth.getD 13 0 = 0xCC

instance (eth : Bytes) : Decidable (IsLLDPFrame eth) := inferInstanceAs (Decidable (_ ∧ _ ∧ _))

/--
A list of TLVs up to an end TLV or to the end of the frame, whose chassis and port ids have their subtype.
-/
def WellFormedTlvs (b : Bytes) : Prop := Tlv.whole b ∧ ∀ t ∈ Tlv.scan b, ¬LLDPParser.EmptyId t

instance (b : Bytes) : Decidable (WellFormedTlvs b) := inferInstanceAs (Decidable (_ ∧ _))

/--
A list that the parser leaves inside of the frame and without an empty id, whatever is behind the frame.
-/
def ClosedTlvs (b : Bytes) : Prop := Tlv.closed b ∧ ∀ t ∈ Tlv.scan b, ¬LLDPParser.EmptyId t

instance (b : Bytes) : Decidable (ClosedTlvs b) := inferInstanceAs (Decidable (_ ∧ _))

def idsOf (b : Bytes) : Bytes × Bytes :=
  (((Tlv.lastValue LLDPParser.isChassisId (Tlv.scan b)).map (List.drop 1)).getD [],
    ((Tlv.lastValue LLDPParser.isPortId (Tlv.scan b)).map (List.drop 1)).getD [])

/--
The test of the handler seen from the encapsulated frame: the body starts 10 bytes before the frame,
so the EtherType is looked up in bytes 2 and 3.
-/
def LooksLikeLLDP (eth : Bytes) : Prop :=
  4 ≤ eth.length ∧ eth.getD 2 0 = 0x88 ∧ eth.getD 3 0 = 0xCC

instance (eth : Bytes) : Decidable (LooksLikeLLDP eth) := inferInstanceAs (Decidable (_ ∧ _ ∧ _))

/--
Discovery as the layout of the body asks for it, for all bodies that start with the same `10 + n`
bytes: the handler returns, it records a link exactly if the encapsulated frame is LLDP, the link has
the ids of that frame, and the bytes behind the frame do not matter.
-/
def DiscoversLinks (discover : Bytes → List UpdateLink × Option Fault) (body : Bytes) : Prop :=
  let eth := ethernetFrame body
  ∀ body' : Bytes, BodyValidator.validatePacketIn body' body'.length →
    body'.take (10 + totalLen body) = body.take (10 + totalLen body) →
      (discover body').2 = none
        ∧ ((discover body').1 ≠ [] ↔ IsLLDPFrame eth)
        ∧ (IsLLDPFrame eth → WellFormedTlvs (eth.drop 14) →
            ∀ call ∈ (discover body').1, (call.dstChassis, call.dstPort) = idsOf (eth.drop 14))
        ∧ discover body' = discover body

/--
An LLDP frame must look like LLDP 10 bytes early as well, with a TLV list at byte 4 that is closed inside
of the frame and carries the ids of the list at byte 14, if that one is well formed. Any other frame must
not look like LLDP there, whatever is behind it.
-/
def AgreesOnOffset (body : Bytes) : Prop :=
  let eth := ethernetFrame body
  (IsLLDPFrame eth →
    LooksLikeLLDP eth ∧ ClosedTlvs (eth.drop 4)
      ∧ (WellFormedTlvs (eth.drop 14) → idsOf (eth.drop 4) = idsOf (eth.drop 14)))
  ∧ (¬IsLLDPFrame eth →
    (4 ≤ eth.length ∧ ¬LooksLikeLLDP eth) ∨ (eth.length = 3 ∧ eth.getD 2 0 ≠ 0x88))

instance (body : Bytes) : Decidable (AgreesOnOffset body) :=
  inferInstanceAs (Decidable ((_ → _) ∧ (_ → _)))

/-! What the handler computes on a body. -/

theorem isLLDP_iff (payload : Bytes) : LLDPParser.isLLDP payload ↔ IsLLDPFrame payload := by
  unfold LLDPParser.isLLDP IsLLDPFrame
  split
  . next h =>
    constructor
    . intro hfalse
      contradiction
    . intro hlldp
      omega
  . next h =>
    have h12 : payload.getD 12 0 = payload[12] := List.getD_eq_getElem _ _ (by omega)
    have h13 : payload.getD 13 0 = payload[13] := List.getD_eq_getElem _ _ (by omega)
    have hlt := payload[13].toNat_lt
    have hword : (0x88CC : UInt16).toNat = 0x88 * 256 + 0xCC := rfl
    have h88 : (0x88 : UInt8).toNat = 0x88 := rfl
    have hCC : (0xCC : UInt8).toNat = 0xCC := rfl
    simp only [decide_eq_true_eq, h12, h13, ← UInt16.toNat_inj, ← UInt8.toNat_inj,
      LLDPParser.toNat_shiftLeft_or, hword, h88, hCC]
    omega

theorem discover_eq (svc : ServiceTable σ) (fd : Int32) (junk : Uninit) (w : σ) (body : Bytes) :
    discover svc fd junk w body
      =
    if IsLLDPFrame body then
      if ∀ t ∈ Tlv.scan (body.drop 14), ¬LLDPParser.EmptyId t then
        ([⟨fd, mockPort, (idsOf (body.drop 14)).1, (idsOf (body.drop 14)).2⟩], none)
      else
        ([], some .lengthError)
    else
      ([], none) := by
  unfold discover
  rw [packetIn_eq]
  simp only [isLLDP_iff]
  by_cases hlldp : IsLLDPFrame body
  . rw [if_pos hlldp, if_pos hlldp]
    by_cases hempty : ∃ t ∈ LLDPParser.tlvs body, LLDPParser.EmptyId t
    . rw [if_pos hempty, if_neg (fun h => hempty.elim fun t ht => h t ht.1 ht.2)]
    . have hids : ∀ t ∈ Tlv.scan (body.drop 14), ¬LLDPParser.EmptyId t :=
        fun t ht hid => hempty ⟨t, ht, hid⟩
      rw [if_neg hempty, if_pos hids]
      rfl
  . rw [if_neg hlldp, if_neg hlldp]

theorem discover_append (svc : ServiceTable σ) (fd : Int32) (junk : Uninit) (w : σ)
    {fixed : Bytes} (hfixed : fixed.length = 10) (data : Bytes) :
    discover svc fd junk w (fixed ++ data)
      =
    if LooksLikeLLDP data then
      if ∀ t ∈ Tlv.scan (data.drop 4), ¬LLDPParser.EmptyId t then
        ([⟨fd, mockPort, (idsOf (data.drop 4)).1, (idsOf (data.drop 4)).2⟩], none)
      else
        ([], some .lengthError)
    else
      ([], none) := by
  have hlldp : IsLLDPFrame (fixed ++ data) ↔ LooksLikeLLDP data := by
    have hlen : 14 ≤ 10 + data.length ↔ 4 ≤ data.length := by omega
    unfold IsLLDPFrame LooksLikeLLDP
    rw [List.length_append, List.getD_append_right _ _ _ _ (by omega),
      List.getD_append_right _ _ _ _ (by omega), hfixed, hlen]
  have hdrop : (fixed ++ data).drop 14 = data.drop 4 := by
    rw [List.drop_append, hfixed, List.drop_eq_nil_of_le (by omega), List.nil_append]
  rw [discover_eq, hdrop]
  simp only [hlldp]

/-! Bodies that start with the same bytes. -/

theorem validatePacketIn_iff (body : Bytes) :
    BodyValidator.validatePacketIn body body.length ↔ 10 + totalLen body ≤ body.length := by
  unfold BodyValidator.validatePacketIn totalLen
  split
  . simp only [Bool.false_eq_true, false_iff]
    omega
  . dsimp only
    split
    . simp only [Bool.false_eq_true, false_iff]
      omega
    . simp only [true_iff]
      omega

theorem take_eq_append (body : Bytes) :
    body.take (10 + totalLen body) = body.take 10 ++ ethernetFrame body := List.take_add

theorem length_ethernetFrame {body : Bytes} (h : 10 + totalLen body ≤ body.length) :
    (ethernetFrame body).length = totalLen body := by
  rw [ethernetFrame, List.length_take, List.length_drop]
  omega

theorem totalLen_append {fixed : Bytes} (hfixed : fixed.length = 10) (data data' : Bytes) :
    totalLen (fixed ++ data) = totalLen (fixed ++ data') := by
  unfold totalLen
  simp only [List.getD_append _ _ _ _ (show 4 < fixed.length by omega),
    List.getD_append _ _ _ _ (show 5 < fixed.length by omega)]

theorem forall_agreeing_iff {body : Bytes} (h : BodyValidator.validatePacketIn body body.length)
    (P : Bytes → Prop) :
    (∀ body' : Bytes, BodyValidator.validatePacketIn body' body'.length →
      body'.take (10 + totalLen body) = body.take (10 + totalLen body) → P body')
      ↔
    ∀ behind, P (body.take 10 ++ (ethernetFrame body ++ behind)) := by
  rw [validatePacketIn_iff] at h
  have hfixed : (body.take 10).length = 10 := by
    rw [List.length_take]
    omega
  have hlen := length_ethernetFrame h
  constructor
  . intro hall behind
    have htotal : totalLen (body.take 10 ++ (ethernetFrame body ++ behind)) = totalLen body := by
      rw [totalLen_append hfixed _ (body.drop 10), List.take_append_drop]
    refine hall _ ?_ ?_
    . rw [validatePacketIn_iff, htotal, List.length_append, List.length_append, hfixed, hlen]
      omega
    . rw [take_eq_append, ← List.append_assoc, List.take_left']
      rw [List.length_append, hfixed, hlen]
  . intro hall body' _ htake
    have hbody' : body' = body.take 10 ++ (ethernetFrame body
        ++ body'.drop (10 + totalLen body)) := by
      rw [← List.append_assoc, ← take_eq_append, ← htake, List.take_append_drop]
    rw [hbody']
    exact hall _

theorem looksLikeLLDP_append_iff {eth : Bytes} (h : 4 ≤ eth.length) (behind : Bytes) :
    LooksLikeLLDP (eth ++ behind) ↔ LooksLikeLLDP eth := by
  have hlen : 4 ≤ (eth ++ behind).length := by
    rw [List.length_append]
    omega
  unfold LooksLikeLLDP
  rw [List.getD_append _ _ _ _ (by omega), List.getD_append _ _ _ _ (by omega)]
  simp only [h, hlen, true_and]

theorem forall_not_looksLikeLLDP_iff (eth : Bytes) :
    (∀ behind, ¬LooksLikeLLDP (eth ++ behind))
      ↔
    (4 ≤ eth.length ∧ ¬LooksLikeLLDP eth) ∨ (eth.length = 3 ∧ eth.getD 2 0 ≠ 0x88) := by
  by_cases hlong : 4 ≤ eth.length
  . have hne : eth.length ≠ 3 := by omega
    simp only [looksLikeLLDP_append_iff hlong, forall_const, hlong, true_and, hne, false_and,
      or_false]
  . match eth with
    | [] =>
      simp only [List.nil_append, List.length_nil]
      simpa using ⟨[0, 0, 0x88, 0xCC], by decide⟩
    | [a] =>
      simpa using ⟨[0, 0x88, 0xCC], by simp [LooksLikeLLDP]⟩
    | [a, b] =>
      simpa using ⟨[0x88, 0xCC], by simp [LooksLikeLLDP]⟩
    | [a, b, c] =>
      by_cases hc : c = 0x88
      . simpa [hc] using ⟨[0xCC], by simp [LooksLikeLLDP]⟩
      . simp [LooksLikeLLDP, hc]
    | _ :: _ :: _ :: _ :: _ =>
      simp only [List.length_cons] at hlong
      omega

/-! The handler on all bodies that start with the same bytes. -/

section
variable (svc : ServiceTable σ) (fd : Int32) (junk : Uninit) (w : σ) {fixed eth : Bytes}
variable (hfixed : fixed.length = 10)
include hfixed

theorem discover_of_closedTlvs (hlooks : LooksLikeLLDP eth) (hclosed : ClosedTlvs (eth.drop 4))
    (behind : Bytes) :
    discover svc fd junk w (fixed ++ (eth ++ behind))
      =
    ([⟨fd, mockPort, (idsOf (eth.drop 4)).1, (idsOf (eth.drop 4)).2⟩], none) := by
  have hscan : Tlv.scan ((eth ++ behind).drop 4) = Tlv.scan (eth.drop 4) := by
    rw [List.drop_append_of_le_length hlooks.1, Tlv.scan_append_of_closed hclosed.1]
  rw [discover_append svc fd junk w hfixed, if_pos ((looksLikeLLDP_append_iff hlooks.1 _).mpr hlooks),
    idsOf, idsOf, hscan, if_pos hclosed.2]

theorem discover_of_not_looksLikeLLDP {data : Bytes} (hlooks : ¬LooksLikeLLDP data) :
    discover svc fd junk w (fixed ++ data) = ([], none) := by
  rw [discover_append svc fd junk w hfixed, if_neg hlooks]

theorem closedTlvs_of_discover (hlooks : LooksLikeLLDP eth)
    (hreturns : ∀ behind, (discover svc fd junk w (fixed ++ (eth ++ behind))).2 = none) :
    ClosedTlvs (eth.drop 4) := by
  have hids : ∀ behind, ∀ t ∈ Tlv.scan (eth.drop 4 ++ behind), ¬LLDPParser.EmptyId t := by
    intro behind
    by_contra hempty
    have h := hreturns behind
    rw [discover_append svc fd junk w hfixed,
      if_pos ((looksLikeLLDP_append_iff hlooks.1 _).mpr hlooks),
      List.drop_append_of_le_length hlooks.1, if_neg hempty] at h
    contradiction
  constructor
  . by_contra hclosed
    rcases Tlv.exists_mem_scan_append hclosed with ⟨behind, hmem⟩
    exact hids behind _ hmem ⟨.inl rfl, rfl⟩
  . simpa using hids []

theorem not_looksLikeLLDP_of_discover {data : Bytes}
    (h : discover svc fd junk w (fixed ++ data) = ([], none)) : ¬LooksLikeLLDP data := by
  intro hlooks
  rw [discover_append svc fd junk w hfixed, if_pos hlooks] at h
  split at h
  all_goals simp at h

end

/--
The handler discovers links as the layout of the body asks for it exactly on the bodies whose frame
agrees with the offset the handler uses.
-/
theorem discoversLinks_iff (svc : ServiceTable σ) (fd : Int32) (junk : Uninit) (w : σ)
    (body : Bytes) (h : BodyValidator.validatePacketIn body body.length) :
    DiscoversLinks (discover svc fd junk w) body ↔ AgreesOnOffset body := by
  have hlen := (validatePacketIn_iff body).mp h
  have hfixed : (body.take 10).length = 10 := by
    rw [List.length_take]
    omega
  obtain ⟨rest, hbody⟩ : ∃ rest, body = body.take 10 ++ (ethernetFrame body ++ rest) :=
    ⟨(body.drop 10).drop (totalLen body), by
      rw [ethernetFrame, List.take_append_drop, List.take_append_drop]⟩
  unfold DiscoversLinks AgreesOnOffset
  dsimp only
  rw [forall_agreeing_iff h]
  by_cases hlldp : IsLLDPFrame (ethernetFrame body)
  . simp only [hlldp, true_implies, not_true_eq_false, false_implies, and_true]
    constructor
    . intro hall
      have hlooks : LooksLikeLLDP (ethernetFrame body) := by
        by_contra hlooks
        apply (hall []).2.1.mpr trivial
        rw [List.append_nil, discover_of_not_looksLikeLLDP svc fd junk w hfixed hlooks]
      have hclosed := closedTlvs_of_discover svc fd junk w hfixed hlooks (fun behind => (hall behind).1)
      refine ⟨hlooks, hclosed, fun hwf => ?_⟩
      have hcall := (hall []).2.2.1 hwf
      rw [discover_of_closedTlvs svc fd junk w hfixed hlooks hclosed] at hcall
      exact hcall _ (List.mem_singleton_self _)
    . rintro ⟨hlooks, hclosed, hids⟩ behind
      have hdiscover := discover_of_closedTlvs svc fd junk w hfixed hlooks hclosed
      rw [hbody, hdiscover rest, ← hbody, hdiscover behind]
      refine ⟨rfl, by simp, fun hwf call hcall => ?_, rfl⟩
      rw [List.mem_singleton.mp hcall]
      exact hids hwf
  . simp only [hlldp, iff_false, not_not, false_implies, true_and, not_false_eq_true, true_implies]
    rw [← forall_not_looksLikeLLDP_iff]
    constructor
    . intro hall behind
      apply not_looksLikeLLDP_of_discover svc fd junk w hfixed
      exact Prod.ext (hall behind).2.1 (hall behind).1
    . intro hlooks behind
      have hdiscover := fun behind =>
        discover_of_not_looksLikeLLDP svc fd junk w hfixed (hlooks behind)
      rw [hbody, hdiscover rest, ← hbody, hdiscover behind]
      simp

def ipv4Body : Bytes :=
  [0xFF, 0xFF, 0xFF, 0xFF, 0x00, 0x10, 0x00, 0x01, 0x00, 0x00,
    0x00, 0x11, 0x22, 0x33, 0x44, 0x55, 0x66, 0x77, 0x88, 0x99, 0xAA, 0xBB, 0x08, 0x00, 0x45, 0x00]

/--
The LLDP frame of port "Eth1" of "Switch1" from an address whose last bytes read as an EtherType and as the
header of a TLV, which ends where the list of the frame begins.
-/
def shadowBody : Bytes :=
  [0xFF, 0xFF, 0xFF, 0xFF, 0x00, 0x25, 0x00, 0x01, 0x00, 0x00,
    0x01, 0x80, 0x88, 0xCC, 0x0A, 0x08, 0x00, 0x11, 0x22, 0x33, 0x44, 0x55, 0x88, 0xCC,
    0x02, 0x08, 0x07, 0x53, 0x77, 0x69, 0x74, 0x63, 0x68, 0x31,
    0x04, 0x05, 0x07, 0x45, 0x74, 0x68, 0x31,
    0x06, 0x02, 0x00, 0x78,
    0x00, 0x00]

theorem discoversLinks_shadowBody :
    let found := discover (services (fun _ => false)) 7 ⟨0, 0, 0⟩ {}
    DiscoversLinks found ipv4Body ∧ found ipv4Body = ([], none)
      ∧ DiscoversLinks found shadowBody
      ∧ found shadowBody = ([⟨7, mockPort, "Switch1".toUTF8.toList, "Eth1".toUTF8.toList⟩], none) :=
  ⟨(discoversLinks_iff _ _ _ _ _ (by decide)).mpr (by decide +kernel), by decide +kernel,
    (discoversLinks_iff _ _ _ _ _ (by decide)).mpr (by decide +kernel), by decide +kernel⟩

/--
The body of the packet that `tests/send_msg.ps1` sends: the LLDP frame of port "Eth1" of "Switch1".
-/
def sendMsgBody : Bytes :=
  [0xFF, 0xFF, 0xFF, 0xFF, 0x00, 0x25, 0x00, 0x01, 0x00, 0x00,
    0x01, 0x80, 0xC2, 0x00, 0x00, 0x0E, 0x00, 0x11, 0x22, 0x33, 0x44, 0x55, 0x88, 0xCC,
    0x02, 0x07, 0x07, 0x53, 0x77, 0x69, 0x74, 0x63, 0x68, 0x31,
    0x04, 0x06, 0x07, 0x45, 0x74, 0x68, 0x31,
    0x06, 0x02, 0x00, 0x78,
    0x00, 0x00]

/--
The packet is accepted and carries LLDP, and the handler records nothing.
-/
theorem discover_sendMsgBody :
    BodyValidator.validatePacketIn sendMsgBody sendMsgBody.length
      ∧ IsLLDPFrame (ethernetFrame sendMsgBody)
      ∧ discover (services (fun _ => false)) 7 ⟨0, 0, 0⟩ {} sendMsgBody = ([], none)
      ∧ ¬DiscoversLinks (discover (services (fun _ => false)) 7 ⟨0, 0, 0⟩ {}) sendMsgBody := by
  have haccepted : BodyValidator.validatePacketIn sendMsgBody sendMsgBody.length := by decide
  have hlldp : IsLLDPFrame (ethernetFrame sendMsgBody) := by decide +kernel
  have hnothing : discover (services (fun _ => false)) 7 ⟨0, 0, 0⟩ {} sendMsgBody = ([], none) := by
    decide +kernel
  refine ⟨haccepted, hlldp, hnothing, fun hdiscovers => ?_⟩
  have hcall := (hdiscovers sendMsgBody haccepted rfl).2.1.mpr hlldp
  rw [hnothing] at hcall
  contradiction

end NetOrc
