import NetOrc.Southbound.Effects

/-!
This module contains complete and incomplete LLDP payloads: the parser reads every serialised LLDPDU
back, and the PACKET_IN handler records a link whether or not it read both ids.
-/

namespace NetOrc

open Oflib

/--
An Ethernet header, the TLVs that an LLDPDU carries, and what stands where its list of TLVs ends.
-/
structure Lldpdu where
  ethernet : Bytes
  tlvs : List Tlv.Entry
  tail : Bytes
  length_ethernet : ethernet.length = 14
  wellFormed : ∀ t ∈ tlvs, t.WellFormed
  idsNonempty : ∀ t ∈ tlvs, ¬LLDPParser.EmptyId t
  ends : Tlv.Tail tail

namespace Lldpdu

def enc (p : Lldpdu) : Bytes := p.ethernet ++ Tlv.enc p.tlvs ++ p.tail

theorem tlvs_enc (p : Lldpdu) : LLDPParser.tlvs p.enc = p.tlvs := by
  rw [LLDPParser.tlvs, enc, List.append_assoc, List.drop_left' p.length_ethernet]
  exact Tlv.scan_enc_append_tail p.wellFormed p.ends

theorem parse_enc (p : Lldpdu) (ttl : UInt16) :
    LLDPParser.parse p.enc ttl = .ok (LLDPParser.describe { ttl := ttl } p.tlvs) := by
  rw [LLDPParser.parse_eq, tlvs_enc, if_neg]
  rintro ⟨t, ht, hempty⟩
  exact p.idsNonempty t ht hempty

theorem parse_decodes (p : Lldpdu) (ttl : UInt16) :
    ∃ neighbor, LLDPParser.parse p.enc ttl = .ok neighbor
      ∧ neighbor.chassisId = ((Tlv.lastValue LLDPParser.isChassisId p.tlvs).map (List.drop 1)).getD []
      ∧ neighbor.portId = ((Tlv.lastValue LLDPParser.isPortId p.tlvs).map (List.drop 1)).getD []
      ∧ neighbor.systemName = (Tlv.lastValue LLDPParser.isSystemName p.tlvs).getD []
      ∧ neighbor.ttl
          =
        ((Tlv.lastValue LLDPParser.isTimeToLive p.tlvs).map LLDPParser.wordOf).getD ttl :=
  ⟨_, p.parse_enc ttl, rfl, rfl, rfl, rfl⟩

end Lldpdu

/-! Incomplete payloads. -/

/--
A payload that passes for LLDP, and whose walk ends before it has read a chassis id and a port id.
-/
def Incomplete (payload : Bytes) : Prop :=
  LLDPParser.isLLDP payload
    ∧ (∀ t ∈ LLDPParser.tlvs payload, ¬LLDPParser.EmptyId t)
    ∧ ((∀ t ∈ LLDPParser.tlvs payload, ¬LLDPParser.isChassisId t)
      ∨ ∀ t ∈ LLDPParser.tlvs payload, ¬LLDPParser.isPortId t)

def LinkRecorded (links : List Link) (srcFd : Int32) (srcPort : Bytes) (ids : Bytes × Bytes) : Prop :=
  ∃ link, links.find? (fun link => link.srcFd = srcFd ∧ link.srcPort = srcPort) = some link
    ∧ link.dstChassisId = ids.1 ∧ link.dstPort = ids.2

theorem updateLinks_eq_self_iff (links : List Link) (srcFd : Int32) (srcPort : Bytes)
    (ids : Bytes × Bytes) :
    TopologyManager.updateLinks links srcFd srcPort ids.1 ids.2 = links
      ↔
    LinkRecorded links srcFd srcPort ids := by
  unfold LinkRecorded
  induction links with
  | nil => simp [TopologyManager.updateLinks]
  | cons link rest ih =>
    rw [TopologyManager.updateLinks]
    by_cases hkey : link.srcFd = srcFd ∧ link.srcPort = srcPort
    . rw [if_pos hkey, List.find?_cons_of_pos (by simpa using hkey)]
      rcases link with ⟨fd, port, chassis, dst⟩
      simp [eq_comm]
    . rw [if_neg hkey, List.find?_cons_of_neg (by simpa using hkey), List.cons.injEq, ← ih]
      simp

theorem packetIn_links (insertFails : Nat → Bool) (fd : Int32) {payload : Bytes} (junk : Uninit)
    (w : Services) (hlldp : LLDPParser.isLLDP payload)
    (hids : ∀ t ∈ LLDPParser.tlvs payload, ¬LLDPParser.EmptyId t) :
    (PacketHandlers.packetIn fd payload (services insertFails) junk w).1.topo.links
      =
    TopologyManager.updateLinks w.topo.links fd mockPort (idsOf (payload.drop 14)).1
      (idsOf (payload.drop 14)).2 := by
  rw [packetIn_eq, if_pos hlldp, if_neg]
  . rfl
  . rintro ⟨t, ht, hempty⟩
    exact hids t ht hempty

theorem Incomplete.ids_empty {payload : Bytes} (h : Incomplete payload) :
    (idsOf (payload.drop 14)).1 = [] ∨ (idsOf (payload.drop 14)).2 = [] := by
  have hnone : ∀ p : Tlv.Entry → Bool, (∀ t ∈ LLDPParser.tlvs payload, ¬p t) →
      Tlv.lastValue p (Tlv.scan (payload.drop 14)) = none := by
    intro p hp
    have hfilter : (Tlv.scan (payload.drop 14)).filter p = [] := List.filter_eq_nil_iff.mpr hp
    rw [Tlv.lastValue, hfilter]
    rfl
  rcases h.2.2 with hchassis | hport
  . left
    rw [idsOf, hnone _ hchassis]
    rfl
  . right
    rw [idsOf, hnone _ hport]
    rfl

/--
An incomplete payload leaves the links alone exactly if the switch port is already recorded with what
the payload says, the empty string for an id that it lacks.
-/
theorem packetIn_keeps_links_iff (insertFails : Nat → Bool) (fd : Int32) (payload : Bytes)
    (junk : Uninit) (w : Services) (h : Incomplete payload) :
    (PacketHandlers.packetIn fd payload (services insertFails) junk w).1.topo.links = w.topo.links
      ↔
    LinkRecorded w.topo.links fd mockPort (idsOf (payload.drop 14)) := by
  rw [packetIn_links insertFails fd junk w h.1 h.2.1]
  apply updateLinks_eq_self_iff

theorem packetIn_damages_links (insertFails : Nat → Bool) (fd : Int32) {payload : Bytes}
    (junk : Uninit) {w : Services} (h : Incomplete payload)
    (hgood : ∀ link ∈ w.topo.links, link.dstChassisId ≠ [] ∧ link.dstPort ≠ []) :
    (PacketHandlers.packetIn fd payload (services insertFails) junk w).1.topo.links
      ≠
    w.topo.links := by
  rw [packetIn_links insertFails fd junk w h.1 h.2.1, ne_eq, updateLinks_eq_self_iff]
  rintro ⟨link, hfind, hchassis, hport⟩
  have hlink := hgood link (List.mem_of_find?_eq_some hfind)
  rcases h.ids_empty with hempty | hempty
  . exact hlink.1 (hchassis.trans hempty)
  . exact hlink.2 (hport.trans hempty)

def cutOff : Bytes :=
  [0, 0, 0, 0, 0, 0, 0, 0, 0, 0, 0, 0, 0x88, 0xCC, 0x02, 0x02, 0x04, 0x61, 0x04, 0x03, 0x05]

theorem tlvs_cutOff : LLDPParser.tlvs cutOff = [⟨1, [0x04, 0x61]⟩] := by
  simp [LLDPParser.tlvs, cutOff, Tlv.scan_cons_cons]

theorem incomplete_cutOff : Incomplete cutOff := by
  unfold Incomplete
  rw [tlvs_cutOff]
  decide

theorem idsOf_cutOff : idsOf (cutOff.drop 14) = ([0x61], []) := by
  have h := tlvs_cutOff
  rw [LLDPParser.tlvs] at h
  rw [idsOf, h]
  rfl

def wired : Services := { topo := ⟨[⟨5, mockPort, [0x73], [0x70]⟩]⟩ }

theorem packetIn_cutOff :
    Incomplete cutOff
      ∧ (PacketHandlers.packetIn 5 cutOff (services fun _ => false) ⟨0, 0, 0⟩ wired).1.topo.links
          = [⟨5, mockPort, [0x61], []⟩]
      ∧ (PacketHandlers.packetIn 5 cutOff (services fun _ => false) ⟨0, 0, 0⟩ wired).1.topo.links
          ≠ wired.topo.links := by
  rw [packetIn_links _ _ _ _ incomplete_cutOff.1 incomplete_cutOff.2.1, idsOf_cutOff]
  refine ⟨incomplete_cutOff, rfl, ?_⟩
  decide

theorem packetIn_cutOff_again :
    (PacketHandlers.packetIn 5 cutOff (services fun _ => false) ⟨0, 0, 0⟩
        { topo := ⟨[⟨5, mockPort, [0x61], []⟩]⟩ }).1.topo.links
      =
    [⟨5, mockPort, [0x61], []⟩] := by
  apply (packetIn_keeps_links_iff (fun _ => false) 5 cutOff ⟨0, 0, 0⟩ _ incomplete_cutOff).mpr
  rw [idsOf_cutOff]
  exact ⟨_, rfl, rfl, rfl⟩

end NetOrc
