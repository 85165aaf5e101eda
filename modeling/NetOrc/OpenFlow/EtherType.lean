import Mathlib.Data.List.GetD
import NetOrc.Data.BigEndian
import NetOrc.OpenFlow.Routing

/-!
This module shows for which lists of EtherType routes a PACKET_IN reaches the handler that its
encapsulated Ethernet frame selects. The filter reads the EtherType 10 bytes too early.
-/

namespace Oflib

open BigEndian

variable {σ : Type}

def filterEtherType (type : UInt16) : FilterFn := fun f =>
  if f.body.length < 14 then
    false
  else
    u16 (f.body.getD 12 0) (f.body.getD 13 0) = type

inductive EtherFilter where
  | all
  | etherType (type : UInt16)
  deriving DecidableEq, Repr

namespace EtherFilter

def toFilterFn (filter : EtherFilter) : FilterFn :=
  match filter with
  | .all => filterAll
  | .etherType type => filterEtherType type

def selects (e : UInt16) (filter : EtherFilter) : Bool :=
  match filter with
  | .all => true
  | .etherType type => type = e

@[simp]
theorem selects_all (e : UInt16) : EtherFilter.all.selects e := rfl

@[simp]
theorem selects_etherType (e type : UInt16) : (etherType type).selects e = decide (type = e) := rfl

end EtherFilter

structure EtherRoute (σ : Type) where
  filter : EtherFilter
  handler : HandlerFn σ

def HandlerFn.numbered (handler : HandlerFn σ) (i : Nat) : HandlerFn (σ × List Nat) where
  call conn frame w :=
    let r := handler.call conn frame w.1
    ⟨r.conn, (r.world, w.2 ++ [i]), r.fault⟩
  length_le conn frame w := handler.length_le conn frame w.1

namespace EtherRoute

def registration (route : EtherRoute σ) (i : Nat) : Registration (σ × List Nat) :=
  .on .packetIn (route.handler.numbered i) route.filter.toFilterFn

def endpoint (routes : List (EtherRoute σ)) : OpenFlowEndpoint (σ × List Nat) :=
  .build (routes.zipIdx.map (fun r => r.1.registration r.2))

def etherTypes (routes : List (EtherRoute σ)) : List UInt16 :=
  match routes with
  | [] => []
  | ⟨.all, _⟩ :: _ => []
  | ⟨.etherType type, _⟩ :: routes => type :: etherTypes routes

theorem findIdx?_selects_eq_iff (routes : List (EtherRoute σ)) (d e : UInt16) :
    routes.findIdx? (fun route => route.filter.selects d)
        = routes.findIdx? (fun route => route.filter.selects e)
      ↔
    d = e ∨ (d ∉ etherTypes routes ∧ e ∉ etherTypes routes) := by
  induction routes with
  | nil => simp [etherTypes]
  | cons route routes ih =>
    rcases route with ⟨filter, handler⟩
    rw [List.findIdx?_cons, List.findIdx?_cons]
    cases filter with
    | all => simp [etherTypes]
    | etherType type =>
      simp only [EtherFilter.selects_etherType, etherTypes, List.mem_cons, not_or, decide_eq_true_eq]
      have hinj : ∀ o o' : Option Nat, o.map (fun i => i + 1) = o'.map (fun i => i + 1) ↔ o = o' := by
        intro o o'
        exact Option.map_inj_right (fun _ _ => Nat.succ.inj)
      by_cases hd : type = d
      . subst hd
        by_cases he : type = e
        . simp [he]
        . cases hfind : routes.findIdx? (fun route => route.filter.selects e) <;> simp [he]
      . by_cases he : type = e
        . subst he
          cases hfind : routes.findIdx? (fun route => route.filter.selects d) <;>
            simp [hd, Ne.symm hd]
        . rw [if_neg hd, if_neg he, hinj, ih]
          simp [Ne.symm hd, Ne.symm he]

end EtherRoute

/--
The body of a PACKET_IN: `buffer_id`, `total_len`, `in_port`, `reason` and `pad`, then an Ethernet
frame that is long enough for a header.
-/
structure PacketInBody where
  fixed : Bytes
  ethernet : Bytes
  length_fixed : fixed.length = 10
  le_length_ethernet : 14 ≤ ethernet.length

namespace PacketInBody

def bytes (body : PacketInBody) : Bytes := body.fixed ++ body.ethernet

def etherType (body : PacketInBody) : UInt16 :=
  u16 (body.ethernet.getD 12 0) (body.ethernet.getD 13 0)

/--
What the filter compares: the third and the fourth byte of the destination address.
-/
def filtered (body : PacketInBody) : UInt16 :=
  u16 (body.ethernet.getD 2 0) (body.ethernet.getD 3 0)

def frame (body : PacketInBody) (header : Header) : Frame :=
  ⟨{ header with type := PacketType.packetIn.byte }, body.bytes⟩

theorem getD_bytes (body : PacketInBody) (i : Nat) :
    body.bytes.getD (10 + i) 0 = body.ethernet.getD i 0 := by
  rw [bytes, List.getD_append_right _ _ _ _ (by simp [body.length_fixed]), body.length_fixed,
    Nat.add_sub_cancel_left]

theorem toFilterFn_frame (body : PacketInBody) (header : Header) (filter : EtherFilter) :
    filter.toFilterFn (body.frame header) = filter.selects body.filtered := by
  cases filter with
  | all => rfl
  | etherType type =>
    have hlen : ¬(body.frame header).body.length < 14 := by
      have hethernet := body.le_length_ethernet
      simp only [frame, bytes, List.length_append]
      omega
    unfold EtherFilter.toFilterFn EtherFilter.selects filterEtherType
    dsimp only
    rw [if_neg hlen]
    apply decide_eq_decide.mpr
    rw [frame, body.getD_bytes 2, body.getD_bytes 3, filtered, eq_comm]

end PacketInBody

/-! Dispatch. -/

namespace EtherRoute

theorem firstHandler_registrations (routes : List (EtherRoute σ)) (n : Nat) (body : PacketInBody)
    (header : Header) :
    Registration.firstHandler ((routes.zipIdx n).map (fun r => r.1.registration r.2))
        (body.frame header)
      =
    ((routes.zipIdx n).find? (fun r => r.1.filter.selects body.filtered)).map
      (fun r => r.1.handler.numbered r.2) := by
  have hentries : ((routes.zipIdx n).map (fun r => r.1.registration r.2)).filterMap
      (Registration.handlerFor (body.frame header).type)
        = (routes.zipIdx n).map (fun r => ⟨r.1.filter.toFilterFn, r.1.handler.numbered r.2⟩) := by
    rw [List.filterMap_map, ← List.filterMap_eq_map]
    apply List.filterMap_congr
    intro r _
    simp only [Function.comp_apply, registration, Registration.handlerFor]
    exact if_pos rfl
  rw [Registration.firstHandler, hentries, List.find?_map, Option.map_map]
  simp only [Function.comp_def, body.toFilterFn_frame header]

theorem find?_zipIdx (p : EtherRoute σ → Bool) (routes : List (EtherRoute σ)) (n : Nat) :
    ((routes.zipIdx n).find? (fun r => p r.1)).map Prod.snd = (routes.findIdx? p).map (n + ·) := by
  induction routes generalizing n with
  | nil => rfl
  | cons route routes ih =>
    rw [List.zipIdx_cons, List.find?_cons, List.findIdx?_cons]
    cases hp : p route with
    | true => simp
    | false =>
      simp only [Bool.false_eq_true, if_false, ih, Option.map_map]
      congr 1
      funext i
      simp only [Function.comp_apply]
      omega

theorem dispatch_endpoint (routes : List (EtherRoute σ)) (body : PacketInBody) (header : Header)
    (conn : Connection) (w : σ) :
    (((endpoint routes).dispatch .packetIn).call conn (body.frame header) (w, [])).world.2
      =
    (routes.findIdx? (fun route => route.filter.selects body.filtered)).toList := by
  have hroute := OpenFlowEndpoint.build_route
    (routes.zipIdx.map (fun r => r.1.registration r.2)) (body.frame header)
  rw [firstHandler_registrations] at hroute
  have hfind := find?_zipIdx (fun route => route.filter.selects body.filtered) routes 0
  unfold OpenFlowEndpoint.dispatch
  dsimp only
  change (endpoint routes).route .packetIn (body.frame header) = _ at hroute
  rw [hroute]
  cases hr : routes.zipIdx.find? (fun r => r.1.filter.selects body.filtered) with
  | none => simp_all
  | some r =>
    simp only [hr, Option.map_some, Nat.zero_add, Option.map_id'] at hfind
    rw [← hfind]
    rfl

/--
Dispatch invokes the first handler that takes every frame or asks for the EtherType of the encapsulated
frame, and no other one, exactly if the two bytes that the filter compares are the EtherType, or no
route before the first one that takes every frame asks for either.
-/
theorem dispatch_etherType_iff (routes : List (EtherRoute σ)) (body : PacketInBody) (header : Header)
    (conn : Connection) (w : σ) :
    (((endpoint routes).dispatch .packetIn).call conn (body.frame header) (w, [])).world.2
        = (routes.findIdx? (fun route => route.filter.selects body.etherType)).toList
      ↔
    body.filtered = body.etherType
      ∨ (body.filtered ∉ etherTypes routes ∧ body.etherType ∉ etherTypes routes) := by
  rw [dispatch_endpoint, ← findIdx?_selects_eq_iff]
  cases routes.findIdx? (fun route => route.filter.selects body.filtered) <;>
    cases routes.findIdx? (fun route => route.filter.selects body.etherType) <;> simp

def lldpBody : PacketInBody where
  fixed := [0, 0, 0, 0, 0, 14, 0, 1, 0, 0]
  ethernet := [0x01, 0x80, 0xc2, 0, 0, 0x0e, 0x02, 0, 0, 0, 0, 1, 0x88, 0xcc]
  length_fixed := rfl
  le_length_ethernet := Nat.le_refl 14

/--
The frame goes to the route for 0xc200, past the one for LLDP.
-/
theorem dispatch_lldpBody :
    let routes : List (EtherRoute Unit) := [⟨.etherType 0x88cc, idle⟩, ⟨.etherType 0xc200, idle⟩]
    lldpBody.etherType = 0x88cc
      ∧ (routes.findIdx? (fun route => route.filter.selects lldpBody.etherType)).toList = [0]
      ∧ (((endpoint routes).dispatch .packetIn).call {} (lldpBody.frame {}) ((), [])).world.2 = [1] := by
  intro routes
  exact ⟨rfl, rfl, rfl⟩

end EtherRoute

end Oflib
