import Mathlib.Data.Set.Card
import NetOrc.Core.Exposition

/-!
This module bounds the number of series of the request counts. The route of a request is one of seven
labels, while its method is whatever the client puts in front of the first space.
-/

namespace NetOrc

open Oflib
open TextFormat

def seriesCount (reqs : List RoutedRequest) : Nat := (observe reqs).httpRequestsTotal.entries.length

/--
No sequence of these requests, however long, fills the map with more than `K` entries.
-/
def BoundedCardinality (requests : Set RoutedRequest) : Prop :=
  ∃ K, ∀ reqs : List RoutedRequest, (∀ req ∈ reqs, req ∈ requests) → seriesCount reqs ≤ K

theorem seriesCount_eq_length_keys (reqs : List RoutedRequest) :
    seriesCount reqs = (observe reqs).httpRequestsTotal.keys.length := by
  rw [seriesCount, OrderedMap.keys, List.length_map]

theorem seriesCount_eq_card (reqs : List RoutedRequest) :
    seriesCount reqs = (keysOf reqs).toFinset.card := by
  rw [seriesCount_eq_length_keys, (keys_observe_perm reqs).length_eq, List.card_toFinset]

instance routedRequestNonempty : Nonempty RoutedRequest := ⟨⟨[], [], 0⟩⟩

theorem boundedCardinality_iff_finite_keys (requests : Set RoutedRequest) :
    BoundedCardinality requests ↔ (Set.image RoutedRequest.key requests).Finite := by
  constructor
  . rintro ⟨K, hK⟩
    by_contra hinfinite
    -- one request for each of more than `K` keys
    rcases Set.Infinite.exists_subset_card_eq hinfinite (K + 1) with ⟨keys, hkeys, hcard⟩
    have hreq : ∀ key ∈ keys, ∃ req ∈ requests, req.key = key := fun key hkey => hkeys hkey
    choose! request hmem hkey using hreq
    have hle := hK (keys.toList.map request) (by simpa using hmem)
    have hmap : keysOf (keys.toList.map request) = keys.toList := by
      rw [keysOf, List.map_map]
      apply Eq.trans _ (List.map_id _)
      apply List.map_congr_left
      intro key hmem
      exact hkey key (Finset.mem_toList.mp hmem)
    rw [seriesCount_eq_card, hmap, Finset.toList_toFinset, hcard] at hle
    omega
  . intro hfinite
    refine ⟨hfinite.toFinset.card, ?_⟩
    intro reqs hreqs
    rw [seriesCount_eq_card]
    apply Finset.card_le_card
    intro key hkey
    rcases List.mem_map.mp (List.mem_toFinset.mp hkey) with ⟨req, hreq, rfl⟩
    rw [Set.Finite.mem_toFinset]
    exact ⟨req, hreqs req hreq, rfl⟩

instance int32Finite : Finite Int32 := by
  apply Finite.of_injective (fun i : Int32 => i.toBitVec.toFin)
  intro i j h
  exact Int32.toBitVec_inj.mp (BitVec.toFin_inj.mp h)

theorem finite_keys_iff (requests : Set RoutedRequest) :
    (Set.image RoutedRequest.key requests).Finite
      ↔
    (Set.image RoutedRequest.method requests).Finite := by
  constructor
  . intro h
    apply (h.image HttpMetricKey.method).subset
    rintro _ ⟨req, hreq, rfl⟩
    exact ⟨req.key, ⟨req, hreq, rfl⟩, rfl⟩
  . intro h
    have hroutes : {route | route ∈ routeLabels}.Finite := List.finite_toSet routeLabels
    have hstatuses : (Set.univ : Set Int32).Finite := Set.finite_univ
    apply ((h.prod (hroutes.prod hstatuses)).image
      (fun p => (⟨p.1, p.2.1, p.2.2⟩ : HttpMetricKey))).subset
    rintro _ ⟨req, hreq, rfl⟩
    exact ⟨(req.method, sanitizeRouteLabel req.path, req.status),
      ⟨⟨req, hreq, rfl⟩, sanitizeRouteLabel_mem _, Set.mem_univ _⟩, rfl⟩

theorem boundedCardinality_iff (requests : Set RoutedRequest) :
    BoundedCardinality requests ↔ (Set.image RoutedRequest.method requests).Finite :=
  (boundedCardinality_iff_finite_keys requests).trans (finite_keys_iff requests)

/-! Requests that the server refuses. -/

def httpMethods : List Bytes :=
  [text "GET", text "HEAD", text "POST", text "PUT", text "DELETE", text "CONNECT", text "OPTIONS",
    text "TRACE", text "PATCH", text "PRI"]

/--
Requests with an unknown method: the server answers 400 before it looks at the target.
-/
def refused : Set RoutedRequest :=
  {req | req.method ∉ httpMethods ∧ req.path = [] ∧ req.status = 400}

def refusedRequest (n : Nat) : RoutedRequest := ⟨List.replicate (n + 8) 0x58, [], 400⟩

theorem refusedRequest_mem (n : Nat) : refusedRequest n ∈ refused := by
  refine ⟨?_, rfl, rfl⟩
  have hlengths : ∀ method ∈ httpMethods, method.length < 8 := by decide
  intro hmem
  have hlt := hlengths _ hmem
  rw [refusedRequest, List.length_replicate] at hlt
  omega

theorem not_boundedCardinality_refused : ¬BoundedCardinality refused := by
  rw [boundedCardinality_iff_finite_keys, finite_keys_iff]
  apply Set.infinite_of_injective_forall_mem (f := fun n => (refusedRequest n).method)
  . intro n m h
    have hlen := congrArg List.length h
    simp only [refusedRequest, List.length_replicate] at hlen
    omega
  . intro n
    exact ⟨refusedRequest n, refusedRequest_mem n, rfl⟩

end NetOrc
