import Mathlib.Data.List.Dedup
import NetOrc.Data.OrderedMap
import NetOrc.Data.TextFormat
import NetOrc.OpenFlow.Basic

/-!
This module contains the metrics registry: the counts of the HTTP requests, the counters of the events,
and their exposition.
-/

namespace NetOrc

open Oflib
open TextFormat

def byteOrder : KeyOrder UInt8 where
  lt a b := a < b
  irrefl a := by simp
  trans a b c hab hbc := by
    rw [decide_eq_true_eq, UInt8.lt_iff_toNat_lt] at hab hbc ⊢
    omega
  trichotomy a b hab hba := by
    rw [decide_eq_false_iff_not, UInt8.lt_iff_toNat_lt] at hab hba
    apply UInt8.toNat_inj.mp
    omega

structure HttpMetricKey where
  method : Bytes
  route : Bytes
  status : Int32 := 0
  deriving DecidableEq, Repr

namespace HttpMetricKey

def lt (key other : HttpMetricKey) : Bool :=
  if key.method ≠ other.method then byteOrder.list.lt key.method other.method
  else if key.route ≠ other.route then byteOrder.list.lt key.route other.route
  else key.status < other.status

theorem lt_iff (key other : HttpMetricKey) :
    key.lt other = true
      ↔
    byteOrder.list.lt key.method other.method = true
      ∨ (key.method = other.method
        ∧ (byteOrder.list.lt key.route other.route = true
          ∨ (key.route = other.route ∧ key.status < other.status))) := by
  unfold lt
  split
  . next hmethod => simp [hmethod]
  . next hmethod =>
    have hmethod : key.method = other.method := by simpa using hmethod
    split
    . next hroute => simp [hmethod, hroute, byteOrder.list.irrefl]
    . next hroute =>
      have hroute : key.route = other.route := by simpa using hroute
      simp [hmethod, hroute, byteOrder.list.irrefl]

def order : KeyOrder HttpMetricKey where
  lt := lt
  irrefl key := by
    rw [← Bool.not_eq_true, lt_iff]
    simp [byteOrder.list.irrefl]
  trans a b c hab hbc := by
    rw [lt_iff] at hab hbc ⊢
    rcases hab with hab | ⟨hmethod, hab⟩
    . rcases hbc with hbc | ⟨hmethod, _⟩
      . exact .inl (byteOrder.list.trans _ _ _ hab hbc)
      . exact .inl (hmethod ▸ hab)
    . rw [hmethod]
      rcases hbc with hbc | ⟨hmethod', hbc⟩
      . exact .inl hbc
      . refine .inr ⟨hmethod', ?_⟩
        rcases hab with hab | ⟨hroute, hab⟩
        . rcases hbc with hbc | ⟨hroute, _⟩
          . exact .inl (byteOrder.list.trans _ _ _ hab hbc)
          . exact .inl (hroute ▸ hab)
        . rw [hroute]
          rcases hbc with hbc | ⟨hroute', hbc⟩
          . exact .inl hbc
          . exact .inr ⟨hroute', Int32.lt_trans hab hbc⟩
  trichotomy a b hab hba := by
    rcases a with ⟨method, route, status⟩
    rcases b with ⟨method', route', status'⟩
    rw [← Bool.not_eq_true, lt_iff] at hab hba
    simp only [not_or, not_and, Bool.not_eq_true] at hab hba
    have hmethod : method = method' := byteOrder.list.trichotomy _ _ hab.1 hba.1
    have hab := hab.2 hmethod
    have hba := hba.2 hmethod.symm
    have hroute : route = route' := byteOrder.list.trichotomy _ _ hab.1 hba.1
    have hab := hab.2 hroute
    have hba := hba.2 hroute.symm
    rw [hmethod, hroute, Int32.le_antisymm (Int32.not_lt.mp hba) (Int32.not_lt.mp hab)]

end HttpMetricKey

structure MetricsRegistry where
  httpRequestsTotal : OrderedMap HttpMetricKey.order UInt64 := ∅
  eventsQueued : UInt64 := 0
  eventsProcessed : UInt64 := 0
  eventsInvalid : UInt64 := 0
  eventQueueDepth : UInt64 := 0

def sanitizeRouteLabel (path : Bytes) : Bytes :=
  if path = [] then text "unknown"
  else if path = text "/" then text "root"
  else if path = text "/health" ∨ path = text "/metrics" ∨ path = text "/config"
      ∨ path = text "/events" then
    path
  else
    text "other"

namespace MetricsRegistry

def observeHttpRequest (reg : MetricsRegistry) (method route : Bytes) (statusCode : Int32) :
    MetricsRegistry :=
  { reg with
    httpRequestsTotal :=
      reg.httpRequestsTotal.upsert ⟨method, route, statusCode⟩ (fun count => count.getD 0 + 1) }

def incrementEventsQueued (reg : MetricsRegistry) : MetricsRegistry :=
  { reg with eventsQueued := reg.eventsQueued + 1 }

def incrementEventsProcessed (reg : MetricsRegistry) : MetricsRegistry :=
  { reg with eventsProcessed := reg.eventsProcessed + 1 }

def incrementEventsInvalid (reg : MetricsRegistry) : MetricsRegistry :=
  { reg with eventsInvalid := reg.eventsInvalid + 1 }

def setEventQueueDepth (reg : MetricsRegistry) (depth : UInt64) : MetricsRegistry :=
  { reg with eventQueueDepth := depth }

def renderHeader (name help type : String) : Bytes :=
  text "# HELP " ++ text name ++ text " " ++ text help ++ text "\n"
    ++ text "# TYPE " ++ text name ++ text " " ++ text type ++ text "\n"

def renderItem (item : HttpMetricKey × UInt64) : Bytes :=
  text "netorc_http_requests_total\x7bmethod=\"" ++ item.1.method
    ++ text "\",route=\"" ++ item.1.route
    ++ text "\",status=\"" ++ decimalInt item.1.status.toInt ++ text "\"\x7d "
    ++ decimal item.2.toNat ++ text "\n"

def renderValue (name : String) (value : UInt64) : Bytes :=
  text name ++ text " " ++ decimal value.toNat ++ text "\n"

def renderPrometheus (reg : MetricsRegistry) : Bytes :=
  renderHeader "netorc_http_requests_total" "Total HTTP requests handled by route/method/status"
      "counter"
    ++ reg.httpRequestsTotal.entries.flatMap renderItem
    ++ renderHeader "netorc_events_queued_total"
      "Total events queued from southbound and northbound paths" "counter"
    ++ renderValue "netorc_events_queued_total" reg.eventsQueued
    ++ renderHeader "netorc_events_processed_total" "Total events processed by main event loop"
      "counter"
    ++ renderValue "netorc_events_processed_total" reg.eventsProcessed
    ++ renderHeader "netorc_events_invalid_total" "Total events rejected due to invalid input"
      "counter"
    ++ renderValue "netorc_events_invalid_total" reg.eventsInvalid
    ++ renderHeader "netorc_event_queue_depth" "Current event queue depth" "gauge"
    ++ renderValue "netorc_event_queue_depth" reg.eventQueueDepth

end MetricsRegistry

end NetOrc
