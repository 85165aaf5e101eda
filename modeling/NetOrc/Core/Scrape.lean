import NetOrc.Core.Exposition
import NetOrc.Transition.Parts

/-!
This module contains `MetricsRegistry::renderPrometheus` as it runs beside the threads that count. It
reads the request counts under the mutex and the event counters one after another without it, so its
text is the exposition of values from several moments. Still the counters of a later text are never
below those of an earlier one.
-/

namespace NetOrc

open Oflib
open TextFormat
open Transition

inductive MetricsOp where
  | postRouting (req : RoutedRequest)
  | incrementEventsQueued
  | incrementEventsProcessed
  | incrementEventsInvalid
  | setEventQueueDepth (depth : UInt64)

namespace MetricsRegistry

def perform (reg : MetricsRegistry) (op : MetricsOp) : MetricsRegistry :=
  match op with
  | .postRouting req => postRouting reg req
  | .incrementEventsQueued => reg.incrementEventsQueued
  | .incrementEventsProcessed => reg.incrementEventsProcessed
  | .incrementEventsInvalid => reg.incrementEventsInvalid
  | .setEventQueueDepth depth => reg.setEventQueueDepth depth

/--
What `renderPrometheus` appends to its text, from one access to the registry to the next.
-/
def renderParts : List (MetricsRegistry → Bytes) :=
  [fun reg =>
      renderHeader "netorc_http_requests_total" "Total HTTP requests handled by route/method/status"
          "counter"
        ++ reg.httpRequestsTotal.entries.flatMap renderItem,
    fun reg =>
      renderHeader "netorc_events_queued_total"
          "Total events queued from southbound and northbound paths" "counter"
        ++ renderValue "netorc_events_queued_total" reg.eventsQueued,
    fun reg =>
      renderHeader "netorc_events_processed_total" "Total events processed by main event loop" "counter"
        ++ renderValue "netorc_events_processed_total" reg.eventsProcessed,
    fun reg =>
      renderHeader "netorc_events_invalid_total" "Total events rejected due to invalid input" "counter"
        ++ renderValue "netorc_events_invalid_total" reg.eventsInvalid,
    fun reg =>
      renderHeader "netorc_event_queue_depth" "Current event queue depth" "gauge"
        ++ renderValue "netorc_event_queue_depth" reg.eventQueueDepth]

theorem flatten_renderParts (reg : MetricsRegistry) :
    (renderParts.map (fun part => part reg)).flatten = reg.renderPrometheus := by
  simp only [renderParts, List.map_cons, List.map_nil, List.flatten_cons, List.flatten_nil,
    List.append_nil, renderPrometheus, List.append_assoc]

end MetricsRegistry

open MetricsRegistry

abbrev Scrapes (ι : Type) := Shared ι MetricsRegistry MetricsOp Bytes

def scrapeStep {ι : Type} [DecidableEq ι] (s : Scrapes ι) (a : PartAction ι MetricsOp) :
    Option (Scrapes ι) :=
  s.step perform renderParts a

def scrapeText (r : Finished Bytes) : Bytes := r.seen.flatten

/-! The registry as the result of the operations. -/

def registryAt (log : List MetricsOp) (k : Nat) : MetricsRegistry := Shared.stateAt perform {} log k

def MetricsOp.request (op : MetricsOp) : Option RoutedRequest :=
  match op with
  | .postRouting req => some req
  | _ => none

def requestsOf (ops : List MetricsOp) : List RoutedRequest := ops.filterMap MetricsOp.request

inductive EventCounter where
  | queued
  | processed
  | invalid
  deriving DecidableEq, Repr

namespace EventCounter

def name (counter : EventCounter) : Bytes :=
  match counter with
  | .queued => text "netorc_events_queued_total"
  | .processed => text "netorc_events_processed_total"
  | .invalid => text "netorc_events_invalid_total"

def value (counter : EventCounter) (reg : MetricsRegistry) : UInt64 :=
  match counter with
  | .queued => reg.eventsQueued
  | .processed => reg.eventsProcessed
  | .invalid => reg.eventsInvalid

def counts (counter : EventCounter) (op : MetricsOp) : Bool :=
  match counter, op with
  | .queued, .incrementEventsQueued => true
  | .processed, .incrementEventsProcessed => true
  | .invalid, .incrementEventsInvalid => true
  | _, _ => false

end EventCounter

theorem httpRequestsTotal_foldl (ops : List MetricsOp) :
    (ops.foldl perform {}).httpRequestsTotal = (observe (requestsOf ops)).httpRequestsTotal := by
  induction ops using List.reverseRecOn with
  | nil => rfl
  | append_singleton ops op ih =>
    rw [List.foldl_concat, requestsOf, List.filterMap_append]
    cases op with
    | postRouting req =>
      have hlast : [MetricsOp.postRouting req].filterMap MetricsOp.request = [req] := rfl
      rw [hlast, observe_append]
      simp only [perform, postRouting, observeHttpRequest]
      rw [ih]
      rfl
    | _ =>
      refine ih.trans ?_
      rw [requestsOf]
      exact congrArg (fun reqs => (observe reqs).httpRequestsTotal) (List.append_nil _).symm

theorem value_perform (counter : EventCounter) (reg : MetricsRegistry) (op : MetricsOp) :
    counter.value (reg.perform op)
      =
    if counter.counts op then counter.value reg + 1 else counter.value reg := by
  cases counter <;> cases op <;> rfl

theorem value_foldl (counter : EventCounter) (ops : List MetricsOp) :
    counter.value (ops.foldl perform {}) = .ofNat (ops.countP counter.counts) := by
  induction ops using List.reverseRecOn with
  | nil => cases counter <;> rfl
  | append_singleton ops op ih =>
    rw [List.foldl_concat, value_perform, ih, List.countP_append, List.countP_singleton]
    split
    . exact (UInt64.ofNat_add _ _).symm
    . rfl

theorem toNat_value (counter : EventCounter) {log : List MetricsOp} (hlog : log.length < 2 ^ 64)
    (k : Nat) : (counter.value (registryAt log k)).toNat = (log.take k).countP counter.counts := by
  have hle : (log.take k).countP counter.counts ≤ log.length :=
    List.countP_le_length.trans (List.length_take_le' k log)
  rw [registryAt, Shared.stateAt, value_foldl, UInt64.toNat_ofNat_of_lt']
  exact Nat.lt_of_le_of_lt hle hlog

/-! One text. -/

/--
The registry that a text shows: the request counts after `k₀` operations, and the counters and the depth
after `k₁` to `k₄`.
-/
def shownAt (log : List MetricsOp) (k₀ k₁ k₂ k₃ k₄ : Nat) : MetricsRegistry where
  httpRequestsTotal := (registryAt log k₀).httpRequestsTotal
  eventsQueued := (registryAt log k₁).eventsQueued
  eventsProcessed := (registryAt log k₂).eventsProcessed
  eventsInvalid := (registryAt log k₃).eventsInvalid
  eventQueueDepth := (registryAt log k₄).eventQueueDepth

theorem flatten_seenAt (log : List MetricsOp) (k₀ k₁ k₂ k₃ k₄ : Nat) :
    (Shared.seenAt perform {} log renderParts [k₀, k₁, k₂, k₃, k₄]).flatten
      =
    (shownAt log k₀ k₁ k₂ k₃ k₄).renderPrometheus := by
  rw [← flatten_renderParts]
  rfl

theorem oneLine_take {log : List MetricsOp} (hlines : ∀ req ∈ requestsOf log, req.OneLine) (k : Nat) :
    ∀ req ∈ requestsOf (log.take k), req.OneLine := by
  intro req hreq
  exact hlines req (((List.take_sublist k log).filterMap MetricsOp.request).subset hreq)

theorem printable_shownAt {log : List MetricsOp} (hlines : ∀ req ∈ requestsOf log, req.OneLine)
    (k₀ k₁ k₂ k₃ k₄ : Nat) :
    ∀ item ∈ (shownAt log k₀ k₁ k₂ k₃ k₄).httpRequestsTotal.entries,
      lineFeed ∉ item.1.method ∧ item.1.route ∈ routeLabels := by
  have hrequests : (shownAt log k₀ k₁ k₂ k₃ k₄).httpRequestsTotal
      = (observe (requestsOf (log.take k₀))).httpRequestsTotal :=
    httpRequestsTotal_foldl (log.take k₀)
  rw [hrequests]
  exact printable_observe (oneLine_take hlines k₀)

theorem httpSeries_shownAt {log : List MetricsOp} (hlines : ∀ req ∈ requestsOf log, req.OneLine)
    (k₀ k₁ k₂ k₃ k₄ : Nat) :
    httpSeries (shownAt log k₀ k₁ k₂ k₃ k₄).renderPrometheus
      =
    httpSeries (observe (requestsOf (log.take k₀))).renderPrometheus := by
  have hrequests : (shownAt log k₀ k₁ k₂ k₃ k₄).httpRequestsTotal
      = (observe (requestsOf (log.take k₀))).httpRequestsTotal :=
    httpRequestsTotal_foldl (log.take k₀)
  rw [httpSeries_renderPrometheus (printable_shownAt hlines k₀ k₁ k₂ k₃ k₄),
    httpSeries_observe (oneLine_take hlines k₀), hrequests]

theorem valueOf_shownAt {log : List MetricsOp} (hlines : ∀ req ∈ requestsOf log, req.OneLine)
    (k₀ k₁ k₂ k₃ k₄ : Nat) :
    let exposition := (shownAt log k₀ k₁ k₂ k₃ k₄).renderPrometheus
    valueOf (EventCounter.queued.name) exposition = some (registryAt log k₁).eventsQueued.toNat
      ∧ valueOf (EventCounter.processed.name) exposition = some (registryAt log k₂).eventsProcessed.toNat
      ∧ valueOf (EventCounter.invalid.name) exposition = some (registryAt log k₃).eventsInvalid.toNat
      ∧ valueOf (text "netorc_event_queue_depth") exposition
        = some (registryAt log k₄).eventQueueDepth.toNat := by
  have hvalue : ∀ name, name ≠ metricName → valueOf name (shownAt log k₀ k₁ k₂ k₃ k₄).renderPrometheus
      = ((eventSamples (shownAt log k₀ k₁ k₂ k₃ k₄)).find? (fun s => s.name = name)).map Sample.value :=
    fun name hname => valueOf_of_printable (printable_shownAt hlines k₀ k₁ k₂ k₃ k₄) hname
  refine ⟨?_, ?_, ?_, ?_⟩
  . rw [hvalue _ (by decide)]
    rfl
  . rw [hvalue _ (by decide)]
    rfl
  . rw [hvalue _ (by decide)]
    rfl
  . rw [hvalue _ (by decide)]
    rfl

/--
Each part of the text of `r` is from a moment of its rendering.
-/
structure Shows (log : List MetricsOp) (r : Finished Bytes) : Prop where
  requests : ∃ k, r.began ≤ k ∧ k ≤ r.ended
    ∧ httpSeries (scrapeText r) = httpSeries (observe (requestsOf (log.take k))).renderPrometheus
  counter : ∀ counter : EventCounter, ∃ k, r.began ≤ k ∧ k ≤ r.ended
    ∧ valueOf counter.name (scrapeText r) = some ((log.take k).countP counter.counts)
  depth : ∃ k, r.began ≤ k ∧ k ≤ r.ended
    ∧ valueOf (text "netorc_event_queue_depth") (scrapeText r)
      = some (registryAt log k).eventQueueDepth.toNat

theorem shows_of_seen {log : List MetricsOp} (hlog : log.length < 2 ^ 64)
    (hlines : ∀ req ∈ requestsOf log, req.OneLine) {r : Finished Bytes} {ks : List Nat}
    (hlength : ks.length = renderParts.length) (hmoments : Shared.Moments r.began r.ended ks)
    (hseen : r.seen = Shared.seenAt perform {} log renderParts ks) : Shows log r := by
  obtain ⟨k₀, k₁, k₂, k₃, k₄, rfl⟩ : ∃ k₀ k₁ k₂ k₃ k₄, ks = [k₀, k₁, k₂, k₃, k₄] := by
    match ks, hlength with
    | [k₀, k₁, k₂, k₃, k₄], _ => exact ⟨k₀, k₁, k₂, k₃, k₄, rfl⟩
  have htext : scrapeText r = (shownAt log k₀ k₁ k₂ k₃ k₄).renderPrometheus := by
    rw [scrapeText, hseen, flatten_seenAt]
  rcases valueOf_shownAt hlines k₀ k₁ k₂ k₃ k₄ with ⟨hqueued, hprocessed, hinvalid, hdepth⟩
  have hbounds := hmoments.bounds
  refine ⟨⟨k₀, (hbounds k₀ (by simp)).1, (hbounds k₀ (by simp)).2, ?_⟩, fun counter => ?_,
    ⟨k₄, (hbounds k₄ (by simp)).1, (hbounds k₄ (by simp)).2, ?_⟩⟩
  . rw [htext, httpSeries_shownAt hlines]
  . rw [htext]
    cases counter with
    | queued =>
      refine ⟨k₁, (hbounds k₁ (by simp)).1, (hbounds k₁ (by simp)).2, ?_⟩
      rw [hqueued, ← toNat_value .queued hlog]
      rfl
    | processed =>
      refine ⟨k₂, (hbounds k₂ (by simp)).1, (hbounds k₂ (by simp)).2, ?_⟩
      rw [hprocessed, ← toNat_value .processed hlog]
      rfl
    | invalid =>
      refine ⟨k₃, (hbounds k₃ (by simp)).1, (hbounds k₃ (by simp)).2, ?_⟩
      rw [hinvalid, ← toNat_value .invalid hlog]
      rfl
  . rw [htext, hdepth]

/-! One text after another. -/

theorem take_prefix_take {log : List MetricsOp} {k k' : Nat} (h : k ≤ k') : log.take k <+: log.take k' := by
  rw [← Nat.min_eq_left h, ← List.take_take]
  exact List.take_prefix _ _

/--
As long as no method breaks a line, what a text shows is a count of what happened before some moment of
its rendering, and it never goes down from one text to a later one.
-/
theorem scrapes_of_reaches {ι : Type} [DecidableEq ι] {s : Scrapes ι}
    (h : Reaches scrapeStep (fun _ _ => True) { state := {} } s) (hlog : s.log.length < 2 ^ 64)
    (hlines : ∀ req ∈ requestsOf s.log, req.OneLine) :
    (∀ r ∈ s.finished, Shows s.log r)
      ∧ ∀ r ∈ s.finished, ∀ r' ∈ s.finished, r.ended ≤ r'.began →
        (∃ reqs reqs', reqs <+: reqs'
          ∧ httpSeries (scrapeText r) = httpSeries (observe reqs).renderPrometheus
          ∧ httpSeries (scrapeText r') = httpSeries (observe reqs').renderPrometheus)
        ∧ ∀ counter : EventCounter, ∃ v v', v ≤ v' ∧ valueOf counter.name (scrapeText r) = some v
          ∧ valueOf counter.name (scrapeText r') = some v' := by
  have hshows : ∀ r ∈ s.finished, Shows s.log r := by
    intro r hr
    rcases (Shared.followed_of_reaches h).finished r hr with ⟨_, ks, hlength, hmoments, hseen⟩
    exact shows_of_seen hlog hlines hlength hmoments hseen
  refine ⟨hshows, ?_⟩
  intro r hr r' hr' hle
  have hr := hshows r hr
  have hr' := hshows r' hr'
  constructor
  . rcases hr.requests with ⟨k, _, hk, hseries⟩
    rcases hr'.requests with ⟨k', hk', _, hseries'⟩
    refine ⟨_, _, ?_, hseries, hseries'⟩
    exact (take_prefix_take (by omega)).filterMap _
  . intro counter
    rcases hr.counter counter with ⟨k, _, hk, hvalue⟩
    rcases hr'.counter counter with ⟨k', hk', _, hvalue'⟩
    refine ⟨_, _, ?_, hvalue, hvalue'⟩
    exact (take_prefix_take (by omega)).sublist.countP_le

def tornScrape : List (PartAction Unit MetricsOp) :=
  [.start (), .read (), .read (), .perform .incrementEventsQueued, .perform .incrementEventsProcessed,
    .read (), .read (), .read (), .finish ()]
    ++ [.perform (.postRouting ⟨text "POST", text "/events", 202⟩), .start (), .read (), .read (),
      .read (), .read (), .read (), .finish ()]

theorem scrapes_of_reaches_tornScrape :
    ∃ s : Scrapes Unit, run scrapeStep (fun _ _ => true) { state := {} } tornScrape = some s
      ∧ s.finished.map (fun r => (valueOf EventCounter.queued.name (scrapeText r),
          valueOf EventCounter.processed.name (scrapeText r))) = [(some 0, some 1), (some 1, some 1)]
      ∧ ∀ r ∈ s.finished, Shows s.log r := by
  obtain ⟨s, hs, hlength, hlines, hfinished⟩ : ∃ s : Scrapes Unit,
      run scrapeStep (fun _ _ => true) { state := {} } tornScrape = some s ∧ s.log.length < 2 ^ 64
        ∧ (∀ req ∈ requestsOf s.log, req.OneLine)
        ∧ s.finished.map (fun r => (valueOf EventCounter.queued.name (scrapeText r),
            valueOf EventCounter.processed.name (scrapeText r))) = [(some 0, some 1), (some 1, some 1)] :=
    ⟨_, rfl, by decide, by decide, by decide +kernel⟩
  have hreaches : Reaches scrapeStep (fun _ _ => True) { state := {} } s :=
    (reaches_of_run hs).weaken (fun _ _ _ => trivial)
  exact ⟨s, hs, hfinished, (scrapes_of_reaches hreaches hlength hlines).1⟩

end NetOrc
