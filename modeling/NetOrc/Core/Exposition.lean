import Mathlib.Algebra.GroupWithZero.Nat
import Mathlib.Algebra.BigOperators.Group.List.Lemmas
import Mathlib.Data.List.Induction
import NetOrc.Core.Observability

/-!
This module reads the exposition of the request counts back. The labels are written as they are, so a
method with a quote or a backslash breaks its line.
-/

namespace NetOrc

open Oflib
open TextFormat

/--
A call of the post-routing handler. The server takes the method from the request line up to the first
space.
-/
structure RoutedRequest where
  method : Bytes
  path : Bytes
  status : Int32

namespace RoutedRequest

/--
The method breaks no line of the text. This is an assumption about the clients: the server ends a request
line only at CR LF, so it hands on a method with a line feed in it.
-/
def OneLine (req : RoutedRequest) : Prop := lineFeed ∉ req.method

instance oneLineDecidable (req : RoutedRequest) : Decidable req.OneLine :=
  inferInstanceAs (Decidable (_ ∉ _))

def key (req : RoutedRequest) : HttpMetricKey := ⟨req.method, sanitizeRouteLabel req.path, req.status⟩

end RoutedRequest

def postRouting (reg : MetricsRegistry) (req : RoutedRequest) : MetricsRegistry :=
  reg.observeHttpRequest req.method (sanitizeRouteLabel req.path) req.status

def observe (reqs : List RoutedRequest) : MetricsRegistry := reqs.foldl postRouting {}

def keysOf (reqs : List RoutedRequest) : List HttpMetricKey := reqs.map RoutedRequest.key

theorem observe_append (reqs : List RoutedRequest) (req : RoutedRequest) :
    observe (reqs ++ [req]) = postRouting (observe reqs) req :=
  List.foldl_append

theorem mem_keys_observe (reqs : List RoutedRequest) (key : HttpMetricKey) :
    key ∈ (observe reqs).httpRequestsTotal.keys ↔ key ∈ keysOf reqs := by
  induction reqs using List.reverseRecOn with
  | nil => exact Iff.rfl
  | append_singleton reqs req ih =>
    rw [observe_append, keysOf, List.map_append, List.mem_append, List.map_singleton,
      List.mem_singleton]
    apply OrderedMap.mem_keys_upsert.trans
    rw [ih, or_comm]
    rfl

theorem mem_entries_observe (reqs : List RoutedRequest) (key : HttpMetricKey) (count : UInt64) :
    (key, count) ∈ (observe reqs).httpRequestsTotal.entries
      ↔
    key ∈ keysOf reqs ∧ count = .ofNat ((keysOf reqs).count key) := by
  induction reqs using List.reverseRecOn generalizing count with
  | nil => simp [observe, keysOf]
  | append_singleton reqs req ih =>
    have hkeys : keysOf (reqs ++ [req]) = keysOf reqs ++ [req.key] := by
      rw [keysOf, List.map_append]
      rfl
    rw [observe_append, hkeys, List.count_append, List.mem_append, List.mem_singleton]
    by_cases hkey : key = req.key
    . subst hkey
      rw [List.count_singleton_self]
      by_cases hmem : req.key ∈ keysOf reqs
      . have hold := (ih _).mpr ⟨hmem, rfl⟩
        apply (OrderedMap.mem_upsert_of_mem hold).trans
        simp [UInt64.ofNat_add]
      . have hold : req.key ∉ (observe reqs).httpRequestsTotal.keys := by
          rwa [mem_keys_observe]
        apply (OrderedMap.mem_upsert_of_not_mem hold).trans
        simp [List.count_eq_zero_of_not_mem hmem]
    . have hother : [req.key].count key = 0 := List.count_eq_zero_of_not_mem (by simpa using hkey)
      rw [hother]
      apply (OrderedMap.mem_upsert_of_ne hkey).trans
      rw [ih]
      simp [hkey]

theorem entries_observe (reqs : List RoutedRequest) :
    (observe reqs).httpRequestsTotal.entries
      =
    (observe reqs).httpRequestsTotal.keys.map (fun key => (key, .ofNat ((keysOf reqs).count key))) := by
  rw [OrderedMap.keys, List.map_map]
  symm
  apply Eq.trans _ (List.map_id _)
  apply List.map_congr_left
  intro item hitem
  rw [id_eq, Function.comp, ← ((mem_entries_observe reqs item.1 item.2).mp hitem).2]

theorem keys_observe_perm (reqs : List RoutedRequest) :
    (observe reqs).httpRequestsTotal.keys.Perm (keysOf reqs).dedup := by
  apply (List.perm_ext_iff_of_nodup (OrderedMap.nodup_keys _) (List.nodup_dedup _)).mpr
  intro key
  rw [mem_keys_observe, List.mem_dedup]

/-! One line of the exposition. -/

def metricName : Bytes := text "netorc_http_requests_total"
def methodLabel : Bytes := text "method"
def routeLabel : Bytes := text "route"
def statusLabel : Bytes := text "status"

def afterRoute (item : HttpMetricKey × UInt64) : Bytes :=
  comma :: (statusLabel ++ equalsSign :: quote :: (decimalInt item.1.status.toInt
    ++ quote :: closeBrace :: space :: decimal item.2.toNat))

def itemLine (item : HttpMetricKey × UInt64) : Bytes :=
  metricName ++ openBrace :: (methodLabel ++ equalsSign :: quote :: (item.1.method
    ++ quote :: ((comma :: (routeLabel ++ [equalsSign]))
      ++ quote :: (item.1.route ++ quote :: afterRoute item))))

theorem renderItem_eq (item : HttpMetricKey × UInt64) :
    MetricsRegistry.renderItem item = itemLine item ++ [lineFeed] := by
  have hmethod : text "netorc_http_requests_total\x7bmethod=\""
      = metricName ++ openBrace :: (methodLabel ++ [equalsSign, quote]) := rfl
  have hroute : text "\",route=\"" = quote :: comma :: (routeLabel ++ [equalsSign, quote]) := rfl
  have hstatus : text "\",status=\"" = quote :: comma :: (statusLabel ++ [equalsSign, quote]) := rfl
  have hclose : text "\"\x7d " = [quote, closeBrace, space] := rfl
  have hline : text "\n" = [lineFeed] := rfl
  simp only [MetricsRegistry.renderItem, itemLine, afterRoute, hmethod, hroute, hstatus, hclose,
    hline, List.append_assoc, List.cons_append, List.nil_append]

def HttpMetricKey.labels (key : HttpMetricKey) : List Label :=
  [(methodLabel, key.method), (routeLabel, key.route), (statusLabel, decimalInt key.status.toInt)]

def routeLabels : List Bytes :=
  [text "unknown", text "root", text "/health", text "/metrics", text "/config", text "/events",
    text "other"]

theorem sanitizeRouteLabel_mem (path : Bytes) : sanitizeRouteLabel path ∈ routeLabels := by
  unfold sanitizeRouteLabel routeLabels
  split
  . simp
  . split
    . simp
    . split
      . next hpath => rcases hpath with rfl | rfl | rfl | rfl <;> simp
      . simp

def Quotable (method : Bytes) : Prop := Plain method ∧ validUtf8 method

instance quotableDecidable (method : Bytes) : Decidable (Quotable method) :=
  inferInstanceAs (Decidable (_ ∧ _))

theorem quotable_of_mem_routeLabels {route : Bytes} (h : route ∈ routeLabels) : Quotable route := by
  have hall : ∀ route ∈ routeLabels, Quotable route := by decide
  exact hall route h

theorem quotable_decimalInt (i : Int) : Quotable (decimalInt i) := by
  have hne : ∀ b : UInt8, isDigit b = false → b ≠ minus → b ∉ decimalInt i := by
    intro b hdigit hminus hmem
    rcases mem_decimalInt hmem with h | h
    . rw [hdigit] at h
      contradiction
    . exact hminus h
  refine ⟨⟨hne quote (by decide) (by decide), hne backslash (by decide) (by decide)⟩, ?_⟩
  apply validUtf8_of_ascii
  intro b hb
  rcases mem_decimalInt hb with h | rfl
  . rw [isDigit, Bool.and_eq_true, decide_eq_true_eq, decide_eq_true_eq] at h
    rw [UInt8.le_iff_toNat_le] at h ⊢
    have hle : b.toNat ≤ 57 := h.2
    have h127 : (0x7F : UInt8).toNat = 127 := rfl
    omega
  . decide

theorem readSample_itemLine (item : HttpMetricKey × UInt64) :
    readSample (itemLine item)
      =
    (readLabels (.value methodLabel []) (item.1.method
        ++ quote :: ((comma :: (routeLabel ++ [equalsSign]))
          ++ quote :: (item.1.route ++ quote :: afterRoute item)))).bind
      (fun (labels, rest) => (readValue rest).map (fun value => ⟨metricName, labels, value⟩)) := by
  rw [itemLine, readSample_labels (by decide), readLabels_start (by decide)]

theorem readLabels_afterRoute (item : HttpMetricKey × UInt64) :
    readLabels .after (afterRoute item)
      =
    some ([(statusLabel, decimalInt item.1.status.toInt)], space :: decimal item.2.toNat) := by
  have hstatus := quotable_decimalInt item.1.status.toInt
  rw [afterRoute, readLabels_next (by decide), readLabels_plain _ hstatus.1 hstatus.2, readLabels,
    if_neg (by decide), if_neg (by decide), if_pos rfl]
  rfl

theorem readSample_of_quotable {item : HttpMetricKey × UInt64} (hmethod : Quotable item.1.method)
    (hroute : Quotable item.1.route) :
    readSample (itemLine item) = some ⟨metricName, item.1.labels, item.2.toNat⟩ := by
  have hnext : ∀ rest : Bytes, (comma :: (routeLabel ++ [equalsSign])) ++ quote :: rest
      = comma :: (routeLabel ++ equalsSign :: quote :: rest) := by
    intro rest
    simp
  rw [readSample_itemLine, readLabels_plain _ hmethod.1 hmethod.2, hnext, readLabels_next (by decide),
    readLabels_plain _ hroute.1 hroute.2, readLabels_afterRoute]
  dsimp only [Option.map_some, Option.bind_some]
  rw [readValue_space, readValue_decimal]
  rfl

def firstLength (s : Sample) : Nat :=
  match s.labels with
  | [] => 0
  | label :: _ => label.2.length

theorem readLabels_after_route {route : Bytes} (h : route ∈ routeLabels) (rest : Bytes) :
    readLabels .after (route ++ rest) = none := by
  have hhead : ∀ route ∈ routeLabels, route.head?.any (fun b =>
      !isBlank b && b ≠ comma && b ≠ closeBrace) := by decide
  have hroute := hhead route h
  match route with
  | [] => contradiction
  | b :: route =>
    simp only [List.head?_cons, Option.any_some, Bool.and_eq_true, Bool.not_eq_true',
      decide_eq_true_eq] at hroute
    rw [List.cons_append, readLabels, hroute.1.1, if_neg (by decide), if_neg hroute.1.2,
      if_neg hroute.2]

theorem readSample_of_not_plain {item : HttpMetricKey × UInt64} (hmethod : ¬Plain item.1.method)
    (hroute : item.1.route ∈ routeLabels) {s : Sample} (h : readSample (itemLine item) = some s) :
    firstLength s < item.1.method.length := by
  have hbetween : Plain (comma :: (routeLabel ++ [equalsSign])) := by decide
  rw [readSample_itemLine, readLabels_value] at h
  rcases unquote_not_plain hmethod hbetween (item.1.route ++ quote :: afterRoute item)
    with hnone | ⟨v, r, hsome, hlt⟩ | ⟨v, hsome⟩
  . rw [hnone] at h
    contradiction
  . rw [hsome] at h
    dsimp only [List.nil_append] at h
    split at h
    . rcases Option.bind_eq_some_iff.mp h with ⟨labels, hlabels, hvalue⟩
      rcases Option.map_eq_some_iff.mp hlabels with ⟨after, _, rfl⟩
      rcases Option.map_eq_some_iff.mp hvalue with ⟨value, _, rfl⟩
      exact hlt
    . contradiction
  . rw [hsome] at h
    dsimp only [List.nil_append] at h
    rw [readLabels_after_route hroute] at h
    split at h <;> contradiction

theorem readSample_of_not_utf8 {item : HttpMetricKey × UInt64} (hmethod : Plain item.1.method)
    (hutf8 : ¬validUtf8 item.1.method) : readSample (itemLine item) = none := by
  rw [readSample_itemLine, readLabels_value, unquote_plain hmethod]
  dsimp only [List.nil_append]
  rw [if_neg hutf8]
  rfl

/-! The whole exposition. -/

def headerLines (name help type : String) : List Bytes :=
  [text "# HELP " ++ text name ++ text " " ++ text help,
    text "# TYPE " ++ text name ++ text " " ++ text type]

def valueLine (name : String) (value : UInt64) : Bytes :=
  text name ++ space :: decimal value.toNat

def requestLines (reg : MetricsRegistry) : List Bytes :=
  headerLines "netorc_http_requests_total" "Total HTTP requests handled by route/method/status"
      "counter"
    ++ reg.httpRequestsTotal.entries.map itemLine

def eventLines (reg : MetricsRegistry) : List Bytes :=
  headerLines "netorc_events_queued_total" "Total events queued from southbound and northbound paths"
      "counter"
    ++ [valueLine "netorc_events_queued_total" reg.eventsQueued]
    ++ headerLines "netorc_events_processed_total" "Total events processed by main event loop"
      "counter"
    ++ [valueLine "netorc_events_processed_total" reg.eventsProcessed]
    ++ headerLines "netorc_events_invalid_total" "Total events rejected due to invalid input"
      "counter"
    ++ [valueLine "netorc_events_invalid_total" reg.eventsInvalid]
    ++ headerLines "netorc_event_queue_depth" "Current event queue depth" "gauge"
    ++ [valueLine "netorc_event_queue_depth" reg.eventQueueDepth]

def eventSamples (reg : MetricsRegistry) : List Sample :=
  [⟨text "netorc_events_queued_total", [], reg.eventsQueued.toNat⟩,
    ⟨text "netorc_events_processed_total", [], reg.eventsProcessed.toNat⟩,
    ⟨text "netorc_events_invalid_total", [], reg.eventsInvalid.toNat⟩,
    ⟨text "netorc_event_queue_depth", [], reg.eventQueueDepth.toNat⟩]

theorem unlines_append (ls ls' : List Bytes) : unlines (ls ++ ls') = unlines ls ++ unlines ls' :=
  List.flatMap_append

theorem unlines_headerLines (name help type : String) :
    unlines (headerLines name help type) = MetricsRegistry.renderHeader name help type := by
  have hline : text "\n" = [lineFeed] := rfl
  simp only [headerLines, unlines, MetricsRegistry.renderHeader, hline, List.flatMap_cons,
    List.flatMap_nil, List.append_nil, List.append_assoc]

theorem unlines_valueLine (name : String) (value : UInt64) :
    unlines [valueLine name value] = MetricsRegistry.renderValue name value := by
  have hline : text "\n" = [lineFeed] := rfl
  have hblank : text " " = [space] := rfl
  simp only [valueLine, unlines, MetricsRegistry.renderValue, hline, hblank, List.flatMap_cons,
    List.flatMap_nil, List.append_nil, List.append_assoc, List.singleton_append]

theorem renderPrometheus_eq (reg : MetricsRegistry) :
    reg.renderPrometheus = unlines (requestLines reg ++ eventLines reg) := by
  have hitems : unlines (reg.httpRequestsTotal.entries.map itemLine)
      = reg.httpRequestsTotal.entries.flatMap MetricsRegistry.renderItem := by
    rw [unlines, List.flatMap_map]
    congr 1
    funext item
    rw [renderItem_eq]
  simp only [requestLines, eventLines, unlines_append, unlines_headerLines, unlines_valueLine, hitems,
    MetricsRegistry.renderPrometheus, List.append_assoc]

theorem lineFeed_not_mem_decimal (n : Nat) : lineFeed ∉ decimal n := by
  intro hmem
  have hdigit := isDigit_of_mem_decimal hmem
  revert hdigit
  decide

theorem lineFeed_not_mem_valueLine {name : String} (hname : lineFeed ∉ text name) (value : UInt64) :
    lineFeed ∉ valueLine name value := by
  rw [valueLine, List.mem_append, List.mem_cons, not_or, not_or]
  exact ⟨hname, by decide, lineFeed_not_mem_decimal _⟩

theorem lineFeed_not_mem_itemLine {item : HttpMetricKey × UInt64} (hmethod : lineFeed ∉ item.1.method)
    (hroute : item.1.route ∈ routeLabels) : lineFeed ∉ itemLine item := by
  have hroutes : ∀ route ∈ routeLabels, lineFeed ∉ route := by decide
  have hstatus : lineFeed ∉ decimalInt item.1.status.toInt := by
    intro hmem
    rcases mem_decimalInt hmem with h | h <;> revert h <;> decide
  have hname : lineFeed ∉ metricName := by decide
  have hlabels : lineFeed ∉ methodLabel ∧ lineFeed ∉ routeLabel ∧ lineFeed ∉ statusLabel := by decide
  have hbytes : lineFeed ≠ openBrace ∧ lineFeed ≠ equalsSign ∧ lineFeed ≠ quote ∧ lineFeed ≠ comma
      ∧ lineFeed ≠ closeBrace ∧ lineFeed ≠ space := by decide
  simp only [itemLine, afterRoute, List.mem_append, List.mem_cons, List.not_mem_nil, hbytes, hname,
    hlabels, hmethod, hroutes _ hroute, hstatus, lineFeed_not_mem_decimal, or_self,
    not_false_iff]

theorem lineFeed_not_mem_eventLines (reg : MetricsRegistry) :
    ∀ line ∈ eventLines reg, lineFeed ∉ line := by
  have hqueued : ∀ line ∈ headerLines "netorc_events_queued_total"
      "Total events queued from southbound and northbound paths" "counter", lineFeed ∉ line := by decide
  have hprocessed : ∀ line ∈ headerLines "netorc_events_processed_total"
      "Total events processed by main event loop" "counter", lineFeed ∉ line := by decide
  have hinvalid : ∀ line ∈ headerLines "netorc_events_invalid_total"
      "Total events rejected due to invalid input" "counter", lineFeed ∉ line := by decide
  have hdepth : ∀ line ∈ headerLines "netorc_event_queue_depth" "Current event queue depth" "gauge",
      lineFeed ∉ line := by decide
  intro line hline
  simp only [eventLines, List.mem_append, List.mem_singleton] at hline
  rcases hline with ((((((hline | rfl) | hline) | rfl) | hline) | rfl) | hline) | rfl
  . exact hqueued line hline
  . exact lineFeed_not_mem_valueLine (by decide) _
  . exact hprocessed line hline
  . exact lineFeed_not_mem_valueLine (by decide) _
  . exact hinvalid line hline
  . exact lineFeed_not_mem_valueLine (by decide) _
  . exact hdepth line hline
  . exact lineFeed_not_mem_valueLine (by decide) _

theorem filter_headerLines (name help type : String) :
    (headerLines name help type).filter isSampleLine = [] := rfl

theorem filter_eventLines (reg : MetricsRegistry) :
    (eventLines reg).filter isSampleLine
      =
    [valueLine "netorc_events_queued_total" reg.eventsQueued,
      valueLine "netorc_events_processed_total" reg.eventsProcessed,
      valueLine "netorc_events_invalid_total" reg.eventsInvalid,
      valueLine "netorc_event_queue_depth" reg.eventQueueDepth] := by
  simp only [eventLines, List.filter_append, filter_headerLines]
  rfl

theorem filter_requestLines (reg : MetricsRegistry) :
    (requestLines reg).filter isSampleLine = reg.httpRequestsTotal.entries.map itemLine := by
  rw [requestLines, List.filter_append, filter_headerLines, List.nil_append, List.filter_eq_self]
  intro line hline
  rcases List.mem_map.mp hline with ⟨item, _, rfl⟩
  rfl

/-! The samples of the request counts. -/

/--
The series of the request counts, if the exposition can be read at all.
-/
def httpSeries (exposition : Bytes) : Option (List Sample) :=
  (parse exposition).map (fun samples => samples.filter (fun s => s.name = metricName))

theorem mapM_eq_some_iff {α β : Type} {f : α → Option β} {as : List α} {bs : List β} :
    as.mapM f = some bs ↔ as.map f = bs.map some := by
  induction as generalizing bs with
  | nil => cases bs <;> simp
  | cons a as ih =>
    rw [List.mapM_cons, List.map_cons]
    cases hfa : f a with
    | none => cases bs <;> simp
    | some b =>
      cases bs with
      | nil => cases as.mapM f <;> simp
      | cons b' bs =>
        simp only [List.map_cons, List.cons.injEq, Option.some.injEq, ← ih]
        cases as.mapM f <;> simp

theorem readSample_eventLines (reg : MetricsRegistry) :
    ((eventLines reg).filter isSampleLine).mapM readSample = some (eventSamples reg) := by
  rw [filter_eventLines, mapM_eq_some_iff]
  simp only [List.map_cons, List.map_nil, valueLine, eventSamples]
  rw [readSample_decimal (by decide), readSample_decimal (by decide), readSample_decimal (by decide),
    readSample_decimal (by decide)]

theorem name_of_readSample_itemLine {item : HttpMetricKey × UInt64} {s : Sample}
    (h : readSample (itemLine item) = some s) : s.name = metricName := by
  rw [readSample_itemLine] at h
  rcases Option.bind_eq_some_iff.mp h with ⟨labels, _, hvalue⟩
  rcases Option.map_eq_some_iff.mp hvalue with ⟨value, _, rfl⟩
  rfl

theorem lineFeed_not_mem_lines {reg : MetricsRegistry}
    (h : ∀ item ∈ reg.httpRequestsTotal.entries, lineFeed ∉ item.1.method ∧ item.1.route ∈ routeLabels) :
    ∀ line ∈ requestLines reg ++ eventLines reg, lineFeed ∉ line := by
  intro line hline
  rcases List.mem_append.mp hline with hline | hline
  . rcases List.mem_append.mp hline with hline | hline
    . have hheader : ∀ line ∈ headerLines "netorc_http_requests_total"
          "Total HTTP requests handled by route/method/status" "counter", lineFeed ∉ line := by decide
      exact hheader line hline
    . rcases List.mem_map.mp hline with ⟨item, hitem, rfl⟩
      exact lineFeed_not_mem_itemLine (h item hitem).1 (h item hitem).2
  . exact lineFeed_not_mem_eventLines reg line hline

theorem filterMap_of_mapM {α β : Type} {f : α → Option β} {as : List α} {bs : List β}
    (h : as.mapM f = some bs) : as.filterMap f = bs := by
  have hmap := congrArg (List.filterMap id) (mapM_eq_some_iff.mp h)
  rw [List.filterMap_map, List.filterMap_map] at hmap
  exact hmap.trans List.filterMap_some

theorem samples_of_printable {reg : MetricsRegistry}
    (h : ∀ item ∈ reg.httpRequestsTotal.entries, lineFeed ∉ item.1.method ∧ item.1.route ∈ routeLabels) :
    ∃ series, samples reg.renderPrometheus = series ++ eventSamples reg
      ∧ ∀ s ∈ series, s.name = metricName := by
  refine ⟨(reg.httpRequestsTotal.entries.map itemLine).filterMap readSample, ?_, ?_⟩
  . rw [renderPrometheus_eq, samples_unlines (lineFeed_not_mem_lines h), List.filter_append,
      List.filterMap_append, filter_requestLines, filterMap_of_mapM (readSample_eventLines _)]
  . intro s hs
    rcases List.mem_filterMap.mp hs with ⟨line, hline, hread⟩
    rcases List.mem_map.mp hline with ⟨item, _, rfl⟩
    exact name_of_readSample_itemLine hread

theorem valueOf_of_printable {reg : MetricsRegistry}
    (h : ∀ item ∈ reg.httpRequestsTotal.entries, lineFeed ∉ item.1.method ∧ item.1.route ∈ routeLabels)
    {name : Bytes} (hname : name ≠ metricName) :
    valueOf name reg.renderPrometheus
      =
    ((eventSamples reg).find? (fun s => s.name = name)).map Sample.value := by
  rcases samples_of_printable h with ⟨series, hsamples, hseries⟩
  have hnone : series.find? (fun s => s.name = name) = none := by
    apply List.find?_eq_none.mpr
    intro s hs
    rw [hseries s hs]
    simpa using Ne.symm hname
  rw [valueOf, hsamples, List.find?_append, hnone, Option.none_or]

theorem httpSeries_renderPrometheus {reg : MetricsRegistry}
    (h : ∀ item ∈ reg.httpRequestsTotal.entries, lineFeed ∉ item.1.method ∧ item.1.route ∈ routeLabels) :
    httpSeries reg.renderPrometheus
      =
    reg.httpRequestsTotal.entries.mapM (fun item => readSample (itemLine item)) := by
  have hnone : (eventSamples reg).filter (fun s => s.name = metricName) = [] := rfl
  rw [httpSeries, renderPrometheus_eq, parse_unlines (lineFeed_not_mem_lines h), List.filter_append,
    List.mapM_append, filter_requestLines, readSample_eventLines, List.mapM_map, Function.comp_def]
  cases hseries : reg.httpRequestsTotal.entries.mapM (fun item => readSample (itemLine item)) with
  | none => rfl
  | some series =>
    have hall : series.filter (fun s => s.name = metricName) = series := by
      apply List.filter_eq_self.mpr
      intro s hs
      have hmem : some s ∈ series.map some := List.mem_map_of_mem hs
      rw [← mapM_eq_some_iff.mp hseries] at hmem
      rcases List.mem_map.mp hmem with ⟨item, _, hread⟩
      simpa using name_of_readSample_itemLine hread
    simp [List.filter_append, hall, hnone]

/-! The promise of the exposition. -/

def expectedSample (reqs : List RoutedRequest) (key : HttpMetricKey) : Sample :=
  ⟨metricName, key.labels, (keysOf reqs).count key⟩

/--
The exposition can be read, and it has one series for each method, route and status that occurs, with
the number of requests that have them.
-/
def Faithful (reqs : List RoutedRequest) : Prop :=
  ∃ series, httpSeries (observe reqs).renderPrometheus = some series
    ∧ series.Perm ((keysOf reqs).dedup.map (expectedSample reqs))
    ∧ (series.map Sample.labels).Nodup
    ∧ (series.map Sample.value).sum = reqs.length

theorem decimal_inj {n m : Nat} (h : decimal n = decimal m) : n = m := by
  have hnumeral := congrArg numeral h
  rw [numeral_decimal, numeral_decimal] at hnumeral
  exact Option.some.inj hnumeral

theorem decimalInt_inj {i j : Int} (h : decimalInt i = decimalInt j) : i = j := by
  have hminus : ∀ (n : Nat) (bytes : Bytes), decimal n ≠ minus :: bytes := by
    intro n bytes heq
    have hdigit : isDigit minus := isDigit_of_mem_decimal (n := n) (by simp [heq])
    revert hdigit
    decide
  match i, j with
  | .ofNat n, .ofNat m => rw [decimal_inj h]
  | .ofNat n, .negSucc m => exact absurd h (hminus _ _)
  | .negSucc n, .ofNat m => exact absurd h.symm (hminus _ _)
  | .negSucc n, .negSucc m =>
    rw [decimalInt, decimalInt, List.cons.injEq] at h
    have hnm := decimal_inj h.2
    rw [Nat.add_right_cancel hnm]

theorem HttpMetricKey.labels_inj {key key' : HttpMetricKey} (h : key.labels = key'.labels) :
    key = key' := by
  rcases key with ⟨method, route, status⟩
  rcases key' with ⟨method', route', status'⟩
  simp only [HttpMetricKey.labels, List.cons.injEq, Prod.mk.injEq, true_and, and_true] at h
  rw [h.1, h.2.1, Int32.toInt_inj.mp (decimalInt_inj h.2.2)]

theorem entries_of_observe {reqs : List RoutedRequest} {item : HttpMetricKey × UInt64}
    (h : item ∈ (observe reqs).httpRequestsTotal.entries) :
    ∃ req ∈ reqs, item.1 = req.key ∧ item.2 = .ofNat ((keysOf reqs).count req.key) := by
  have hitem := (mem_entries_observe reqs item.1 item.2).mp h
  rcases List.mem_map.mp hitem.1 with ⟨req, hreq, hkey⟩
  rw [← hkey] at hitem
  exact ⟨req, hreq, hkey.symm, hitem.2⟩

theorem printable_observe {reqs : List RoutedRequest} (hlines : ∀ req ∈ reqs, req.OneLine) :
    ∀ item ∈ (observe reqs).httpRequestsTotal.entries,
      lineFeed ∉ item.1.method ∧ item.1.route ∈ routeLabels := by
  intro item hitem
  rcases entries_of_observe hitem with ⟨req, hreq, hkey, _⟩
  rw [hkey]
  exact ⟨hlines req hreq, sanitizeRouteLabel_mem _⟩

theorem httpSeries_observe {reqs : List RoutedRequest} (hlines : ∀ req ∈ reqs, req.OneLine) :
    httpSeries (observe reqs).renderPrometheus
      =
    (observe reqs).httpRequestsTotal.entries.mapM (fun item => readSample (itemLine item)) :=
  httpSeries_renderPrometheus (printable_observe hlines)

theorem httpSeries_of_quotable {reqs : List RoutedRequest} (hlines : ∀ req ∈ reqs, req.OneLine)
    (h : ∀ req ∈ reqs, Quotable req.method) :
    httpSeries (observe reqs).renderPrometheus
      =
    some ((observe reqs).httpRequestsTotal.entries.map (fun item =>
      ⟨metricName, item.1.labels, item.2.toNat⟩)) := by
  rw [httpSeries_observe hlines, mapM_eq_some_iff, List.map_map]
  apply List.map_congr_left
  intro item hitem
  rcases entries_of_observe hitem with ⟨req, hreq, hkey, _⟩
  apply readSample_of_quotable
  . rw [hkey]
    exact h req hreq
  . rw [hkey]
    exact quotable_of_mem_routeLabels (sanitizeRouteLabel_mem _)

theorem eq_of_sum_eq {α : Type} {as : List α} {f g : α → Nat} (hle : ∀ a ∈ as, f a ≤ g a)
    (hsum : (as.map f).sum = (as.map g).sum) : ∀ a ∈ as, f a = g a := by
  have hlesum : ∀ as : List α, (∀ a ∈ as, f a ≤ g a) → (as.map f).sum ≤ (as.map g).sum := by
    intro as hle
    induction as with
    | nil => exact Nat.le_refl _
    | cons a as ih =>
      have ha := hle a (by simp)
      have has := ih (fun b hb => hle b (by simp [hb]))
      simp only [List.map_cons, List.sum_cons]
      omega
  induction as with
  | nil => simp
  | cons a as ih =>
    have ha := hle a (by simp)
    have has := hlesum as (fun b hb => hle b (by simp [hb]))
    simp only [List.map_cons, List.sum_cons] at hsum
    intro b hb
    rcases List.mem_cons.mp hb with rfl | hb
    . omega
    . exact ih (fun b hb => hle b (by simp [hb])) (by omega) b hb

theorem exists_item_of_mem {reqs : List RoutedRequest} {req : RoutedRequest} (h : req ∈ reqs) :
    ∃ count, (req.key, count) ∈ (observe reqs).httpRequestsTotal.entries :=
  ⟨_, (mem_entries_observe reqs _ _).mpr ⟨List.mem_map_of_mem h, rfl⟩⟩

/--
The methods of the series are together as long as the methods of the requests, so no line lost a part
of its method.
-/
theorem Faithful.quotable {reqs : List RoutedRequest} (h : Faithful reqs)
    (hlines : ∀ req ∈ reqs, req.OneLine) : ∀ req ∈ reqs, Quotable req.method := by
  rcases h with ⟨series, hseries, hperm, _, _⟩
  rw [httpSeries_observe hlines, mapM_eq_some_iff] at hseries
  let entries := (observe reqs).httpRequestsTotal.entries
  let read (item : HttpMetricKey × UInt64) : Nat :=
    ((readSample (itemLine item)).map firstLength).getD 0
  have hroutes : ∀ item ∈ entries, item.1.route ∈ routeLabels := by
    intro item hitem
    rcases entries_of_observe hitem with ⟨req, _, hkey, _⟩
    rw [hkey]
    exact sanitizeRouteLabel_mem _
  have hquotable : ∀ item ∈ entries, Quotable item.1.method →
      readSample (itemLine item) = some ⟨metricName, item.1.labels, item.2.toNat⟩ :=
    fun item hitem hmethod =>
      readSample_of_quotable hmethod (quotable_of_mem_routeLabels (hroutes item hitem))
  have hsome : ∀ item ∈ entries, ∃ s, readSample (itemLine item) = some s := by
    intro item hitem
    have hmem := List.mem_map_of_mem (f := fun item => readSample (itemLine item)) hitem
    rw [hseries] at hmem
    rcases List.mem_map.mp hmem with ⟨s, _, hs⟩
    exact ⟨s, hs.symm⟩
  have hplain : ∀ item ∈ entries, Plain item.1.method → Quotable item.1.method := by
    intro item hitem hmethod
    refine ⟨hmethod, ?_⟩
    by_contra hutf8
    rcases hsome item hitem with ⟨s, hs⟩
    rw [readSample_of_not_utf8 hmethod hutf8] at hs
    contradiction
  have hle : ∀ item ∈ entries, read item ≤ item.1.method.length := by
    intro item hitem
    rcases hsome item hitem with ⟨s, hs⟩
    by_cases hmethod : Plain item.1.method
    . simp only [read, hquotable item hitem (hplain item hitem hmethod)]
      exact Nat.le_refl _
    . have hlt := readSample_of_not_plain hmethod (hroutes item hitem) hs
      simp only [read, hs, Option.map_some, Option.getD_some]
      omega
  have hsum : (entries.map read).sum = (entries.map (fun item => item.1.method.length)).sum := by
    have hread : entries.map read = series.map firstLength := by
      have hmap := congrArg (List.map (fun s => (Option.map firstLength s).getD 0)) hseries
      rw [List.map_map, List.map_map] at hmap
      exact hmap
    have hkeys : entries.map (fun item => item.1.method.length)
        = (observe reqs).httpRequestsTotal.keys.map (fun key => key.method.length) := by
      rw [OrderedMap.keys, List.map_map]
      rfl
    rw [hread, hkeys, (hperm.map firstLength).sum_eq, ((keys_observe_perm reqs).map _).sum_eq,
      List.map_map]
    rfl
  intro req hreq
  rcases exists_item_of_mem hreq with ⟨count, hitem⟩
  have heq := eq_of_sum_eq hle hsum _ hitem
  apply hplain _ hitem
  by_contra hmethod
  rcases hsome _ hitem with ⟨s, hs⟩
  have hlt : firstLength s < req.key.method.length :=
    readSample_of_not_plain hmethod (hroutes _ hitem) hs
  simp only [read, hs, Option.map_some, Option.getD_some] at heq
  omega

theorem sum_count_keys (reqs : List RoutedRequest) :
    ((observe reqs).httpRequestsTotal.keys.map (fun key => (keysOf reqs).count key)).sum
      =
    reqs.length := by
  rw [((keys_observe_perm reqs).map _).sum_eq, List.sum_map_count_dedup_eq_length, keysOf,
    List.length_map]

theorem map_entries_observe {α : Type} (reqs : List RoutedRequest) (f : HttpMetricKey → Nat → α) :
    (observe reqs).httpRequestsTotal.entries.map (fun item => f item.1 item.2.toNat)
      =
    (observe reqs).httpRequestsTotal.keys.map (fun key =>
      f key ((keysOf reqs).count key % UInt64.size)) := by
  rw [entries_observe, List.map_map]
  rfl

theorem Faithful.count_lt {reqs : List RoutedRequest} (h : Faithful reqs)
    (hlines : ∀ req ∈ reqs, req.OneLine) :
    ∀ key ∈ keysOf reqs, (keysOf reqs).count key < UInt64.size := by
  have hquotable := h.quotable hlines
  rcases h with ⟨series, hseries, _, _, hsum⟩
  rw [httpSeries_of_quotable hlines hquotable] at hseries
  cases hseries
  rw [List.map_map] at hsum
  have hvalues : ((observe reqs).httpRequestsTotal.keys.map (fun key =>
      (keysOf reqs).count key % UInt64.size)).sum
        = ((observe reqs).httpRequestsTotal.keys.map (fun key => (keysOf reqs).count key)).sum := by
    rw [← map_entries_observe reqs (fun _ count => count), sum_count_keys]
    exact hsum
  intro key hkey
  have heq := eq_of_sum_eq (fun key _ => Nat.mod_le _ _) hvalues key
    ((mem_keys_observe reqs key).mpr hkey)
  rw [← heq]
  exact Nat.mod_lt _ (by decide)

theorem faithful_iff {reqs : List RoutedRequest} (hlines : ∀ req ∈ reqs, req.OneLine) :
    Faithful reqs
      ↔
    (∀ req ∈ reqs, Quotable req.method)
      ∧ ∀ key ∈ keysOf reqs, (keysOf reqs).count key < UInt64.size := by
  constructor
  . intro h
    exact ⟨h.quotable hlines, h.count_lt hlines⟩
  . rintro ⟨hquotable, hcount⟩
    have hseries : (observe reqs).httpRequestsTotal.entries.map (fun item =>
        (⟨metricName, item.1.labels, item.2.toNat⟩ : Sample))
          = (observe reqs).httpRequestsTotal.keys.map (expectedSample reqs) := by
      rw [map_entries_observe reqs (fun key count => (⟨metricName, key.labels, count⟩ : Sample))]
      apply List.map_congr_left
      intro key hkey
      rw [Nat.mod_eq_of_lt (hcount key ((mem_keys_observe reqs key).mp hkey))]
      rfl
    refine ⟨_, httpSeries_of_quotable hlines hquotable, ?_, ?_, ?_⟩
    . rw [hseries]
      exact (keys_observe_perm reqs).map _
    . rw [hseries, List.map_map]
      apply List.Nodup.map _ (OrderedMap.nodup_keys _)
      intro key key' heq
      exact HttpMetricKey.labels_inj heq
    . rw [hseries, List.map_map]
      exact sum_count_keys reqs

def tokens : List RoutedRequest :=
  [⟨text "GET", text "/health", 200⟩, ⟨text "GET", text "/", 200⟩, ⟨text "GET", text "/health", 200⟩,
    ⟨[0xC3, 0xA9, 0x07], [], 400⟩]

theorem faithful_iff_tokens : Faithful tokens :=
  (faithful_iff (by decide)).mpr ⟨by decide, by decide⟩

def quotedToken : RoutedRequest := ⟨text "G\"T", [], 400⟩

theorem not_faithful_quotedToken : ¬Faithful [quotedToken] := by
  intro h
  have hquotable := h.quotable (by decide) quotedToken (by simp)
  revert hquotable
  decide

end NetOrc
