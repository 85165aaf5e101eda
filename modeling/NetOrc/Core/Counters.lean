import NetOrc.Core.Backlog

/-!
This module compares the event counters of the exposition with what they are said to count. No producer
and no consumer of events touches them, so they are right until there is something to count.
-/

namespace NetOrc

open Oflib
open TextFormat
open Transition

/-! The samples of the event counters. -/

theorem valueOf_renderPrometheus {reqs : List RoutedRequest} (hlines : ∀ req ∈ reqs, req.OneLine)
    {name : Bytes} (hname : name ≠ metricName) :
    valueOf name (observe reqs).renderPrometheus
      =
    ((eventSamples (observe reqs)).find? (fun s => s.name = name)).map Sample.value :=
  valueOf_of_printable (printable_observe hlines) hname

theorem eventSamples_observe (reqs : List RoutedRequest) :
    eventSamples (observe reqs) = eventSamples {} := by
  induction reqs using List.reverseRecOn with
  | nil => rfl
  | append_singleton reqs req ih =>
    rw [observe_append]
    exact ih

/-! The counters of the running program. -/

namespace App

def rendered (c : App) (name : String) : Option Nat := valueOf (text name) c.metrics.renderPrometheus

def accepted (c : App) : Nat := c.history.answered.countP HttpRequest.isAccepted

def invalid (c : App) : Nat := c.history.answered.countP HttpRequest.isInvalid

end App

/--
The exposition says of the events what the texts of its HELP lines say.
-/
structure CountersTrue (c : App) : Prop where
  queued : c.rendered "netorc_events_queued_total" = some (c.accepted + c.history.pushed.length)
  invalid : c.rendered "netorc_events_invalid_total" = some c.invalid
  depth : c.rendered "netorc_event_queue_depth" = some c.server.events.length

/--
The step neither answers a `POST /events` request with 202 or with 400 for its type, nor pushes a
frame to the event queue.
-/
def App.isQuiet (ep : OpenFlowEndpoint Services) (c : App) (action : AppAction) : Bool :=
  match action with
  | .southbound action => (App.pushedBy ep c.server action).isEmpty
  | .write h sent =>
    match c.http h with
    | .writing (.events req) => !sent || (req.packetType.isSome && req.refusesRanges)
    | _ => true
  | _ => true

structure Silent (c : App) : Prop where
  accepted : c.accepted = 0
  invalid : c.invalid = 0
  pushed : c.history.pushed = []

theorem silent_congr {c c' : App} (hanswered : c'.history.answered = c.history.answered)
    (hpushed : c'.history.pushed = c.history.pushed) : Silent c' ↔ Silent c := by
  have hcounts : ∀ {c c' : App}, c'.history.answered = c.history.answered →
      c'.history.pushed = c.history.pushed → Silent c → Silent c' := by
    intro c c' hanswered hpushed h
    refine ⟨?_, ?_, ?_⟩
    . rw [App.accepted, hanswered]
      exact h.accepted
    . rw [App.invalid, hanswered]
      exact h.invalid
    . rw [hpushed]
      exact h.pushed
  exact ⟨hcounts hanswered.symm hpushed.symm, hcounts hanswered hpushed⟩

theorem silent_quiet {ep : OpenFlowEndpoint Services} {c c' : App} {action : AppAction}
    (hquiet : c.isQuiet ep action) (hanswered : c'.history.answered = c.history.answered)
    (hpushed : c'.history.pushed = c.history.pushed) : Silent c' ↔ Silent c ∧ c.isQuiet ep action :=
  (silent_congr hanswered hpushed).trans (and_iff_left hquiet).symm

theorem isQuiet_write_iff (req : HttpRequest) :
    (req.isAccepted = false ∧ req.isInvalid = false)
      ↔
    ∀ events, req = .events events → events.packetType.isSome ∧ events.refusesRanges := by
  cases req with
  | other req => simp [HttpRequest.isAccepted, HttpRequest.isInvalid]
  | events req =>
    have haccepted := req.status_eq_accepted_iff
    have hinvalid := req.status_eq_invalid_iff
    simp only [HttpRequest.isAccepted, HttpRequest.isInvalid, decide_eq_false_iff_not, haccepted,
      hinvalid, HttpRequest.events.injEq, forall_eq', Option.isSome_iff_ne_none, ne_eq, not_and, not_not]
    tauto

theorem silent_write {ep : OpenFlowEndpoint Services} {c c' : App} {h : Nat} {sent : Bool}
    {req : HttpRequest} (hpc : c.http h = .writing req)
    (hanswered : c'.history.answered
      = if sent then c.history.answered ++ [req] else c.history.answered)
    (hpushed : c'.history.pushed = c.history.pushed) :
    Silent c' ↔ Silent c ∧ c.isQuiet ep (.write h sent) := by
  cases sent with
  | false =>
    have hquiet : c.isQuiet ep (.write h false) := by
      simp only [App.isQuiet, hpc]
      cases req <;> rfl
    exact silent_quiet hquiet hanswered hpushed
  | true =>
    have haccepted : c'.accepted = c.accepted + req.isAccepted.toNat := by
      rw [App.accepted, hanswered, if_pos rfl, List.countP_append, List.countP_singleton]
      cases req.isAccepted <;> rfl
    have hinvalid : c'.invalid = c.invalid + req.isInvalid.toNat := by
      rw [App.invalid, hanswered, if_pos rfl, List.countP_append, List.countP_singleton]
      cases req.isInvalid <;> rfl
    have hquiet : c.isQuiet ep (.write h true) ↔ req.isAccepted = false ∧ req.isInvalid = false := by
      rw [isQuiet_write_iff]
      simp only [App.isQuiet, hpc]
      cases req <;> simp
    rw [hquiet]
    constructor
    . intro hs
      have hzero := hs.accepted
      have hzero' := hs.invalid
      rw [haccepted] at hzero
      rw [hinvalid] at hzero'
      refine ⟨⟨by omega, by omega, hpushed ▸ hs.pushed⟩, ?_, ?_⟩
      . exact Bool.toNat_eq_zero.mp (by omega)
      . exact Bool.toNat_eq_zero.mp (by omega)
    . rintro ⟨hs, hnone, hnone'⟩
      refine ⟨?_, ?_, ?_⟩
      . rw [haccepted, hs.accepted, hnone]
        rfl
      . rw [hinvalid, hs.invalid, hnone']
        rfl
      . rw [hpushed]
        exact hs.pushed

theorem silent_southbound {ep : OpenFlowEndpoint Services} {c c' : App} {action : Action 4}
    (hanswered : c'.history.answered = c.history.answered)
    (hpushed : c'.history.pushed = c.history.pushed ++ App.pushedBy ep c.server action) :
    Silent c' ↔ Silent c ∧ c.isQuiet ep (.southbound action) := by
  rw [App.isQuiet, List.isEmpty_iff]
  constructor
  . intro hs
    have hnil := hs.pushed
    rw [hpushed, List.append_eq_nil_iff] at hnil
    refine ⟨⟨?_, ?_, hnil.1⟩, hnil.2⟩
    . rw [App.accepted, ← hanswered]
      exact hs.accepted
    . rw [App.invalid, ← hanswered]
      exact hs.invalid
  . rintro ⟨hs, hquiet⟩
    rw [hquiet, List.append_nil] at hpushed
    exact (silent_congr hanswered hpushed).mpr hs

theorem silent_step {ep : OpenFlowEndpoint Services} {c c' : App} {action : AppAction}
    (h : App.Step ep c action c') : Silent c' ↔ Silent c ∧ c.isQuiet ep action := by
  cases h with
  | southbound => exact silent_southbound rfl rfl
  | write hpc => exact silent_write hpc rfl rfl
  | _ => exact silent_quiet rfl rfl rfl

theorem metrics_of_reachable {insertFails : Nat → Bool} {junk : Connection → Frame → Services → Uninit}
    {c : App} (h : App.Reachable insertFails junk c) : c.metrics = observe c.history.observed := by
  refine h.invariant (fun c => c.metrics = observe c.history.observed)
    (fun c action c' hc _ hstep => ?_) rfl
  cases (App.Step.of_step hstep).2 with
  | postRouting =>
    dsimp only
    rw [observe_append, hc]
  | _ => exact hc

/-! The requests of a run. -/

def HttpPc.request (pc : HttpPc) : Option HttpRequest :=
  match pc with
  | .idle => none
  | .routing req => some req
  | .queued req => some req
  | .postRouting req => some req
  | .writing req => some req

/--
What clients send breaks no line of the exposition. Requests to `POST /events` and frames never do.
-/
def AppAction.OneLine (action : AppAction) : Prop :=
  match action with
  | .receive _ req => req.routed.OneLine
  | _ => True

structure OneLined (c : App) : Prop where
  held : ∀ k req, (c.http k).request = some req → req.routed.OneLine
  observed : ∀ req ∈ c.history.observed, req.OneLine

theorem OneLined.setHttp {c c' : App} (h : OneLined c) {k : Nat} {pc : HttpPc}
    (hhttp : c'.http = Function.update c.http k pc)
    (hobserved : c'.history.observed = c.history.observed)
    (hpc : ∀ req, pc.request = some req → req.routed.OneLine) : OneLined c' := by
  refine ⟨?_, hobserved ▸ h.observed⟩
  intro k' req hreq
  rw [hhttp] at hreq
  by_cases hk : k' = k
  . subst hk
    rw [Function.update_self] at hreq
    exact hpc req hreq
  . rw [Function.update_of_ne hk] at hreq
    exact h.held k' req hreq

theorem OneLined.step {ep : OpenFlowEndpoint Services} {c c' : App} {action : AppAction}
    (h : OneLined c) (hline : action.OneLine) (hstep : App.Step ep c action c') : OneLined c' := by
  have hheld : ∀ {k : Nat} {req req' : HttpRequest}, (c.http k).request = some req → some req = some req' →
      req'.routed.OneLine := by
    intro k req req' hreq heq
    cases heq
    exact h.held k req hreq
  cases hstep with
  | receive =>
    refine h.setHttp rfl rfl (fun req hreq => ?_)
    cases hreq
    exact hline
  | reject hpc => exact h.setHttp rfl rfl (fun _ => hheld (by rw [hpc]; rfl))
  | enqueue hpc => exact h.setHttp rfl rfl (fun _ => hheld (by rw [hpc]; rfl))
  | other hpc => exact h.setHttp rfl rfl (fun _ => hheld (by rw [hpc]; rfl))
  | notifyOne hpc => exact h.setHttp rfl rfl (fun _ => hheld (by rw [hpc]; rfl))
  | @postRouting k req hpc =>
    have hreq : req.routed.OneLine := h.held k req (by rw [hpc]; rfl)
    have hset : OneLined (c.setHttp k (.writing req)) :=
      h.setHttp rfl rfl (fun _ => hheld (by rw [hpc]; rfl))
    refine ⟨hset.held, ?_⟩
    intro routed hrouted
    rcases List.mem_append.mp hrouted with hrouted | hrouted
    . exact h.observed routed hrouted
    . rwa [List.mem_singleton.mp hrouted]
  | write => exact h.setHttp rfl rfl (fun _ hnone => nomatch hnone)
  | _ => exact ⟨h.held, h.observed⟩

theorem oneLined_of_run {insertFails : Nat → Bool} {junk : Connection → Frame → Services → Uninit}
    {as : List AppAction} {c : App}
    (h : run (App.step insertFails junk) (fun _ _ => true) {} as = some c)
    (hlines : ∀ action ∈ as, action.OneLine) : OneLined c := by
  have hinit : (∀ action ∈ ([] : List AppAction), action.OneLine) → OneLined {} :=
    fun _ => ⟨fun _ _ hnone => (nomatch hnone), fun _ hnone => (nomatch hnone)⟩
  refine invariant_of_run (fun c past => (∀ action ∈ past, action.OneLine) → OneLined c) ?_ hinit h hlines
  intro c past action c' hc _ hstep hpast
  have hline := hpast action (by simp)
  have hbefore := hc (fun action haction => hpast action (List.mem_append_left _ haction))
  exact hbefore.step hline (App.Step.of_step hstep).2

theorem countersTrue_iff_silent {insertFails : Nat → Bool}
    {junk : Connection → Frame → Services → Uninit} {c : App} (h : App.Reachable insertFails junk c)
    (hlines : ∀ req ∈ c.history.observed, req.OneLine) :
    CountersTrue c ↔ Silent c := by
  have hrendered : ∀ name, text name ≠ metricName →
      c.rendered name = ((eventSamples {}).find? (fun s => s.name = text name)).map Sample.value := by
    intro name hname
    rw [App.rendered, metrics_of_reachable h, valueOf_renderPrometheus hlines hname, eventSamples_observe]
  have hqueued : c.rendered "netorc_events_queued_total" = some 0 := by
    rw [hrendered _ (by decide)]
    rfl
  have hinvalid : c.rendered "netorc_events_invalid_total" = some 0 := by
    rw [hrendered _ (by decide)]
    rfl
  have hdepth : c.rendered "netorc_event_queue_depth" = some 0 := by
    rw [hrendered _ (by decide)]
    rfl
  have hlength : c.server.events.length = c.history.pushed.length := by
    have hevents := congrArg List.length (events_of_reachable h)
    rwa [List.length_map, List.length_map] at hevents
  constructor
  . rintro ⟨hq, hi, hd⟩
    rw [hqueued, Option.some.injEq] at hq
    rw [hinvalid, Option.some.injEq] at hi
    exact ⟨by omega, hi.symm, List.eq_nil_of_length_eq_zero (by omega)⟩
  . rintro ⟨haccepted, hnone, hpushed⟩
    rw [hpushed] at hlength
    refine ⟨?_, ?_, ?_⟩
    . rw [hqueued, haccepted, hpushed]
      rfl
    . rw [hinvalid, hnone]
    . rw [hdepth, hlength]
      rfl

/--
In the state that a run of the program reaches, the counters are right if and only if every step of the
run is quiet. Requests to other handlers may be part of the run, as long as none of them puts a line of
its own into the text.
-/
theorem countersTrue_iff (insertFails : Nat → Bool) (junk : Connection → Frame → Services → Uninit)
    {as : List AppAction} {c : App}
    (h : run (App.step insertFails junk) (fun _ _ => true) {} as = some c)
    (hlines : ∀ action ∈ as, action.OneLine) :
    CountersTrue c
      ↔
    run (App.step insertFails junk) (App.isQuiet (sbiEndpoint (services insertFails) junk)) {} as
      = some c := by
  have hreachable : App.Reachable insertFails junk c :=
    (reaches_of_run h).weaken (fun _ _ _ => trivial)
  have hinit : Silent {} := ⟨rfl, rfl, rfl⟩
  rw [countersTrue_iff_silent hreachable (oneLined_of_run h hlines).observed,
    run_guarded_iff (fun c action c' hstep => silent_step (App.Step.of_step hstep).2) h]
  exact and_iff_right hinit

def postEvent (req : EventsRequest) : List AppAction :=
  [.run true, .run true, .run true, .receive 0 (.events req), .route 0, .notifyOne 0 none,
    .postRouting 0, .write 0 true]

theorem oneLine_postEvent (req : EventsRequest) : ∀ action ∈ postEvent req, action.OneLine := by
  have hmethod : lineFeed ∉ text "POST" := by decide
  simp [postEvent, AppAction.OneLine, HttpRequest.routed, RoutedRequest.OneLine, hmethod]

theorem countersTrue_iff_refused :
    ∃ c, run (App.step (fun _ => false) (fun _ _ _ => ⟨0, 0, 0⟩)) (fun _ _ => true) {}
        (postEvent { ranges := [(20, 30)] }) = some c ∧ CountersTrue c := by
  obtain ⟨c, hrun, hquiet⟩ : ∃ c, run (App.step (fun _ => false) (fun _ _ _ => ⟨0, 0, 0⟩))
        (fun _ _ => true) {} (postEvent { ranges := [(20, 30)] }) = some c
      ∧ run (App.step (fun _ => false) (fun _ _ _ => ⟨0, 0, 0⟩))
        (App.isQuiet (sbiEndpoint (services (fun _ => false)) (fun _ _ _ => ⟨0, 0, 0⟩))) {}
        (postEvent { ranges := [(20, 30)] }) = some c := ⟨_, rfl, rfl⟩
  exact ⟨c, hrun, (countersTrue_iff _ _ hrun (oneLine_postEvent _)).mpr hquiet⟩

/--
One event without a type: it is answered with 202, and the counter of queued events stays at 0.
-/
theorem not_countersTrue_queued :
    ∃ c, run (App.step (fun _ => false) (fun _ _ _ => ⟨0, 0, 0⟩)) (fun _ _ => true) {} (postEvent {})
        = some c ∧ c.accepted = 1 ∧ ¬CountersTrue c := by
  obtain ⟨c, hrun, haccepted⟩ : ∃ c, run (App.step (fun _ => false) (fun _ _ _ => ⟨0, 0, 0⟩))
      (fun _ _ => true) {} (postEvent {}) = some c ∧ c.accepted = 1 := ⟨_, rfl, rfl⟩
  refine ⟨c, hrun, haccepted, ?_⟩
  rw [countersTrue_iff_silent ((reaches_of_run hrun).weaken (fun _ _ _ => trivial))
    (oneLined_of_run hrun (oneLine_postEvent _)).observed]
  intro hsilent
  rw [hsilent.accepted] at haccepted
  contradiction

end NetOrc
