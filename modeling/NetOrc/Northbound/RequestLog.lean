import NetOrc.Core.Counters
import NetOrc.Transition.Basic

/-!
This module follows the requests of the northbound clients through the program: each one is routed,
counted and answered once, and each event that is accepted is run once by the pool, whatever the other
threads do meanwhile.
-/

namespace NetOrc

open Oflib
open Transition

def HttpRequest.task (req : HttpRequest) : Option EventTask :=
  match req with
  | .events req => req.handle.1
  | .other _ => none

namespace HttpPc

def unrouted (pc : HttpPc) : Option HttpRequest :=
  match pc with
  | .routing req => some req
  | _ => none

def isQueued (pc : HttpPc) : Bool :=
  match pc with
  | .queued _ => true
  | _ => false

def uncounted (pc : HttpPc) : Option HttpRequest :=
  match pc with
  | .queued req => some req
  | .postRouting req => some req
  | _ => none

def unwritten (pc : HttpPc) : Option HttpRequest :=
  match pc with
  | .writing req => some req
  | _ => none

end HttpPc

/--
The requests that the threads of the HTTP server have received, given to their handlers, given to the
post-routing handler, and answered, each with its thread.
-/
structure RequestLog where
  received : List (Nat × HttpRequest) := []
  routed : List (Nat × HttpRequest) := []
  counted : List (Nat × HttpRequest) := []
  finished : List (Nat × HttpRequest) := []

def addRequest (reqs : List (Nat × HttpRequest)) (h : Nat) (req : Option HttpRequest) :
    List (Nat × HttpRequest) :=
  reqs ++ req.toList.map (fun req => (h, req))

def recordRequest (c : App) (action : AppAction) (log : RequestLog) : RequestLog :=
  match action with
  | .receive h req => { log with received := addRequest log.received h req }
  | .route h => { log with routed := addRequest log.routed h (c.http h).unrouted }
  | .postRouting h => { log with counted := addRequest log.counted h (c.http h).uncounted }
  | .write h _ => { log with finished := addRequest log.finished h (c.http h).unwritten }
  | _ => log

def ofThread (h : Nat) (reqs : List (Nat × HttpRequest)) : List HttpRequest :=
  (reqs.filter (fun r => r.1 = h)).map Prod.snd

theorem ofThread_addRequest_self (reqs : List (Nat × HttpRequest)) (h : Nat) (req : Option HttpRequest) :
    ofThread h (addRequest reqs h req) = ofThread h reqs ++ req.toList := by
  cases req <;> simp [ofThread, addRequest]

theorem ofThread_addRequest_of_ne {h h' : Nat} (hne : h ≠ h') (reqs : List (Nat × HttpRequest))
    (req : Option HttpRequest) : ofThread h (addRequest reqs h' req) = ofThread h reqs := by
  cases req <;> simp [ofThread, addRequest, Ne.symm hne]

/--
Where the requests of one thread are.
-/
structure Stages (log : RequestLog) (h : Nat) (pc : HttpPc) : Prop where
  received : ofThread h log.received = ofThread h log.routed ++ pc.unrouted.toList
  routed : ofThread h log.routed = ofThread h log.counted ++ pc.uncounted.toList
  counted : ofThread h log.counted = ofThread h log.finished ++ pc.unwritten.toList

structure Notifying (http : Nat → HttpPc) (hs : List Nat) : Prop where
  nodup : hs.Nodup
  mem_iff : ∀ h, h ∈ hs ↔ (http h).isQueued

structure Logged (c : App) (log : RequestLog) : Prop where
  stages : ∀ h, Stages log h (c.http h)
  enqueued : c.pool.enqueued = log.routed.filterMap (fun r => r.2.task)
  observed : c.history.observed = log.counted.map (fun r => r.2.routed)
  pool : Reaches ThreadEnvironment.step (fun _ _ => True) {} c.pool
  running : c.pool.stop = false
  notifying : ∃ hs, Notifying c.http hs ∧ hs.length = c.pool.notifies

/-! One step. -/

variable {c c' : App} {log : RequestLog} {insertFails : Nat → Bool}
  {junk : Connection → Frame → Services → Uninit}

theorem Notifying.update {http : Nat → HttpPc} {hs : List Nat} (h : Notifying http hs) {k : Nat}
    {pc : HttpPc} (hpc : pc.isQueued = (http k).isQueued) :
    Notifying (Function.update http k pc) hs where
  nodup := h.nodup
  mem_iff k' := by
    rw [h.mem_iff]
    by_cases hk : k' = k
    . rw [hk, Function.update_self, hpc]
    . rw [Function.update_of_ne hk]

theorem Notifying.queue {http : Nat → HttpPc} {hs : List Nat} (h : Notifying http hs) {k : Nat}
    (hpc : (http k).isQueued = false) (req : HttpRequest) :
    Notifying (Function.update http k (.queued req)) (k :: hs) where
  nodup := by
    rw [List.nodup_cons, h.mem_iff, hpc]
    exact ⟨Bool.false_ne_true, h.nodup⟩
  mem_iff k' := by
    by_cases hk : k' = k
    . rw [hk, Function.update_self]
      simp [HttpPc.isQueued]
    . rw [Function.update_of_ne hk, List.mem_cons, h.mem_iff]
      simp [hk]

theorem Notifying.notify {http : Nat → HttpPc} {hs : List Nat} (h : Notifying http hs) {k : Nat}
    {pc : HttpPc} (hpc : (http k).isQueued) (hpc' : pc.isQueued = false) :
    Notifying (Function.update http k pc) (hs.erase k) ∧ (hs.erase k).length = hs.length - 1 := by
  have hk := (h.mem_iff k).mpr hpc
  refine ⟨⟨h.nodup.erase k, fun k' => ?_⟩, List.length_erase_of_mem hk⟩
  rw [h.nodup.mem_erase_iff, h.mem_iff]
  by_cases heq : k' = k
  . rw [heq, Function.update_self, hpc']
    simp
  . rw [Function.update_of_ne heq]
    simp [heq]

def AppAction.logged (action : AppAction) : Option Nat :=
  match action with
  | .receive h _ => some h
  | .route h => some h
  | .postRouting h => some h
  | .write h _ => some h
  | _ => none

theorem Stages.of_ne {h : Nat} {pc : HttpPc} {action : AppAction} (hstages : Stages log h pc)
    (hne : ∀ k, action.logged = some k → h ≠ k) : Stages (recordRequest c action log) h pc := by
  have hof : ∀ {k}, action.logged = some k → ∀ reqs req,
      ofThread h (addRequest reqs k req) = ofThread h reqs :=
    fun hk reqs req => ofThread_addRequest_of_ne (hne _ hk) reqs req
  rcases hstages with ⟨hreceived, hrouted, hcounted⟩
  cases action with
  | receive k req => exact ⟨(hof rfl _ _).trans hreceived, hrouted, hcounted⟩
  | route k =>
    refine ⟨?_, (hof rfl _ _).trans hrouted, hcounted⟩
    dsimp only [recordRequest]
    rw [hof rfl, hreceived]
  | postRouting k =>
    refine ⟨hreceived, ?_, (hof rfl _ _).trans hcounted⟩
    dsimp only [recordRequest]
    rw [hof rfl, hrouted]
  | write k sent =>
    refine ⟨hreceived, hrouted, ?_⟩
    dsimp only [recordRequest]
    rw [hof rfl, hcounted]
  | _ => exact ⟨hreceived, hrouted, hcounted⟩

theorem stages_update {http : Nat → HttpPc} {action : AppAction} {k : Nat} {pc : HttpPc}
    (h : ∀ h, Stages log h (http h)) (hk : Stages (recordRequest c action log) k pc)
    (haction : ∀ k', action.logged = some k' → k' = k) (h' : Nat) :
    Stages (recordRequest c action log) h' (Function.update http k pc h') := by
  by_cases heq : h' = k
  . rw [heq, Function.update_self]
    exact hk
  . rw [Function.update_of_ne heq]
    exact (h h').of_ne (fun k' hk' => by rwa [haction k' hk'])

theorem Stages.route {k : Nat} {req : HttpRequest} {pc : HttpPc} (h : Stages log k (c.http k))
    (hpc : c.http k = .routing req) (hunrouted : pc.unrouted = none) (huncounted : pc.uncounted = some req)
    (hunwritten : pc.unwritten = none) : Stages (recordRequest c (.route k) log) k pc := by
  rcases h with ⟨hreceived, hrouted, hcounted⟩
  rw [hpc] at hreceived hrouted hcounted
  constructor
  . dsimp only [recordRequest]
    rw [ofThread_addRequest_self, hreceived, hpc, hunrouted]
    exact (List.append_nil _).symm
  . dsimp only [recordRequest]
    rw [ofThread_addRequest_self, hrouted, hpc, huncounted]
    exact congrArg (· ++ _) (List.append_nil _)
  . rw [hunwritten]
    exact hcounted

theorem stages_step {ep : OpenFlowEndpoint Services} {action : AppAction}
    (h : ∀ h, Stages log h (c.http h)) (hstep : App.Step ep c action c') (h' : Nat) :
    Stages (recordRequest c action log) h' (c'.http h') := by
  cases hstep with
  | @receive k req hmain hpc =>
    rcases h k with ⟨hreceived, hrouted, hcounted⟩
    rw [hpc] at hreceived hrouted hcounted
    refine stages_update h ⟨?_, hrouted, hcounted⟩ (by simp [AppAction.logged]) h'
    dsimp only [recordRequest]
    rw [ofThread_addRequest_self, hreceived]
    exact congrArg (· ++ _) (List.append_nil _)
  | @reject k req hpc htype =>
    exact stages_update h ((h k).route hpc rfl rfl rfl) (by simp [AppAction.logged]) h'
  | @enqueue k req type pool hpc htype hpool =>
    exact stages_update h ((h k).route hpc rfl rfl rfl) (by simp [AppAction.logged]) h'
  | @other k req hpc =>
    exact stages_update h ((h k).route hpc rfl rfl rfl) (by simp [AppAction.logged]) h'
  | @notifyOne k woken req pool hpc hpool =>
    have hk := h k
    rw [hpc] at hk
    exact stages_update h ⟨hk.received, hk.routed, hk.counted⟩ (by simp [AppAction.logged]) h'
  | @postRouting k req hpc =>
    rcases h k with ⟨hreceived, hrouted, hcounted⟩
    rw [hpc] at hreceived hrouted hcounted
    refine stages_update h ⟨hreceived, ?_, ?_⟩ (by simp [AppAction.logged]) h'
    . dsimp only [recordRequest]
      rw [ofThread_addRequest_self, hrouted, hpc]
      exact (List.append_nil _).symm
    . dsimp only [recordRequest]
      rw [ofThread_addRequest_self, hcounted, hpc]
      exact congrArg (· ++ _) (List.append_nil _)
  | @write k sent req hpc =>
    rcases h k with ⟨hreceived, hrouted, hcounted⟩
    rw [hpc] at hreceived hrouted hcounted
    refine stages_update h ⟨hreceived, hrouted, ?_⟩ (by simp [AppAction.logged]) h'
    dsimp only [recordRequest]
    rw [ofThread_addRequest_self, hcounted, hpc]
    exact (List.append_nil _).symm
  | _ => exact h h'

theorem enqueued_of_isNorthbound {pool pool' : ThreadEnvironment 2 EventTask}
    {action : PoolAction 2 EventTask} (hnorth : isNorthbound action)
    (h : pool.Step action pool') :
    pool'.enqueued = pool.enqueued ∧ pool'.stop = pool.stop ∧ pool'.notifies = pool.notifies := by
  cases h <;> first | exact ⟨rfl, rfl, rfl⟩ | contradiction

theorem enqueued_of_notifyOne {pool pool' : ThreadEnvironment 2 EventTask} {woken : Option (Fin 2)}
    (h : pool.Step (.notifyOne woken) pool') :
    pool'.enqueued = pool.enqueued ∧ pool'.stop = pool.stop ∧ 0 < pool.notifies
      ∧ pool'.notifies = pool.notifies - 1 := by
  cases h with
  | notifyOne hnotifies => exact ⟨rfl, rfl, hnotifies, rfl⟩
  | notifyNone hnotifies => exact ⟨rfl, rfl, hnotifies, rfl⟩

theorem filterMap_addRequest (reqs : List (Nat × HttpRequest)) (h : Nat) (req : HttpRequest) :
    (addRequest reqs h req).filterMap (fun r => r.2.task)
      =
    reqs.filterMap (fun r => r.2.task) ++ req.task.toList := by
  rw [addRequest, List.filterMap_append]
  cases htask : req.task <;> simp [htask]

theorem Logged.moves (h : Logged c log) {log' : RequestLog} (hstages : ∀ h, Stages log' h (c'.http h))
    {k : Nat} {pc : HttpPc} (hhttp : c'.http = Function.update c.http k pc)
    (hpc : pc.isQueued = (c.http k).isQueued) (hpool : c'.pool = c.pool)
    (hrouted : log'.routed.filterMap (fun r => r.2.task) = log.routed.filterMap (fun r => r.2.task))
    (hobserved : c'.history.observed = log'.counted.map (fun r => r.2.routed)) : Logged c' log' where
  stages := hstages
  enqueued := by rw [hpool, h.enqueued, hrouted]
  observed := hobserved
  pool := by
    rw [hpool]
    exact h.pool
  running := by rw [hpool, h.running]
  notifying := by
    rcases h.notifying with ⟨hs, hnotifying, hlength⟩
    rw [hhttp, hpool]
    exact ⟨hs, hnotifying.update hpc, hlength⟩

theorem Logged.step {ep : OpenFlowEndpoint Services} {action : AppAction} (h : Logged c log)
    (hstep : App.Step ep c action c') : Logged c' (recordRequest c action log) := by
  have hstages := stages_step h.stages hstep
  cases hstep with
  | @receive k req hmain hpc =>
    exact h.moves hstages rfl (by rw [hpc]; rfl) rfl rfl h.observed
  | @reject k req hpc htype =>
    refine h.moves hstages rfl (by rw [hpc]; rfl) rfl ?_ h.observed
    have htask : (HttpRequest.events req).task = none := by
      simp only [HttpRequest.task, EventsRequest.handle, htype]
    dsimp only [recordRequest]
    rw [hpc]
    refine (filterMap_addRequest _ _ _).trans ?_
    rw [htask]
    exact List.append_nil _
  | @enqueue k req type pool hpc htype hpool =>
    have htask : (HttpRequest.events req).task = some ⟨type, req.body⟩ := by
      simp only [HttpRequest.task, EventsRequest.handle, htype]
    have hreaches := h.pool.tail ⟨_, trivial, hpool⟩
    rcases h.notifying with ⟨hs, hnotifying, hlength⟩
    cases ThreadEnvironment.Step.of_step hpool with
    | enqueue =>
      refine ⟨hstages, ?_, h.observed, hreaches, h.running, k :: hs, ?_, ?_⟩
      . dsimp only [recordRequest]
        rw [hpc, h.enqueued]
        refine Eq.trans ?_ (filterMap_addRequest _ _ _).symm
        rw [htask]
        rfl
      . exact hnotifying.queue (by rw [hpc]; rfl) _
      . rw [List.length_cons, hlength]
  | @other k req hpc =>
    refine h.moves hstages rfl (by rw [hpc]; rfl) rfl ?_ h.observed
    dsimp only [recordRequest]
    rw [hpc]
    exact (filterMap_addRequest _ _ _).trans (List.append_nil _)
  | @notifyOne k woken req pool hpc hpool =>
    have hreaches := h.pool.tail ⟨_, trivial, hpool⟩
    rcases h.notifying with ⟨hs, hnotifying, hlength⟩
    rcases enqueued_of_notifyOne (ThreadEnvironment.Step.of_step hpool) with
      ⟨henqueued, hstop, _, hnotifies⟩
    have hpc' : (HttpPc.postRouting req).isQueued = false := rfl
    rcases hnotifying.notify (by rw [hpc]; rfl) hpc' with ⟨hnotifying', hlength'⟩
    refine ⟨hstages, henqueued.trans h.enqueued, h.observed, hreaches, hstop.trans h.running, hs.erase k,
      hnotifying', ?_⟩
    rw [hlength', hlength]
    exact hnotifies.symm
  | @postRouting k req hpc =>
    refine h.moves hstages rfl (by rw [hpc]; rfl) rfl rfl ?_
    dsimp only [recordRequest]
    rw [h.observed, hpc, addRequest, List.map_append]
    rfl
  | @write k sent req hpc =>
    exact h.moves hstages rfl (by rw [hpc]; rfl) rfl rfl h.observed
  | @pool action pool hnorth hpool =>
    have hreaches := h.pool.tail ⟨_, trivial, hpool⟩
    rcases enqueued_of_isNorthbound hnorth (ThreadEnvironment.Step.of_step hpool) with
      ⟨henqueued, hstop, hnotifies⟩
    rcases h.notifying with ⟨hs, hnotifying, hlength⟩
    exact ⟨hstages, henqueued.trans h.enqueued, h.observed, hreaches, hstop.trans h.running, hs, hnotifying,
      hlength.trans hnotifies.symm⟩
  | _ => exact ⟨hstages, h.enqueued, h.observed, h.pool, h.running, h.notifying⟩

theorem logged_init : Logged {} {} where
  stages _ := ⟨rfl, rfl, rfl⟩
  enqueued := rfl
  observed := rfl
  pool := .refl
  running := rfl
  notifying := ⟨[], ⟨List.nodup_nil, by simp [HttpPc.isQueued]⟩, rfl⟩

theorem logged_of_reaches
    (h : Reaches (recorded (App.step insertFails junk) recordRequest) (fun _ _ => True) ({}, {}) (c, log)) :
    App.Reachable insertFails junk c ∧ Logged c log := by
  have hinit : App.Reachable insertFails junk {} ∧ Logged {} {} := ⟨.refl, logged_init⟩
  refine h.invariant (fun p => App.Reachable insertFails junk p.1 ∧ Logged p.1 p.2) ?_ hinit
  rintro ⟨c, log⟩ action ⟨c', log'⟩ ⟨hreachable, hlogged⟩ _ hrecorded
  rcases recorded_eq_some_iff.mp hrecorded with ⟨hstep, hlog⟩
  dsimp only at hlog hstep
  subst hlog
  exact ⟨hreachable.tail ⟨action, trivial, hstep⟩, hlogged.step (App.Step.of_step hstep).2⟩

/-! The threads of the HTTP server and the pool come to rest. -/

/--
The steps that finish what has been received.
-/
def AppAction.isProgress (action : AppAction) : Bool :=
  match action with
  | .route _ => true
  | .notifyOne _ _ => true
  | .postRouting _ => true
  | .write _ _ => true
  | .pool (.wait _) => true
  | .pool (.run _) => true
  | _ => false

/--
A request that is not routed yet may take seven steps, with those of its task and of the worker that it
wakes.
-/
def remaining (c : App) (log : RequestLog) : Nat :=
  7 * log.received.length - 5 * log.routed.length - log.counted.length - log.finished.length
    + c.pool.rank

theorem length_le_of_ofThread {reqs reqs' : List (Nat × HttpRequest)}
    (hle : ∀ h, (ofThread h reqs).length ≤ (ofThread h reqs').length) : reqs.length ≤ reqs'.length := by
  have hcount : ∀ h (reqs : List (Nat × HttpRequest)),
      (ofThread h reqs).length = (reqs.map Prod.fst).count h := by
    intro h reqs
    rw [ofThread, List.length_map, ← List.countP_eq_length_filter, List.count, List.countP_map]
    apply List.countP_congr
    intro r _
    simp
  have hsubperm : (reqs.map Prod.fst).Subperm (reqs'.map Prod.fst) := by
    rw [List.subperm_ext_iff]
    intro h _
    rw [← hcount, ← hcount]
    exact hle h
  have hlength := hsubperm.length_le
  rwa [List.length_map, List.length_map] at hlength

theorem Logged.lengths (h : Logged c log) :
    log.finished.length ≤ log.counted.length ∧ log.counted.length ≤ log.routed.length
      ∧ log.routed.length ≤ log.received.length := by
  refine ⟨length_le_of_ofThread fun k => ?_, length_le_of_ofThread fun k => ?_,
    length_le_of_ofThread fun k => ?_⟩
  . rw [(h.stages k).counted, List.length_append]
    exact Nat.le_add_right _ _
  . rw [(h.stages k).routed, List.length_append]
    exact Nat.le_add_right _ _
  . rw [(h.stages k).received, List.length_append]
    exact Nat.le_add_right _ _

theorem length_addRequest (reqs : List (Nat × HttpRequest)) (h : Nat) (req : HttpRequest) :
    (addRequest reqs h req).length = reqs.length + 1 := by
  simp [addRequest]

theorem Logged.remaining_lt {ep : OpenFlowEndpoint Services} {action : AppAction} (h : Logged c log)
    (ha : action.isProgress) (hstep : App.Step ep c action c') :
    remaining c' (recordRequest c action log) < remaining c log := by
  have hlengths := (h.step hstep).lengths
  unfold remaining
  cases hstep with
  | @reject k req hpc htype =>
    have hlength : (recordRequest c (.route k) log).routed.length = log.routed.length + 1 := by
      dsimp only [recordRequest]
      rw [hpc]
      exact length_addRequest _ _ _
    dsimp only [recordRequest, App.setHttp] at hlengths hlength ⊢
    omega
  | @other k req hpc =>
    have hlength : (recordRequest c (.route k) log).routed.length = log.routed.length + 1 := by
      dsimp only [recordRequest]
      rw [hpc]
      exact length_addRequest _ _ _
    dsimp only [recordRequest, App.setHttp] at hlengths hlength ⊢
    omega
  | @enqueue k req type pool hpc htype hpool =>
    have hlength : (recordRequest c (.route k) log).routed.length = log.routed.length + 1 := by
      dsimp only [recordRequest]
      rw [hpc]
      exact length_addRequest _ _ _
    have hrank : pool.rank = c.pool.rank + 4 := by
      cases ThreadEnvironment.Step.of_step hpool with
      | enqueue =>
        simp only [ThreadEnvironment.rank, List.length_append, List.length_singleton]
        omega
    dsimp only [recordRequest, App.setHttp] at hlengths hlength ⊢
    omega
  | @notifyOne k woken req pool hpc hpool =>
    have hrank := (ThreadEnvironment.Step.of_step hpool).rank_lt rfl
    dsimp only [recordRequest, App.setHttp]
    omega
  | @postRouting k req hpc =>
    have hlength : (recordRequest c (.postRouting k) log).counted.length = log.counted.length + 1 := by
      dsimp only [recordRequest]
      rw [hpc]
      exact length_addRequest _ _ _
    dsimp only [recordRequest, App.setHttp] at hlengths hlength ⊢
    omega
  | @write k sent req hpc =>
    have hlength : (recordRequest c (.write k sent) log).finished.length = log.finished.length + 1 := by
      dsimp only [recordRequest]
      rw [hpc]
      exact length_addRequest _ _ _
    dsimp only [recordRequest, App.setHttp] at hlengths hlength ⊢
    omega
  | @pool action pool hnorth hpool =>
    have hrank : pool.rank < c.pool.rank := by
      refine (ThreadEnvironment.Step.of_step hpool).rank_lt ?_
      cases action <;> first | rfl | contradiction
    dsimp only [recordRequest]
    omega
  | _ => contradiction

/--
No thread of the HTTP server and no worker of the pool can go on.
-/
def Rests (insertFails : Nat → Bool) (junk : Connection → Frame → Services → Uninit) (c : App) : Prop :=
  ∀ action, action.isProgress → App.step insertFails junk c action = none

theorem Rests.pool_eq_none (hs : Rests insertFails junk c) (hcrashed : ¬c.server.crashed)
    {action : PoolAction 2 EventTask} (hnorth : isNorthbound action)
    (hprogress : (AppAction.pool action).isProgress) : c.pool.step action = none := by
  have hnone := hs _ hprogress
  unfold App.step at hnone
  rw [if_neg hcrashed] at hnone
  dsimp only at hnone
  rw [if_pos hnorth] at hnone
  exact Option.map_eq_none_iff.mp hnone

theorem notifyOne_isSome {pool : ThreadEnvironment 2 EventTask} (h : 0 < pool.notifies) :
    ∃ woken, (pool.step (.notifyOne woken)).isSome := by
  by_cases hawake : ∀ i, ¬(pool.workers i).isSleeping
  . refine ⟨none, ?_⟩
    rw [ThreadEnvironment.step, if_pos ⟨h, hawake⟩]
    rfl
  . push Not at hawake
    rcases hawake with ⟨i, hi⟩
    refine ⟨some i, ?_⟩
    rw [ThreadEnvironment.step, if_pos ⟨h, hi⟩]
    rfl

theorem Rests.idle (hs : Rests insertFails junk c) (hcrashed : ¬c.server.crashed) (hlogged : Logged c log)
    (h : Nat) : c.http h = .idle := by
  have hnone : ∀ action, action.isProgress → App.step insertFails junk c action = none := hs
  simp only [App.step, if_neg hcrashed] at hnone
  cases hpc : c.http h with
  | idle => rfl
  | routing req =>
    have hroute := hnone (.route h) rfl
    simp only [App.route, hpc] at hroute
    cases req with
    | events req =>
      dsimp only at hroute
      split at hroute
      . contradiction
      . contradiction
    | other req => contradiction
  | queued req =>
    rcases hlogged.notifying with ⟨hs, hnotifying, hlength⟩
    have hmem : h ∈ hs := (hnotifying.mem_iff h).mpr (by rw [hpc]; rfl)
    have hpos : 0 < c.pool.notifies := by
      rw [← hlength]
      exact List.length_pos_of_mem hmem
    rcases notifyOne_isSome hpos with ⟨woken, hsome⟩
    have hnotify := hnone (.notifyOne h woken) rfl
    simp only [App.notifyOne, hpc, Option.map_eq_none_iff] at hnotify
    rw [hnotify] at hsome
    contradiction
  | postRouting req =>
    have hpost := hnone (.postRouting h) rfl
    simp [App.postRouting, hpc] at hpost
  | writing req =>
    have hwrite := hnone (.write h true) rfl
    simp [App.write, hpc] at hwrite

theorem Rests.quiescent (hs : Rests insertFails junk c) (hcrashed : ¬c.server.crashed)
    (hlogged : Logged c log) : c.pool.Quiescent := by
  have hidle := hs.idle hcrashed hlogged
  have hnotifies : c.pool.notifies = 0 := by
    rcases hlogged.notifying with ⟨hs, hnotifying, hlength⟩
    rw [← hlength]
    apply List.length_eq_zero_iff.mpr
    apply List.eq_nil_iff_forall_not_mem.mpr
    intro h hmem
    have hqueued := (hnotifying.mem_iff h).mp hmem
    rw [hidle h] at hqueued
    contradiction
  have huncalled : c.pool.destructor = .uncalled := by
    rcases ThreadEnvironment.Reaches.keeps hlogged.pool with ⟨_, hstopping, _⟩
    by_contra hcalled
    have hstop := hstopping.stop.mpr hcalled
    rw [hlogged.running] at hstop
    contradiction
  intro action hinternal
  cases action with
  | wait i => exact hs.pool_eq_none hcrashed rfl rfl
  | run i => exact hs.pool_eq_none hcrashed rfl rfl
  | notifyOne woken => cases woken <;> simp [ThreadEnvironment.step, hnotifies]
  | notifyAll => simp [ThreadEnvironment.step, huncalled]
  | join => simp [ThreadEnvironment.step, huncalled]
  | _ => contradiction

/--
In every state of the program each thread of the HTTP server has routed what it has received, counted
what it has routed, and answered what it has counted, each request once and up to the one it is at. The
metrics are those of the counted requests. An answer counts also where the socket did not take it. The
pool gets the tasks of the accepted events in the order of their routing, and runs each of them once. What
is left takes a bounded number of steps, and then every request is answered and every accepted event has
been run.
-/
theorem requests_of_reaches
    (h : Reaches (recorded (App.step insertFails junk) recordRequest) (fun _ _ => True) ({}, {}) (c, log)) :
    (∀ h, Stages log h (c.http h))
      ∧ c.metrics = observe (log.counted.map (fun r => r.2.routed))
      ∧ c.pool.popped ++ c.pool.tasks = log.routed.filterMap (fun r => r.2.task)
      ∧ (∀ task, c.pool.ran.count task + threads (PoolPc.runs task) c.pool.workers
        = c.pool.popped.count task)
      ∧ (∀ actions s, run (recorded (App.step insertFails junk) recordRequest)
          (fun _ action => action.isProgress) (c, log) actions = some s →
        actions.length ≤ remaining c log)
      ∧ (¬c.server.crashed → Rests insertFails junk c →
        (∀ h, ofThread h log.finished = ofThread h log.received)
          ∧ c.pool.ran.Perm (log.routed.filterMap (fun r => r.2.task))) := by
  rcases logged_of_reaches h with ⟨hreachable, hlogged⟩
  rcases ThreadEnvironment.Reaches.keeps hlogged.pool with ⟨hordered, hstopping, hwatched⟩
  have hcounted := ThreadEnvironment.Reaches.counted hlogged.pool
  refine ⟨hlogged.stages, ?_, ?_, hcounted, ?_, ?_⟩
  . rw [metrics_of_reachable hreachable, hlogged.observed]
  . rw [hordered.queue, hlogged.enqueued]
  . intro actions s hrun
    have hle := countP_le_of_run (fun p => Logged p.1 p.2) (fun p => remaining p.1 p.2) (fun _ => true)
      ?_ hlogged hrun
    . rwa [List.countP_true] at hle
    . rintro ⟨c, log⟩ action ⟨c', log'⟩ hlogged hprogress hrecorded
      rcases recorded_eq_some_iff.mp hrecorded with ⟨hstep, hlog⟩
      dsimp only at hlog hstep
      subst hlog
      have hstep := (App.Step.of_step hstep).2
      exact ⟨hlogged.step hstep, hlogged.remaining_lt hprogress hstep⟩
  . intro hcrashed hs
    have hidle := hs.idle hcrashed hlogged
    constructor
    . intro h
      have hstages := hlogged.stages h
      rw [hidle h] at hstages
      rw [hstages.received, hstages.routed, hstages.counted]
      simp [HttpPc.unrouted, HttpPc.uncounted, HttpPc.unwritten]
    . have hall := ((hs.quiescent hcrashed hlogged).all (by decide) hordered hcounted hstopping hwatched).1
      rcases hall with ⟨later, hprefix, hperm⟩
      have haccepted := hordered.open_accepts hlogged.running
      have hlater : later = [] := by
        rw [haccepted] at hprefix
        have hle := hprefix.length_le
        rw [List.length_append] at hle
        exact List.eq_nil_of_length_eq_zero (by omega)
      rw [hlater, List.append_nil, haccepted, hlogged.enqueued] at hperm
      exact hperm

theorem requests_of_reaches_postEvent :
    ∃ c log, run (recorded (App.step (fun _ => false) (fun _ _ _ => ⟨0, 0, 0⟩)) recordRequest)
        (fun _ _ => true) ({}, {}) (postEvent {} ++ [.pool (.wait 0)]) = some (c, log)
      ∧ c.pool.popped = [⟨.vendor, []⟩]
      ∧ c.pool.popped ++ c.pool.tasks = log.routed.filterMap (fun r => r.2.task) := by
  obtain ⟨⟨c, log⟩, hrun, hpopped⟩ : ∃ p : App × RequestLog,
      run (recorded (App.step (fun _ => false) (fun _ _ _ => ⟨0, 0, 0⟩)) recordRequest) (fun _ _ => true)
          ({}, {}) (postEvent {} ++ [.pool (.wait 0)]) = some p
        ∧ p.1.pool.popped = [⟨.vendor, []⟩] := ⟨_, rfl, rfl⟩
  have hreaches : Reaches (recorded (App.step (fun _ => false) (fun _ _ _ => ⟨0, 0, 0⟩)) recordRequest)
      (fun _ _ => True) ({}, {}) (c, log) :=
    (reaches_of_run hrun).weaken (fun _ _ _ => trivial)
  exact ⟨c, log, hrun, hpopped, (requests_of_reaches hreaches).2.2.1⟩

end NetOrc
