import NetOrc.Core.App
import NetOrc.OpenFlow.Wiring

/-!
This module shows that the southbound and the northbound half of the program do not interfere: what one
half does in a run, it does in the run without the steps of the other one.
-/

namespace NetOrc

open Oflib
open Transition

def AppAction.isSouth (action : AppAction) : Bool :=
  match action with
  | .southbound _ => true
  | _ => false

/--
The main thread belongs to both halves.
-/
def AppAction.isNorth (action : AppAction) : Bool :=
  match action with
  | .run _ => false
  | .southbound _ => false
  | _ => true

/--
The states agree on everything that the northbound clients can see, and on the threads that serve them.
-/
structure SameNorth (c d : App) : Prop where
  main : d.main = c.main
  http : d.http = c.http
  pool : d.pool = c.pool
  metrics : d.metrics = c.metrics
  observed : d.history.observed = c.history.observed
  answered : d.history.answered = c.history.answered

structure SameSouth (c d : App) : Prop where
  main : d.main = c.main
  server : d.server = c.server
  pushed : d.history.pushed = c.history.pushed

structure Untouched (c : App) : Prop where
  crashed : ¬c.server.crashed
  idle : c.main = .sbiInit → c.server.callers 0 = .idle ∧ c.server.joinable = false
  spawn : c.main = .listen → c.server.callers 0 = .spawn ∧ c.server.joinable = false

variable {insertFails : Nat → Bool} {junk : Connection → Frame → Services → Uninit} {c c' d : App}
  {action : AppAction}

theorem App.Step.step_eq (hcrashed : ¬c.server.crashed)
    (h : App.Step (sbiEndpoint (services insertFails) junk) c action c') :
    App.step insertFails junk c action = some c' := by
  unfold App.step
  rw [if_neg hcrashed]
  cases h with
  | bindFails hmain => simp [App.run, hmain]
  | listen hmain hserver => simp [App.run, hmain, hserver]
  | spawn hmain hserver => simp [App.run, hmain, hserver]
  | nbiInit hmain => simp [App.run, hmain]
  | southbound hsouth hserver => simp [App.southbound, hsouth, hserver]
  | receive hmain hpc => simp [App.receive, hmain, hpc]
  | reject hpc htype => simp [App.route, hpc, EventsRequest.handle, htype]
  | enqueue hpc htype hpool => simp [App.route, hpc, EventsRequest.handle, htype, hpool]
  | other hpc => simp [App.route, hpc]
  | notifyOne hpc hpool => simp [App.notifyOne, hpc, hpool]
  | postRouting hpc => simp [App.postRouting, hpc]
  | write hpc => simp [App.write, hpc]
  | pool hnorth hpool => simp [hnorth, hpool]

/-! Without the southbound steps. -/

theorem Untouched.of_later (hcrashed : ¬d.server.crashed) (hmain : d.main ≠ .sbiInit ∧ d.main ≠ .listen) :
    Untouched d :=
  ⟨hcrashed, fun h => absurd h hmain.1, fun h => absurd h hmain.2⟩

theorem Untouched.of_eq (h : Untouched d) {d' : App} (hmain : d'.main = d.main)
    (hserver : d'.server = d.server) : Untouched d' := by
  rcases h with ⟨hcrashed, hidle, hspawn⟩
  rw [← hserver] at hcrashed hidle hspawn
  rw [← hmain] at hidle hspawn
  exact ⟨hcrashed, hidle, hspawn⟩

theorem SameNorth.southbound (h : SameNorth c d) {action : AppAction} (hsouth : action.isSouth)
    (hstep : App.Step (sbiEndpoint (services insertFails) junk) c action c') : SameNorth c' d := by
  cases hstep with
  | southbound => exact ⟨h.main, h.http, h.pool, h.metrics, h.observed, h.answered⟩
  | _ => contradiction

theorem SameNorth.step (h : SameNorth c d) (hd : Untouched d) (hnorth : action.isSouth = false)
    (hstep : App.Step (sbiEndpoint (services insertFails) junk) c action c') :
    ∃ d', App.step insertFails junk d action = some d' ∧ SameNorth c' d' ∧ Untouched d' := by
  rcases h with ⟨hmain, hhttp, hpool, hmetrics, hobserved, hanswered⟩
  have hupdate : ∀ {k pc}, Function.update d.http k pc = Function.update c.http k pc := by
    rw [hhttp]
    exact rfl
  cases hstep with
  | bindFails hsbi =>
    refine ⟨_, App.Step.step_eq hd.crashed (.bindFails (hmain.trans hsbi)), ?_,
      .of_later hd.crashed (by simp)⟩
    exact ⟨rfl, hhttp, hpool, hmetrics, hobserved, hanswered⟩
  | listen hsbi hserver =>
    have hidle := hd.idle (hmain.trans hsbi)
    have hlisten : d.server.listen 0
        = some { d.server with running := true, callers := Function.update d.server.callers 0 .spawn } := by
      rw [Server.listen, hidle.1]
    refine ⟨_, App.Step.step_eq hd.crashed (.listen (hmain.trans hsbi) hlisten), ?_, hd.crashed,
      fun h => by contradiction, ?_⟩
    . exact ⟨rfl, hhttp, hpool, hmetrics, hobserved, hanswered⟩
    . intro _
      refine ⟨?_, hidle.2⟩
      dsimp only
      rw [Function.update_self]
  | spawn hlistening hserver =>
    have hspawn := hd.spawn (hmain.trans hlistening)
    have hcaller : d.server.caller 0
        = some { d.server with
            joinable := true
            acceptors := d.server.acceptors ++ [.check]
            callers := Function.update d.server.callers 0 .idle } := by
      simp [Server.caller, hspawn.1, hspawn.2]
    refine ⟨_, App.Step.step_eq hd.crashed (.spawn (hmain.trans hlistening) hcaller), ?_,
      .of_later hd.crashed (by simp)⟩
    exact ⟨rfl, hhttp, hpool, hmetrics, hobserved, hanswered⟩
  | nbiInit hnbi =>
    refine ⟨_, App.Step.step_eq hd.crashed (.nbiInit (hmain.trans hnbi)), ?_,
      .of_later hd.crashed (by simp)⟩
    exact ⟨rfl, hhttp, hpool, hmetrics, hobserved, hanswered⟩
  | southbound => contradiction
  | receive hsleeping hpc =>
    refine ⟨_, App.Step.step_eq hd.crashed (.receive (hmain.trans hsleeping) (by rw [hhttp, hpc])), ?_,
      hd.of_eq rfl rfl⟩
    exact ⟨hmain, hupdate, hpool, hmetrics, hobserved, hanswered⟩
  | reject hpc htype =>
    refine ⟨_, App.Step.step_eq hd.crashed (.reject (by rw [hhttp, hpc]) htype), ?_, hd.of_eq rfl rfl⟩
    exact ⟨hmain, hupdate, hpool, hmetrics, hobserved, hanswered⟩
  | enqueue hpc htype henqueue =>
    rw [← hpool] at henqueue
    refine ⟨_, App.Step.step_eq hd.crashed (.enqueue (by rw [hhttp, hpc]) htype henqueue), ?_,
      hd.of_eq rfl rfl⟩
    exact ⟨hmain, hupdate, rfl, hmetrics, hobserved, hanswered⟩
  | other hpc =>
    refine ⟨_, App.Step.step_eq hd.crashed (.other (by rw [hhttp, hpc])), ?_, hd.of_eq rfl rfl⟩
    exact ⟨hmain, hupdate, hpool, hmetrics, hobserved, hanswered⟩
  | notifyOne hpc hnotify =>
    rw [← hpool] at hnotify
    refine ⟨_, App.Step.step_eq hd.crashed (.notifyOne (by rw [hhttp, hpc]) hnotify), ?_,
      hd.of_eq rfl rfl⟩
    exact ⟨hmain, hupdate, rfl, hmetrics, hobserved, hanswered⟩
  | postRouting hpc =>
    refine ⟨_, App.Step.step_eq hd.crashed (.postRouting (by rw [hhttp, hpc])),
      ⟨hmain, hupdate, hpool, ?_, ?_, hanswered⟩, hd.of_eq rfl rfl⟩
    . dsimp only
      rw [hmetrics]
    . dsimp only
      rw [hobserved]
  | write hpc =>
    refine ⟨_, App.Step.step_eq hd.crashed (.write (by rw [hhttp, hpc])),
      ⟨hmain, hupdate, hpool, hmetrics, hobserved, ?_⟩, hd.of_eq rfl rfl⟩
    dsimp only
    rw [hanswered]
  | pool hnorthbound hwork =>
    rw [← hpool] at hwork
    refine ⟨_, App.Step.step_eq hd.crashed (.pool hnorthbound hwork), ?_, hd.of_eq rfl rfl⟩
    exact ⟨hmain, hhttp, rfl, hmetrics, hobserved, hanswered⟩

/-! Without the northbound steps. -/

theorem SameSouth.northbound (h : SameSouth c d) (hnorth : action.isNorth)
    (hstep : App.Step (sbiEndpoint (services insertFails) junk) c action c') : SameSouth c' d := by
  cases hstep with
  | bindFails => contradiction
  | listen => contradiction
  | spawn => contradiction
  | nbiInit => contradiction
  | southbound => contradiction
  | _ => exact ⟨h.main, h.server, h.pushed⟩

theorem SameSouth.step (h : SameSouth c d) (hcrashed : ¬c.server.crashed)
    (hsouth : action.isNorth = false)
    (hstep : App.Step (sbiEndpoint (services insertFails) junk) c action c') :
    ∃ d', App.step insertFails junk d action = some d' ∧ SameSouth c' d' := by
  rcases h with ⟨hmain, hserver, hpushed⟩
  rw [← hserver] at hcrashed
  cases hstep with
  | bindFails hsbi =>
    exact ⟨_, App.Step.step_eq hcrashed (.bindFails (hmain.trans hsbi)), rfl, hserver, hpushed⟩
  | listen hsbi hlisten =>
    rw [← hserver] at hlisten
    exact ⟨_, App.Step.step_eq hcrashed (.listen (hmain.trans hsbi) hlisten), rfl, rfl, hpushed⟩
  | spawn hlistening hcaller =>
    rw [← hserver] at hcaller
    exact ⟨_, App.Step.step_eq hcrashed (.spawn (hmain.trans hlistening) hcaller), rfl, rfl, hpushed⟩
  | nbiInit hnbi =>
    exact ⟨_, App.Step.step_eq hcrashed (.nbiInit (hmain.trans hnbi)), rfl, hserver, hpushed⟩
  | southbound hsouthbound hstep =>
    rw [← hserver] at hstep
    refine ⟨_, App.Step.step_eq hcrashed (.southbound hsouthbound hstep), hmain, rfl, ?_⟩
    dsimp only
    rw [hpushed, hserver]
  | _ => contradiction

theorem reaches_server (hcrashed : ¬c.server.crashed)
    (hstep : App.Step (sbiEndpoint (services insertFails) junk) c action c') :
    Reaches (Server.step (sbiEndpoint (services insertFails) junk)) (fun _ action => !action.isStop)
      c.server c'.server := by
  cases hstep with
  | listen _ hlisten =>
    refine Next.reaches (a := .listen 0) rfl ?_
    rw [Server.step, if_neg hcrashed]
    exact hlisten
  | spawn _ hcaller =>
    refine Next.reaches (a := .caller 0) rfl ?_
    rw [Server.step, if_neg hcrashed]
    exact hcaller
  | @southbound action server hsouth hserver =>
    refine Next.reaches (a := action) ?_ hserver
    cases action <;> first | rfl | contradiction
  | _ => exact .refl

/--
Whatever the switches do, the northbound clients get the same answers, counts and tasks as if there were
no switches, and whatever the clients do, the southbound half behaves as if there were no clients: it is
a run of the server on its own.
-/
theorem noninterference {actions : List AppAction}
    (h : run (App.step insertFails junk) (fun _ _ => true) {} actions = some c) :
    (∃ d, run (App.step insertFails junk) (fun _ _ => true) {} (actions.filter (fun a => !a.isSouth))
        = some d ∧ SameNorth c d)
      ∧ ∃ d, run (App.step insertFails junk) (fun _ _ => true) {} (actions.filter (fun a => !a.isNorth))
        = some d ∧ SameSouth c d
          ∧ Reaches (Server.step (sbiEndpoint (services insertFails) junk)) (fun _ action => !action.isStop)
            { world := {} } d.server := by
  constructor
  . have herase := run_erase (fun c d => SameNorth c d ∧ Untouched d) (fun a : AppAction => !a.isSouth)
      (fun c d a c' hcd ha hstep => ?_) (fun c d a c' hcd ha hstep => ?_) (t := {}) ?_ h
    . rcases herase with ⟨d, hd, hnorth, _⟩
      exact ⟨d, hd, hnorth⟩
    . rw [Bool.not_eq_false'] at ha
      exact ⟨hcd.1.southbound ha (App.Step.of_step hstep).2, hcd.2⟩
    . rw [Bool.not_eq_true'] at ha
      exact hcd.1.step hcd.2 ha (App.Step.of_step hstep).2
    . refine ⟨⟨rfl, rfl, rfl, rfl, rfl, rfl⟩, Bool.false_ne_true, fun _ => ⟨rfl, rfl⟩, ?_⟩
      intro h
      contradiction
  . have herase := run_erase SameSouth (fun a : AppAction => !a.isNorth)
      (fun c d a c' hcd ha hstep => ?_) (fun c d a c' hcd ha hstep => ?_) (t := {}) ⟨rfl, rfl, rfl⟩ h
    . rcases herase with ⟨d, hd, hsouth⟩
      refine ⟨d, hd, hsouth, ?_⟩
      refine (reaches_of_run hd).invariant (fun d => Reaches _ _ { world := {} } d.server) ?_ .refl
      intro d a d' hreaches _ hstep
      exact hreaches.trans (reaches_server (App.Step.of_step hstep).1 (App.Step.of_step hstep).2)
    . rw [Bool.not_eq_false'] at ha
      exact hcd.northbound ha (App.Step.of_step hstep).2
    . rw [Bool.not_eq_true'] at ha
      exact hcd.step (App.Step.of_step hstep).1 ha (App.Step.of_step hstep).2

def bothPlanes : List AppAction :=
  [.run true, .run true, .run true, .southbound (.acceptLoop 0 5), .receive 0 (.events {}),
    .southbound (.acceptLoop 0 5), .route 0]

theorem noninterference_bothPlanes :
    ∃ c, run (App.step (fun _ => false) (fun _ _ _ => ⟨0, 0, 0⟩)) (fun _ _ => true) {} bothPlanes = some c
      ∧ c.pool.tasks = [⟨.vendor, []⟩]
      ∧ ∃ d, run (App.step (fun _ => false) (fun _ _ _ => ⟨0, 0, 0⟩)) (fun _ _ => true) {}
        (bothPlanes.filter (fun a => !a.isSouth)) = some d ∧ SameNorth c d := by
  obtain ⟨c, hrun, htasks⟩ : ∃ c, run (App.step (fun _ => false) (fun _ _ _ => ⟨0, 0, 0⟩)) (fun _ _ => true)
      {} bothPlanes = some c ∧ c.pool.tasks = [⟨.vendor, []⟩] := ⟨_, rfl, rfl⟩
  exact ⟨c, hrun, htasks, (noninterference hrun).1⟩

end NetOrc
