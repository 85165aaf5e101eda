import Mathlib.Data.Fintype.Option
import NetOrc.Core.TaskQueueHistory
import NetOrc.OpenFlow.Tracks

/-!
This module connects the event queue of the server, where a push and a pop are one step each, with the
task queue that holds the events.
-/

namespace Oflib

open Fifo
open NetOrc
open Transition

variable {σ : Type} {W : Nat}

/--
The operations on the event queue that belong to a step, with the worker that pushes, or none for the
consumers.
-/
def Server.queueOps (ep : OpenFlowEndpoint σ) (s : Server σ W) (action : Action W) :
    List (Option (Fin W) × Op Event) :=
  match action with
  | .waitForEvent => (s.events.take 1).map (fun event => (none, .pop event))
  | .handleClient i _ =>
    match s.step ep action with
    | some s' => (s'.events.drop s.events.length).map (fun event => (some i, .push event))
    | none => []
  | _ => []

def recordQueue (ep : OpenFlowEndpoint σ) (s : Server σ W) (action : Action W)
    (log : List (Option (Fin W) × Op Event)) : List (Option (Fin W) × Op Event) :=
  log ++ s.queueOps ep action

namespace Server

variable {ep : OpenFlowEndpoint σ} {s s' : Server σ W}

theorem Step.events_handleClient {i : Fin W} {count : Nat} (h : Step ep s (.handleClient i count) s') :
    ∃ events, s'.events = s.events ++ events := by
  cases h with
  | @dispatched i count fd e d r hpc hentry hstep =>
    rcases OpenFlowEndpoint.ingestStep_dispatched_eq hstep with ⟨rest, _, _, _, rfl⟩
    unfold serverDispatch
    dsimp only
    split
    . exact ⟨[], (List.append_nil _).symm⟩
    . exact ⟨_, rfl⟩
  | _ => exact ⟨[], (List.append_nil _).symm⟩

theorem run_queueOps {action : Action W} (hstep : s.step ep action = some s') :
    Fifo.Run s.events ((s.queueOps ep action).map Prod.snd) s'.events := by
  have h := (Step.of_step hstep).2
  cases action with
  | handleClient i count =>
    rcases h.events_handleClient with ⟨events, hevents⟩
    unfold queueOps
    rw [hstep]
    dsimp only
    rw [hevents, List.drop_left, List.map_map]
    exact run_pushes s.events events
  | waitForEvent =>
    cases h with
    | @waitForEvent event events hevents =>
      unfold queueOps
      rw [hevents]
      exact (Run.nil.snoc .pop :)
  | _ => cases h <;> exact .nil

end Server

/--
On every run of the server the operations on the event queue, as single steps, are those of a task queue
whose threads are the workers and the consumers: it has a run with the same operations in the same order,
by the same threads, which leaves the same events.
-/
theorem taskQueue_of_reaches (ep : OpenFlowEndpoint σ) (w : σ) (s : Server σ W)
    (log : List (Option (Fin W) × Op Event))
    (h : Reaches (recorded (Server.step ep) (recordQueue ep)) (fun _ _ => True)
      ({ world := w }, []) (s, log)) :
    ∃ q : Locked (Option (Fin W)) (TaskQueue (Option (Fin W)) Event) (QueueThread Event),
      Reaches TaskQueue.step (fun _ _ => True) TaskQueue.init q ∧ q.owner = none
        ∧ q.shared = ⟨s.events, log⟩ := by
  apply (TaskQueue.log_iff log s.events).mpr
  refine h.invariant (fun p => Fifo.Run [] (p.2.map Prod.snd) p.1.events) ?_ .nil
  intro p action q hp _ hstep
  rcases recorded_eq_some_iff.mp hstep with ⟨hserver, hlog⟩
  rw [hlog, recordQueue, List.map_append]
  exact hp.trans (Server.run_queueOps hserver)

def twoEvents : List (Action 1) :=
  serveFirst ++ [.send 5 [0x01, 0x00, 0x00, 0x08, 0x00, 0x00, 0x00, 0x01, 0x01, 0x00, 0x00, 0x08, 0x00,
    0x00, 0x00, 0x02], .handleClient 0 16, .handleClient 0 0, .handleClient 0 0, .waitForEvent,
    .handleClient 0 0, .handleClient 0 0]

theorem taskQueue_of_reaches_twoEvents :
    ∃ (s : Server Unit 1) (log : List (Option (Fin 1) × Op Event)),
      run (recorded (Server.step {}) (recordQueue {})) (fun _ _ => true) ({ world := () }, []) twoEvents
          = some (s, log)
        ∧ log.map Prod.fst = [some 0, none, some 0]
        ∧ ∃ q : Locked (Option (Fin 1)) (TaskQueue (Option (Fin 1)) Event) (QueueThread Event),
          Reaches TaskQueue.step (fun _ _ => True) TaskQueue.init q ∧ q.owner = none
            ∧ q.shared = ⟨s.events, log⟩ := by
  obtain ⟨⟨s, log⟩, hs, hthreads⟩ : ∃ p : Server Unit 1 × List (Option (Fin 1) × Op Event),
      run (recorded (Server.step {}) (recordQueue {})) (fun _ _ => true) ({ world := () }, []) twoEvents
          = some p
        ∧ p.2.map Prod.fst = [some 0, none, some 0] :=
    ⟨_, rfl, by decide +kernel⟩
  have hreaches : Reaches (recorded (Server.step {}) (recordQueue {})) (fun _ _ => True)
      ({ world := () }, []) (s, log) :=
    (reaches_of_run hs).weaken (fun _ _ _ => trivial)
  exact ⟨s, log, hs, hthreads, taskQueue_of_reaches {} () s log hreaches⟩

end Oflib
