import NetOrc.OpenFlow.Staged

/-!
This module follows the frames of each connection to the event queue and its consumers. Between its call of
the handlers and its push of the event a worker may be overtaken by the workers of other connections.
-/

namespace Oflib

open Framing
open Transition

variable {σ : Type} {W : Nat}

/--
What an observer of a run writes down: the events that `wait_for_event` has handed out, to whichever
consumer, the frames that workers have carved off the buffers of their connections, and for each push the
connection that it is for.
-/
structure Delivery where
  popped : List Event := []
  carved : List Handled := []
  pushed : List Handled := []

def Delivery.valid (ep : OpenFlowEndpoint σ) (delivery : Delivery) : List Handled :=
  delivery.carved.filter (fun h => ep.runValidator h.frame.type h.frame)

def connectionFrames (id : Nat) (hs : List Handled) : List Frame :=
  (hs.filter (fun h => h.id = id)).map Handled.frame

def Staged.pushes (s : Staged σ W) (i : Fin W) : Option Handled :=
  match s.rounds i, s.serving i with
  | .push frame, some (_, e) => some ⟨e.id, e.conn.fd, frame⟩
  | _, _ => none

def recordDelivery (s : Staged σ W) (action : StagedAction W) (delivery : Delivery) : Delivery :=
  match action with
  | .server .waitForEvent => { delivery with popped := delivery.popped ++ s.server.events.take 1 }
  | .server (.handleClient i _) =>
    { delivery with carved := delivery.carved ++ (s.server.carves i).toList }
  | .carve i => { delivery with carved := delivery.carved ++ (s.server.carves i).toList }
  | .push i => { delivery with pushed := delivery.pushed ++ (s.pushes i).toList }
  | _ => delivery

theorem connectionFrames_concat (id : Nat) (hs : List Handled) (h : Handled) :
    connectionFrames id (hs ++ [h]) = connectionFrames id hs ++ if h.id = id then [h.frame] else [] := by
  unfold connectionFrames
  rw [List.filter_append, List.map_append, List.filter_singleton]
  by_cases hid : h.id = id <;> simp [hid]

theorem valid_append (ep : OpenFlowEndpoint σ) (delivery : Delivery) (o : Option Handled) :
    Delivery.valid ep { delivery with carved := delivery.carved ++ o.toList }
      =
    delivery.valid ep ++ o.toList.filter (fun h => ep.runValidator h.frame.type h.frame) :=
  List.filter_append _ _

namespace Staged

variable {ep : OpenFlowEndpoint σ} {regions : Regions σ} {s s' : Staged σ W}

/-! The steps of the server call no handler. -/

theorem carve_isSome {τ : Type} {dispatch : PacketType → HandlerFn τ} {i : Fin W} {fd : Int32} {e : Entry}
    {w : τ} {d : Dispatched} {r : HandlerResult τ} (hround : s.rounds i = .start)
    (hpc : s.server.workers i = .loop fd e.id) (hentry : s.server.connections.lookup fd = some e)
    (hstep : ep.ingestStep dispatch e.conn w = .dispatched d r) : (s.carve ep regions i).isSome := by
  rcases OpenFlowEndpoint.ingestStep_dispatched_congr rfl hstep noDispatch () with ⟨conn, _, hcarve⟩
  simp only [Staged.carve, hround, serving_eq_some.mpr ⟨hpc, hentry⟩, hcarve, Option.isSome_some]

theorem allows_handleClient {i : Fin W} {count : Nat} (h : s.allows ep regions (.handleClient i count)) :
    s.rounds i = .start ∧ s.carve ep regions i = none := by
  rcases Bool.and_eq_true_iff.mp h with ⟨hround, hcarve⟩
  refine ⟨?_, Option.isNone_iff_eq_none.mp hcarve⟩
  cases hpc : s.rounds i with
  | start => rfl
  | _ => rw [hpc] at hround; contradiction

theorem not_dispatched {i : Fin W} {count : Nat} (h : s.allows ep regions (.handleClient i count))
    {fd : Int32} {e : Entry} {d : Dispatched} {τ : Type} {dispatch : PacketType → HandlerFn τ} {w : τ}
    {r : HandlerResult τ} (hpc : s.server.workers i = .loop fd e.id)
    (hentry : s.server.connections.lookup fd = some e) :
    ep.ingestStep dispatch e.conn w ≠ .dispatched d r := by
  intro hstep
  rcases allows_handleClient h with ⟨hround, hcarve⟩
  have hsome : (s.carve ep regions i).isSome := carve_isSome hround hpc hentry hstep
  rw [hcarve] at hsome
  contradiction

theorem handled_server {action : Action W} {server : Server σ W} (hallows : s.allows ep regions action)
    (h : Server.Step ep s.server action server) :
    server.history.handled = s.server.history.handled := by
  cases h with
  | dispatched hpc hentry hstep => exact absurd hstep (not_dispatched hallows hpc hentry)
  | _ => rfl

theorem events_server {action : Action W} {server : Server σ W} (hallows : s.allows ep regions action)
    (h : Server.Step ep s.server action server) (hne : action ≠ .waitForEvent) :
    server.events = s.server.events := by
  cases h with
  | dispatched hpc hentry hstep => exact absurd hstep (not_dispatched hallows hpc hentry)
  | waitForEvent => contradiction
  | _ => rfl

theorem carves_of_frame {i : Fin W} {h : Handled} (hcarves : s.server.carves i = some h) :
    ∃ fd e rest, s.server.workers i = .loop fd e.id ∧ s.server.connections.lookup fd = some e
      ∧ framer.carve e.conn.inbuf = .frame h.frame rest := by
  unfold Server.carves at hcarves
  split at hcarves
  . next fd id hpc =>
    split at hcarves
    . next e he =>
      rcases Server.entry?_eq_some_iff.mp he with ⟨hentry, rfl⟩
      split at hcarves
      . next f rest hcarve =>
        cases hcarves
        exact ⟨fd, e, rest, hpc, hentry, hcarve⟩
      . contradiction
    . contradiction
  . contradiction

theorem valid_handleClient {i : Fin W} {count : Nat} (hallows : s.allows ep regions (.handleClient i count))
    (delivery : Delivery) :
    (recordDelivery s (.server (.handleClient i count)) delivery).valid ep = delivery.valid ep := by
  rw [recordDelivery, valid_append]
  cases hcarves : s.server.carves i with
  | none => simp
  | some h =>
    rcases carves_of_frame hcarves with ⟨fd, e, rest, hpc, hentry, hcarve⟩
    have hreject : ¬ep.runValidator h.frame.type h.frame := by
      intro hvalid
      obtain ⟨d, r, hstep⟩ : ∃ d r, ep.ingestStep noDispatch e.conn () = .dispatched d r :=
        ⟨_, _, by rw [OpenFlowEndpoint.ingestStep_eq, hcarve]; exact if_pos hvalid⟩
      exact not_dispatched hallows hpc hentry hstep
    simp [hreject]

theorem valid_server {action : Action W} (hallows : s.allows ep regions action) (delivery : Delivery) :
    (recordDelivery s (.server action) delivery).valid ep = delivery.valid ep := by
  cases action with
  | handleClient i count => exact valid_handleClient hallows delivery
  | _ => rfl

theorem valid_carve {i : Fin W} {fd : Int32} {e : Entry} {d : Dispatched} {r : HandlerResult Unit}
    (hpc : s.server.workers i = .loop fd e.id) (hentry : s.server.connections.lookup fd = some e)
    (hstep : ep.ingestStep noDispatch e.conn () = .dispatched d r) (delivery : Delivery) :
    (recordDelivery s (.carve i) delivery).valid ep
      =
    delivery.valid ep ++ [⟨e.id, e.conn.fd, d.frame⟩] := by
  rcases OpenFlowEndpoint.ingestStep_dispatched_eq hstep with ⟨rest, hcarve, haccept, _⟩
  rw [recordDelivery, valid_append, Server.carves_of_loop hpc hentry, hcarve]
  simp [haccept]

/-! The frames of a connection: those that were pushed, and the one that its worker has not pushed yet. -/

def Underway (s : Staged σ W) (id : Nat) (frame : Option Frame) : Prop :=
  (∃ i fd, s.server.workers i = .loop fd id ∧ (s.rounds i).frame = frame ∧ frame.isSome)
    ∨ ((∀ i fd, s.server.workers i = .loop fd id → (s.rounds i).frame = none) ∧ frame = none)

def Accounted (s : Staged σ W) (pushed : List Handled) : Prop :=
  ∀ id, ∃ frame, s.Underway id frame ∧ s.server.framesOf id = connectionFrames id pushed ++ frame.toList

structure Owning (s : Staged σ W) : Prop where
  live : s.server.Live
  load : ∀ fd, s.server.load fd ≤ 1
  numbered : s.server.Numbered
  rounds : ∀ i, (s.rounds i).frame ≠ none → ∃ fd id, s.server.workers i = .loop fd id

theorem Owning.eq_of_loop (hs : s.Owning) {i j : Fin W} {fd fd' : Int32} {id : Nat}
    (hi : s.server.workers i = .loop fd id) (hj : s.server.workers j = .loop fd' id) : j = i := by
  rcases hs.live i fd id (by rw [hi]; rfl) with ⟨e, hentry, hid⟩
  rcases hs.live j fd' id (by rw [hj]; rfl) with ⟨e', hentry', hid'⟩
  have hfd : fd' = fd := hs.numbered.fd_eq hentry hentry' (hid'.trans hid.symm)
  refine Server.eq_of_carried (hs.load fd) ?_ ?_
  . rw [hj, hfd]
    rfl
  . rw [hi]
    rfl

theorem Owning.underway_iff (hs : s.Owning) {i : Fin W} {fd : Int32} {id : Nat}
    (hpc : s.server.workers i = .loop fd id) (frame : Option Frame) :
    s.Underway id frame ↔ frame = (s.rounds i).frame := by
  unfold Underway
  constructor
  . rintro (⟨j, fd', hj, hframe, _⟩ | ⟨hnone, rfl⟩)
    . rw [← hframe, hs.eq_of_loop hpc hj]
    . exact (hnone i fd hpc).symm
  . rintro rfl
    cases hframe : (s.rounds i).frame with
    | some frame => exact .inl ⟨i, fd, hpc, hframe, rfl⟩
    | none =>
      right
      refine ⟨fun j fd' hj => ?_, rfl⟩
      rw [hs.eq_of_loop hpc hj, hframe]

theorem underway_update {i : Fin W} {fd : Int32} {id id' : Nat} {pc : RoundPc σ} {frame : Option Frame}
    (hpc : s.server.workers i = .loop fd id) (hid : id' ≠ id)
    (hworkers : s'.server.workers = s.server.workers)
    (hrounds : s'.rounds = Function.update s.rounds i pc) (h : s.Underway id' frame) :
    s'.Underway id' frame := by
  have hne : ∀ {j fd'}, s.server.workers j = .loop fd' id' → j ≠ i := by
    rintro j fd' hj rfl
    rw [hpc] at hj
    cases hj
    exact hid rfl
  unfold Underway
  rw [hworkers, hrounds]
  rcases h with ⟨j, fd', hj, hframe⟩ | ⟨hnone, rfl⟩
  . exact .inl ⟨j, fd', hj, by rwa [Function.update_of_ne (hne hj)]⟩
  . right
    refine ⟨fun j fd' hj => ?_, rfl⟩
    rw [Function.update_of_ne (hne hj)]
    exact hnone j fd' hj

theorem underway_server {action : Action W} {server : Server σ W}
    (hallows : s.allows ep regions action) (h : Server.Step ep s.server action server) {id : Nat}
    {frame : Option Frame} (hframe : s.Underway id frame) :
    ({ s with server := server } : Staged σ W).Underway id frame := by
  -- a worker inside of a round stays where it is
  have hround : ∀ j, (s.rounds j).frame ≠ none → server.workers j = s.server.workers j := by
    intro j hj
    apply h.workers_eq
    rintro count rfl
    rw [(allows_handleClient hallows).1] at hj
    contradiction
  rcases hframe with ⟨j, fd, hj, hframe, hsome⟩ | ⟨hnone, rfl⟩
  . left
    refine ⟨j, fd, ?_, hframe, hsome⟩
    dsimp only
    rw [hround j ?_, hj]
    rw [hframe]
    exact Option.isSome_iff_ne_none.mp hsome
  . right
    refine ⟨fun j fd hj => ?_, rfl⟩
    by_contra hne
    have hj : s.server.workers j = .loop fd id := (hround j hne).symm.trans hj
    exact hne (hnone j fd hj)

/-! What the steps of a round do. -/

theorem Owning.rounds_update (hs : s.Owning) {i : Fin W} {fd : Int32} {id : Nat} {pc : RoundPc σ}
    (hpc : s.server.workers i = .loop fd id) (j : Fin W)
    (hj : (Function.update s.rounds i pc j).frame ≠ none) : ∃ fd id, s.server.workers j = .loop fd id := by
  by_cases hji : j = i
  . exact ⟨fd, id, by rw [hji, hpc]⟩
  . rw [Function.update_of_ne hji] at hj
    exact hs.rounds j hj

theorem Owning.of_entry (hs : s.Owning) {i : Fin W} {fd : Int32} {e e' : Entry} {pc : RoundPc σ}
    (hpc : s.server.workers i = .loop fd e.id) (hentry : s.server.connections.lookup fd = some e)
    (hconnections : s'.server.connections = s.server.connections.insert fd e') (hid : e'.id = e.id)
    (hworkers : s'.server.workers = s.server.workers) (htasks : s'.server.tasks = s.server.tasks)
    (hacceptors : s'.server.acceptors = s.server.acceptors)
    (haccepted : s'.server.history.accepted = s.server.history.accepted)
    (hrounds : s'.rounds = Function.update s.rounds i pc) : s'.Owning where
  live := by
    intro j fd' id hholds
    rw [hworkers] at hholds
    rcases hs.live j fd' id hholds with ⟨e₁, hentry₁, hid₁⟩
    rw [hconnections]
    by_cases hfd : fd' = fd
    . subst hfd
      rw [hentry] at hentry₁
      cases hentry₁
      exact ⟨e', AList.lookup_insert _, hid.trans hid₁⟩
    . exact ⟨e₁, by rw [AList.lookup_insert_ne hfd, hentry₁], hid₁⟩
  load := by
    intro fd'
    unfold Server.load
    rw [hworkers, htasks, hacceptors]
    exact hs.load fd'
  numbered := by
    intro id
    rw [Server.owners_eq_of_entry hentry hconnections hacceptors hid id, haccepted]
    exact hs.numbered id
  rounds := by
    intro j hj
    rw [hworkers]
    rw [hrounds] at hj
    exact hs.rounds_update hpc j hj

theorem Owning.step {action : StagedAction W} (hs : s.Owning) (hguard : s.keepsOwnership action)
    (h : Step ep regions s action s') : s'.Owning := by
  cases h with
  | server hallows hserver =>
    have hstep := (Server.Step.of_step hserver).2
    refine ⟨hs.live.step hs.load hguard hstep, Server.load_le_one_step hs.load hguard hstep,
      hs.numbered.step hstep, fun j hj => ?_⟩
    rcases hs.rounds j hj with ⟨fd, id, hpc⟩
    refine ⟨fd, id, (hstep.workers_eq ?_).trans hpc⟩
    rintro count rfl
    rw [(allows_handleClient hallows).1] at hj
    contradiction
  | carve hround hpc hentry hstep => exact hs.of_entry hpc hentry rfl rfl rfl rfl rfl rfl rfl
  | returned hround hpc hentry => exact ⟨hs.live, hs.load, hs.numbered, hs.rounds_update hpc⟩
  | thrown hround hpc hentry => exact ⟨hs.live, hs.load, hs.numbered, hs.rounds⟩
  | region hround hpc hentry => exact hs.of_entry hpc hentry rfl rfl rfl rfl rfl rfl rfl
  | push hround hpc hentry => exact ⟨hs.live, hs.load, hs.numbered, hs.rounds_update hpc⟩

theorem Accounted.of_round {pushed pushed' : List Handled} (hs : s.Accounted pushed) (howning : s.Owning)
    (howning' : s'.Owning) {i : Fin W} {fd : Int32} {id : Nat} {pc : RoundPc σ}
    (hpc : s.server.workers i = .loop fd id) (hworkers : s'.server.workers = s.server.workers)
    (hrounds : s'.rounds = Function.update s.rounds i pc)
    (hother : ∀ id', id' ≠ id → s'.server.framesOf id' = s.server.framesOf id'
      ∧ connectionFrames id' pushed' = connectionFrames id' pushed)
    (hown : s.server.framesOf id = connectionFrames id pushed ++ (s.rounds i).frame.toList →
      s'.server.framesOf id = connectionFrames id pushed' ++ pc.frame.toList) : s'.Accounted pushed' := by
  intro id'
  rcases hs id' with ⟨frame, hunderway, hframes⟩
  by_cases hid : id' = id
  . subst hid
    rw [(howning.underway_iff hpc frame).mp hunderway] at hframes
    refine ⟨pc.frame, (howning'.underway_iff (by rw [hworkers, hpc]) _).mpr ?_, hown hframes⟩
    rw [hrounds, Function.update_self]
  . refine ⟨frame, underway_update hpc hid hworkers hrounds hunderway, ?_⟩
    rw [(hother id' hid).1, (hother id' hid).2, hframes]

theorem pushes_of_push {i : Fin W} {fd : Int32} {e : Entry} {frame : Frame}
    (hround : s.rounds i = .push frame)
    (hpc : s.server.workers i = .loop fd e.id) (hentry : s.server.connections.lookup fd = some e) :
    s.pushes i = some ⟨e.id, e.conn.fd, frame⟩ := by
  simp only [pushes, hround, serving_eq_some.mpr ⟨hpc, hentry⟩]

theorem Accounted.step {action : StagedAction W} {delivery : Delivery} (hs : s.Accounted delivery.pushed)
    (howning : s.Owning) (howning' : s'.Owning) (h : Step ep regions s action s') :
    s'.Accounted (recordDelivery s action delivery).pushed := by
  cases h with
  | @server action server hallows hserver =>
    have hstep := (Server.Step.of_step hserver).2
    have hpushed : (recordDelivery s (.server action) delivery).pushed = delivery.pushed := by
      cases action <;> rfl
    intro id
    rcases hs id with ⟨frame, hunderway, hframes⟩
    refine ⟨frame, underway_server hallows hstep hunderway, ?_⟩
    rw [hpushed, ← hframes]
    exact Server.framesOf_congr (handled_server hallows hstep) id
  | @carve i fd e d r hround hpc hentry hstep =>
    refine hs.of_round howning howning' hpc rfl rfl (fun id hid => ⟨?_, rfl⟩) (fun hframes => ?_)
    . refine (connectionFrames_concat id _ _).trans ?_
      rw [if_neg (Ne.symm hid), List.append_nil]
      rfl
    . refine (connectionFrames_concat e.id _ _).trans ?_
      rw [hround] at hframes
      rw [if_pos rfl]
      exact congrArg (· ++ [d.frame]) (hframes.trans (List.append_nil _))
  | returned hround hpc hentry =>
    refine hs.of_round howning howning' hpc rfl rfl (fun id hid => ⟨rfl, rfl⟩) (fun hframes => ?_)
    rw [hround] at hframes
    exact hframes
  | thrown hround hpc hentry => exact hs
  | region hround hpc hentry =>
    refine hs.of_round howning howning' hpc rfl rfl (fun id hid => ⟨rfl, rfl⟩) (fun hframes => ?_)
    rw [hround] at hframes
    exact hframes
  | push hround hpc hentry =>
    have hpushes := pushes_of_push hround hpc hentry
    refine hs.of_round howning howning' hpc rfl rfl (fun id hid => ⟨rfl, ?_⟩) (fun hframes => ?_)
    . rw [recordDelivery, hpushes, Option.toList_some, connectionFrames_concat, if_neg (Ne.symm hid),
        List.append_nil]
    . rw [hround] at hframes
      rw [recordDelivery, hpushes, Option.toList_some, connectionFrames_concat, if_pos rfl]
      exact hframes.trans (List.append_nil _).symm

def Queued (s : Staged σ W) (delivery : Delivery) : Prop :=
  (delivery.popped ++ s.server.events).map (fun event => (event.conn.fd, event.frame))
    = delivery.pushed.map (fun h => (h.fd, h.frame))

theorem Queued.step {action : StagedAction W} {delivery : Delivery} (hs : s.Queued delivery)
    (h : Step ep regions s action s') : s'.Queued (recordDelivery s action delivery) := by
  unfold Queued at hs ⊢
  cases h with
  | @server action server hallows hserver =>
    have hstep := (Server.Step.of_step hserver).2
    by_cases hpop : action = .waitForEvent
    . subst hpop
      cases hstep with
      | waitForEvent hevents =>
        rw [hevents] at hs
        dsimp only [recordDelivery]
        rw [hevents, List.append_assoc]
        exact hs
    . have hevents := events_server hallows hstep hpop
      have hdelivery : (recordDelivery s (.server action) delivery).popped = delivery.popped
          ∧ (recordDelivery s (.server action) delivery).pushed = delivery.pushed := by
        cases action with
        | waitForEvent => contradiction
        | _ => exact ⟨rfl, rfl⟩
      rw [hdelivery.1, hdelivery.2, hevents]
      exact hs
  | push hround hpc hentry =>
    dsimp only [recordDelivery]
    rw [pushes_of_push hround hpc hentry, Option.toList_some, ← List.append_assoc, List.map_append, hs,
      List.map_append]
    rfl
  | _ => exact hs

/-! The buffers, for handlers that leave them alone. -/

structure Buffered (ep : OpenFlowEndpoint σ) (s : Staged σ W) : Prop where
  delivers : s.server.Delivers ep
  runs : ∀ i frame run, s.rounds i = .handler frame run → run.KeepsBuffer

theorem runs_update {i : Fin W} {pc : RoundPc σ} (hs : s.Buffered ep)
    (hpc : ∀ frame run, pc = .handler frame run → run.KeepsBuffer) (j : Fin W) (frame : Frame)
    (run : HandlerRun σ) (hj : Function.update s.rounds i pc j = .handler frame run) : run.KeepsBuffer := by
  by_cases hji : j = i
  . rw [hji, Function.update_self] at hj
    exact hpc frame run hj
  . rw [Function.update_of_ne hji] at hj
    exact hs.runs j frame run hj

theorem dispatchRun_keepsBuffer (hkeep : ∀ handler frame, (regions handler frame).KeepsBuffer)
    (type : PacketType) (frame : Frame) : (ep.dispatchRun regions type frame).KeepsBuffer := by
  unfold OpenFlowEndpoint.dispatchRun
  split
  . trivial
  . exact hkeep _ _

theorem Buffered.step {action : StagedAction W} (hs : s.Buffered ep) (howning : s.Owning)
    (hkeep : ∀ handler frame, (regions handler frame).KeepsBuffer) (hguard : s.keepsOwnership action)
    (h : Step ep regions s action s') : s'.Buffered ep := by
  have hsame : ∀ {events crashed}, ({ s.server with events, crashed } : Server σ W).Delivers ep :=
    ⟨hs.delivers.tracks, hs.delivers.settled, hs.delivers.fresh, hs.delivers.reading⟩
  cases h with
  | server hallows hserver =>
    have hstep := (Server.Step.of_step hserver).2
    refine ⟨hs.delivers.step ?_ howning.load howning.numbered hguard hstep, hs.runs⟩
    rintro i count fd e d r rfl hpc hentry hdispatched
    exact absurd hdispatched (not_dispatched hallows hpc hentry)
  | @carve i fd e d r hround hpc hentry hstep =>
    constructor
    . have hinbuf := OpenFlowEndpoint.ingestStep_dispatched_inbuf noDispatch_keepsBuffer hstep
      exact hs.delivers.carved howning.load howning.numbered (fun _ h => h) hpc hentry hstep hinbuf rfl rfl
        rfl rfl
    . refine runs_update hs ?_
      rintro frame run ⟨⟩
      exact dispatchRun_keepsBuffer hkeep _ _
  | returned hround hpc hentry => exact ⟨hs.delivers, runs_update hs nofun⟩
  | thrown hround hpc hentry => exact ⟨hsame, hs.runs⟩
  | @region i fd e frame effect next hround hpc hentry =>
    have hrun := hs.runs i frame _ hround
    constructor
    . have hcarried : (s.server.workers i).carried = some fd := by rw [hpc]; rfl
      have hcarves := (hs.delivers.tracks fd e hentry).carves howning.load hcarried (by simp [hpc])
      refine hs.delivers.entry howning.load howning.numbered (fun _ h => h) hcarried hentry rfl rfl
        (Function.update_eq_self i _).symm (by simp [hpc]) (fun id _ => rfl) (fun id _ => rfl)
        (.inl ⟨?_, hcarves.2.1, .inr ⟨i, hpc⟩⟩)
      dsimp only
      rw [hrun.1]
      exact hcarves.1
    . refine runs_update hs ?_
      rintro frame run ⟨⟩
      exact hrun.2 _ _
  | push hround hpc hentry => exact ⟨hsame, runs_update hs nofun⟩

end Staged

structure Delivering (ep : OpenFlowEndpoint σ) (regions : Regions σ) (p : Staged σ W × Delivery) : Prop where
  owning : p.1.Owning
  handled : p.1.server.history.handled = p.2.valid ep
  accounted : p.1.Accounted p.2.pushed
  queued : p.1.Queued p.2
  buffered : (∀ handler frame, (regions handler frame).KeepsBuffer) → p.1.Buffered ep

theorem delivering_init (ep : OpenFlowEndpoint σ) (regions : Regions σ) (w : σ) :
    Delivering ep regions ({ server := { world := w } }, ({} : Delivery)) (W := W) where
  owning := by
    refine ⟨?_, ?_, Server.numbered_init w, fun i hi => absurd rfl hi⟩
    . simp [Server.Live, WorkerPc.holds]
    . simp [Server.load, threads, WorkerPc.carried]
  handled := rfl
  accounted id := ⟨none, .inr ⟨fun i fd hi => rfl, rfl⟩, rfl⟩
  queued := rfl
  buffered _ := ⟨Server.delivers_init ep w, fun i frame run hi => by contradiction⟩

theorem Delivering.step {ep : OpenFlowEndpoint σ} {regions : Regions σ} {p q : Staged σ W × Delivery}
    {action : StagedAction W} (hp : Delivering ep regions p) (hguard : p.1.keepsOwnership action)
    (h : recorded (Staged.step ep regions) recordDelivery p action = some q) : Delivering ep regions q := by
  rcases q with ⟨s', delivery'⟩
  rcases recorded_eq_some_iff.mp h with ⟨hnext, hrecord⟩
  have hstep := (Staged.Step.of_step hnext).2
  have howning := hp.owning.step hguard hstep
  refine ⟨howning, ?_, ?_, ?_, fun hkeep => (hp.buffered hkeep).step hp.owning hkeep hguard hstep⟩
  . rw [hrecord]
    cases hstep with
    | server hallows hserver =>
      rw [Staged.valid_server hallows, ← hp.handled]
      exact Staged.handled_server hallows (Server.Step.of_step hserver).2
    | carve hround hpc hentry hcarve =>
      rw [Staged.valid_carve hpc hentry hcarve, ← hp.handled]
    | _ => exact hp.handled
  . rw [hrecord]
    exact hp.accounted.step hp.owning howning hstep
  . rw [hrecord]
    exact hp.queued.step hstep

/--
On a server each of whose connections is served by one worker, the events handed out by `wait_for_event`,
followed by those still in the queue, are the pushes of the workers in their order. For each connection the
pushed frames are those that were carved and passed validation, in this order and whether or not they have a
handler, up to the last one while a worker still has it in its hands. For handlers that leave the buffers
alone they are the valid frames of the bytes of the connection, in wire order, up to those that a worker is
still working on.
-/
theorem events_of_reaches (ep : OpenFlowEndpoint σ) (regions : Regions σ) (w : σ) (s : Staged σ W)
    (delivery : Delivery)
    (h : Reaches (recorded (Staged.step ep regions) recordDelivery)
      (fun p action => p.1.keepsOwnership action) ({ server := { world := w } }, {}) (s, delivery)) :
    (delivery.popped ++ s.server.events).map (fun event => (event.conn.fd, event.frame))
        = delivery.pushed.map (fun h => (h.fd, h.frame))
      ∧ ∀ id,
        let frames := connectionFrames id delivery.pushed
        let valid := connectionFrames id (delivery.valid ep)
        (((∀ i fd, s.server.workers i = .loop fd id → (s.rounds i).frame = none) ∧ valid = frames)
            ∨ ∃ i fd frame, s.server.workers i = .loop fd id ∧ (s.rounds i).frame = some frame
              ∧ valid = frames ++ [frame])
          ∧ ((∀ handler frame, (regions handler frame).KeepsBuffer) →
            frames <+: s.server.validFrames ep id
              ∧ ((∀ i fd, s.server.workers i ≠ .loop fd id) → frames = s.server.validFrames ep id)) := by
  have hinv : Delivering ep regions (s, delivery) :=
    h.invariant (Delivering ep regions) (fun p action q hp hguard hstep => hp.step hguard hstep)
      (delivering_init ep regions w)
  refine ⟨hinv.queued, fun id => ?_⟩
  intro frames valid
  have hvalid : s.server.framesOf id = valid := congrArg (connectionFrames id) hinv.handled
  have hcases : ((∀ i fd, s.server.workers i = .loop fd id → (s.rounds i).frame = none) ∧ valid = frames)
      ∨ ∃ i fd frame, s.server.workers i = .loop fd id ∧ (s.rounds i).frame = some frame
        ∧ valid = frames ++ [frame] := by
    rcases hinv.accounted id with ⟨frame, hunderway, hframes⟩
    rw [hvalid] at hframes
    rcases hunderway with ⟨i, fd, hi, hframe, hsome⟩ | ⟨hnone, rfl⟩
    . rcases Option.isSome_iff_exists.mp hsome with ⟨frame, rfl⟩
      exact .inr ⟨i, fd, frame, hi, hframe, hframes⟩
    . exact .inl ⟨hnone, hframes.trans (List.append_nil _)⟩
  have hfirst : frames <+: s.server.framesOf id := by
    rw [hvalid]
    rcases hcases with ⟨_, hall⟩ | ⟨i, fd, frame, _, _, hlast⟩
    . rw [hall]
    . rw [hlast]
      exact List.prefix_append _ _
  have hall : (∀ i fd, s.server.workers i ≠ .loop fd id) → frames = s.server.framesOf id := by
    intro hloop
    rw [hvalid]
    rcases hcases with ⟨_, hall⟩ | ⟨i, fd, frame, hi, _⟩
    . exact hall.symm
    . exact absurd hi (hloop i fd)
  refine ⟨hcases, fun hkeep => ?_⟩
  have hdelivers := (hinv.buffered hkeep).delivers
  by_cases hfree : ∀ fd e, s.server.connections.lookup fd = some e → e.id ≠ id
  . have hsettled : s.server.framesOf id = _ := hdelivers.settled id hfree
    rw [← hsettled]
    exact ⟨hfirst, hall⟩
  . push Not at hfree
    rcases hfree with ⟨fd, e, hentry, rfl⟩
    have htracks := hdelivers.tracks fd e hentry
    refine ⟨hfirst.trans htracks.isPrefix, fun hloop => ?_⟩
    have hsettled : s.server.framesOf e.id = _ := htracks.settled (fun i => hloop i fd)
    rw [← hsettled]
    exact hall hloop

def counting : OpenFlowEndpoint Nat :=
  ({} : OpenFlowEndpoint Nat).on .hello ⟨fun conn _ w => ⟨conn, w + 1, none⟩, fun _ _ _ => Nat.le_refl _⟩

def countingRegions : Regions Nat :=
  fun _ _ => .region (fun conn w => (conn, w + 1)) (fun _ _ => .returns)

/--
Two switches, and a worker for each. The second one overtakes the first: its ECHO_REQUEST, which has no
handler, and its HELLO are pushed before the HELLO that the first worker has carved before them. A consumer
takes the first event meanwhile.
-/
def overtaken : List (StagedAction 2) :=
  let hello : Bytes := [0x01, 0x00, 0x00, 0x08, 0x00, 0x00, 0x00, 0x01]
  let echo : Bytes := [0x01, 0x02, 0x00, 0x08, 0x00, 0x00, 0x00, 0x02]
  let i : Fin 2 := ⟨0, Nat.two_pos⟩
  let j : Fin 2 := ⟨1, Nat.one_lt_two⟩
  ([.listen 0, .caller 0, .acceptLoop 0 0, .acceptLoop 0 5, .acceptLoop 0 0, .acceptLoop 0 0,
    .acceptLoop 0 0, .acceptLoop 0 7, .acceptLoop 0 0, .acceptLoop 0 0,
    .send 5 hello, .send 7 (echo ++ hello),
    .handleClient i 0, .handleClient i 0, .handleClient i 0, .handleClient i 8, .handleClient i 0,
    .handleClient j 0, .handleClient j 0, .handleClient j 0, .handleClient j 16,
    .handleClient j 0].map .server)
    ++ [.carve i, .carve j, .region j, .push j, .server .waitForEvent, .region i, .carve j, .region j,
      .region j, .push j, .region i, .push i, .server (.handleClient i 0), .server (.handleClient j 0)]

theorem events_of_reaches_overtaken :
    ∃ (s : Staged Nat 2) (delivery : Delivery),
      run (recorded (Staged.step counting countingRegions) recordDelivery)
          (fun p action => p.1.keepsOwnership action) ({ server := { world := 0 } }, {}) overtaken
          = some (s, delivery)
        ∧ delivery.carved.map (fun h => (h.fd, h.frame.type)) = [(5, .hello), (7, .echoRequest), (7, .hello)]
        ∧ delivery.pushed.map (fun h => (h.fd, h.frame.type)) = [(7, .echoRequest), (7, .hello), (5, .hello)]
        ∧ delivery.popped.length = 1 ∧ s.server.events.length = 2
        ∧ (delivery.popped ++ s.server.events).map (fun event => (event.conn.fd, event.frame))
          = delivery.pushed.map (fun h => (h.fd, h.frame))
        ∧ ∀ id, connectionFrames id delivery.pushed = s.server.validFrames counting id := by
  obtain ⟨⟨s, delivery⟩, hs, hstate⟩ : ∃ p : Staged Nat 2 × Delivery,
      run (recorded (Staged.step counting countingRegions) recordDelivery)
          (fun p action => p.1.keepsOwnership action) ({ server := { world := 0 } }, {}) overtaken = some p
        ∧ (p.2.carved.map (fun h => (h.fd, h.frame.type)) = [(5, .hello), (7, .echoRequest), (7, .hello)]
          ∧ p.2.pushed.map (fun h => (h.fd, h.frame.type)) = [(7, .echoRequest), (7, .hello), (5, .hello)]
          ∧ p.2.popped.length = 1 ∧ p.1.server.events.length = 2
          ∧ ∀ i, p.1.server.workers i = .top 5 ∨ p.1.server.workers i = .top 7 : Bool) :=
    (Option.any_eq_true _ _).mp (by decide +kernel)
  rcases of_decide_eq_true hstate with ⟨hcarved, hpushed, hpopped, hevents, hworkers⟩
  have hdelivery := events_of_reaches counting countingRegions 0 s delivery (reaches_of_run hs)
  refine ⟨s, delivery, hs, hcarved, hpushed, hpopped, hevents, hdelivery.1, fun id => ?_⟩
  have hvalid := (hdelivery.2 id).2 (fun handler frame => ⟨fun conn w => rfl, fun conn w => trivial⟩)
  exact hvalid.2 (fun i fd => Server.ne_loop_of_top hworkers i fd id)

end Oflib
