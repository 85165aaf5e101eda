import NetOrc.OpenFlow.Conservation
import NetOrc.OpenFlow.Owners

/-!
This module follows the frames of a connection from the bytes that its worker reads to the calls of
`dispatch`.
-/

namespace Oflib

open Framing
open Transition

variable {σ : Type} {W : Nat}

def Server.carves (s : Server σ W) (i : Fin W) : Option Handled :=
  match s.workers i with
  | .loop fd id =>
    match s.entry? fd id with
    | some e =>
      match framer.carve e.conn.inbuf with
      | .frame f _ => some ⟨id, e.conn.fd, f⟩
      | _ => none
    | none => none
  | _ => none

theorem serverDispatch_of_fault {ep : OpenFlowEndpoint σ} {type : PacketType} {conn : Connection}
    {frame : Frame} {w : σ} {fault : Fault} (events : List Event)
    (h : ((ep.dispatch type).call conn frame w).fault = some fault) :
    (serverDispatch ep type).call conn frame (w, events)
      =
    ⟨((ep.dispatch type).call conn frame w).conn, (((ep.dispatch type).call conn frame w).world, events),
      some fault⟩ := by
  simp only [serverDispatch, h]

theorem serverDispatch_of_returns {ep : OpenFlowEndpoint σ} {type : PacketType} {conn : Connection}
    {frame : Frame} {w : σ} (events : List Event)
    (h : ((ep.dispatch type).call conn frame w).fault = none) :
    (serverDispatch ep type).call conn frame (w, events)
      =
    ⟨((ep.dispatch type).call conn frame w).conn,
      (((ep.dispatch type).call conn frame w).world,
        events ++ [⟨((ep.dispatch type).call conn frame w).conn, frame⟩]), none⟩ := by
  simp only [serverDispatch, h]

theorem serverDispatch_events (ep : OpenFlowEndpoint σ) (type : PacketType) (conn : Connection)
    (frame : Frame) (w : σ × List Event)
    (hfault : ((serverDispatch ep type).call conn frame w).fault = none) :
    ((serverDispatch ep type).call conn frame w).world.2
      =
    w.2 ++ [⟨((serverDispatch ep type).call conn frame w).conn, frame⟩] := by
  unfold serverDispatch at hfault ⊢
  dsimp only at hfault ⊢
  split at hfault
  . contradiction
  . rfl

theorem serverDispatch_keepsBuffer {ep : OpenFlowEndpoint σ} (h : KeepsBuffer ep.dispatch) :
    KeepsBuffer (serverDispatch ep) := by
  intro type conn frame w
  unfold serverDispatch
  dsimp only
  split
  all_goals exact h type conn frame w.1

namespace Server

theorem carves_of_loop {s : Server σ W} {i : Fin W} {fd : Int32} {e : Entry}
    (hpc : s.workers i = .loop fd e.id) (hentry : s.connections.lookup fd = some e) :
    s.carves i
      =
    match framer.carve e.conn.inbuf with
    | .frame f _ => some ⟨e.id, e.conn.fd, f⟩
    | _ => none := by
  simp only [carves, hpc, entry?_of_lookup hentry]

theorem carves_of_ne {s : Server σ W} {i : Fin W} (hpc : ∀ fd id, s.workers i ≠ .loop fd id) :
    s.carves i = none := by
  unfold carves
  split
  . next fd id hloop => exact absurd hloop (hpc fd id)
  . rfl

theorem ne_loop_of_top {s : Server σ W} {fd fd' : Int32}
    (hworkers : ∀ i, s.workers i = .top fd ∨ s.workers i = .top fd') (i : Fin W) (fd'' : Int32) (id : Nat) :
    s.workers i ≠ .loop fd'' id := by
  intro hi
  rcases hworkers i with hpc | hpc
  all_goals
    rw [hpc] at hi
    contradiction

/-! The frames of one connection. -/

def framesOf (s : Server σ W) (id : Nat) : List Frame :=
  (s.history.handled.filter (fun h => h.id = id)).map Handled.frame

/--
The frames that pass validation, of those that are complete in the bytes of a connection.
-/
def validFrames (ep : OpenFlowEndpoint σ) (s : Server σ W) (id : Nat) : List Frame :=
  (framer.split (s.history.passed id)).1.takeWhile (fun f => ep.runValidator f.type f)

def Settled (ep : OpenFlowEndpoint σ) (s : Server σ W) (id : Nat) : Prop :=
  s.framesOf id = s.validFrames ep id

/--
The entry of a connection: its bytes have been carved into the handled frames and the buffer, and the
framer waits for more of them unless a worker is inside of the loop, or `ingest` has returned `false` and
a worker is about to close the connection.
-/
def Tracks (ep : OpenFlowEndpoint σ) (s : Server σ W) (fd : Int32) (e : Entry) : Prop :=
  (framer.Carves (s.history.passed e.id) (s.framesOf e.id) e.conn.inbuf
      ∧ (∀ f ∈ s.framesOf e.id, ep.runValidator f.type f)
      ∧ (framer.carve e.conn.inbuf = .more ∨ ∃ i, s.workers i = .loop fd e.id))
    ∨ (s.Settled ep e.id ∧ ∃ i, s.workers i = .close fd e.id)

variable {ep : OpenFlowEndpoint σ} {s s' : Server σ W}

theorem framesOf_congr (h : s'.history.handled = s.history.handled) (id : Nat) :
    s'.framesOf id = s.framesOf id := by
  unfold framesOf
  rw [h]

theorem validFrames_of_carves {id : Nat} {fs : List Frame} {r : Bytes}
    (hcarves : framer.Carves (s.history.passed id) fs r)
    (hvalid : ∀ f ∈ fs, ep.runValidator f.type f) :
    s.validFrames ep id
      =
    fs ++ (framer.split r).1.takeWhile (fun f => ep.runValidator f.type f) := by
  unfold validFrames
  rw [hcarves.split, List.takeWhile_append_of_pos hvalid]

theorem settled_of_nil {id : Nat} (hpassed : s.history.passed id = []) (hframes : s.framesOf id = []) :
    s.Settled ep id := by
  unfold Settled validFrames
  rw [hpassed, hframes, Decoder.split_of_more framer_carve_nil]
  rfl

theorem Tracks.isPrefix {fd : Int32} {e : Entry} (h : s.Tracks ep fd e) :
    s.framesOf e.id <+: s.validFrames ep e.id := by
  rcases h with ⟨hcarves, hvalid, _⟩ | ⟨hsettled, _⟩
  . rw [validFrames_of_carves hcarves hvalid]
    exact List.prefix_append _ _
  . rw [hsettled]

theorem Tracks.settled {fd : Int32} {e : Entry} (h : s.Tracks ep fd e)
    (hloop : ∀ i, s.workers i ≠ .loop fd e.id) : s.Settled ep e.id := by
  rcases h with ⟨hcarves, hvalid, hmore | ⟨i, hi⟩⟩ | ⟨hsettled, _⟩
  . unfold Settled
    rw [validFrames_of_carves hcarves hvalid, Decoder.split_of_more hmore]
    simp
  . exact absurd hi (hloop i)
  . exact hsettled

theorem Tracks.congr {fd : Int32} {e : Entry} (h : s.Tracks ep fd e)
    (hpassed : s'.history.passed e.id = s.history.passed e.id)
    (hframes : s'.framesOf e.id = s.framesOf e.id)
    (hworkers : ∀ i, s.workers i = .loop fd e.id ∨ s.workers i = .close fd e.id →
      s'.workers i = s.workers i) : s'.Tracks ep fd e := by
  unfold Tracks Settled validFrames
  rw [hpassed, hframes]
  rcases h with ⟨hcarves, hvalid, hmore | ⟨i, hi⟩⟩ | ⟨hsettled, i, hi⟩
  . exact .inl ⟨hcarves, hvalid, .inl hmore⟩
  . exact .inl ⟨hcarves, hvalid, .inr ⟨i, (hworkers i (.inl hi)).trans hi⟩⟩
  . exact .inr ⟨hsettled, i, (hworkers i (.inr hi)).trans hi⟩

theorem update_of_carried_ne {i j : Fin W} {fd fd' : Int32} {id : Nat} {pc : WorkerPc}
    (hcarried : (s.workers i).carried = some fd) (hfd : fd' ≠ fd)
    (hj : s.workers j = .loop fd' id ∨ s.workers j = .close fd' id) :
    Function.update s.workers i pc j = s.workers j := by
  have hji : j ≠ i := by
    rintro rfl
    have hcarried' : (s.workers j).carried = some fd' :=
      hj.elim (congrArg WorkerPc.carried) (congrArg WorkerPc.carried)
    exact hfd (Option.some.inj (hcarried'.symm.trans hcarried))
  exact Function.update_of_ne hji _ _

/--
What holds of every connection: the bytes of one with an entry are accounted for, one without is settled,
and nothing has happened on one that is not in `connections_` yet. A worker only calls `ingest` with
bytes, on an open connection.
-/
structure Delivers (ep : OpenFlowEndpoint σ) (s : Server σ W) : Prop where
  tracks : ∀ fd e, s.connections.lookup fd = some e → s.Tracks ep fd e
  settled : ∀ id, (∀ fd e, s.connections.lookup fd = some e → e.id ≠ id) → s.Settled ep id
  fresh : ∀ id, s.Fresh id → s.history.passed id = [] ∧ s.framesOf id = []
  reading : ∀ i fd id data e, s.workers i = .ingest fd id data → s.connections.lookup fd = some e →
    ¬(data.length = 0 ∨ e.conn.fd < 0)

theorem delivers_init (ep : OpenFlowEndpoint σ) (w : σ) :
    ({ world := w } : Server σ W).Delivers ep := by
  constructor
  . intro fd e hentry
    contradiction
  . intro id _
    exact settled_of_nil rfl rfl
  . intro id _
    exact ⟨rfl, rfl⟩
  . intro i fd id data e hpc
    contradiction

theorem Delivers.frame {action : Action W} (hs : s.Delivers ep) (h : Step ep s action s')
    (hconnections : s'.connections = s.connections) (hpassed : s'.history.passed = s.history.passed)
    (hhandled : s'.history.handled = s.history.handled)
    (hworkers : ∀ i fd id, s.workers i = .loop fd id ∨ s.workers i = .close fd id →
      s'.workers i = s.workers i)
    (hreading : ∀ i fd id data, s'.workers i = .ingest fd id data →
      s.workers i = .ingest fd id data
        ∨ ∀ e, s.connections.lookup fd = some e → ¬(data.length = 0 ∨ e.conn.fd < 0)) :
    s'.Delivers ep := by
  have hframes := framesOf_congr hhandled
  constructor
  . intro fd e hentry
    rw [hconnections] at hentry
    exact (hs.tracks fd e hentry).congr (by rw [hpassed]) (hframes e.id)
      (fun i hi => hworkers i fd e.id hi)
  . intro id hfree
    rw [hconnections] at hfree
    unfold Settled validFrames
    rw [hframes, hpassed]
    exact hs.settled id hfree
  . intro id hid
    rw [hpassed, hframes]
    exact hs.fresh id (h.fresh hid)
  . intro i fd id data e hpc hentry
    rw [hconnections] at hentry
    cases hreading i fd id data hpc with
    | inl hold => exact hs.reading i fd id data e hold hentry
    | inr hnew => exact hnew e hentry

theorem Delivers.entry (hs : s.Delivers ep) (hload : ∀ fd, s.load fd ≤ 1)
    (hnumbered : s.Numbered) (hold : ∀ id, s'.Fresh id → s.Fresh id) {i : Fin W} {fd : Int32} {e e' : Entry}
    {pc : WorkerPc} (hcarried : (s.workers i).carried = some fd)
    (hentry : s.connections.lookup fd = some e)
    (hconnections : s'.connections = s.connections.insert fd e') (hid : e'.id = e.id)
    (hworkers : s'.workers = Function.update s.workers i pc)
    (hpc : ∀ fd id data, pc ≠ .ingest fd id data)
    (hpassed : ∀ id, id ≠ e.id → s'.history.passed id = s.history.passed id)
    (hframes : ∀ id, id ≠ e.id → s'.framesOf id = s.framesOf id) (htracks : s'.Tracks ep fd e') :
    s'.Delivers ep := by
  constructor
  . intro fd' e'' hentry'
    rw [hconnections] at hentry'
    by_cases hfd : fd' = fd
    . subst hfd
      rw [AList.lookup_insert] at hentry'
      cases hentry'
      exact htracks
    . -- The worker of another entry is not `i`, which runs the task of `fd`.
      rw [AList.lookup_insert_ne hfd] at hentry'
      have hne : e''.id ≠ e.id := fun heq => hfd (hnumbered.fd_eq hentry hentry' heq)
      apply (hs.tracks fd' e'' hentry').congr (hpassed _ hne) (hframes _ hne)
      intro j hj
      rw [hworkers]
      exact update_of_carried_ne hcarried hfd hj
  . intro id hfree
    have hne : id ≠ e.id := by
      rintro rfl
      exact hfree fd e' (by rw [hconnections, AList.lookup_insert]) hid
    unfold Settled validFrames
    rw [hframes id hne, hpassed id hne]
    apply hs.settled id
    intro fd' e'' hentry'
    by_cases hfd : fd' = fd
    . subst hfd
      rw [hentry] at hentry'
      cases hentry'
      exact Ne.symm hne
    . exact hfree fd' e'' (by rw [hconnections, AList.lookup_insert_ne hfd]; exact hentry')
  . intro id hfresh
    have hfresh := hold id hfresh
    have hne : id ≠ e.id := by
      rintro rfl
      exact hnumbered.not_fresh hentry hfresh
    rw [hpassed id hne, hframes id hne]
    exact hs.fresh id hfresh
  . intro j fd' id data e'' hj hentry'
    by_cases hji : j = i
    . rw [hworkers, hji, Function.update_self] at hj
      exact absurd hj (hpc fd' id data)
    . rw [hworkers, Function.update_of_ne hji] at hj
      have hfd : fd' ≠ fd := by
        rintro rfl
        exact hji (eq_of_carried (hload fd') (congrArg WorkerPc.carried hj) hcarried)
      rw [hconnections, AList.lookup_insert_ne hfd] at hentry'
      exact hs.reading j fd' id data e'' hj hentry'

theorem Delivers.replaced {action : Action W} (hs : s.Delivers ep) (h : Step ep s action s')
    (hpassed : s'.history.passed = s.history.passed)
    (hhandled : s'.history.handled = s.history.handled)
    (hold : ∀ fd e, s.connections.lookup fd = some e →
      s'.connections.lookup fd = some e ∨ s.Settled ep e.id)
    (hnew : ∀ fd e, s'.connections.lookup fd = some e → s'.Tracks ep fd e)
    (hreading : ∀ i fd id data e, s'.workers i = .ingest fd id data →
      s'.connections.lookup fd = some e →
        s.workers i = .ingest fd id data ∧ s.connections.lookup fd = some e) :
    s'.Delivers ep := by
  have hframes := framesOf_congr hhandled
  constructor
  . exact hnew
  . intro id hfree
    unfold Settled validFrames
    rw [hframes, hpassed]
    by_cases hfree' : ∀ fd e, s.connections.lookup fd = some e → e.id ≠ id
    . exact hs.settled id hfree'
    . push Not at hfree'
      rcases hfree' with ⟨fd, e, hentry, rfl⟩
      cases hold fd e hentry with
      | inl hstill => exact absurd rfl (hfree fd e hstill)
      | inr hsettled => exact hsettled
  . intro id hid
    rw [hpassed, hframes]
    exact hs.fresh id (h.fresh hid)
  . intro i fd id data e hpc hentry
    rcases hreading i fd id data e hpc hentry with ⟨hpc, hentry⟩
    exact hs.reading i fd id data e hpc hentry

theorem workers_update {i : Fin W} (hpc : ∀ fd id, s.workers i ≠ .loop fd id ∧ s.workers i ≠ .close fd id)
    (pc : WorkerPc) (j : Fin W) (fd : Int32) (id : Nat)
    (hj : s.workers j = .loop fd id ∨ s.workers j = .close fd id) :
    Function.update s.workers i pc j = s.workers j := by
  have hne : j ≠ i := by
    rintro rfl
    exact hj.elim (hpc fd id).1 (hpc fd id).2
  exact Function.update_of_ne hne _ _

theorem reading_update {i : Fin W} {pc : WorkerPc} (hpc : ∀ fd id data, pc ≠ .ingest fd id data)
    (j : Fin W) (fd : Int32) (id : Nat) (data : Bytes)
    (hj : Function.update s.workers i pc j = .ingest fd id data) :
    s.workers j = .ingest fd id data
      ∨ ∀ e, s.connections.lookup fd = some e → ¬(data.length = 0 ∨ e.conn.fd < 0) := by
  left
  by_cases heq : j = i
  . rw [heq, Function.update_self] at hj
    exact absurd hj (hpc fd id data)
  . rw [Function.update_of_ne heq] at hj
    exact hj

theorem Tracks.carves {fd : Int32} {e : Entry} (h : s.Tracks ep fd e) (hload : ∀ fd, s.load fd ≤ 1)
    {i : Fin W} (hcarried : (s.workers i).carried = some fd) (hpc : s.workers i ≠ .close fd e.id) :
    framer.Carves (s.history.passed e.id) (s.framesOf e.id) e.conn.inbuf
      ∧ (∀ f ∈ s.framesOf e.id, ep.runValidator f.type f)
      ∧ (s.workers i ≠ .loop fd e.id → framer.carve e.conn.inbuf = .more) := by
  rcases h with ⟨hcarves, hvalid, hloop⟩ | ⟨_, j, hj⟩
  . refine ⟨hcarves, hvalid, fun hpc' => ?_⟩
    rcases hloop with hmore | ⟨j, hj⟩
    . exact hmore
    . cases eq_of_carried (hload fd) (congrArg WorkerPc.carried hj) hcarried
      contradiction
  . cases eq_of_carried (hload fd) (congrArg WorkerPc.carried hj) hcarried
    contradiction

theorem settled_of_rejected {e : Entry} {w : σ × List Event} {conn : Connection}
    (hcarves : framer.Carves (s.history.passed e.id) (s.framesOf e.id) e.conn.inbuf)
    (hvalid : ∀ f ∈ s.framesOf e.id, ep.runValidator f.type f)
    (hstep : ep.ingestStep (serverDispatch ep) e.conn w = .ret false conn) : s.Settled ep e.id := by
  unfold Settled
  rw [validFrames_of_carves hcarves hvalid]
  rcases OpenFlowEndpoint.ingestStep_ret_cases hstep with ⟨_, h, _⟩ | ⟨hcarve, _, _⟩
    | ⟨f, rest, hcarve, hreject, _, _⟩
  . contradiction
  . rw [Decoder.split_of_bad hcarve]
    simp
  . rw [Decoder.split_of_frame hcarve]
    simp [hreject]

/-! What single steps do. -/

theorem Delivers.swept {t : Nat} (hs : s.Delivers ep) (h : Step ep s (.caller t) s')
    (hnone : ∀ i, (s.workers i).holds = none) (hconnections : s'.connections = ∅)
    (hhistory : s'.history = s.history) : s'.Delivers ep := by
  refine hs.replaced h (by rw [hhistory]) (by rw [hhistory]) (fun fd e hentry => .inr ?_)
    (fun fd e hentry => ?_) (fun i fd id data e _ hentry => ?_)
  . apply (hs.tracks fd e hentry).settled
    intro i hi
    have hholds := hnone i
    rw [hi] at hholds
    contradiction
  . rw [hconnections] at hentry
    contradiction
  . rw [hconnections] at hentry
    contradiction

theorem Delivers.inserted {a : Nat} {result fd : Int32} {id : Nat} (hs : s.Delivers ep)
    (h : Step ep s (.acceptLoop a result) s') (hpc : s.acceptors[a]? = some (.insert fd id))
    (hload : s.load fd = 0) (hconnections : s'.connections = s.connections.insert fd ⟨id, { fd := fd }⟩)
    (hworkers : s'.workers = s.workers) (hhistory : s'.history = s.history) : s'.Delivers ep := by
  have hidle : ∀ i, (s.workers i).carried ≠ some fd := by
    intro i hcarried
    have hpos := load_pos_of_carried hcarried
    omega
  have hframes := framesOf_congr (congrArg History.handled hhistory)
  refine hs.replaced h (by rw [hhistory]) (by rw [hhistory]) (fun fd' e hentry => ?_)
    (fun fd' e hentry => ?_) (fun i fd' id' data e hpc' hentry => ?_)
  . rw [hconnections]
    by_cases hfd : fd' = fd
    . -- The entry that is replaced has no task.
      subst hfd
      right
      apply (hs.tracks fd' e hentry).settled
      intro i hi
      exact hidle i (congrArg WorkerPc.carried hi)
    . left
      rw [AList.lookup_insert_ne hfd]
      exact hentry
  . rw [hconnections] at hentry
    by_cases hfd : fd' = fd
    . subst hfd
      rw [AList.lookup_insert] at hentry
      cases hentry
      rcases hs.fresh id (.inl (pending_pos hpc)) with ⟨hpassed, hnil⟩
      unfold Tracks
      dsimp only
      rw [hhistory, hpassed, hframes, hnil]
      exact .inl ⟨.nil, by simp, .inl framer_carve_nil⟩
    . rw [AList.lookup_insert_ne hfd] at hentry
      exact (hs.tracks fd' e hentry).congr (by rw [hhistory]) (hframes e.id)
        (fun i _ => by rw [hworkers])
  . have hne : fd' ≠ fd := by
      rintro rfl
      rw [hworkers] at hpc'
      exact hidle i (congrArg WorkerPc.carried hpc')
    rw [hconnections, AList.lookup_insert_ne hne] at hentry
    rw [hworkers] at hpc'
    exact ⟨hpc', hentry⟩

theorem Delivers.received {i : Fin W} {count : Nat} {fd : Int32} {e : Entry} {data : Bytes}
    (hs : s.Delivers ep) (h : Step ep s (.handleClient i count) s') (hpc : s.workers i = .recv fd e.id)
    (hentry : s.connections.lookup fd = some e) (hfd : ¬e.conn.fd < 0) (hdata : data.length ≠ 0)
    (hworkers : s'.workers = Function.update s.workers i (.ingest fd e.id data))
    (hconnections : s'.connections = s.connections) (hhistory : s'.history = s.history) :
    s'.Delivers ep := by
  refine hs.frame h hconnections (by rw [hhistory]) (by rw [hhistory]) ?_ (fun j fd' id data' hj => ?_)
  . rw [hworkers]
    exact workers_update (by simp [hpc]) _
  . rw [hworkers] at hj
    by_cases hji : j = i
    . right
      intro e' hentry'
      rw [hji, Function.update_self] at hj
      cases hj
      rw [hentry] at hentry'
      cases hentry'
      simp only [hdata, hfd, or_self, not_false_eq_true]
    . left
      rw [Function.update_of_ne hji] at hj
      exact hj

theorem Delivers.carved {τ : Type} {dispatch : PacketType → HandlerFn τ} {i : Fin W} {fd : Int32}
    {e : Entry} {d : Dispatched} {w : τ} {r : HandlerResult τ} (hs : s.Delivers ep)
    (hload : ∀ fd, s.load fd ≤ 1) (hnumbered : s.Numbered)
    (hold : ∀ id, s'.Fresh id → s.Fresh id) (hpc : s.workers i = .loop fd e.id)
    (hentry : s.connections.lookup fd = some e)
    (hstep : ep.ingestStep dispatch e.conn w = .dispatched d r)
    (hinbuf : framer.carve e.conn.inbuf = .frame d.frame r.conn.inbuf)
    (hconnections : s'.connections = s.connections.insert fd { e with conn := r.conn })
    (hworkers : s'.workers = s.workers) (hpassed : s'.history.passed = s.history.passed)
    (hhandled : s'.history.handled = s.history.handled ++ [⟨e.id, e.conn.fd, d.frame⟩]) :
    s'.Delivers ep := by
  have hcarried : (s.workers i).carried = some fd := by rw [hpc]; rfl
  have hframes : ∀ id, s'.framesOf id
      = s.framesOf id ++ if e.id = id then [d.frame] else [] := by
    intro id
    unfold framesOf
    rw [hhandled, List.filter_append, List.map_append, List.filter_singleton]
    by_cases hid : e.id = id <;> simp [hid]
  rcases (hs.tracks fd e hentry).carves hload hcarried (by simp [hpc]) with ⟨hcarves, hvalid, _⟩
  rcases OpenFlowEndpoint.ingestStep_dispatched_eq hstep with ⟨_, _, haccept, _⟩
  refine hs.entry hload hnumbered hold hcarried hentry hconnections rfl
    (by rw [hworkers, Function.update_eq_self]) (by simp [hpc]) (fun id _ => by rw [hpassed])
    (fun id hid => ?_) (.inl ⟨?_, fun f hf => ?_, .inr ⟨i, by rw [hworkers, hpc]⟩⟩)
  . rw [hframes, if_neg (Ne.symm hid), List.append_nil]
  . rw [hframes, if_pos rfl, hpassed]
    exact .snoc hcarves hinbuf
  . rw [hframes, if_pos rfl, List.mem_append, List.mem_singleton] at hf
    rcases hf with hf | rfl
    . exact hvalid f hf
    . exact haccept

theorem Delivers.closed {i : Fin W} {count : Nat} {fd : Int32} {e : Entry} (hs : s.Delivers ep)
    (hload : ∀ fd, s.load fd ≤ 1) (h : Step ep s (.handleClient i count) s')
    (hpc : s.workers i = .close fd e.id) (hentry : s.connections.lookup fd = some e)
    (hconnections : s'.connections = s.connections.erase fd)
    (hworkers : s'.workers = Function.update s.workers i .idle) (hhistory : s'.history = s.history) :
    s'.Delivers ep := by
  have hcarried : (s.workers i).carried = some fd := by rw [hpc]; rfl
  refine hs.replaced h (by rw [hhistory]) (by rw [hhistory]) (fun fd' e' hentry' => ?_)
    (fun fd' e' hentry' => ?_) (fun j fd' id data e' hj hentry' => ?_)
  . by_cases hfd : fd' = fd
    . subst hfd
      rw [hentry] at hentry'
      cases hentry'
      right
      apply (hs.tracks fd' e hentry).settled
      intro j hj
      cases eq_of_carried (hload fd') (congrArg WorkerPc.carried hj) hcarried
      rw [hpc] at hj
      contradiction
    . left
      rw [hconnections, AList.lookup_erase_ne hfd]
      exact hentry'
  . rw [hconnections] at hentry'
    by_cases hfd : fd' = fd
    . rw [hfd, AList.lookup_erase] at hentry'
      contradiction
    . rw [AList.lookup_erase_ne hfd] at hentry'
      refine (hs.tracks fd' e' hentry').congr (by rw [hhistory])
        (framesOf_congr (congrArg History.handled hhistory) _) (fun j hj => ?_)
      rw [hworkers]
      exact update_of_carried_ne hcarried hfd hj
  . rw [hconnections] at hentry'
    by_cases hfd : fd' = fd
    . rw [hfd, AList.lookup_erase] at hentry'
      contradiction
    . rw [AList.lookup_erase_ne hfd] at hentry'
      rw [hworkers] at hj
      by_cases hji : j = i
      . rw [hji, Function.update_self] at hj
        contradiction
      . rw [Function.update_of_ne hji] at hj
        exact ⟨hj, hentry'⟩

def LeavesBuffer (ep : OpenFlowEndpoint σ) (s : Server σ W) (action : Action W) : Prop :=
  ∀ i count fd e d r, action = .handleClient i count → s.workers i = .loop fd e.id →
    s.connections.lookup fd = some e →
    ep.ingestStep (serverDispatch ep) e.conn (s.world, s.events) = .dispatched d r →
      framer.carve e.conn.inbuf = .frame d.frame r.conn.inbuf

theorem leavesBuffer_of_keepsBuffer (hkeep : KeepsBuffer ep.dispatch) (s : Server σ W) (action : Action W) :
    s.LeavesBuffer ep action :=
  fun _ _ _ _ _ _ _ _ _ hstep =>
    OpenFlowEndpoint.ingestStep_dispatched_inbuf (serverDispatch_keepsBuffer hkeep) hstep

theorem Delivers.step {action : Action W} (hleaves : s.LeavesBuffer ep action) (hs : s.Delivers ep)
    (hload : ∀ fd, s.load fd ≤ 1) (hnumbered : s.Numbered) (hguard : s.keepsOwnership action)
    (h : Step ep s action s') : s'.Delivers ep := by
  have hstep := h
  cases h with
  | sweep hcaller => exact hs.swept hstep (of_decide_eq_true hguard hcaller) rfl rfl
  | @insert a result fd id hpc =>
    have hzero : s.load fd = 0 := by simpa [keepsOwnership, hpc] using hguard
    exact hs.inserted hstep hpc hzero rfl rfl rfl
  | pop hpc =>
    exact hs.frame hstep rfl rfl rfl (workers_update (by simp [hpc]) _) (reading_update (by simp))
  | top hpc =>
    exact hs.frame hstep rfl rfl rfl (workers_update (by simp [hpc]) _) (reading_update (by simp))
  | leave hpc =>
    exact hs.frame hstep rfl rfl rfl (workers_update (by simp [hpc]) _) (reading_update (by simp))
  | miss hpc =>
    exact hs.frame hstep rfl rfl rfl (workers_update (by simp [hpc]) _) (reading_update (by simp))
  | lookup hpc =>
    exact hs.frame hstep rfl rfl rfl (workers_update (by simp [hpc]) _) (reading_update (by simp))
  | recvFails hpc =>
    exact hs.frame hstep rfl rfl rfl (workers_update (by simp [hpc]) _) (reading_update (by simp))
  | recv hpc hentry hfd hsocket hcount =>
    exact hs.received hstep hpc hentry hfd (by rw [List.length_take]; omega) rfl rfl rfl
  -- `recv` has returned bytes, so `ingest` does not fail on entry.
  | ingestFails hpc hentry hdata => exact absurd hdata (hs.reading _ _ _ _ _ hpc hentry)
  | @ingest i count fd e data hpc hentry hdata =>
    have hcarried : (s.workers i).carried = some fd := by rw [hpc]; rfl
    rcases (hs.tracks fd e hentry).carves hload hcarried (by simp [hpc]) with ⟨hcarves, hvalid, _⟩
    refine hs.entry hload hnumbered (fun _ => hstep.fresh) hcarried hentry rfl rfl rfl (by simp)
      (fun id hid => Function.update_of_ne hid _ _) (fun id _ => rfl)
      (.inl ⟨?_, hvalid, .inr ⟨i, Function.update_self _ _ _⟩⟩)
    dsimp only
    rw [Function.update_self]
    exact hcarves.append data
  | @accepted i count fd e conn hpc hentry hret =>
    have hcarried : (s.workers i).carried = some fd := by rw [hpc]; rfl
    rcases (hs.tracks fd e hentry).carves hload hcarried (by simp [hpc]) with ⟨hcarves, hvalid, _⟩
    refine hs.entry hload hnumbered (fun _ => hstep.fresh) hcarried hentry rfl rfl rfl (by simp)
      (fun id _ => rfl)
      (fun id _ => rfl) ?_
    rcases OpenFlowEndpoint.ingestStep_ret_cases hret with ⟨hmore, _, rfl⟩ | ⟨_, h, _⟩
      | ⟨_, _, _, _, h, _⟩
    . exact .inl ⟨hcarves, hvalid, .inl hmore⟩
    . contradiction
    . contradiction
  | @rejected i count fd e conn hpc hentry hret =>
    have hcarried : (s.workers i).carried = some fd := by rw [hpc]; rfl
    rcases (hs.tracks fd e hentry).carves hload hcarried (by simp [hpc]) with ⟨hcarves, hvalid, _⟩
    refine hs.entry hload hnumbered (fun _ => hstep.fresh) hcarried hentry rfl rfl rfl (by simp)
      (fun id _ => rfl)
      (fun id _ => rfl) ?_
    have hsettled := settled_of_rejected hcarves hvalid hret
    exact .inr ⟨hsettled, i, Function.update_self _ _ _⟩
  | dispatched hpc hentry hdispatched =>
    have hinbuf := hleaves _ _ _ _ _ _ rfl hpc hentry hdispatched
    exact hs.carved hload hnumbered (fun _ => hstep.fresh) hpc hentry hdispatched hinbuf rfl rfl rfl rfl
  | close hpc hentry => exact hs.closed hload hstep hpc hentry rfl rfl rfl
  | _ => exact hs.frame hstep rfl rfl rfl (fun _ _ _ _ => rfl) (fun _ _ _ _ h => .inl h)

end Server

end Oflib
