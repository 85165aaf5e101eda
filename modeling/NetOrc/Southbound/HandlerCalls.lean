import Mathlib.Data.Fintype.Basic
import Mathlib.Data.List.Induction
import NetOrc.Core.Persistence
import NetOrc.Southbound.Effects
import NetOrc.Transition.Phased

/-!
This module takes the handlers apart into the regions under the locks of the services, and shows that
workers that serve different switches may run them in any interleaving.
-/

namespace NetOrc

open Oflib
open Transition

/--
A call of `Server::dispatch` whose handler returns. One that throws terminates the program, and there is
no state behind it.
-/
structure HandlerCall where
  conn : Connection
  frame : Frame
  uninit : Uninit
  returns : lldpFault frame.type frame = none
  deriving DecidableEq

structure HandlerState where
  world : Services := {}
  lookups : List (Int32 × Bool) := []

namespace HandlerCall

def event (c : HandlerCall) : Event := ⟨c.conn, c.frame⟩

def atomic (insertFails : Nat → Bool) (c : HandlerCall) (w : Services × List Event) :
    HandlerResult (Services × List Event) :=
  (serverDispatch (sbiEndpoint (services insertFails) (fun _ _ _ => c.uninit)) c.frame.type).call c.conn
    c.frame w

def lookup (c : HandlerCall) (w : Services) : List (Int32 × Bool) :=
  if c.frame.type = .packetIn ∧ ¬LLDPParser.isLLDP c.frame.body then
    [(c.conn.fd, w.flows.hasMatch (dpidOf c.conn.fd) 1)]
  else
    []

/--
The region of `addFlow` under the lock of the flow tables. The other handlers have nothing before their
only region.
-/
def push (c : HandlerCall) (w : HandlerState) : HandlerState :=
  if c.frame.type = .hello then
    { w with world :=
      { w.world with flows := w.world.flows.pushFlow (dpidOf c.conn.fd) (defaultFlow c.uninit) } }
  else
    w

/--
The rest of the handler: `saveFlow`, or `updateLink`, or `hasMatch`. `printTopology` only prints.
-/
def rest (insertFails : Nat → Bool) (c : HandlerCall) (w : HandlerState) : HandlerState :=
  let svc := services insertFails
  if c.frame.type = .hello then
    { w with world := svc.db.saveFlow (dpidOf c.conn.fd) 1 2 w.world }
  else if c.frame.type = .packetIn then
    if LLDPParser.isLLDP c.frame.body then
      match LLDPParser.parse c.frame.body c.uninit.ttl with
      | .error _ => w
      | .ok neighbor =>
        let world := svc.topo.updateLink c.conn.fd mockPort neighbor.chassisId neighbor.portId w.world
        { w with world := svc.topo.printTopology world }
    else
      { w with lookups := w.lookups ++ [(c.conn.fd, svc.fm.hasMatch (dpidOf c.conn.fd) 1 w.world)] }
  else
    w

theorem getFlows_push (c : HandlerCall) (w : HandlerState) (dpid : UInt64) :
    (c.push w).world.flows.getFlows dpid
      =
    w.world.flows.getFlows dpid
      ++ if dpid = dpidOf c.conn.fd ∧ c.frame.type = .hello then [defaultFlow c.uninit] else [] := by
  unfold push
  by_cases hhello : c.frame.type = .hello
  . simp only [hhello, if_true, and_true, FlowManager.getFlows_pushFlow]
    by_cases hdpid : dpid = dpidOf c.conn.fd
    . rw [if_pos hdpid, if_pos hdpid, hdpid]
    . rw [if_neg hdpid, if_neg hdpid, List.append_nil]
  . simp only [hhello, if_false, and_false, List.append_nil]

theorem push_push {c d : HandlerCall} (h : c.conn.fd ≠ d.conn.fd) (w : HandlerState) :
    c.push (d.push w) = d.push (c.push w) := by
  have hdpid : dpidOf c.conn.fd ≠ dpidOf d.conn.fd := fun hdpid => h (dpidOf_inj.mp hdpid)
  unfold push
  by_cases hc : c.frame.type = .hello
  . by_cases hd : d.frame.type = .hello
    . simp only [if_pos hc, if_pos hd, FlowManager.pushFlow, Function.update_of_ne hdpid,
        Function.update_of_ne (Ne.symm hdpid)]
      rw [Function.update_comm hdpid]
    . rw [if_neg hd, if_neg hd]
  . rw [if_neg hc, if_neg hc]

theorem rest_push (insertFails : Nat → Bool) {c d : HandlerCall} (h : c.conn.fd ≠ d.conn.fd)
    (w : HandlerState) : c.rest insertFails (d.push w) = d.push (c.rest insertFails w) := by
  have hdpid : dpidOf c.conn.fd ≠ dpidOf d.conn.fd := fun hdpid => h (dpidOf_inj.mp hdpid)
  have hmatch : (d.push w).world.flows.hasMatch (dpidOf c.conn.fd) 1
      = w.world.flows.hasMatch (dpidOf c.conn.fd) 1 := by
    rw [FlowManager.hasMatch_eq_any, FlowManager.hasMatch_eq_any, getFlows_push,
      if_neg (fun h => hdpid h.1), List.append_nil]
  by_cases hd : d.frame.type = .hello
  . unfold rest
    simp only [services, hmatch]
    unfold push
    simp only [if_pos hd]
    split
    . rfl
    . split
      . split
        . split <;> rfl
        . rfl
      . rfl
  . have hpush : ∀ w, d.push w = w := fun w => if_neg hd
    rw [hpush, hpush]

theorem parse_of_returns (c : HandlerCall) (hpacketIn : c.frame.type = .packetIn)
    (hlldp : LLDPParser.isLLDP c.frame.body) :
    ∃ neighbor, LLDPParser.parse c.frame.body c.uninit.ttl = .ok neighbor := by
  have hreturns := c.returns
  unfold lldpFault at hreturns
  rw [LLDPParser.parse_eq]
  split
  . next hempty =>
    rw [if_pos ⟨hpacketIn, hlldp, hempty⟩] at hreturns
    contradiction
  . exact ⟨_, rfl⟩

theorem atomic_eq (insertFails : Nat → Bool) (c : HandlerCall) (w : HandlerState) (events : List Event) :
    c.atomic insertFails (w.world, events)
      =
    ⟨c.conn, ((c.rest insertFails (c.push w)).world, events ++ [c.event]), none⟩ := by
  unfold atomic serverDispatch rest push
  dsimp only
  rw [sbiEndpoint_call]
  by_cases hhello : c.frame.type = .hello
  . rw [if_pos hhello, if_pos hhello, if_pos hhello]
    rfl
  . rw [if_neg hhello, if_neg hhello, if_neg hhello]
    by_cases hpacketIn : c.frame.type = .packetIn
    . rw [if_pos hpacketIn, if_pos hpacketIn]
      unfold PacketHandlers.packetIn
      by_cases hlldp : LLDPParser.isLLDP c.frame.body
      . rcases parse_of_returns c hpacketIn hlldp with ⟨neighbor, hparse⟩
        rw [if_pos hlldp, if_pos hlldp, hparse]
        rfl
      . rw [if_neg hlldp, if_neg hlldp, ite_self]
        rfl
    . rw [if_neg hpacketIn, if_neg hpacketIn]
      rfl

theorem lookups_rest_push (insertFails : Nat → Bool) (c : HandlerCall) (w : HandlerState) :
    (c.rest insertFails (c.push w)).lookups = w.lookups ++ c.lookup w.world := by
  unfold rest push lookup
  by_cases hhello : c.frame.type = .hello
  . have hne : c.frame.type ≠ .packetIn := by
      rw [hhello]
      decide
    rw [if_pos hhello, if_pos hhello, if_neg (fun h => hne h.1), List.append_nil]
  . rw [if_neg hhello, if_neg hhello]
    by_cases hpacketIn : c.frame.type = .packetIn
    . rw [if_pos hpacketIn]
      by_cases hlldp : LLDPParser.isLLDP c.frame.body
      . rw [if_pos hlldp, if_neg (fun h => h.2 hlldp), List.append_nil]
        split <;> rfl
      . rw [if_neg hlldp, if_pos ⟨hpacketIn, hlldp⟩]
        rfl
    . rw [if_neg hpacketIn, if_neg (fun h => hpacketIn h.1), List.append_nil]

end HandlerCall

def handlerPhases (insertFails : Nat → Bool) : Phases HandlerState HandlerCall Int32 where
  key c := c.conn.fd
  first := HandlerCall.push
  second := HandlerCall.rest insertFails
  first_first h := HandlerCall.push_push h
  second_first h := HandlerCall.rest_push insertFails h

def serialCall (insertFails : Nat → Bool) (r : (Services × List Event) × List (Int32 × Bool))
    (c : HandlerCall) : (Services × List Event) × List (Int32 × Bool) :=
  ((c.atomic insertFails r.1).world, r.2 ++ c.lookup r.1.1)

theorem foldl_serialCall (insertFails : Nat → Bool) (calls : List HandlerCall) :
    calls.foldl (serialCall insertFails) (({}, []), [])
      =
    let w := calls.foldl (handlerPhases insertFails).serialCall {}
    ((w.world, calls.map HandlerCall.event), w.lookups) := by
  induction calls using List.reverseRecOn with
  | nil => rfl
  | append_singleton calls c ih =>
    rw [List.foldl_concat, List.foldl_concat, ih, List.map_append]
    unfold serialCall
    dsimp only
    rw [HandlerCall.atomic_eq]
    refine Prod.ext rfl ?_
    exact (HandlerCall.lookups_rest_push insertFails c _).symm

/--
However the workers interleave the regions of their handlers, as long as no two of them serve the same
switch at a time: once all calls are through, the flow tables, the database with its row ids, the topology
and the lookups are those of some order of the calls, one after another. For each switch it is the order in
which its frames were dispatched, and its events are in the queue in this order.
-/
theorem dispatches_serializable {ι : Type} [DecidableEq ι] (insertFails : Nat → Bool)
    (s : Phased ι HandlerState HandlerCall)
    (h : Reaches (handlerPhases insertFails).step (handlerPhases insertFails).owned { shared := {} } s)
    (hidle : ∀ i, s.pcs i = .idle) :
    let serial := s.order.foldl (serialCall insertFails) (({}, []), [])
    s.shared.world = serial.1.1
      ∧ s.shared.lookups = serial.2
      ∧ ∀ fd : Int32,
        s.order.filter (fun c => c.conn.fd = fd) = s.started.filter (fun c => c.conn.fd = fd)
          ∧ (s.finished.map HandlerCall.event).filter (fun event => event.conn.fd = fd)
            = serial.1.2.filter (fun event => event.conn.fd = fd) := by
  intro serial
  rcases Phases.serial_of_reaches h hidle with ⟨hshared, hkeys⟩
  have hserial := foldl_serialCall insertFails s.order
  dsimp only at hserial
  rw [← hshared] at hserial
  refine ⟨?_, ?_, fun fd => ?_⟩
  . exact (congrArg (fun r => r.1.1) hserial).symm
  . exact (congrArg Prod.snd hserial).symm
  . rcases hkeys fd with ⟨hstarted, hfinished⟩
    refine ⟨hstarted.symm, ?_⟩
    have hevents : serial.1.2 = s.order.map HandlerCall.event := congrArg (fun r => r.1.2) hserial
    rw [hevents, List.filter_map, List.filter_map]
    exact congrArg (List.map HandlerCall.event) hfinished

def helloCall (fd : Int32) : HandlerCall where
  conn := { fd }
  frame := { header := { type := 0 } }
  uninit := ⟨0, 0, 0⟩
  returns := rfl

def twoHellos : List (PhaseAction Bool HandlerCall) :=
  [.start false (helloCall 5), .start true (helloCall 7), .first false, .first true, .second true,
    .second false, .finish false, .finish true]

theorem dispatches_serializable_twoHellos :
    ∃ s : Phased Bool HandlerState HandlerCall,
      Reaches (handlerPhases (fun _ => false)).step (handlerPhases (fun _ => false)).owned { shared := {} } s
        ∧ s.order = [helloCall 7, helloCall 5]
        ∧ s.shared.world = (s.order.foldl (serialCall (fun _ => false)) (({}, []), [])).1.1 := by
  obtain ⟨s, hs, horder, hidle⟩ : ∃ s : Phased Bool HandlerState HandlerCall,
      run (handlerPhases (fun _ => false)).step
          (fun s a => decide ((handlerPhases (fun _ => false)).owned s a)) { shared := {} } twoHellos = some s
        ∧ s.order = [helloCall 7, helloCall 5]
        ∧ ∀ i, s.pcs i = .idle :=
    ⟨_, rfl, rfl, by decide +kernel⟩
  have hreaches := (reaches_of_run hs).weaken fun _ _ h => of_decide_eq_true h
  exact ⟨s, hreaches, horder, (dispatches_serializable _ s hreaches hidle).1⟩

/-! The flow tables and the database. -/

def Agrees (w : Services) : Prop :=
  ∀ fd : Int32, 0 ≤ fd → (w.db.rowsOf (dpidOf fd)).map FlowsRow.columns
    = (w.flows.getFlows (dpidOf fd)).map FlowEntry.columns

def HandlerCall.save (c : HandlerCall) : AddFlow := ⟨dpidOf c.conn.fd, defaultFlow c.uninit⟩

theorem rowsOf_rest_push {insertFails : Nat → Bool} (hfails : ∀ n, insertFails n = false)
    (c : HandlerCall) (w : HandlerState) {fd : Int32} (hfd : 0 ≤ fd) :
    ((c.rest insertFails (c.push w)).world.db.rowsOf (dpidOf fd)).map FlowsRow.columns
      =
    (w.world.db.rowsOf (dpidOf fd)).map FlowsRow.columns
      ++ if dpidOf fd = dpidOf c.conn.fd ∧ c.frame.type = .hello then
        [(defaultFlow c.uninit).columns]
      else
        [] := by
  by_cases hhello : c.frame.type = .hello
  . have hdb : (c.rest insertFails (c.push w)).world.db = w.world.db.saveFlow false c.save.save := by
      unfold HandlerCall.rest HandlerCall.push
      rw [if_pos hhello, if_pos hhello]
      dsimp only [services]
      rw [hfails]
      rfl
    have hrow := dpid_rowOf_iff w.world.db.nextId c.save (dpidOf_toNat_lt hfd)
    rw [hdb]
    unfold DatabaseService.rowsOf DatabaseService.saveFlow
    simp only [Bool.false_eq_true, if_false, List.filter_append, List.map_append]
    by_cases hdpid : dpidOf fd = dpidOf c.conn.fd
    . rw [List.filter_singleton, decide_eq_true (hrow.mpr hdpid.symm), if_pos ⟨hdpid, hhello⟩]
      exact congrArg (_ ++ [·]) (columns_rowOf _ c.save)
    . rw [List.filter_singleton, decide_eq_false (fun h => hdpid (hrow.mp h).symm),
        if_neg (fun h => hdpid h.1)]
      rfl
  . rw [if_neg (fun h => hhello h.2), List.append_nil]
    unfold HandlerCall.rest HandlerCall.push
    rw [if_neg hhello, if_neg hhello]
    split
    . split
      . split <;> rfl
      . rfl
    . rfl

theorem flows_rest (insertFails : Nat → Bool) (c : HandlerCall) (w : HandlerState) :
    (c.rest insertFails w).world.flows = w.world.flows := by
  unfold HandlerCall.rest
  dsimp only
  split
  . rfl
  . split
    . split
      . split <;> rfl
      . rfl
    . rfl

theorem Agrees.serialCall {insertFails : Nat → Bool} (hfails : ∀ n, insertFails n = false)
    {w : HandlerState} (hw : Agrees w.world) (c : HandlerCall) :
    Agrees ((handlerPhases insertFails).serialCall w c).world := by
  intro fd hfd
  show ((c.rest insertFails (c.push w)).world.db.rowsOf (dpidOf fd)).map FlowsRow.columns
    = ((c.rest insertFails (c.push w)).world.flows.getFlows (dpidOf fd)).map FlowEntry.columns
  rw [rowsOf_rest_push hfails c w hfd, flows_rest, HandlerCall.getFlows_push, List.map_append, hw fd hfd]
  split <;> rfl

theorem getFlows_foldl (insertFails : Nat → Bool) (calls : List HandlerCall) (fd : Int32) :
    (calls.foldl (handlerPhases insertFails).serialCall {}).world.flows.getFlows (dpidOf fd)
      =
    ((calls.filter (fun c => c.conn.fd = fd)).filter (fun c => c.frame.type = .hello)).map
      (fun c => defaultFlow c.uninit) := by
  induction calls using List.reverseRecOn with
  | nil => rfl
  | append_singleton calls c ih =>
    rw [List.foldl_concat]
    show ((c.rest insertFails (c.push _)).world.flows.getFlows (dpidOf fd)) = _
    rw [flows_rest, HandlerCall.getFlows_push, ih, List.filter_append, List.filter_append, List.map_append]
    by_cases hfd : c.conn.fd = fd
    . by_cases hhello : c.frame.type = .hello <;> simp [hfd, hhello]
    . have hdpid : dpidOf fd ≠ dpidOf c.conn.fd := fun hdpid => hfd (dpidOf_inj.mp hdpid).symm
      simp [hfd, hdpid]

theorem agrees_foldl {insertFails : Nat → Bool} (hfails : ∀ n, insertFails n = false)
    (calls : List HandlerCall) :
    Agrees (calls.foldl (handlerPhases insertFails).serialCall {}).world := by
  induction calls using List.reverseRecOn with
  | nil =>
    intro fd hfd
    rfl
  | append_singleton calls c ih =>
    rw [List.foldl_concat]
    exact ih.serialCall hfails c

/--
If no `INSERT` fails, then however the workers interleave the regions of their handlers, the database
has for each switch the rows of its flow table, in its order. These are the flows of the HELLO messages, in
the order in which they were dispatched.
-/
theorem rowsOf_of_idle {ι : Type} [DecidableEq ι] (insertFails : Nat → Bool)
    (hfails : ∀ n, insertFails n = false) (s : Phased ι HandlerState HandlerCall)
    (h : Reaches (handlerPhases insertFails).step (handlerPhases insertFails).owned { shared := {} } s)
    (hidle : ∀ i, s.pcs i = .idle) (fd : Int32) (hfd : 0 ≤ fd) :
    let hellos := (s.started.filter (fun c => c.conn.fd = fd)).filter (fun c => c.frame.type = .hello)
    s.shared.world.flows.getFlows (dpidOf fd) = hellos.map (fun c => defaultFlow c.uninit)
      ∧ (s.shared.world.db.rowsOf (dpidOf fd)).map FlowsRow.columns
        = hellos.map (fun c => (defaultFlow c.uninit).columns) := by
  intro hellos
  rcases Phases.serial_of_reaches h hidle with ⟨hshared, hkeys⟩
  have hstarted : s.started.filter (fun c => c.conn.fd = fd) = s.order.filter (fun c => c.conn.fd = fd) :=
    (hkeys fd).1
  have hflows : s.shared.world.flows.getFlows (dpidOf fd) = hellos.map (fun c => defaultFlow c.uninit) := by
    rw [hshared, getFlows_foldl, ← hstarted]
  refine ⟨hflows, ?_⟩
  have hagrees := agrees_foldl hfails s.order fd hfd
  rw [← hshared, hflows, List.map_map] at hagrees
  exact hagrees

theorem rowsOf_of_idle_twoHellos :
    ∃ s : Phased Bool HandlerState HandlerCall,
      run (handlerPhases (fun _ => false)).step
          (fun s a => decide ((handlerPhases (fun _ => false)).owned s a)) { shared := {} } twoHellos = some s
        ∧ (s.shared.world.db.rowsOf (dpidOf 5)).map FlowsRow.columns = [(.integer 1, .integer 2)] := by
  obtain ⟨s, hs, hstarted, hidle⟩ : ∃ s : Phased Bool HandlerState HandlerCall,
      run (handlerPhases (fun _ => false)).step
          (fun s a => decide ((handlerPhases (fun _ => false)).owned s a)) { shared := {} } twoHellos = some s
        ∧ s.started = [helloCall 5, helloCall 7]
        ∧ ∀ i, s.pcs i = .idle :=
    ⟨_, rfl, rfl, by decide +kernel⟩
  have hreaches := (reaches_of_run hs).weaken fun _ _ h => of_decide_eq_true h
  have hrows := (rowsOf_of_idle _ (fun _ => rfl) s hreaches hidle 5 (by decide)).2
  rw [hstarted] at hrows
  exact ⟨s, hs, hrows.trans (by decide +kernel)⟩

end NetOrc
