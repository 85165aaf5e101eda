import NetOrc.Core.Persistence
import NetOrc.Core.TopologyMap
import NetOrc.OpenFlow.Attribution
import NetOrc.Southbound.SwitchState

/-!
This module shows that the state of the services is a function of the handled frames in their order.
-/

namespace NetOrc

open Oflib
open Transition
open Upsert

variable {W : Nat}

/-! The table of the database after a sequence of calls. -/

namespace DatabaseService

def stored (insertFails : Nat → Bool) (calls : List SaveFlow) : List SaveFlow :=
  (calls.zipIdx.filter (fun p => ¬insertFails p.2)).map Prod.fst

def rowsFor (calls : List SaveFlow) : List FlowsRow := calls.zipIdx.map (fun p => rowOf (p.2 + 1) p.1)

theorem stored_concat (insertFails : Nat → Bool) (calls : List SaveFlow) (call : SaveFlow) :
    stored insertFails (calls ++ [call])
      =
    stored insertFails calls ++ if insertFails calls.length then [] else [call] := by
  unfold stored
  rw [List.zipIdx_append, List.filter_append, List.map_append]
  congr 1
  by_cases hfails : insertFails calls.length <;> simp [hfails]

theorem stored_of_not_fails {insertFails : Nat → Bool} (h : ∀ n, insertFails n = false)
    (calls : List SaveFlow) : stored insertFails calls = calls := by
  unfold stored
  rw [List.filter_eq_self.mpr (by simp [h])]
  simp

theorem rowsFor_concat (calls : List SaveFlow) (call : SaveFlow) :
    rowsFor (calls ++ [call]) = rowsFor calls ++ [rowOf (calls.length + 1) call] := by
  unfold rowsFor
  rw [List.zipIdx_append, List.map_append]
  simp

structure Holds (insertFails : Nat → Bool) (db : DatabaseService) (calls : List SaveFlow) : Prop where
  made : db.calls = calls
  rows : db.rows = rowsFor (stored insertFails calls)
  nextId : db.nextId = (stored insertFails calls).length + 1

theorem holds_empty (insertFails : Nat → Bool) : Holds insertFails {} [] := ⟨rfl, rfl, rfl⟩

theorem Holds.saveFlow {insertFails : Nat → Bool} {db : DatabaseService} {calls : List SaveFlow}
    (h : Holds insertFails db calls) (call : SaveFlow) :
    Holds insertFails (db.saveFlow (insertFails db.calls.length) call) (calls ++ [call]) := by
  rw [h.made]
  unfold DatabaseService.saveFlow
  by_cases hfails : insertFails calls.length
  . rw [if_pos hfails]
    refine ⟨?_, ?_, ?_⟩
    . rw [h.made]
    . rw [stored_concat, if_pos hfails, List.append_nil]
      exact h.rows
    . rw [stored_concat, if_pos hfails, List.append_nil]
      exact h.nextId
  . rw [if_neg hfails]
    refine ⟨?_, ?_, ?_⟩
    . rw [h.made]
    . rw [stored_concat, if_neg hfails, rowsFor_concat, ← h.nextId, ← h.rows]
    . rw [stored_concat, if_neg hfails, h.nextId, List.length_append, List.length_singleton]

end DatabaseService

/-! The services after a sequence of frames. -/

def defaultFlowCall (fd : Int32) : SaveFlow := ⟨dpidOf fd, 1, 2⟩

def linkOf (fd : Int32) (frame : Frame) : Link where
  srcFd := fd
  srcPort := mockPort
  dstChassisId := (idsOf (frame.body.drop 14)).1
  dstPort := (idsOf (frame.body.drop 14)).2

def saveFlowCalls (handled : List Handled) : List SaveFlow :=
  (handled.filter (fun h => h.frame.type = .hello)).map (fun h => defaultFlowCall h.fd)

def updateLinkCalls (handled : List Handled) : List Link :=
  (handled.filter (fun h => RecordsLink h.frame)).map (fun h => linkOf h.fd h.frame)

/--
What the flow table holds of an entry, up to the values that the handler leaves uninitialised.
-/
def defaultColumns : SqlValue × SqlValue := (.integer 1, .integer 2)

def flowsOf (frames : List Frame) : List (SqlValue × SqlValue) :=
  List.replicate (frames.countP (fun f => f.type = .hello)) defaultColumns

def lastLink (fd : Int32) (frames : List Frame) : List Link :=
  (((frames.filter RecordsLink).getLast?).map (linkOf fd)).toList

/--
`before` are the calls that an earlier start of the program has made to the same database.
-/
structure Replayed (insertFails : Nat → Bool) (before : List SaveFlow) (w : Services)
    (handled : List Handled) : Prop where
  flows : ∀ fd, (w.flows.getFlows (dpidOf fd)).map FlowEntry.columns
    = flowsOf ((handled.filter (fun h => h.fd = fd)).map Handled.frame)
  links : w.topo.links = upserts Link.key (updateLinkCalls handled)
  db : w.db.Holds insertFails (before ++ saveFlowCalls handled)

theorem flowsOf_concat (frames : List Frame) (frame : Frame) :
    flowsOf (frames ++ [frame]) = flowsOf frames ++ if frame.type = .hello then [defaultColumns] else [] := by
  unfold flowsOf
  rw [List.countP_append, List.countP_singleton, List.replicate_add]
  by_cases hhello : frame.type = .hello <;> simp [hhello]

section
variable (insertFails : Nat → Bool) (junk : Connection → Frame → Services → Uninit)
  {before : List SaveFlow}

theorem sbiEndpoint_db (conn : Connection) (frame : Frame) (w : Services) :
    (((sbiEndpoint (services insertFails) junk).dispatch frame.type).call conn frame w).world.db
      =
    if frame.type = .hello then
      w.db.saveFlow (insertFails w.db.calls.length) (defaultFlowCall conn.fd)
    else
      w.db := by
  rw [sbiEndpoint_call]
  by_cases hhello : frame.type = .hello
  . rw [if_pos hhello, if_pos hhello]
    rfl
  . rw [if_neg hhello, if_neg hhello]
    split
    . rw [packetIn_eq]
      split
      . split <;> rfl
      . rfl
    . rfl

theorem Replayed.dispatch {w : Services × List Event} {handled : List Handled}
    (hw : Replayed insertFails before w.1 handled) (id : Nat) (conn : Connection) (frame : Frame) :
    Replayed insertFails before
      ((serverDispatch (sbiEndpoint (services insertFails) junk) frame.type).call conn frame w).world.1
      (handled ++ [⟨id, conn.fd, frame⟩]) := by
  rw [serverDispatch_world]
  constructor
  . intro fd
    rw [sbiEndpoint_flows, List.map_append, hw.flows fd, List.filter_append, List.map_append]
    by_cases hfd : conn.fd = fd
    . rw [List.filter_singleton, decide_eq_true hfd]
      refine Eq.trans ?_ (flowsOf_concat _ _).symm
      by_cases hhello : frame.type = .hello
      . rw [if_pos ⟨hfd, hhello⟩, if_pos hhello]
        rfl
      . rw [if_neg (fun h => hhello h.2), if_neg hhello]
        rfl
    . rw [if_neg (fun h => hfd h.1), List.filter_singleton, decide_eq_false hfd]
      simp
  . rw [sbiEndpoint_links, hw.links]
    unfold updateLinkCalls
    rw [List.filter_append, List.map_append, List.filter_singleton]
    by_cases hlink : RecordsLink frame
    . rw [if_pos hlink, decide_eq_true hlink]
      refine Eq.trans ?_ (upserts_concat _ _).symm
      exact TopologyManager.updateLinks_eq_upsert _ (linkOf conn.fd frame)
    . rw [if_neg hlink, decide_eq_false hlink]
      simp
  . rw [sbiEndpoint_db]
    unfold saveFlowCalls
    rw [List.filter_append, List.map_append, List.filter_singleton]
    by_cases hhello : frame.type = .hello
    . rw [if_pos hhello, decide_eq_true hhello, ← List.append_assoc]
      exact hw.db.saveFlow (defaultFlowCall conn.fd)
    . rw [if_neg hhello, decide_eq_false hhello]
      simpa [saveFlowCalls] using hw.db

end

theorem mem_updateLinkCalls {handled : List Handled} {link : Link} (h : link ∈ updateLinkCalls handled) :
    link.srcPort = mockPort := by
  rcases List.mem_map.mp h with ⟨_, _, rfl⟩
  rfl

theorem Replayed.links_of_fd {insertFails : Nat → Bool} {before : List SaveFlow} {w : Services}
    {handled : List Handled} (hw : Replayed insertFails before w handled) (fd : Int32) :
    w.topo.links.filter (fun link => link.srcFd = fd)
      =
    lastLink fd ((handled.filter (fun h => h.fd = fd)).map Handled.frame) := by
  have hkey : ∀ link : Link, link.srcPort = mockPort →
      (link.srcFd = fd ↔ link.key = (fd, mockPort)) := by
    intro link hport
    unfold Link.key
    rw [hport, Prod.mk.injEq, and_iff_left rfl]
  have hlinks : w.topo.links.filter (fun link => link.srcFd = fd)
      = w.topo.links.filter (fun link => link.key = (fd, mockPort)) := by
    apply List.filter_congr
    intro link hlink
    rw [hw.links] at hlink
    have hlast := List.mem_of_getLast? (getLast?_of_mem_upserts _ hlink)
    exact decide_eq_decide.mpr (hkey link (mem_updateLinkCalls (List.mem_filter.mp hlast).1))
  have hcalls : (updateLinkCalls handled).filter (fun link => link.key = (fd, mockPort))
      = (((handled.filter (fun h => h.fd = fd)).map Handled.frame).filter RecordsLink).map (linkOf fd) := by
    unfold updateLinkCalls
    rw [List.filter_map, List.filter_filter, List.filter_map, List.filter_filter, List.map_map]
    have hsame : handled.filter (fun h => decide ((linkOf h.fd h.frame).key = (fd, mockPort))
          && decide (RecordsLink h.frame))
        = handled.filter (fun h => decide (RecordsLink h.frame) && decide (h.fd = fd)) := by
      apply List.filter_congr
      intro h _
      have hfd := hkey (linkOf h.fd h.frame) rfl
      rw [Bool.and_comm]
      congr 1
      exact decide_eq_decide.mpr hfd.symm
    refine Eq.trans (congrArg (List.map _) hsame) ?_
    apply List.map_congr_left
    intro h hh
    have hfd := (Bool.and_eq_true_iff.mp (List.mem_filter.mp hh).2).2
    rw [Function.comp_apply, of_decide_eq_true hfd]
  rw [hlinks, hw.links, filter_key_upserts, hcalls, List.getLast?_map]
  rfl

theorem rowsOf_defaultFlowCalls (fds : List Int32) {fd : Int32} (hfd : 0 ≤ fd) :
    ((DatabaseService.rowsFor (fds.map defaultFlowCall)).filter
        (fun row => row.dpid = .integer (dpidOf fd).toNat)).map FlowsRow.columns
      =
    List.replicate (fds.countP (fun fd' => fd' = fd)) defaultColumns := by
  have hlt : (dpidOf fd).toNat < 2 ^ 63 := dpidOf_toNat_lt hfd
  induction fds using List.reverseRecOn with
  | nil => rfl
  | append_singleton fds fd' ih =>
    let call : AddFlow := ⟨dpidOf fd', { inPort := 1, actionOutputPort := 2, tpSrc := 0, tpDst := 0 }⟩
    have hrow := dpid_rowOf_iff ((fds.map defaultFlowCall).length + 1) call hlt
    have hcolumns := columns_rowOf ((fds.map defaultFlowCall).length + 1) call
    rw [List.map_append, List.map_singleton, DatabaseService.rowsFor_concat, List.filter_append,
      List.map_append, ih, List.countP_append, List.countP_singleton, List.replicate_add,
      List.filter_singleton]
    congr 1
    by_cases heq : fd' = fd
    . have hpos : (DatabaseService.rowOf ((fds.map defaultFlowCall).length + 1) (defaultFlowCall fd')).dpid
          = .integer (dpidOf fd).toNat := hrow.mpr (dpidOf_inj.mpr heq)
      rw [decide_eq_true hpos, decide_eq_true heq, if_pos rfl]
      exact congrArg (fun x => [x]) hcolumns
    . have hne : ¬(DatabaseService.rowOf ((fds.map defaultFlowCall).length + 1) (defaultFlowCall fd')).dpid
          = .integer (dpidOf fd).toNat := fun h => heq (dpidOf_inj.mp (hrow.mp h))
      rw [decide_eq_false hne, decide_eq_false heq]
      rfl

theorem rowsOf_of_holds {insertFails : Nat → Bool} (hfails : ∀ n, insertFails n = false)
    {db : DatabaseService} {handled : List Handled} (hdb : db.Holds insertFails (saveFlowCalls handled))
    {fd : Int32} (hfd : 0 ≤ fd) :
    (db.rowsOf (dpidOf fd)).map FlowsRow.columns
      =
    flowsOf ((handled.filter (fun h => h.fd = fd)).map Handled.frame) := by
  have hcalls : saveFlowCalls handled
      = ((handled.filter (fun h => h.frame.type = .hello)).map Handled.fd).map defaultFlowCall := by
    rw [List.map_map]
    rfl
  unfold DatabaseService.rowsOf
  rw [hdb.rows, DatabaseService.stored_of_not_fails hfails, hcalls, rowsOf_defaultFlowCalls _ hfd]
  unfold flowsOf
  congr 1
  rw [List.countP_map, List.countP_filter, List.countP_map, List.countP_filter]
  apply List.countP_congr
  intro h _
  simp [and_comm]

end NetOrc
