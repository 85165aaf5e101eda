import NetOrc.Southbound.Interleaved
import NetOrc.Transition.Lives

/-!
This module shows what survives of the program when it is started again: the database keeps the flows of
all its lives, the flow tables and the topology know the life they are from. A life may end while handlers
are between two of their regions.
-/

namespace NetOrc

open Oflib
open Transition

variable {W : Nat}

namespace DatabaseService

theorem stored_append (insertFails : Nat → Bool) (calls calls' : List SaveFlow) :
    stored insertFails calls <+: stored insertFails (calls ++ calls') := by
  induction calls' using List.reverseRecOn with
  | nil => simp
  | append_singleton calls' call ih =>
    rw [← List.append_assoc, stored_concat]
    exact ih.trans (List.prefix_append _ _)

theorem rowsFor_isPrefix {calls calls' : List SaveFlow} (h : calls <+: calls') :
    rowsFor calls <+: rowsFor calls' := by
  rcases h with ⟨rest, rfl⟩
  unfold rowsFor
  rw [List.zipIdx_append, List.map_append]
  exact List.prefix_append _ _

end DatabaseService

namespace Interleaved

def database (s : Interleaved W) : DatabaseService := s.handlers.shared.world.db

def insertsOf (lives : List (Interleaved W)) : List SaveFlow :=
  lives.flatMap (fun s => inserts s.handlers.order)

section
variable {insertFails : Nat → Bool} {lives : List (Interleaved W)}

theorem holds_of_lives
    (h : Lives (Interleaved.step insertFails) (fun s action => s.keepsOwnership action) bootWith database {}
      lives) :
    (diskAfter database {} lives).Holds insertFails (insertsOf lives) := by
  refine h.follows (F := fun db calls => db.Holds insertFails calls) (DatabaseService.holds_empty insertFails)
    ?_
  intro db calls s hdb hreaches
  exact ((followed_of_reaches hreaches).services hdb).1

theorem forall_life {P : Interleaved W → Prop}
    (hlife : ∀ db before s, db.Holds insertFails before → Followed insertFails db s → P s)
    (h : Lives (Interleaved.step insertFails) (fun s action => s.keepsOwnership action) bootWith database {}
      lives) : ∀ s ∈ lives, P s := by
  refine (h.forall_mem (I := fun db => ∃ before, db.Holds insertFails before)
    ⟨_, DatabaseService.holds_empty insertFails⟩ ?_).2
  rintro db s ⟨before, hdb⟩ hreaches
  have hs : Followed insertFails db s := followed_of_reaches hreaches
  exact ⟨⟨_, (hs.services hdb).1⟩, hlife db before s hdb hs⟩

theorem framesFor_insertsOf (lives : List (Interleaved W)) (fd : Int32) :
    flowsOf (framesFor fd (lives.flatMap (fun s => s.handlers.order)))
      =
    lives.flatMap (fun s => flowsOf (framesFor fd s.handlers.order)) := by
  induction lives with
  | nil => rfl
  | cons s lives ih =>
    rw [List.flatMap_cons, List.flatMap_cons, framesFor_append, ← ih]
    unfold flowsOf
    rw [List.countP_append, List.replicate_add]

/--
The program is started again and again over one database, and each life may end in any of its states, also
in a crash and while handlers are between two regions. The table has the `INSERT`s of all lives that did not
fail, in the order in which they were made, with the ids 1, 2, 3 and so on through all of them, and later
lives only append to it. What the memory has of a descriptor, and what a life has saved of it, is due to the
first frames of its own life, and to all of them if no worker was inside of `ingest`. If all lives end so and
no `INSERT` fails, the rows of a descriptor are the flow tables with which its lives ended, one after another.
-/
theorem database_of_lives
    (h : Lives (Interleaved.step insertFails) (fun s action => s.keepsOwnership action) bootWith database {}
      lives) :
    (diskAfter database {} lives).rows
        = DatabaseService.rowsFor (DatabaseService.stored insertFails (insertsOf lives))
      ∧ (∀ k, (diskAfter database {} (lives.take k)).rows <+: (diskAfter database {} lives).rows)
      ∧ (∀ s ∈ lives, ∀ fd : Int32,
        let saved := framesFor fd s.handlers.order
        let w := s.handlers.shared.world
        w.topo.links.filter (fun link => link.srcFd = fd) = lastLink fd saved
          ∧ (∃ pushed, saved <+: pushed ∧ pushed <+: s.server.framesOn fd
            ∧ (w.flows.getFlows (dpidOf fd)).map FlowEntry.columns = flowsOf pushed)
          ∧ ((∀ i fd id, s.server.workers i ≠ .loop fd id) → saved = s.server.framesOn fd))
      ∧ ((∀ n, insertFails n = false) → (∀ s ∈ lives, ∀ i fd id, s.server.workers i ≠ .loop fd id) →
        ∀ fd : Int32, 0 ≤ fd →
          ((diskAfter database {} lives).rowsOf (dpidOf fd)).map FlowsRow.columns
            = lives.flatMap (fun s =>
              (s.handlers.shared.world.flows.getFlows (dpidOf fd)).map FlowEntry.columns)) := by
  have hholds := holds_of_lives h
  refine ⟨hholds.rows, fun k => ?_, ?_, fun hfails hidle fd hfd => ?_⟩
  . rw [hholds.rows, (holds_of_lives (h.take k)).rows]
    apply DatabaseService.rowsFor_isPrefix
    have hlives : insertsOf lives = insertsOf (lives.take k) ++ insertsOf (lives.drop k) := by
      unfold insertsOf
      rw [← List.flatMap_append, List.take_append_drop]
    rw [hlives]
    exact DatabaseService.stored_append _ _ _
  . refine forall_life (fun db before s hdb hs => ?_) h
    intro fd saved w
    rcases (hs.services hdb).2 fd with ⟨hlinks, hflows⟩
    exact ⟨hlinks, hflows, fun hloop => (hs.framesFor_eq hloop fd).1⟩
  . have hcalls : insertsOf lives = saveFlowCalls
        ((lives.flatMap (fun s => s.handlers.order)).map HandlerCall.handled) := by
      rw [saveFlowCalls_handled]
      unfold insertsOf inserts
      rw [List.filter_flatMap, List.map_flatMap]
    rw [hcalls] at hholds
    rw [rowsOf_of_holds hfails hholds hfd, frames_handled, framesFor_insertsOf]
    apply List.flatMap_congr
    intro s hs
    have hflows : (∀ i fd id, s.server.workers i ≠ .loop fd id) → flowsOf (framesFor fd s.handlers.order)
        = (s.handlers.shared.world.flows.getFlows (dpidOf fd)).map FlowEntry.columns := by
      refine forall_life (P := fun s => (∀ i fd id, s.server.workers i ≠ .loop fd id) →
        flowsOf (framesFor fd s.handlers.order)
          = (s.handlers.shared.world.flows.getFlows (dpidOf fd)).map FlowEntry.columns) ?_ h s hs
      intro db before s hdb hs hloop
      rw [(hs.services_of_idle hdb hloop fd).1, (hs.framesFor_eq hloop fd).1]
    exact hflows (hidle s hs)

end

def life (db : DatabaseService) (actions : List (InterleavedAction W)) : Option (Interleaved W) :=
  run (Interleaved.step (fun _ => false)) (fun s action => s.keepsOwnership action) (bootWith db) actions

theorem lives_concat {lives : List (Interleaved W)} {s : Interleaved W} {actions : List (InterleavedAction W)}
    (hlives : Lives (Interleaved.step (fun _ => false)) (fun s action => s.keepsOwnership action) bootWith
      database {} lives)
    (hs : life (diskAfter database {} lives) actions = some s) :
    Lives (Interleaved.step (fun _ => false)) (fun s action => s.keepsOwnership action) bootWith database {}
      (lives ++ [s]) :=
  hlives.again (reaches_of_run hs)

/--
Two lives with a HELLO of two switches each, and one that ends when the first handler has pushed its flow and
not saved it.
-/
theorem database_of_lives_thrice :
    ∃ s s' s'' : Interleaved 2,
      Lives (Interleaved.step (fun _ => false)) (fun s action => s.keepsOwnership action) bootWith database {}
          [s, s', s'']
        ∧ (s''.handlers.shared.world.flows.getFlows (dpidOf 5)).map FlowEntry.columns = [defaultColumns]
        ∧ (database s'').rows.map (fun row => (row.id, row.dpid))
          = [(1, .integer 7), (2, .integer 5), (3, .integer 7), (4, .integer 5)]
        ∧ (database s'').rows
          = DatabaseService.rowsFor (DatabaseService.stored (fun _ => false) (insertsOf [s, s', s'']))
        ∧ ((database s').rowsOf (dpidOf 5)).map FlowsRow.columns
          = [s, s'].flatMap (fun s =>
            (s.handlers.shared.world.flows.getFlows (dpidOf 5)).map FlowEntry.columns) := by
  obtain ⟨s, hs, hstate⟩ : ∃ s : Interleaved 2, life {} crossedHellos = some s
      ∧ ((∀ i, s.server.workers i = .top 5 ∨ s.server.workers i = .top 7)
        ∧ (life (database s) crossedHellos).any (fun s' =>
          (∀ i, s'.server.workers i = .top 5 ∨ s'.server.workers i = .top 7)
            ∧ (life (database s') (crossedHellos.take 25)).any (fun s'' =>
              (s''.handlers.shared.world.flows.getFlows (dpidOf 5)).map FlowEntry.columns = [defaultColumns]
                ∧ (database s'').rows.map (fun row => (row.id, row.dpid))
                  = [(1, .integer 7), (2, .integer 5), (3, .integer 7), (4, .integer 5)])) : Bool) :=
    (Option.any_eq_true _ _).mp (by decide +kernel)
  rcases of_decide_eq_true hstate with ⟨hworkers, hstate⟩
  obtain ⟨s', hs', hstate⟩ := (Option.any_eq_true _ _).mp hstate
  rcases of_decide_eq_true hstate with ⟨hworkers', hstate⟩
  obtain ⟨s'', hs'', hstate⟩ := (Option.any_eq_true _ _).mp hstate
  rcases of_decide_eq_true hstate with ⟨hflows, hrows⟩
  have htwo := lives_concat (lives_concat .none hs) hs'
  have hthree := lives_concat htwo hs''
  refine ⟨s, s', s'', hthree, hflows, hrows, (database_of_lives hthree).1, ?_⟩
  refine (database_of_lives htwo).2.2.2 (fun _ => rfl) (fun t ht => ?_) 5 (by decide)
  rcases List.mem_pair.mp ht with rfl | rfl
  . exact Server.ne_loop_of_top hworkers
  . exact Server.ne_loop_of_top hworkers'

end Interleaved

end NetOrc
