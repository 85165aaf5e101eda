import Mathlib.Data.List.Nodup
import Mathlib.Order.Fin.Basic
import NetOrc.Southbound.PacketHandlers
import NetOrc.Transition.Basic

/-!
This module contains concurrent calls of `addFlow` as a transition system. A call pushes its entry under
the lock and persists it after the lock is released, so other calls may run in between.
-/

namespace NetOrc

open Transition

variable {n : Nat}

structure AddFlow where
  dpid : UInt64
  entry : FlowEntry
  deriving DecidableEq, Repr

def AddFlow.save (call : AddFlow) : SaveFlow where
  dpid := call.dpid
  inPort := call.entry.inPort
  actionPort := .ofNat call.entry.actionOutputPort.toNat

inductive AddFlowPc where
  | called
  | pushed
  | returned
  deriving DecidableEq, Repr

structure AddFlows (n : Nat) where
  flows : FlowManager := {}
  db : DatabaseService := {}
  pcs : Fin n → AddFlowPc := fun _ => .called

inductive AddFlowStep (n : Nat) where
  | push (i : Fin n)
  | save (i : Fin n) (fails : Bool)
  deriving DecidableEq, Repr

namespace AddFlows

variable (calls : Fin n → AddFlow)

def step (s : AddFlows n) (a : AddFlowStep n) : Option (AddFlows n) :=
  match a with
  | .push i =>
    if s.pcs i = .called then
      some { s with
        flows := s.flows.pushFlow (calls i).dpid (calls i).entry
        pcs := Function.update s.pcs i .pushed }
    else
      none
  | .save i fails =>
    if s.pcs i = .pushed then
      some { s with
        db := s.db.saveFlow fails (calls i).save
        pcs := Function.update s.pcs i .returned }
    else
      none

/--
No entry is pushed for a datapath id while another call for it waits for its row.
-/
def serial (dpid : UInt64) (s : AddFlows n) (a : AddFlowStep n) : Bool :=
  match a with
  | .push i => (calls i).dpid = dpid → ∀ j, s.pcs j = .pushed → (calls j).dpid ≠ dpid
  | .save _ _ => true

/-! The order in which the calls of a run push, and the one in which they insert. -/

def pushOrder (as : List (AddFlowStep n)) : List (Fin n) :=
  as.filterMap (fun a =>
    match a with
    | .push i => some i
    | .save _ _ => none)

def insertOrder (as : List (AddFlowStep n)) : List (Fin n) :=
  as.filterMap (fun a =>
    match a with
    | .save i false => some i
    | _ => none)

theorem pushOrder_push (as : List (AddFlowStep n)) (i : Fin n) :
    pushOrder (as ++ [.push i]) = pushOrder as ++ [i] := by
  rw [pushOrder, List.filterMap_append]
  rfl

theorem pushOrder_save (as : List (AddFlowStep n)) (i : Fin n) (fails : Bool) :
    pushOrder (as ++ [.save i fails]) = pushOrder as := by
  rw [pushOrder, List.filterMap_append]
  exact List.append_nil _

theorem insertOrder_push (as : List (AddFlowStep n)) (i : Fin n) :
    insertOrder (as ++ [.push i]) = insertOrder as := by
  rw [insertOrder, List.filterMap_append]
  exact List.append_nil _

theorem insertOrder_save (as : List (AddFlowStep n)) (i : Fin n) (fails : Bool) :
    insertOrder (as ++ [.save i fails]) = insertOrder as ++ if fails then [] else [i] := by
  rw [insertOrder, List.filterMap_append]
  cases fails <;> rfl

theorem mem_insertOrder {as : List (AddFlowStep n)} {i : Fin n} :
    i ∈ insertOrder as ↔ .save i false ∈ as := by
  unfold insertOrder
  rw [List.mem_filterMap]
  constructor
  . rintro ⟨a, ha, hi⟩
    split at hi
    . cases hi
      exact ha
    . contradiction
  . exact fun h => ⟨_, h, rfl⟩

end AddFlows

theorem addFlow_eq (insertFails : Nat → Bool) (call : AddFlow) (w : Services) :
    addFlow call.dpid call.entry (services insertFails).db w
      =
    { w with
      flows := w.flows.pushFlow call.dpid call.entry
      db := w.db.saveFlow (insertFails w.db.calls.length) call.save } := rfl

/-! The rows of a datapath id. -/

def DatabaseService.rowsOf (db : DatabaseService) (dpid : UInt64) : List FlowsRow :=
  db.rows.filter (fun row => row.dpid = .integer dpid.toNat)

def FlowsRow.columns (row : FlowsRow) : SqlValue × SqlValue := (row.inPort, row.actionPort)

def FlowEntry.columns (entry : FlowEntry) : SqlValue × SqlValue :=
  (.integer entry.inPort.toNat, .integer entry.actionOutputPort.toNat)

theorem columns_rowOf (id : Nat) (call : AddFlow) :
    (DatabaseService.rowOf id call.save).columns = call.entry.columns := by
  have hport := call.entry.inPort.toNat_lt
  have haction := call.entry.actionOutputPort.toNat_lt
  unfold FlowsRow.columns FlowEntry.columns DatabaseService.rowOf AddFlow.save sqlLiteral
  dsimp only
  rw [if_pos (by omega), Int32.toInt_ofNat_of_lt (by omega)]

theorem dpid_rowOf_iff (id : Nat) (call : AddFlow) {dpid : UInt64} (h : dpid.toNat < 2 ^ 63) :
    (DatabaseService.rowOf id call.save).dpid = .integer dpid.toNat ↔ call.dpid = dpid := by
  unfold DatabaseService.rowOf AddFlow.save sqlLiteral
  dsimp only
  rw [← UInt64.toNat_inj]
  split
  . rw [SqlValue.integer.injEq]
    omega
  . simp only [reduceCtorEq, false_iff]
    omega

namespace AddFlows

variable {calls : Fin n → AddFlow}

structure Recorded (calls : Fin n → AddFlow) (s : AddFlows n) (as : List (AddFlowStep n)) : Prop where
  flows : ∀ dpid, s.flows.getFlows dpid
    = ((pushOrder as).filter (fun i => (calls i).dpid = dpid)).map (fun i => (calls i).entry)
  rows : ∀ dpid, dpid.toNat < 2 ^ 63 → (s.db.rowsOf dpid).map FlowsRow.columns
    = ((insertOrder as).filter (fun i => (calls i).dpid = dpid)).map (fun i => (calls i).entry.columns)
  ids : s.db.rows.Pairwise (fun row row' => row.id < row'.id)
  nextId : ∀ row ∈ s.db.rows, row.id < s.db.nextId
  pushed : ∀ i, i ∈ pushOrder as ↔ s.pcs i ≠ .called
  inserted : ∀ i, i ∈ insertOrder as → s.pcs i = .returned
  returned : ∀ i, s.pcs i = .returned → i ∈ insertOrder as ∨ .save i true ∈ as
  pushOrder : (pushOrder as).Nodup
  insertOrder : (insertOrder as).Nodup

theorem Recorded.not_mem_insertOrder {s : AddFlows n} {as : List (AddFlowStep n)}
    (hs : Recorded calls s as) {i : Fin n} {pc : AddFlowPc} (hpc : s.pcs i = pc) (hne : pc ≠ .returned) :
    i ∉ AddFlows.insertOrder as := by
  intro hi
  apply hne
  rw [← hpc, hs.inserted i hi]

theorem Recorded.push {s : AddFlows n} {as : List (AddFlowStep n)} (hs : Recorded calls s as) {i : Fin n}
    (hpc : s.pcs i = .called) :
    Recorded calls { s with
      flows := s.flows.pushFlow (calls i).dpid (calls i).entry
      pcs := Function.update s.pcs i .pushed } (as ++ [.push i]) where
  flows := by
    intro dpid
    rw [FlowManager.getFlows_pushFlow, pushOrder_push, List.filter_append, List.map_append, hs.flows,
      hs.flows]
    by_cases hdpid : dpid = (calls i).dpid
    . simp [hdpid]
    . simp [hdpid, Ne.symm hdpid]
  rows := by
    rw [insertOrder_push]
    exact hs.rows
  ids := hs.ids
  nextId := hs.nextId
  pushed := by
    intro j
    rw [pushOrder_push]
    by_cases hj : j = i
    . simp [hj]
    . simp [hj, hs.pushed]
  inserted := by
    intro j hj
    rw [insertOrder_push] at hj
    have hne : j ≠ i := by
      rintro rfl
      exact hs.not_mem_insertOrder hpc nofun hj
    simp [hne, hs.inserted j hj]
  returned := by
    intro j hj
    have hne : j ≠ i := by
      rintro rfl
      simp at hj
    rw [insertOrder_push]
    simpa using hs.returned j (by simpa [hne] using hj)
  pushOrder := by
    have hi : i ∉ AddFlows.pushOrder as := fun hi => (hs.pushed i).mp hi hpc
    rw [pushOrder_push]
    exact hs.pushOrder.append (List.nodup_singleton i) (by simpa using hi)
  insertOrder := by
    rw [insertOrder_push]
    exact hs.insertOrder

theorem Recorded.save {s : AddFlows n} {as : List (AddFlowStep n)} (hs : Recorded calls s as) {i : Fin n}
    (hpc : s.pcs i = .pushed) (fails : Bool) :
    Recorded calls { s with
      db := s.db.saveFlow fails (calls i).save
      pcs := Function.update s.pcs i .returned } (as ++ [.save i fails]) where
  flows := by
    rw [pushOrder_save]
    exact hs.flows
  rows := by
    intro dpid hdpid
    have hrow := dpid_rowOf_iff s.db.nextId (calls i) hdpid
    have hrows := hs.rows dpid hdpid
    rw [insertOrder_save]
    unfold DatabaseService.rowsOf at hrows ⊢
    cases fails with
    | true => simpa [DatabaseService.saveFlow] using hrows
    | false =>
      simp only [DatabaseService.saveFlow, Bool.false_eq_true, if_false, List.filter_append,
        List.map_append, hrows]
      by_cases hcall : (calls i).dpid = dpid
      . simp [hrow.mpr hcall, hcall, columns_rowOf]
      . simp [hrow, hcall]
  ids := by
    cases fails with
    | true => exact hs.ids
    | false =>
      simp only [DatabaseService.saveFlow, Bool.false_eq_true, if_false, List.pairwise_append]
      refine ⟨hs.ids, by simp, fun row hrow row' hrow' => ?_⟩
      rw [List.mem_singleton.mp hrow']
      exact hs.nextId row hrow
  nextId := by
    cases fails with
    | true => exact hs.nextId
    | false =>
      intro row hrow
      simp only [DatabaseService.saveFlow, Bool.false_eq_true, if_false, List.mem_append,
        List.mem_singleton] at hrow ⊢
      cases hrow with
      | inl hold => exact Nat.lt_succ_of_lt (hs.nextId row hold)
      | inr hnew => rw [hnew]; exact Nat.lt_succ_self _
  pushed := by
    intro j
    rw [pushOrder_save]
    by_cases hj : j = i
    . simp [hj, hs.pushed, hpc]
    . simp [hj, hs.pushed]
  inserted := by
    intro j hj
    by_cases hij : j = i
    . simp [hij]
    . rw [insertOrder_save] at hj
      have hj : j ∈ AddFlows.insertOrder as := by
        cases fails <;> simpa [hij] using hj
      simp [hij, hs.inserted j hj]
  returned := by
    intro j hj
    rw [insertOrder_save]
    by_cases hij : j = i
    . cases fails <;> simp [hij]
    . have hold := hs.returned j (by simpa [hij] using hj)
      rcases hold with hold | hold
      . exact .inl (List.mem_append_left _ hold)
      . exact .inr (List.mem_append_left _ hold)
  pushOrder := by
    rw [pushOrder_save]
    exact hs.pushOrder
  insertOrder := by
    have hi : i ∉ AddFlows.insertOrder as := hs.not_mem_insertOrder hpc nofun
    rw [insertOrder_save]
    cases fails with
    | true => simpa using hs.insertOrder
    | false => exact hs.insertOrder.append (List.nodup_singleton i) (by simpa using hi)

theorem Recorded.step {s s' : AddFlows n} {as : List (AddFlowStep n)} {a : AddFlowStep n}
    (hs : Recorded calls s as) (h : step calls s a = some s') : Recorded calls s' (as ++ [a]) := by
  unfold AddFlows.step at h
  split at h
  . split at h
    . next hpc => cases h; exact hs.push hpc
    . contradiction
  . split at h
    . next hpc => cases h; exact hs.save hpc _
    . contradiction

theorem recorded_init : Recorded calls {} [] := by
  constructor <;> simp [FlowManager.getFlows, DatabaseService.rowsOf, AddFlows.pushOrder,
    AddFlows.insertOrder]

/-! Calls that do not overlap. -/

structure Ordered (calls : Fin n → AddFlow) (dpid : UInt64) (s : AddFlows n)
    (as : List (AddFlowStep n)) : Prop where
  last : ∀ j, s.pcs j = .pushed → (calls j).dpid = dpid →
    ∃ before, (pushOrder as).filter (fun i => (calls i).dpid = dpid) = before ++ [j]
  order : (insertOrder as).filter (fun i => (calls i).dpid = dpid)
    = ((pushOrder as).filter (fun i => (calls i).dpid = dpid)).filter (fun i => i ∈ insertOrder as)

variable {dpid : UInt64}

theorem Ordered.push {s : AddFlows n} {as : List (AddFlowStep n)} (hs : Ordered calls dpid s as)
    (hrecorded : Recorded calls s as) {i : Fin n} (hpc : s.pcs i = .called)
    (hserial : (calls i).dpid = dpid → ∀ j, s.pcs j = .pushed → (calls j).dpid ≠ dpid) :
    Ordered calls dpid { s with
      flows := s.flows.pushFlow (calls i).dpid (calls i).entry
      pcs := Function.update s.pcs i .pushed } (as ++ [.push i]) where
  last := by
    intro j hj hdpid
    rw [pushOrder_push]
    by_cases hij : j = i
    . subst hij
      exact ⟨(pushOrder as).filter (fun i => (calls i).dpid = dpid), by simp [hdpid]⟩
    . have hj : s.pcs j = .pushed := by simpa [hij] using hj
      have hother : (calls i).dpid ≠ dpid := fun hi => hserial hi j hj hdpid
      rcases hs.last j hj hdpid with ⟨before, hbefore⟩
      exact ⟨before, by simp [hbefore, hother]⟩
  order := by
    have hi : i ∉ insertOrder as := hrecorded.not_mem_insertOrder hpc nofun
    rw [insertOrder_push, pushOrder_push, hs.order, List.filter_append, List.filter_append]
    by_cases hdpid : (calls i).dpid = dpid
    . simp [hdpid, hi]
    . simp [hdpid]

theorem Ordered.save {s : AddFlows n} {as : List (AddFlowStep n)} (hs : Ordered calls dpid s as)
    (hrecorded : Recorded calls s as) {i : Fin n} (hpc : s.pcs i = .pushed) (fails : Bool) :
    Ordered calls dpid { s with
      db := s.db.saveFlow fails (calls i).save
      pcs := Function.update s.pcs i .returned } (as ++ [.save i fails]) where
  last := by
    intro j hj hdpid
    rw [pushOrder_save]
    by_cases hij : j = i
    . simp [hij] at hj
    . exact hs.last j (by simpa [hij] using hj) hdpid
  order := by
    rw [pushOrder_save, insertOrder_save]
    cases fails with
    | true => simpa using hs.order
    | false =>
      have hsame : ∀ js : List (Fin n), (∀ j ∈ js, j ≠ i) →
          js.filter (fun j => j ∈ insertOrder as ++ [i]) = js.filter (fun j => j ∈ insertOrder as) := by
        intro js hjs
        apply List.filter_congr
        intro j hj
        simp [hjs j hj]
      by_cases hdpid : (calls i).dpid = dpid
      . -- the new row belongs to the last pushed entry, the rows before it stay as they are
        rcases hs.last i hpc hdpid with ⟨before, hbefore⟩
        have hnodup := hrecorded.pushOrder.filter (fun j => decide ((calls j).dpid = dpid))
        have hi : i ∉ insertOrder as := hrecorded.not_mem_insertOrder hpc nofun
        have horder := hs.order
        rw [hbefore] at hnodup horder
        have hne : ∀ j ∈ before, j ≠ i := by
          rintro j hj rfl
          exact (List.disjoint_of_nodup_append hnodup) hj (by simp)
        rw [if_neg Bool.false_ne_true, List.filter_append, horder, hbefore, List.filter_append,
          List.filter_append, hsame before hne]
        simp [hdpid, hi]
      . rw [if_neg Bool.false_ne_true, List.filter_append, hs.order, hsame]
        . simp [hdpid]
        . rintro j hj rfl
          exact hdpid (of_decide_eq_true (List.mem_filter.mp hj).2)

theorem Ordered.step {s s' : AddFlows n} {as : List (AddFlowStep n)} {a : AddFlowStep n}
    (hs : Ordered calls dpid s as) (hrecorded : Recorded calls s as) (hserial : serial calls dpid s a)
    (h : step calls s a = some s') : Ordered calls dpid s' (as ++ [a]) := by
  unfold AddFlows.step at h
  split at h
  . split at h
    . next hpc => cases h; exact hs.push hrecorded hpc (of_decide_eq_true hserial)
    . contradiction
  . split at h
    . next hpc => cases h; exact hs.save hrecorded hpc _
    . contradiction

theorem ordered_init : Ordered calls dpid {} [] := by
  constructor <;> simp [pushOrder, insertOrder]

theorem recorded_of_run {guard : AddFlows n → AddFlowStep n → Bool} {s : AddFlows n}
    {as : List (AddFlowStep n)} (h : run (step calls) guard {} as = some s) : Recorded calls s as :=
  invariant_of_run (Recorded calls) (fun _ _ _ _ hs _ hstep => hs.step hstep) recorded_init h

theorem ordered_of_run {s : AddFlows n} {as : List (AddFlowStep n)}
    (h : run (step calls) (serial calls dpid) {} as = some s) : Ordered calls dpid s as := by
  have hinv : Recorded calls s as ∧ Ordered calls dpid s as := by
    refine invariant_of_run (fun s as => Recorded calls s as ∧ Ordered calls dpid s as) ?_
      ⟨recorded_init, ordered_init⟩ h
    intro s past a s' hs hserial hstep
    exact ⟨hs.1.step hstep, hs.2.step hs.1 hserial hstep⟩
  exact hinv.2

end AddFlows

/--
Once all calls of a run have returned, the flow table of a datapath id lists its entries in the order of the
pushes, and the rows of the database are, up to their order, the entries whose `INSERT` succeeded. They
are in the same order if the calls for this datapath id do not overlap. If no `INSERT` has failed, the two
hold the same entries, and without an overlap in the same order.
-/
theorem rows_of_returned (calls : Fin n → AddFlow) (as : List (AddFlowStep n)) (s : AddFlows n)
    (h : run (AddFlows.step calls) (fun _ _ => true) {} as = some s)
    (hreturned : ∀ i, s.pcs i = .returned) (dpid : UInt64) (hdpid : dpid.toNat < 2 ^ 63) :
    let pushed := (AddFlows.pushOrder as).filter (fun i => (calls i).dpid = dpid)
    let stored := pushed.filter (fun i => .save i false ∈ as)
    let rows := (s.db.rowsOf dpid).map FlowsRow.columns
    let separate := run (AddFlows.step calls) (AddFlows.serial calls dpid) {} as = some s
    (∀ i, i ∈ pushed ↔ (calls i).dpid = dpid)
      ∧ pushed.Nodup
      ∧ s.flows.getFlows dpid = pushed.map (fun i => (calls i).entry)
      ∧ (s.db.rowsOf dpid).Pairwise (fun row row' => row.id < row'.id)
      ∧ rows.Perm (stored.map (fun i => (calls i).entry.columns))
      ∧ (separate → rows = stored.map (fun i => (calls i).entry.columns))
      ∧ ((∀ i, .save i true ∉ as) →
        rows.Perm ((s.flows.getFlows dpid).map FlowEntry.columns)
          ∧ (separate → rows = (s.flows.getFlows dpid).map FlowEntry.columns)) := by
  intro pushed stored rows separate
  have hs := AddFlows.recorded_of_run h
  have hstored : stored = pushed.filter (fun i => i ∈ AddFlows.insertOrder as) := by
    apply List.filter_congr
    intro i _
    exact decide_eq_decide.mpr AddFlows.mem_insertOrder.symm
  have hpushed : ∀ i, i ∈ pushed ↔ (calls i).dpid = dpid := by
    intro i
    simp [pushed, hs.pushed, hreturned]
  have hperm : rows.Perm (stored.map (fun i => (calls i).entry.columns)) := by
    rw [show rows = _ from hs.rows dpid hdpid, hstored]
    apply List.Perm.map
    refine (List.perm_ext_iff_of_nodup (hs.insertOrder.filter _) ((hs.pushOrder.filter _).filter _)).mpr
      (fun i => ?_)
    simp [hs.pushed, hreturned, and_comm]
  have hseparate : separate → rows = stored.map (fun i => (calls i).entry.columns) := by
    intro hserial
    rw [show rows = _ from hs.rows dpid hdpid, (AddFlows.ordered_of_run hserial).order, hstored]
  refine ⟨hpushed, hs.pushOrder.filter _, hs.flows dpid, hs.ids.filter _, hperm, hseparate,
    fun hsucceeds => ?_⟩
  have hall : (s.flows.getFlows dpid).map FlowEntry.columns
      = stored.map (fun i => (calls i).entry.columns) := by
    have hinserted : stored = pushed := by
      rw [hstored, List.filter_eq_self]
      intro i _
      exact decide_eq_true ((hs.returned i (hreturned i)).resolve_right (hsucceeds i))
    rw [hs.flows dpid, hinserted, List.map_map]
    rfl
  rw [hall]
  exact ⟨hperm, hseparate⟩

def twoCalls (i : Fin 2) : AddFlow where
  dpid := 5
  entry := { inPort := if i = 0 then 1 else 2, actionOutputPort := 2, tpSrc := 0, tpDst := 0 }

theorem rows_of_returned_twoCalls :
    (∃ s : AddFlows 2,
      run (AddFlows.step twoCalls) (fun _ _ => true) {}
          [.push 0, .push 1, .save 1 false, .save 0 true] = some s
        ∧ ((s.db.rowsOf 5).map FlowsRow.columns).Perm [(twoCalls 1).entry.columns])
      ∧ ∃ s : AddFlows 2,
        run (AddFlows.step twoCalls) (fun _ _ => true) {}
            [.push 0, .save 0 false, .push 1, .save 1 false] = some s
          ∧ (s.db.rowsOf 5).map FlowsRow.columns = (s.flows.getFlows 5).map FlowEntry.columns := by
  constructor
  . obtain ⟨s, hs, hreturned⟩ : ∃ s : AddFlows 2,
        run (AddFlows.step twoCalls) (fun _ _ => true) {}
            [.push 0, .push 1, .save 1 false, .save 0 true] = some s
          ∧ ∀ i, s.pcs i = .returned :=
      ⟨_, rfl, by decide +kernel⟩
    exact ⟨s, hs, (rows_of_returned twoCalls _ s hs hreturned 5 (by decide)).2.2.2.2.1⟩
  . obtain ⟨s, hs, hserial, hreturned⟩ : ∃ s : AddFlows 2,
        run (AddFlows.step twoCalls) (fun _ _ => true) {}
            [.push 0, .save 0 false, .push 1, .save 1 false] = some s
          ∧ run (AddFlows.step twoCalls) (AddFlows.serial twoCalls 5) {}
            [.push 0, .save 0 false, .push 1, .save 1 false] = some s
          ∧ ∀ i, s.pcs i = .returned :=
      ⟨_, rfl, rfl, by decide +kernel⟩
    exact ⟨s, hs, ((rows_of_returned twoCalls _ s hs hreturned 5 (by decide)).2.2.2.2.2.2 (by decide)).2
      hserial⟩

/--
The two calls push in one order and persist in the other. With a failing `INSERT`, a row is missing.
-/
theorem rows_of_twoCalls :
    (∃ s : AddFlows 2,
      Reaches (AddFlows.step twoCalls) (fun _ _ => True) {} s
        ∧ (∀ i, s.pcs i = .returned)
        ∧ (s.flows.getFlows 5).map FlowEntry.columns
          = [(.integer 1, .integer 2), (.integer 2, .integer 2)]
        ∧ (s.db.rowsOf 5).map FlowsRow.columns
          = [(.integer 2, .integer 2), (.integer 1, .integer 2)])
      ∧ ∃ s : AddFlows 2,
        Reaches (AddFlows.step twoCalls) (fun _ _ => True) {} s
          ∧ (∀ i, s.pcs i = .returned)
          ∧ (s.flows.getFlows 5).map FlowEntry.columns
            = [(.integer 1, .integer 2), (.integer 2, .integer 2)]
          ∧ (s.db.rowsOf 5).map FlowsRow.columns = [(.integer 2, .integer 2)] := by
  constructor
  . obtain ⟨s, hs, h⟩ : ∃ s : AddFlows 2,
        run (AddFlows.step twoCalls) (fun _ _ => true) {}
            [.push 0, .push 1, .save 1 false, .save 0 false] = some s
          ∧ (∀ i, s.pcs i = .returned)
          ∧ (s.flows.getFlows 5).map FlowEntry.columns
            = [(.integer 1, .integer 2), (.integer 2, .integer 2)]
          ∧ (s.db.rowsOf 5).map FlowsRow.columns
            = [(.integer 2, .integer 2), (.integer 1, .integer 2)] :=
      ⟨_, rfl, by decide +kernel, by decide +kernel, by decide +kernel⟩
    exact ⟨s, (reaches_of_run hs).weaken (fun _ _ _ => trivial), h⟩
  . obtain ⟨s, hs, h⟩ : ∃ s : AddFlows 2,
        run (AddFlows.step twoCalls) (fun _ _ => true) {}
            [.push 0, .save 0 true, .push 1, .save 1 false] = some s
          ∧ (∀ i, s.pcs i = .returned)
          ∧ (s.flows.getFlows 5).map FlowEntry.columns
            = [(.integer 1, .integer 2), (.integer 2, .integer 2)]
          ∧ (s.db.rowsOf 5).map FlowsRow.columns = [(.integer 2, .integer 2)] :=
      ⟨_, rfl, by decide +kernel, by decide +kernel, by decide +kernel⟩
    exact ⟨s, (reaches_of_run hs).weaken (fun _ _ _ => trivial), h⟩

end NetOrc
