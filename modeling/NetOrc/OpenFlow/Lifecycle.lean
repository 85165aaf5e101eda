import NetOrc.OpenFlow.Handshake
import NetOrc.OpenFlow.Routing

/-!
This module characterises the session state by the messages received: which of them lift a connection to
HELLO_DONE, FEATURES_DONE and ACTIVE, and which state the handlers see.
-/

namespace Oflib

open Framing

variable {σ τ : Type}

namespace SessionState

def rank (state : SessionState) : Nat :=
  match state with
  | .connected => 0
  | .helloDone => 1
  | .featuresDone => 2
  | .active => 3
  | .closing => 4

theorem rank_le_advance (state : SessionState) (type : PacketType) :
    state.rank ≤ (state.advance type).rank := by
  cases state with
  | connected => exact Nat.zero_le _
  | helloDone => rw [advance_helloDone]; split <;> decide
  | featuresDone => show 2 ≤ 3; decide
  | active => exact Nat.le_refl _
  | closing => exact Nat.le_refl _

theorem one_le_rank_advance_iff (state : SessionState) (type : PacketType) :
    1 ≤ (state.advance type).rank ↔ 1 ≤ state.rank ∨ type = .hello := by
  cases state with
  | connected => rw [advance_connected]; split <;> simp [rank, *]
  | helloDone => rw [advance_helloDone]; split <;> simp [rank]
  | featuresDone => simp [rank, advance, advanceLifecycle]
  | active => simp [rank, advance, advanceLifecycle]
  | closing => simp [rank, advance, advanceLifecycle]

theorem two_le_rank_advance_iff (state : SessionState) (type : PacketType) :
    2 ≤ (state.advance type).rank ↔ 2 ≤ state.rank ∨ (1 ≤ state.rank ∧ type.isFeatures) := by
  cases state with
  | connected => rw [advance_connected]; split <;> simp [rank]
  | helloDone => rw [advance_helloDone]; split <;> simp [rank, *]
  | featuresDone => simp [rank, advance, advanceLifecycle]
  | active => simp [rank, advance, advanceLifecycle]
  | closing => simp [rank, advance, advanceLifecycle]

theorem three_le_rank_advance_iff (state : SessionState) (type : PacketType) :
    3 ≤ (state.advance type).rank ↔ 2 ≤ state.rank := by
  cases state with
  | connected => rw [advance_connected]; split <;> simp [rank]
  | helloDone => rw [advance_helloDone]; split <;> simp [rank]
  | featuresDone => simp [rank, advance, advanceLifecycle]
  | active => simp [rank, advance, advanceLifecycle]
  | closing => simp [rank, advance, advanceLifecycle]

theorem advance_ne_closing {state : SessionState} (h : state ≠ .closing) (type : PacketType) :
    state.advance type ≠ .closing := by
  cases state with
  | connected => rw [advance_connected]; split <;> simp
  | helloDone => rw [advance_helloDone]; split <;> simp
  | featuresDone => simp [advance, advanceLifecycle]
  | active => simp [advance, advanceLifecycle]
  | closing => contradiction

theorem after_append (state : SessionState) (types types' : List PacketType) :
    state.after (types ++ types') = (state.after types).after types' :=
  List.foldl_append

theorem after_concat (state : SessionState) (types : List PacketType) (type : PacketType) :
    state.after (types ++ [type]) = (state.after types).advance type :=
  after_append state types [type]

theorem rank_le_after (state : SessionState) (types : List PacketType) :
    state.rank ≤ (state.after types).rank := by
  induction types generalizing state with
  | nil => exact Nat.le_refl _
  | cons type types ih => exact (rank_le_advance state type).trans (ih (state.advance type))

theorem after_ne_closing {state : SessionState} (h : state ≠ .closing) (types : List PacketType) :
    state.after types ≠ .closing := by
  induction types generalizing state with
  | nil => exact h
  | cons type types ih => exact ih (advance_ne_closing h type)

end SessionState

/-! The messages that lift a connection, by their positions. -/

def Greets (types : List PacketType) : Prop := ∃ i : Nat, types[i]? = some .hello

def FeaturesAt (types : List PacketType) (j : Nat) : Prop :=
  ∃ i < j, types[i]? = some .hello ∧ (types[j]? = some .featuresReply ∨ types[j]? = some .featuresRequest)

theorem featuresAt_concat_iff (types : List PacketType) (type : PacketType) (j : Nat) :
    FeaturesAt (types ++ [type]) j
      ↔
    FeaturesAt types j ∨ (j = types.length ∧ Greets types ∧ type.isFeatures) := by
  unfold FeaturesAt Greets PacketType.isFeatures
  rcases Nat.lt_trichotomy j types.length with hj | hj | hj
  . have hlt : ∀ i < j, (types ++ [type])[i]? = types[i]? := by
      intro i hi
      exact List.getElem?_append_left (by omega)
    rw [List.getElem?_append_left hj]
    have hne : j ≠ types.length := by omega
    simp only [hne, false_and, or_false]
    apply exists_congr
    intro i
    constructor
    . rintro ⟨hi, h⟩
      rw [hlt i hi] at h
      exact ⟨hi, h⟩
    . rintro ⟨hi, h⟩
      rw [← hlt i hi] at h
      exact ⟨hi, h⟩
  . subst hj
    simp only [List.getElem?_concat_length, List.getElem?_eq_none (Nat.le_refl types.length),
      Option.some.injEq, reduceCtorEq, or_self, and_false, exists_false, false_or, true_and,
      decide_eq_true_eq]
    constructor
    . rintro ⟨i, hi, hhello, hfeatures⟩
      rw [List.getElem?_append_left hi] at hhello
      exact ⟨⟨i, hhello⟩, hfeatures⟩
    . rintro ⟨⟨i, hhello⟩, hfeatures⟩
      have hi := (List.getElem?_eq_some_iff.mp hhello).1
      refine ⟨i, hi, ?_, hfeatures⟩
      rw [List.getElem?_append_left hi]
      exact hhello
  . have hne : j ≠ types.length := by omega
    rw [List.getElem?_eq_none (l := types ++ [type]) (by simp; omega),
      List.getElem?_eq_none (l := types) (by omega)]
    simp [hne]

theorem FeaturesAt.lt_length {types : List PacketType} {j : Nat} (h : FeaturesAt types j) :
    j < types.length := by
  rcases h with ⟨i, _, _, h | h⟩
  all_goals exact (List.getElem?_eq_some_iff.mp h).1

namespace SessionState

theorem one_le_rank_after_iff (types : List PacketType) :
    1 ≤ (SessionState.connected.after types).rank ↔ Greets types := by
  unfold Greets
  rw [← List.mem_iff_getElem?]
  induction types using List.reverseRecOn with
  | nil => simp [after, rank]
  | append_singleton types type ih =>
    rw [after_concat, one_le_rank_advance_iff, ih, List.mem_append, List.mem_singleton, eq_comm]

theorem two_le_rank_after_iff (types : List PacketType) :
    2 ≤ (SessionState.connected.after types).rank ↔ ∃ j, FeaturesAt types j := by
  induction types using List.reverseRecOn with
  | nil => simp [after, rank, FeaturesAt]
  | append_singleton types type ih =>
    rw [after_concat, two_le_rank_advance_iff, ih, one_le_rank_after_iff]
    simp only [featuresAt_concat_iff, exists_or, exists_eq_left]

theorem eq_active_iff_rank {state : SessionState} (h : state ≠ .closing) :
    state = .active ↔ 3 ≤ state.rank := by
  cases state with
  | closing => contradiction
  | _ => simp [rank]

theorem after_eq_active_iff (types : List PacketType) :
    SessionState.connected.after types = .active
      ↔
    ∃ j k, FeaturesAt types j ∧ j < k ∧ k < types.length := by
  rw [eq_active_iff_rank (after_ne_closing (by decide) types)]
  rcases List.eq_nil_or_concat types with rfl | ⟨types, type, rfl⟩
  . simp [after, rank]
  . rw [List.concat_eq_append, after_concat, three_le_rank_advance_iff, two_le_rank_after_iff,
      List.length_append, List.length_singleton]
    simp only [featuresAt_concat_iff]
    constructor
    . rintro ⟨j, h⟩
      have hj := h.lt_length
      exact ⟨j, types.length, .inl h, hj, Nat.lt_succ_self _⟩
    . rintro ⟨j, k, h | ⟨rfl, _⟩, hjk, hk⟩
      . exact ⟨j, h⟩
      . omega

end SessionState

/-! The states along a run of `ingest` calls. -/

def StatesFrom (state : SessionState) (log : List Dispatched) : Prop :=
  ∀ k d, log[k]? = some d → d.state = state.after ((log.take (k + 1)).map Dispatched.type)

theorem StatesFrom.nil (state : SessionState) : StatesFrom state [] := by
  intro k d h
  simp at h

theorem StatesFrom.cons {state : SessionState} {d : Dispatched} {log : List Dispatched}
    (hd : d.state = state.advance d.type) (hlog : StatesFrom d.state log) :
    StatesFrom state (d :: log) := by
  intro k d' h
  cases k with
  | zero =>
    cases h
    exact hd
  | succ k =>
    rw [hlog k d' h, hd]
    rfl

theorem StatesFrom.append {state : SessionState} {log log' : List Dispatched}
    (hlog : StatesFrom state log)
    (hlog' : StatesFrom (state.after (log.map Dispatched.type)) log') :
    StatesFrom state (log ++ log') := by
  intro k d h
  rcases Nat.lt_or_ge k log.length with hk | hk
  . rw [List.getElem?_append_left hk] at h
    rw [hlog k d h, List.take_append_of_le_length hk]
  . rw [List.getElem?_append_right hk] at h
    rw [hlog' _ d h, ← SessionState.after_append, ← List.map_append, List.take_append,
      List.take_of_length_le (l := log) (by omega), Nat.sub_add_comm hk]

def KeepsState (dispatch : PacketType → HandlerFn τ) : Prop :=
  ∀ type conn frame w, ((dispatch type).call conn frame w).conn.state = conn.state

namespace OpenFlowEndpoint

theorem keepsState_dispatch {ep : OpenFlowEndpoint σ}
    (h : ∀ type, ∀ entry ∈ ep.handlers type, ∀ conn frame w,
      (entry.handler.call conn frame w).conn.state = conn.state) : KeepsState ep.dispatch := by
  intro type conn frame w
  unfold dispatch
  dsimp only
  split
  . rfl
  . next handler hroute =>
    rcases Option.map_eq_some_iff.mp hroute with ⟨entry, hfind, rfl⟩
    exact h type entry (List.mem_of_find?_eq_some hfind) conn frame w

def handled (ep : OpenFlowEndpoint σ) (log : List Dispatched) : List (Frame × SessionState) :=
  log.filterMap (fun d => (ep.route d.type d.frame).map (fun _ => (d.frame, d.state)))

theorem handled_append (ep : OpenFlowEndpoint σ) (log log' : List Dispatched) :
    ep.handled (log ++ log') = ep.handled log ++ ep.handled log' :=
  List.filterMap_append

def seen (invs : List (Invocation σ)) : List (Frame × SessionState) :=
  invs.map (fun inv => (inv.frame, inv.conn.state))

structure Follows (state : SessionState) (log : List Dispatched) (conn : Connection) : Prop where
  state_eq : conn.state = state.after (log.map Dispatched.type)
  states : StatesFrom state log

theorem Follows.append {state : SessionState} {log log' : List Dispatched} {conn conn' : Connection}
    (h : Follows state log conn) (h' : Follows conn.state log' conn') :
    Follows state (log ++ log') conn' := by
  have hstate := h.state_eq
  refine ⟨?_, h.states.append (hstate ▸ h'.states)⟩
  rw [h'.state_eq, hstate, List.map_append, SessionState.after_append]

theorem ingestStep_ret_state {ep : OpenFlowEndpoint σ} {dispatch : PacketType → HandlerFn τ}
    {conn conn' : Connection} {w : τ} {verdict : Bool}
    (h : ep.ingestStep dispatch conn w = .ret verdict conn') : conn'.state = conn.state := by
  rcases ingestStep_ret_cases h with ⟨_, _, rfl⟩ | ⟨_, _, rfl⟩ | ⟨f, rest, _, _, _, rfl⟩
  all_goals rfl

theorem ingestLoop_follows (ep : OpenFlowEndpoint σ) {dispatch : PacketType → HandlerFn τ}
    (hkeep : KeepsState dispatch) (conn : Connection) (w : τ) :
    Follows conn.state (ep.ingestLoop dispatch conn w []).dispatched
      (ep.ingestLoop dispatch conn w []).conn := by
  induction conn, w using ingest_induction ep dispatch with
  | ret conn w verdict conn' hstep =>
    rw [ingestLoop_of_ret hstep]
    exact ⟨ingestStep_ret_state hstep, .nil _⟩
  | dispatched conn w d r hstep ih =>
    rcases ingestStep_dispatched_eq hstep with ⟨rest, _, _, hd, hr⟩
    have htype : d.type = d.frame.type := congrArg Dispatched.type hd
    have hdstate : d.state = conn.state.advance d.type := by
      rw [htype]
      exact congrArg Dispatched.state hd
    have hstate : r.conn.state = d.state := by
      rw [hr, hkeep, hdstate, htype]
    have hone : Follows conn.state [d] r.conn :=
      ⟨hstate.trans hdstate, .cons hdstate (.nil _)⟩
    rw [ingestLoop_of_dispatched hstep]
    cases hfault : r.fault with
    | some e => exact hone
    | none =>
      dsimp only
      rw [List.nil_append, ingestLoop_log ep dispatch r.conn r.world [d]]
      exact hone.append (ih hfault)

theorem ingestWith_follows (ep : OpenFlowEndpoint σ) {dispatch : PacketType → HandlerFn τ}
    (hkeep : KeepsState dispatch) (conn : Connection) (data : Bytes) (w : τ) :
    Follows conn.state (ep.ingestWith dispatch conn data w).dispatched
      (ep.ingestWith dispatch conn data w).conn := by
  unfold ingestWith
  split
  . exact ⟨rfl, .nil _⟩
  . exact ep.ingestLoop_follows hkeep { conn with inbuf := conn.inbuf ++ data } w

theorem seen_ingestLoop (ep : OpenFlowEndpoint σ) (conn : Connection) (w : σ) :
    seen (ep.invocations (ep.rounds ep.dispatch conn w))
      =
    ep.handled (ep.ingestLoop ep.dispatch conn w []).dispatched := by
  induction conn, w using ingest_induction ep ep.dispatch with
  | ret conn w verdict conn' hstep =>
    rw [ingestLoop_of_ret hstep, rounds_of_ret hstep]
    rcases ingestStep_ret_cases hstep with ⟨hcarve, _⟩ | ⟨hcarve, _⟩ | ⟨f, rest, hcarve, hvalid, _⟩
    . simp [hcarve, invocations, seen, handled]
    . simp [hcarve, invocations, seen, handled]
    . simp [hcarve, invocations, seen, handled, hvalid]
  | dispatched conn w d r hstep ih =>
    rcases ingestStep_dispatched_eq hstep with ⟨rest, hcarve, hvalid, hd, _⟩
    have htype : d.type = d.frame.type := congrArg Dispatched.type hd
    have hstate : (⟨conn, w, d.frame⟩ : Round σ).received.state = d.state := by
      rw [Round.received_eq hcarve]
      exact (congrArg Dispatched.state hd).symm
    have hone : seen ((ep.route d.frame.type d.frame).map
        (⟨·, (⟨conn, w, d.frame⟩ : Round σ).received, d.frame⟩)).toList = ep.handled [d] := by
      unfold seen handled
      rw [List.filterMap_cons, htype, ← hstate]
      cases ep.route d.frame.type d.frame <;> rfl
    rw [ingestLoop_of_dispatched hstep, rounds_of_dispatched hstep, invocations_cons ep hvalid]
    unfold seen at hone ⊢
    rw [List.map_append, hone]
    cases hfault : r.fault with
    | some e => simp [invocations]
    | none =>
      dsimp only
      rw [List.nil_append, ingestLoop_log ep ep.dispatch r.conn r.world [d], handled_append]
      congr 1
      exact ih hfault

theorem recorded_ingest_log (ep : OpenFlowEndpoint σ) (conn : Connection) (data : Bytes) (w : σ)
    (invs : List (Invocation σ)) :
    ep.recorded.ingest conn data (w, invs)
      =
    let r := ep.ingest conn data w
    ⟨r.verdict, r.conn, (r.world, invs ++ ep.invocations (ep.ingestRounds ep.dispatch conn data w)),
      r.dispatched⟩ := by
  unfold ingest ingestWith ingestRounds
  split
  . simp [invocations]
  . rw [recorded_ingestLoop]

theorem seen_ingest (ep : OpenFlowEndpoint σ) (conn : Connection) (data : Bytes) (w : σ) :
    seen (ep.invocations (ep.ingestRounds ep.dispatch conn data w))
      =
    ep.handled (ep.ingest conn data w).dispatched := by
  unfold ingest ingestWith ingestRounds
  split
  . rfl
  . exact ep.seen_ingestLoop { conn with inbuf := conn.inbuf ++ data } w

/--
What a sequence of `ingest` calls on a connection leaves, whatever they return: the connection, the world
and the calls of `dispatch`.
-/
structure Ingested (σ : Type) where
  conn : Connection
  world : σ
  dispatched : List Dispatched

def ingestAll (ep : OpenFlowEndpoint σ) (conn : Connection) (chunks : List Bytes) (w : σ) : Ingested σ :=
  match chunks with
  | [] => ⟨conn, w, []⟩
  | c :: cs =>
    let r := ep.ingest conn c w
    let tail := ingestAll ep r.conn cs r.world
    { tail with dispatched := r.dispatched ++ tail.dispatched }

theorem ingestAll_follows (ep : OpenFlowEndpoint σ) (hkeep : KeepsState ep.dispatch) (conn : Connection)
    (chunks : List Bytes) (w : σ) :
    Follows conn.state (ep.ingestAll conn chunks w).dispatched (ep.ingestAll conn chunks w).conn := by
  induction chunks generalizing conn w with
  | nil => exact ⟨rfl, .nil _⟩
  | cons c cs ih =>
    apply (ep.ingestWith_follows hkeep conn c w).append
    apply ih

theorem recorded_ingestAll (ep : OpenFlowEndpoint σ) (conn : Connection) (chunks : List Bytes) (w : σ)
    (invs : List (Invocation σ)) :
    ∃ later, ep.recorded.ingestAll conn chunks (w, invs)
        = ⟨(ep.ingestAll conn chunks w).conn, ((ep.ingestAll conn chunks w).world, invs ++ later),
            (ep.ingestAll conn chunks w).dispatched⟩
      ∧ seen later = ep.handled (ep.ingestAll conn chunks w).dispatched := by
  induction chunks generalizing conn w invs with
  | nil => exact ⟨[], by simp [ingestAll], rfl⟩
  | cons c cs ih =>
    unfold ingestAll
    rw [recorded_ingest_log]
    dsimp only
    rcases ih (ep.ingest conn c w).conn (ep.ingest conn c w).world
      (invs ++ ep.invocations (ep.ingestRounds ep.dispatch conn c w)) with ⟨later, heq, hseen⟩
    rw [heq]
    refine ⟨ep.invocations (ep.ingestRounds ep.dispatch conn c w) ++ later, ?_, ?_⟩
    . rw [List.append_assoc]
    . rw [handled_append, ← ep.seen_ingest, ← hseen]
      exact List.map_append

end OpenFlowEndpoint

open OpenFlowEndpoint

/--
On a connection that starts in CONNECTED, with handlers that leave the session state alone: the state is
computed from the types of the accepted frames, it never moves backwards, it is reached by the messages
named here and by no others, and the handler of each frame sees the state that the frame leads to.
-/
theorem lifecycle_of_ingestAll (ep : OpenFlowEndpoint σ)
    (hkeep : ∀ type, ∀ entry ∈ ep.handlers type, ∀ conn frame w,
      (entry.handler.call conn frame w).conn.state = conn.state)
    (conn : Connection) (hconn : conn.state = .connected) (chunks : List Bytes) (w : σ) :
    let r := ep.recorded.ingestAll conn chunks (w, [])
    let types := r.dispatched.map Dispatched.type
    (∀ m n, m ≤ n →
        (SessionState.connected.after (types.take m)).rank
          ≤ (SessionState.connected.after (types.take n)).rank)
      ∧ (SessionState.helloDone.rank ≤ r.conn.state.rank ↔ ∃ i : Nat, types[i]? = some .hello)
      ∧ (SessionState.featuresDone.rank ≤ r.conn.state.rank ↔ ∃ j, FeaturesAt types j)
      ∧ (r.conn.state = .active ↔ ∃ j k, FeaturesAt types j ∧ j < k ∧ k < types.length)
      ∧ r.conn.state = SessionState.connected.after types ∧ r.conn.state ≠ .closing
      ∧ (∀ (k : Nat) d, r.dispatched[k]? = some d →
          d.state = SessionState.connected.after (types.take (k + 1)))
      ∧ r.world.2.map (fun inv => (inv.frame, inv.conn.state))
        = r.dispatched.filterMap (fun d => (ep.route d.type d.frame).map (fun _ => (d.frame, d.state)))
      := by
  intro r types
  rcases ep.recorded_ingestAll conn chunks w [] with ⟨later, heq, hseen⟩
  have hfollows := ep.ingestAll_follows (keepsState_dispatch hkeep) conn chunks w
  have hdispatched : r.dispatched = (ep.ingestAll conn chunks w).dispatched :=
    congrArg Ingested.dispatched heq
  have hr : Follows conn.state r.dispatched r.conn := by
    unfold r
    rw [heq]
    exact hfollows
  rw [hconn] at hr
  have hstate : r.conn.state = SessionState.connected.after types := hr.state_eq
  rw [hstate]
  refine ⟨?_, SessionState.one_le_rank_after_iff types, SessionState.two_le_rank_after_iff types,
    SessionState.after_eq_active_iff types, rfl, ?_, ?_, ?_⟩
  . intro m n hmn
    rw [← Nat.add_sub_cancel' hmn, List.take_add, SessionState.after_append]
    apply SessionState.rank_le_after
  . apply SessionState.after_ne_closing
    decide
  . intro k d hd
    rw [hr.states k d hd, List.map_take]
  . rw [hdispatched]
    unfold r
    rw [heq, List.nil_append]
    exact hseen

def notesStates : OpenFlowEndpoint (List SessionState) :=
  ({} : OpenFlowEndpoint (List SessionState)).on .echoRequest
    { call := fun conn _ w => ⟨conn, w ++ [conn.state], none⟩
      length_le := fun _ _ _ => Nat.le_refl _ }

def handshakeThenEcho : Bytes := [
  0x01, 0x00, 0x00, 0x08, 0x00, 0x00, 0x00, 0x01,
  0x01, 0x06, 0x00, 0x08, 0x00, 0x00, 0x00, 0x02,
  0x01, 0x02, 0x00, 0x08, 0x00, 0x00, 0x00, 0x03]

theorem lifecycle_of_ingestAll_handshakeThenEcho :
    let r := notesStates.recorded.ingestAll { fd := 7 } [handshakeThenEcho] ([], [])
    r.dispatched.map Dispatched.type = [.hello, .featuresReply, .echoRequest]
      ∧ r.conn.state = .active ∧ r.world.2.map (fun inv => inv.conn.state) = [.active] := by
  intro r
  have hkeep : ∀ type, ∀ entry ∈ notesStates.handlers type, ∀ conn frame w,
      (entry.handler.call conn frame w).conn.state = conn.state := by
    intro type entry hentry conn frame w
    unfold notesStates on at hentry
    by_cases htype : type = .echoRequest
    . simp only [htype, Function.update_self, List.nil_append, List.mem_singleton] at hentry
      rw [hentry]
    . simp [Function.update_of_ne htype] at hentry
  have hlifecycle := lifecycle_of_ingestAll notesStates hkeep { fd := 7 } rfl [handshakeThenEcho] []
  have htypes : r.dispatched.map Dispatched.type = [.hello, .featuresReply, .echoRequest] := by
    decide +kernel
  refine ⟨htypes, ?_, by decide +kernel⟩
  apply hlifecycle.2.2.2.1.mpr
  refine ⟨1, 2, ?_⟩
  change FeaturesAt (r.dispatched.map Dispatched.type) 1 ∧ 1 < 2
    ∧ 2 < (r.dispatched.map Dispatched.type).length
  rw [htypes]
  exact ⟨⟨0, by decide, rfl, .inl rfl⟩, by decide, by decide⟩

end Oflib
