import Mathlib.Data.List.TakeWhile
import NetOrc.OpenFlow.Session

/-!
This module relates the session state to the messages received, and states the handshake gate: general
traffic is only handled once HELLO and FEATURES have been exchanged.
-/

namespace Oflib

def PacketType.isFeatures (type : PacketType) : Bool :=
  type = .featuresReply ∨ type = .featuresRequest

def PacketType.isHandshake (type : PacketType) : Bool := type = .hello ∨ type.isFeatures

def HandshakeDone (types : List PacketType) : Prop :=
  ∃ type ∈ types.dropWhile (fun type => type ≠ .hello), type.isFeatures

instance (types : List PacketType) : Decidable (HandshakeDone types) :=
  inferInstanceAs (Decidable (∃ type ∈ _, _))

namespace SessionState

def after (state : SessionState) (types : List PacketType) : SessionState :=
  types.foldl advance state

def IsPastFeatures (state : SessionState) : Prop := state = .featuresDone ∨ state = .active

theorem advance_connected (type : PacketType) :
    SessionState.connected.advance type = if type = .hello then .helloDone else .connected := by
  unfold advance advanceLifecycle
  dsimp only
  split <;> rfl

theorem advance_helloDone (type : PacketType) :
    SessionState.helloDone.advance type = if type.isFeatures then .featuresDone else .helloDone := by
  unfold advance advanceLifecycle PacketType.isFeatures
  simp only [decide_eq_true_eq]
  split <;> rfl

theorem advance_eq_active_iff (state : SessionState) (type : PacketType) :
    state.advance type = .active ↔ state.IsPastFeatures := by
  cases state with
  | connected => rw [advance_connected, IsPastFeatures]; split <;> simp
  | helloDone => rw [advance_helloDone, IsPastFeatures]; split <;> simp
  | featuresDone => exact ⟨fun _ => .inl rfl, fun _ => rfl⟩
  | active => exact ⟨fun _ => .inr rfl, fun _ => rfl⟩
  | closing => simp [advance, advanceLifecycle, IsPastFeatures]

theorem IsPastFeatures.after {state : SessionState} (h : state.IsPastFeatures)
    (types : List PacketType) : (state.after types).IsPastFeatures := by
  induction types generalizing state with
  | nil => exact h
  | cons type types ih =>
    refine ih (.inr ?_)
    exact (advance_eq_active_iff state type).mpr h

theorem after_helloDone (types : List PacketType) :
    (SessionState.helloDone.after types).IsPastFeatures ↔ ∃ type ∈ types, type.isFeatures := by
  induction types with
  | nil => simp [after, IsPastFeatures]
  | cons type types ih =>
    rw [after, List.foldl_cons, advance_helloDone]
    by_cases hfeatures : type.isFeatures
    . rw [if_pos hfeatures]
      have hpast := IsPastFeatures.after (.inl rfl : featuresDone.IsPastFeatures) types
      exact ⟨fun _ => ⟨type, by simp, hfeatures⟩, fun _ => hpast⟩
    . rw [if_neg hfeatures]
      apply Iff.trans ih
      simp [hfeatures]

theorem after_connected (types : List PacketType) :
    (SessionState.connected.after types).IsPastFeatures ↔ HandshakeDone types := by
  induction types with
  | nil => simp [after, IsPastFeatures, HandshakeDone]
  | cons type types ih =>
    rw [after, List.foldl_cons, advance_connected]
    unfold HandshakeDone
    by_cases hhello : type = .hello
    . rw [if_pos hhello]
      subst hhello
      apply Iff.trans (after_helloDone types)
      simp [PacketType.isFeatures, PacketType.hello, PacketType.featuresReply,
        PacketType.featuresRequest]
    . rw [if_neg hhello]
      apply Iff.trans ih
      simp [HandshakeDone, hhello]

end SessionState

theorem HandshakeDone.append {types : List PacketType} (h : HandshakeDone types)
    (types' : List PacketType) : HandshakeDone (types ++ types') := by
  rw [← SessionState.after_connected] at h ⊢
  rw [SessionState.after, List.foldl_append]
  exact h.after types'

/-! The session states that `dispatch` sees. -/

variable {valid : PacketType → Frame → Bool} {faultOf : PacketType → Frame → Option Fault}

theorem dispatches_state {state : SessionState} {fs : List Frame} {pre post : List Dispatched}
    {d : Dispatched} (h : dispatches valid faultOf state fs = pre ++ d :: post) :
    d.state = (state.after (pre.map Dispatched.type)).advance d.type := by
  induction fs generalizing state pre with
  | nil => simp [dispatches] at h
  | cons f fs ih =>
    unfold dispatches at h
    split at h
    . cases pre with
      | nil =>
        simp only [List.nil_append, List.cons.injEq] at h
        rw [← h.1]
        rfl
      | cons d' pre =>
        simp only [List.cons_append, List.cons.injEq] at h
        rcases h with ⟨hd', h⟩
        cases hfault : faultOf f.type f with
        | some e => rw [hfault] at h; simp at h
        | none =>
          rw [hfault] at h
          rw [ih h, ← hd']
          rfl
    . simp at h

theorem dispatches_active_iff {fs : List Frame} {pre post : List Dispatched} {d : Dispatched}
    (h : dispatches valid faultOf .connected fs = pre ++ d :: post) :
    d.state = .active ↔ HandshakeDone (pre.map Dispatched.type) := by
  rw [dispatches_state h, SessionState.advance_eq_active_iff, SessionState.after_connected]

/-! The handshake gate. -/

/--
Every call of `dispatch` on general traffic comes after a HELLO and a later FEATURES message, and sees
the state ACTIVE.
-/
def HandshakeGate (general : PacketType → Frame → Bool) (log : List Dispatched) : Prop :=
  ∀ pre d post, log = pre ++ d :: post → general d.type d.frame →
    HandshakeDone (pre.map Dispatched.type) ∧ d.state = .active

def StartsWithHandshake (general : PacketType → Frame → Bool) (fs : List Frame) : Prop :=
  (∀ f ∈ fs, ¬general f.type f)
    ∨ HandshakeDone ((fs.takeWhile (fun f => !general f.type f)).map Frame.type)

instance (general : PacketType → Frame → Bool) (fs : List Frame) :
    Decidable (StartsWithHandshake general fs) :=
  inferInstanceAs (Decidable (_ ∨ _))

theorem forall_split_iff {α : Type} {p : α → Bool} {Done : List α → Prop}
    (hmono : ∀ l l', Done l → Done (l ++ l')) (l : List α) :
    (∀ pre x post, l = pre ++ x :: post → p x → Done pre)
      ↔
    (∀ x ∈ l, ¬p x) ∨ Done (l.takeWhile (fun x => !p x)) := by
  constructor
  . intro h
    have hsplit := List.takeWhile_append_dropWhile (p := fun x => !p x) (l := l)
    cases hdrop : l.dropWhile (fun x => !p x) with
    | nil =>
      left
      intro x hx
      rw [hdrop, List.append_nil] at hsplit
      rw [← hsplit] at hx
      simpa using List.mem_takeWhile_imp hx
    | cons x post =>
      right
      rw [hdrop] at hsplit
      have hx := List.head_dropWhile_not (fun x => !p x) (l := l) (by simp [hdrop])
      simp only [hdrop, List.head_cons, Bool.not_eq_false'] at hx
      exact h _ x post hsplit.symm hx
  . rintro (hnone | hdone) pre x post hl hx
    . exact absurd hx (hnone x (by simp [hl]))
    . rcases List.takeWhile_prefix (fun x => !p x) (l := pre) with ⟨rest, hrest⟩
      rw [hl, List.takeWhile_append] at hdone
      split at hdone
      . simpa [hx] using hdone
      . rw [← hrest]
        exact hmono _ _ hdone

variable {general : PacketType → Frame → Bool}

theorem takeWhile_dispatches (valid : PacketType → Frame → Bool)
    (hfault : ∀ f : Frame, faultOf f.type f ≠ none → general f.type f)
    (state : SessionState) (fs : List Frame) :
    ((∀ d ∈ dispatches valid faultOf state fs, ¬general d.type d.frame)
        ↔
      ∀ f ∈ fs.takeWhile (fun f => valid f.type f), ¬general f.type f)
      ∧ ((dispatches valid faultOf state fs).takeWhile
          (fun d => !general d.type d.frame)).map Dispatched.type
          =
        ((fs.takeWhile (fun f => valid f.type f)).takeWhile
          (fun f => !general f.type f)).map Frame.type := by
  induction fs generalizing state with
  | nil => simp [dispatches]
  | cons f fs ih =>
    unfold dispatches
    by_cases hvalid : valid f.type f
    . rw [if_pos hvalid, List.takeWhile_cons_of_pos (p := fun f : Frame => valid f.type f) hvalid]
      by_cases hgeneral : general f.type f
      . simp [hgeneral]
      . have hnone : faultOf f.type f = none := by
          by_contra hsome
          exact hgeneral (hfault f hsome)
        rcases ih (state.advance f.type) with ⟨ihall, ihtake⟩
        rw [hnone]
        constructor
        . simpa [hgeneral] using ihall
        . rw [List.takeWhile_cons_of_pos (by simp [hgeneral]),
            List.takeWhile_cons_of_pos (by simp [hgeneral]), List.map_cons, List.map_cons, ihtake]
    . rw [if_neg hvalid, List.takeWhile_cons_of_neg (p := fun f : Frame => valid f.type f) hvalid]
      simp

theorem handshakeGate_dispatches_iff
    (hfault : ∀ f : Frame, faultOf f.type f ≠ none → general f.type f) (fs : List Frame) :
    HandshakeGate general (dispatches valid faultOf .connected fs)
      ↔
    StartsWithHandshake general (fs.takeWhile (fun f => valid f.type f)) := by
  rcases takeWhile_dispatches valid hfault .connected fs with ⟨hall, htake⟩
  have hgate : HandshakeGate general (dispatches valid faultOf .connected fs)
      ↔ ∀ pre d post, dispatches valid faultOf .connected fs = pre ++ d :: post →
          general d.type d.frame → HandshakeDone (pre.map Dispatched.type) := by
    constructor
    . intro h pre d post hsplit hgeneral
      exact (h pre d post hsplit hgeneral).1
    . intro h pre d post hsplit hgeneral
      have hdone := h pre d post hsplit hgeneral
      exact ⟨hdone, (dispatches_active_iff hsplit).mpr hdone⟩
  have hmono : ∀ l l' : List Dispatched, HandshakeDone (l.map Dispatched.type) →
      HandshakeDone ((l ++ l').map Dispatched.type) := by
    intro l l' h
    rw [List.map_append]
    exact h.append _
  rw [hgate, forall_split_iff (p := fun d => general d.type d.frame) hmono, hall, htake,
    StartsWithHandshake]

end Oflib
