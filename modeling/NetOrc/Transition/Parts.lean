import Mathlib.Data.List.Basic
import Mathlib.Logic.Function.Basic
import NetOrc.Transition.Basic

/-!
This module contains readers that read a shared state part by part, while others change it. What a reader
puts together need not be a state that there ever was, but each part of it is from a moment of its
reading, and the moments are in the order of the parts.
-/

namespace Transition

variable {ι S P α : Type}

/--
A reader that began when `began` changes had been made. `rest` is what it still has to read.
-/
structure Reading (S α : Type) where
  began : Nat
  rest : List (S → α)
  seen : List α

structure Finished (α : Type) where
  began : Nat
  ended : Nat
  seen : List α
  deriving DecidableEq, Repr

structure Shared (ι S P α : Type) where
  state : S
  log : List P := []
  readers : ι → Option (Reading S α) := fun _ => none
  finished : List (Finished α) := []

inductive PartAction (ι P : Type) where
  | perform (op : P)
  | start (i : ι)
  | read (i : ι)
  | finish (i : ι)
  deriving DecidableEq, Repr

namespace Shared

variable [DecidableEq ι] (apply : S → P → S) (parts : List (S → α)) (init : S)

def step (s : Shared ι S P α) (a : PartAction ι P) : Option (Shared ι S P α) :=
  match a with
  | .perform op => some { s with state := apply s.state op, log := s.log ++ [op] }
  | .start i =>
    match s.readers i with
    | none => some { s with readers := Function.update s.readers i (some ⟨s.log.length, parts, []⟩) }
    | some _ => none
  | .read i =>
    match s.readers i with
    | some ⟨began, part :: rest, seen⟩ =>
      some { s with
        readers := Function.update s.readers i (some ⟨began, rest, seen ++ [part s.state]⟩) }
    | _ => none
  | .finish i =>
    match s.readers i with
    | some ⟨began, [], seen⟩ =>
      some { s with
        readers := Function.update s.readers i none
        finished := s.finished ++ [⟨began, s.log.length, seen⟩] }
    | _ => none

def stateAt (log : List P) (k : Nat) : S := (log.take k).foldl apply init

def seenAt (log : List P) (parts : List (S → α)) (ks : List Nat) : List α :=
  List.zipWith (fun part k => part (stateAt apply init log k)) parts ks

/--
Moments in the order of time, none of them outside of the given bounds.
-/
structure Moments (began ended : Nat) (ks : List Nat) : Prop where
  ordered : ks.Pairwise (· ≤ ·)
  bounds : ∀ k ∈ ks, began ≤ k ∧ k ≤ ended

variable {apply parts init}

theorem stateAt_length (log : List P) : stateAt apply init log log.length = log.foldl apply init := by
  rw [stateAt, List.take_length]

theorem stateAt_append {log : List P} {k : Nat} (h : k ≤ log.length) (log' : List P) :
    stateAt apply init (log ++ log') k = stateAt apply init log k := by
  rw [stateAt, List.take_append_of_le_length h]
  rfl

theorem seenAt_append {log : List P} {ks : List Nat} (h : ∀ k ∈ ks, k ≤ log.length) (log' : List P)
    (parts : List (S → α)) :
    seenAt apply init (log ++ log') parts ks = seenAt apply init log parts ks := by
  unfold seenAt
  induction ks generalizing parts with
  | nil => rw [List.zipWith_nil_right, List.zipWith_nil_right]
  | cons k ks ih =>
    cases parts with
    | nil => rfl
    | cons part parts =>
      rw [List.zipWith_cons_cons, List.zipWith_cons_cons, stateAt_append (h k (by simp)),
        ih (fun k hk => h k (by simp [hk]))]

theorem seenAt_concat {log : List P} {parts : List (S → α)} {ks : List Nat}
    (hlength : parts.length = ks.length) (part : S → α) (k : Nat) :
    seenAt apply init log (parts ++ [part]) (ks ++ [k])
      =
    seenAt apply init log parts ks ++ [part (stateAt apply init log k)] :=
  List.zipWith_append hlength

theorem Moments.mono {began ended ended' : Nat} {ks : List Nat} (h : Moments began ended ks)
    (hle : ended ≤ ended') : Moments began ended' ks where
  ordered := h.ordered
  bounds k hk := ⟨(h.bounds k hk).1, Nat.le_trans (h.bounds k hk).2 hle⟩

theorem Moments.concat {began ended : Nat} {ks : List Nat} (h : Moments began ended ks)
    (hle : began ≤ ended) : Moments began ended (ks ++ [ended]) where
  ordered := by
    rw [List.pairwise_append]
    refine ⟨h.ordered, List.pairwise_singleton _ _, ?_⟩
    intro k hk k' hk'
    rw [List.mem_singleton.mp hk']
    exact (h.bounds k hk).2
  bounds k hk := by
    rcases List.mem_append.mp hk with hk | hk
    . exact h.bounds k hk
    . rw [List.mem_singleton.mp hk]
      exact ⟨hle, Nat.le_refl _⟩

structure Progress (apply : S → P → S) (parts : List (S → α)) (init : S) (log : List P)
    (r : Reading S α) : Prop where
  began : r.began ≤ log.length
  seen : ∃ done ks, parts = done ++ r.rest ∧ done.length = ks.length ∧ Moments r.began log.length ks
    ∧ r.seen = seenAt apply init log done ks

structure Followed (apply : S → P → S) (parts : List (S → α)) (init : S) (s : Shared ι S P α) :
    Prop where
  state : s.state = s.log.foldl apply init
  readers : ∀ i r, s.readers i = some r → Progress apply parts init s.log r
  finished : ∀ r ∈ s.finished, r.ended ≤ s.log.length ∧ ∃ ks, ks.length = parts.length
    ∧ Moments r.began r.ended ks ∧ r.seen = seenAt apply init s.log parts ks

theorem Progress.append {log : List P} {r : Reading S α} (h : Progress apply parts init log r) (op : P) :
    Progress apply parts init (log ++ [op]) r := by
  have hle : log.length ≤ (log ++ [op]).length := by
    rw [List.length_append]
    exact Nat.le_add_right _ _
  rcases h with ⟨hbegan, done, ks, hparts, hlength, hmoments, hseen⟩
  refine ⟨Nat.le_trans hbegan hle, done, ks, hparts, hlength, hmoments.mono hle, ?_⟩
  rw [hseen, seenAt_append (fun k hk => (hmoments.bounds k hk).2)]

theorem Progress.read {log : List P} {began : Nat} {part : S → α} {rest : List (S → α)} {seen : List α}
    (h : Progress apply parts init log ⟨began, part :: rest, seen⟩) :
    Progress apply parts init log ⟨began, rest, seen ++ [part (log.foldl apply init)]⟩ := by
  rcases h with ⟨hbegan, done, ks, hparts, hlength, hmoments, hseen⟩
  dsimp only at hbegan hparts hmoments hseen
  refine ⟨hbegan, done ++ [part], ks ++ [log.length], ?_, ?_, hmoments.concat hbegan, ?_⟩
  . rw [hparts, List.append_assoc]
    rfl
  . rw [List.length_append, List.length_append, hlength]
    rfl
  . rw [seenAt_concat hlength, hseen, stateAt_length]

theorem Followed.setReader {s : Shared ι S P α} (h : Followed apply parts init s) {i : ι}
    {r : Option (Reading S α)} (hr : ∀ r', r = some r' → Progress apply parts init s.log r') :
    Followed apply parts init { s with readers := Function.update s.readers i r } where
  state := h.state
  readers j r' hj := by
    dsimp only at hj
    by_cases hij : j = i
    . rw [hij, Function.update_self] at hj
      exact hr r' hj
    . rw [Function.update_of_ne hij] at hj
      exact h.readers j r' hj
  finished := h.finished

theorem Followed.step {s s' : Shared ι S P α} {a : PartAction ι P} (h : Followed apply parts init s)
    (hstep : s.step apply parts a = some s') : Followed apply parts init s' := by
  cases a with
  | perform op =>
    cases hstep
    refine ⟨?_, fun i r hr => (h.readers i r hr).append op, ?_⟩
    . rw [List.foldl_concat, h.state]
    . intro r hr
      rcases h.finished r hr with ⟨hended, ks, hlength, hmoments, hseen⟩
      refine ⟨?_, ks, hlength, hmoments, ?_⟩
      . rw [List.length_append]
        exact Nat.le_trans hended (Nat.le_add_right _ _)
      . rw [hseen, seenAt_append (fun k hk => Nat.le_trans (hmoments.bounds k hk).2 hended)]
  | start i =>
    simp only [Shared.step] at hstep
    split at hstep
    . cases hstep
      refine h.setReader ?_
      rintro _ ⟨⟩
      exact ⟨Nat.le_refl _, [], [], rfl, rfl, ⟨.nil, by simp⟩, rfl⟩
    . contradiction
  | read i =>
    simp only [Shared.step] at hstep
    split at hstep
    . next began part rest seen hreader =>
      cases hstep
      refine h.setReader ?_
      rintro _ ⟨⟩
      rw [h.state]
      exact (h.readers i _ hreader).read
    . contradiction
  | finish i =>
    simp only [Shared.step] at hstep
    split at hstep
    . next began seen hreader =>
      cases hstep
      rcases h.readers i _ hreader with ⟨hbegan, done, ks, hparts, hlength, hmoments, hseen⟩
      have hset := h.setReader (i := i) (r := none) nofun
      refine ⟨hset.state, hset.readers, ?_⟩
      intro r hr
      rcases List.mem_append.mp hr with hr | hr
      . exact h.finished r hr
      . rw [List.mem_singleton] at hr
        subst hr
        dsimp only at hparts hmoments hseen ⊢
        rw [List.append_nil] at hparts
        rw [hparts]
        exact ⟨Nat.le_refl _, ks, hlength.symm, hmoments, hseen⟩
    . contradiction

theorem followed_of_reaches {s : Shared ι S P α}
    (h : Reaches (step apply parts) (fun _ _ => True) { state := init } s) :
    Followed apply parts init s :=
  h.invariant (Followed apply parts init) (fun _ _ _ hs _ hstep => hs.step hstep)
    ⟨rfl, by simp, by simp⟩

end Shared

end Transition
