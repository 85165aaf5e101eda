import Mathlib.Data.List.Induction

/-!
This module contains the sequential queue: what each operation answers, and which histories of operations
it allows.
-/

namespace Fifo

variable {τ : Type}

inductive Op (τ : Type) where
  | push (value : τ)
  | pop (value : τ)
  | tryPop (answer : Option τ)
  | empty (answer : Bool)
  | size (answer : Nat)
  deriving DecidableEq, Repr

namespace Op

def pushed (op : Op τ) : Option τ :=
  match op with
  | .push value => some value
  | _ => none

def popped (op : Op τ) : Option τ :=
  match op with
  | .pop value => some value
  | .tryPop answer => answer
  | _ => none

end Op

inductive Step : List τ → Op τ → List τ → Prop where
  | push {queue : List τ} (value : τ) : Step queue (.push value) (queue ++ [value])
  | pop {value : τ} {queue : List τ} : Step (value :: queue) (.pop value) queue
  | tryPop {value : τ} {queue : List τ} : Step (value :: queue) (.tryPop (some value)) queue
  | tryPopNone : Step [] (.tryPop none) []
  | empty (queue : List τ) : Step queue (.empty queue.isEmpty) queue
  | size (queue : List τ) : Step queue (.size queue.length) queue

inductive Run : List τ → List (Op τ) → List τ → Prop where
  | nil {queue : List τ} : Run queue [] queue
  | snoc {queue queue' queue'' : List τ} {ops : List (Op τ)} {op : Op τ} (hrun : Run queue ops queue')
    (hstep : Step queue' op queue'') : Run queue (ops ++ [op]) queue''

theorem run_nil_iff {queue queue' : List τ} : Run queue [] queue' ↔ queue' = queue := by
  constructor
  . intro h
    generalize hops : ([] : List (Op τ)) = ops at h
    cases h with
    | nil => rfl
    | snoc => simp at hops
  . rintro rfl
    exact .nil

theorem run_snoc_iff {queue queue'' : List τ} {ops : List (Op τ)} {op : Op τ} :
    Run queue (ops ++ [op]) queue'' ↔ ∃ queue', Run queue ops queue' ∧ Step queue' op queue'' := by
  constructor
  . intro h
    generalize hops : ops ++ [op] = ops' at h
    cases h with
    | nil => simp at hops
    | snoc hrun hstep =>
      rcases List.append_inj' hops rfl with ⟨rfl, hop⟩
      cases hop
      exact ⟨_, hrun, hstep⟩
  . rintro ⟨queue', hrun, hstep⟩
    exact .snoc hrun hstep

theorem Run.trans {queue queue' queue'' : List τ} {ops ops' : List (Op τ)} (h : Run queue ops queue')
    (h' : Run queue' ops' queue'') : Run queue (ops ++ ops') queue'' := by
  induction h' with
  | nil => rwa [List.append_nil]
  | snoc _ hstep ih =>
    rw [← List.append_assoc]
    exact .snoc ih hstep

theorem run_pushes (queue values : List τ) : Run queue (values.map Op.push) (queue ++ values) := by
  induction values using List.reverseRecOn with
  | nil =>
    rw [List.append_nil]
    exact .nil
  | append_singleton values value ih =>
    rw [List.map_append, ← List.append_assoc]
    exact .snoc ih (.push value)

theorem Step.conserves {queue queue' : List τ} {op : Op τ} (h : Step queue op queue') :
    queue ++ op.pushed.toList = op.popped.toList ++ queue' := by
  cases h <;> simp [Op.pushed, Op.popped]

theorem Run.conserves {queue queue' : List τ} {ops : List (Op τ)} (h : Run queue ops queue') :
    queue ++ ops.filterMap Op.pushed = ops.filterMap Op.popped ++ queue' := by
  induction h with
  | nil => simp
  | @snoc queue' queue'' ops op hrun hstep ih =>
    have hone : ∀ f : Op τ → Option τ, [op].filterMap f = (f op).toList := by
      intro f
      cases hf : f op <;> simp [hf]
    rw [List.filterMap_append, List.filterMap_append, hone, hone, ← List.append_assoc, ih,
      List.append_assoc, List.append_assoc, hstep.conserves]

end Fifo
