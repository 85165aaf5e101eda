import NetOrc.Data.Fifo
import NetOrc.Transition.Monitor
import NetOrc.Transition.Threads

/-!
This module contains the task queue, a queue under a mutex with a condition variable, at the level of its
single instructions, and shows that it behaves like the sequential queue.
-/

namespace NetOrc

open Fifo
open Transition

variable {ι τ : Type}

inductive QueueCall (τ : Type) where
  | push (value : τ)
  | waitAndPop
  | tryPop
  | empty
  | size
  deriving DecidableEq, Repr

/--
Where a thread is. `start` waits for the mutex, also after a wakeup. The instructions from `entered` to
`leaving` are under the mutex. `blocking` is about to release it and to sleep. `notify` has released it
and not notified yet.
-/
inductive QueuePc (τ : Type) where
  | idle
  | start (call : QueueCall τ)
  | entered (call : QueueCall τ)
  | blocking
  | front (waited : Bool)
  | pop (waited : Bool) (value : τ)
  | leaving (op : Op τ)
  | notify (value : τ)
  | sleeping
  | returned (op : Op τ)
  deriving DecidableEq, Repr

namespace QueuePc

def isInside (pc : QueuePc τ) : Bool :=
  match pc with
  | .entered _ => true
  | .blocking => true
  | .front _ => true
  | .pop _ _ => true
  | .leaving _ => true
  | _ => false

def isSleeping (pc : QueuePc τ) : Bool :=
  match pc with
  | .sleeping => true
  | _ => false

def performed (pc : QueuePc τ) : Option (Op τ) :=
  match pc with
  | .leaving op => some op
  | .notify value => some (.push value)
  | .returned op => some op
  | _ => none

end QueuePc

structure QueueThread (τ : Type) where
  pc : QueuePc τ := .idle
  results : List (Op τ) := []
  deriving DecidableEq, Repr

def QueueThread.history (l : QueueThread τ) : List (Op τ) := l.results ++ l.pc.performed.toList

/--
The queue. `log` lists the operations in the order in which they took effect, with their threads.
-/
structure TaskQueue (ι τ : Type) where
  queue : List τ := []
  log : List (ι × Op τ) := []

inductive QueueEvent (ι τ : Type) where
  | call (i : ι) (call : QueueCall τ)
  | notifyOne (i : ι) (woken : Option ι)
  | spuriousWake (i : ι)
  | ret (i : ι)
  deriving DecidableEq, Repr

namespace TaskQueue

def perform (q : TaskQueue ι τ) (i : ι) (queue : List τ) (op : Op τ) : TaskQueue ι τ where
  queue := queue
  log := q.log ++ [(i, op)]

def lock (l : QueueThread τ) : Option (QueueThread τ) :=
  match l.pc with
  | .start call => some { l with pc := .entered call }
  | _ => none

def act (i : ι) (q : TaskQueue ι τ) (l : QueueThread τ) : Option (TaskQueue ι τ × QueueThread τ) :=
  match l.pc with
  | .entered (.push value) =>
    some (q.perform i (q.queue ++ [value]) (.push value), { l with pc := .leaving (.push value) })
  | .entered .waitAndPop =>
    some (q, { l with pc := if q.queue.isEmpty then .blocking else .front true })
  | .entered .tryPop =>
    if q.queue.isEmpty then
      some (q.perform i q.queue (.tryPop none), { l with pc := .leaving (.tryPop none) })
    else
      some (q, { l with pc := .front false })
  | .entered .empty =>
    let op := .empty q.queue.isEmpty
    some (q.perform i q.queue op, { l with pc := .leaving op })
  | .entered .size =>
    let op := .size q.queue.length
    some (q.perform i q.queue op, { l with pc := .leaving op })
  | .front waited =>
    match q.queue with
    | [] => none
    | value :: _ => some (q, { l with pc := .pop waited value })
  | .pop waited value =>
    let op := if waited then .pop value else .tryPop (some value)
    some (q.perform i q.queue.tail op, { l with pc := .leaving op })
  | _ => none

def afterwards (op : Op τ) : QueuePc τ :=
  match op with
  | .push value => .notify value
  | op => .returned op

def unlock (l : QueueThread τ) : Option (QueueThread τ) :=
  match l.pc with
  | .blocking => some { l with pc := .sleeping }
  | .leaving op => some { l with pc := afterwards op }
  | _ => none

theorem isSleeping_iff {pc : QueuePc τ} : pc.isSleeping ↔ pc = .sleeping := by
  cases pc <;> simp [QueuePc.isSleeping]

theorem lock_eq_some {l l' : QueueThread τ} (h : lock l = some l') :
    ∃ call, l.pc = .start call ∧ l' = { l with pc := .entered call } := by
  unfold lock at h
  split at h
  . next call hpc =>
    cases h
    exact ⟨call, hpc, rfl⟩
  . contradiction

theorem unlock_eq_some {l l' : QueueThread τ} (h : unlock l = some l') :
    (l.pc = .blocking ∧ l' = { l with pc := .sleeping })
      ∨ ∃ op, l.pc = .leaving op ∧ l' = { l with pc := afterwards op } := by
  unfold unlock at h
  split at h
  . next hpc =>
    cases h
    exact .inl ⟨hpc, rfl⟩
  . next op hpc =>
    cases h
    exact .inr ⟨op, hpc, rfl⟩
  . contradiction

theorem isInside_afterwards (op : Op τ) : (afterwards op).isInside = false := by
  cases op <;> rfl

theorem act_isInside {i : ι} {q q' : TaskQueue ι τ} {l l' : QueueThread τ}
    (h : act i q l = some (q', l')) : l.pc.isInside = true ∧ l'.pc.isInside = true := by
  unfold act at h
  split at h
  . next hpc => cases h; rw [hpc]; exact ⟨rfl, rfl⟩
  . next hpc =>
    cases h
    rw [hpc]
    refine ⟨rfl, ?_⟩
    dsimp only
    split <;> rfl
  . next hpc =>
    rw [hpc]
    split at h <;> cases h <;> exact ⟨rfl, rfl⟩
  . next hpc => cases h; rw [hpc]; exact ⟨rfl, rfl⟩
  . next hpc => cases h; rw [hpc]; exact ⟨rfl, rfl⟩
  . next hpc =>
    rw [hpc]
    split at h
    . contradiction
    . cases h; exact ⟨rfl, rfl⟩
  . next hpc => cases h; rw [hpc]; exact ⟨rfl, rfl⟩
  . contradiction

/-! The instructions of a region. -/

inductive Answers : QueueCall τ → Op τ → Prop where
  | push (value : τ) : Answers (.push value) (.push value)
  | pop (value : τ) : Answers .waitAndPop (.pop value)
  | tryPop (answer : Option τ) : Answers .tryPop (.tryPop answer)
  | empty (answer : Bool) : Answers .empty (.empty answer)
  | size (answer : Nat) : Answers .size (.size answer)

def takeCall (waited : Bool) : QueueCall τ := if waited then .waitAndPop else .tryPop

def takeOp (waited : Bool) (value : τ) : Op τ := if waited then .pop value else .tryPop (some value)

theorem answers_take (waited : Bool) (value : τ) : Answers (takeCall waited) (takeOp waited value) := by
  cases waited with
  | true => exact .pop value
  | false => exact .tryPop (some value)

theorem step_take (waited : Bool) (value : τ) (queue : List τ) :
    Fifo.Step (value :: queue) (takeOp waited value) queue := by
  cases waited with
  | true => exact .pop
  | false => exact .tryPop

inductive Inside (i : ι) (q : TaskQueue ι τ) (call : QueueCall τ) : TaskQueue ι τ → QueuePc τ → Prop where
  | entered : Inside i q call q (.entered call)
  | blocking (hcall : call = .waitAndPop) (hempty : q.queue = []) : Inside i q call q .blocking
  | front {waited : Bool} {value : τ} {queue : List τ} (hcall : call = takeCall waited)
    (hqueue : q.queue = value :: queue) : Inside i q call q (.front waited)
  | pop {waited : Bool} {value : τ} {queue : List τ} (hcall : call = takeCall waited)
    (hqueue : q.queue = value :: queue) : Inside i q call q (.pop waited value)
  | leaving {op : Op τ} {queue : List τ} (hanswers : Answers call op)
    (hstep : Fifo.Step q.queue op queue) : Inside i q call (q.perform i queue op) (.leaving op)

theorem Inside.entered_act {i : ι} {q q' : TaskQueue ι τ} {call : QueueCall τ} {l l' : QueueThread τ}
    (hpc : l.pc = .entered call) (hact : act i q l = some (q', l')) :
    Inside i q call q' l'.pc ∧ l'.results = l.results := by
  unfold act at hact
  rw [hpc] at hact
  cases call with
  | push value =>
    cases hact
    exact ⟨.leaving (.push value) (.push value), rfl⟩
  | waitAndPop =>
    cases hact
    refine ⟨?_, rfl⟩
    cases hqueue : q.queue with
    | nil => exact .blocking rfl hqueue
    | cons value queue =>
      have hcall : (.waitAndPop : QueueCall τ) = takeCall true := rfl
      exact .front hcall hqueue
  | tryPop =>
    cases hqueue : q.queue with
    | nil =>
      simp only [hqueue, List.isEmpty_nil, if_true] at hact
      cases hact
      exact ⟨.leaving (.tryPop none) (by rw [hqueue]; exact .tryPopNone), rfl⟩
    | cons value queue =>
      simp only [hqueue, List.isEmpty_cons, Bool.false_eq_true, if_false] at hact
      cases hact
      have hcall : (.tryPop : QueueCall τ) = takeCall false := rfl
      exact ⟨.front hcall hqueue, rfl⟩
  | empty =>
    cases hact
    exact ⟨.leaving (.empty _) (.empty _), rfl⟩
  | size =>
    cases hact
    exact ⟨.leaving (.size _) (.size _), rfl⟩

theorem Inside.act {i : ι} {q q₁ q₂ : TaskQueue ι τ} {call : QueueCall τ} {l₁ l₂ : QueueThread τ}
    (h : Inside i q call q₁ l₁.pc) (hact : act i q₁ l₁ = some (q₂, l₂)) :
    Inside i q call q₂ l₂.pc ∧ l₂.results = l₁.results := by
  generalize hpc : l₁.pc = pc at h
  cases h with
  | entered => exact entered_act hpc hact
  | blocking => simp [TaskQueue.act, hpc] at hact
  | front hcall hqueue =>
    simp only [TaskQueue.act, hpc, hqueue, Option.some.injEq, Prod.mk.injEq] at hact
    rcases hact with ⟨rfl, rfl⟩
    exact ⟨.pop hcall hqueue, rfl⟩
  | @pop waited value queue hcall hqueue =>
    simp only [TaskQueue.act, hpc, hqueue, List.tail_cons, Option.some.injEq, Prod.mk.injEq] at hact
    rcases hact with ⟨rfl, rfl⟩
    subst hcall
    exact ⟨.leaving (answers_take waited value) (by rw [hqueue]; exact step_take waited value queue), rfl⟩
  | leaving => simp [TaskQueue.act, hpc] at hact

/-! The steps without the mutex. -/

theorem ne_of_isInside {pcs : ι → QueueThread τ} {i j : ι} {pc : QueuePc τ}
    (hi : (pcs i).pc.isInside = true) (hj : (pcs j).pc = pc) (hpc : pc.isInside = false) : i ≠ j := by
  rintro rfl
  rw [hj, hpc] at hi
  contradiction

variable [DecidableEq ι]

def setPc (pcs : ι → QueueThread τ) (i : ι) (pc : QueuePc τ) : ι → QueueThread τ :=
  Function.update pcs i { pcs i with pc := pc }

def outer [Fintype ι] (pcs : ι → QueueThread τ) (event : QueueEvent ι τ) :
    Option (ι → QueueThread τ) :=
  match event with
  | .call i call =>
    match (pcs i).pc with
    | .idle => some (setPc pcs i (.start call))
    | _ => none
  | .notifyOne i woken =>
    match (pcs i).pc, woken with
    | .notify value, some j =>
      if (pcs j).pc.isSleeping then
        some (setPc (setPc pcs j (.start .waitAndPop)) i (.returned (.push value)))
      else
        none
    | .notify value, none =>
      if ∀ j, ¬(pcs j).pc.isSleeping then some (setPc pcs i (.returned (.push value))) else none
    | _, _ => none
  | .spuriousWake i =>
    if (pcs i).pc.isSleeping then some (setPc pcs i (.start .waitAndPop)) else none
  | .ret i =>
    match (pcs i).pc with
    | .returned op => some (Function.update pcs i { pc := .idle, results := (pcs i).results ++ [op] })
    | _ => none

inductive Outer (pcs : ι → QueueThread τ) : QueueEvent ι τ → (ι → QueueThread τ) → Prop where
  | call {i : ι} {call : QueueCall τ} (hpc : (pcs i).pc = .idle) :
    Outer pcs (.call i call) (setPc pcs i (.start call))
  | notifyOne {i j : ι} {value : τ} (hpc : (pcs i).pc = .notify value)
    (hsleeping : (pcs j).pc = .sleeping) :
    Outer pcs (.notifyOne i (some j))
      (setPc (setPc pcs j (.start .waitAndPop)) i (.returned (.push value)))
  | notifyNone {i : ι} {value : τ} (hpc : (pcs i).pc = .notify value)
    (hawake : ∀ j, ¬(pcs j).pc.isSleeping) :
    Outer pcs (.notifyOne i none) (setPc pcs i (.returned (.push value)))
  | spuriousWake {i : ι} (hpc : (pcs i).pc = .sleeping) :
    Outer pcs (.spuriousWake i) (setPc pcs i (.start .waitAndPop))
  | ret {i : ι} {op : Op τ} (hpc : (pcs i).pc = .returned op) :
    Outer pcs (.ret i) (Function.update pcs i { pc := .idle, results := (pcs i).results ++ [op] })

theorem isInside_setPc {pcs : ι → QueueThread τ} {i : ι} {pc : QueuePc τ}
    (h : pc.isInside = (pcs i).pc.isInside) (j : ι) :
    (setPc pcs i pc j).pc.isInside = (pcs j).pc.isInside := by
  unfold setPc
  by_cases hj : j = i
  . rw [hj, Function.update_self, h]
  . rw [Function.update_of_ne hj]

theorem Outer.isInside {pcs pcs' : ι → QueueThread τ} {event : QueueEvent ι τ}
    (h : Outer pcs event pcs') (j : ι) : (pcs' j).pc.isInside = (pcs j).pc.isInside := by
  cases h with
  | call hpc => exact isInside_setPc (by rw [hpc]; rfl) j
  | @notifyOne i k value hpc hsleeping =>
    have hwoken : ∀ j, (setPc pcs k (.start .waitAndPop) j).pc.isInside = (pcs j).pc.isInside :=
      isInside_setPc (by rw [hsleeping]; rfl)
    rw [isInside_setPc ?_ j, hwoken j]
    rw [hwoken i, hpc]
    rfl
  | notifyNone hpc => exact isInside_setPc (by rw [hpc]; rfl) j
  | spuriousWake hpc => exact isInside_setPc (by rw [hpc]; rfl) j
  | @ret i op hpc =>
    by_cases hj : j = i
    . rw [hj, Function.update_self, hpc]
      rfl
    . rw [Function.update_of_ne hj]

theorem setPc_update {pcs : ι → QueueThread τ} {i j : ι} (hij : i ≠ j) (l : QueueThread τ)
    (pc : QueuePc τ) :
    setPc (Function.update pcs i l) j pc = Function.update (setPc pcs j pc) i l := by
  unfold setPc
  rw [Function.update_of_ne (Ne.symm hij), Function.update_comm hij]

theorem update_pc {pcs : ι → QueueThread τ} {i j : ι} (hij : i ≠ j) (l : QueueThread τ) :
    (Function.update pcs i l j).pc = (pcs j).pc := by
  rw [Function.update_of_ne (Ne.symm hij)]

theorem Outer.update {pcs pcs' : ι → QueueThread τ} {event : QueueEvent ι τ}
    (h : Outer pcs event pcs') {i : ι} (hi : (pcs i).pc.isInside = true) {l : QueueThread τ}
    {c : QueueCall τ} (hl : l.pc = .start c) :
    pcs' i = pcs i ∧ Outer (Function.update pcs i l) event (Function.update pcs' i l) := by
  cases h with
  | @call j call hpc =>
    have hij := ne_of_isInside hi hpc rfl
    refine ⟨Function.update_of_ne hij _ _, ?_⟩
    rw [← setPc_update hij]
    exact .call (by rw [update_pc hij, hpc])
  | @notifyOne j k value hpc hsleeping =>
    have hij := ne_of_isInside hi hpc rfl
    have hik := ne_of_isInside hi hsleeping rfl
    constructor
    . rw [setPc, Function.update_of_ne hij, setPc, Function.update_of_ne hik]
    . rw [← setPc_update hij, ← setPc_update hik]
      exact .notifyOne (by rw [update_pc hij, hpc]) (by rw [update_pc hik, hsleeping])
  | @notifyNone j value hpc hawake =>
    have hij := ne_of_isInside hi hpc rfl
    refine ⟨Function.update_of_ne hij _ _, ?_⟩
    rw [← setPc_update hij]
    refine .notifyNone (by rw [update_pc hij, hpc]) (fun k => ?_)
    by_cases hik : k = i
    . rw [hik, Function.update_self, hl]
      nofun
    . rw [Function.update_of_ne hik]
      exact hawake k
  | @spuriousWake j hpc =>
    have hij := ne_of_isInside hi hpc rfl
    refine ⟨Function.update_of_ne hij _ _, ?_⟩
    rw [← setPc_update hij]
    exact .spuriousWake (by rw [update_pc hij, hpc])
  | @ret j op hpc =>
    have hij := ne_of_isInside hi hpc rfl
    refine ⟨Function.update_of_ne hij _ _, ?_⟩
    rw [Function.update_comm hij.symm]
    have hsame : pcs j = Function.update pcs i l j := (Function.update_of_ne (Ne.symm hij) _ _).symm
    rw [hsame]
    exact .ret (by rw [update_pc hij, hpc])

variable [Fintype ι]

theorem Outer.of_outer {pcs pcs' : ι → QueueThread τ} {event : QueueEvent ι τ}
    (h : outer pcs event = some pcs') : Outer pcs event pcs' := by
  unfold outer at h
  split at h
  . split at h
    . next hpc => cases h; exact .call hpc
    . contradiction
  . split at h
    . next hpc =>
      split at h
      . next hsleeping => cases h; exact .notifyOne hpc (isSleeping_iff.mp hsleeping)
      . contradiction
    . next hpc =>
      split at h
      . next hawake => cases h; exact .notifyNone hpc hawake
      . contradiction
    . contradiction
  . split at h
    . next hpc => cases h; exact .spuriousWake (isSleeping_iff.mp hpc)
    . contradiction
  . split at h
    . next hpc => cases h; exact .ret hpc
    . contradiction

theorem Outer.outer_eq {pcs pcs' : ι → QueueThread τ} {event : QueueEvent ι τ}
    (h : Outer pcs event pcs') : outer pcs event = some pcs' := by
  unfold outer
  cases h with
  | call hpc => simp only [hpc]
  | notifyOne hpc hsleeping => simp [hpc, hsleeping, QueuePc.isSleeping]
  | notifyNone hpc hawake => simp only [hpc, if_pos hawake]
  | spuriousWake hpc => simp [hpc, QueuePc.isSleeping]
  | ret hpc => simp only [hpc]

def monitor : Monitor ι (TaskQueue ι τ) (QueueThread τ) (QueueEvent ι τ) where
  inside l := l.pc.isInside
  lock := lock
  act := act
  unlock := unlock
  outer := outer
  lock_inside h := by
    rcases lock_eq_some h with ⟨call, hpc, rfl⟩
    rw [hpc]
    exact ⟨rfl, rfl⟩
  act_inside := act_isInside
  unlock_inside h := by
    rcases unlock_eq_some h with ⟨hpc, rfl⟩ | ⟨op, hpc, rfl⟩
    . rw [hpc]
      exact ⟨rfl, rfl⟩
    . rw [hpc]
      exact ⟨rfl, isInside_afterwards op⟩
  outer_inside h := (Outer.of_outer h).isInside
  outer_update h i hi := by
    have hupdate := fun l call hl => (Outer.of_outer h).update hi (l := l) (c := call) hl
    refine ⟨(hupdate ⟨.start .size, []⟩ .size rfl).1, fun l hlock => ?_⟩
    rcases Option.isSome_iff_exists.mp hlock with ⟨l', hlock⟩
    rcases lock_eq_some hlock with ⟨call, hpc, _⟩
    exact (hupdate l call hpc).2.outer_eq

/-! A whole region. -/

theorem inside_of_acts {i : ι} {q q' : TaskQueue ι τ} {call : QueueCall τ} {l l' : QueueThread τ}
    {k : Nat} (hpc : l.pc = .entered call) (h : monitor.acts i k q l = some (q', l')) :
    Inside i q call q' l'.pc ∧ l'.results = l.results := by
  induction k generalizing q' l' with
  | zero =>
    cases h
    rw [hpc]
    exact ⟨.entered, rfl⟩
  | succ k ih =>
    rcases Option.bind_eq_some_iff.mp h with ⟨⟨q₁, l₁⟩, hacts, hact⟩
    rcases ih hacts with ⟨hinside, hresults⟩
    rcases hinside.act hact with ⟨hinside', hresults'⟩
    exact ⟨hinside', hresults'.trans hresults⟩

theorem region_cases {i : ι} {q q' : TaskQueue ι τ} {l l' : QueueThread τ} {k : Nat}
    (h : monitor.region i k q l = some (q', l')) :
    ∃ call, l.pc = .start call ∧ l'.results = l.results
      ∧ ((call = .waitAndPop ∧ q.queue = [] ∧ q' = q ∧ l'.pc = .sleeping)
        ∨ ∃ op queue, Answers call op ∧ Fifo.Step q.queue op queue ∧ q' = q.perform i queue op
          ∧ l'.pc = afterwards op) := by
  rcases Monitor.region_eq_some_iff.mp h with ⟨l₁, l₂, hlock, hacts, hunlock⟩
  dsimp only at hacts hunlock
  rcases lock_eq_some hlock with ⟨call, hpc, rfl⟩
  rcases inside_of_acts rfl hacts with ⟨hinside, hresults⟩
  refine ⟨call, hpc, ?_⟩
  rcases unlock_eq_some hunlock with ⟨hpc₂, hl'⟩ | ⟨op, hpc₂, hl'⟩
  . rw [hpc₂] at hinside
    cases hinside with
    | blocking hcall hempty =>
      rw [hl']
      exact ⟨hresults, .inl ⟨hcall, hempty, rfl, rfl⟩⟩
  . rw [hpc₂] at hinside
    generalize hq' : q' = q'' at hinside
    cases hinside with
    | leaving hanswers hstep =>
      rw [hl']
      exact ⟨hresults, .inr ⟨op, _, hanswers, hstep, rfl, rfl⟩⟩

theorem region_of_acts {i : ι} {q q' : TaskQueue ι τ} {l : QueueThread τ} {call : QueueCall τ}
    {op : Op τ} (k : Nat) (hpc : l.pc = .start call)
    (hacts : monitor.acts i k q { l with pc := .entered call }
      = some (q', { l with pc := .leaving op })) :
    monitor.region i k q l = some (q', { l with pc := afterwards op }) := by
  apply Monitor.region_eq_some_iff.mpr
  refine ⟨_, _, ?_, hacts, rfl⟩
  simp only [monitor, lock, hpc]

theorem region_of_step {i : ι} {q : TaskQueue ι τ} {l : QueueThread τ} {call : QueueCall τ} {op : Op τ}
    {queue : List τ} (hpc : l.pc = .start call) (hanswers : Answers call op)
    (hstep : Fifo.Step q.queue op queue) :
    ∃ k, monitor.region i k q l = some (q.perform i queue op, { l with pc := afterwards op }) := by
  generalize hqueue : q.queue = queue' at hstep
  cases hanswers with
  | push value =>
    cases hstep
    refine ⟨1, region_of_acts 1 hpc ?_⟩
    simp [Monitor.acts, monitor, act, hqueue]
  | pop value =>
    cases hstep
    refine ⟨3, region_of_acts 3 hpc ?_⟩
    simp [Monitor.acts, monitor, act, hqueue]
  | tryPop answer =>
    cases hstep with
    | tryPop =>
      refine ⟨3, region_of_acts 3 hpc ?_⟩
      simp [Monitor.acts, monitor, act, hqueue]
    | tryPopNone =>
      refine ⟨1, region_of_acts 1 hpc ?_⟩
      simp [Monitor.acts, monitor, act, hqueue]
  | empty answer =>
    cases hstep
    refine ⟨1, region_of_acts 1 hpc ?_⟩
    simp [Monitor.acts, monitor, act, hqueue]
  | size answer =>
    cases hstep
    refine ⟨1, region_of_acts 1 hpc ?_⟩
    simp [Monitor.acts, monitor, act, hqueue]

end TaskQueue

end NetOrc
