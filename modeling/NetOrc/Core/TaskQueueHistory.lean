import NetOrc.Core.TaskQueue

/-!
This module shows which histories the task queue has: exactly those of the sequential queue, where every
thread is answered what the queue answered to its own operations.
-/

namespace NetOrc

open Fifo
open Transition

variable {ι τ : Type}

namespace TaskQueue

theorem performed_afterwards (op : Op τ) : (afterwards op).performed = some op := by
  cases op <;> rfl

theorem log_isPrefix_act {i : ι} {q : TaskQueue ι τ} {l : QueueThread τ}
    {p : TaskQueue ι τ × QueueThread τ} (h : act i q l = some p) : q.log <+: p.1.log := by
  have hperform : ∀ queue op, q.log <+: (q.perform i queue op).log :=
    fun queue op => List.prefix_append _ _
  unfold act at h
  split at h
  . cases h; exact hperform _ _
  . cases h; exact List.prefix_rfl
  . split at h
    . cases h; exact hperform _ _
    . cases h; exact List.prefix_rfl
  . cases h; exact hperform _ _
  . cases h; exact hperform _ _
  . split at h
    . contradiction
    . cases h; exact List.prefix_rfl
  . cases h; exact hperform _ _
  . contradiction

variable [DecidableEq ι]

def opsOf (q : TaskQueue ι τ) (i : ι) : List (Op τ) :=
  (q.log.filter (fun entry => entry.1 = i)).map Prod.snd

theorem opsOf_perform (q : TaskQueue ι τ) (i : ι) (queue : List τ) (op : Op τ) (j : ι) :
    (q.perform i queue op).opsOf j = q.opsOf j ++ if i = j then [op] else [] := by
  unfold opsOf perform
  rw [List.filter_append, List.map_append, List.filter_singleton]
  by_cases hij : i = j <;> simp [hij]

/-! Every run is a run of the sequential queue. -/

structure Linearized (t : Atomic ι (TaskQueue ι τ) (QueueThread τ)) : Prop where
  legal : Fifo.Run [] (t.shared.log.map Prod.snd) t.shared.queue
  results : ∀ i, t.shared.opsOf i = (t.pcs i).history

theorem history_setPc {pcs : ι → QueueThread τ} {i : ι} {pc : QueuePc τ}
    (h : pc.performed = (pcs i).pc.performed) (j : ι) :
    (setPc pcs i pc j).history = (pcs j).history := by
  unfold setPc QueueThread.history
  by_cases hj : j = i
  . rw [hj, Function.update_self, h]
  . rw [Function.update_of_ne hj]

theorem Outer.history {pcs pcs' : ι → QueueThread τ} {event : QueueEvent ι τ}
    (h : Outer pcs event pcs') (j : ι) : (pcs' j).history = (pcs j).history := by
  cases h with
  | call hpc => exact history_setPc (by rw [hpc]; rfl) j
  | @notifyOne i k value hpc hsleeping =>
    have hne : i ≠ k := by
      rintro rfl
      rw [hpc] at hsleeping
      contradiction
    rw [history_setPc _ j, history_setPc _ j]
    . rw [hsleeping]
      rfl
    . rw [setPc, Function.update_of_ne hne, hpc]
      rfl
  | notifyNone hpc => exact history_setPc (by rw [hpc]; rfl) j
  | spuriousWake hpc => exact history_setPc (by rw [hpc]; rfl) j
  | @ret i op hpc =>
    by_cases hj : j = i
    . subst hj
      unfold QueueThread.history
      rw [Function.update_self, hpc]
      simp [QueuePc.performed]
    . rw [Function.update_of_ne hj]

theorem Linearized.perform {t : Atomic ι (TaskQueue ι τ) (QueueThread τ)} (ht : Linearized t) {i : ι}
    {call : QueueCall τ} {op : Op τ} {queue : List τ} {l : QueueThread τ}
    (hpc : (t.pcs i).pc = .start call) (hstep : Fifo.Step t.shared.queue op queue)
    (hl : l.pc = afterwards op) (hresults : l.results = (t.pcs i).results) :
    Linearized ⟨t.shared.perform i queue op, Function.update t.pcs i l⟩ where
  legal := by
    dsimp only [TaskQueue.perform]
    rw [List.map_append]
    exact .snoc ht.legal hstep
  results := by
    intro j
    dsimp only
    rw [opsOf_perform, ht.results j]
    by_cases hij : i = j
    . subst hij
      rw [if_pos rfl, Function.update_self, QueueThread.history, QueueThread.history, hl,
        performed_afterwards, hresults, hpc]
      simp [QueuePc.performed]
    . rw [if_neg hij, List.append_nil, Function.update_of_ne (Ne.symm hij)]

variable [Fintype ι]

theorem Linearized.step {t t' : Atomic ι (TaskQueue ι τ) (QueueThread τ)}
    {a : RegionAction ι (QueueEvent ι τ)} (ht : Linearized t) (h : monitor.atomicStep t a = some t') :
    Linearized t' := by
  cases a with
  | region i k =>
    rcases Option.map_eq_some_iff.mp h with ⟨⟨q, l⟩, hregion, rfl⟩
    rcases region_cases hregion with ⟨call, hpc, hresults, ⟨_, _, rfl, hl⟩
      | ⟨op, queue, _, hstep, rfl, hl⟩⟩
    . refine ⟨ht.legal, fun j => ?_⟩
      dsimp only
      rw [ht.results j]
      by_cases hj : j = i
      . rw [hj, Function.update_self, QueueThread.history, QueueThread.history, hresults, hl, hpc]
        rfl
      . rw [Function.update_of_ne hj]
    . exact ht.perform hpc hstep hl hresults
  | outer o =>
    rcases Option.map_eq_some_iff.mp h with ⟨pcs, houter, rfl⟩
    refine ⟨ht.legal, fun j => ?_⟩
    dsimp only
    rw [(Outer.of_outer houter).history j]
    exact ht.results j

abbrev step : Locked ι (TaskQueue ι τ) (QueueThread τ) → LockAction ι (QueueEvent ι τ) →
    Option (Locked ι (TaskQueue ι τ) (QueueThread τ)) := monitor.step

def init : Locked ι (TaskQueue ι τ) (QueueThread τ) := ⟨{}, none, fun _ => {}⟩

theorem linearized_of_reaches {t : Atomic ι (TaskQueue ι τ) (QueueThread τ)}
    (h : Reaches monitor.atomicStep (fun _ _ => True) ⟨{}, fun _ => {}⟩ t) : Linearized t :=
  h.invariant Linearized (fun _ _ _ ht _ hstep => ht.step hstep) ⟨.nil, fun _ => rfl⟩

theorem log_isPrefix_step {s s' : Locked ι (TaskQueue ι τ) (QueueThread τ)}
    {a : LockAction ι (QueueEvent ι τ)} (h : step s a = some s') : s.shared.log <+: s'.shared.log := by
  cases a with
  | lock i =>
    dsimp only [step, Monitor.step] at h
    split at h
    . rcases Option.map_eq_some_iff.mp h with ⟨l, _, rfl⟩
      exact List.prefix_rfl
    . contradiction
  | act i =>
    rcases Option.map_eq_some_iff.mp h with ⟨p, hact, rfl⟩
    exact log_isPrefix_act hact
  | unlock i =>
    rcases Option.map_eq_some_iff.mp h with ⟨l, _, rfl⟩
    exact List.prefix_rfl
  | outer o =>
    rcases Option.map_eq_some_iff.mp h with ⟨pcs, _, rfl⟩
    exact List.prefix_rfl

theorem log_isPrefix {s s' : Locked ι (TaskQueue ι τ) (QueueThread τ)}
    (h : Reaches step (fun _ _ => True) s s') : s.shared.log <+: s'.shared.log :=
  h.invariant (fun s' => s.shared.log <+: s'.shared.log)
    (fun _ _ _ hs _ hstep => hs.trans (log_isPrefix_step hstep)) List.prefix_rfl

/--
Whenever the mutex is free, the operations so far, in the order in which they took effect, are a history
of the sequential queue that ends with what is queued. So the elements leave it in the order of the pushes,
each of them once. A thread without a pending call got the answers to its own operations in this history,
and later operations come behind those of now.
-/
theorem linearizable {s : Locked ι (TaskQueue ι τ) (QueueThread τ)}
    (h : Reaches step (fun _ _ => True) init s) (hfree : s.owner = none) :
    let ops := s.shared.log.map Prod.snd
    Fifo.Run [] ops s.shared.queue
      ∧ ops.filterMap Op.pushed = ops.filterMap Op.popped ++ s.shared.queue
      ∧ (∀ i, (s.pcs i).pc = .idle → (s.pcs i).results = s.shared.opsOf i)
      ∧ ∀ s', Reaches step (fun _ _ => True) s s' → s.shared.log <+: s'.shared.log := by
  intro ops
  rcases Monitor.simulates_of_reaches (fun _ => rfl) h with ⟨t, ht, hsim⟩
  have hlinearized := linearized_of_reaches ht
  rcases hsim.free hfree with ⟨hshared, hpcs⟩
  have hlegal := hlinearized.legal
  have hresults := hlinearized.results
  rw [← hshared] at hlegal hresults
  refine ⟨hlegal, hlegal.conserves, fun i hidle => ?_, fun s' hs' => log_isPrefix hs'⟩
  rw [hresults i, ← hpcs, QueueThread.history, hidle]
  simp [QueuePc.performed]

def lateNotify : List (LockAction Bool (QueueEvent Bool Nat)) :=
  [.outer (.call false .waitAndPop), .lock false, .act false, .unlock false, .outer (.call true (.push 7)),
    .lock true, .act true, .unlock true, .outer (.notifyOne true (some false)), .lock false, .act false,
    .act false, .act false, .unlock false, .outer (.ret false)]

theorem linearizable_lateNotify :
    ∃ s : Locked Bool (TaskQueue Bool Nat) (QueueThread Nat),
      run step (fun _ _ => true) init lateNotify = some s
        ∧ s.shared.log = [(true, .push 7), (false, .pop 7)]
        ∧ (s.pcs false).results = s.shared.opsOf false := by
  obtain ⟨s, hs, hlog, hfree, hidle⟩ :
      ∃ s : Locked Bool (TaskQueue Bool Nat) (QueueThread Nat),
        run step (fun _ _ => true) init lateNotify = some s
          ∧ s.shared.log = [(true, .push 7), (false, .pop 7)] ∧ s.owner = none ∧ (s.pcs false).pc = .idle :=
    ⟨_, rfl, by decide +kernel, by decide +kernel, by decide +kernel⟩
  refine ⟨s, hs, hlog, ?_⟩
  exact (linearizable ((reaches_of_run hs).weaken fun _ _ _ => trivial) hfree).2.2.1 false hidle

/-! Every run of the sequential queue is one of the task queue. -/

theorem reaches_outer {q : TaskQueue ι τ} {pcs pcs' : ι → QueueThread τ} {event : QueueEvent ι τ}
    (h : Outer pcs event pcs') : Reaches monitor.atomicStep (fun _ _ => True) ⟨q, pcs⟩ ⟨q, pcs'⟩ := by
  refine Next.reaches (a := .outer event) trivial ?_
  have houter : monitor.outer pcs event = some pcs' := h.outer_eq
  rw [Monitor.atomicStep, houter, Option.map_some]

theorem reaches_returned {q : TaskQueue ι τ} {pcs : ι → QueueThread τ}
    (hidle : ∀ j, (pcs j).pc = .idle) (i : ι) (op : Op τ) (results : List (Op τ)) :
    Reaches monitor.atomicStep (fun _ _ => True)
      ⟨q, Function.update pcs i ⟨afterwards op, results⟩⟩
      ⟨q, Function.update pcs i ⟨.returned op, results⟩⟩ := by
  cases op with
  | push value =>
    have hnotify : Outer (Function.update pcs i ⟨.notify value, results⟩) (.notifyOne i none)
        (setPc (Function.update pcs i ⟨.notify value, results⟩) i (.returned (.push value))) := by
      refine .notifyNone (by rw [Function.update_self]) (fun j => ?_)
      by_cases hj : j = i
      . rw [hj, Function.update_self]
        nofun
      . rw [Function.update_of_ne hj, hidle j]
        nofun
    rw [setPc, Function.update_self, Function.update_idem] at hnotify
    exact reaches_outer hnotify
  | pop value => exact .refl
  | tryPop answer => exact .refl
  | empty answer => exact .refl
  | size answer => exact .refl

theorem reaches_call {q : TaskQueue ι τ} {pcs : ι → QueueThread τ} (hidle : ∀ j, (pcs j).pc = .idle)
    (i : ι) {call : QueueCall τ} {op : Op τ} {queue : List τ} (hanswers : Answers call op)
    (hstep : Fifo.Step q.queue op queue) :
    ∃ pcs', Reaches monitor.atomicStep (fun _ _ => True) ⟨q, pcs⟩ ⟨q.perform i queue op, pcs'⟩
      ∧ ∀ j, (pcs' j).pc = .idle := by
  let results := (pcs i).results
  have hcall : Reaches monitor.atomicStep (fun _ _ => True) ⟨q, pcs⟩
      ⟨q, Function.update pcs i ⟨.start call, results⟩⟩ := reaches_outer (.call (hidle i))
  have hregion : Reaches monitor.atomicStep (fun _ _ => True)
      ⟨q, Function.update pcs i ⟨.start call, results⟩⟩
      ⟨q.perform i queue op, Function.update pcs i ⟨afterwards op, results⟩⟩ := by
    rcases region_of_step (i := i) (l := ⟨.start call, results⟩) rfl hanswers hstep with ⟨k, hregion⟩
    refine Next.reaches (a := .region i k) trivial ?_
    rw [Monitor.atomicStep]
    dsimp only
    rw [Function.update_self, hregion, Option.map_some, Function.update_idem]
  have hret : Outer (Function.update pcs i ⟨.returned op, results⟩) (.ret i)
      (Function.update (Function.update pcs i ⟨.returned op, results⟩) i _) :=
    .ret (by rw [Function.update_self])
  rw [Function.update_self, Function.update_idem] at hret
  refine ⟨_, ((hcall.trans hregion).trans (reaches_returned hidle i op results)).trans
    (reaches_outer hret), fun j => ?_⟩
  by_cases hj : j = i
  . rw [hj, Function.update_self]
  . rw [Function.update_of_ne hj, hidle j]

theorem exists_answers (op : Op τ) : ∃ call, Answers call op := by
  cases op with
  | push value => exact ⟨_, .push value⟩
  | pop value => exact ⟨_, .pop value⟩
  | tryPop answer => exact ⟨_, .tryPop answer⟩
  | empty answer => exact ⟨_, .empty answer⟩
  | size answer => exact ⟨_, .size answer⟩

/--
The logs of the task queue, with any number of threads and in any interleaving of their instructions, are
those of the sequential queue.
-/
theorem log_iff (log : List (ι × Op τ)) (queue : List τ) :
    (∃ s : Locked ι (TaskQueue ι τ) (QueueThread τ),
      Reaches step (fun _ _ => True) init s ∧ s.owner = none ∧ s.shared = ⟨queue, log⟩)
      ↔
    Fifo.Run [] (log.map Prod.snd) queue := by
  constructor
  . rintro ⟨s, hs, hfree, hshared⟩
    have hlegal := (linearizable hs hfree).1
    rw [hshared] at hlegal
    exact hlegal
  . intro h
    suffices hidle : ∃ pcs, Reaches monitor.atomicStep (fun _ _ => True) ⟨{}, fun _ => {}⟩
        ⟨⟨queue, log⟩, pcs⟩ ∧ ∀ j, (pcs j).pc = .idle by
      rcases hidle with ⟨pcs, ht, _⟩
      exact ⟨⟨_, none, pcs⟩, (Monitor.reaches_free_iff fun _ => rfl).mpr ht, rfl, rfl⟩
    induction log using List.reverseRecOn generalizing queue with
    | nil =>
      cases run_nil_iff.mp h
      exact ⟨_, .refl, fun _ => rfl⟩
    | append_singleton log entry ih =>
      rcases entry with ⟨i, op⟩
      rw [List.map_append, List.map_singleton] at h
      rcases run_snoc_iff.mp h with ⟨queue', hrun, hstep⟩
      rcases ih queue' hrun with ⟨pcs, ht, hidle⟩
      rcases exists_answers op with ⟨call, hanswers⟩
      rcases reaches_call (q := ⟨queue', log⟩) hidle i hanswers hstep with ⟨pcs', hcall, hidle'⟩
      exact ⟨pcs', ht.trans hcall, hidle'⟩

end TaskQueue

end NetOrc
