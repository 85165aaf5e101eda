import NetOrc.Core.PoolCode

/-!
This module shows that the thread pool delivers its tasks at the level of single instructions: the pool
whose regions under the mutex are single steps follows it.
-/

namespace NetOrc

open Transition

variable {n : Nat} {γ τ : Type}

namespace PoolCode

inductive IsWorker : PoolCode τ → PoolPc τ → Prop where
  | ready {ran : List τ} : IsWorker (.worker .ready ran) .ready
  | sleeping {ran : List τ} : IsWorker (.worker .sleeping ran) .sleeping
  | running {task : τ} {ran : List τ} : IsWorker (.worker (.running task) ran) (.running task)
  | finished {ran : List τ} : IsWorker (.worker .finished ran) .finished

inductive IsDestructor : PoolCode τ → DestructorPc → Prop where
  | idle : IsDestructor (.destructor .idle) .uncalled
  | start : IsDestructor (.destructor .start) .uncalled
  | notifyAll : IsDestructor (.destructor .notifyAll) .notifying
  | joining {k : Nat} : IsDestructor (.destructor (.joining k)) (.joining k)

def ranCount [DecidableEq τ] (task : τ) (l : PoolCode τ) : Nat :=
  match l with
  | .worker _ ran => ran.count task
  | _ => 0

theorem IsWorker.wake {l : PoolCode τ} {pc : PoolPc τ} (h : IsWorker l pc) :
    IsWorker l.wake pc.wake := by
  cases h <;> constructor

theorem IsWorker.isSleeping_eq {l : PoolCode τ} {pc : PoolPc τ} (h : IsWorker l pc) :
    l.isSleeping = pc.isSleeping := by
  cases h <;> rfl

theorem IsWorker.isNotifying {l : PoolCode τ} {pc : PoolPc τ} (h : IsWorker l pc) :
    l.isNotifying = false := by
  cases h <;> rfl

theorem IsDestructor.isNotifying {l : PoolCode τ} {pc : DestructorPc} (h : IsDestructor l pc) :
    l.isNotifying = false := by
  cases h <;> rfl

theorem IsDestructor.wake {l : PoolCode τ} {pc : DestructorPc} (h : IsDestructor l pc) : l.wake = l := by
  cases h <;> rfl

theorem isNotifying_wake (l : PoolCode τ) : l.wake.isNotifying = l.isNotifying := by
  unfold wake
  split <;> rfl

theorem IsDestructor.ranCount_eq [DecidableEq τ] {l : PoolCode τ} {pc : DestructorPc}
    (h : IsDestructor l pc) (task : τ) : l.ranCount task = 0 := by
  cases h <;> rfl

theorem ranCount_wake [DecidableEq τ] (task : τ) (l : PoolCode τ) :
    l.wake.ranCount task = l.ranCount task := by
  unfold wake
  split <;> rfl

end PoolCode

open PoolCode

namespace PoolThread

variable [Fintype γ] [DecidableEq τ]

structure Threads (pcs : PoolThread n γ → PoolCode τ) (workers : Fin n → PoolPc τ)
    (destructor : DestructorPc) (notifies : Nat) (ran : List τ) : Prop where
  worker : ∀ i, IsWorker (pcs (.worker i)) (workers i)
  caller : ∀ c, ∃ pc, pcs (.caller c) = .caller pc
  destructor : IsDestructor (pcs .destructor) destructor
  notifies : threads PoolCode.isNotifying pcs = notifies
  ran : ∀ task, weights (ranCount task) pcs = ran.count task

structure Related (t : Atomic (PoolThread n γ) (PoolQueue τ) (PoolCode τ)) (s : ThreadEnvironment n τ) :
    Prop where
  queue : t.shared = ⟨s.tasks, s.stop, s.enqueued, s.accepted, s.popped⟩
  threads : Threads t.pcs s.workers s.destructor s.notifies s.ran

variable {pcs : PoolThread n γ → PoolCode τ} {workers : Fin n → PoolPc τ} {destructor : DestructorPc}
  {notifies : Nat} {ran : List τ}

theorem Threads.wake (h : Threads pcs workers destructor notifies ran) :
    Threads (fun j => (pcs j).wake) (fun i => (workers i).wake) destructor notifies ran where
  worker i := (h.worker i).wake
  caller c := by
    rcases h.caller c with ⟨pc, hpc⟩
    refine ⟨pc, ?_⟩
    rw [hpc]
    rfl
  destructor := by
    rw [h.destructor.wake]
    exact h.destructor
  notifies := by
    rw [← h.notifies]
    simp only [Transition.threads, isNotifying_wake]
  ran task := by
    rw [← h.ran task]
    simp only [weights, ranCount_wake]

theorem Threads.notifies_pos (h : Threads pcs workers destructor notifies ran) {c : γ}
    (hpc : pcs (.caller c) = .caller .notifyOne) : 0 < notifies := by
  rw [← h.notifies]
  refine threads_pos _ (.caller c) ?_
  rw [hpc]
  rfl

def start (i : PoolThread n γ) : PoolCode τ :=
  match i with
  | .worker _ => .worker .ready []
  | .caller _ => .caller .idle
  | .destructor => .destructor .idle

theorem related_start :
    Related (⟨{}, start⟩ : Atomic (PoolThread n γ) (PoolQueue τ) (PoolCode τ)) {} where
  queue := rfl
  threads :=
    { worker := fun _ => .ready
      caller := fun _ => ⟨.idle, rfl⟩
      destructor := .idle
      notifies := by
        refine Finset.card_eq_zero.mpr (Finset.filter_eq_empty_iff.mpr ?_)
        rintro (_ | _ | _) _ <;> nofun
      ran := by
        intro task
        refine Finset.sum_eq_zero ?_
        rintro (_ | _ | _) _ <;> rfl }

variable [DecidableEq γ]

theorem Threads.setWorker (h : Threads pcs workers destructor notifies ran) {i : Fin n} {l : PoolCode τ}
    {pc : PoolPc τ} {ran' : List τ} (hl : IsWorker l pc)
    (hran : ∀ task, ran'.count task + (pcs (.worker i)).ranCount task
      = ran.count task + l.ranCount task) :
    Threads (Function.update pcs (.worker i) l) (Function.update workers i pc) destructor notifies
      ran' where
  worker j := by
    by_cases hj : j = i
    . rw [hj, Function.update_self, Function.update_self]
      exact hl
    . rw [Function.update_of_ne hj, Function.update_of_ne (fun heq => hj (PoolThread.worker.inj heq))]
      exact h.worker j
  caller c := by
    have hne : (.caller c : PoolThread n γ) ≠ .worker i := nofun
    rw [Function.update_of_ne hne]
    exact h.caller c
  destructor := by
    have hne : (.destructor : PoolThread n γ) ≠ .worker i := nofun
    rw [Function.update_of_ne hne]
    exact h.destructor
  notifies := by
    rw [threads_update_of_eq, h.notifies]
    rw [hl.isNotifying, (h.worker i).isNotifying]
  ran task := by
    have hupdate := weights_update (ranCount task) pcs (.worker i) l
    have hbefore := h.ran task
    have hafter := hran task
    omega

theorem Threads.setCaller (h : Threads pcs workers destructor notifies ran) {c : γ}
    {pc pc' : EnqueueCode τ} {notifies' : Nat} (hpc : pcs (.caller c) = .caller pc)
    (hnotifies : notifies' + (PoolCode.caller pc).isNotifying.toNat
      = notifies + (PoolCode.caller pc').isNotifying.toNat) :
    Threads (Function.update pcs (.caller c) (.caller pc')) workers destructor notifies' ran where
  worker i := by
    have hne : (.worker i : PoolThread n γ) ≠ .caller c := nofun
    rw [Function.update_of_ne hne]
    exact h.worker i
  caller d := by
    by_cases hd : d = c
    . exact ⟨pc', by rw [hd, Function.update_self]⟩
    . rw [Function.update_of_ne (fun heq => hd (PoolThread.caller.inj heq))]
      exact h.caller d
  destructor := by
    have hne : (.destructor : PoolThread n γ) ≠ .caller c := nofun
    rw [Function.update_of_ne hne]
    exact h.destructor
  notifies := by
    have hupdate := threads_update (p := PoolCode.isNotifying) pcs (.caller c) (.caller pc')
    rw [hpc, h.notifies] at hupdate
    omega
  ran task := by
    have hupdate := weights_update (ranCount task) pcs (.caller c) (.caller pc')
    rw [hpc, h.ran task] at hupdate
    exact hupdate

theorem Threads.setDestructor (h : Threads pcs workers destructor notifies ran) {l : PoolCode τ}
    {pc : DestructorPc} (hl : IsDestructor l pc) :
    Threads (Function.update pcs .destructor l) workers pc notifies ran where
  worker i := by
    have hne : (.worker i : PoolThread n γ) ≠ .destructor := nofun
    rw [Function.update_of_ne hne]
    exact h.worker i
  caller c := by
    have hne : (.caller c : PoolThread n γ) ≠ .destructor := nofun
    rw [Function.update_of_ne hne]
    exact h.caller c
  destructor := by
    rw [Function.update_self]
    exact hl
  notifies := by
    rw [threads_update_of_eq, h.notifies]
    rw [hl.isNotifying, h.destructor.isNotifying]
  ran task := by
    have hupdate := weights_update (ranCount task) pcs .destructor l
    rw [h.ran task, hl.ranCount_eq, h.destructor.ranCount_eq] at hupdate
    exact hupdate

variable {t : Atomic (PoolThread n γ) (PoolQueue τ) (PoolCode τ)} {s : ThreadEnvironment n τ}

theorem Related.region (h : Related t s) {i : PoolThread n γ} {q : PoolQueue τ} {l : PoolCode τ}
    (hregion : Region t.shared (t.pcs i) q l) :
    ∃ a s', s.Step a s' ∧ Related ⟨q, Function.update t.pcs i l⟩ s' := by
  rcases h with ⟨hqueue, hthreads⟩
  rw [hqueue] at hregion
  generalize hpc : t.pcs i = l₀ at hregion
  cases i with
  | worker i =>
    have hworker := hthreads.worker i
    rw [hpc] at hworker
    have hran : ∀ {pc : WorkerCode τ} {ran : List τ}, l₀ = .worker .ready ran → ∀ task,
        s.ran.count task + (t.pcs (.worker i)).ranCount task
          = s.ran.count task + (PoolCode.worker pc ran).ranCount task := by
      intro pc ran hl₀ task
      rw [hpc, hl₀]
      rfl
    generalize hpc' : s.workers i = pc at hworker
    cases hregion with
    | sleep hstop htasks =>
      cases hworker
      exact ⟨_, _, .sleep hpc' hstop htasks, rfl, hthreads.setWorker .sleeping (hran rfl)⟩
    | finish hstop htasks =>
      cases hworker
      exact ⟨_, _, .finish hpc' hstop htasks, rfl, hthreads.setWorker .finished (hran rfl)⟩
    | pop htasks =>
      cases hworker
      dsimp only at htasks
      refine ⟨_, _, .pop hpc' htasks, ?_, hthreads.setWorker .running (hran rfl)⟩
      simp only [PoolQueue.pop, htasks, List.tail_cons]
    | enqueue => contradiction
    | setStop => contradiction
  | caller c =>
    rcases hthreads.caller c with ⟨pc, hcaller⟩
    rw [hpc] at hcaller
    subst hcaller
    cases hregion
    exact ⟨_, _, .enqueue, rfl, hthreads.setCaller hpc rfl⟩
  | destructor =>
    have hdestructor := hthreads.destructor
    rw [hpc] at hdestructor
    generalize hpc' : s.destructor = pc at hdestructor
    cases hregion with
    | setStop =>
      cases hdestructor
      exact ⟨_, _, .setStop hpc', rfl, hthreads.setDestructor .notifyAll⟩
    | _ => contradiction

theorem Related.outer (h : Related t s) {event : PoolEvent n γ τ}
    (houter : Outer t.pcs event pcs) :
    ∃ s', Reaches ThreadEnvironment.step (fun _ _ => True) s s' ∧ Related ⟨t.shared, pcs⟩ s' := by
  have hreaches : ∀ {a s'}, s.Step a s' → Reaches ThreadEnvironment.step (fun _ _ => True) s s' :=
    fun hstep => Next.reaches trivial hstep.step_eq
  rcases h with ⟨hqueue, hthreads⟩
  cases houter with
  | enqueue hpc => exact ⟨s, .refl, hqueue, hthreads.setCaller hpc rfl⟩
  | @notifyOne c i ran hpc hsleeping =>
    have hpos := hthreads.notifies_pos hpc
    have hworker := hthreads.worker i
    rw [hsleeping] at hworker
    generalize hpc' : s.workers i = pc at hworker
    cases hworker
    have hne : (.caller c : PoolThread n γ) ≠ .worker i := nofun
    have hcaller : Function.update t.pcs (.worker i) (.worker .ready ran) (.caller c)
        = .caller .notifyOne := by
      rw [Function.update_of_ne hne, hpc]
    have hwoken : Threads (Function.update t.pcs (.worker i) (.worker .ready ran))
        (Function.update s.workers i .ready) s.destructor s.notifies s.ran :=
      hthreads.setWorker .ready (fun task => by rw [hsleeping]; rfl)
    refine ⟨_, hreaches (.notifyOne hpos hpc'), hqueue, hwoken.setCaller hcaller ?_⟩
    simp only [PoolCode.isNotifying, Bool.toNat_true, Bool.toNat_false]
    omega
  | @notifyNone c hpc hawake =>
    have hpos := hthreads.notifies_pos hpc
    refine ⟨_, hreaches (.notifyNone hpos (fun i => ?_)), hqueue, hthreads.setCaller hpc ?_⟩
    . rw [← (hthreads.worker i).isSleeping_eq]
      exact hawake i
    . simp only [PoolCode.isNotifying, Bool.toNat_true, Bool.toNat_false]
      omega
  | @spuriousWake i ran hpc =>
    have hworker := hthreads.worker i
    rw [hpc] at hworker
    generalize hpc' : s.workers i = pc at hworker
    cases hworker
    exact ⟨_, hreaches (.spuriousWake hpc'), hqueue,
      hthreads.setWorker .ready (fun task => by rw [hpc]; rfl)⟩
  | @run i task ran hpc =>
    have hworker := hthreads.worker i
    rw [hpc] at hworker
    generalize hpc' : s.workers i = pc at hworker
    cases hworker
    refine ⟨_, hreaches (.run hpc'), hqueue, hthreads.setWorker .ready (fun task' => ?_)⟩
    rw [hpc]
    simp only [ranCount, List.count_append]
    omega
  | destroy hpc =>
    have hdestructor := hthreads.destructor
    rw [hpc] at hdestructor
    generalize hpc' : s.destructor = pc at hdestructor
    cases hdestructor
    refine ⟨s, .refl, hqueue, ?_⟩
    rw [hpc']
    exact hthreads.setDestructor .start
  | notifyAll hpc =>
    have hdestructor := hthreads.destructor
    rw [hpc] at hdestructor
    generalize hpc' : s.destructor = pc at hdestructor
    cases hdestructor
    exact ⟨_, hreaches (.notifyAll hpc'), hqueue, hthreads.wake.setDestructor .joining⟩
  | @join i ran hpc hfinished =>
    have hdestructor := hthreads.destructor
    rw [hpc] at hdestructor
    generalize hpc' : s.destructor = pc at hdestructor
    cases hdestructor
    have hworker := hthreads.worker i
    rw [hfinished] at hworker
    generalize hworker' : s.workers i = pc at hworker
    cases hworker
    exact ⟨_, hreaches (.join hpc' hworker'), hqueue, hthreads.setDestructor .joining⟩

/-! Whole runs. -/

theorem related_of_reaches
    (h : Reaches (monitor (n := n) (γ := γ) (τ := τ)).atomicStep (fun _ _ => True) ⟨{}, start⟩ t) :
    ∃ s, Reaches ThreadEnvironment.step (fun _ _ => True) {} s ∧ Related t s := by
  refine h.invariant (fun t => ∃ s, Reaches ThreadEnvironment.step (fun _ _ => True) {} s ∧ Related t s)
    ?_ ⟨{}, .refl, related_start⟩
  rintro t a t' ⟨s, hs, hrelated⟩ _ hstep
  cases a with
  | region i k =>
    rcases Option.map_eq_some_iff.mp hstep with ⟨⟨q, l⟩, hregion, rfl⟩
    rcases hrelated.region (region_cases hregion) with ⟨a, s', hs', hrelated'⟩
    exact ⟨s', hs.tail ⟨a, trivial, hs'.step_eq⟩, hrelated'⟩
  | outer event =>
    rcases Option.map_eq_some_iff.mp hstep with ⟨pcs, houter, rfl⟩
    rcases hrelated.outer (Outer.of_outer houter) with ⟨s', hs', hrelated'⟩
    exact ⟨s', hs.trans hs', hrelated'⟩

end PoolThread

end NetOrc
