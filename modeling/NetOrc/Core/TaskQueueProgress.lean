import NetOrc.Core.TaskQueueHistory

/-!
This module shows that no wakeup of the task queue is lost: left to itself, it comes to rest, and then a
consumer only sleeps if there is nothing queued.
-/

namespace NetOrc

open Fifo
open Transition

variable {ι τ : Type}

namespace QueuePc

def isNotifying (pc : QueuePc τ) : Bool :=
  match pc with
  | .notify _ => true
  | _ => false

def isWaiting (pc : QueuePc τ) : Bool :=
  match pc with
  | .start .waitAndPop => true
  | _ => false

/--
The number of steps that are left until the call returns or sleeps, where a notification counts for the
thread that it wakes as well.
-/
def weight (pc : QueuePc τ) : Nat :=
  match pc with
  | .idle => 0
  | .start (.push _) => 11
  | .start _ => 6
  | .entered (.push _) => 10
  | .entered _ => 5
  | .blocking => 1
  | .front _ => 4
  | .pop _ _ => 3
  | .leaving (.push _) => 9
  | .leaving _ => 2
  | .notify _ => 8
  | .sleeping => 0
  | .returned _ => 1

theorem weight_le (pc : QueuePc τ) : pc.weight ≤ 11 := by
  unfold weight
  split <;> omega

end QueuePc

namespace TaskQueue

/-! No wakeup is lost. -/

theorem isSleeping_afterwards (op : Op τ) : (afterwards op).isSleeping = false := by
  cases op <;> rfl

theorem isWaiting_afterwards (op : Op τ) : (afterwards op).isWaiting = false := by
  cases op <;> rfl

theorem length_le_of_step {call : QueueCall τ} {op : Op τ} {queue queue' : List τ}
    (hanswers : Answers call op) (hstep : Fifo.Step queue op queue') :
    queue'.length + (QueuePc.start call).isWaiting.toNat
      ≤
    queue.length + (afterwards op).isNotifying.toNat := by
  cases hanswers with
  | push value =>
    cases hstep
    rw [List.length_append]
    exact Nat.le_refl _
  | pop value =>
    cases hstep
    exact Nat.le_refl _
  | tryPop answer =>
    cases hstep with
    | tryPop => exact Nat.le_succ _
    | tryPopNone => exact Nat.le_refl _
  | empty answer =>
    cases hstep
    exact Nat.le_refl _
  | size answer =>
    cases hstep
    exact Nat.le_refl _

theorem weight_afterwards_lt (op : Op τ) :
    (afterwards op).weight < (QueuePc.leaving op).weight := by
  cases op <;> simp [afterwards, QueuePc.weight]

theorem weight_act_lt {i : ι} {q q' : TaskQueue ι τ} {l l' : QueueThread τ}
    (h : act i q l = some (q', l')) : l'.pc.weight < l.pc.weight := by
  unfold act at h
  split at h
  . next hpc => cases h; simp [hpc, QueuePc.weight]
  . next hpc =>
    cases h
    rw [hpc]
    cases q.queue <;> simp [QueuePc.weight]
  . next hpc =>
    rw [hpc]
    split at h <;> cases h <;> simp [QueuePc.weight]
  . next hpc => cases h; simp [hpc, QueuePc.weight]
  . next hpc => cases h; simp [hpc, QueuePc.weight]
  . next hpc =>
    rw [hpc]
    split at h
    . contradiction
    . cases h; simp [QueuePc.weight]
  . next waited value hpc =>
    cases h
    rw [hpc]
    cases waited <;> simp [QueuePc.weight]
  . contradiction

theorem inside_enabled {i : ι} {q q' : TaskQueue ι τ} {call : QueueCall τ} {l : QueueThread τ}
    (h : Inside i q call q' l.pc) : act i q' l ≠ none ∨ unlock l ≠ none := by
  generalize hpc : l.pc = pc at h
  cases h with
  | entered =>
    left
    cases call with
    | tryPop =>
      simp only [act, hpc]
      split <;> exact Option.some_ne_none _
    | _ => simp [act, hpc]
  | blocking => exact .inr (by simp [unlock, hpc])
  | front hcall hqueue => exact .inl (by simp [act, hpc, hqueue])
  | pop => exact .inl (by simp [act, hpc])
  | leaving => exact .inr (by simp [unlock, hpc])

variable [DecidableEq ι] [Fintype ι]

def count (p : QueuePc τ → Bool) (pcs : ι → QueueThread τ) : Nat := threads (fun l => p l.pc) pcs

theorem count_update (p : QueuePc τ → Bool) (pcs : ι → QueueThread τ) (i : ι) (l : QueueThread τ) :
    count p (Function.update pcs i l) + (p (pcs i).pc).toNat = count p pcs + (p l.pc).toNat :=
  threads_update pcs i l

structure Moves (pcs : ι → QueueThread τ) (pc : QueuePc τ) (pcs' : ι → QueueThread τ)
    (pc' : QueuePc τ) : Prop where
  sleeping : count QueuePc.isSleeping pcs' + pc.isSleeping.toNat
    = count QueuePc.isSleeping pcs + pc'.isSleeping.toNat
  notifying : count QueuePc.isNotifying pcs' + pc.isNotifying.toNat
    = count QueuePc.isNotifying pcs + pc'.isNotifying.toNat
  waiting : count QueuePc.isWaiting pcs' + pc.isWaiting.toNat
    = count QueuePc.isWaiting pcs + pc'.isWaiting.toNat

theorem moves_update {pcs : ι → QueueThread τ} {i : ι} {pc pc' : QueuePc τ} {l : QueueThread τ}
    (hpc : (pcs i).pc = pc) (hl : l.pc = pc') : Moves pcs pc (Function.update pcs i l) pc' := by
  rw [← hpc, ← hl]
  exact ⟨count_update _ pcs i l, count_update _ pcs i l, count_update _ pcs i l⟩

theorem moves_setPc {pcs : ι → QueueThread τ} {i : ι} {pc : QueuePc τ} (hpc : (pcs i).pc = pc)
    (pc' : QueuePc τ) : Moves pcs pc (setPc pcs i pc') pc' := moves_update hpc rfl

/--
If a consumer sleeps, there are as many threads that still notify or have been woken as there are
elements.
-/
def Watched (t : Atomic ι (TaskQueue ι τ) (QueueThread τ)) : Prop :=
  count QueuePc.isSleeping t.pcs = 0
    ∨ t.shared.queue.length ≤ count QueuePc.isNotifying t.pcs + count QueuePc.isWaiting t.pcs

theorem Watched.region {t : Atomic ι (TaskQueue ι τ) (QueueThread τ)} (ht : Watched t) {i : ι} {k : Nat}
    {q : TaskQueue ι τ} {l : QueueThread τ}
    (h : monitor.region i k t.shared (t.pcs i) = some (q, l)) :
    Watched ⟨q, Function.update t.pcs i l⟩ := by
  unfold Watched at ht ⊢
  rcases region_cases h with ⟨call, hpc, _, ⟨rfl, hempty, rfl, hl⟩
    | ⟨op, queue, hanswers, hstep, rfl, hl⟩⟩
  . right
    rw [hempty]
    exact Nat.zero_le _
  . have hlength := length_le_of_step hanswers hstep
    rcases moves_update hpc hl with ⟨hsleeping, hnotifying, hwaiting⟩
    rw [isSleeping_afterwards, Bool.toNat_false] at hsleeping
    rw [isWaiting_afterwards, Bool.toNat_false] at hwaiting
    have hstart : (QueuePc.start call).isSleeping.toNat = 0
      ∧ (QueuePc.start call).isNotifying.toNat = 0 := ⟨rfl, rfl⟩
    dsimp only [perform]
    omega

theorem Watched.outer {t : Atomic ι (TaskQueue ι τ) (QueueThread τ)} (ht : Watched t)
    {event : QueueEvent ι τ} {pcs : ι → QueueThread τ} (h : Outer t.pcs event pcs) :
    Watched ⟨t.shared, pcs⟩ := by
  unfold Watched at ht ⊢
  dsimp only
  cases h with
  | @call i call hpc =>
    rcases moves_setPc hpc (.start call) with ⟨hsleeping, hnotifying, hwaiting⟩
    simp only [QueuePc.isSleeping, QueuePc.isNotifying, Bool.toNat_false] at hsleeping hnotifying
    have hidle : (QueuePc.idle : QueuePc τ).isWaiting.toNat = 0 := rfl
    omega
  | @notifyOne i j value hpc hsleeping =>
    have hne : i ≠ j := by
      rintro rfl
      rw [hpc] at hsleeping
      contradiction
    have hpc' : (setPc t.pcs j (.start .waitAndPop) i).pc = .notify value := by
      rw [setPc, Function.update_of_ne hne, hpc]
    have hwoken := moves_setPc hsleeping (.start .waitAndPop)
    have hnotified := moves_setPc hpc' (.returned (.push value))
    rcases hwoken with ⟨hsleeping₁, hnotifying₁, hwaiting₁⟩
    rcases hnotified with ⟨hsleeping₂, hnotifying₂, hwaiting₂⟩
    simp only [QueuePc.isSleeping, Bool.toNat_false, Bool.toNat_true] at hsleeping₁ hsleeping₂
    simp only [QueuePc.isNotifying, Bool.toNat_false, Bool.toNat_true] at hnotifying₁ hnotifying₂
    simp only [QueuePc.isWaiting, Bool.toNat_false, Bool.toNat_true] at hwaiting₁ hwaiting₂
    omega
  | @notifyNone i value hpc hawake =>
    left
    have hnone : count QueuePc.isSleeping t.pcs = 0 := by
      by_contra hpos
      rcases exists_of_threads_pos (Nat.pos_of_ne_zero hpos) with ⟨j, hj⟩
      exact hawake j hj
    have hsleeping := (moves_setPc hpc (.returned (.push value))).sleeping
    simp only [QueuePc.isSleeping, Bool.toNat_false] at hsleeping
    omega
  | @spuriousWake i hpc =>
    rcases moves_setPc hpc (.start .waitAndPop) with ⟨hsleeping, hnotifying, hwaiting⟩
    simp only [QueuePc.isSleeping, Bool.toNat_false, Bool.toNat_true] at hsleeping
    simp only [QueuePc.isNotifying, Bool.toNat_false] at hnotifying
    simp only [QueuePc.isWaiting, Bool.toNat_false, Bool.toNat_true] at hwaiting
    omega
  | @ret i op hpc =>
    rcases moves_update (l := { pc := .idle, results := (t.pcs i).results ++ [op] }) hpc rfl with
      ⟨hsleeping, hnotifying, hwaiting⟩
    simp only [QueuePc.isSleeping, QueuePc.isNotifying, QueuePc.isWaiting, Bool.toNat_false]
      at hsleeping hnotifying hwaiting
    omega

theorem watched_of_reaches {t : Atomic ι (TaskQueue ι τ) (QueueThread τ)}
    (h : Reaches monitor.atomicStep (fun _ _ => True) ⟨{}, fun _ => {}⟩ t) : Watched t := by
  refine h.invariant Watched ?_ ?_
  . intro t a t' ht _ hstep
    cases a with
    | region i k =>
      rcases Option.map_eq_some_iff.mp hstep with ⟨⟨q, l⟩, hregion, rfl⟩
      exact ht.region hregion
    | outer o =>
      rcases Option.map_eq_some_iff.mp hstep with ⟨pcs, houter, rfl⟩
      exact ht.outer (Outer.of_outer houter)
  . left
    simp [count, threads, QueuePc.isSleeping]

/-! The queue comes to rest. -/

def isInternal (a : LockAction ι (QueueEvent ι τ)) : Bool :=
  match a with
  | .outer (.call _ _) => false
  | .outer (.spuriousWake _) => false
  | _ => true

def rank (pcs : ι → QueueThread τ) : Nat := weights (fun l => l.pc.weight) pcs

theorem rank_update_lt {pcs : ι → QueueThread τ} {i : ι} {l : QueueThread τ}
    (h : l.pc.weight < (pcs i).pc.weight) :
    rank (Function.update pcs i l) < rank pcs := by
  unfold rank
  have hupdate := weights_update (fun l : QueueThread τ => l.pc.weight) pcs i l
  omega

theorem rank_setPc {pcs : ι → QueueThread τ} {i : ι} {pc : QueuePc τ} (hpc : (pcs i).pc = pc)
    (pc' : QueuePc τ) :
    rank (setPc pcs i pc') + pc.weight = rank pcs + pc'.weight := by
  rw [← hpc]
  exact weights_update (fun l : QueueThread τ => l.pc.weight) pcs i _

theorem Outer.rank_lt {pcs pcs' : ι → QueueThread τ} {event : QueueEvent ι τ}
    (h : Outer pcs event pcs') (ha : isInternal (.outer event)) :
    rank pcs' < rank pcs := by
  cases h with
  | call => contradiction
  | @notifyOne i j value hpc hsleeping =>
    have hne : i ≠ j := by
      rintro rfl
      rw [hpc] at hsleeping
      contradiction
    have hpc' : (setPc pcs j (.start .waitAndPop) i).pc = .notify value := by
      rw [setPc, Function.update_of_ne hne, hpc]
    have hwoken := rank_setPc hsleeping (.start .waitAndPop)
    have hnotified := rank_setPc hpc' (.returned (.push value))
    simp only [QueuePc.weight] at hwoken hnotified
    omega
  | notifyNone hpc => exact rank_update_lt (by simp [hpc, QueuePc.weight])
  | spuriousWake => contradiction
  | ret hpc => exact rank_update_lt (by simp [hpc, QueuePc.weight])

theorem rank_lt {s s' : Locked ι (TaskQueue ι τ) (QueueThread τ)} {a : LockAction ι (QueueEvent ι τ)}
    (ha : isInternal a) (h : step s a = some s') : rank s'.pcs < rank s.pcs := by
  cases a with
  | lock i =>
    dsimp only [step, Monitor.step] at h
    split at h
    . rcases Option.map_eq_some_iff.mp h with ⟨l, hlock, rfl⟩
      rcases lock_eq_some hlock with ⟨call, hpc, rfl⟩
      apply rank_update_lt
      rw [hpc]
      cases call <;> simp [QueuePc.weight]
    . contradiction
  | act i =>
    rcases Option.map_eq_some_iff.mp h with ⟨p, hact, rfl⟩
    exact rank_update_lt (weight_act_lt hact)
  | unlock i =>
    rcases Option.map_eq_some_iff.mp h with ⟨l, hunlock, rfl⟩
    apply rank_update_lt
    rcases unlock_eq_some hunlock with ⟨hpc, rfl⟩ | ⟨op, hpc, rfl⟩
    . simp [hpc, QueuePc.weight]
    . rw [hpc]
      exact weight_afterwards_lt op
  | outer o =>
    rcases Option.map_eq_some_iff.mp h with ⟨pcs, houter, rfl⟩
    exact (Outer.of_outer houter).rank_lt ha

/--
Nothing happens any more without a new call or a spurious wakeup.
-/
def Quiescent (s : Locked ι (TaskQueue ι τ) (QueueThread τ)) : Prop :=
  ∀ a, isInternal a → step s a = none

theorem Quiescent.owner_eq_none {s : Locked ι (TaskQueue ι τ) (QueueThread τ)} (hs : Quiescent s)
    {t : Atomic ι (TaskQueue ι τ) (QueueThread τ)} (hsim : monitor.Simulates s t) :
    s.owner = none := by
  cases howner : s.owner with
  | none => rfl
  | some i =>
    rcases (hsim.held i howner).holder with ⟨k, l, hlock, hacts⟩
    rcases lock_eq_some hlock with ⟨call, _, rfl⟩
    cases inside_enabled (inside_of_acts rfl hacts).1 with
    | inl hact => exact absurd (Option.map_eq_none_iff.mp (hs (.act i) rfl)) hact
    | inr hunlock => exact absurd (Option.map_eq_none_iff.mp (hs (.unlock i) rfl)) hunlock

theorem Quiescent.idle_or_sleeping {s : Locked ι (TaskQueue ι τ) (QueueThread τ)} (hs : Quiescent s)
    (hfree : s.owner = none) (hinside : ∀ i, (s.pcs i).pc.isInside = false) (i : ι) :
    (s.pcs i).pc = .idle ∨ (s.pcs i).pc = .sleeping := by
  have hlock := hs (.lock i) rfl
  simp only [step, Monitor.step, hfree] at hlock
  have hlock : lock (s.pcs i) = none := Option.map_eq_none_iff.mp hlock
  have houter : ∀ event pcs, isInternal (.outer event) → ¬Outer s.pcs event pcs := by
    intro event pcs hinternal h
    have hnone : outer s.pcs event = none := Option.map_eq_none_iff.mp (hs (.outer event) hinternal)
    rw [h.outer_eq] at hnone
    contradiction
  have hpc := hinside i
  cases h : (s.pcs i).pc with
  | idle => exact .inl rfl
  | sleeping => exact .inr rfl
  | start call => simp [lock, h] at hlock
  | notify value =>
    exfalso
    by_cases hsleeping : ∃ j, (s.pcs j).pc.isSleeping
    . rcases hsleeping with ⟨j, hj⟩
      exact houter (.notifyOne i (some j)) _ rfl (.notifyOne h (isSleeping_iff.mp hj))
    . exact houter (.notifyOne i none) _ rfl (.notifyNone h (fun j hj => hsleeping ⟨j, hj⟩))
  | returned op => exact absurd (.ret h) (houter (.ret i) _ rfl)
  | _ => simp [h, QueuePc.isInside] at hpc

/--
From any state on, the threads take at most 11 steps for each of them, counted together, as long as there
are no new calls and no spurious wakeups. Then the mutex is free, every call has returned or sleeps, and
calls only sleep if the queue is empty.
-/
theorem comesToRest {s : Locked ι (TaskQueue ι τ) (QueueThread τ)}
    (h : Reaches step (fun _ _ => True) init s) :
    (∀ as s', run step (fun _ a => isInternal a) s as = some s' →
        as.length ≤ 11 * Fintype.card ι)
      ∧ (Quiescent s → s.owner = none
        ∧ (∀ i, (s.pcs i).pc = .idle ∨ (s.pcs i).pc = .sleeping)
        ∧ ((∃ i, (s.pcs i).pc = .sleeping) → s.shared.queue = [])) := by
  constructor
  . intro as s' hrun
    have hlength := length_le_of_run (fun s => rank s.pcs) (fun _ _ _ ha hstep => rank_lt ha hstep) hrun
    exact hlength.trans (weights_le (fun l => l.pc.weight_le) s.pcs)
  . intro hs
    rcases Monitor.simulates_of_reaches (fun _ => rfl) h with ⟨t, ht, hsim⟩
    have hfree := hs.owner_eq_none hsim
    rcases hsim.free hfree with ⟨hshared, hpcs⟩
    have hresting := hs.idle_or_sleeping hfree (fun i => by rw [hpcs]; exact hsim.outside i)
    refine ⟨hfree, hresting, ?_⟩
    rintro ⟨i, hi⟩
    have hnone : ∀ p : QueuePc τ → Bool, p .idle = false → p .sleeping = false →
        count p t.pcs = 0 := by
      intro p hidle hsleeping
      by_contra hpos
      rcases exists_of_threads_pos (Nat.pos_of_ne_zero hpos) with ⟨j, hj⟩
      rw [← hpcs] at hj
      cases hresting j with
      | inl h => rw [h, hidle] at hj; contradiction
      | inr h => rw [h, hsleeping] at hj; contradiction
    have hsleeping : 0 < count QueuePc.isSleeping t.pcs := by
      refine threads_pos _ i ?_
      rw [← hpcs, hi]
      rfl
    have hwatched := watched_of_reaches ht
    unfold Watched at hwatched
    rw [hnone QueuePc.isNotifying rfl rfl, hnone QueuePc.isWaiting rfl rfl] at hwatched
    rw [hshared]
    apply List.eq_nil_of_length_eq_zero
    omega

def waitFirst : List (LockAction Unit (QueueEvent Unit Nat)) :=
  [.outer (.call () .waitAndPop), .lock (), .act (), .unlock ()]

theorem comesToRest_waitFirst :
    ∃ s : Locked Unit (TaskQueue Unit Nat) (QueueThread Nat),
      run step (fun _ _ => true) init waitFirst = some s
        ∧ (s.pcs ()).pc = .sleeping
        ∧ (Quiescent s → s.shared.queue = []) := by
  obtain ⟨s, hs, hpc⟩ : ∃ s : Locked Unit (TaskQueue Unit Nat) (QueueThread Nat),
      run step (fun _ _ => true) init waitFirst = some s ∧ (s.pcs ()).pc = .sleeping :=
    ⟨_, rfl, by decide +kernel⟩
  have hreaches : Reaches step (fun _ _ => True) init s :=
    (reaches_of_run hs).weaken (fun _ _ _ => trivial)
  exact ⟨s, hs, hpc, fun hquiescent => ((comesToRest hreaches).2 hquiescent).2.2 ⟨(), hpc⟩⟩

end TaskQueue

end NetOrc
