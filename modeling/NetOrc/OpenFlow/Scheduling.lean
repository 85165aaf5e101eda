import Mathlib.Data.List.TakeWhile
import NetOrc.OpenFlow.Progress

/-!
This module shows how a queued connection gets to a worker: a worker stays with its connection until the
peer closes it, so the connection is served once fewer than `W` of the tasks ahead of it belong to peers
that stay connected.
-/

namespace Oflib

open Transition

variable {σ : Type} {W : Nat}

namespace Server

variable {ep : OpenFlowEndpoint σ} {s s' : Server σ W}

/-! The tasks ahead of a connection. -/

def busy (s : Server σ W) (isOpen : Int32 → Bool) : Nat :=
  threads (fun pc => pc.carried.any isOpen) s.workers

/--
A connection that is still as it was in a state `s`. `isOpen` holds for the descriptors whose peers
were connected there.
-/
structure Waiting (s s' : Server σ W) (isOpen : Int32 → Bool) (fd : Int32) (e : Entry) (sock : Socket) :
    Prop where
  steady : s'.Steady
  crashed : ¬s'.crashed
  running : s'.running
  entry : s'.connections.lookup fd = some e
  socket : s'.sockets fd = some sock
  passed : s'.history.passed e.id = s.history.passed e.id
  peers : ∀ fd', s'.peerOpen fd' → isOpen fd'

theorem Wired.id_ne (hs : s.Wired) {fd fd' : Int32} {e e' : Entry} (hne : fd ≠ fd')
    (hentry : s.connections.lookup fd = some e) (hentry' : s.connections.lookup fd' = some e') :
    e.id ≠ e'.id := by
  rcases hs.entry fd e hentry with ⟨_, _, haccepted⟩
  rcases hs.entry fd' e' hentry' with ⟨_, _, haccepted'⟩
  intro hid
  rw [hid, haccepted'] at haccepted
  cases haccepted
  exact hne rfl

theorem Wired.ne_of_mem_tasks (hs : s.Wired) {i : Fin W} {fd fd' : Int32} (hmem : fd ∈ s.tasks)
    (hcarried : (s.workers i).carried = some fd') : fd ≠ fd' := by
  rintro rfl
  have hload := hs.load_le_one fd
  have hcount := List.count_pos_iff.mpr hmem
  have hpos := threads_pos (p := fun pc : WorkerPc => decide (pc.carried = some fd))
    s.workers i (by simpa using hcarried)
  unfold Server.load at hload
  omega

theorem peerOpen_eq_false {fd : Int32} {sock : Socket} (hsocket : s.sockets fd = some sock)
    (h : ¬s.peerOpen fd) : sock.eof = true := by
  unfold peerOpen at h
  rw [hsocket] at h
  simpa using h

theorem eq_idle_of_carried {pc : WorkerPc} (h : pc.carried = none) : pc = .idle := by
  cases pc with
  | idle => rfl
  | _ => contradiction

theorem Waiting.freeWorker (hkeep : KeepsDescriptor ep.dispatch) {s₀ : Server σ W} {isOpen : Int32 → Bool}
    {fd : Int32} {e : Entry} {sock : Socket} (h : Waiting s₀ s isOpen fd e sock) (hmem : fd ∈ s.tasks)
    (hbusy : s.busy isOpen < W) :
    ∃ s' : Server σ W, Reaches (Server.step ep) (fun _ action => action.isServer) s s'
      ∧ (s'.crashed
        ∨ Waiting s₀ s' isOpen fd e sock ∧ s'.tasks = s.tasks ∧ s'.busy isOpen = s.busy isOpen
          ∧ ∃ i, s'.workers i = .idle) := by
  -- A worker without a task, or with a task whose peer is gone, so that the task comes to its end.
  rcases exists_not_of_threads_lt (by rwa [Fintype.card_fin]) with ⟨i, hi⟩
  cases hcarried : (s.workers i).carried with
  | none => exact ⟨s, .refl, .inr ⟨h, rfl, rfl, i, eq_idle_of_carried hcarried⟩⟩
  | some fd' =>
    rw [hcarried] at hi
    rcases h.steady.wired.entry_of_carried hcarried with ⟨e', sock', hentry', _, _, hsocket'⟩
    have hne : fd ≠ fd' := h.steady.wired.ne_of_mem_tasks hmem hcarried
    have heof : sock'.eof = true := peerOpen_eq_false hsocket' fun hopen => hi (h.peers fd' hopen)
    rcases Runs.settle hkeep h.steady h.crashed h.running ⟨hcarried, hentry', hsocket'⟩ with
      ⟨s', hreaches, hsteady, hworked, hcrashed | ⟨hcrashed, _, hfinished⟩⟩
    . exact ⟨s', hreaches, .inl hcrashed⟩
    . rcases hfinished heof with ⟨hidle, hclosed⟩
      refine ⟨s', hreaches, .inr ⟨⟨hsteady, hcrashed, ?_, ?_, ?_, ?_, ?_⟩, hworked.tasks, ?_, i, hidle⟩⟩
      . rw [hworked.running]
        exact h.running
      . rw [hworked.connections fd hne]
        exact h.entry
      . rw [hworked.sockets fd hne]
        exact h.socket
      . rw [hworked.passed _ (h.steady.wired.id_ne hne h.entry hentry')]
        exact h.passed
      . intro fd'' hopen
        by_cases hfd : fd'' = fd'
        . unfold peerOpen at hopen
          rw [hfd, hclosed] at hopen
          contradiction
        . unfold peerOpen at hopen
          rw [hworked.sockets fd'' hfd] at hopen
          exact h.peers fd'' hopen
      . have hworkers : s'.workers = Function.update s.workers i .idle := by
          funext j
          by_cases hj : j = i
          . rw [hj, hidle, Function.update_self]
          . rw [hworked.workers j hj, Function.update_of_ne hj]
        have hthreads := threads_update (p := fun pc : WorkerPc => pc.carried.any isOpen) s.workers i
          .idle
        rw [hcarried] at hthreads
        unfold busy
        rw [hworkers]
        simpa [WorkerPc.carried, hi] using hthreads

theorem Waiting.pop (hkeep : KeepsDescriptor ep.dispatch) {s₀ : Server σ W} {isOpen : Int32 → Bool}
    {fd : Int32} {e : Entry} {sock : Socket} (h : Waiting s₀ s isOpen fd e sock) {i : Fin W}
    (hidle : s.workers i = .idle) {fd' : Int32} {tasks : List Int32} (htasks : s.tasks = fd' :: tasks) :
    ∃ s' : Server σ W, Reaches (Server.step ep) (fun _ action => action.isServer) s s'
      ∧ Waiting s₀ s' isOpen fd e sock ∧ s'.tasks = tasks
      ∧ s'.busy isOpen = s.busy isOpen + (isOpen fd').toNat
      ∧ (s'.workers i).carried = some fd' := by
  have hstep : Step ep s (.handleClient i 0) _ := .pop hidle htasks
  refine ⟨_, Next.reaches (a := .handleClient i 0) rfl (hstep.step_eq h.crashed),
    ⟨h.steady.step hkeep (by simp [Action.isStop]) hstep, h.crashed, h.running, h.entry, h.socket,
      h.passed, h.peers⟩, rfl, ?_, ?_⟩
  . have hthreads := threads_update (p := fun pc : WorkerPc => pc.carried.any isOpen) s.workers i
      (.top fd')
    rw [hidle] at hthreads
    simpa [busy, WorkerPc.carried] using hthreads
  . dsimp only
    rw [Function.update_self]
    rfl

/--
A queued connection reaches a worker, as long as fewer than `W` of the tasks ahead of it belong to
connected peers.
-/
theorem Waiting.reachWorker (hkeep : KeepsDescriptor ep.dispatch) {s₀ : Server σ W} {isOpen : Int32 → Bool}
    {fd : Int32} {e : Entry} {sock : Socket} (h : Waiting s₀ s isOpen fd e sock)
    {ahead behind : List Int32} (htasks : s.tasks = ahead ++ fd :: behind)
    (hbusy : s.busy isOpen + ahead.countP isOpen < W) :
    ∃ s' : Server σ W, Reaches (Server.step ep) (fun _ action => action.isServer) s s'
      ∧ (s'.crashed
        ∨ Waiting s₀ s' isOpen fd e sock ∧ ∃ i, (s'.workers i).carried = some fd) := by
  -- Each task ahead is taken by a worker; with a connected peer it keeps the worker for good.
  induction ahead generalizing s with
  | nil =>
    rcases h.freeWorker hkeep (by simp [htasks]) (by simpa using hbusy) with
      ⟨s₁, hreaches₁, hcrashed | ⟨h₁, htasks₁, _, i, hidle⟩⟩
    . exact ⟨s₁, hreaches₁, .inl hcrashed⟩
    . rcases h₁.pop hkeep hidle (htasks₁.trans htasks) with ⟨s₂, hreaches₂, h₂, _, _, hcarried⟩
      exact ⟨s₂, hreaches₁.trans hreaches₂, .inr ⟨h₂, i, hcarried⟩⟩
  | cons fd' ahead ih =>
    rw [List.countP_cons] at hbusy
    rcases h.freeWorker hkeep (by simp [htasks]) (by omega) with
      ⟨s₁, hreaches₁, hcrashed | ⟨h₁, htasks₁, hbusy₁, i, hidle⟩⟩
    . exact ⟨s₁, hreaches₁, .inl hcrashed⟩
    . rcases h₁.pop hkeep hidle (htasks₁.trans htasks) with ⟨s₂, hreaches₂, h₂, htasks₂, hbusy₂, _⟩
      have hcount : s₂.busy isOpen + ahead.countP isOpen < W := by
        rw [hbusy₂, hbusy₁]
        cases hopen : isOpen fd' <;> simp [hopen] at hbusy ⊢ <;> omega
      rcases ih h₂ htasks₂ hcount with ⟨s', hreaches', hs'⟩
      exact ⟨s', (hreaches₁.trans hreaches₂).trans hreaches', hs'⟩

/--
The unread bytes of the connection `e` have been passed to `ingest`, unless the program was terminated
or `ingest` has rejected the connection.
-/
def Serves (s s' : Server σ W) (e : Entry) (unread : Bytes) : Prop :=
  s'.crashed ∨ e.id ∈ s'.history.rejected
    ∨ ∃ p, s.history.passed e.id <+: p ∧ s'.history.passed e.id = p ++ unread

theorem Waiting.serves (hkeep : KeepsDescriptor ep.dispatch) {s₀ : Server σ W} {isOpen : Int32 → Bool}
    {fd : Int32} {e : Entry} {sock : Socket} (h : Waiting s₀ s isOpen fd e sock) {i : Fin W}
    (hcarried : (s.workers i).carried = some fd) :
    ∃ s' : Server σ W, Reaches (Server.step ep) (fun _ action => action.isServer) s s'
      ∧ Serves s₀ s' e sock.unread := by
  rcases Runs.settle hkeep h.steady h.crashed h.running ⟨hcarried, h.entry, h.socket⟩ with
    ⟨s', hreaches, _, _, hcrashed | ⟨_, hpassed, _⟩⟩
  . exact ⟨s', hreaches, .inl hcrashed⟩
  . refine ⟨s', hreaches, .inr (hpassed.imp_right fun hpassed => ⟨_, ?_, hpassed⟩)⟩
    rw [h.passed]
    exact List.prefix_append _ _

theorem Waiting.servesQueued (hkeep : KeepsDescriptor ep.dispatch) {s₀ : Server σ W}
    {isOpen : Int32 → Bool} {fd : Int32} {e : Entry} {sock : Socket}
    (h : Waiting s₀ s isOpen fd e sock) {ahead behind : List Int32}
    (htasks : s.tasks = ahead ++ fd :: behind) (hbusy : s.busy isOpen + ahead.countP isOpen < W) :
    ∃ s' : Server σ W, Reaches (Server.step ep) (fun _ action => action.isServer) s s'
      ∧ Serves s₀ s' e sock.unread := by
  rcases h.reachWorker hkeep htasks hbusy with ⟨s₁, hreaches₁, hcrashed | ⟨h₁, i, hcarried⟩⟩
  . exact ⟨s₁, hreaches₁, .inl hcrashed⟩
  . rcases h₁.serves hkeep hcarried with ⟨s', hreaches', hserves⟩
    exact ⟨s', hreaches₁.trans hreaches', hserves⟩

theorem Waiting.enqueue (hkeep : KeepsDescriptor ep.dispatch) {s₀ : Server σ W} {isOpen : Int32 → Bool}
    {fd : Int32} {e : Entry} {sock : Socket} (h : Waiting s₀ s isOpen fd e sock) {a : Nat}
    (hpc : s.acceptors[a]? = some (.enqueue fd)) :
    ∃ s' : Server σ W, Reaches (Server.step ep) (fun _ action => action.isServer) s s'
      ∧ Waiting s₀ s' isOpen fd e sock ∧ s'.tasks = s.tasks ++ [fd]
      ∧ s'.busy isOpen = s.busy isOpen := by
  have hstep : Step ep s (.acceptLoop a 0) _ := .enqueue hpc
  exact ⟨_, Next.reaches (a := .acceptLoop a 0) rfl (hstep.step_eq h.crashed),
    ⟨h.steady.step hkeep (by simp [Action.isStop]) hstep, h.crashed, h.running, h.entry, h.socket,
      h.passed, h.peers⟩, rfl, rfl⟩

theorem Wired.carrier (hs : s.Wired) {fd : Int32} {e : Entry}
    (hentry : s.connections.lookup fd = some e) :
    (∃ i, (s.workers i).carried = some fd) ∨ fd ∈ s.tasks
      ∨ fd ∉ s.tasks ∧ ∃ a : Nat, s.acceptors[a]? = some (.enqueue fd) := by
  have hload := hs.load fd
  rw [hentry] at hload
  by_cases hmem : fd ∈ s.tasks
  . exact .inr (.inl hmem)
  by_cases hthreads : 0 < threads (fun pc : WorkerPc => decide (pc.carried = some fd)) s.workers
  . rcases exists_of_threads_pos hthreads with ⟨i, hi⟩
    exact .inl ⟨i, of_decide_eq_true hi⟩
  . have hpos : 0 < s.acceptors.countP (fun pc => pc.carried = some fd) := by
      have hzero := List.count_eq_zero.mpr hmem
      unfold Server.load at hload
      simp only [Option.isSome_some, Bool.toNat_true] at hload
      omega
    rcases List.countP_pos_iff.mp hpos with ⟨pc, hpc, hcarried⟩
    rcases List.mem_iff_getElem?.mp hpc with ⟨a, ha⟩
    refine .inr (.inr ⟨hmem, a, ?_⟩)
    cases pc <;> simp_all [AcceptorPc.carried]

theorem eq_takeWhile_append {l : List Int32} {fd : Int32} (h : fd ∈ l) :
    ∃ behind, l = l.takeWhile (fun fd' => fd' ≠ fd) ++ fd :: behind := by
  induction l with
  | nil => contradiction
  | cons fd' l ih =>
    by_cases hfd : fd' = fd
    . subst hfd
      exact ⟨l, by simp⟩
    . rcases ih (List.mem_of_ne_of_mem (Ne.symm hfd) h) with ⟨behind, hbehind⟩
      refine ⟨behind, ?_⟩
      rw [List.takeWhile_cons_of_pos (by simpa using hfd), List.cons_append, ← hbehind]

end Server

end Oflib
