import NetOrc.OpenFlow.Attribution
import NetOrc.OpenFlow.Progress

/-!
This module shows that a server comes to rest when nobody connects or sends any more: its workers take a
bounded number of steps, and where they end up everything has been handled.
-/

namespace Oflib

open Transition

variable {σ : Type} {W : Nat}

def Action.isHandleClient (action : Action W) : Bool :=
  match action with
  | .handleClient _ _ => true
  | _ => false

/--
What a worker has to do until it needs the socket again, plus the bytes it has in its hands.
-/
def WorkerPc.left (pc : WorkerPc) : Nat :=
  match pc with
  | .idle => 0
  | .close _ _ => 1
  | .recv _ _ => 2
  | .lookup _ => 3
  | .top _ => 4
  | .loop _ _ => 5
  | .ingest _ _ data => 6 + 2 * data.length

namespace Server

/--
The steps without a new connection or new bytes.
-/
def quiet (s : Server σ W) (action : Action W) : Bool :=
  match action with
  | .handleClient _ _ => true
  | .waitForEvent => true
  | .hangUp _ => true
  | .reset _ => true
  | .acceptLoop a result =>
    match s.acceptors[a]? with
    | some .check => true
    | some .accept => result < 0
    | _ => false
  | _ => false

def unread (s : Server σ W) (fd : Int32) : Nat := (s.sockets fd).elim 0 (fun sock => sock.unread.length)

def unhandled (s : Server σ W) (fd : Int32) (e : Entry) : Nat :=
  -- A byte gets cheaper on its way from the socket to the buffer and out of it.
  10 * s.unread fd + e.conn.inbuf.length

def rank (s : Server σ W) : Nat :=
  entriesSum s.unhandled s.connections + weights WorkerPc.left s.workers + 5 * s.tasks.length

def Quiescent (ep : OpenFlowEndpoint σ) (s : Server σ W) : Prop :=
  ∀ i count, step ep s (.handleClient i count) = none

variable {ep : OpenFlowEndpoint σ} {s s' : Server σ W}

theorem unhandled_of_ne {fd : Int32} {o : Option Socket}
    (hsockets : s'.sockets = Function.update s.sockets fd o) (fd' : Int32) (hfd : fd' ≠ fd) :
    s'.unhandled fd' = s.unhandled fd' := by
  funext e
  unfold unhandled unread
  rw [hsockets, Function.update_of_ne hfd]

theorem rank_lt_of_worker {i : Fin W} {pc pc' : WorkerPc} (hpc : s.workers i = pc)
    (hlt : pc'.left < pc.left) (htasks : s'.tasks = s.tasks) (hsockets : s'.sockets = s.sockets)
    (hconnections : s'.connections = s.connections)
    (hworkers : s'.workers = Function.update s.workers i pc') : s'.rank < s.rank := by
  have hweights := weights_update WorkerPc.left s.workers i pc'
  have hunhandled : s'.unhandled = s.unhandled := by
    funext fd e
    unfold unhandled unread
    rw [hsockets]
  rw [hpc] at hweights
  unfold rank
  rw [htasks, hworkers, hconnections, hunhandled]
  omega

theorem rank_lt_of_entry {i : Fin W} {pc pc' : WorkerPc} {fd : Int32} {e e' : Entry}
    (hpc : s.workers i = pc) (hentry : s.connections.lookup fd = some e)
    (htasks : s'.tasks = s.tasks) (hsockets : s'.sockets = s.sockets)
    (hconnections : s'.connections = s.connections.insert fd e')
    (hworkers : s'.workers = Function.update s.workers i pc')
    (hlt : pc'.left + e'.conn.inbuf.length < pc.left + e.conn.inbuf.length) : s'.rank < s.rank := by
  have hweights := weights_update WorkerPc.left s.workers i pc'
  have hinsert := entriesSum_insert s.unhandled s.connections fd e'
  have hunhandled : s'.unhandled = s.unhandled := by
    funext fd e
    unfold unhandled unread
    rw [hsockets]
  rw [hpc] at hweights
  rw [hentry, Option.elim_some] at hinsert
  unfold rank
  rw [htasks, hworkers, hconnections, hunhandled]
  simp only [unhandled] at hinsert ⊢
  omega

theorem rank_lt_of_recv {i : Fin W} {pc pc' : WorkerPc} {fd : Int32} {e : Entry} {sock sock' : Socket}
    (hpc : s.workers i = pc) (hentry : s.connections.lookup fd = some e)
    (hsocket : s.sockets fd = some sock) (htasks : s'.tasks = s.tasks)
    (hconnections : s'.connections = s.connections)
    (hsockets : s'.sockets = Function.update s.sockets fd (some sock'))
    (hworkers : s'.workers = Function.update s.workers i pc')
    (hlt : pc'.left + 10 * sock'.unread.length < pc.left + 10 * sock.unread.length) :
    s'.rank < s.rank := by
  have hweights := weights_update WorkerPc.left s.workers i pc'
  have hsum := entriesSum_congr (unhandled_of_ne hsockets) s.connections
  rw [hpc] at hweights
  rw [hentry, Option.elim_some, Option.elim_some] at hsum
  have hold : s.unhandled fd e = 10 * sock.unread.length + e.conn.inbuf.length := by
    rw [unhandled, unread, hsocket, Option.elim_some]
  have hnew : s'.unhandled fd e = 10 * sock'.unread.length + e.conn.inbuf.length := by
    rw [unhandled, unread, hsockets, Function.update_self, Option.elim_some]
  unfold rank
  rw [htasks, hworkers, hconnections]
  omega

theorem rank_lt_of_close {i : Fin W} {fd : Int32} {e : Entry} {id : Nat} {o : Option Socket}
    (hpc : s.workers i = .close fd id) (hentry : s.connections.lookup fd = some e)
    (htasks : s'.tasks = s.tasks) (hconnections : s'.connections = s.connections.erase fd)
    (hsockets : s'.sockets = Function.update s.sockets fd o)
    (hworkers : s'.workers = Function.update s.workers i .idle) : s'.rank < s.rank := by
  have hweights := weights_update WorkerPc.left s.workers i .idle
  have hsum := entriesSum_congr (unhandled_of_ne hsockets) (s.connections.erase fd)
  have herase := entriesSum_erase s.unhandled s.connections fd
  rw [hpc] at hweights
  rw [AList.lookup_erase, Option.elim_none, Option.elim_none] at hsum
  rw [hentry, Option.elim_some] at herase
  unfold rank
  rw [htasks, hworkers, hconnections]
  simp only [WorkerPc.left] at hweights ⊢
  omega

theorem rank_le_of_socket {fd : Int32} {sock sock' : Socket} (hsocket : s.sockets fd = some sock)
    (hunread : sock'.unread.length ≤ sock.unread.length) (htasks : s'.tasks = s.tasks)
    (hconnections : s'.connections = s.connections)
    (hsockets : s'.sockets = Function.update s.sockets fd (some sock'))
    (hworkers : s'.workers = s.workers) : s'.rank ≤ s.rank := by
  have hsum := entriesSum_congr (unhandled_of_ne hsockets) s.connections
  have hle : ∀ e, s'.unhandled fd e ≤ s.unhandled fd e := by
    intro e
    unfold unhandled unread
    rw [hsocket, hsockets, Function.update_self, Option.elim_some, Option.elim_some]
    omega
  unfold rank
  rw [htasks, hworkers, hconnections]
  cases hentry : s.connections.lookup fd with
  | none =>
    rw [hentry, Option.elim_none, Option.elim_none] at hsum
    omega
  | some e =>
    rw [hentry, Option.elim_some, Option.elim_some] at hsum
    have hle := hle e
    omega

theorem rank_lt_of_handleClient {i : Fin W} {count : Nat} (howned : s.Owned)
    (h : Step ep s (.handleClient i count) s') : s'.rank < s.rank := by
  cases h with
  | @pop _ _ fd tasks hpc htasks =>
    have hweights := weights_update WorkerPc.left s.workers i (.top fd)
    have hunhandled : ({ s with
      tasks := tasks
      workers := Function.update s.workers i (.top fd) } : Server σ W).unhandled = s.unhandled := rfl
    unfold rank
    rw [hunhandled, htasks, List.length_cons]
    rw [hpc] at hweights
    simp only [WorkerPc.left] at hweights ⊢
    omega
  | top hpc => exact rank_lt_of_worker hpc (by simp [WorkerPc.left]) rfl rfl rfl rfl
  | leave hpc => exact rank_lt_of_worker hpc (by simp [WorkerPc.left]) rfl rfl rfl rfl
  | miss hpc => exact rank_lt_of_worker hpc (by simp [WorkerPc.left]) rfl rfl rfl rfl
  | lookup hpc => exact rank_lt_of_worker hpc (by simp [WorkerPc.left]) rfl rfl rfl rfl
  | recvFails hpc => exact rank_lt_of_worker hpc (by simp [WorkerPc.left]) rfl rfl rfl rfl
  | recv hpc hentry hfd hsocket hcount =>
    have hconn := (howned.entry _ _ hentry).1
    rw [hconn] at hsocket ⊢
    refine rank_lt_of_recv hpc hentry hsocket rfl rfl rfl rfl ?_
    simp only [WorkerPc.left, List.length_take, List.length_drop]
    omega
  | ingestFails hpc => exact rank_lt_of_worker hpc (by simp [WorkerPc.left]; omega) rfl rfl rfl rfl
  | ingest hpc hentry =>
    refine rank_lt_of_entry hpc hentry rfl rfl rfl rfl ?_
    simp only [WorkerPc.left, List.length_append]
    omega
  | accepted hpc hentry hstep =>
    have hle := (OpenFlowEndpoint.ingestStep_ret hstep).2
    refine rank_lt_of_entry hpc hentry rfl rfl rfl rfl ?_
    simp only [WorkerPc.left]
    omega
  | rejected hpc hentry hstep =>
    have hle := (OpenFlowEndpoint.ingestStep_ret hstep).2
    refine rank_lt_of_entry hpc hentry rfl rfl rfl rfl ?_
    simp only [WorkerPc.left]
    omega
  | dispatched hpc hentry hstep =>
    have hlt := OpenFlowEndpoint.ingestStep_length_lt hstep
    refine rank_lt_of_entry hpc hentry rfl rfl rfl (Function.update_eq_self_iff.mpr hpc.symm).symm ?_
    dsimp only
    omega
  | @close _ _ fd e hpc hentry =>
    rcases howned.entry _ _ hentry with ⟨hconn, hfd, _⟩
    have hopen : e.conn.fd ≥ 0 := by
      rw [hconn]
      exact Int32.not_lt.mp hfd
    exact rank_lt_of_close hpc hentry rfl rfl (by rw [if_pos hopen, hconn]) rfl

theorem rank_le_of_quiet {action : Action W} (howned : s.Owned) (hquiet : s.quiet action)
    (h : Step ep s action s') : s'.rank + action.isHandleClient.toNat ≤ s.rank := by
  cases action with
  | handleClient i count => exact rank_lt_of_handleClient howned h
  | waitForEvent => cases h; exact Nat.le_refl _
  | hangUp fd =>
    cases h with
    | hangUp hsocket =>
      refine rank_le_of_socket hsocket ?_ rfl rfl rfl rfl
      exact Nat.le_refl _
  | reset fd =>
    cases h with
    | reset hsocket =>
      refine rank_le_of_socket hsocket ?_ rfl rfl rfl rfl
      exact Nat.zero_le _
  | acceptLoop a result =>
    cases h with
    | check => exact Nat.le_refl _
    | acceptFails => exact Nat.le_refl _
    | accept hpc hresult => simp [quiet, hpc, hresult] at hquiet
    | insert hpc => simp [quiet, hpc] at hquiet
    | enqueue hpc => simp [quiet, hpc] at hquiet
  | listen t => contradiction
  | stop t => contradiction
  | caller t => contradiction
  | send fd data => contradiction

/-! Where no worker has a step left. -/

theorem Quiescent.blocked (hquiescent : s.Quiescent ep) (hs : s.Steady) (hcrashed : ¬s.crashed) (i : Fin W) :
    s.workers i = .idle
      ∨ ∃ fd id, s.workers i = .recv fd id ∧ s.sockets fd = some { unread := [], eof := false } := by
  cases hcarried : (s.workers i).carried with
  | none =>
    left
    cases hpc : s.workers i <;> rw [hpc] at hcarried <;> first | rfl | contradiction
  | some fd =>
    right
    rcases hs.wired.entry_of_carried hcarried with ⟨e, sock, hentry, _, _, hsocket⟩
    have hrunning : s.running = true := by
      by_contra hrunning
      have hzero := (hs.wired.stopped (by simpa using hrunning)).2 fd
      have hpos := load_pos_of_carried hcarried
      omega
    rcases Runs.advance ep hs hrunning ⟨hcarried, hentry, hsocket⟩ with ⟨hpc, hunread, heof⟩
      | ⟨count, s', hstep, _⟩
    . rw [← hunread, ← heof]
      exact ⟨fd, e.id, hpc, hsocket⟩
    . have hnone := hquiescent i count
      rw [hstep.step_eq hcrashed] at hnone
      contradiction

theorem Quiescent.busy (hquiescent : s.Quiescent ep) (hcrashed : ¬s.crashed) (htasks : s.tasks ≠ [])
    (i : Fin W) : s.workers i ≠ .idle := by
  intro hpc
  rcases List.exists_cons_of_ne_nil htasks with ⟨fd, tasks, htasks⟩
  have hnone := hquiescent i 0
  rw [Step.step_eq hcrashed (.pop hpc htasks)] at hnone
  contradiction

def Accepted (s : Server σ W) : Prop := ∀ pc ∈ s.acceptors, pc.inserts = none ∧ pc.carried = none

theorem Quiescent.drained (hquiescent : s.Quiescent ep) (hs : s.Steady) (hcrashed : ¬s.crashed) (hW : 0 < W)
    (hclosed : ∀ fd sock, s.sockets fd = some sock → sock.eof) (haccepted : s.Accepted) :
    s.tasks = [] ∧ ∀ fd, s.connections.lookup fd = none ∧ s.sockets fd = none := by
  have hidle : ∀ i, s.workers i = .idle := by
    intro i
    rcases hquiescent.blocked hs hcrashed i with hidle | ⟨fd, id, _, hsocket⟩
    . exact hidle
    . have heof := hclosed fd _ hsocket
      contradiction
  have htasks : s.tasks = [] := by
    by_contra htasks
    exact hquiescent.busy hcrashed htasks ⟨0, hW⟩ (hidle _)
  refine ⟨htasks, fun fd => ?_⟩
  have hload : s.load fd = 0 := by
    have hworkers : threads (fun pc : WorkerPc => pc.carried = some fd) s.workers = 0 := by
      by_contra hpos
      rcases exists_of_threads_pos (Nat.pos_of_ne_zero hpos) with ⟨i, hi⟩
      rw [hidle i] at hi
      contradiction
    have hacceptors : s.acceptors.countP (fun pc => pc.carried = some fd) = 0 := by
      apply List.countP_eq_zero.mpr
      intro pc hpc
      simp [(haccepted pc hpc).2]
    unfold load
    rw [htasks, hworkers, hacceptors]
    rfl
  have hinserting : s.inserting fd = 0 := by
    apply List.countP_eq_zero.mpr
    intro pc hpc
    simp [(haccepted pc hpc).1]
  have howner := hs.wired.owner fd
  have hsome := hs.wired.load fd
  rw [hload] at hsome
  rw [hinserting, ← hsome] at howner
  constructor
  . cases hentry : s.connections.lookup fd with
    | none => rfl
    | some e => rw [hentry] at hsome; contradiction
  . cases hsocket : s.sockets fd with
    | none => rfl
    | some sock => simp [hsocket] at howner

end Server

/--
On a server that is not stopped: while nobody connects or sends, the workers take no more steps than the
rank says. When none of them can take a step, each one waits for a task or for a peer that is open and has
sent nothing; a task is only left over if all of them wait for peers; and of every connection served so far
all valid frames were handled. If all peers have hung up, then every connection is closed and gone.
-/
theorem drains (ep : OpenFlowEndpoint σ) (hkeep : KeepsConnection ep.dispatch) (w : σ) (s : Server σ W)
    (h : Reaches (Server.step ep) (fun _ action => !action.isStop) { world := w } s) :
    (∀ as s', run (Server.step ep) Server.quiet s as = some s' →
        as.countP Action.isHandleClient ≤ s.rank)
      ∧ (s.Quiescent ep → ¬s.crashed →
        (∀ i, s.workers i = .idle
            ∨ ∃ fd id, s.workers i = .recv fd id ∧ s.sockets fd = some { unread := [], eof := false })
          ∧ (s.tasks ≠ [] → ∀ i, s.workers i ≠ .idle)
          ∧ (∀ id, s.framesOf id = s.validFrames ep id)
          ∧ (0 < W → (∀ fd sock, s.sockets fd = some sock → sock.eof) → s.Accepted →
            s.tasks = [] ∧ ∀ fd, s.connections.lookup fd = none ∧ s.sockets fd = none)) := by
  have hinv : s.Steady ∧ Following ep s := by
    refine h.invariant (fun s => s.Steady ∧ Following ep s) ?_ ⟨?_, ?_⟩
    . rintro s action s' ⟨hsteady, hfollowing⟩ hguard hstep
      exact ⟨hsteady.step hkeep.keepsDescriptor (by simpa using hguard) (Server.Step.of_step hstep).2,
        hfollowing.step hkeep (hsteady.wired.keepsOwnership action) hstep⟩
    . exact Server.steady_of_reaches hkeep.keepsDescriptor .refl
    . exact following_of_reaches hkeep .refl
  rcases hinv with ⟨hsteady, hfollowing⟩
  constructor
  . intro as s' hrun
    refine countP_le_of_run Server.Owned Server.rank Action.isHandleClient ?_ hfollowing.owned hrun
    intro s action s' howned hquiet hstep
    have hstep := (Server.Step.of_step hstep).2
    exact ⟨howned.step hkeep.keepsDescriptor hstep, Server.rank_le_of_quiet howned hquiet hstep⟩
  . intro hquiescent hcrashed
    refine ⟨hquiescent.blocked hsteady hcrashed, hquiescent.busy hcrashed, fun id => ?_,
      fun hW hclosed haccepted => hquiescent.drained hsteady hcrashed hW hclosed haccepted⟩
    refine hfollowing.settled (fun i fd hloop => ?_)
    rcases hquiescent.blocked hsteady hcrashed i with hidle | ⟨_, _, hrecv, _⟩
    . rw [hidle] at hloop
      contradiction
    . rw [hrecv] at hloop
      contradiction

def helloAndHangUp : List (Action 1) :=
  serveFirst ++ [.send 5 [0x01, 0x00, 0x00, 0x08, 0x00, 0x00, 0x00, 0x01], .hangUp 5, .handleClient 0 8,
    .handleClient 0 0, .handleClient 0 0, .handleClient 0 0, .handleClient 0 0, .handleClient 0 0,
    .handleClient 0 0, .handleClient 0 0]

theorem drains_helloAndHangUp :
    ∃ s : Server Unit 1,
      run (Server.step {}) (fun _ action => !action.isStop) { world := () } helloAndHangUp = some s
        ∧ (s.framesOf 0).map Frame.type = [.hello]
        ∧ s.framesOf 0 = s.validFrames {} 0 := by
  obtain ⟨s, hs, htypes, hcrashed, hworker, htasks⟩ : ∃ s : Server Unit 1,
      run (Server.step {}) (fun _ action => !action.isStop) { world := () } helloAndHangUp = some s
        ∧ (s.framesOf 0).map Frame.type = [.hello]
        ∧ ¬s.crashed ∧ s.workers 0 = .idle ∧ s.tasks = [] :=
    ⟨_, rfl, by decide +kernel, by decide +kernel, by decide +kernel, by decide +kernel⟩
  have hquiescent : s.Quiescent {} := by
    intro i count
    rw [Fin.fin_one_eq_zero i]
    simp [Server.step, Server.handleClient, hcrashed, hworker, htasks]
  have hkeep := OpenFlowEndpoint.handlersKeepConnection_empty (σ := Unit)
  have hdrains := drains {} hkeep.keepsConnection () s (reaches_of_run hs)
  exact ⟨s, hs, htypes, (hdrains.2 hquiescent hcrashed).2.2.1 0⟩

end Oflib
