import NetOrc.OpenFlow.Descriptors

/-!
This module shows how a server on which `stop` is not called keeps its descriptors together: every open
descriptor belongs to one entry of `connections_`, or to one acceptor that is about to insert it, and
every entry has exactly one unfinished task.
-/

namespace Oflib

open Transition

variable {σ : Type} {W : Nat}

def Action.isStop (action : Action W) : Bool :=
  match action with
  | .stop _ => true
  | _ => false

namespace Server

structure Wired (s : Server σ W) : Prop where
  load : ∀ fd, s.load fd = (s.connections.lookup fd).isSome.toNat
  owner : ∀ fd, s.inserting fd + (s.connections.lookup fd).isSome.toNat
    = (s.sockets fd).isSome.toNat
  entry : ∀ fd e, s.connections.lookup fd = some e →
    e.conn.fd = fd ∧ ¬fd < 0 ∧ s.history.accepted[e.id]? = some fd
  pending : ∀ (a : Nat) fd id, s.acceptors[a]? = some (AcceptorPc.insert fd id) →
    ¬fd < 0 ∧ s.history.accepted[id]? = some fd
  callers : ∀ t, s.callers t = .idle ∨ s.callers t = .spawn ∧ s.running
  stopped : s.running = false → s.acceptors = [] ∧ ∀ fd, s.load fd = 0

theorem wired_init (w : σ) : ({ world := w } : Server σ W).Wired := by
  constructor <;> simp [Server.load, inserting, threads, WorkerPc.carried]

theorem Wired.owned {s : Server σ W} (hs : s.Wired) : s.Owned := ⟨hs.owner, hs.entry, hs.pending⟩

theorem Wired.congr {s s' : Server σ W} (hs : s.Wired) (howned : s'.Owned)
    (hload : ∀ fd, s'.load fd = s.load fd)
    (hsome : ∀ fd, (s'.connections.lookup fd).isSome = (s.connections.lookup fd).isSome)
    (hcallers : ∀ t, s'.callers t = .idle ∨ s'.callers t = .spawn ∧ s'.running)
    (hstopped : s'.running = false →
      s.running = false ∧ (s.acceptors = [] → s'.acceptors = [])) : s'.Wired where
  load := by
    intro fd
    rw [hload, hs.load, hsome]
  owner := howned.owner
  entry := howned.entry
  pending := howned.pending
  callers := hcallers
  stopped := by
    intro hrunning
    rcases hstopped hrunning with ⟨hrunning, hacceptors⟩
    rcases hs.stopped hrunning with ⟨hnil, hzero⟩
    exact ⟨hacceptors hnil, fun fd => by rw [hload, hzero]⟩

theorem Wired.worker {s s' : Server σ W} (hs : s.Wired) (howned : s'.Owned)
    (hload : ∀ fd, s'.load fd = s.load fd)
    (hsome : ∀ fd, (s'.connections.lookup fd).isSome = (s.connections.lookup fd).isSome)
    (hcallers : s'.callers = s.callers) (hrunning : s'.running = s.running)
    (hacceptors : s.acceptors = [] → s'.acceptors = []) : s'.Wired := by
  refine hs.congr howned hload hsome ?_ ?_
  . rw [hcallers, hrunning]
    exact hs.callers
  . rw [hrunning]
    exact fun h => ⟨h, hacceptors⟩

theorem Wired.keepsTask {s s' : Server σ W} (hs : s.Wired) (howned : s'.Owned) {i : Fin W} {pc : WorkerPc}
    (hworkers : s'.workers = Function.update s.workers i pc)
    (hcarried : pc.carried = (s.workers i).carried) (htasks : s'.tasks = s.tasks)
    (hacceptors : s'.acceptors = s.acceptors)
    (hsome : ∀ fd, (s'.connections.lookup fd).isSome = (s.connections.lookup fd).isSome)
    (hcallers : s'.callers = s.callers) (hrunning : s'.running = s.running) : s'.Wired :=
  hs.worker howned (load_eq_of_worker htasks hacceptors hworkers hcarried) hsome hcallers hrunning
    (fun h => hacceptors.trans h)

theorem Wired.acceptor {s s' : Server σ W} (hs : s.Wired) (howned : s'.Owned) {a : Nat}
    {pc' : AcceptorPc} (hacceptors : s'.acceptors = s.acceptors.set a pc')
    (hload : ∀ fd, s'.load fd = s.load fd) (hconnections : s'.connections = s.connections)
    (hcallers : s'.callers = s.callers) (hrunning : s'.running = s.running) : s'.Wired := by
  apply hs.worker howned hload (fun fd => by rw [hconnections]) hcallers hrunning
  intro hnil
  rw [hacceptors, hnil, List.set_nil]

theorem Wired.load_of_insert {s : Server σ W} (hs : s.Wired) {a : Nat} {fd : Int32} {id : Nat}
    (hpc : s.acceptors[a]? = some (AcceptorPc.insert fd id)) : s.load fd = 0 := by
  rw [hs.load, hs.owned.lookup_of_insert hpc]
  rfl

theorem Wired.inserted {s s' : Server σ W} (hs : s.Wired) (howned : s'.Owned) {a : Nat} {fd : Int32}
    {id : Nat} (hpc : s.acceptors[a]? = some (AcceptorPc.insert fd id))
    (hacceptors : s'.acceptors = s.acceptors.set a (.enqueue fd))
    (hconnections : s'.connections = s.connections.insert fd ⟨id, { fd := fd }⟩)
    (htasks : s'.tasks = s.tasks) (hworkers : s'.workers = s.workers)
    (hcallers : s'.callers = s.callers) (hrunning : s'.running = s.running) : s'.Wired where
  load := by
    intro fd'
    have hload := load_add_of_insert htasks hworkers hpc hacceptors fd'
    rw [hload, hconnections]
    by_cases hfd : fd' = fd
    . subst hfd
      rw [hs.load_of_insert hpc, AList.lookup_insert]
      simp
    . rw [AList.lookup_insert_ne hfd, hs.load]
      simp [Ne.symm hfd]
  owner := howned.owner
  entry := howned.entry
  pending := howned.pending
  callers := by
    rw [hcallers, hrunning]
    exact hs.callers
  stopped := by
    intro h
    rw [hrunning] at h
    have hnil := (hs.stopped h).1
    rw [hnil] at hpc
    contradiction

theorem Wired.closed {s s' : Server σ W} (hs : s.Wired) (howned : s'.Owned) {i : Fin W} {fd : Int32}
    {e : Entry} (hcarried : (s.workers i).carried = some fd)
    (hentry : s.connections.lookup fd = some e)
    (hworkers : s'.workers = Function.update s.workers i .idle)
    (hconnections : s'.connections = s.connections.erase fd) (htasks : s'.tasks = s.tasks)
    (hacceptors : s'.acceptors = s.acceptors) (hcallers : s'.callers = s.callers)
    (hrunning : s'.running = s.running) : s'.Wired where
  load := by
    intro fd'
    have hload := load_add_of_finished htasks hacceptors hworkers hcarried fd'
    rw [hs.load fd'] at hload
    rw [hconnections]
    by_cases hfd : fd' = fd
    . subst hfd
      rw [hentry] at hload
      rw [AList.lookup_erase]
      simpa using hload
    . rw [AList.lookup_erase_ne hfd]
      simpa [Ne.symm hfd] using hload
  owner := howned.owner
  entry := howned.entry
  pending := howned.pending
  callers := by
    rw [hcallers, hrunning]
    exact hs.callers
  stopped := by
    intro h
    rw [hrunning] at h
    rcases hs.stopped h with ⟨hnil, hzero⟩
    rw [hacceptors]
    refine ⟨hnil, fun fd' => ?_⟩
    have hload := load_add_of_finished htasks hacceptors hworkers hcarried fd'
    rw [hzero] at hload
    omega

theorem Wired.entry_of_carried {s : Server σ W} (hs : s.Wired) {i : Fin W} {fd : Int32}
    (hcarried : (s.workers i).carried = some fd) :
    ∃ e sock, s.connections.lookup fd = some e ∧ e.conn.fd = fd ∧ ¬fd < 0
      ∧ s.sockets fd = some sock := by
  have hpos := load_pos_of_carried hcarried
  have howner := hs.owner fd
  rw [hs.load] at hpos
  cases hentry : s.connections.lookup fd with
  | none => rw [hentry] at hpos; contradiction
  | some e =>
    rcases hs.entry fd e hentry with ⟨hconn, hfd, _⟩
    cases hsocket : s.sockets fd with
    | none =>
      rw [hentry, hsocket] at howner
      simp at howner
    | some sock => exact ⟨e, sock, rfl, hconn, hfd, rfl⟩

theorem Wired.step {ep : OpenFlowEndpoint σ} (hkeep : KeepsDescriptor ep.dispatch) {s s' : Server σ W}
    {action : Action W} (hs : s.Wired) (hstop : ¬action.isStop) (h : Step ep s action s') :
    s'.Wired := by
  have hcallers : ∀ t pc, s.callers t = pc → pc = .idle ∨ pc = .spawn ∧ s.running := by
    rintro t _ rfl
    exact hs.callers t
  have howned := hs.owned.step hkeep h
  cases h with
  | listen hcaller =>
    refine hs.congr howned (fun _ => rfl) (fun _ => rfl) (fun t' => ?_) (fun h => nomatch h)
    dsimp only
    rw [Function.update_apply]
    split
    . exact .inr ⟨rfl, rfl⟩
    . exact (hs.callers t').imp_right fun h => ⟨h.1, rfl⟩
  | stop => exact absurd rfl hstop
  | @spawn t hcaller hjoinable =>
    have hrunning : s.running := by simpa using hcallers t _ hcaller
    refine hs.congr howned (fun _ => by simp [Server.load, AcceptorPc.carried]) (fun _ => rfl)
      (fun t' => ?_) (fun h => ?_)
    . dsimp only
      rw [Function.update_apply]
      split
      . exact .inl rfl
      . exact hs.callers t'
    . rw [hrunning] at h
      contradiction
  | detach hcaller => simpa using hcallers _ _ hcaller
  | sweep hcaller => simpa using hcallers _ _ hcaller
  | check hpc =>
    exact hs.acceptor howned rfl (load_eq_of_acceptor rfl rfl hpc rfl (by split <;> rfl)) rfl rfl rfl
  | acceptFails hpc =>
    exact hs.acceptor howned rfl (load_eq_of_acceptor rfl rfl hpc rfl rfl) rfl rfl rfl
  | accept hpc =>
    exact hs.acceptor howned rfl (load_eq_of_acceptor rfl rfl hpc rfl rfl) rfl rfl rfl
  | insert hpc => exact hs.inserted howned hpc rfl rfl rfl rfl rfl rfl
  | enqueue hpc =>
    exact hs.acceptor howned rfl (load_eq_of_enqueue rfl rfl hpc rfl) rfl rfl rfl
  | pop hpc htasks =>
    exact hs.worker howned (load_eq_of_pop htasks rfl hpc rfl) (fun _ => rfl) rfl rfl (fun h => h)
  | leave hpc hrunning =>
    -- A server that does not run was never started, and has no tasks.
    have hpos := load_pos_of_carried (s := s) (congrArg WorkerPc.carried hpc)
    have hzero := (hs.stopped (Bool.eq_false_of_not_eq_true hrunning)).2
    rw [hzero] at hpos
    contradiction
  | miss hpc hentry =>
    -- The entry of a task stays until the task erases it.
    rcases hs.entry_of_carried (congrArg WorkerPc.carried hpc) with ⟨e, _, he, _⟩
    rw [hentry] at he
    contradiction
  | top hpc =>
    exact hs.keepsTask howned rfl (by rw [hpc]; rfl) rfl rfl (fun _ => rfl) rfl rfl
  | lookup hpc =>
    exact hs.keepsTask howned rfl (by rw [hpc]; rfl) rfl rfl (fun _ => rfl) rfl rfl
  | recvFails hpc =>
    exact hs.keepsTask howned rfl (by rw [hpc]; rfl) rfl rfl (fun _ => rfl) rfl rfl
  | recv hpc =>
    exact hs.keepsTask howned rfl (by rw [hpc]; rfl) rfl rfl (fun _ => rfl) rfl rfl
  | ingestFails hpc =>
    exact hs.keepsTask howned rfl (by rw [hpc]; rfl) rfl rfl (fun _ => rfl) rfl rfl
  | ingest hpc hentry =>
    exact hs.keepsTask howned rfl (by rw [hpc]; rfl) rfl rfl (isSome_insert hentry) rfl rfl
  | accepted hpc hentry =>
    exact hs.keepsTask howned rfl (by rw [hpc]; rfl) rfl rfl (isSome_insert hentry) rfl rfl
  | rejected hpc hentry =>
    exact hs.keepsTask howned rfl (by rw [hpc]; rfl) rfl rfl (isSome_insert hentry) rfl rfl
  | dispatched hpc hentry =>
    exact hs.worker howned (fun _ => rfl) (isSome_insert hentry) rfl rfl (fun h => h)
  | close hpc hentry =>
    exact hs.closed howned (by rw [hpc]; rfl) hentry rfl rfl rfl rfl rfl rfl
  | _ => exact hs.worker howned (fun _ => rfl) (fun _ => rfl) rfl rfl (fun h => h)

theorem Wired.load_le_one {s : Server σ W} (hs : s.Wired) (fd : Int32) : s.load fd ≤ 1 := by
  rw [hs.load]
  exact Bool.toNat_le _

/--
As long as `stop` is not called, the steps keep ownership.
-/
theorem Wired.keepsOwnership {s : Server σ W} (hs : s.Wired) (action : Action W) :
    s.keepsOwnership action := by
  unfold Server.keepsOwnership
  split
  . next t =>
    refine decide_eq_true fun hcaller => ?_
    have hcallers := hs.callers t
    rw [hcaller] at hcallers
    simp at hcallers
  . split
    . next hpc => exact decide_eq_true (hs.load_of_insert hpc)
    . rfl
  . rfl

/-! Workers that are about to close their connection. -/

/--
A worker only closes a connection after `ingest` has failed on it, or after the peer has closed it and
everything has been read.
-/
def Closing (s : Server σ W) : Prop :=
  ∀ i fd id, s.workers i = .close fd id →
    id ∈ s.history.rejected ∨ s.sockets fd = some { unread := [], eof := true }

theorem Closing.worker {s s' : Server σ W} (hs : s.Closing) (hload : ∀ fd, s.load fd ≤ 1) {i : Fin W}
    {pc : WorkerPc} (hworkers : s'.workers = Function.update s.workers i pc)
    (hrejected : ∀ id, id ∈ s.history.rejected → id ∈ s'.history.rejected)
    (hsockets : ∀ fd, s'.sockets fd = s.sockets fd ∨ (s.workers i).carried = some fd)
    (hown : ∀ fd id, pc = .close fd id →
      id ∈ s'.history.rejected ∨ s'.sockets fd = some { unread := [], eof := true }) :
    s'.Closing := by
  intro j fd id hpc
  rw [hworkers] at hpc
  by_cases hj : j = i
  . subst hj
    rw [Function.update_self] at hpc
    exact hown fd id hpc
  . rw [Function.update_of_ne hj] at hpc
    cases hsockets fd with
    | inl hsame =>
      rw [hsame]
      exact (hs j fd id hpc).imp_left (hrejected id)
    | inr hcarried =>
      exact absurd (eq_of_carried (hload fd) (congrArg WorkerPc.carried hpc) hcarried) hj

theorem Closing.moves {s s' : Server σ W} (hs : s.Closing) (hload : ∀ fd, s.load fd ≤ 1) {i : Fin W}
    {pc : WorkerPc} (hworkers : s'.workers = Function.update s.workers i pc)
    (hpc : ∀ fd id, pc ≠ .close fd id) (hrejected : s'.history.rejected = s.history.rejected)
    (hsockets : s'.sockets = s.sockets) : s'.Closing := by
  refine hs.worker hload hworkers (fun id h => ?_) (fun fd => ?_) (fun fd id h => absurd h (hpc fd id))
  . rwa [hrejected]
  . exact .inl (congrFun hsockets fd)

theorem Closing.rejects {s s' : Server σ W} (hs : s.Closing) (hload : ∀ fd, s.load fd ≤ 1) {i : Fin W}
    {fd : Int32} {id : Nat} (hworkers : s'.workers = Function.update s.workers i (.close fd id))
    (hrejected : s'.history.rejected = s.history.rejected ++ [id])
    (hsockets : s'.sockets = s.sockets) : s'.Closing := by
  refine hs.worker hload hworkers (fun id' h => ?_) (fun fd' => ?_) (fun fd' id' h => ?_)
  . rw [hrejected]
    exact List.mem_append_left _ h
  . exact .inl (congrFun hsockets fd')
  . cases h
    rw [hrejected]
    exact .inl (List.mem_append_right _ (List.mem_singleton.mpr rfl))

theorem Closing.environment {s s' : Server σ W} (hs : s.Closing) (hworkers : s'.workers = s.workers)
    (hrejected : s'.history.rejected = s.history.rejected)
    (hsockets : ∀ fd, s.sockets fd = some { unread := [], eof := true } →
      s'.sockets fd = some { unread := [], eof := true }) : s'.Closing := by
  intro i fd id hpc
  rw [hworkers] at hpc
  rw [hrejected]
  exact (hs i fd id hpc).imp_right (hsockets fd)

theorem socket_of_update {s : Server σ W} {fd : Int32} {o : Option Socket}
    (hsocket : s.sockets fd ≠ some { unread := [], eof := true }) (fd' : Int32)
    (h : s.sockets fd' = some { unread := [], eof := true }) :
    Function.update s.sockets fd o fd' = some { unread := [], eof := true } := by
  have hne : fd' ≠ fd := by
    rintro rfl
    exact hsocket h
  rw [Function.update_of_ne hne]
  exact h

theorem ne_of_open {s : Server σ W} {fd : Int32} {sock : Socket} (hsocket : s.sockets fd = some sock)
    (heof : ¬sock.eof) : s.sockets fd ≠ some { unread := [], eof := true } := by
  intro h
  rw [hsocket] at h
  cases h
  exact heof rfl

theorem sockets_update_or {s : Server σ W} {i : Fin W} {fd : Int32}
    (hcarried : (s.workers i).carried = some fd) (o : Option Socket) (fd' : Int32) :
    Function.update s.sockets fd o fd' = s.sockets fd' ∨ (s.workers i).carried = some fd' := by
  by_cases hfd : fd' = fd
  . right
    rw [hfd]
    exact hcarried
  . left
    exact Function.update_of_ne hfd _ _

theorem Closing.step {ep : OpenFlowEndpoint σ} {s s' : Server σ W} {action : Action W}
    (hs : s.Closing) (hwired : s.Wired) (hstop : ¬action.isStop) (h : Step ep s action s') :
    s'.Closing := by
  have hload := hwired.load_le_one
  cases h with
  | listen => exact hs.environment rfl rfl (fun _ h => h)
  | stop => exact absurd rfl hstop
  | spawnJoinable => exact hs.environment rfl rfl (fun _ h => h)
  | spawn => exact hs.environment rfl rfl (fun _ h => h)
  | detach => exact hs.environment rfl rfl (fun _ h => h)
  | @sweep t hcaller =>
    have hcallers := hwired.callers t
    rw [hcaller] at hcallers
    simp at hcallers
  | check => exact hs.environment rfl rfl (fun _ h => h)
  | acceptFails => exact hs.environment rfl rfl (fun _ h => h)
  | accept _ _ hfree => exact hs.environment rfl rfl (socket_of_update (by rw [hfree]; nofun))
  | insert => exact hs.environment rfl rfl (fun _ h => h)
  | enqueue => exact hs.environment rfl rfl (fun _ h => h)
  | pop => exact hs.moves hload rfl nofun rfl rfl
  | top => exact hs.moves hload rfl nofun rfl rfl
  | leave => exact hs.moves hload rfl nofun rfl rfl
  | miss => exact hs.moves hload rfl nofun rfl rfl
  | lookup => exact hs.moves hload rfl nofun rfl rfl
  | @recvFails i count fd e hpc hentry hsocket =>
    refine hs.worker hload rfl (fun _ h => h) (fun _ => .inl rfl) (fun fd' id' h => ?_)
    cases h
    right
    rcases hwired.entry_of_carried (congrArg WorkerPc.carried hpc) with
      ⟨e', sock, he', hconn, hfd, hopen⟩
    rw [hentry] at he'
    cases he'
    rw [hconn] at hsocket
    cases hsocket with
    | inl hnegative => exact absurd hnegative hfd
    | inr hsocket =>
      cases hsocket with
      | inl hnone => rw [hopen] at hnone; contradiction
      | inr heof => exact heof
  | @recv i count fd e sock hpc hentry =>
    rcases hwired.entry fd e hentry with ⟨hconn, _⟩
    refine hs.worker hload rfl (fun _ h => h) (sockets_update_or ?_ _) (fun _ _ h => nomatch h)
    rw [hpc, hconn]
    rfl
  | ingestFails => exact hs.rejects hload rfl rfl rfl
  | ingest => exact hs.moves hload rfl nofun rfl rfl
  | accepted => exact hs.moves hload rfl nofun rfl rfl
  | rejected => exact hs.rejects hload rfl rfl rfl
  | dispatched => exact hs.environment rfl rfl (fun _ h => h)
  | @close i count fd e hpc hentry =>
    rcases hwired.entry fd e hentry with ⟨hconn, _⟩
    refine hs.worker hload rfl (fun _ h => h) (fun fd' => ?_) (fun _ _ h => nomatch h)
    dsimp only
    split
    . exact sockets_update_or (by rw [hpc, hconn]; rfl) _ fd'
    . exact .inl rfl
  | waitForEvent => exact hs.environment rfl rfl (fun _ h => h)
  | send hsocket heof =>
    exact hs.environment rfl rfl (socket_of_update (ne_of_open hsocket heof))
  | hangUp hsocket heof =>
    exact hs.environment rfl rfl (socket_of_update (ne_of_open hsocket heof))
  | reset hsocket heof =>
    exact hs.environment rfl rfl (socket_of_update (ne_of_open hsocket heof))

structure Steady (s : Server σ W) : Prop where
  wired : s.Wired
  live : s.Live
  closing : s.Closing

theorem Steady.step {ep : OpenFlowEndpoint σ} (hkeep : KeepsDescriptor ep.dispatch) {s s' : Server σ W}
    {action : Action W} (hs : s.Steady) (hstop : ¬action.isStop) (h : Step ep s action s') :
    s'.Steady where
  wired := hs.wired.step hkeep hstop h
  live := hs.live.step hs.wired.load_le_one (hs.wired.keepsOwnership action) h
  closing := hs.closing.step hs.wired hstop h

theorem steady_of_reaches {ep : OpenFlowEndpoint σ} (hkeep : KeepsDescriptor ep.dispatch) {w : σ}
    {s : Server σ W}
    (h : Reaches (Server.step ep) (fun _ action => !action.isStop) { world := w } s) :
    s.Steady := by
  refine h.invariant Steady (fun s action s' hs hguard hstep => ?_) ?_
  . exact hs.step hkeep (by simpa using hguard) (Step.of_step hstep).2
  . exact ⟨wired_init w, by simp [Live, WorkerPc.holds], fun i fd id h => nomatch h⟩

end Server

end Oflib
