import NetOrc.Data.Grouped
import NetOrc.OpenFlow.Descriptors
import NetOrc.OpenFlow.Tracks

/-!
This module shows whose frames a server handles under a descriptor: those of the connections that `accept`
returned it for, one connection after another.
-/

namespace Oflib

open Framing
open Transition

variable {σ : Type} {W : Nat}

namespace Server

def connectionsOn (s : Server σ W) (fd : Int32) : List Nat :=
  (List.range s.history.accepted.length).filter (fun id => s.history.accepted[id]? = some fd)

def framesOn (s : Server σ W) (fd : Int32) : List Frame :=
  (s.history.handled.filter (fun h => h.fd = fd)).map Handled.frame

structure Attributed (s : Server σ W) : Prop where
  accepted : ∀ h ∈ s.history.handled, s.history.accepted[h.id]? = some h.fd
  ordered : ∀ fd, (s.history.handled.filter (fun h => h.fd = fd)).Pairwise (fun h h' => h.id ≤ h'.id)
  -- No later connection of the descriptor has been served yet.
  entry : ∀ fd e, s.connections.lookup fd = some e → ∀ h ∈ s.history.handled, h.fd = fd → h.id ≤ e.id
  pending : ∀ (a : Nat) fd id, s.acceptors[a]? = some (AcceptorPc.insert fd id) →
    ∀ h ∈ s.history.handled, h.fd = fd → h.id ≤ id

theorem attributed_init (w : σ) : ({ world := w } : Server σ W).Attributed := by
  constructor <;> simp

variable {s s' : Server σ W}

theorem Attributed.congr (hs : s.Attributed) (hhandled : s'.history.handled = s.history.handled)
    (haccepted : ∀ (id : Nat) fd, s.history.accepted[id]? = some fd → s'.history.accepted[id]? = some fd)
    (hentry : ∀ fd e', s'.connections.lookup fd = some e' →
      (∃ e, s.connections.lookup fd = some e ∧ e.id = e'.id)
        ∨ ∃ a : Nat, s.acceptors[a]? = some (AcceptorPc.insert fd e'.id))
    (hpending : ∀ (a : Nat) fd id, s'.acceptors[a]? = some (AcceptorPc.insert fd id) →
      s.acceptors[a]? = some (AcceptorPc.insert fd id) ∨ id = s.history.accepted.length) :
    s'.Attributed where
  accepted := by
    intro h hh
    rw [hhandled] at hh
    exact haccepted _ _ (hs.accepted h hh)
  ordered := by
    rw [hhandled]
    exact hs.ordered
  entry := by
    rw [hhandled]
    intro fd e' he'
    rcases hentry fd e' he' with ⟨e, he, hid⟩ | ⟨a, ha⟩
    . rw [← hid]
      exact hs.entry fd e he
    . exact hs.pending a fd e'.id ha
  pending := by
    rw [hhandled]
    intro a fd id ha
    rcases hpending a fd id ha with ha | rfl
    . exact hs.pending a fd id ha
    . intro h hh _
      rcases List.getElem?_eq_some_iff.mp (hs.accepted h hh) with ⟨hlt, _⟩
      exact Nat.le_of_lt hlt

/-! Steps that handle no frame. -/

theorem Attributed.worker (hs : s.Attributed) (hhistory : s'.history.handled = s.history.handled)
    (haccepted : s'.history.accepted = s.history.accepted) (hacceptors : s'.acceptors = s.acceptors)
    (hentry : ∀ fd e', s'.connections.lookup fd = some e' →
      ∃ e, s.connections.lookup fd = some e ∧ e.id = e'.id) : s'.Attributed := by
  refine hs.congr hhistory (by rw [haccepted]; exact fun _ _ h => h) (fun fd e' h => .inl (hentry fd e' h))
    (fun a fd id h => .inl ?_)
  rw [← hacceptors]
  exact h

theorem Attributed.acceptor (hs : s.Attributed) {a : Nat} {pc' : AcceptorPc}
    (hhistory : s'.history = s.history) (hconnections : s'.connections = s.connections)
    (hacceptors : s'.acceptors = s.acceptors.set a pc') (hinserts : pc'.inserts = none) :
    s'.Attributed := by
  refine hs.congr (by rw [hhistory]) (by rw [hhistory]; exact fun _ _ h => h)
    (fun fd e h => .inl ⟨e, hconnections ▸ h, rfl⟩) (fun b fd id h => .inl ?_)
  rw [hacceptors] at h
  cases getElem?_set_insert h with
  | inl hpc' => rw [hpc'] at hinserts; contradiction
  | inr h => exact h

theorem entry_of_lookup_insert {fd : Int32} {e e' : Entry} (hentry : s.connections.lookup fd = some e)
    (hid : e'.id = e.id) (fd' : Int32) (e₁ : Entry)
    (h : (s.connections.insert fd e').lookup fd' = some e₁) :
    ∃ e₂, s.connections.lookup fd' = some e₂ ∧ e₂.id = e₁.id := by
  by_cases hfd : fd' = fd
  . subst hfd
    rw [AList.lookup_insert] at h
    cases h
    exact ⟨e, hentry, hid.symm⟩
  . rw [AList.lookup_insert_ne hfd] at h
    exact ⟨e₁, h, rfl⟩

/-! The step that does. -/

theorem Attributed.dispatched (hs : s.Attributed) (howned : s.Owned) {fd : Int32} {e e' : Entry}
    {frame : Frame} (hentry : s.connections.lookup fd = some e)
    (hconnections : s'.connections = s.connections.insert fd e') (hid : e'.id = e.id)
    (haccepted : s'.history.accepted = s.history.accepted) (hacceptors : s'.acceptors = s.acceptors)
    (hhandled : s'.history.handled = s.history.handled ++ [⟨e.id, e.conn.fd, frame⟩]) :
    s'.Attributed := by
  rcases howned.entry fd e hentry with ⟨hconn, _, hnumber⟩
  rw [hconn] at hhandled
  constructor
  . intro h hh
    rw [hhandled] at hh
    rw [haccepted]
    cases List.mem_append.mp hh with
    | inl hold => exact hs.accepted h hold
    | inr hnew =>
      rw [List.mem_singleton.mp hnew]
      exact hnumber
  . intro fd'
    rw [hhandled, List.filter_append, List.pairwise_append]
    refine ⟨hs.ordered fd', ?_, ?_⟩
    . exact (List.pairwise_singleton _ _).filter _
    . intro h hh h' hh'
      rcases List.mem_filter.mp hh with ⟨hh, hfd⟩
      rcases List.mem_filter.mp hh' with ⟨hnew, hfd'⟩
      have hfd := of_decide_eq_true hfd
      have hfd' := of_decide_eq_true hfd'
      rw [List.mem_singleton.mp hnew] at hfd' ⊢
      exact hs.entry fd e hentry h hh (hfd.trans hfd'.symm)
  . intro fd' e₁ he₁ h hh hfd
    rw [hconnections] at he₁
    rw [hhandled] at hh
    rcases entry_of_lookup_insert hentry hid fd' e₁ he₁ with ⟨e₂, he₂, hid₂⟩
    rw [← hid₂]
    cases List.mem_append.mp hh with
    | inl hold => exact hs.entry fd' e₂ he₂ h hold hfd
    | inr hnew =>
      rw [List.mem_singleton.mp hnew] at hfd ⊢
      dsimp only at hfd ⊢
      subst hfd
      rw [hentry] at he₂
      cases he₂
      exact Nat.le_refl _
  . intro a fd' id ha h hh hfd
    rw [hacceptors] at ha
    rw [hhandled] at hh
    cases List.mem_append.mp hh with
    | inl hold => exact hs.pending a fd' id ha h hold hfd
    | inr hnew =>
      -- The descriptor belongs to the entry, so no acceptor has it.
      rw [List.mem_singleton.mp hnew] at hfd
      dsimp only at hfd
      subst hfd
      rw [howned.lookup_of_insert ha] at hentry
      contradiction

theorem Attributed.step {ep : OpenFlowEndpoint σ} {action : Action W} (hs : s.Attributed)
    (howned : s.Owned) (h : Step ep s action s') : s'.Attributed := by
  cases h with
  | spawn =>
    refine hs.congr rfl (fun _ _ h => h) (fun fd e h => .inl ⟨e, h, rfl⟩) (fun a fd id h => .inl ?_)
    rw [List.getElem?_append] at h
    split at h
    . exact h
    . rw [List.getElem?_singleton] at h
      split at h <;> cases h
  | sweep => exact hs.worker rfl rfl rfl (fun fd e h => by simp at h)
  | check hpc => exact hs.acceptor rfl rfl rfl (by split <;> rfl)
  | acceptFails hpc => exact hs.acceptor rfl rfl rfl rfl
  | @accept a fd hpc =>
    refine hs.congr rfl (fun id fd h => getElem?_append_of_some h _) (fun fd e h => .inl ⟨e, h, rfl⟩)
      (fun b fd' id h => ?_)
    cases getElem?_set_insert h with
    | inl hnew => cases hnew; exact .inr rfl
    | inr hold => exact .inl hold
  | @insert a result fd id hpc =>
    refine hs.congr rfl (fun _ _ h => h) (fun fd' e h => ?_) (fun b fd' id' h => .inl ?_)
    . by_cases hfd : fd' = fd
      . subst hfd
        rw [AList.lookup_insert] at h
        cases h
        exact .inr ⟨a, hpc⟩
      . rw [AList.lookup_insert_ne hfd] at h
        exact .inl ⟨e, h, rfl⟩
    . cases getElem?_set_insert h with
      | inl hnew => cases hnew
      | inr hold => exact hold
  | enqueue hpc => exact hs.acceptor rfl rfl rfl rfl
  | ingest hpc hentry => exact hs.worker rfl rfl rfl (entry_of_lookup_insert hentry rfl)
  | accepted hpc hentry => exact hs.worker rfl rfl rfl (entry_of_lookup_insert hentry rfl)
  | rejected hpc hentry => exact hs.worker rfl rfl rfl (entry_of_lookup_insert hentry rfl)
  | dispatched hpc hentry => exact hs.dispatched howned hentry rfl rfl rfl rfl rfl
  | @close i count fd e hpc hentry =>
    refine hs.worker rfl rfl rfl (fun fd' e' h => ?_)
    by_cases hfd : fd' = fd
    . subst hfd
      rw [AList.lookup_erase] at h
      contradiction
    . rw [AList.lookup_erase_ne hfd] at h
      exact ⟨e', h, rfl⟩
  | _ => exact hs.worker rfl rfl rfl (fun fd e h => ⟨e, h, rfl⟩)

theorem Attributed.framesOn_eq (hs : s.Attributed) (fd : Int32) :
    s.framesOn fd = (s.connectionsOn fd).flatMap s.framesOf := by
  have hkeys : (s.connectionsOn fd).Pairwise (fun k k' => k < k') :=
    List.Pairwise.filter _ List.pairwise_lt_range
  have hgroups := Grouped.flatMap_groups hkeys (hs.ordered fd) (by
    intro h hh
    rcases List.mem_filter.mp hh with ⟨hh, hfd⟩
    have haccepted := hs.accepted h hh
    rw [of_decide_eq_true hfd] at haccepted
    rcases List.getElem?_eq_some_iff.mp haccepted with ⟨hlt, _⟩
    exact List.mem_filter.mpr ⟨List.mem_range.mpr hlt, decide_eq_true haccepted⟩)
  unfold framesOn
  rw [← hgroups, List.map_flatMap]
  apply List.flatMap_congr
  intro id hid
  have haccepted := of_decide_eq_true (List.mem_filter.mp hid).2
  unfold framesOf
  rw [List.filter_filter]
  congr 1
  apply List.filter_congr
  intro h hh
  by_cases hhid : h.id = id
  . have hfd := hs.accepted h hh
    rw [hhid, haccepted] at hfd
    simp [hhid, Option.some.inj hfd]
  . simp [hhid]

end Server

/-! Runs. -/

structure Following (ep : OpenFlowEndpoint σ) (s : Server σ W) : Prop where
  live : s.Live
  load : ∀ fd, s.load fd ≤ 1
  numbered : s.Numbered
  owned : s.Owned
  attributed : s.Attributed
  delivers : s.Delivers ep

theorem Following.step {ep : OpenFlowEndpoint σ} (hkeep : KeepsConnection ep.dispatch) {s s' : Server σ W}
    {action : Action W} (hs : Following ep s) (hguard : s.keepsOwnership action)
    (h : Server.step ep s action = some s') : Following ep s' := by
  have hstep := (Server.Step.of_step h).2
  exact ⟨hs.live.step hs.load hguard hstep, Server.load_le_one_step hs.load hguard hstep,
    hs.numbered.step hstep, hs.owned.step hkeep.keepsDescriptor hstep, hs.attributed.step hs.owned hstep,
    hs.delivers.step (Server.leavesBuffer_of_keepsBuffer hkeep.keepsBuffer _ _) hs.load hs.numbered hguard
      hstep⟩

theorem following_of_reaches {ep : OpenFlowEndpoint σ} (hkeep : KeepsConnection ep.dispatch) {w : σ}
    {s : Server σ W}
    (h : Reaches (Server.step ep) (fun s action => s.keepsOwnership action) { world := w } s) :
    Following ep s := by
  refine h.invariant (Following ep) (fun s action s' hs hguard hstep => hs.step hkeep hguard hstep) ?_
  exact ⟨by simp [Server.Live, WorkerPc.holds], by simp [Server.load, threads, WorkerPc.carried],
    Server.numbered_init w, Server.owned_init w, Server.attributed_init w, Server.delivers_init ep w⟩

theorem Following.isPrefix {ep : OpenFlowEndpoint σ} {s : Server σ W} (hs : Following ep s) (id : Nat) :
    s.framesOf id <+: s.validFrames ep id := by
  by_cases hfree : ∀ fd e, s.connections.lookup fd = some e → e.id ≠ id
  . rw [hs.delivers.settled id hfree]
  . push Not at hfree
    rcases hfree with ⟨fd, e, hentry, rfl⟩
    exact (hs.delivers.tracks fd e hentry).isPrefix

theorem Following.settled {ep : OpenFlowEndpoint σ} {s : Server σ W} (hs : Following ep s) {id : Nat}
    (hloop : ∀ i fd, s.workers i ≠ .loop fd id) : s.Settled ep id := by
  by_cases hfree : ∀ fd e, s.connections.lookup fd = some e → e.id ≠ id
  . exact hs.delivers.settled id hfree
  . push Not at hfree
    rcases hfree with ⟨fd, e, hentry, rfl⟩
    exact (hs.delivers.tracks fd e hentry).settled (fun i => hloop i fd)

theorem Following.settled_or {ep : OpenFlowEndpoint σ} {s : Server σ W} (hs : Following ep s) {fd : Int32}
    {id id' : Nat} (hid : id ∈ s.connectionsOn fd) (hid' : id' ∈ s.connectionsOn fd) (hlt : id < id') :
    s.framesOf id = s.validFrames ep id ∨ s.framesOf id' = [] := by
  by_cases hfree : ∀ fd e, s.connections.lookup fd = some e → e.id ≠ id
  . exact .inl (hs.delivers.settled id hfree)
  . push Not at hfree
    rcases hfree with ⟨fd', e, hentry, rfl⟩
    right
    have hfd := (hs.owned.entry fd' e hentry).2.2
    rw [of_decide_eq_true (List.mem_filter.mp hid).2] at hfd
    cases hfd
    apply List.map_eq_nil_iff.mpr
    apply List.filter_eq_nil_iff.mpr
    intro h hh hhid
    have hhid := of_decide_eq_true hhid
    have hhfd := hs.attributed.accepted h hh
    rw [hhid, of_decide_eq_true (List.mem_filter.mp hid').2] at hhfd
    have hle := hs.attributed.entry fd e hentry h hh (Option.some.inj hhfd).symm
    omega

/--
On a server each of whose connections is served by one worker, what was handled under a descriptor is, in
this order, the valid frames of the first connection that `accept` returned it for, those of the second one,
and so on, up to those that a worker is still working on.
-/
theorem framesOn_of_reaches (ep : OpenFlowEndpoint σ) (hkeep : KeepsConnection ep.dispatch) (w : σ)
    (s : Server σ W)
    (h : Reaches (Server.step ep) (fun s action => s.keepsOwnership action) { world := w } s)
    (fd : Int32) :
    let sent := (s.connectionsOn fd).flatMap (s.validFrames ep)
    s.framesOn fd <+: sent
      ∧ ((∀ i fd id, s.workers i ≠ .loop fd id) → s.framesOn fd = sent) := by
  intro sent
  have hs := following_of_reaches hkeep h
  rw [hs.attributed.framesOn_eq]
  constructor
  . refine Grouped.flatMap_isPrefix (fun id _ => hs.isPrefix id) ?_
    refine List.Pairwise.imp_of_mem ?_ (List.Pairwise.filter _ List.pairwise_lt_range)
    exact fun hid hid' hlt => hs.settled_or hid hid' hlt
  . intro hloop
    apply List.flatMap_congr
    exact fun id _ => hs.settled (fun i fd => hloop i fd id)

def servedTwice : List (Action 1) :=
  serveFirst ++ [.send 5 [0x01, 0x00, 0x00, 0x08, 0x00, 0x00, 0x00, 0x01], .handleClient 0 8,
    .handleClient 0 0, .handleClient 0 0, .handleClient 0 0, .hangUp 5, .handleClient 0 0,
    .handleClient 0 0, .handleClient 0 0, .handleClient 0 0, .acceptLoop 0 0, .acceptLoop 0 5,
    .acceptLoop 0 0, .acceptLoop 0 0, .handleClient 0 0, .handleClient 0 0, .handleClient 0 0,
    .send 5 [0x01, 0x02, 0x00, 0x08, 0x00, 0x00, 0x00, 0x02, 0x01, 0x00, 0x00, 0x08],
    .handleClient 0 12, .handleClient 0 0, .handleClient 0 0, .handleClient 0 0]

theorem framesOn_of_reaches_servedTwice :
    ∃ s : Server Unit 1,
      run (Server.step {}) (fun s action => s.keepsOwnership action) { world := () } servedTwice = some s
        ∧ (s.framesOn 5).map Frame.type = [.hello, .echoRequest]
        ∧ s.framesOn 5 = s.validFrames {} 0 ++ s.validFrames {} 1 := by
  obtain ⟨s, hs, htypes, hids, hworker⟩ : ∃ s : Server Unit 1,
      run (Server.step {}) (fun s action => s.keepsOwnership action) { world := () } servedTwice = some s
        ∧ (s.framesOn 5).map Frame.type = [.hello, .echoRequest]
        ∧ s.connectionsOn 5 = [0, 1]
        ∧ s.workers 0 = .top 5 :=
    ⟨_, rfl, by decide +kernel, by decide +kernel, by decide +kernel⟩
  have hkeep := OpenFlowEndpoint.handlersKeepConnection_empty (σ := Unit)
  have hframes := (framesOn_of_reaches {} hkeep.keepsConnection () s (reaches_of_run hs) 5).2 (by
    intro i fd id hi
    rw [Fin.fin_one_eq_zero i, hworker] at hi
    contradiction)
  rw [hids, List.flatMap_cons, List.flatMap_singleton] at hframes
  exact ⟨s, hs, htypes, hframes⟩

end Oflib
