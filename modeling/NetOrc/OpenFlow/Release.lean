import NetOrc.OpenFlow.Descriptors
import NetOrc.OpenFlow.Owners
import NetOrc.Transition.Basic

/-!
This module shows when a stopped server has closed every descriptor that it accepted.
-/

namespace Oflib

open Transition

variable {σ : Type} {W : Nat}

/--
What an observer of a run writes down: whether `stop` has swept `connections_`, and the connections whose
descriptors were closed.
-/
structure Release where
  swept : Bool := false
  closed : List Nat := []

def Entry.open? (e : Entry) : Bool := e.conn.fd ≥ 0

def recordRelease (s : Server σ W) (action : Action W) (release : Release) : Release :=
  match action with
  | .caller t =>
    match s.callers t with
    | .sweep =>
      -- `close_connection` only closes a descriptor that is open.
      { swept := true
        closed := release.closed
          ++ (s.connections.entries.filter (fun p => p.2.open?)).map (fun p => p.2.id) }
    | _ => release
  | .handleClient i _ =>
    match s.workers i with
    | .close fd id =>
      { release with
        closed := release.closed ++ ((s.entry? fd id).filter Entry.open?).toList.map Entry.id }
    | _ => release
  | _ => release

namespace Server

/--
`stop` has returned (the sweep is its last step), and the acceptors and all tasks have ended.
-/
def Ended (s : Server σ W) (release : Release) : Prop :=
  release.swept ∧ (∀ pc ∈ s.acceptors, pc = .done) ∧ s.tasks = [] ∧ ∀ i, s.workers i = .idle

instance (s : Server σ W) (release : Release) : Decidable (s.Ended release) :=
  inferInstanceAs (Decidable (_ ∧ _ ∧ _ ∧ _))

/--
`connections_` is empty, no descriptor is open, and each accepted one was closed once.
-/
def Released (s : Server σ W) (release : Release) : Prop :=
  s.connections = ∅ ∧ (∀ fd, s.sockets fd = none)
    ∧ ∀ id < s.history.accepted.length, release.closed.count id = 1

/--
The sweep of `stop` waits until no worker uses an entry, and nothing is inserted behind it.
-/
def keepsRelease (s : Server σ W) (release : Release) (action : Action W) : Bool :=
  match action with
  | .caller t => s.callers t = .sweep → ∀ i, (s.workers i).holds = none
  | .acceptLoop a _ =>
    match s.acceptors[a]? with
    | some (.insert _ _) => !release.swept
    | _ => true
  | _ => true

theorem recordRelease_of_not_releases {s : Server σ W} {action : Action W} (h : ¬s.releases action)
    (release : Release) : recordRelease s action release = release := by
  unfold recordRelease
  split
  . split
    . next hsweep => exact absurd hsweep h
    . rfl
  . split
    . next hclose => exact absurd ⟨_, _, hclose⟩ h
    . rfl
  . rfl

theorem Owned.open {s : Server σ W} (hs : s.Owned) {fd : Int32} {e : Entry}
    (hentry : s.connections.lookup fd = some e) : e.open? := by
  rcases hs.entry fd e hentry with ⟨hconn, hfd, _⟩
  unfold Entry.open?
  rw [hconn]
  simpa using Int32.not_lt.mp hfd

theorem recordRelease_close {s : Server σ W} (hs : s.Owned) {i : Fin W} {count : Nat} {fd : Int32}
    {e : Entry} (hpc : s.workers i = .close fd e.id) (hentry : s.connections.lookup fd = some e)
    (release : Release) :
    recordRelease s (.handleClient i count) release
      =
    { release with closed := release.closed ++ [e.id] } := by
  unfold recordRelease
  simp only [hpc, entry?_of_lookup hentry, Option.filter_some, hs.open hentry, if_true]
  rfl

theorem recordRelease_sweep {s : Server σ W} (hs : s.Owned) {t : Nat} (hcaller : s.callers t = .sweep)
    (release : Release) :
    recordRelease s (.caller t) release
      =
    { swept := true
      closed := release.closed ++ s.connections.entries.map (fun p => p.2.id) } := by
  have hopen : s.connections.entries.filter (fun p => p.2.open?) = s.connections.entries := by
    rw [List.filter_eq_self]
    rintro ⟨fd, e⟩ hmem
    exact hs.open (AList.mem_lookup_iff.mpr hmem)
  unfold recordRelease
  simp only [hcaller, hopen]

theorem count_ids (s : Server σ W) (id : Nat) :
    (s.connections.entries.map (fun p => p.2.id)).count id
      =
    entriesWith (fun e => e.id = id) s.connections := by
  unfold entriesWith
  rw [List.count_eq_countP, List.countP_map]
  rfl

structure Accounted (s : Server σ W) (release : Release) : Prop where
  owned : s.Owned
  -- An accepted connection is closed, or it has an owner, but not both.
  count : ∀ id, release.closed.count id + s.owners id
    = (decide (id < s.history.accepted.length)).toNat
  swept : release.swept → s.connections = ∅

theorem accounted_init (w : σ) : ({ world := w } : Server σ W).Accounted {} := by
  refine ⟨owned_init w, fun id => ?_, fun h => nomatch h⟩
  simp [owners, pending]

theorem swept_or {s : Server σ W} {action : Action W} {release : Release}
    (h : (recordRelease s action release).swept) :
    release.swept ∨ ∃ t, action = .caller t ∧ s.callers t = .sweep := by
  unfold recordRelease at h
  split at h
  . split at h
    . next hcaller => exact .inr ⟨_, rfl, hcaller⟩
    . exact .inl h
  . split at h <;> exact .inl h
  . exact .inl h

variable {ep : OpenFlowEndpoint σ} {s s' : Server σ W} {release : Release}

theorem Step.connections_of_sweep {t : Nat} (h : Step ep s (.caller t) s')
    (hcaller : s.callers t = .sweep) : s'.connections = ∅ := by
  cases h with
  | spawnJoinable hcaller' => rw [hcaller] at hcaller'; contradiction
  | spawn hcaller' => rw [hcaller] at hcaller'; contradiction
  | detach hcaller' => rw [hcaller] at hcaller'; contradiction
  | sweep => rfl

theorem Step.connections_empty {action : Action W} (h : Step ep s action s')
    (hempty : s.connections = ∅)
    (hinsert : ∀ a result fd id, action = .acceptLoop a result →
      s.acceptors[a]? ≠ some (.insert fd id)) : s'.connections = ∅ := by
  have hlookup : ∀ fd, s.connections.lookup fd = none := by
    intro fd
    rw [hempty]
    rfl
  cases h with
  | sweep => rfl
  | insert hpc => exact absurd hpc (hinsert _ _ _ _ rfl)
  | ingest _ hentry => rw [hlookup] at hentry; contradiction
  | accepted _ hentry => rw [hlookup] at hentry; contradiction
  | rejected _ hentry => rw [hlookup] at hentry; contradiction
  | dispatched _ hentry => rw [hlookup] at hentry; contradiction
  | close _ hentry => rw [hlookup] at hentry; contradiction
  | _ => exact hempty

theorem Accounted.count_step {action : Action W} (hs : s.Accounted release) (h : Step ep s action s')
    (id : Nat) :
    (recordRelease s action release).closed.count id + s'.owners id
      =
    (decide (id < s'.history.accepted.length)).toNat := by
  have hcount := hs.count id
  rcases h.owners_cases with ⟨hnone, haccepted, howners⟩ | ⟨a, fd, rfl, _, haccepted, howners⟩
    | ⟨a, result, fd, id', rfl, hpc, haccepted, howners⟩
    | ⟨i, count, fd, e, rfl, hpc, hentry, haccepted, howners⟩
    | ⟨t, rfl, hcaller, haccepted, howners⟩
  . rw [recordRelease_of_not_releases hnone, haccepted, howners, hcount]
  . have hrecord : recordRelease s (.acceptLoop a fd) release = release := rfl
    rw [hrecord, haccepted, howners, ← Nat.add_assoc, hcount, List.length_append,
      List.length_singleton]
    by_cases hlt : id < s.history.accepted.length
    . simp [hlt, Nat.lt_succ_of_lt hlt, Nat.ne_of_gt hlt]
    . by_cases heq : s.history.accepted.length = id
      . simp [heq]
      . have hlt' : ¬id < s.history.accepted.length + 1 := by omega
        simp [hlt, hlt', heq]
  . have howners := howners id
    have hrecord : recordRelease s (.acceptLoop a result) release = release := rfl
    rw [hs.owned.lookup_of_insert hpc] at howners
    rw [hrecord, haccepted]
    simp only [Option.any_none, Bool.toNat_false] at howners
    omega
  . have howners := howners id
    rw [recordRelease_close hs.owned hpc hentry, haccepted]
    dsimp only
    rw [List.count_append, List.count_singleton]
    by_cases hid : e.id = id
    . simp [hid] at howners ⊢
      omega
    . simp [hid] at howners ⊢
      omega
  . have howners := howners id
    rw [recordRelease_sweep hs.owned hcaller, haccepted]
    dsimp only
    rw [List.count_append, count_ids]
    omega

theorem Accounted.step (hkeep : KeepsDescriptor ep.dispatch) {action : Action W}
    (hs : s.Accounted release) (hguard : s.keepsRelease release action) (h : Step ep s action s') :
    s'.Accounted (recordRelease s action release) := by
  refine ⟨hs.owned.step hkeep h, hs.count_step h, fun hswept' => ?_⟩
  rcases swept_or hswept' with hswept | ⟨t, rfl, hcaller⟩
  . refine h.connections_empty (hs.swept hswept) ?_
    rintro a result fd id rfl hpc
    simp [keepsRelease, hpc, hswept] at hguard
  . exact h.connections_of_sweep hcaller

end Server

/--
In every run in which `stop` sweeps `connections_` when no worker uses an entry, and no acceptor inserts
a connection behind the sweep: once the server has ended, all is released.
-/
theorem released_of_reaches (ep : OpenFlowEndpoint σ) (hkeep : KeepsDescriptor ep.dispatch) (w : σ)
    (s : Server σ W) (release : Release)
    (h : Reaches (recorded (Server.step ep) recordRelease)
      (fun p action => p.1.keepsRelease p.2 action) ({ world := w }, {}) (s, release))
    (hended : s.Ended release) : s.Released release := by
  have hs : s.Accounted release := by
    refine h.invariant (fun p : Server σ W × Release => p.1.Accounted p.2)
      (fun p action q hp hguard hstep => ?_) (Server.accounted_init w)
    rcases recorded_eq_some_iff.mp hstep with ⟨hstep, hrecord⟩
    rw [hrecord]
    exact hp.step hkeep hguard (Server.Step.of_step hstep).2
  rcases hended with ⟨hswept, hdone, _, _⟩
  have hempty := hs.swept hswept
  refine ⟨hempty, fun fd => ?_, fun id hid => ?_⟩
  . have hinserting : s.inserting fd = 0 := by
      apply List.countP_eq_zero.mpr
      intro pc hpc
      rw [hdone pc hpc]
      simp [AcceptorPc.inserts]
    have howner := hs.owned.owner fd
    rw [hinserting, hempty] at howner
    rw [← Option.not_isSome_iff_eq_none]
    intro hsome
    rw [hsome] at howner
    simp at howner
  . have hpending : s.pending id = 0 := by
      apply List.countP_eq_zero.mpr
      intro pc hpc
      rw [hdone pc hpc]
      simp [AcceptorPc.numbers]
    have hcount := hs.count id
    unfold Server.owners at hcount
    rw [hpending, hempty] at hcount
    simpa [hid] using hcount

def stopWithOpen : List (Action 1) :=
  serveFirst ++ [.hangUp 5, .handleClient 0 0, .handleClient 0 0, .acceptLoop 0 0, .acceptLoop 0 7,
    .acceptLoop 0 0, .acceptLoop 0 0, .stop 0, .caller 0, .caller 0, .acceptLoop 0 0,
    .handleClient 0 0, .handleClient 0 0]

theorem released_of_reaches_stopWithOpen :
    ∃ (s : Server Unit 1) (release : Release),
      run (recorded (Server.step {}) recordRelease) (fun p action => p.1.keepsRelease p.2 action)
          ({ world := () }, {}) stopWithOpen = some (s, release)
        ∧ s.history.accepted = [5, 7] ∧ s.Released release := by
  obtain ⟨⟨s, release⟩, hs, haccepted, hended⟩ : ∃ p : Server Unit 1 × Release,
      run (recorded (Server.step {}) recordRelease) (fun p action => p.1.keepsRelease p.2 action)
          ({ world := () }, {}) stopWithOpen = some p
        ∧ p.1.history.accepted = [5, 7] ∧ p.1.Ended p.2 :=
    ⟨_, rfl, by decide +kernel, by decide +kernel⟩
  have hkeep : KeepsDescriptor ({} : OpenFlowEndpoint Unit).dispatch := fun _ _ _ _ => rfl
  exact ⟨s, release, hs, haccepted, released_of_reaches {} hkeep () s release (reaches_of_run hs) hended⟩

def acceptBeforeStop : List (Action 1) :=
  [.listen 0, .caller 0, .acceptLoop 0 0, .acceptLoop 0 5, .stop 0, .caller 0, .caller 0,
    .acceptLoop 0 0, .acceptLoop 0 0, .acceptLoop 0 0, .handleClient 0 0, .handleClient 0 0]

theorem leak_of_acceptBeforeStop :
    ∃ (s : Server Unit 1) (release : Release),
      Reaches (recorded (Server.step {}) recordRelease) (fun _ _ => True) ({ world := () }, {})
          (s, release)
        ∧ s.Ended release ∧ s.history.accepted = [5]
        ∧ s.connections.lookup 5 = some ⟨0, { fd := 5 }⟩ ∧ (s.sockets 5).isSome
        ∧ release.closed = [] ∧ ¬s.Released release := by
  obtain ⟨⟨s, release⟩, hs, hended, haccepted, hentry, hopen, hclosed⟩ :
      ∃ p : Server Unit 1 × Release,
        run (recorded (Server.step {}) recordRelease) (fun _ _ => true) ({ world := () }, {})
            acceptBeforeStop = some p
          ∧ p.1.Ended p.2 ∧ p.1.history.accepted = [5]
          ∧ p.1.connections.lookup 5 = some ⟨0, { fd := 5 }⟩ ∧ (p.1.sockets 5).isSome
          ∧ p.2.closed = [] :=
    ⟨_, rfl, by decide +kernel, by decide +kernel, by decide +kernel, by decide +kernel,
      by decide +kernel⟩
  refine ⟨s, release, (reaches_of_run hs).weaken (fun _ _ _ => trivial), hended, haccepted, hentry,
    hopen, hclosed, fun hreleased => ?_⟩
  have hlookup := congrArg (AList.lookup 5) hreleased.1
  rw [hentry] at hlookup
  contradiction

end Oflib
