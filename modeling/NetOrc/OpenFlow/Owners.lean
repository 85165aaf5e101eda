import NetOrc.OpenFlow.Ownership
import NetOrc.Transition.Tables

/-!
This module counts the owners of an accepted connection: acceptors that are about to insert it, and its
entry in `connections_`.
-/

namespace Oflib

open Transition

variable {σ : Type} {W : Nat}

def AcceptorPc.numbers (pc : AcceptorPc) : Option Nat :=
  match pc with
  | .insert _ id => some id
  | _ => none

namespace Server

def pending (s : Server σ W) (id : Nat) : Nat :=
  s.acceptors.countP (fun pc => pc.numbers = some id)

def owners (s : Server σ W) (id : Nat) : Nat :=
  s.pending id + entriesWith (fun e => e.id = id) s.connections

theorem pending_setAcceptor {s s' : Server σ W} {a : Nat} {pc pc' : AcceptorPc}
    (hpc : s.acceptors[a]? = some pc) (hacceptors : s'.acceptors = s.acceptors.set a pc') (id : Nat) :
    s'.pending id + (decide (pc.numbers = some id)).toNat
      =
    s.pending id + (decide (pc'.numbers = some id)).toNat := by
  unfold pending
  rw [hacceptors]
  exact countP_set (p := fun pc : AcceptorPc => decide (pc.numbers = some id)) hpc pc'

theorem pending_pos {s : Server σ W} {a : Nat} {fd : Int32} {id : Nat}
    (hpc : s.acceptors[a]? = some (.insert fd id)) : 0 < s.pending id :=
  List.countP_pos_iff.mpr ⟨_, List.mem_of_getElem? hpc, by simp [AcceptorPc.numbers]⟩

theorem pending_eq_of_acceptor {s s' : Server σ W} {a : Nat} {pc pc' : AcceptorPc}
    (hpc : s.acceptors[a]? = some pc) (hacceptors : s'.acceptors = s.acceptors.set a pc')
    (hnumbers : pc.numbers = none) (hnumbers' : pc'.numbers = none) (id : Nat) :
    s'.pending id = s.pending id := by
  have hpending := pending_setAcceptor hpc hacceptors id
  rw [hnumbers, hnumbers'] at hpending
  omega

theorem pending_add_of_accept {s s' : Server σ W} {a : Nat} {fd : Int32} {id' : Nat}
    (hpc : s.acceptors[a]? = some .accept)
    (hacceptors : s'.acceptors = s.acceptors.set a (.insert fd id')) (id : Nat) :
    s'.pending id = s.pending id + (decide (id' = id)).toNat := by
  have hpending := pending_setAcceptor hpc hacceptors id
  simpa [AcceptorPc.numbers] using hpending

theorem pending_add_of_insert {s s' : Server σ W} {a : Nat} {fd : Int32} {id' : Nat}
    (hpc : s.acceptors[a]? = some (.insert fd id'))
    (hacceptors : s'.acceptors = s.acceptors.set a (.enqueue fd)) (id : Nat) :
    s'.pending id + (decide (id' = id)).toNat = s.pending id := by
  have hpending := pending_setAcceptor hpc hacceptors id
  simpa [AcceptorPc.numbers] using hpending

theorem owners_eq_of_acceptor {s s' : Server σ W} {a : Nat} {pc pc' : AcceptorPc}
    (hconnections : s'.connections = s.connections) (hpc : s.acceptors[a]? = some pc)
    (hacceptors : s'.acceptors = s.acceptors.set a pc') (hnumbers : pc.numbers = none)
    (hnumbers' : pc'.numbers = none) (id : Nat) : s'.owners id = s.owners id := by
  unfold owners
  rw [hconnections, pending_eq_of_acceptor hpc hacceptors hnumbers hnumbers']

theorem owners_add_of_accept {s s' : Server σ W} {a : Nat} {fd : Int32} {id' : Nat}
    (hconnections : s'.connections = s.connections) (hpc : s.acceptors[a]? = some .accept)
    (hacceptors : s'.acceptors = s.acceptors.set a (.insert fd id')) (id : Nat) :
    s'.owners id = s.owners id + (decide (id' = id)).toNat := by
  have hpending := pending_add_of_accept hpc hacceptors id
  unfold owners
  rw [hconnections]
  omega

theorem owners_of_insert {s s' : Server σ W} {a : Nat} {fd : Int32} {id' : Nat}
    (hpc : s.acceptors[a]? = some (.insert fd id'))
    (hacceptors : s'.acceptors = s.acceptors.set a (.enqueue fd))
    (hconnections : s'.connections = s.connections.insert fd ⟨id', { fd := fd }⟩) (id : Nat) :
    s'.owners id + ((s.connections.lookup fd).any (fun e => e.id = id)).toNat = s.owners id := by
  have hpending := pending_add_of_insert hpc hacceptors id
  have hinsert := entriesWith_insert (p := fun e : Entry => decide (e.id = id)) s.connections fd
    ⟨id', { fd := fd }⟩
  dsimp only at hinsert
  unfold owners
  rw [hconnections]
  omega

theorem owners_eq_of_entry {s s' : Server σ W} {fd : Int32} {e e' : Entry}
    (hentry : s.connections.lookup fd = some e)
    (hconnections : s'.connections = s.connections.insert fd e')
    (hacceptors : s'.acceptors = s.acceptors) (hid : e'.id = e.id) (id : Nat) :
    s'.owners id = s.owners id := by
  have hinsert := entriesWith_insert (p := fun e : Entry => decide (e.id = id)) s.connections fd e'
  rw [hentry, Option.any_some, hid] at hinsert
  unfold owners pending
  rw [hconnections, hacceptors]
  omega

def releases (s : Server σ W) (action : Action W) : Prop :=
  match action with
  | .caller t => s.callers t = .sweep
  | .handleClient i _ => ∃ fd id, s.workers i = .close fd id
  | _ => False

theorem not_releases_caller {s : Server σ W} {t : Nat} {pc : CallerPc} (hcaller : s.callers t = pc)
    (hpc : pc ≠ .sweep := by simp) : ¬s.releases (.caller t) := by
  rw [releases, hcaller]
  exact hpc

theorem not_releases_handleClient {s : Server σ W} {i : Fin W} {count : Nat} {pc : WorkerPc}
    (hworker : s.workers i = pc) (hpc : ∀ fd id, pc ≠ .close fd id := by simp) :
    ¬s.releases (.handleClient i count) := by
  rintro ⟨fd, id, hclose⟩
  exact hpc fd id (hworker.symm.trans hclose)

theorem Step.owners_cases {ep : OpenFlowEndpoint σ} {s s' : Server σ W} {action : Action W}
    (h : Step ep s action s') :
    (¬s.releases action ∧ s'.history.accepted = s.history.accepted
        ∧ ∀ id, s'.owners id = s.owners id)
      ∨ (∃ a fd, action = .acceptLoop a fd ∧ s.acceptors[a]? = some .accept
          ∧ s'.history.accepted = s.history.accepted ++ [fd]
          ∧ ∀ id, s'.owners id = s.owners id + (decide (s.history.accepted.length = id)).toNat)
      ∨ (∃ a result fd id', action = .acceptLoop a result
          ∧ s.acceptors[a]? = some (.insert fd id') ∧ s'.history.accepted = s.history.accepted
          ∧ ∀ id, s'.owners id + ((s.connections.lookup fd).any (fun e => e.id = id)).toNat
            = s.owners id)
      ∨ (∃ i count fd e, action = .handleClient i count ∧ s.workers i = .close fd e.id
          ∧ s.connections.lookup fd = some e ∧ s'.history.accepted = s.history.accepted
          ∧ ∀ id, s'.owners id + (decide (e.id = id)).toNat = s.owners id)
      ∨ (∃ t, action = .caller t ∧ s.callers t = .sweep ∧ s'.history.accepted = s.history.accepted
          ∧ ∀ id, s'.owners id + entriesWith (fun e => e.id = id) s.connections = s.owners id) := by
  cases h with
  | listen => exact .inl ⟨fun h => h, rfl, fun id => rfl⟩
  | stop => exact .inl ⟨fun h => h, rfl, fun id => rfl⟩
  | spawnJoinable hcaller => exact .inl ⟨not_releases_caller hcaller, rfl, fun id => rfl⟩
  | spawn hcaller =>
    exact .inl ⟨not_releases_caller hcaller, rfl,
      fun id => by simp [owners, pending, AcceptorPc.numbers]⟩
  | detach hcaller => exact .inl ⟨not_releases_caller hcaller, rfl, fun id => rfl⟩
  | @sweep t hcaller =>
    exact .inr (.inr (.inr (.inr ⟨t, rfl, hcaller, rfl, fun id => by simp [owners, pending]⟩)))
  | check hpc =>
    exact .inl ⟨fun h => h, rfl, owners_eq_of_acceptor rfl hpc rfl rfl (by split <;> rfl)⟩
  | acceptFails hpc => exact .inl ⟨fun h => h, rfl, owners_eq_of_acceptor rfl hpc rfl rfl rfl⟩
  | @accept a fd hpc => exact .inr (.inl ⟨a, fd, rfl, hpc, rfl, owners_add_of_accept rfl hpc rfl⟩)
  | @insert a result fd id' hpc =>
    exact .inr (.inr (.inl ⟨a, result, fd, id', rfl, hpc, rfl, owners_of_insert hpc rfl rfl⟩))
  | enqueue hpc => exact .inl ⟨fun h => h, rfl, owners_eq_of_acceptor rfl hpc rfl rfl rfl⟩
  | pop hpc => exact .inl ⟨not_releases_handleClient hpc, rfl, fun id => rfl⟩
  | top hpc => exact .inl ⟨not_releases_handleClient hpc, rfl, fun id => rfl⟩
  | leave hpc => exact .inl ⟨not_releases_handleClient hpc, rfl, fun id => rfl⟩
  | miss hpc => exact .inl ⟨not_releases_handleClient hpc, rfl, fun id => rfl⟩
  | lookup hpc => exact .inl ⟨not_releases_handleClient hpc, rfl, fun id => rfl⟩
  | recvFails hpc => exact .inl ⟨not_releases_handleClient hpc, rfl, fun id => rfl⟩
  | recv hpc => exact .inl ⟨not_releases_handleClient hpc, rfl, fun id => rfl⟩
  | ingestFails hpc => exact .inl ⟨not_releases_handleClient hpc, rfl, fun id => rfl⟩
  | ingest hpc hentry =>
    exact .inl ⟨not_releases_handleClient hpc, rfl, owners_eq_of_entry hentry rfl rfl rfl⟩
  | accepted hpc hentry =>
    exact .inl ⟨not_releases_handleClient hpc, rfl, owners_eq_of_entry hentry rfl rfl rfl⟩
  | rejected hpc hentry =>
    exact .inl ⟨not_releases_handleClient hpc, rfl, owners_eq_of_entry hentry rfl rfl rfl⟩
  | dispatched hpc hentry =>
    exact .inl ⟨not_releases_handleClient hpc, rfl, owners_eq_of_entry hentry rfl rfl rfl⟩
  | @close i count fd e hpc hentry =>
    refine .inr (.inr (.inr (.inl ⟨i, count, fd, e, rfl, hpc, hentry, rfl, fun id => ?_⟩)))
    have herase := entriesWith_erase (p := fun e : Entry => decide (e.id = id)) s.connections fd
    rw [hentry, Option.any_some] at herase
    unfold owners pending
    dsimp only
    omega
  | waitForEvent => exact .inl ⟨fun h => h, rfl, fun id => rfl⟩
  | send => exact .inl ⟨fun h => h, rfl, fun id => rfl⟩
  | hangUp => exact .inl ⟨fun h => h, rfl, fun id => rfl⟩
  | reset => exact .inl ⟨fun h => h, rfl, fun id => rfl⟩

def Numbered (s : Server σ W) : Prop :=
  -- One owner at most, and none before `accept`.
  ∀ id, s.owners id ≤ (decide (id < s.history.accepted.length)).toNat

theorem Numbered.step {ep : OpenFlowEndpoint σ} {s s' : Server σ W} {action : Action W}
    (hs : s.Numbered) (h : Step ep s action s') : s'.Numbered := by
  intro id
  have hid := hs id
  rcases h.owners_cases with ⟨_, haccepted, howners⟩ | ⟨_, fd, _, _, haccepted, howners⟩
    | ⟨_, _, _, _, _, _, haccepted, howners⟩ | ⟨_, _, _, _, _, _, _, haccepted, howners⟩
    | ⟨_, _, _, haccepted, howners⟩
  . rw [haccepted, howners]
    exact hid
  . rw [haccepted, howners, List.length_append, List.length_singleton]
    by_cases hlt : id < s.history.accepted.length
    . simp only [hlt, decide_true, Bool.toNat_true] at hid
      simp only [Nat.lt_succ_of_lt hlt, Nat.ne_of_gt hlt, decide_true, decide_false, Bool.toNat_true,
        Bool.toNat_false]
      exact hid
    . simp only [hlt, decide_false, Bool.toNat_false] at hid
      by_cases heq : s.history.accepted.length = id
      . simp [heq, hid]
      . simp [heq]
        omega
  -- The other steps only take owners away.
  all_goals
    have howners := howners id
    rw [haccepted]
    omega

theorem numbered_init (w : σ) : ({ world := w } : Server σ W).Numbered := by
  simp [Numbered, owners, pending]

theorem Numbered.fd_eq {s : Server σ W} (hs : s.Numbered) {fd fd' : Int32} {e e' : Entry}
    (hentry : s.connections.lookup fd = some e) (hentry' : s.connections.lookup fd' = some e')
    (hid : e'.id = e.id) : fd' = fd := by
  refine key_eq_of_entriesWith_le_one (p := fun e' : Entry => decide (e'.id = e.id)) ?_ hentry'
    hentry (by simpa using hid) (by simp)
  have howners := hs e.id
  have hle := Bool.toNat_le (decide (e.id < s.history.accepted.length))
  unfold owners at howners
  omega

def Fresh (s : Server σ W) (id : Nat) : Prop :=
  0 < s.pending id ∨ s.history.accepted.length ≤ id

theorem Numbered.not_fresh {s : Server σ W} (hs : s.Numbered) {fd : Int32} {e : Entry}
    (hentry : s.connections.lookup fd = some e) : ¬s.Fresh e.id := by
  have hpos : 0 < entriesWith (fun e' : Entry => e'.id = e.id) s.connections :=
    entriesWith_pos hentry (by simp)
  have howners := hs e.id
  unfold owners at howners
  unfold Fresh
  by_cases hlt : e.id < s.history.accepted.length
  . simp only [hlt, decide_true, Bool.toNat_true] at howners
    omega
  . simp only [hlt, decide_false, Bool.toNat_false] at howners
    omega

theorem Step.fresh {ep : OpenFlowEndpoint σ} {s s' : Server σ W} {action : Action W}
    (h : Step ep s action s') {id : Nat} (hid : s'.Fresh id) : s.Fresh id := by
  have hsame : s'.pending id = s.pending id → s'.history.accepted = s.history.accepted →
      s.Fresh id := by
    intro hpending haccepted
    unfold Fresh at hid ⊢
    rw [← hpending, ← haccepted]
    exact hid
  cases h with
  | spawn => exact hsame (by simp [pending, AcceptorPc.numbers]) rfl
  | check hpc => exact hsame (pending_eq_of_acceptor hpc rfl rfl (by split <;> rfl) id) rfl
  | acceptFails hpc => exact hsame (pending_eq_of_acceptor hpc rfl rfl rfl id) rfl
  | @accept a fd hpc =>
    unfold Fresh at hid ⊢
    rw [pending_add_of_accept hpc rfl id] at hid
    by_cases heq : s.history.accepted.length = id
    . exact .inr (Nat.le_of_eq heq)
    . simp only [heq, decide_false, Bool.toNat_false, Nat.add_zero, List.length_append] at hid
      exact hid.imp_right Nat.le_of_succ_le
  | insert hpc =>
    refine hid.imp_left (fun hpos => Nat.lt_of_lt_of_le hpos ?_)
    exact Nat.le.intro (pending_add_of_insert hpc rfl id)
  | enqueue hpc => exact hsame (pending_eq_of_acceptor hpc rfl rfl rfl id) rfl
  | _ => exact hid

end Server

end Oflib
