import NetOrc.OpenFlow.Ownership
import NetOrc.OpenFlow.Session

/-!
This module shows how a server keeps its descriptors together, also when it is stopped: every open
descriptor belongs to one entry of `connections_`, or to one acceptor that is about to insert it.
-/

namespace Oflib

open Transition

variable {σ : Type} {W : Nat}

def AcceptorPc.inserts (pc : AcceptorPc) : Option Int32 :=
  match pc with
  | .insert fd _ => some fd
  | _ => none

def Entry.key (e : Entry) : Nat × Int32 := (e.id, e.conn.fd)

theorem dispatched_fd {ep : OpenFlowEndpoint σ} (hkeep : KeepsDescriptor ep.dispatch) {conn : Connection}
    {w : σ × List Event} {d : Dispatched} {r : HandlerResult (σ × List Event)}
    (h : ep.ingestStep (serverDispatch ep) conn w = .dispatched d r) : r.conn.fd = conn.fd := by
  rcases OpenFlowEndpoint.ingestStep_dispatched h with ⟨conn', hfd, _, rfl⟩
  rw [← hfd, ← hkeep d.type conn' d.frame w.1]
  unfold serverDispatch
  dsimp only
  split <;> rfl

namespace Server

def inserting (s : Server σ W) (fd : Int32) : Nat :=
  s.acceptors.countP (fun pc => pc.inserts = some fd)

structure Owned (s : Server σ W) : Prop where
  owner : ∀ fd, s.inserting fd + (s.connections.lookup fd).isSome.toNat
    = (s.sockets fd).isSome.toNat
  entry : ∀ fd e, s.connections.lookup fd = some e →
    e.conn.fd = fd ∧ ¬fd < 0 ∧ s.history.accepted[e.id]? = some fd
  pending : ∀ (a : Nat) fd id, s.acceptors[a]? = some (AcceptorPc.insert fd id) →
    ¬fd < 0 ∧ s.history.accepted[id]? = some fd

theorem owned_init (w : σ) : ({ world := w } : Server σ W).Owned := by
  constructor <;> simp [inserting]

/-! Steps that leave the owners as they are. -/

theorem Owned.congr {s s' : Server σ W} (hs : s.Owned)
    (hkeys : ∀ fd, (s'.connections.lookup fd).map Entry.key
      = (s.connections.lookup fd).map Entry.key)
    (hsockets : ∀ fd, (s'.sockets fd).isSome = (s.sockets fd).isSome)
    (haccepted : s'.history.accepted = s.history.accepted)
    (hinserting : ∀ fd, s'.inserting fd = s.inserting fd)
    (hinsert : ∀ (a : Nat) fd id, s'.acceptors[a]? = some (AcceptorPc.insert fd id) →
      s.acceptors[a]? = some (AcceptorPc.insert fd id)) : s'.Owned := by
  constructor
  . intro fd
    have hsome : (s'.connections.lookup fd).isSome = (s.connections.lookup fd).isSome := by
      rw [← Option.isSome_map, hkeys, Option.isSome_map]
    rw [hinserting, hsome, hsockets, hs.owner]
  . intro fd e' he'
    have hkey := hkeys fd
    rw [he', Option.map_some] at hkey
    rcases Option.map_eq_some_iff.mp hkey.symm with ⟨e, he, hkey⟩
    simp only [Entry.key, Prod.mk.injEq] at hkey
    rw [← hkey.1, ← hkey.2, haccepted]
    exact hs.entry fd e he
  . intro a fd id hpc
    rw [haccepted]
    exact hs.pending a fd id (hinsert a fd id hpc)

theorem Owned.worker {s s' : Server σ W} (hs : s.Owned)
    (hkeys : ∀ fd, (s'.connections.lookup fd).map Entry.key
      = (s.connections.lookup fd).map Entry.key)
    (hsockets : ∀ fd, (s'.sockets fd).isSome = (s.sockets fd).isSome)
    (haccepted : s'.history.accepted = s.history.accepted) (hacceptors : s'.acceptors = s.acceptors) :
    s'.Owned := by
  refine hs.congr hkeys hsockets haccepted (fun fd => ?_) (fun a fd id h => ?_)
  . unfold inserting
    rw [hacceptors]
  . rw [← hacceptors]
    exact h

theorem inserting_set {s : Server σ W} {a : Nat} {pc : AcceptorPc} (hpc : s.acceptors[a]? = some pc)
    (pc' : AcceptorPc) (fd : Int32) :
    (s.acceptors.set a pc').countP (fun pc => pc.inserts = some fd)
        + (decide (pc.inserts = some fd)).toNat
      =
    s.inserting fd + (decide (pc'.inserts = some fd)).toNat :=
  countP_set (p := fun pc : AcceptorPc => decide (pc.inserts = some fd)) hpc pc'

theorem getElem?_set_insert {s : Server σ W} {a b : Nat} {pc' : AcceptorPc} {fd : Int32} {id : Nat}
    (h : (s.acceptors.set a pc')[b]? = some (AcceptorPc.insert fd id)) :
    pc' = AcceptorPc.insert fd id ∨ s.acceptors[b]? = some (AcceptorPc.insert fd id) := by
  rw [List.getElem?_set] at h
  split at h
  . split at h
    . left
      exact Option.some.inj h
    . contradiction
  . right
    exact h

theorem Owned.acceptor {s s' : Server σ W} (hs : s.Owned) {a : Nat} {pc pc' : AcceptorPc}
    (hpc : s.acceptors[a]? = some pc) (hacceptors : s'.acceptors = s.acceptors.set a pc')
    (hinserts : pc.inserts = none) (hinserts' : pc'.inserts = none)
    (hconnections : s'.connections = s.connections) (hsockets : s'.sockets = s.sockets)
    (hhistory : s'.history = s.history) : s'.Owned := by
  refine hs.congr (fun fd => by rw [hconnections]) (fun fd => by rw [hsockets])
    (by rw [hhistory]) (fun fd => ?_) (fun b fd id h => ?_)
  . have hset := inserting_set hpc pc' fd
    rw [hinserts, hinserts'] at hset
    unfold inserting at hset ⊢
    rw [hacceptors]
    simpa using hset
  . rw [hacceptors] at h
    cases getElem?_set_insert h with
    | inl hpc' => rw [hpc'] at hinserts'; contradiction
    | inr h => exact h

/-! Steps that change the owners. -/

theorem getElem?_append_of_some {l : List Int32} {id : Nat} {fd : Int32} (h : l[id]? = some fd)
    (l' : List Int32) : (l ++ l')[id]? = some fd := by
  rcases List.getElem?_eq_some_iff.mp h with ⟨hlt, rfl⟩
  rw [List.getElem?_append_left hlt, List.getElem?_eq_getElem hlt]

theorem Owned.accept {s s' : Server σ W} (hs : s.Owned) {a : Nat} {fd : Int32}
    (hpc : s.acceptors[a]? = some .accept) (hfd : ¬fd < 0) (hfree : s.sockets fd = none)
    (hacceptors : s'.acceptors
      = s.acceptors.set a (AcceptorPc.insert fd s.history.accepted.length))
    (hsockets : s'.sockets = Function.update s.sockets fd (some {}))
    (haccepted : s'.history.accepted = s.history.accepted ++ [fd])
    (hconnections : s'.connections = s.connections) : s'.Owned where
  owner := by
    intro fd'
    have hset := inserting_set hpc (AcceptorPc.insert fd s.history.accepted.length) fd'
    have howner := hs.owner fd'
    rw [hsockets, hconnections, inserting, hacceptors]
    by_cases hfd' : fd' = fd
    . subst hfd'
      rw [hfree] at howner
      rw [Function.update_self]
      simp only [AcceptorPc.inserts, reduceCtorEq, decide_false, decide_true, Bool.toNat_false,
        Bool.toNat_true, Option.isSome_none, Option.isSome_some] at hset howner ⊢
      omega
    . rw [Function.update_of_ne hfd', ← howner]
      simpa [AcceptorPc.inserts, Ne.symm hfd'] using hset
  entry := by
    intro fd' e he
    rw [hconnections] at he
    rcases hs.entry fd' e he with ⟨hconn, hfd', hid⟩
    rw [haccepted]
    exact ⟨hconn, hfd', getElem?_append_of_some hid _⟩
  pending := by
    intro b fd' id h
    rw [hacceptors] at h
    rw [haccepted]
    cases getElem?_set_insert h with
    | inl hpc' => cases hpc'; exact ⟨hfd, by simp⟩
    | inr h =>
      rcases hs.pending b fd' id h with ⟨hfd', hid⟩
      exact ⟨hfd', getElem?_append_of_some hid _⟩

theorem Owned.lookup_of_insert {s : Server σ W} (hs : s.Owned) {a : Nat} {fd : Int32} {id : Nat}
    (hpc : s.acceptors[a]? = some (AcceptorPc.insert fd id)) : s.connections.lookup fd = none := by
  have hpos : 0 < s.inserting fd :=
    List.countP_pos_iff.mpr ⟨_, List.mem_of_getElem? hpc, by simp [AcceptorPc.inserts]⟩
  -- An open descriptor has one owner, and this one belongs to the acceptor.
  have howner := hs.owner fd
  have hle := (s.sockets fd).isSome.toNat_le
  rw [← Option.not_isSome_iff_eq_none]
  intro hsome
  rw [hsome] at howner
  simp only [Bool.toNat_true] at howner
  omega

theorem Owned.inserted {s s' : Server σ W} (hs : s.Owned) {a : Nat} {fd : Int32} {id : Nat}
    (hpc : s.acceptors[a]? = some (AcceptorPc.insert fd id))
    (hacceptors : s'.acceptors = s.acceptors.set a (.enqueue fd))
    (hconnections : s'.connections = s.connections.insert fd ⟨id, { fd := fd }⟩)
    (hsockets : s'.sockets = s.sockets) (hhistory : s'.history = s.history) : s'.Owned where
  owner := by
    intro fd'
    have hset := inserting_set hpc (AcceptorPc.enqueue fd) fd'
    have howner := hs.owner fd'
    rw [hsockets, hconnections, inserting, hacceptors]
    by_cases hfd : fd' = fd
    . subst hfd
      rw [hs.lookup_of_insert hpc] at howner
      rw [AList.lookup_insert]
      simp [AcceptorPc.inserts] at hset howner ⊢
      omega
    . rw [AList.lookup_insert_ne hfd]
      simp [AcceptorPc.inserts, Ne.symm hfd] at hset ⊢
      omega
  entry := by
    intro fd' e he
    rw [hconnections] at he
    rw [hhistory]
    by_cases hfd : fd' = fd
    . subst hfd
      rw [AList.lookup_insert] at he
      cases he
      exact ⟨rfl, hs.pending a fd' id hpc⟩
    . rw [AList.lookup_insert_ne hfd] at he
      exact hs.entry fd' e he
  pending := by
    intro b fd' id' h
    rw [hacceptors] at h
    rw [hhistory]
    cases getElem?_set_insert h with
    | inl hpc' => cases hpc'
    | inr h => exact hs.pending b fd' id' h

theorem Owned.closed {s s' : Server σ W} (hs : s.Owned) {fd : Int32} {e : Entry}
    (hentry : s.connections.lookup fd = some e)
    (hconnections : s'.connections = s.connections.erase fd)
    (hsockets : s'.sockets = Function.update s.sockets fd none)
    (hacceptors : s'.acceptors = s.acceptors) (hhistory : s'.history = s.history) : s'.Owned where
  owner := by
    intro fd'
    have howner := hs.owner fd'
    rw [hconnections, hsockets]
    unfold inserting at howner ⊢
    rw [hacceptors]
    by_cases hfd : fd' = fd
    . subst hfd
      have hle := (s.sockets fd').isSome.toNat_le
      rw [hentry] at howner
      rw [AList.lookup_erase, Function.update_self]
      simp only [Option.isSome_some, Bool.toNat_true, Option.isSome_none, Bool.toNat_false]
        at howner ⊢
      omega
    . rw [AList.lookup_erase_ne hfd, Function.update_of_ne hfd]
      exact howner
  entry := by
    intro fd' e' he'
    rw [hconnections] at he'
    rw [hhistory]
    by_cases hfd : fd' = fd
    . rw [hfd, AList.lookup_erase] at he'
      contradiction
    . rw [AList.lookup_erase_ne hfd] at he'
      exact hs.entry fd' e' he'
  pending := by
    rw [hacceptors, hhistory]
    exact hs.pending

theorem Owned.swept {s s' : Server σ W} (hs : s.Owned) (hconnections : s'.connections = ∅)
    (hsockets : ∀ fd, s'.sockets fd
      = if s.connections.entries.any (fun p => p.2.conn.fd = fd) then none else s.sockets fd)
    (hacceptors : s'.acceptors = s.acceptors) (hhistory : s'.history = s.history) : s'.Owned where
  owner := by
    intro fd
    have howner := hs.owner fd
    unfold inserting at howner ⊢
    rw [hacceptors, hconnections, hsockets, AList.lookup_empty]
    split
    . next hany =>
      rcases List.any_eq_true.mp hany with ⟨⟨fd', e⟩, hmem, hfd⟩
      have hentry : s.connections.lookup fd' = some e := AList.mem_lookup_iff.mpr hmem
      have hfd : fd' = fd := by
        rw [← (hs.entry fd' e hentry).1]
        simpa using hfd
      have hle := (s.sockets fd).isSome.toNat_le
      rw [← hfd, hentry] at howner
      rw [hfd] at howner
      simp only [Option.isSome_some, Bool.toNat_true, Option.isSome_none, Bool.toNat_false]
        at howner ⊢
      omega
    . next hany =>
      have hnone : s.connections.lookup fd = none := by
        rw [Option.eq_none_iff_forall_ne_some]
        intro e hentry
        apply hany
        refine List.any_eq_true.mpr ⟨⟨fd, e⟩, AList.mem_lookup_iff.mp hentry, ?_⟩
        simpa using (hs.entry fd e hentry).1
      rw [hnone] at howner
      exact howner
  entry := by
    intro fd e hentry
    rw [hconnections] at hentry
    contradiction
  pending := by
    rw [hacceptors, hhistory]
    exact hs.pending

theorem lookup_insert_key {s : Server σ W} {fd : Int32} {e e' : Entry}
    (hentry : s.connections.lookup fd = some e) (hkey : e'.key = e.key) (fd' : Int32) :
    ((s.connections.insert fd e').lookup fd').map Entry.key
      = (s.connections.lookup fd').map Entry.key := by
  by_cases hfd : fd' = fd
  . rw [hfd, AList.lookup_insert, hentry, Option.map_some, Option.map_some, hkey]
  . rw [AList.lookup_insert_ne hfd]

theorem isSome_insert {s : Server σ W} {fd : Int32} {e : Entry}
    (hentry : s.connections.lookup fd = some e) {e' : Entry} (fd' : Int32) :
    ((s.connections.insert fd e').lookup fd').isSome = (s.connections.lookup fd').isSome := by
  by_cases hfd : fd' = fd
  . rw [hfd, AList.lookup_insert, hentry, Option.isSome_some, Option.isSome_some]
  . rw [AList.lookup_insert_ne hfd]

theorem isSome_update_socket {s : Server σ W} {fd : Int32} {sock : Socket}
    (hsocket : s.sockets fd = some sock) (sock' : Socket) (fd' : Int32) :
    (Function.update s.sockets fd (some sock') fd').isSome = (s.sockets fd').isSome := by
  by_cases hfd : fd' = fd
  . rw [hfd, Function.update_self, hsocket, Option.isSome_some, Option.isSome_some]
  . rw [Function.update_of_ne hfd]

theorem Owned.step {ep : OpenFlowEndpoint σ} (hkeep : KeepsDescriptor ep.dispatch) {s s' : Server σ W}
    {action : Action W} (hs : s.Owned) (h : Step ep s action s') : s'.Owned := by
  cases h with
  | listen => exact hs.worker (fun _ => rfl) (fun _ => rfl) rfl rfl
  | stop => exact hs.worker (fun _ => rfl) (fun _ => rfl) rfl rfl
  | spawnJoinable => exact hs.worker (fun _ => rfl) (fun _ => rfl) rfl rfl
  | spawn =>
    refine hs.congr (fun _ => rfl) (fun _ => rfl) rfl
      (fun _ => by simp [inserting, AcceptorPc.inserts]) (fun a fd id h => ?_)
    rw [List.getElem?_append] at h
    split at h
    . exact h
    . rw [List.getElem?_singleton] at h
      split at h <;> cases h
  | detach => exact hs.worker (fun _ => rfl) (fun _ => rfl) rfl rfl
  | sweep => exact hs.swept rfl (fun _ => rfl) rfl rfl
  | check hpc => exact hs.acceptor hpc rfl rfl (by split <;> rfl) rfl rfl rfl
  | acceptFails hpc => exact hs.acceptor hpc rfl rfl rfl rfl rfl rfl
  | accept hpc hfd hfree => exact hs.accept hpc hfd hfree rfl rfl rfl rfl
  | insert hpc => exact hs.inserted hpc rfl rfl rfl rfl
  | enqueue hpc => exact hs.acceptor hpc rfl rfl rfl rfl rfl rfl
  | pop => exact hs.worker (fun _ => rfl) (fun _ => rfl) rfl rfl
  | top => exact hs.worker (fun _ => rfl) (fun _ => rfl) rfl rfl
  | leave => exact hs.worker (fun _ => rfl) (fun _ => rfl) rfl rfl
  | miss => exact hs.worker (fun _ => rfl) (fun _ => rfl) rfl rfl
  | lookup => exact hs.worker (fun _ => rfl) (fun _ => rfl) rfl rfl
  | recvFails => exact hs.worker (fun _ => rfl) (fun _ => rfl) rfl rfl
  | recv _ _ _ hsocket =>
    exact hs.worker (fun _ => rfl) (isSome_update_socket hsocket _) rfl rfl
  | ingestFails => exact hs.worker (fun _ => rfl) (fun _ => rfl) rfl rfl
  | ingest _ hentry => exact hs.worker (lookup_insert_key hentry rfl) (fun _ => rfl) rfl rfl
  | accepted _ hentry hstep =>
    have hfd := (OpenFlowEndpoint.ingestStep_ret hstep).1
    exact hs.worker (lookup_insert_key hentry (by rw [Entry.key, Entry.key, hfd])) (fun _ => rfl) rfl
      rfl
  | rejected _ hentry hstep =>
    have hfd := (OpenFlowEndpoint.ingestStep_ret hstep).1
    exact hs.worker (lookup_insert_key hentry (by rw [Entry.key, Entry.key, hfd])) (fun _ => rfl) rfl
      rfl
  | dispatched _ hentry hstep =>
    have hfd := dispatched_fd hkeep hstep
    exact hs.worker (lookup_insert_key hentry (by rw [Entry.key, Entry.key, hfd])) (fun _ => rfl) rfl
      rfl
  | @close i count fd e hpc hentry =>
    rcases hs.entry fd e hentry with ⟨hconn, hfd, _⟩
    have hopen : e.conn.fd ≥ 0 := by
      rw [hconn]
      exact Int32.not_lt.mp hfd
    exact hs.closed hentry rfl (by rw [if_pos hopen, hconn]) rfl rfl
  | waitForEvent => exact hs.worker (fun _ => rfl) (fun _ => rfl) rfl rfl
  | send hsocket => exact hs.worker (fun _ => rfl) (isSome_update_socket hsocket _) rfl rfl
  | hangUp hsocket => exact hs.worker (fun _ => rfl) (isSome_update_socket hsocket _) rfl rfl
  | reset hsocket => exact hs.worker (fun _ => rfl) (isSome_update_socket hsocket _) rfl rfl

end Server

end Oflib
