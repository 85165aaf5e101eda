import NetOrc.Southbound.Safety

/-!
This module counts the default flows that the HELLO frames of a connection leave in the flow table and
in the database.
-/

namespace NetOrc

open Framing
open Oflib

def IsDefaultFlow (entry : FlowEntry) : Prop := entry.inPort = 1 ∧ entry.actionOutputPort = 2

/--
From `w` to `w'`, exactly `n` default flows were added for the descriptor, each with its `saveFlow`
call.
-/
def AddsDefaultFlows (fd : Int32) (n : Nat) (w w' : Services) : Prop :=
  (∃ added : List FlowEntry, added.length = n ∧ (∀ entry ∈ added, IsDefaultFlow entry)
      ∧ w'.flows.getFlows (dpidOf fd) = w.flows.getFlows (dpidOf fd) ++ added)
    ∧ w'.db.calls = w.db.calls ++ List.replicate n ⟨dpidOf fd, 1, 2⟩

theorem AddsDefaultFlows.refl (fd : Int32) (w : Services) : AddsDefaultFlows fd 0 w w :=
  ⟨⟨[], rfl, by simp, by simp⟩, by simp⟩

theorem AddsDefaultFlows.unique {fd : Int32} {n n' : Nat} {w w' : Services}
    (h : AddsDefaultFlows fd n w w') (h' : AddsDefaultFlows fd n' w w') : n = n' := by
  have hcalls := h.2.symm.trans h'.2
  have hlen := congrArg List.length hcalls
  simpa using hlen

/-! One frame. -/

section
variable (insertFails : Nat → Bool) (junk : Connection → Frame → Services → Uninit)

theorem AddsDefaultFlows.hello {fd : Int32} {n : Nat} {w w' : Services}
    (h : AddsDefaultFlows fd n w w') (payload : Bytes) (junk : Uninit) :
    AddsDefaultFlows fd (n + 1) w
      (PacketHandlers.hello fd payload (services insertFails) junk w').1 := by
  rcases h with ⟨⟨added, hlen, hdefault, hflows⟩, hcalls⟩
  refine ⟨⟨added ++ [{ inPort := 1, actionOutputPort := 2, tpSrc := junk.tpSrc, tpDst := junk.tpDst }],
    by simp [hlen], ?_, ?_⟩, ?_⟩
  . intro entry hentry
    cases List.mem_append.mp hentry with
    | inl hold => exact hdefault entry hold
    | inr hnew => rw [List.mem_singleton.mp hnew]; exact ⟨rfl, rfl⟩
  . rw [← List.append_assoc, ← hflows]
    unfold PacketHandlers.hello services addFlow
    dsimp only
    rw [FlowManager.getFlows_pushFlow, if_pos rfl]
  . unfold PacketHandlers.hello services addFlow
    dsimp only
    rw [DatabaseService.saveFlow_calls, hcalls, List.append_assoc, List.replicate_succ']
    rfl

theorem AddsDefaultFlows.packetIn {fd fd' : Int32} {n : Nat} {w w' : Services}
    (h : AddsDefaultFlows fd n w w') (payload : Bytes) (junk : Uninit) :
    AddsDefaultFlows fd n w
      (PacketHandlers.packetIn fd' payload (services insertFails) junk w').1 := by
  rw [packetIn_eq]
  split
  . split
    . exact h
    . exact h
  . exact h

theorem AddsDefaultFlows.dispatch {fd : Int32} {w : Services} {w' : Services × List Event}
    {log : List Dispatched} {conn : Connection} {d : Dispatched} (hfd : conn.fd = fd)
    (h : AddsDefaultFlows fd (log.countP (fun d => d.type = .hello)) w w'.1) :
    AddsDefaultFlows fd ((log ++ [d]).countP (fun d => d.type = .hello)) w
      ((serverDispatch (sbiEndpoint (services insertFails) junk) d.type).call conn d.frame w').world.1
      := by
  rw [serverDispatch_world, sbiEndpoint_call, List.countP_append, List.countP_singleton]
  by_cases hhello : d.type = .hello
  . rw [if_pos hhello, if_pos (by simpa using hhello)]
    subst hfd
    exact h.hello insertFails d.frame.body (junk conn d.frame w'.1)
  . rw [if_neg hhello, if_neg (by simpa using hhello), Nat.add_zero]
    split
    . exact h.packetIn insertFails _ _
    . exact h

end

/-! A whole stream. -/

/--
The frames that come before the first one that is rejected, or whose handler throws.
-/
def handledFrames (valid : PacketType → Frame → Bool) (fs : List Frame) : List Frame :=
  fs.takeWhile (fun f => valid f.type f ∧ lldpFault f.type f = none)

theorem countP_hello_handledFrames (valid : PacketType → Frame → Bool) (state : SessionState)
    (fs : List Frame) :
    (dispatches valid lldpFault state fs).countP (fun d => d.type = .hello)
      =
    (handledFrames valid fs).countP (fun f => f.type = .hello) := by
  induction fs generalizing state with
  | nil => rfl
  | cons f fs ih =>
    unfold dispatches handledFrames
    by_cases hvalid : valid f.type f
    . rw [if_pos hvalid]
      cases hfault : lldpFault f.type f with
      | some e =>
        have hpacketIn : f.type = .packetIn := by
          unfold lldpFault at hfault
          split at hfault
          . next h => exact h.1
          . contradiction
        rw [List.takeWhile_cons_of_neg (by simp [hfault])]
        simp [hpacketIn, PacketType.packetIn, PacketType.hello]
      | none =>
        have ih := ih (state.advance f.type)
        unfold handledFrames at ih
        rw [List.takeWhile_cons_of_pos (by simp [hvalid, hfault])]
        simp only [List.countP_cons, ih]
    . rw [if_neg hvalid, List.takeWhile_cons_of_neg (by simp [hvalid])]
      rfl

theorem handledFrames_of_valid {valid : PacketType → Frame → Bool} {fs : List Frame}
    (hvalid : ∀ f ∈ fs, valid f.type f) :
    handledFrames valid fs = fs.takeWhile (fun f => lldpFault f.type f = none) := by
  unfold handledFrames
  induction fs with
  | nil => rfl
  | cons f fs ih =>
    have ih := ih (fun g hg => hvalid g (by simp [hg]))
    rw [List.takeWhile_cons, List.takeWhile_cons, ih]
    simp [hvalid f (by simp)]

/--
A connection that sends valid frames, in any chunking, leaves exactly one default flow and exactly one
`saveFlow` call exactly if there is exactly one HELLO before the first frame whose handler throws.
-/
theorem sbiIngestChunks_addsDefaultFlow_iff (insertFails : Nat → Bool)
    (junk : Connection → Frame → Services → Uninit) (fd : Int32) (hfd : 0 ≤ fd)
    (state : SessionState) (fs : List Frame)
    (hvalid : ∀ f ∈ fs, f.WellFormed
      ∧ (sbiEndpoint (services insertFails) junk).runValidator f.type f)
    (chunks : List Bytes) (hne : ∀ c ∈ chunks, c ≠ [])
    (hcut : chunks.flatten = frameEncoding.stream fs) (w : Services × List Event) :
    AddsDefaultFlows fd 1 w.1
        (sbiIngestChunks (services insertFails) junk { fd := fd, state := state } chunks w).world.1
      ↔
    (fs.takeWhile (fun f => lldpFault f.type f = none)).countP (fun f => f.type = .hello) = 1 := by
  have hkeep := serverDispatch_keepsConnection (sbiEndpoint_keepsConnection (services insertFails) junk)
  have hfaults := serverDispatch_faultsBy (sbiEndpoint_faultsBy (services insertFails) junk)
  have hadds := OpenFlowEndpoint.ingestChunksWith_invariant
    (sbiEndpoint (services insertFails) junk)
    (motive := fun w' log => AddsDefaultFlows fd (log.countP (fun d => d.type = .hello)) w.1 w'.1)
    hkeep hfaults (fun _ _ _ _ hconn h => h.dispatch insertFails junk hconn)
    { fd := fd, state := state } rfl hfd chunks hne w [] (AddsDefaultFlows.refl fd w.1)
  have hdescribes := sbiIngestChunks_describes (services insertFails) junk
    { fd := fd, state := state } hfd framer_carve_nil hne w
  have hsplit := Encoding.split_stream (E := frameEncoding) (fun f hf => (hvalid f hf).1)
    framer_carve_nil
  have hlog : (sbiIngestChunks (services insertFails) junk { fd := fd, state := state } chunks
      w).dispatched
        = dispatches (sbiEndpoint (services insertFails) junk).runValidator lldpFault state fs := by
    rw [hdescribes.eqs.2.2, drain_log, hcut, List.nil_append, List.nil_append, hsplit]
  have hadds : AddsDefaultFlows fd
      ((sbiIngestChunks (services insertFails) junk { fd := fd, state := state } chunks
        w).dispatched.countP (fun d => d.type = .hello)) w.1 _ := hadds
  rw [hlog, countP_hello_handledFrames, handledFrames_of_valid (fun f hf => (hvalid f hf).2)] at hadds
  constructor
  . intro h
    exact hadds.unique h
  . intro hone
    rw [hone] at hadds
    exact hadds

theorem sbiIngestChunks_addsDefaultFlow_hello_echo :
    AddsDefaultFlows 7 1 {}
      (sbiIngestChunks (services (fun _ => false)) (fun _ _ _ => ⟨0, 0, 0⟩) { fd := 7 }
        [[0x01, 0x00, 0x00, 0x08, 0x00, 0x00, 0x00, 0x01],
          [0x01, 0x02, 0x00, 0x08, 0x00, 0x00, 0x00, 0x02]] ({}, [])).world.1 :=
  (sbiIngestChunks_addsDefaultFlow_iff _ _ 7 (by decide) .connected
    [⟨⟨0x01, 0x00, 8, 1⟩, []⟩, ⟨⟨0x01, 0x02, 8, 2⟩, []⟩] (by decide +kernel) _ (by decide)
    (by decide +kernel) ({}, [])).mpr (by decide +kernel)

/--
A second HELLO adds a second default flow and a second row.
-/
theorem sbiIngestChunks_two_hellos :
    let r := sbiIngestChunks (services (fun _ => false)) (fun _ _ _ => ⟨0, 0, 0⟩) { fd := 7 }
      [[0x01, 0x00, 0x00, 0x08, 0x00, 0x00, 0x00, 0x01],
        [0x01, 0x00, 0x00, 0x08, 0x00, 0x00, 0x00, 0x02]] ({}, [])
    (r.world.1.flows.getFlows (dpidOf 7)).map (fun entry => (entry.inPort, entry.actionOutputPort))
        = [(1, 2), (1, 2)]
      ∧ r.world.1.db.calls = [⟨dpidOf 7, 1, 2⟩, ⟨dpidOf 7, 1, 2⟩]
      ∧ ¬AddsDefaultFlows 7 1 {} r.world.1 := by
  intro r
  have hcalls : r.world.1.db.calls = [⟨dpidOf 7, 1, 2⟩, ⟨dpidOf 7, 1, 2⟩] := by decide +kernel
  refine ⟨by decide +kernel, hcalls, fun hone => ?_⟩
  have hlen := congrArg List.length hone.2
  rw [hcalls] at hlen
  contradiction

end NetOrc
