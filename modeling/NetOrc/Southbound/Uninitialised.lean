import NetOrc.Southbound.DefaultFlow
import NetOrc.Southbound.Effects

/-!
This module compares runs that differ in the starting values of uninitialised scalars: `ttl` of the LLDP
neighbor, `tp_src` and `tp_dst` of the flow entries.
-/

namespace NetOrc

open Framing
open Oflib

namespace LLDPParser

/--
The payload makes no difference between starting values of `ttl`.
-/
def TtlIndependent (payload : Bytes) : Prop :=
  ∀ ttl ttl' neighbor neighbor', parse payload ttl = .ok neighbor → parse payload ttl' = .ok neighbor' →
    neighbor = neighbor'

theorem describe_eq_iff (ts : List Tlv.Entry) (ttl ttl' : UInt16) :
    describe { ttl := ttl } ts = describe { ttl := ttl' } ts
      ↔
    ttl = ttl' ∨ ∃ t ∈ ts, isTimeToLive t := by
  rw [← Tlv.lastValue_isSome_iff]
  unfold describe
  cases Tlv.lastValue isTimeToLive ts <;> simp

theorem ttlIndependent_iff (payload : Bytes) :
    TtlIndependent payload
      ↔
    (∃ t ∈ tlvs payload, EmptyId t) ∨ ∃ t ∈ tlvs payload, isTimeToLive t := by
  unfold TtlIndependent
  simp only [parse_eq]
  by_cases hempty : ∃ t ∈ tlvs payload, EmptyId t
  . simp [hempty]
  . simp only [hempty, if_false, false_or, Except.ok.injEq]
    constructor
    . intro h
      have hdescribe := (describe_eq_iff (tlvs payload) 0 1).mp (h 0 1 _ _ rfl rfl)
      exact hdescribe.resolve_left (by decide)
    . rintro httl ttl ttl' neighbor neighbor' rfl rfl
      exact (describe_eq_iff (tlvs payload) ttl ttl').mpr (.inr httl)

end LLDPParser

/-! The flow tables. -/

def AddsFlows (fd : Int32) (js : List Uninit) (w w' : Services) : Prop :=
  ∀ dpid, w'.flows.getFlows dpid
    = w.flows.getFlows dpid ++ if dpid = dpidOf fd then js.map defaultFlow else []

theorem AddsFlows.dispatch {insertFails : Nat → Bool} {junk : Connection → Frame → Services → Uninit}
    {conn : Connection} {js : List Uninit} {w w' : Services} (h : AddsFlows conn.fd js w w')
    (type : PacketType) (frame : Frame) :
    AddsFlows conn.fd (js ++ if type = .hello then [junk conn frame w'] else []) w
      (((sbiEndpoint (services insertFails) junk).dispatch type).call conn frame w').world := by
  intro dpid
  rw [sbiEndpoint_getFlows, h dpid]
  by_cases hdpid : dpid = dpidOf conn.fd
  . by_cases hhello : type = .hello
    . simp [hdpid, hhello]
    . simp [hdpid, hhello]
  . simp [hdpid]

structure JunkOf (junk : Connection → Frame → Services → Uninit) (log : List Dispatched)
    (js : List Uninit) : Prop where
  length_eq : js.length = log.countP (fun d => d.type = .hello)
  junk_eq : ∀ j ∈ js, ∃ conn frame w, j = junk conn frame w

theorem JunkOf.append {junk : Connection → Frame → Services → Uninit} {log : List Dispatched}
    {js : List Uninit} (h : JunkOf junk log js) (d : Dispatched) (conn : Connection) (w : Services) :
    JunkOf junk (log ++ [d]) (js ++ if d.type = .hello then [junk conn d.frame w] else []) where
  length_eq := by
    rw [List.length_append, List.countP_append, List.countP_singleton, h.length_eq]
    by_cases hhello : d.type = .hello
    . simp [hhello]
    . simp [hhello]
  junk_eq := by
    intro j hj
    rcases List.mem_append.mp hj with hj | hj
    . exact h.junk_eq j hj
    . split at hj
      . exact ⟨conn, d.frame, w, List.mem_singleton.mp hj⟩
      . simp at hj

theorem sbiIngestChunks_addsFlows (insertFails : Nat → Bool)
    (junk : Connection → Frame → Services → Uninit) {conn : Connection} (hfd : 0 ≤ conn.fd)
    {chunks : List Bytes} (hne : ∀ c ∈ chunks, c ≠ []) (w : Services × List Event) :
    let r := sbiIngestChunks (services insertFails) junk conn chunks w
    ∃ js, JunkOf junk r.dispatched js ∧ AddsFlows conn.fd js w.1 r.world.1 := by
  have hkeep := serverDispatch_keepsConnection (sbiEndpoint_keepsConnection (services insertFails) junk)
  have hfaults := serverDispatch_faultsBy (sbiEndpoint_faultsBy (services insertFails) junk)
  apply OpenFlowEndpoint.ingestChunksWith_invariant (sbiEndpoint (services insertFails) junk)
    (motive := fun w' log => ∃ js, JunkOf junk log js ∧ AddsFlows conn.fd js w.1 w'.1)
    hkeep hfaults ?_ conn rfl hfd chunks hne w [] ⟨[], ⟨rfl, by simp⟩, by simp [AddsFlows]⟩
  rintro conn' d w' log hconn ⟨js, hjunk, hadds⟩
  rw [← hconn] at hadds ⊢
  refine ⟨_, hjunk.append d conn' w'.1, ?_⟩
  rw [serverDispatch_world]
  exact hadds.dispatch d.type d.frame

theorem dispatched_sbiIngestChunks (insertFails : Nat → Bool)
    (junk : Connection → Frame → Services → Uninit) {fd : Int32} (hfd : 0 ≤ fd) (state : SessionState)
    {fs : List Frame} (hfs : ∀ f ∈ fs, f.WellFormed) {chunks : List Bytes} (hne : ∀ c ∈ chunks, c ≠ [])
    (hcut : chunks.flatten = frameEncoding.stream fs) (w : Services × List Event) :
    (sbiIngestChunks (services insertFails) junk { fd := fd, state := state } chunks w).dispatched
      =
    dispatches (sbiEndpoint (services insertFails) junk).runValidator lldpFault state fs := by
  have hdescribes := sbiIngestChunks_describes (services insertFails) junk
    { fd := fd, state := state } hfd framer_carve_nil hne w
  rw [hdescribes.eqs.2.2, drain_log, hcut, List.nil_append, List.nil_append,
    Encoding.split_stream (E := frameEncoding) hfs framer_carve_nil]

/--
The frames of a connection make no difference between uninitialised values in any flow table.
-/
def FlowsIndependent (insertFails : Nat → Bool) (conn : Connection) (chunks : List Bytes)
    (w : Services × List Event) : Prop :=
  ∀ junk junk' dpid,
    (sbiIngestChunks (services insertFails) junk conn chunks w).world.1.flows.getFlows dpid
      = (sbiIngestChunks (services insertFails) junk' conn chunks w).world.1.flows.getFlows dpid

theorem flowsIndependent_iff_countP (insertFails : Nat → Bool) {conn : Connection} (hfd : 0 ≤ conn.fd)
    {chunks : List Bytes} (hne : ∀ c ∈ chunks, c ≠ []) (w : Services × List Event) {n : Nat}
    (hcount : ∀ junk, (sbiIngestChunks (services insertFails) junk conn chunks w).dispatched.countP
      (fun d => d.type = .hello) = n) :
    FlowsIndependent insertFails conn chunks w ↔ n = 0 := by
  constructor
  . intro h
    rcases sbiIngestChunks_addsFlows insertFails (fun _ _ _ => ⟨0, 0, 0⟩) hfd hne w with
      ⟨js, hjs, hadds⟩
    rcases sbiIngestChunks_addsFlows insertFails (fun _ _ _ => ⟨1, 1, 1⟩) hfd hne w with
      ⟨js', hjs', hadds'⟩
    have heq := h (fun _ _ _ => ⟨0, 0, 0⟩) (fun _ _ _ => ⟨1, 1, 1⟩) (dpidOf conn.fd)
    rw [hadds, hadds', if_pos rfl, if_pos rfl, List.append_cancel_left_eq] at heq
    rw [← hcount (fun _ _ _ => ⟨0, 0, 0⟩), ← hjs.length_eq, List.length_eq_zero_iff]
    apply List.eq_nil_iff_forall_not_mem.mpr
    intro j hj
    have hflow : defaultFlow j ∈ js'.map defaultFlow := heq ▸ List.mem_map_of_mem hj
    rcases List.mem_map.mp hflow with ⟨j', hj', hflow⟩
    rcases hjs.junk_eq j hj with ⟨_, _, _, rfl⟩
    rcases hjs'.junk_eq j' hj' with ⟨_, _, _, rfl⟩
    simp [defaultFlow] at hflow
  . rintro rfl junk junk' dpid
    have hnone : ∀ junk, (sbiIngestChunks (services insertFails) junk conn chunks
        w).world.1.flows.getFlows dpid = w.1.flows.getFlows dpid := by
      intro junk
      rcases sbiIngestChunks_addsFlows insertFails junk hfd hne w with ⟨js, hjs, hadds⟩
      have hnil : js = [] := List.length_eq_zero_iff.mp (hjs.length_eq.trans (hcount junk))
      rw [hadds, hnil]
      simp
    rw [hnone junk, hnone junk']

/--
What is uninitialised shows in the result of `parse`, exactly if it returns and no TIME_TO_LIVE of 2 bytes
is read, and in the flow tables, exactly if the handler of a HELLO runs.
-/
theorem results_independent_iff (payload : Bytes) (insertFails : Nat → Bool) (fd : Int32) (hfd : 0 ≤ fd)
    (state : SessionState) (fs : List Frame) (hfs : ∀ f ∈ fs, f.WellFormed) (chunks : List Bytes)
    (hne : ∀ c ∈ chunks, c ≠ []) (hcut : chunks.flatten = frameEncoding.stream fs)
    (w : Services × List Event) (junk : Connection → Frame → Services → Uninit) :
    (LLDPParser.TtlIndependent payload
        ↔
      (∃ t ∈ LLDPParser.tlvs payload, LLDPParser.EmptyId t)
        ∨ ∃ t ∈ LLDPParser.tlvs payload, LLDPParser.isTimeToLive t)
      ∧ (FlowsIndependent insertFails { fd := fd, state := state } chunks w
          ↔
        ∀ f ∈ handledFrames (sbiEndpoint (services insertFails) junk).runValidator fs,
          f.type ≠ .hello) := by
  refine ⟨LLDPParser.ttlIndependent_iff payload, ?_⟩
  have hcount : ∀ junk', (sbiIngestChunks (services insertFails) junk' { fd := fd, state := state }
      chunks w).dispatched.countP (fun d => d.type = .hello)
        = (handledFrames (sbiEndpoint (services insertFails) junk).runValidator fs).countP
          (fun f => f.type = .hello) := by
    intro junk'
    rw [dispatched_sbiIngestChunks insertFails junk' hfd state hfs hne hcut w,
      countP_hello_handledFrames, sbiEndpoint_runValidator _ _ (services insertFails) junk]
  rw [flowsIndependent_iff_countP insertFails hfd hne w hcount, List.countP_eq_zero]
  simp

def withTtl : Bytes := [
  0x01, 0x80, 0xc2, 0, 0, 0x0e, 0x02, 0, 0, 0, 0, 1, 0x88, 0xcc,
  0x02, 0x02, 0x07, 0x61, 0x04, 0x02, 0x07, 0x62, 0x06, 0x02, 0x00, 0x78, 0x00, 0x00]

def echoBytes : Bytes := [0x01, 0x02, 0x00, 0x08, 0x00, 0x00, 0x00, 0x01]

theorem results_independent_echo :
    LLDPParser.TtlIndependent withTtl
      ∧ FlowsIndependent (fun _ => false) { fd := 7 } [echoBytes] ({}, []) := by
  have h := results_independent_iff withTtl (fun _ => false) 7 (by decide) .connected
    [⟨⟨0x01, 0x02, 8, 1⟩, []⟩] (by decide +kernel) [echoBytes] (by decide) (by decide +kernel) ({}, [])
    (fun _ _ _ => ⟨0, 0, 0⟩)
  exact ⟨h.1.mpr (.inr (by decide +kernel)), h.2.mpr (by decide +kernel)⟩

def helloBytes : Bytes := [0x01, 0x00, 0x00, 0x08, 0x00, 0x00, 0x00, 0x01]

/--
An LLDPDU that ends after the two ids, and a HELLO: the starting values are what is returned and stored.
-/
theorem results_depend_on_junk :
    (LLDPParser.parse (withTtl.take 22) 0 = .ok ⟨[0x61], [0x62], [], 0⟩
        ∧ LLDPParser.parse (withTtl.take 22) 1 = .ok ⟨[0x61], [0x62], [], 1⟩)
      ∧ ((sbiIngestChunks (services fun _ => false) (fun _ _ _ => ⟨0, 0, 0⟩) { fd := 7 }
            [helloBytes] ({}, [])).world.1.flows.getFlows (dpidOf 7)).map FlowEntry.tpSrc = [0]
      ∧ ((sbiIngestChunks (services fun _ => false) (fun _ _ _ => ⟨80, 80, 0⟩) { fd := 7 }
            [helloBytes] ({}, [])).world.1.flows.getFlows (dpidOf 7)).map FlowEntry.tpSrc = [80]
      ∧ ¬LLDPParser.TtlIndependent (withTtl.take 22)
      ∧ ¬FlowsIndependent (fun _ => false) { fd := 7 } [helloBytes] ({}, []) := by
  have hzero : LLDPParser.parse (withTtl.take 22) 0 = .ok ⟨[0x61], [0x62], [], 0⟩ := by decide +kernel
  have hone : LLDPParser.parse (withTtl.take 22) 1 = .ok ⟨[0x61], [0x62], [], 1⟩ := by decide +kernel
  refine ⟨⟨hzero, hone⟩, by decide +kernel, by decide +kernel, ?_, ?_⟩
  . intro h
    have heq := h 0 1 _ _ hzero hone
    contradiction
  . intro h
    have heq := congrArg (List.map FlowEntry.tpSrc)
      (h (fun _ _ _ => ⟨0, 0, 0⟩) (fun _ _ _ => ⟨80, 80, 0⟩) (dpidOf 7))
    revert heq
    decide +kernel

end NetOrc
