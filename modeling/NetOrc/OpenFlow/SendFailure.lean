import NetOrc.OpenFlow.Send

/-!
This module shows what failing `::send` calls do to the outgoing stream: a frame that was cut off stays
on the wire, and the peer reads the next frame as the rest of it.
-/

namespace Oflib

open Framing

/--
One call of `send_frame`: its message, the number of `::send` calls made before it, its result, and the
bytes that the kernel accepted from it.
-/
structure SendCall where
  message : Message
  start : Nat
  ok : Bool
  written : Bytes
  deriving DecidableEq, Repr

def sendCalls (send : Send) (fd : Int32) (ms : List Message) (st : SendState) :
    List SendCall × SendState :=
  match ms with
  | [] => ([], st)
  | m :: ms =>
    let (ok, st') := sendFrame send st fd m.type m.xid m.body
    let (calls, last) := sendCalls send fd ms st'
    (⟨m, st.calls, ok, st'.wire.drop st.wire.length⟩ :: calls, last)

theorem sendFrames_eq_sendCalls (send : Send) (fd : Int32) (ms : List Message) (st : SendState) :
    sendFrames send fd ms st
      =
    ((sendCalls send fd ms st).1.map SendCall.ok, (sendCalls send fd ms st).2) := by
  induction ms generalizing st with
  | nil => rfl
  | cons m ms ih => simp only [sendFrames, sendCalls, ih, List.map_cons]

def taken (send : Send) (k req : Nat) : Nat :=
  if _hreq : 0 < req then
    if _hn : send k req ≤ 0 then
      0
    else
      (send k req).toNat + taken send (k + 1) (req - (send k req).toNat)
  else
    0
termination_by req

def BoundedCounts (send : Send) : Prop := ∀ k (req : Nat), send k req ≤ req

theorem taken_le {send : Send} (hsend : BoundedCounts send) (k req : Nat) :
    taken send k req ≤ req := by
  fun_induction taken send k req with
  | case1 => omega
  | case2 k req hreq hn ih =>
    have := hsend k req
    omega
  | case3 => omega

theorem sendLoop_taken {send : Send} (hsend : BoundedCounts send) (wire : Bytes) (sent : Nat)
    (st : SendState) :
    (sendLoop send wire sent st).1 = decide (taken send st.calls (wire.length - sent) = wire.length - sent)
      ∧ (sendLoop send wire sent st).2.wire
          = st.wire ++ (wire.drop sent).take (taken send st.calls (wire.length - sent)) := by
  fun_induction sendLoop send wire sent st with
  | case1 sent st hlt n hn =>
    rw [taken, dif_pos (by omega), dif_pos hn]
    simp
    omega
  | case2 sent st hlt n hn ih =>
    have hle := hsend st.calls (wire.length - sent)
    rw [taken, dif_pos (by omega), dif_neg hn]
    rw [show wire.length - sent - n.toNat = wire.length - (sent + n.toNat) by omega]
    constructor
    . rw [ih.1]
      simp only [decide_eq_decide]
      omega
    . rw [ih.2, List.append_assoc, ← List.drop_drop, ← List.take_add]
  | case3 sent st hlt =>
    rw [taken, dif_neg (by omega)]
    simp
    omega

def Message.taken (m : Message) (send : Send) (fd : Int32) (k : Nat) : Nat :=
  if 0 ≤ fd ∧ m.Fits then Oflib.taken send k (encodeFrame m.frame).length else 0

theorem sendFrame_taken {send : Send} (hsend : BoundedCounts send) (fd : Int32) (m : Message)
    (st : SendState) :
    (sendFrame send st fd m.type m.xid m.body).1
        = decide (m.taken send fd st.calls = (encodeFrame m.frame).length)
      ∧ (sendFrame send st fd m.type m.xid m.body).2.wire
          = st.wire ++ (encodeFrame m.frame).take (m.taken send fd st.calls) := by
  unfold Message.taken
  split
  . next h =>
    have hfits : ¬kOFHeaderLen + m.body.length > kOFMaxFrameLen := Nat.not_lt.mpr h.2
    rw [sendFrame, if_neg (Int32.not_lt.mpr h.1), if_neg hfits]
    exact sendLoop_taken hsend (encodeFrame m.frame) 0 st
  . next h =>
    have hrefused : sendFrame send st fd m.type m.xid m.body = (false, st) := by
      by_cases hfd : 0 ≤ fd
      . exact sendFrame_of_not_fits send fd (fun hfits => h ⟨hfd, hfits⟩) st
      . rw [sendFrame, if_pos (Int32.not_le.mp hfd)]
    rw [hrefused]
    constructor
    . rw [eq_comm, decide_eq_false_iff_not, length_encodeFrame]
      unfold kOFHeaderLen
      omega
    . simp

theorem mem_sendCalls {send : Send} (hsend : BoundedCounts send) {fd : Int32} {ms : List Message}
    {st : SendState} {c : SendCall} (hc : c ∈ (sendCalls send fd ms st).1) :
    c.ok = decide (c.message.taken send fd c.start = (encodeFrame c.message.frame).length)
      ∧ c.written = (encodeFrame c.message.frame).take (c.message.taken send fd c.start) := by
  induction ms generalizing st with
  | nil => simp [sendCalls] at hc
  | cons m ms ih =>
    rw [sendCalls, List.mem_cons] at hc
    cases hc with
    | inl hhead =>
      rcases sendFrame_taken hsend fd m st with ⟨hok, hwire⟩
      rw [hhead]
      refine ⟨hok, ?_⟩
      rw [hwire, List.drop_left]
    | inr htail => exact ih htail

theorem sendCalls_wire {send : Send} (hsend : BoundedCounts send) (fd : Int32) (ms : List Message)
    (st : SendState) :
    (sendCalls send fd ms st).2.wire
      =
    st.wire ++ (sendCalls send fd ms st).1.flatMap SendCall.written := by
  induction ms generalizing st with
  | nil => simp [sendCalls]
  | cons m ms ih =>
    have hwire := (sendFrame_taken hsend fd m st).2
    simp only [sendCalls, List.flatMap_cons]
    rw [ih, hwire, List.drop_left, List.append_assoc]

/-! Framed runs. -/

/--
The calls that wrote something are the successful ones, in order, and at most one more at the end.
-/
def Framed (calls : List SendCall) : Prop :=
  ∃ last : Option SendCall,
    calls.filter (fun c => c.written ≠ []) = calls.filter SendCall.ok ++ last.toList

def SendCall.Torn (c : SendCall) : Prop := c.written ≠ [] ∧ ¬c.ok

theorem framed_cons_of_ok {c : SendCall} {cs : List SendCall} (hok : c.ok) (hc : c.written ≠ []) :
    Framed (c :: cs) ↔ Framed cs := by
  simp [Framed, hok, hc]

theorem framed_cons_of_silent {c : SendCall} {cs : List SendCall} (hok : ¬c.ok) (hc : c.written = []) :
    Framed (c :: cs) ↔ Framed cs := by
  simp [Framed, hok, hc]

theorem framed_cons_of_torn {c : SendCall} {cs : List SendCall} (hc : c.Torn)
    (hok : ∀ d ∈ cs, d.ok → d.written ≠ []) :
    Framed (c :: cs) ↔ ∀ d ∈ cs, d.written = [] := by
  unfold Framed
  rw [List.filter_cons_of_pos (by simpa using hc.1), List.filter_cons_of_neg hc.2]
  constructor
  . rintro ⟨last, hlast⟩ d hd
    -- The torn call is not successful, so it is the last one that wrote something.
    cases hsent : cs.filter SendCall.ok with
    | cons e es =>
      rw [hsent, List.cons_append] at hlast
      injection hlast with he _
      have he : c ∈ cs.filter SendCall.ok := by rw [hsent, he]; exact List.mem_cons_self
      exact absurd (List.mem_filter.mp he).2 hc.2
    | nil =>
      rw [hsent, List.nil_append] at hlast
      cases last with
      | none => contradiction
      | some e =>
        injection hlast with _ hrest
        simpa using List.filter_eq_nil_iff.mp hrest d hd
  . intro hquiet
    have hrest : cs.filter (fun d => d.written ≠ []) = [] :=
      List.filter_eq_nil_iff.mpr fun d hd => by simpa using hquiet d hd
    have hsent : cs.filter SendCall.ok = [] :=
      List.filter_eq_nil_iff.mpr fun d hd hd' => hok d hd hd' (hquiet d hd)
    refine ⟨some c, ?_⟩
    rw [hrest, hsent]
    rfl

theorem framed_iff {calls : List SendCall} (hok : ∀ c ∈ calls, c.ok → c.written ≠ []) :
    Framed calls ↔ calls.Pairwise (fun c d => c.Torn → d.written = []) := by
  induction calls with
  | nil => exact ⟨fun _ => .nil, fun _ => ⟨none, rfl⟩⟩
  | cons c cs ih =>
    have hcs : ∀ d ∈ cs, d.ok → d.written ≠ [] := fun d hd => hok d (by simp [hd])
    rw [List.pairwise_cons]
    by_cases htorn : c.Torn
    . rw [framed_cons_of_torn htorn hcs]
      constructor
      . intro hquiet
        refine ⟨fun d hd _ => hquiet d hd, List.pairwise_of_forall_mem_list ?_⟩
        exact fun _ _ d hd _ => hquiet d hd
      . exact fun h d hd => h.1 d hd htorn
    . have hhead : ∀ d ∈ cs, c.Torn → d.written = [] := fun _ _ h => absurd h htorn
      rw [← ih hcs]
      rw [and_iff_right hhead]
      by_cases hc : c.ok
      . exact framed_cons_of_ok hc (hok c (by simp) hc)
      . exact framed_cons_of_silent hc (by simpa [SendCall.Torn, hc] using htorn)

def SendCall.CutOff (send : Send) (fd : Int32) (c : SendCall) : Prop :=
  0 < c.message.taken send fd c.start
    ∧ c.message.taken send fd c.start < (encodeFrame c.message.frame).length

def sentFrames (calls : List SendCall) : List Frame :=
  (calls.filter SendCall.ok).map (fun c => c.message.frame)

theorem flatMap_written_filter (calls : List SendCall) :
    (calls.filter (fun c => c.written ≠ [])).flatMap SendCall.written
      =
    calls.flatMap SendCall.written := by
  induction calls with
  | nil => rfl
  | cons c cs ih =>
    by_cases hc : c.written = []
    . rw [List.filter_cons_of_neg (by simpa using hc), ih, List.flatMap_cons, hc, List.nil_append]
    . rw [List.filter_cons_of_pos (by simpa using hc), List.flatMap_cons, List.flatMap_cons, ih]

theorem encodeFrame_ne_nil (f : Frame) : encodeFrame f ≠ [] := by
  rcases encodeFrame_eq f with ⟨_, _, _, _, _, _, henc, _⟩
  rw [henc]
  exact List.cons_ne_nil _ _

theorem written_of_ok {send : Send} (hsend : BoundedCounts send) {fd : Int32} {ms : List Message}
    {st : SendState} {c : SendCall} (hc : c ∈ (sendCalls send fd ms st).1) (hok : c.ok) :
    c.written = encodeFrame c.message.frame := by
  rcases mem_sendCalls hsend hc with ⟨hok', hwritten⟩
  rw [hok', decide_eq_true_eq] at hok
  rw [hwritten, hok, List.take_length]

theorem taken_fits {m : Message} {send : Send} {fd : Int32} {k : Nat} (h : m.taken send fd k ≠ 0) :
    m.Fits := by
  unfold Message.taken at h
  split at h
  . next hfits => exact hfits.2
  . contradiction

theorem Message.taken_le {send : Send} (hsend : BoundedCounts send) (m : Message) (fd : Int32)
    (k : Nat) : m.taken send fd k ≤ (encodeFrame m.frame).length := by
  unfold Message.taken
  split
  . exact Oflib.taken_le hsend k _
  . omega

theorem written_eq_nil_iff {send : Send} (hsend : BoundedCounts send) {fd : Int32} {ms : List Message}
    {st : SendState} {c : SendCall} (hc : c ∈ (sendCalls send fd ms st).1) :
    c.written = [] ↔ c.message.taken send fd c.start = 0 := by
  rw [(mem_sendCalls hsend hc).2, List.take_eq_nil_iff, or_iff_left (encodeFrame_ne_nil _)]

theorem torn_iff {send : Send} (hsend : BoundedCounts send) {fd : Int32} {ms : List Message}
    {st : SendState} {c : SendCall} (hc : c ∈ (sendCalls send fd ms st).1) :
    c.Torn ↔ c.CutOff send fd := by
  have hle := c.message.taken_le hsend fd c.start
  unfold SendCall.Torn SendCall.CutOff
  rw [ne_eq, written_eq_nil_iff hsend hc, (mem_sendCalls hsend hc).1, decide_eq_true_eq]
  omega

theorem not_ok_of_last {calls : List SendCall} (hok : ∀ c ∈ calls, c.ok → c.written ≠ [])
    {last : Option SendCall}
    (hlast : calls.filter (fun c => c.written ≠ []) = calls.filter SendCall.ok ++ last.toList) :
    ∀ c ∈ last, ¬c.ok := by
  intro c hc hcok
  have hfilter := congrArg (List.filter SendCall.ok) hlast
  have hboth : (calls.filter (fun c => c.written ≠ [])).filter SendCall.ok
      = calls.filter SendCall.ok := by
    rw [List.filter_filter]
    apply List.filter_congr
    intro d hd
    cases hd' : d.ok with
    | false => rfl
    | true => simpa using hok d hd hd'
  rw [hboth, List.filter_append, List.filter_filter] at hfilter
  rw [Option.mem_def.mp hc] at hfilter
  simp [hcok] at hfilter

theorem Framed.wire_eq {send : Send} (hsend : BoundedCounts send) {fd : Int32} {ms : List Message}
    (h : Framed (sendCalls send fd ms {}).1) :
    ∃ f k, f.WellFormed ∧ k < (encodeFrame f).length
      ∧ (sendCalls send fd ms {}).2.wire
          = frameEncoding.stream (sentFrames (sendCalls send fd ms {}).1) ++ (encodeFrame f).take k := by
  rcases h with ⟨last, hlast⟩
  have hok : ∀ c ∈ (sendCalls send fd ms {}).1, c.ok → c.written ≠ [] := by
    intro c hc hok
    rw [written_of_ok hsend hc hok]
    exact encodeFrame_ne_nil _
  have hsent : ((sendCalls send fd ms {}).1.filter SendCall.ok).flatMap SendCall.written
      = frameEncoding.stream (sentFrames (sendCalls send fd ms {}).1) := by
    rw [sentFrames, Encoding.stream, List.flatMap_map]
    apply List.flatMap_congr
    intro c hc
    rcases List.mem_filter.mp hc with ⟨hmem, hcok⟩
    exact written_of_ok hsend hmem hcok
  have hwire := sendCalls_wire hsend fd ms {}
  rw [← flatMap_written_filter, hlast, List.flatMap_append, hsent, List.nil_append] at hwire
  cases hlast' : last with
  | none =>
    rw [hlast'] at hwire
    have hhello : (Message.mk .hello 0 []).Fits := by decide
    exact ⟨_, 0, hhello.wellFormed, by rw [length_encodeFrame]; unfold kOFHeaderLen; omega,
      by simpa using hwire⟩
  | some c =>
    rw [hlast'] at hwire hlast
    have hc : c ∈ (sendCalls send fd ms {}).1.filter (fun c => c.written ≠ []) := by
      rw [hlast]
      simp
    rcases List.mem_filter.mp hc with ⟨hmem, hwritten⟩
    have hcok := not_ok_of_last hok hlast c rfl
    have hcut : c.CutOff send fd := (torn_iff hsend hmem).mp ⟨by simpa using hwritten, hcok⟩
    refine ⟨_, _, (taken_fits (Nat.ne_of_gt hcut.1)).wellFormed, hcut.2, ?_⟩
    rw [hwire]
    simp [(mem_sendCalls hsend hmem).2]

/--
The stream stays framed exactly if, once the kernel has taken a part of a frame and refused the rest, it
takes nothing from the later calls. On a framed stream the peer carves the frames of the successful
calls, and at most a part of one more frame is left.
-/
theorem sendCalls_framed_iff (send : Send) (hsend : BoundedCounts send) (fd : Int32)
    (ms : List Message) :
    let calls := (sendCalls send fd ms {}).1
    (Framed calls
        ↔ calls.Pairwise (fun c d => c.CutOff send fd → d.message.taken send fd d.start = 0))
      ∧ (Framed calls → ∃ f k, k < (encodeFrame f).length
          ∧ (sendFrames send fd ms {}).2.wire
              = frameEncoding.stream (sentFrames calls) ++ (encodeFrame f).take k
          ∧ nextFrames (sendFrames send fd ms {}).2.wire
              = (sentFrames calls, .needMore, (encodeFrame f).take k)) := by
  intro calls
  constructor
  . rw [framed_iff (fun c hc hok => by rw [written_of_ok hsend hc hok]; exact encodeFrame_ne_nil _)]
    apply List.Pairwise.iff_of_mem
    intro c d hc hd
    rw [torn_iff hsend hc, written_eq_nil_iff hsend hd]
  . intro hframed
    rcases hframed.wire_eq hsend with ⟨f, k, hf, hk, hwire⟩
    have hvalid : ∀ g ∈ sentFrames calls, frameEncoding.valid g := by
      intro g hg
      rcases List.mem_map.mp hg with ⟨c, hc, rfl⟩
      rcases List.mem_filter.mp hc with ⟨hmem, hok⟩
      have htaken := (mem_sendCalls hsend hmem).1
      rw [hok, eq_comm, decide_eq_true_eq] at htaken
      have hne : c.message.taken send fd c.start ≠ 0 := by
        rw [htaken, length_encodeFrame]
        unfold kOFHeaderLen
        omega
      exact (taken_fits hne).wellFormed
    rw [sendFrames_eq_sendCalls]
    refine ⟨f, k, hk, hwire, ?_⟩
    rw [hwire]
    apply nextFrames_eq_of_split
    exact Encoding.split_stream_append_take (E := frameEncoding) hvalid hf hk

theorem sendCalls_framed_iff_refused :
    Framed (sendCalls (fun k req => if k = 0 then min 4 req else -1) 7
      [⟨.hello, 1, []⟩, ⟨.hello, 2, []⟩] {}).1 :=
  (sendCalls_framed_iff (fun k req => if k = 0 then min 4 req else -1)
    (fun k req => by dsimp only; split <;> omega) 7 [⟨.hello, 1, []⟩, ⟨.hello, 2, []⟩]).1.mpr
    (by unfold SendCall.CutOff; decide +kernel)

/--
A HELLO that is cut off after 4 bytes, and a second one that is written whole: the peer carves a frame
that was never sent.
-/
theorem sendFrames_tears :
    let send : Send := fun k req => if k = 0 then min 4 req else if k = 1 then -1 else req
    let run := sendFrames send 7 [⟨.hello, 1, []⟩, ⟨.hello, 2, []⟩] {}
    BoundedCounts send ∧ run.1 = [false, true]
      ∧ (¬∃ f k, run.2.wire
          = encodeFrame (Message.frame ⟨.hello, 2, []⟩) ++ (encodeFrame f).take k)
      ∧ nextFrames run.2.wire
          = ([Message.frame ⟨.hello, 0x01000008, []⟩], .needMore, [0x00, 0x00, 0x00, 0x02]) := by
  intro send run
  have hrun : run = ([false, true], ⟨3, [0x01, 0x00, 0x00, 0x08, 0x01, 0x00, 0x00, 0x08, 0x00, 0x00,
      0x00, 0x02]⟩) := by decide +kernel
  rw [hrun]
  refine ⟨fun k req => by dsimp only [send]; split <;> (try split) <;> omega, rfl, ?_,
    by decide +kernel⟩
  rintro ⟨f, k, hwire⟩
  have hhead := congrArg (List.take 8) hwire
  rw [List.take_left' (by decide)] at hhead
  revert hhead
  decide

end Oflib
