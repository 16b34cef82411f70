import SampleTools.Tcp.ReadLoop

/-!
# The gateway server `XTcpServer`

`XTcpServer::OnRead` frames the stream by itself: it waits for a whole message, removes
the head and the options, and leaves the body to the arm of the message type. The arms
of subscribe and unsubscribe are empty and leave the body in the buffer. A heartbeat is
answered with the request's own head, its type and option length replaced.

## Main definitions

* `iterate`: one round of the loop, `Iteration` its record
* `onRead`, `Conn.arrive`: the callback, and the life of a connection
* `requestExtractor`: the frames the rounds find, when the arms skip what they skip
* `served`: the frames a connection serves, given all it received

## Main results

* `iterate_eq`: a round against the frame at the front of the buffer
* `serve_eq`: the rounds of a connection depend on its stream only
-/

namespace SampleTools

open LittleEndian Memory

/-- `SDSMsgType`, the values the server tells apart or writes. -/
inductive SDSMsgType
  | heartBeat
  | heartBeatAns
  | subscribe
  | unsubscribe
  deriving DecidableEq, Repr

/-- The enumeration values. -/
def SDSMsgType.val : SDSMsgType → UInt16
  | .heartBeat => 101
  | .heartBeatAns => 102
  | .subscribe => 105
  | .unsubscribe => 106

/-- `OptionRequestId`: a packed option with a 64-bit payload. -/
structure OptionRequestId where
  optionId : UInt16 := OptionId.reqId.toU16
  optionSize : UInt16 := 8
  optionBuf : Int64 := 0

/-- `sizeof(OptionRequestId)`. -/
def optionRequestIdSize : ℕ := 12

def OptionRequestId.bytes (r : OptionRequestId) : List UInt8 :=
  u16Bytes r.optionId ++ u16Bytes r.optionSize ++ i64Bytes r.optionBuf

/-- `evbuffer_drain`. -/
def evbufferDrain (input : List UInt8) (n : ℕ) : List UInt8 := input.drop n

namespace XTcpServer

/-- One round of the loop of `OnRead`: the buffer before and after it, the head it took
out, its reads in the option buffer, what it wrote, and whether it closed the
connection. -/
structure Iteration where
  before : List UInt8
  head : MsgHead
  optReads : List Access
  after : List UInt8
  output : List UInt8
  closed : Bool

/-- The head of a heartbeat's answer. -/
def replyHead (head : MsgHead) : MsgHead :=
  { head with
    msgtype := SDSMsgType.heartBeatAns.val, optslen := UInt16.ofNat optionRequestIdSize }

/-- The option of a heartbeat's answer. -/
def serverTime (now : Int64) : OptionRequestId :=
  { optionId := OptionId.serverTime.toU16, optionBuf := now }

/-- One round of the loop of `OnRead`; `none` where it returns to wait for more input. -/
def iterate (now : Int64) (input : List UInt8) : Option Iteration :=
  let len := input.length
  if len < msgHeadSize then none
  else
    let headp := MsgHead.ofBytes input
    let msgTotalLen := msgHeadSize + headp.optslen.toNat + headp.datalen.toNat
    if len < msgTotalLen then none
    else
      let (headBytes, rest) := evbufferRemove input msgHeadSize
      let head := MsgHead.ofBytes headBytes
      if head.version = 1 then
        -- the connection is closed, the rest of the message stays
        some ⟨input, head, [], rest, [], true⟩
      else
        let (optReads, rest) :=
          if head.optslen ≠ 0 then
            -- `opt_req_id` is read from the block, however short it is
            ([⟨0, optionRequestIdSize⟩], (evbufferRemove rest head.optslen.toNat).2)
          else ([], rest)
        if head.msgtype = SDSMsgType.heartBeat.val then
          let rest := evbufferDrain rest head.datalen.toNat
          some ⟨input, head, optReads, rest,
            (replyHead head).bytes ++ (serverTime now).bytes, false⟩
        else if head.msgtype = SDSMsgType.subscribe.val then
          -- the arm is empty: the body stays in the buffer
          some ⟨input, head, optReads, rest, [], false⟩
        else if head.msgtype = SDSMsgType.unsubscribe.val then
          some ⟨input, head, optReads, rest, [], false⟩
        else
          let rest := evbufferDrain rest head.datalen.toNat
          some ⟨input, head, optReads, rest, [], false⟩

/-- The arms that leave the body of a message in the buffer. -/
def SkipsBody (head : MsgHead) : Prop :=
  head.msgtype = SDSMsgType.subscribe.val ∨ head.msgtype = SDSMsgType.unsubscribe.val

instance (head : MsgHead) : Decidable (SkipsBody head) :=
  inferInstanceAs (Decidable (_ ∨ _))

/-- A round, given the frame at the front of the buffer. -/
def iterationOf (now : Int64) (f : Frame) (rest : List UInt8) : Iteration where
  before := f.bytes ++ rest
  head := f.head
  optReads := if f.head.version ≠ 1 ∧ f.head.optslen ≠ 0 then [⟨0, optionRequestIdSize⟩] else []
  after :=
    if f.head.version = 1 then f.opts ++ f.data ++ rest
    else if SkipsBody f.head then f.data ++ rest else rest
  output :=
    if f.head.version ≠ 1 ∧ f.head.msgtype = SDSMsgType.heartBeat.val then
      (replyHead f.head).bytes ++ (serverTime now).bytes
    else []
  closed := f.head.version = 1

/-- The round is determined by the frame it finds. -/
theorem iterate_eq (now : Int64) (input : List UInt8) :
    iterate now input = (takeFrame input).map fun p => iterationOf now p.1 p.2 := by
  cases hf : takeFrame input with
  | none =>
    simp only [takeFrame] at hf
    split at hf
    · rename_i hlen
      by_cases hhead : input.length < msgHeadSize
      · simp [iterate, hhead]
      · simp [iterate, hhead, hlen]
    · cases hf
  | some p =>
    obtain ⟨f, rest⟩ := p
    obtain ⟨hv, rfl⟩ := takeFrame_eq_some_iff.mp hf
    have hlen : (f.bytes ++ rest).length =
        msgHeadSize + f.opts.length + f.data.length + rest.length := by
      simp
    -- where the parts of the frame stand in the buffer
    have hhead : MsgHead.ofBytes (f.bytes ++ rest) = f.head := by
      rw [Frame.bytes, List.append_assoc, List.append_assoc, MsgHead.ofBytes_bytes]
    have htake : (f.bytes ++ rest).take msgHeadSize = f.head.bytes := by
      rw [Frame.bytes, List.append_assoc, List.append_assoc, ← f.head.bytes_length,
        List.take_left]
    have hhead' : MsgHead.ofBytes f.head.bytes = f.head := by
      simpa using f.head.ofBytes_bytes []
    have hdrop : (f.bytes ++ rest).drop msgHeadSize = f.opts ++ (f.data ++ rest) := by
      rw [Frame.bytes, List.append_assoc, List.append_assoc, ← f.head.bytes_length,
        List.drop_left]
    have hopts : (if f.head.optslen ≠ 0 then
        ([⟨0, optionRequestIdSize⟩],
          (evbufferRemove (f.opts ++ (f.data ++ rest)) f.head.optslen.toNat).2)
        else (([] : List Access), f.opts ++ (f.data ++ rest))) =
        (if f.head.optslen ≠ 0 then [⟨0, optionRequestIdSize⟩] else [], f.data ++ rest) := by
      by_cases ho : f.head.optslen = 0
      · have : f.opts = [] := List.length_eq_zero_iff.mp (by rw [hv.1, ho]; rfl)
        simp [ho, this]
      · simp only [ho, ne_eq, not_false_eq_true, if_true, evbufferRemove, ← hv.1, List.drop_left]
    have hdrain : evbufferDrain (f.data ++ rest) f.head.datalen.toNat = rest := by
      rw [evbufferDrain, ← hv.2, List.drop_left]
    have hnot₁ : ¬ (f.bytes ++ rest).length < msgHeadSize := by omega
    have hnot₂ : ¬ (f.bytes ++ rest).length <
        msgHeadSize + f.head.optslen.toNat + f.head.datalen.toNat := by
      rw [← hv.1, ← hv.2]
      omega
    simp only [iterate, hhead, if_neg hnot₁, if_neg hnot₂, evbufferRemove, htake, hhead', hdrop,
      Option.map_some]
    simp only [evbufferRemove] at hopts
    rw [hopts]
    -- one case for each arm
    simp only [hdrain, iterationOf, SkipsBody]
    by_cases hver : f.head.version = 1
    · simp [hver]
    · by_cases hbeat : f.head.msgtype = SDSMsgType.heartBeat.val
      · have hne₁ : SDSMsgType.heartBeat.val ≠ SDSMsgType.subscribe.val := by decide
        have hne₂ : SDSMsgType.heartBeat.val ≠ SDSMsgType.unsubscribe.val := by decide
        simp [hver, hbeat, hne₁, hne₂]
      · by_cases hsub : f.head.msgtype = SDSMsgType.subscribe.val
        · have hne : SDSMsgType.subscribe.val ≠ SDSMsgType.heartBeat.val := by decide
          simp [hver, hsub, hne]
        · by_cases hunsub : f.head.msgtype = SDSMsgType.unsubscribe.val
          · have hne : SDSMsgType.unsubscribe.val ≠ SDSMsgType.heartBeat.val := by decide
            have hne' : SDSMsgType.unsubscribe.val ≠ SDSMsgType.subscribe.val := by decide
            simp [hver, hunsub, hne, hne']
          · simp [hver, hbeat, hsub, hunsub]

/-! ## The callback and the connection -/

theorem iterate_shorter {now : Int64} {input : List UInt8} {it : Iteration}
    (h : iterate now input = some it) : it.after.length < input.length := by
  rw [iterate_eq, Option.map_eq_some_iff] at h
  obtain ⟨⟨f, rest⟩, hf, rfl⟩ := h
  obtain ⟨-, rfl⟩ := takeFrame_eq_some_iff.mp hf
  simp only [iterationOf]
  split
  · simp only [List.length_append, Frame.bytes_length, msgHeadSize]
    omega
  · split <;>
    · simp only [List.length_append, Frame.bytes_length, msgHeadSize]
      omega

/-- A connection: the rounds run for it, its input buffer, and whether it is closed. -/
structure Conn where
  iters : List Iteration := []
  input : List UInt8 := []
  closed : Bool := false

/-- `OnRead` on a buffer; `now n` is what `time(0)` gives in round `n`. -/
def onRead (now : ℕ → Int64) (input : List UInt8) : Conn :=
  match _h : iterate (now 0) input with
  | none => { input := input }
  | some it =>
    if it.closed then { iters := [it], input := it.after, closed := true }
    else
      let next := onRead (fun n => now (n + 1)) it.after
      { next with iters := it :: next.iters }
termination_by input.length
decreasing_by exact iterate_shorter _h

/-- Bytes that arrive, with the clock of the callback that follows. -/
structure Arrival where
  now : ℕ → Int64
  bytes : List UInt8

/-- The bytes join the input buffer and `OnRead` runs; a closed connection gets none. -/
def Conn.arrive (c : Conn) (a : Arrival) : Conn :=
  if c.closed then c
  else
    let next := onRead a.now (c.input ++ a.bytes)
    { next with iters := c.iters ++ next.iters }

/-- The life of a connection. -/
def serve (arrivals : List Arrival) : Conn := arrivals.foldl Conn.arrive {}

/-- All that was written back on the connection. -/
def Conn.output (c : Conn) : List UInt8 := c.iters.flatMap Iteration.output

theorem onRead_of_none {now : ℕ → Int64} {input : List UInt8} (h : takeFrame input = none) :
    onRead now input = { input := input } := by
  have hit : iterate (now 0) input = none := by rw [iterate_eq, h, Option.map_none]
  rw [onRead]
  split
  · rfl
  · rename_i h'
    rw [hit] at h'
    cases h'

theorem onRead_of_some {now : ℕ → Int64} {input rest : List UInt8} {f : Frame}
    (h : takeFrame input = some (f, rest)) :
    onRead now input =
      let it := iterationOf (now 0) f rest
      if it.closed then { iters := [it], input := it.after, closed := true }
      else
        let next := onRead (fun n => now (n + 1)) it.after
        { next with iters := it :: next.iters } := by
  have hit : iterate (now 0) input = some (iterationOf (now 0) f rest) := by
    rw [iterate_eq, h, Option.map_some]
  rw [onRead]
  split
  · rename_i h'
    rw [hit] at h'
    cases h'
  · rename_i h'
    rw [hit] at h'
    cases h'
    rfl

/-! ## The frames a connection serves -/

/-- The frame a round finds, and what the round leaves in the buffer: the body of a message
stays there where its arm does not remove it. -/
def takeRequest (input : List UInt8) : Option (Frame × List UInt8) :=
  (takeFrame input).map fun p => (p.1, if SkipsBody p.1.head then p.1.data ++ p.2 else p.2)

theorem takeRequest_eq_none_iff {input : List UInt8} :
    takeRequest input = none ↔ takeFrame input = none :=
  Option.map_eq_none_iff

theorem takeRequest_eq_some_iff {input rest' : List UInt8} {f : Frame} :
    takeRequest input = some (f, rest') ↔ ∃ rest, takeFrame input = some (f, rest) ∧
      rest' = if SkipsBody f.head then f.data ++ rest else rest := by
  refine Option.map_eq_some_iff.trans ⟨?_, ?_⟩
  · rintro ⟨⟨g, rest⟩, hg, heq⟩
    cases heq
    exact ⟨rest, hg, rfl⟩
  · rintro ⟨rest, hf, rfl⟩
    exact ⟨(f, rest), hf, rfl⟩

theorem takeRequest_shorter {input rest' : List UInt8} {f : Frame}
    (h : takeRequest input = some (f, rest')) : rest'.length < input.length := by
  obtain ⟨rest, hf, rfl⟩ := takeRequest_eq_some_iff.mp h
  obtain ⟨-, rfl⟩ := takeFrame_eq_some_iff.mp hf
  split
  · simp only [List.length_append, Frame.bytes_length, msgHeadSize]
    omega
  · simp only [List.length_append, Frame.bytes_length, msgHeadSize]
    omega

theorem takeRequest_append {input rest' : List UInt8} {f : Frame} (ys : List UInt8)
    (h : takeRequest input = some (f, rest')) :
    takeRequest (input ++ ys) = some (f, rest' ++ ys) := by
  obtain ⟨rest, hf, rfl⟩ := takeRequest_eq_some_iff.mp h
  refine takeRequest_eq_some_iff.mpr ⟨rest ++ ys, frameExtractor.stable ys hf, ?_⟩
  split
  · rw [List.append_assoc]
  · rfl

/-- Reading a stream as the rounds do. -/
def requestExtractor : Extractor UInt8 Frame where
  next := takeRequest
  shorter := takeRequest_shorter
  stable := takeRequest_append

/-- Up to the first message of version 1, which closes the connection. -/
def untilClosed : List Frame → List Frame
  | [] => []
  | f :: fs => if f.head.version = 1 then [f] else f :: untilClosed fs

/-- The frames a connection serves, when `stream` is all that arrives on it. -/
def served (stream : List UInt8) : List Frame := untilClosed (requestExtractor.drain stream).1

theorem untilClosed_append (fs gs : List Frame) :
    untilClosed (fs ++ gs) =
      if ∃ f ∈ fs, f.head.version = 1 then untilClosed fs else fs ++ untilClosed gs := by
  induction fs with
  | nil => simp
  | cons f fs ih =>
    rw [List.cons_append, untilClosed, untilClosed, ih]
    by_cases h : f.head.version = 1
    · simp [h]
    · simp only [h, if_false, List.mem_cons, exists_eq_or_imp, false_or]
      split <;> simp

/-- The round that serves a frame. -/
def Serves (it : Iteration) (f : Frame) : Prop := f.Valid ∧ ∃ now rest, it = iterationOf now f rest

/-- A connection has served the frames of what it received. -/
structure ServesStream (c : Conn) (stream : List UInt8) : Prop where
  iters : List.Forall₂ Serves c.iters (served stream)
  closed : c.closed = true ↔ ∃ f ∈ (requestExtractor.drain stream).1, f.head.version = 1
  input : c.closed = false → c.input = (requestExtractor.drain stream).2

theorem onRead_serves (now : ℕ → Int64) (input : List UInt8) :
    ServesStream (onRead now input) input := by
  induction input using requestExtractor.drain_induction generalizing now with
  | stop input h =>
    rw [onRead_of_none (takeRequest_eq_none_iff.mp h)]
    have hdrain := Extractor.drain_of_none h
    refine ⟨?_, ?_, fun _ => by rw [hdrain]⟩
    · rw [served, hdrain]
      exact .nil
    · simp [hdrain]
  | step input f rest' h ih =>
    have hdrain := Extractor.drain_of_some h
    obtain ⟨rest, hf, hrest⟩ := takeRequest_eq_some_iff.mp h
    have hserves : Serves (iterationOf (now 0) f rest) f :=
      ⟨(takeFrame_eq_some_iff.mp hf).1, _, _, rfl⟩
    rw [onRead_of_some hf]
    by_cases hver : f.head.version = 1
    -- the round closes the connection, and nothing more is served
    · have hclosed : (iterationOf (now 0) f rest).closed = true := by simp [iterationOf, hver]
      simp only [hclosed, if_true]
      refine ⟨?_, ?_, fun hopen => by cases hopen⟩
      · rw [served, hdrain, untilClosed, if_pos hver]
        exact .cons hserves .nil
      · simp [hdrain, hver]
    -- the round leaves what the extractor leaves, and the loop goes on
    · have hopen : (iterationOf (now 0) f rest).closed = false := by simp [iterationOf, hver]
      have hafter : (iterationOf (now 0) f rest).after = rest' := by
        rw [hrest, iterationOf, if_neg hver]
      obtain ⟨hiters, hclosed, hinput⟩ := ih fun n => now (n + 1)
      simp only [hopen, Bool.false_eq_true, if_false, hafter]
      refine ⟨?_, ?_, fun h' => by rw [hinput h', hdrain]⟩
      · rw [served, hdrain, untilClosed, if_neg hver]
        exact .cons hserves hiters
      · simp [hdrain, hver, hclosed]

/-- What joins the buffer is served like the rest of the stream. -/
theorem ServesStream.arrive {c : Conn} {xs : List UInt8} (h : ServesStream c xs) (a : Arrival) :
    ServesStream (c.arrive a) (xs ++ a.bytes) := by
  have hdrain := requestExtractor.drain_append xs a.bytes
  cases hc : c.closed with
  | true =>
    -- closed before: what arrives is not read
    have hver := h.closed.mp hc
    rw [Conn.arrive, hc, if_pos rfl]
    refine ⟨?_, ?_, fun hopen => by rw [hc] at hopen; cases hopen⟩
    · rw [served, hdrain, untilClosed_append, if_pos hver]
      exact h.iters
    · obtain ⟨f, hf, hver⟩ := hver
      rw [hdrain, hc]
      exact ⟨fun _ => ⟨f, List.mem_append_left _ hf, hver⟩, fun _ => rfl⟩
  | false =>
    -- still open: no version 1 so far, and the buffer holds what the drain left
    have hver : ¬ ∃ f ∈ (requestExtractor.drain xs).1, f.head.version = 1 := by
      rw [← h.closed, hc]
      exact Bool.false_ne_true
    have hnone : untilClosed (requestExtractor.drain xs).1 = (requestExtractor.drain xs).1 := by
      simpa [hver, untilClosed] using untilClosed_append (requestExtractor.drain xs).1 []
    obtain ⟨hiters, hclosed, hinput⟩ := onRead_serves a.now (c.input ++ a.bytes)
    rw [h.input hc] at hiters hclosed hinput
    rw [Conn.arrive, hc, if_neg Bool.false_ne_true, h.input hc]
    refine ⟨?_, ?_, fun h' => by rw [hdrain]; exact hinput h'⟩
    · rw [served, hdrain, untilClosed_append, if_neg hver]
      exact List.rel_append (hnone ▸ h.iters) hiters
    · rw [hdrain]
      refine hclosed.trans ?_
      simp only [List.mem_append, or_and_right, exists_or, hver, false_or]

/-- However the stream arrives, the connection serves the frames of the stream. -/
theorem serve_eq (arrivals : List Arrival) :
    ServesStream (serve arrivals) (arrivals.map Arrival.bytes).flatten := by
  induction arrivals using List.reverseRecOn with
  | nil =>
    have h := onRead_serves (fun _ => 0) []
    rwa [onRead_of_none rfl] at h
  | append_singleton as a ih =>
    have hlast : serve (as ++ [a]) = (serve as).arrive a := by
      rw [serve, List.foldl_append, List.foldl_cons, List.foldl_nil, serve]
    rw [hlast, List.map_append, List.flatten_append]
    simpa using ih.arrive a

end XTcpServer

end SampleTools
