import SampleTools.Library.Related
import SampleTools.Linker.XTcpServer

/-!
# What the gateway reads and what it writes back

The server frames its input as `decode_msg_with_head` does except for the bodies of
subscribe and unsubscribe messages, which it leaves in the buffer and takes for the next
message. The head of a heartbeat's answer is the request's, data length included, and no
data is written behind it. Either way one side loses step with the other exactly when
such a message has a body.

## Main results

* `onRead_frames_iff`: when every round removes one whole frame
* `onRead_replies_iff`: when the bytes written back are one whole answer for each heartbeat
-/

namespace SampleTools

open LittleEndian

namespace XTcpServer

/-! ## Whole frames -/

/-- The round removes exactly the message its head announces. -/
def Iteration.WholeFrame (it : Iteration) : Prop :=
  it.after = it.before.drop (msgHeadSize + it.head.optslen.toNat + it.head.datalen.toNat)

instance (it : Iteration) : Decidable it.WholeFrame :=
  inferInstanceAs (Decidable (_ = _))

/-- No body is left in the buffer. -/
def BodyTaken (head : MsgHead) : Prop := SkipsBody head → head.datalen = 0

theorem Serves.head_eq {it : Iteration} {f : Frame} (h : Serves it f) : it.head = f.head := by
  obtain ⟨-, now, rest, rfl⟩ := h
  rfl

theorem Serves.closed_eq {it : Iteration} {f : Frame} (h : Serves it f) :
    it.closed = decide (f.head.version = 1) := by
  obtain ⟨-, now, rest, rfl⟩ := h
  rfl

theorem Serves.wholeFrame_iff {it : Iteration} {f : Frame} (h : Serves it f)
    (hver : f.head.version ≠ 1) : it.WholeFrame ↔ BodyTaken f.head := by
  obtain ⟨hv, now, rest, rfl⟩ := h
  have hdrop : (f.bytes ++ rest).drop
      (msgHeadSize + f.head.optslen.toNat + f.head.datalen.toNat) = rest := by
    rw [← hv.1, ← hv.2, ← f.bytes_length, List.drop_left]
  simp only [Iteration.WholeFrame, BodyTaken, iterationOf, if_neg hver, hdrop]
  by_cases hskip : SkipsBody f.head
  · rw [if_pos hskip, List.append_left_eq_self, ← List.length_eq_zero_iff, hv.2,
      ← UInt32.toNat_inj]
    simp [hskip]
  · simp [hskip]

theorem forall₂_serves_wholeFrame {its : List Iteration} {fs : List Frame}
    (h : List.Forall₂ Serves its fs) :
    (∀ it ∈ its, it.closed = false → it.WholeFrame) ↔
      ∀ f ∈ fs, f.head.version ≠ 1 → BodyTaken f.head := by
  induction h with
  | nil => simp
  | @cons it f its fs hserves _ ih =>
    simp only [List.mem_cons, forall_eq_or_imp, ih, hserves.closed_eq, decide_eq_false_iff_not]
    exact and_congr_left' (forall_congr' hserves.wholeFrame_iff)

/-- Where the body is removed, or there is none, the server goes on where the frame ends. -/
theorem rest_of_bodyTaken {xs rest : List UInt8} {f : Frame} (h : takeFrame xs = some (f, rest))
    (hbody : BodyTaken f.head) : (if SkipsBody f.head then f.data ++ rest else rest) = rest := by
  split
  · rename_i hskip
    have hdata : f.data = [] := List.length_eq_zero_iff.mp <| by
      rw [(takeFrame_eq_some_iff.mp h).1.2, hbody hskip]
      rfl
    rw [hdata, List.nil_append]
  · rfl

/-- The server finds the frames of the stream as long as no body is left over, and it meets the
first message whose body is. -/
theorem served_frames (xs : List UInt8) :
    ((∀ f ∈ served xs, f.head.version ≠ 1 → BodyTaken f.head) ↔
        ∀ f ∈ untilClosed (frameExtractor.drain xs).1, f.head.version ≠ 1 → BodyTaken f.head) ∧
      ((∀ f ∈ untilClosed (frameExtractor.drain xs).1, f.head.version ≠ 1 → BodyTaken f.head) →
        served xs = untilClosed (frameExtractor.drain xs).1) := by
  induction xs using frameExtractor.drain_induction with
  | stop xs h =>
    have hreq : requestExtractor.drain xs = ([], xs) :=
      Extractor.drain_of_none (takeRequest_eq_none_iff.mpr h)
    rw [served, hreq, Extractor.drain_of_none h]
    simp [untilClosed]
  | step xs f rest h ih =>
    have hreq := @Extractor.drain_of_some _ _ requestExtractor _ _ _
      (takeRequest_eq_some_iff.mpr ⟨rest, h, rfl⟩)
    rw [served, hreq, Extractor.drain_of_some h]
    dsimp only
    rw [untilClosed, untilClosed]
    by_cases hver : f.head.version = 1
    · simp [hver]
    · rw [if_neg hver, if_neg hver, ← served]
      simp only [List.forall_mem_cons]
      by_cases hbody : BodyTaken f.head
      · obtain ⟨hiff, heq⟩ := ih
        rw [rest_of_bodyTaken h hbody]
        simp only [hiff, hbody, hver, true_and, ne_eq, not_false_eq_true, forall_const,
          List.cons.injEq]
        exact heq
      -- a body is left: this frame breaks both sides
      · simp [hbody, hver]

theorem untilClosed_of_forall {fs : List Frame} (h : ∀ f ∈ fs, f.head.version ≠ 1) :
    untilClosed fs = fs := by
  induction fs with
  | nil => rfl
  | cons f fs ih =>
    obtain ⟨hf, hfs⟩ := List.forall_mem_cons.mp h
    rw [untilClosed, if_neg hf, ih hfs]

/-- **The receive paths agree exactly when no skipped arm has a body.** In a stream
without version 1, `OnRead` removes whole frames and sees the heads that
`decode_msg_with_head` sees exactly when every subscribe and unsubscribe message has an
empty body. -/
theorem onRead_frames_iff (arrivals : List Arrival) (past : ℕ → ℕ → UInt8)
    (hver : ∀ msg ∈ (readLoop past (arrivals.map Arrival.bytes).flatten).1,
      msg.head.version ≠ 1) :
    let msgs := (readLoop past (arrivals.map Arrival.bytes).flatten).1
    let iters := (serve arrivals).iters
    ((∀ it ∈ iters, it.closed = false → it.WholeFrame) ∧
      iters.map Iteration.head = msgs.map QtpMsg.head) ↔
      ∀ msg ∈ msgs, SkipsBody msg.head → msg.head.datalen = 0 := by
  intro msgs iters
  have hserve : List.Forall₂ Serves iters _ := (serve_eq arrivals).iters
  have hframes : msgs.map QtpMsg.frame =
      (frameExtractor.drain (arrivals.map Arrival.bytes).flatten).1 :=
    congrArg Prod.fst (readLoop_frames past _)
  have hmem : ∀ P : MsgHead → Prop,
      (∀ f ∈ (frameExtractor.drain (arrivals.map Arrival.bytes).flatten).1, P f.head) ↔
        ∀ msg ∈ msgs, P msg.head := by
    intro P
    rw [← hframes, List.forall_mem_map]
    rfl
  have hopen := (hmem fun h => h.version ≠ 1).mpr hver
  obtain ⟨hiff, heq⟩ := served_frames (arrivals.map Arrival.bytes).flatten
  rw [untilClosed_of_forall hopen] at hiff heq
  have htaken : (∀ f ∈ (frameExtractor.drain (arrivals.map Arrival.bytes).flatten).1,
      f.head.version ≠ 1 → BodyTaken f.head) ↔ ∀ msg ∈ msgs, BodyTaken msg.head :=
    (forall₂_congr fun f hf => forall_prop_of_true (hopen f hf)).trans (hmem BodyTaken)
  rw [forall₂_serves_wholeFrame hserve, hiff, htaken]
  refine ⟨And.left, fun hbody => ⟨hbody, ?_⟩⟩
  rw [heq (htaken.mpr hbody), ← hframes] at hserve
  have hheads : List.Forall₂ (fun it m => it.head = m.head) iters msgs :=
    (List.forall₂_map_right_iff.mp hserve).imp fun _ _ h => h.head_eq
  exact List.forall₂_eq_eq_eq ▸
    List.forall₂_map_left_iff.mpr (List.forall₂_map_right_iff.mpr hheads)

/-- A heartbeat and a subscribe message without body, in two arrivals. -/
theorem onRead_frames_two_arrivals :
    let arrivals : List Arrival :=
      [⟨fun _ => 7, [0, 0, 101, 0, 0, 0, 0, 0, 0, 0, 0, 0, 0, 0, 105]⟩,
        ⟨fun _ => 8, [0, 0, 0, 0, 0, 0, 0, 0, 0]⟩]
    let msgs := (readLoop (fun _ _ => 0) (arrivals.map Arrival.bytes).flatten).1
    let iters := (serve arrivals).iters
    (∀ it ∈ iters, it.closed = false → it.WholeFrame) ∧
      iters.map Iteration.head = msgs.map QtpMsg.head :=
  (onRead_frames_iff _ _ (by decide +kernel)).mpr (by decide +kernel)

/-- A subscribe message whose body is a head full of zeros: the server takes the body for
a second message. -/
theorem onRead_frames_subscribe_body :
    let arrivals : List Arrival := [⟨fun _ => 0, [0, 0, 105, 0, 0, 0, 0, 0, 12, 0, 0, 0,
      0, 0, 0, 0, 0, 0, 0, 0, 0, 0, 0, 0]⟩]
    let msgs := (readLoop (fun _ _ => 0) (arrivals.map Arrival.bytes).flatten).1
    let iters := (serve arrivals).iters
    (∀ msg ∈ msgs, msg.head.version ≠ 1) ∧
      (∃ it ∈ iters, it.closed = false ∧ ¬ it.WholeFrame) ∧
      msgs.length = 1 ∧ iters.length = 2 := by
  decide +kernel

/-! ## Whole answers -/

/-- A heartbeat that is served. -/
def IsHeartBeat (f : Frame) : Prop :=
  f.head.version ≠ 1 ∧ f.head.msgtype = SDSMsgType.heartBeat.val

instance (f : Frame) : Decidable (IsHeartBeat f) :=
  inferInstanceAs (Decidable (_ ∧ _))

/-- A message that answers a heartbeat: its options are one server time. -/
def IsHeartBeatAns (msg : QtpMsg) : Prop :=
  msg.head.msgtype = SDSMsgType.heartBeatAns.val ∧
    ∃ t, msg.optBytes = (OptionRequest.ofInt64 OptionId.serverTime.toU16 t).bytes ∧
      msg.opts = OptionMap.empty.set (.ofInt64 OptionId.serverTime.toU16 t)

/-- What is written back for a heartbeat. -/
def Answers (out : List UInt8) (f : Frame) : Prop :=
  ∃ now, out = (replyHead f.head).bytes ++ (serverTime now).bytes

theorem Serves.output_eq {it : Iteration} {f : Frame} (h : Serves it f) :
    if IsHeartBeat f then Answers it.output f else it.output = [] := by
  obtain ⟨-, now, rest, rfl⟩ := h
  by_cases hbeat : IsHeartBeat f
  · rw [if_pos hbeat]
    exact ⟨now, if_pos hbeat⟩
  · rw [if_neg hbeat]
    exact if_neg hbeat

/-- The output is one piece for each heartbeat. -/
theorem forall₂_serves_output {its : List Iteration} {fs : List Frame}
    (h : List.Forall₂ Serves its fs) :
    ∃ outs, its.flatMap Iteration.output = outs.flatten ∧
      List.Forall₂ Answers outs (fs.filter IsHeartBeat) := by
  induction h with
  | nil => exact ⟨[], rfl, .nil⟩
  | @cons it f its fs hserves _ ih =>
    obtain ⟨outs, hflat, houts⟩ := ih
    have hout := hserves.output_eq
    -- a heartbeat adds a piece, another message none
    by_cases hbeat : IsHeartBeat f
    · rw [if_pos hbeat] at hout
      refine ⟨it.output :: outs, by rw [List.flatMap_cons, hflat, List.flatten_cons], ?_⟩
      rw [List.filter_cons_of_pos (by simpa using hbeat)]
      exact .cons hout houts
    · rw [if_neg hbeat] at hout
      refine ⟨outs, by rw [List.flatMap_cons, hout, hflat, List.nil_append], ?_⟩
      rwa [List.filter_cons_of_neg (by simpa using hbeat)]

theorem serverTime_bytes (now : Int64) : (serverTime now).bytes =
    (OptionRequest.ofInt64 OptionId.serverTime.toU16 now).bytes := rfl

theorem Answers.length_eq {out : List UInt8} {f : Frame} (h : Answers out f) :
    out.length = msgHeadSize + optionRequestIdSize := by
  obtain ⟨now, rfl⟩ := h
  rw [List.length_append, MsgHead.bytes_length, serverTime_bytes, OptionRequest.bytes_length]
  rfl

/-- A frame with an answer's bytes and option length has all of them in its options. -/
theorem Answers.datalen_eq_zero {f g : Frame} (h : Answers g.bytes f) (hv : g.Valid)
    (hopts : g.opts.length = optionRequestIdSize) : f.head.datalen = 0 := by
  have hlen := h.length_eq
  rw [Frame.bytes_length, hopts] at hlen
  obtain ⟨now, hbytes⟩ := h
  have hhead : g.head = replyHead f.head := by
    rw [← g.head.ofBytes_bytes (g.opts ++ g.data), ← List.append_assoc, ← Frame.bytes, hbytes,
      MsgHead.ofBytes_bytes]
  have hdata : (replyHead f.head).datalen.toNat = 0 := by
    rw [← hhead, ← hv.2]
    omega
  exact UInt32.toNat_inj.mp hdata

/-- The answer as a frame, if no data is announced. -/
def answerFrame (head : MsgHead) (now : Int64) : Frame :=
  ⟨replyHead head, (serverTime now).bytes, []⟩

theorem answerFrame_valid {head : MsgHead} (h : head.datalen = 0) (now : Int64) :
    (answerFrame head now).Valid := by
  refine ⟨?_, ?_⟩
  · rw [answerFrame, serverTime_bytes, OptionRequest.bytes_length]
    rfl
  · simp [answerFrame, replyHead, h]

theorem isHeartBeatAns_ofFrame {head : MsgHead} (h : head.datalen = 0) (now : Int64)
    (past : ℕ → UInt8) : IsHeartBeatAns (QtpMsg.ofFrame past (answerFrame head now)) := by
  have hv := answerFrame_valid h now
  have hblock : (answerFrame head now).opts =
      block [.ofInt64 OptionId.serverTime.toU16 now] := by
    rw [block_cons, block_nil, List.append_nil, answerFrame, serverTime_bytes]
  refine ⟨rfl, now, ?_, ?_⟩
  · exact (congrArg Frame.opts (@QtpMsg.frame_ofFrame past _ hv)).trans (serverTime_bytes now)
  · rw [QtpMsg.ofFrame_opts hv hblock, List.foldl_cons, List.foldl_nil]

/-- Pieces that announce no data are the answers' frames. -/
theorem exists_answerFrames {outs : List (List UInt8)} {fs : List Frame}
    (h : List.Forall₂ Answers outs fs) (hdata : ∀ f ∈ fs, f.head.datalen = 0) :
    ∃ answers : List Frame, answers.length = fs.length ∧
      (∀ a ∈ answers, ∃ head now, head.datalen = 0 ∧ a = answerFrame head now) ∧
      outs.flatten = answers.flatMap Frame.bytes := by
  induction h with
  | nil => exact ⟨[], rfl, by simp, rfl⟩
  | @cons out f outs fs hout _ ih =>
    simp only [List.mem_cons, forall_eq_or_imp] at hdata
    obtain ⟨answers, hlen, hzero, hflat⟩ := ih hdata.2
    obtain ⟨now, rfl⟩ := hout
    refine ⟨answerFrame f.head now :: answers, by rw [List.length_cons, hlen, List.length_cons],
      ?_, ?_⟩
    · simp only [List.mem_cons, forall_eq_or_imp]
      exact ⟨⟨f.head, now, hdata.1, rfl⟩, hzero⟩
    · rw [List.flatten_cons, hflat, List.flatMap_cons, answerFrame, Frame.bytes, List.append_nil]

/-- As many frames as pieces, each with the options of an answer: then the frames are the
pieces, and nothing is left for their data. -/
theorem datalen_of_answers {outs : List (List UInt8)} {fs gs : List Frame}
    (h : List.Forall₂ Answers outs fs) (hlen : gs.length = fs.length)
    (hflat : gs.flatMap Frame.bytes = outs.flatten)
    (hopts : ∀ g ∈ gs, g.Valid ∧ g.opts.length = optionRequestIdSize) :
    ∀ f ∈ fs, f.head.datalen = 0 := by
  have hpieces : ∀ out ∈ outs, out.length = msgHeadSize + optionRequestIdSize := by
    intro out hout
    obtain ⟨f, -, hf⟩ := h.exists_right out hout
    exact hf.length_eq
  -- both lists cut the output into as many parts, and the pieces are the shortest
  have heq : outs = gs.map Frame.bytes := by
    refine flatten_chunks_unique ?_ ?_ hpieces ?_
    · rw [List.length_map, hlen, h.length_eq]
    · rw [← hflat, List.flatMap_def]
    · rw [List.forall_mem_map]
      intro g hg
      rw [Frame.bytes_length, (hopts g hg).2]
      omega
  intro f hf
  rw [heq] at h
  obtain ⟨g, hg, hans⟩ := (List.forall₂_map_left_iff.mp h).exists_left f hf
  exact hans.datalen_eq_zero (hopts g hg).1 (hopts g hg).2

/-- Read back, what was written gives one answer for each heartbeat that was served, with nothing
left over, exactly when each of them announces an empty body. -/
theorem replies_iff_served (arrivals : List Arrival) (past : ℕ → ℕ → UInt8) :
    let beats := (served (arrivals.map Arrival.bytes).flatten).filter IsHeartBeat
    let answers := readLoop past (serve arrivals).output
    (answers.2 = [] ∧ answers.1.length = beats.length ∧
      ∀ msg ∈ answers.1, IsHeartBeatAns msg) ↔ ∀ f ∈ beats, f.head.datalen = 0 := by
  intro beats answers
  obtain ⟨outs, hflat, houts⟩ := forall₂_serves_output (serve_eq arrivals).iters
  have hout : (serve arrivals).output = outs.flatten := hflat
  have hdrain := readLoop_ofFrame past (serve arrivals).output
  have hrest : answers.2 = (frameExtractor.drain (serve arrivals).output).2 :=
    congrArg Prod.snd (readLoop_frames past _)
  constructor
  -- what is read are the pieces, and each of them ends with its option
  · rintro ⟨hnil, hlen, hans⟩
    refine datalen_of_answers houts (hdrain.length_eq.symm.trans hlen) ?_ ?_
    · have h := drain_bytes (serve arrivals).output
      rw [← hrest, hnil, List.append_nil] at h
      exact h.trans hout
    · intro g hg
      obtain ⟨msg, hmsg, hv, p, rfl⟩ := hdrain.exists_left g hg
      obtain ⟨-, t, hopt, -⟩ := hans _ hmsg
      have hbytes : g.opts = (QtpMsg.ofFrame p g).optBytes :=
        (congrArg Frame.opts (QtpMsg.frame_ofFrame hv)).symm
      rw [hbytes, hopt, OptionRequest.bytes_length]
      exact ⟨hv, OptionRequest.ofInt64_recordLen _ _⟩
  · intro hdata
    -- the pieces are valid frames, and are read one by one
    obtain ⟨fs, hlen, hfs, hbytes⟩ := exists_answerFrames houts hdata
    have hread : frameExtractor.drain (serve arrivals).output = (fs, []) := by
      rw [hout, hbytes, ← List.append_nil (fs.flatMap Frame.bytes), Extractor.drain_flatMap,
        Extractor.drain_of_none rfl, List.append_nil]
      intro f hf s
      obtain ⟨head, now, hzero, rfl⟩ := hfs f hf
      rw [frameExtractor_next, takeFrame_bytes (answerFrame_valid hzero now)]
    rw [hread] at hrest hdrain
    refine ⟨hrest, hdrain.length_eq.trans hlen, ?_⟩
    intro msg hmsg
    obtain ⟨f, hf, -, p, rfl⟩ := hdrain.exists_right msg hmsg
    obtain ⟨head, now, hzero, rfl⟩ := hfs f hf
    exact isHeartBeatAns_ofFrame hzero now p

/-- The messages a connection is sent before one of version 1, as `decode_msg_with_head` finds
them. -/
def sent (past : ℕ → ℕ → UInt8) (stream : List UInt8) : List QtpMsg :=
  (readLoop past stream).1.takeWhile fun msg => msg.head.version ≠ 1

/-- The heartbeat requests among them. -/
def heartBeats (past : ℕ → ℕ → UInt8) (stream : List UInt8) : List QtpMsg :=
  (sent past stream).filter fun msg => msg.head.msgtype = SDSMsgType.heartBeat.val

theorem filter_untilClosed (fs : List Frame) :
    (untilClosed fs).filter (fun f => f.head.version ≠ 1) =
      fs.takeWhile fun f => f.head.version ≠ 1 := by
  induction fs with
  | nil => rfl
  | cons f fs ih =>
    by_cases hver : f.head.version = 1
    · simp [untilClosed, hver]
    · rw [untilClosed, if_neg hver, List.takeWhile_cons, if_pos (decide_eq_true hver),
        List.filter_cons, if_pos (decide_eq_true hver), ih]

/-- The frames of the messages that are sent. -/
theorem map_frame_sent (past : ℕ → ℕ → UInt8) (xs : List UInt8) :
    (sent past xs).map QtpMsg.frame =
      (untilClosed (frameExtractor.drain xs).1).filter fun f => f.head.version ≠ 1 := by
  rw [filter_untilClosed, ← readLoop_frames past, framesOf, List.takeWhile_map]
  rfl

/-- As long as no body is left over, the heartbeats that are served are those that are sent. -/
theorem served_heartBeats {xs : List UInt8} (past : ℕ → ℕ → UInt8)
    (hbody : ∀ msg ∈ sent past xs, BodyTaken msg.head) :
    (served xs).filter IsHeartBeat = (heartBeats past xs).map QtpMsg.frame := by
  have hframes : ∀ f ∈ (sent past xs).map QtpMsg.frame, BodyTaken f.head :=
    List.forall_mem_map.mpr hbody
  rw [map_frame_sent, List.forall_mem_filter] at hframes
  have hserved := (served_frames xs).2 fun f hf hver => hframes f hf (decide_eq_true hver)
  have hbeats : (heartBeats past xs).map QtpMsg.frame =
      ((sent past xs).map QtpMsg.frame).filter fun f =>
        f.head.msgtype = SDSMsgType.heartBeat.val := by
    rw [List.filter_map]
    rfl
  rw [hserved, hbeats, map_frame_sent, List.filter_filter]
  refine List.filter_congr fun f _ => ?_
  rw [← Bool.decide_and]
  exact decide_eq_decide.mpr and_comm

/-- **The output is whole answers when neither heartbeats nor skipped messages have a body.** Read
back with `decode_msg_with_head`, what was written gives one answer for each heartbeat request,
with nothing left over, if no such message announces a body; and where the arms leave no body in
the buffer, only then. -/
theorem onRead_replies_iff (arrivals : List Arrival) (past past' : ℕ → ℕ → UInt8) :
    let msgs := sent past (arrivals.map Arrival.bytes).flatten
    let requests := heartBeats past (arrivals.map Arrival.bytes).flatten
    let answers := readLoop past' (serve arrivals).output
    ((answers.2 = [] ∧ answers.1.length = requests.length ∧
        ∀ msg ∈ answers.1, IsHeartBeatAns msg) ∧
      ∀ msg ∈ msgs, SkipsBody msg.head → msg.head.datalen = 0) ↔
      ∀ msg ∈ msgs, SkipsBody msg.head ∨ msg.head.msgtype = SDSMsgType.heartBeat.val →
        msg.head.datalen = 0 := by
  intro msgs requests answers
  have hsplit : (∀ msg ∈ msgs, SkipsBody msg.head ∨ msg.head.msgtype = SDSMsgType.heartBeat.val →
      msg.head.datalen = 0) ↔ (∀ msg ∈ requests, msg.head.datalen = 0) ∧
        ∀ msg ∈ msgs, SkipsBody msg.head → msg.head.datalen = 0 := by
    simp only [requests, heartBeats, List.mem_filter, decide_eq_true_eq, and_imp, or_imp,
      forall_and]
    exact and_comm
  rw [hsplit]
  refine and_congr_left fun hbody => ?_
  have hbeats := served_heartBeats past hbody
  have hserved := replies_iff_served arrivals past'
  dsimp only at hserved
  rw [hbeats, List.length_map, List.forall_mem_map] at hserved
  exact hserved

/-- A heartbeat that announces four bytes of data, and sends them: the answer announces
them too, and the peer waits for them. -/
theorem onRead_replies_heartbeat_body :
    let arrivals : List Arrival :=
      [⟨fun _ => 0, [0, 0, 101, 0, 0, 0, 0, 0, 4, 0, 0, 0, 1, 2, 3, 4]⟩]
    let requests := heartBeats (fun _ _ => 0) (arrivals.map Arrival.bytes).flatten
    let answers := readLoop (fun _ _ => 0) (serve arrivals).output
    requests.length = 1 ∧ answers.1.length = 0 ∧ answers.2.length = 24 := by
  decide +kernel

/-- The body of a subscription that is left over: it is answered where it looks like a heartbeat,
and does no harm where it is full of zeros. -/
example :
    let subscribe : List UInt8 := [0, 0, 105, 0, 0, 0, 0, 0, 12, 0, 0, 0]
    let answered := fun body : List UInt8 =>
      (readLoop (fun _ _ => 0) (serve [⟨fun _ => 0, subscribe ++ body⟩]).output).1.length
    let requested := fun body : List UInt8 =>
      (heartBeats (fun _ _ => 0) (subscribe ++ body)).length
    let beat : List UInt8 := [0, 0, 101, 0, 0, 0, 0, 0, 0, 0, 0, 0]
    (answered beat = 1 ∧ requested beat = 0) ∧
      answered (List.replicate 12 0) = 0 ∧ requested (List.replicate 12 0) = 0 := by
  decide +kernel

end XTcpServer

end SampleTools
