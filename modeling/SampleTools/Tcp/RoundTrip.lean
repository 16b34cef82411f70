import SampleTools.Tcp.Decode

/-!
# Sending and receiving

What `send_data` writes is one frame. Its head carries the lengths of the options and
the data in fields of 16 and 32 bits, so the frame is valid, and a receiver stays in
step, exactly while the lengths fit.

## Main results

* `send_decode_roundtrip`: what `send_data` writes is decoded to the same message
* `sent_lengths_iff`: when the head tells what follows it
-/

namespace SampleTools

open LittleEndian

namespace QtpMsg

variable {m : QtpMsg}

/-- The lengths the head carries are the true ones exactly when they fit their fields. -/
theorem sendData_valid_iff (o : IterOrder OptionRequest) (h : m.BuffersFit) :
    (m.sendData o).2.Valid ↔ m.opts.encodedLen ≤ 65535 ∧ m.dataLen < 2 ^ 32 := by
  rw [sendData_snd o h, Frame.Valid]
  simp only [m.opts.block_order_length o, dataBytes_length h]
  constructor
  · rintro ⟨ho, hd⟩
    -- the fields hold the lengths modulo 2^16 and 2^32
    have ho' := (UInt16.ofNat m.opts.encodedLen).toNat_lt
    have hd' := (UInt32.ofNat m.dataLen).toNat_lt
    omega
  · rintro ⟨ho, hd⟩
    rw [UInt16.toNat_ofNat_of_lt' (show m.opts.encodedLen < 65536 by omega),
      UInt32.toNat_ofNat_of_lt' hd]
    exact ⟨rfl, rfl⟩

theorem sendData_optslen (o : IterOrder OptionRequest) (h : m.BuffersFit) :
    (m.sendData o).2.head.optslen = UInt16.ofNat m.opts.encodedLen := by
  rw [sendData_snd o h]

theorem sendData_opts_length (o : IterOrder OptionRequest) (h : m.BuffersFit) :
    (m.sendData o).2.opts.length = m.opts.encodedLen := by
  rw [sendData_snd o h, m.opts.block_order_length o]

/-- A message sent in a valid frame is received with its options. -/
theorem getOption_ofFrame_sendData (o : IterOrder OptionRequest) (past : ℕ → UInt8)
    (h : m.BuffersFit) (hv : (m.sendData o).2.Valid) (id : Int64) :
    (ofFrame past (m.sendData o).2).getOption id = m.getOption id := by
  have hopts : (m.sendData o).2.opts = block (o.order m.opts.requests) := by
    rw [sendData_snd o h]
  rw [getOption, ofFrame_opts hv hopts, OptionMap.get_foldl_set_order]
  rfl

end QtpMsg

/-- **The wire round trip.** Whatever calls built the message, a receiver decodes what
`send_data` writes to a message with the same head fields, options and data, and finds
the bytes that follow untouched. -/
theorem send_decode_roundtrip (ops : List MsgOp) (o : IterOrder OptionRequest)
    (past : ℕ → UInt8) (s : List UInt8)
    (hopts : (({} : QtpMsg).applyAll ops).opts.encodedLen ≤ 65535)
    (hdata : (({} : QtpMsg).applyAll ops).dataLen < 2 ^ 32) :
    let m := ({} : QtpMsg).applyAll ops
    ∃ msg, decodeMsgWithHead past ((m.sendData o).2.bytes ++ s) = (some msg, s) ∧
      msg.head.version = m.head.version ∧ msg.head.service = m.head.service ∧
      msg.head.msgtype = m.head.msgtype ∧ msg.head.topic = m.head.topic ∧
      msg.dataBytes = m.dataBytes ∧ ∀ id, msg.getOption id = m.getOption id := by
  intro m
  have hfit : m.BuffersFit := QtpMsg.BuffersFit.empty.applyAll ops
  have hv : (m.sendData o).2.Valid := (QtpMsg.sendData_valid_iff o hfit).mpr ⟨hopts, hdata⟩
  have hsent := QtpMsg.sendData_snd o hfit
  have hframe := @QtpMsg.frame_ofFrame past _ hv
  refine ⟨QtpMsg.ofFrame past (m.sendData o).2, decodeMsgWithHead_bytes past hv s,
    ?_, ?_, ?_, ?_, ?_, QtpMsg.getOption_ofFrame_sendData o past hfit hv⟩
  · rw [QtpMsg.ofFrame_head, hsent]
  · rw [QtpMsg.ofFrame_head, hsent]
  · rw [QtpMsg.ofFrame_head, hsent]
  · rw [QtpMsg.ofFrame_head, hsent]
  · exact (congrArg Frame.data hframe).trans (congrArg Frame.data hsent)

/-- A subscribe request with a session id, after one option was added and removed. -/
theorem send_decode_roundtrip_subscribe :
    let m := ({} : QtpMsg).applyAll
      [.setMsgtype 1003, .setData (some [1, 2, 3]),
        .addOption .stored (.ofInt64 OptionId.sessionId.toU16 5),
        .addOption .reversed (.ofInt64 OptionId.serverTime.toU16 9),
        .removeOption OptionId.serverTime.toI64]
    ∃ msg, decodeMsgWithHead (fun _ => 0) ((m.sendData .reversed).2.bytes ++ [255]) =
        (some msg, [255]) ∧
      msg.head.version = m.head.version ∧ msg.head.service = m.head.service ∧
      msg.head.msgtype = m.head.msgtype ∧ msg.head.topic = m.head.topic ∧
      msg.dataBytes = m.dataBytes ∧ ∀ id, msg.getOption id = m.getOption id :=
  send_decode_roundtrip _ _ _ _ (by decide) (by decide)

/-! ## Lengths that do not fit their fields -/

/-- **Frame synchronisation.** The head of a sent message tells the numbers of option
bytes and data bytes behind it, and a receiver finds the end of the message, exactly
when these numbers fit the 16-bit and the 32-bit field. -/
theorem sent_lengths_iff {m : QtpMsg} (h : m.Reachable) (o : IterOrder OptionRequest)
    (past : ℕ → UInt8) :
    let sent := (m.sendData o).2
    ((sent.head.optslen.toNat = sent.opts.length ∧
        sent.head.datalen.toNat = sent.data.length) ∧
      ∀ s, ∃ msg, decodeMsgWithHead past (sent.bytes ++ s) = (some msg, s)) ↔
      m.opts.encodedLen ≤ 65535 ∧ m.dataLen < 2 ^ 32 := by
  intro sent
  have hvalid : sent.Valid ↔ m.opts.encodedLen ≤ 65535 ∧ m.dataLen < 2 ^ 32 :=
    QtpMsg.sendData_valid_iff o h.buffersFit
  rw [← hvalid]
  constructor
  · rintro ⟨⟨ho, hd⟩, -⟩
    exact ⟨ho.symm, hd.symm⟩
  · intro hv
    exact ⟨⟨hv.1.symm, hv.2.symm⟩, fun s => ⟨_, decodeMsgWithHead_bytes past hv s⟩⟩

/-- A heartbeat answer built from nothing is in step. -/
theorem sent_lengths_heartbeat :
    let m := (({} : QtpMsg).apply (.setMsgtype 102)).apply
      (.addOption .stored (.ofInt64 OptionId.serverTime.toU16 0))
    let sent := (m.sendData .stored).2
    (sent.head.optslen.toNat = sent.opts.length ∧
        sent.head.datalen.toNat = sent.data.length) ∧
      ∀ s, ∃ msg, decodeMsgWithHead (fun _ => 0) (sent.bytes ++ s) = (some msg, s) :=
  (sent_lengths_iff ((QtpMsg.Reachable.new.call _).call _) _ _).mpr
    ⟨by decide, by decide⟩

/-- An option whose record fills a whole option block. -/
def fullOption : OptionRequest :=
  ⟨1, 65531, List.replicate 65531 0, by rw [List.length_replicate]; rfl⟩

theorem fullOption_recordLen : fullOption.recordLen = 65535 := rfl

/-- A heartbeat with a full option block. -/
def fullHeartbeat : Frame := ⟨{ msgtype := 101, optslen := 65535 }, block [fullOption], []⟩

theorem fullHeartbeat_valid : fullHeartbeat.Valid :=
  ⟨by simp only [fullHeartbeat, block_length, List.map_cons, fullOption_recordLen]; rfl, rfl⟩

theorem fullHeartbeat_opts : fullHeartbeat.opts = block [fullOption] := by
  simp only [fullHeartbeat]

theorem full_answer_encodedLen {m : QtpMsg} (h : m.opts = OptionMap.empty.set fullOption)
    (o : IterOrder OptionRequest) (now : Int64) :
    (m.addOption o (.ofInt64 OptionId.serverTime.toU16 now)).opts.encodedLen = 65547 := by
  have hnew : (OptionMap.empty.set fullOption).get
      (idKey (OptionRequest.ofInt64 OptionId.serverTime.toU16 now).optionId) = none :=
    OptionMap.get_set_of_ne (show idKey OptionId.serverTime.toU16 ≠ idKey 1 by decide)
  rw [QtpMsg.addOption_opts, h, OptionMap.encodedLen_set_of_get_none hnew,
    OptionMap.encodedLen_set_of_get_none (OptionMap.get_empty _), fullOption_recordLen,
    OptionRequest.ofInt64_recordLen, OptionMap.encodedLen_empty]

/-- The answer to a heartbeat whose option block is full: the server time makes the
options 65547 bytes long, and the head says 11. -/
theorem sent_lengths_truncated :
    ∃ msg, decodeMsgWithHead (fun _ => 0) (fullHeartbeat.bytes ++ []) = (some msg, []) ∧
      let m := (msg.apply (.setMsgtype 102)).apply
        (.addOption .stored (.ofInt64 OptionId.serverTime.toU16 0))
      m.Reachable ∧ (m.sendData .stored).2.head.optslen.toNat = 11 ∧
        (m.sendData .stored).2.opts.length = 65547 := by
  obtain ⟨msg, hdecode, hopts⟩ : ∃ msg,
      decodeMsgWithHead (fun _ => 0) (fullHeartbeat.bytes ++ []) = (some msg, []) ∧
        msg.opts = OptionMap.empty.set fullOption := by
    refine ⟨_, decodeMsgWithHead_bytes _ fullHeartbeat_valid [], ?_⟩
    rw [QtpMsg.ofFrame_opts fullHeartbeat_valid fullHeartbeat_opts, List.foldl_cons, List.foldl_nil]
  have hm : ((msg.apply (.setMsgtype 102)).apply
      (.addOption .stored (.ofInt64 OptionId.serverTime.toU16 0))).Reachable :=
    ((QtpMsg.Reachable.received hdecode).call _).call _
  have hlen : (((msg.apply (.setMsgtype 102)).apply
      (.addOption .stored (.ofInt64 OptionId.serverTime.toU16 0)))).opts.encodedLen = 65547 :=
    @full_answer_encodedLen (msg.setMsgtype 102) hopts .stored 0
  refine ⟨msg, hdecode, hm, ?_, ?_⟩
  · rw [QtpMsg.sendData_optslen _ hm.buffersFit, hlen]
    rfl
  · rw [QtpMsg.sendData_opts_length _ hm.buffersFit, hlen]

end SampleTools
