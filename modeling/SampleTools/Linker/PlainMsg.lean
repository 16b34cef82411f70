import SampleTools.Linker.Sessions
import SampleTools.Linker.TestClient
import SampleTools.Qtp.CopyValue

/-!
# The messages of the two ends

The client and the server add three options, each a value of eight bytes: the session, the
time of the server and the number of the request. A message with no other options and with
data that 32 bits can count is sent in a frame that tells its lengths, and what is received
from such a frame is such a message again.

The client encodes a message before it puts it into its queue. The queue copies it, and
taking it out moves it; what `SendMsg` writes then is what `send_data` would have written.

## Main definitions

* `QtpMsg.Plain`, `Frame.Plain`: a message of the two ends, and a frame that carries one
* `QtpMsg.Whole`: the head tells the lengths of the two blocks

## Main results

* `QtpMsg.Plain.sendData`: a plain message is sent in a plain frame
* `QtpMsg.frame_copy_encode`, `QtpMsg.sendMsg_moveAssign`: a message that went through the
  queue is sent as `send_data` sends it
-/

namespace SampleTools

open LittleEndian Memory

/-- The options the two ends add. -/
def addedIds : List Int64 :=
  [OptionId.sessionId.toI64, OptionId.serverTime.toI64, OptionId.reqId.toI64]

namespace QtpMsg

/-- The options are among those the ends add, and 32 bits can tell the length of the data. -/
structure Plain (m : QtpMsg) : Prop where
  fits : m.BuffersFit
  data : m.dataLen < 2 ^ 32
  opts : ∀ id r, m.getOption id = some r → id ∈ addedIds ∧ r.optionBuf.length = 8

variable {m : QtpMsg}

theorem Plain.new : ({} : QtpMsg).Plain where
  fits := .empty
  data := Nat.two_pow_pos 32
  opts id r hr := by cases hr

/-- At most three options, of twelve bytes each. -/
theorem Plain.encodedLen_le (h : m.Plain) : m.opts.encodedLen ≤ 36 := by
  have hlen : ∀ n ∈ m.opts.requests.map OptionRequest.recordLen, n = 12 := by
    intro n hn
    obtain ⟨r, hr, rfl⟩ := List.mem_map.mp hn
    have hbuf := (h.opts _ r (OptionMap.mem_requests_iff.mp hr)).2
    rw [r.size_eq] at hbuf
    rw [OptionRequest.recordLen, hbuf]
  have hkeys : (m.opts.requests.map fun r => idKey r.optionId) ⊆ addedIds := by
    intro id hid
    obtain ⟨r, hr, rfl⟩ := List.mem_map.mp hid
    exact (h.opts _ r (OptionMap.mem_requests_iff.mp hr)).1
  have hcount := (List.subperm_of_subset m.opts.requests_nodup_keys hkeys).length_le
  rw [List.length_map] at hcount
  have hthree : addedIds.length = 3 := rfl
  rw [OptionMap.encodedLen, List.sum_eq_card_nsmul _ 12 hlen, List.length_map]
  show m.opts.requests.length * 12 ≤ 36
  omega

theorem Plain.setMsgtype (h : m.Plain) (t : UInt16) : (m.setMsgtype t).Plain :=
  ⟨⟨h.fits.data, h.fits.opt⟩, h.data, h.opts⟩

theorem Plain.setData (h : m.Plain) {d : List UInt8} (hd : d.length < 2 ^ 32) :
    (m.setData (some d)).2.Plain :=
  ⟨h.fits.setData _, hd, h.opts⟩

theorem Plain.encode (h : m.Plain) (o : IterOrder OptionRequest) : (m.encode o).Plain :=
  ⟨h.fits.encode o, h.data, h.opts⟩

theorem Plain.addOption (h : m.Plain) (o : IterOrder OptionRequest) (id : OptionId) (v : Int64)
    (hid : id ∈ [OptionId.sessionId, OptionId.serverTime, OptionId.reqId]) :
    (m.addOption o (.ofInt64 id.toU16 v)).Plain where
  fits := h.fits.apply (.addOption o (.ofInt64 id.toU16 v))
  data := h.data
  opts i r hr := by
    have hkey : idKey id.toU16 ∈ addedIds := by
      simp only [List.mem_cons, List.not_mem_nil, or_false] at hid
      rcases hid with rfl | rfl | rfl <;> decide
    rw [getOption, addOption_opts] at hr
    by_cases hi : i = idKey (OptionRequest.ofInt64 id.toU16 v).optionId
    · rw [hi, OptionMap.get_set_self] at hr
      cases hr
      rw [hi]
      exact ⟨hkey, i64Bytes_length v⟩
    · rw [OptionMap.get_set_of_ne hi] at hr
      exact h.opts i r hr

theorem Plain.sessionFits (h : m.Plain) : SessionFits m := by
  intro r hr
  exact (h.opts _ r hr).2

end QtpMsg

/-- A frame that tells its lengths, and from which a plain message is received. -/
structure Frame.Plain (f : Frame) : Prop where
  valid : f.Valid
  received : ∀ past, (QtpMsg.ofFrame past f).Plain

theorem Frame.Plain.next {f : Frame} (h : f.Plain) (s : List UInt8) :
    frameExtractor.next (f.bytes ++ s) = some (f, s) :=
  takeFrame_bytes h.valid s

namespace QtpMsg

variable {m el : QtpMsg}

/-- A plain message is sent in a plain frame. -/
theorem Plain.sendData (h : m.Plain) (o : IterOrder OptionRequest) : (m.sendData o).2.Plain := by
  have hlen := h.encodedLen_le
  have hvalid := (sendData_valid_iff o h.fits).mpr ⟨by omega, h.data⟩
  refine ⟨hvalid, fun past => ⟨.ofFrame hvalid, ?_, ?_⟩⟩
  · have hlt := (m.sendData o).2.head.datalen.toNat_lt
    rw [ofFrame_dataLen hvalid, hvalid.2]
    exact hlt
  · intro id r hr
    rw [getOption_ofFrame_sendData o past h.fits hvalid] at hr
    exact h.opts id r hr

/-- The session id travels with the frame. -/
theorem Plain.carriedId_frame (h : m.Plain) (o : IterOrder OptionRequest) (past : ℕ → UInt8) :
    carriedId (ofFrame past (m.sendData o).2) = carriedId m := by
  rw [carriedId, getOption_ofFrame_sendData o past h.fits (h.sendData o).valid, carriedId]

theorem sendData_msgtype (h : m.BuffersFit) (o : IterOrder OptionRequest) :
    (m.sendData o).2.head.msgtype = m.head.msgtype := by
  rw [sendData_snd o h]

/-! ## Through the queue of the client -/

/-- The blocks are as long as the head tells. -/
structure Whole (m : QtpMsg) : Prop where
  fits : m.BuffersFit
  optslen : m.head.optslen.toNat = m.optLen
  datalen : m.head.datalen.toNat = m.dataLen

/-- A message taken out of the queue is sent as the frame it is, whatever it was moved into. -/
theorem sendMsg_moveAssign (h : el.Whole) (past pastOpt pastData : ℕ → UInt8) (m : QtpMsg) :
    ((moveAssign past el m).1).sendMsg pastOpt pastData = el.frame.bytes := by
  have hopt := h.fits.opt
  have hdata := h.fits.data
  have hmove : ((moveAssign past el m).1).sendMsg pastOpt pastData =
      el.sendMsg pastOpt pastData := rfl
  rw [hmove, sendMsg, Outgoing.peekN_of_pos, Outgoing.peekN_of_pos, h.optslen, h.datalen,
    peekN_eq_take_drop (by omega), peekN_eq_take_drop (by omega), List.drop_zero, List.drop_zero]
  rfl

/-- The option block of a copy. -/
theorem optBytes_copy (h : m.BuffersFit) (past past' : ℕ → UInt8) :
    (m.copy past past').optLen = m.optLen ∧ (m.copy past past').optBytes = m.optBytes := by
  have hdata : ∀ (n : QtpMsg) d, (n.setData d).2.optLen = n.optLen ∧
      (n.setData d).2.optBuf = n.optBuf := by
    intro n d
    cases d <;> exact ⟨rfl, rfl⟩
  cases hbuf : m.optBuf with
  | none =>
    have hzero : m.optLen = 0 := by
      have hopt := h.opt
      rw [hbuf] at hopt
      exact Nat.le_zero.mp hopt
    rw [copy, hbuf, optBytes, optBytes, hbuf]
    refine ⟨(hdata _ _).1.trans hzero.symm, ?_⟩
    show (cells (QtpMsg.setData _ _).2.optBuf).take _ = _
    rw [(hdata _ _).2, cells_none, List.take_nil]
    exact List.take_nil
  | some b =>
    have hset : ((({} : QtpMsg).setHead m.head).setOptions past (source m.optBuf m.optLen)).2 =
        (withBlock m (({} : QtpMsg).setHead m.head)).parseOptions past := by
      rw [source_some hbuf, setOptions]
      simp only [source_length h.opt _ (source_some hbuf m.optLen)]
      rfl
    have hlen : (m.copy past past').optLen = m.optLen := by
      rw [copy, hset]
      exact (hdata _ _).1
    have hcells : cells (m.copy past past').optBuf = m.optBytes := by
      rw [← cells_withBlock_new h, copy, hset]
      show cells (QtpMsg.setData _ _).2.optBuf = _
      rw [(hdata _ _).2]
      rfl
    refine ⟨hlen, ?_⟩
    rw [optBytes, hcells, hlen, optBytes, List.take_take, Nat.min_self]

/-- What the queue holds of a message that was encoded last is the frame `send_data` writes. -/
theorem frame_copy_encode (h : m.BuffersFit) (o : IterOrder OptionRequest)
    (past past' : ℕ → UInt8) : ((m.encode o).copy past past').frame = (m.sendData o).2 := by
  have henc := h.encode o
  have hfits : CopyFits past past' (m.encode o) {} := copyFits_of_encode o h
  have hcopy := (copyAssign_iff henc .empty).mpr hfits
  rw [frame, (optBytes_copy henc past past').2, copy_eq, hcopy.head, hcopy.data, sendData]
  simp only [written_eq]
  rfl

/-- It is plain, and whole. -/
theorem Plain.copy_encode (h : m.Plain) (o : IterOrder OptionRequest) (past past' : ℕ → UInt8) :
    ((m.encode o).copy past past').Whole := by
  have henc := h.fits.encode o
  have hfits := BuffersFit.copy past past' (m.encode o)
  have hvalid := (h.sendData o).valid
  rw [← frame_copy_encode h.fits o past past'] at hvalid
  refine ⟨hfits, ?_, ?_⟩
  · have hopt := hvalid.1
    rw [frame, optBytes, List.length_take, Nat.min_eq_left hfits.opt] at hopt
    exact hopt.symm
  · have hdata := hvalid.2
    rw [frame, dataBytes_length hfits] at hdata
    exact hdata.symm

end QtpMsg

end SampleTools
