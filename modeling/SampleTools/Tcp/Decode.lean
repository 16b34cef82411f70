import SampleTools.Qtp.Store

/-!
# Receiving messages

`decode_msg_with_head` takes one whole message off the input buffer of a connection, or
leaves the buffer as it is while the message is incomplete. The input buffer is a FIFO
queue of bytes.

## Main definitions

* `decodeMsgWithHead`: the message, if any, and the buffer afterwards
* `QtpMsg.ofFrame`: the message made of a received frame
* `QtpMsg.Reachable`: messages built up from nothing or received, then changed

## Main results

* `decodeMsgWithHead_eq`: decoding is taking a frame and parsing its options
* `QtpMsg.frame_ofFrame`, `QtpMsg.ofFrame_opts`: what a received message holds
* `parse_in_bounds_iff`: when parsing a received block stays inside it
-/

namespace SampleTools

open LittleEndian Memory

/-- `evbuffer_remove`: the bytes taken out, and what stays. -/
def evbufferRemove (input : List UInt8) (n : ℕ) : List UInt8 × List UInt8 :=
  (input.take n, input.drop n)

/-- `decode_msg_with_head`. -/
def decodeMsgWithHead (past : ℕ → UInt8) (input : List UInt8) : Option QtpMsg × List UInt8 :=
  let len := input.length
  if len < msgHeadSize then (none, input)
  else
    let headp := MsgHead.ofBytes input
    let msgTotalLen := msgHeadSize + headp.optslen.toNat + headp.datalen.toNat
    if len < msgTotalLen then (none, input)
    else
      let (headBytes, input) := evbufferRemove input msgHeadSize
      let head := MsgHead.ofBytes headBytes
      -- an empty part gets no block
      let (optBuf, input) :=
        if head.optslen ≠ 0 then
          let (bytes, input) := evbufferRemove input head.optslen.toNat
          (some bytes, input)
        else (none, input)
      let (data, input) :=
        if head.datalen ≠ 0 then
          let (bytes, input) := evbufferRemove input head.datalen.toNat
          (some bytes, input)
        else (none, input)
      (some (QtpMsg.ofParts past head data optBuf), input)

/-- The message made of a received frame: empty parts get no block. -/
def QtpMsg.ofFrame (past : ℕ → UInt8) (f : Frame) : QtpMsg :=
  QtpMsg.ofParts past f.head
    (if f.head.datalen ≠ 0 then some f.data else none)
    (if f.head.optslen ≠ 0 then some f.opts else none)

theorem decodeMsgWithHead_eq (past : ℕ → UInt8) (input : List UInt8) :
    decodeMsgWithHead past input =
      match takeFrame input with
      | none => (none, input)
      | some (f, rest) => (some (QtpMsg.ofFrame past f), rest) := by
  by_cases hhead : input.length < msgHeadSize
  · have hnone : takeFrame input = none := by
      rw [takeFrame, if_pos (by omega)]
    simp [decodeMsgWithHead, hhead, hnone]
  -- the head in front of the buffer is the head taken out of it
  · have hofBytes : MsgHead.ofBytes (input.take msgHeadSize) = MsgHead.ofBytes input := by
      conv_rhs => rw [← List.take_append_drop msgHeadSize input]
      rw [MsgHead.ofBytes_append (by rw [List.length_take]; omega)]
    by_cases htotal : input.length < msgHeadSize + (MsgHead.ofBytes input).optslen.toNat +
        (MsgHead.ofBytes input).datalen.toNat
    · have hnone : takeFrame input = none := by
        rw [takeFrame, if_pos htotal]
      simp [decodeMsgWithHead, hhead, htotal, hnone]
    · simp only [decodeMsgWithHead, takeFrame, if_neg hhead, if_neg htotal, evbufferRemove,
        hofBytes, QtpMsg.ofFrame]
      by_cases hopt : (MsgHead.ofBytes input).optslen = 0 <;>
        by_cases hdata : (MsgHead.ofBytes input).datalen = 0 <;>
        simp [hopt, hdata]

theorem decodeMsgWithHead_of_none {past : ℕ → UInt8} {input : List UInt8}
    (h : takeFrame input = none) : decodeMsgWithHead past input = (none, input) := by
  rw [decodeMsgWithHead_eq, h]

theorem decodeMsgWithHead_of_some {past : ℕ → UInt8} {input rest : List UInt8} {f : Frame}
    (h : takeFrame input = some (f, rest)) :
    decodeMsgWithHead past input = (some (QtpMsg.ofFrame past f), rest) := by
  rw [decodeMsgWithHead_eq, h]

theorem decodeMsgWithHead_bytes (past : ℕ → UInt8) {f : Frame} (hf : f.Valid) (s : List UInt8) :
    decodeMsgWithHead past (f.bytes ++ s) = (some (QtpMsg.ofFrame past f), s) :=
  decodeMsgWithHead_of_some (takeFrame_bytes hf s)

theorem decodeMsgWithHead_eq_some {past : ℕ → UInt8} {input rest : List UInt8} {msg : QtpMsg}
    (h : decodeMsgWithHead past input = (some msg, rest)) :
    ∃ f : Frame, f.Valid ∧ input = f.bytes ++ rest ∧ msg = QtpMsg.ofFrame past f := by
  rw [decodeMsgWithHead_eq] at h
  cases hf : takeFrame input with
  | none => simp [hf] at h
  | some p =>
    obtain ⟨f, rest'⟩ := p
    simp only [hf, Prod.mk.injEq, Option.some.injEq] at h
    obtain ⟨rfl, rfl⟩ := h
    obtain ⟨hvalid, hinput⟩ := takeFrame_eq_some_iff.mp hf
    exact ⟨f, hvalid, hinput, rfl⟩

/-! ## The message of a frame -/

namespace QtpMsg

variable {past : ℕ → UInt8} {f : Frame}

@[simp] theorem ofFrame_head : (ofFrame past f).head = f.head := rfl

theorem cells_guarded {n : ℕ} {bs : List UInt8} {c : Prop} [Decidable c] (hlen : bs.length = n)
    (hc : ¬ c → n = 0) : cells (if c then some bs else none) = bs := by
  split
  · rfl
  · rename_i h
    rw [hc h, List.length_eq_zero_iff] at hlen
    simp [hlen]

theorem cells_ofFrame_optBuf (hf : f.Valid) : cells (ofFrame past f).optBuf = f.opts :=
  cells_guarded hf.1 (by intro h; simp [not_not.mp h])

theorem cells_ofFrame_dataBuf (hf : f.Valid) : cells (ofFrame past f).dataBuf = f.data :=
  cells_guarded hf.2 (by intro h; simp [not_not.mp h])

theorem ofFrame_optLen (hf : f.Valid) : (ofFrame past f).optLen = f.opts.length := hf.1.symm

theorem ofFrame_dataLen (hf : f.Valid) : (ofFrame past f).dataLen = f.data.length := hf.2.symm

/-- A received message holds the bytes of its frame. -/
theorem frame_ofFrame (hf : f.Valid) : (ofFrame past f).frame = f := by
  rw [frame, optBytes, dataBytes, cells_ofFrame_optBuf hf, cells_ofFrame_dataBuf hf,
    ofFrame_optLen hf, ofFrame_dataLen hf, List.take_length, List.take_length, ofFrame_head]

theorem BuffersFit.ofFrame (hf : f.Valid) : (ofFrame past f).BuffersFit where
  data := by rw [ofFrame_dataLen hf, cells_ofFrame_dataBuf hf]
  opt := by rw [ofFrame_optLen hf, cells_ofFrame_optBuf hf]

/-- Parsing a block of records stores these records. -/
theorem ofFrame_opts (hf : f.Valid) {rs : List OptionRequest} (h : f.opts = block rs) :
    (ofFrame past f).opts = rs.foldl OptionMap.set .empty := by
  have hopts : (ofFrame past f).opts = (parseLoop past (cells (ofFrame past f).optBuf)
      (ofFrame past f).optLen 0 .empty).1 := rfl
  rw [hopts, cells_ofFrame_optBuf hf, ofFrame_optLen hf, h]
  simpa using (@parseLoop_block past [] rs [] .empty).1

/-- Received messages, and messages built from nothing, after any calls. -/
inductive Reachable : QtpMsg → Prop
  | new : Reachable {}
  | received {past : ℕ → UInt8} {input rest : List UInt8} {msg : QtpMsg}
      (h : decodeMsgWithHead past input = (some msg, rest)) : Reachable msg
  | call {m : QtpMsg} (h : Reachable m) (op : MsgOp) : Reachable (m.apply op)

theorem Reachable.buffersFit {m : QtpMsg} (h : Reachable m) : m.BuffersFit := by
  induction h with
  | new => exact .empty
  | received h =>
    obtain ⟨f, hf, -, rfl⟩ := decodeMsgWithHead_eq_some h
    exact .ofFrame hf
  | call _ op ih => exact ih.apply op

end QtpMsg

/-- A decoded message is constructed from its parts. -/
theorem step_received {past : ℕ → UInt8} {input rest : List UInt8} {msg : QtpMsg}
    (h : decodeMsgWithHead past input = (some msg, rest)) {s : MsgStore} {i : ℕ}
    (hi : s i = none) :
    ∃ data opt, s.step (.ofParts i past msg.head data opt) = some (s.put i msg) := by
  obtain ⟨f, hf, -, rfl⟩ := decodeMsgWithHead_eq_some h
  have hfit := @QtpMsg.BuffersFit.ofFrame past f hf
  refine ⟨(QtpMsg.ofFrame past f).dataBuf, (QtpMsg.ofFrame past f).optBuf, ?_⟩
  simp only [MsgStore.step, hi]
  exact if_pos ⟨hfit.data, hfit.opt⟩

/-! ## Parsing what was received -/

/-- Parsing a received block makes three reads a round and few enough rounds, and it
stays inside the block exactly when the block is a concatenation of whole records. -/
theorem parse_in_bounds_iff {past : ℕ → UInt8} {input rest : List UInt8} {msg : QtpMsg}
    (h : decodeMsgWithHead past input = (some msg, rest)) :
    let reads := (QtpMsg.initParts msg.head msg.dataBuf msg.optBuf).parseReads past
    (∃ rounds, reads.length = 3 * rounds ∧ 4 * rounds ≤ msg.optLen + 3) ∧
      ((∀ a ∈ reads, a.Within msg.optLen) ↔ WellFormedBlock msg.optBytes) := by
  intro reads
  obtain ⟨f, hf, -, rfl⟩ := decodeMsgWithHead_eq_some h
  have hreads : reads = (parseLoop past f.opts f.opts.length 0 .empty).2 := by
    simp only [reads, QtpMsg.parseReads, QtpMsg.initParts, QtpMsg.cells_ofFrame_optBuf hf,
      QtpMsg.ofFrame_head, hf.1]
  have hbytes : (QtpMsg.ofFrame past f).optBytes = f.opts :=
    congrArg Frame.opts (QtpMsg.frame_ofFrame hf)
  rw [hreads, hbytes, QtpMsg.ofFrame_optLen hf]
  exact ⟨parseLoop_rounds _ _ _, parseLoop_within_iff⟩

/-- A block of one record, an option of id 1 with a one-byte payload. -/
theorem parse_in_bounds_one_record :
    let reads := (QtpMsg.initParts { msgtype := 101, optslen := 5 } none
      (some [1, 0, 1, 0, 7])).parseReads fun _ => 0
    reads.length = 3 ∧ ∀ a ∈ reads, a.Within 5 :=
  ⟨by decide +kernel, ((parse_in_bounds_iff (show decodeMsgWithHead (fun _ => 0)
    [0, 0, 101, 0, 0, 0, 5, 0, 0, 0, 0, 0, 1, 0, 1, 0, 7] = (some _, []) from rfl)).2.mpr
      ⟨[⟨1, 1, [7], rfl⟩], rfl⟩)⟩

/-- A block of three bytes: its size field ends behind the block. -/
theorem parse_out_of_bounds_three_bytes :
    ∃ msg, decodeMsgWithHead (fun _ => 0)
        [0, 0, 101, 0, 0, 0, 3, 0, 0, 0, 0, 0, 1, 0, 0] = (some msg, []) ∧
      ¬ ∀ a ∈ (QtpMsg.initParts msg.head msg.dataBuf msg.optBuf).parseReads fun _ => 0,
        a.Within msg.optLen :=
  ⟨_, rfl, by decide +kernel⟩

end SampleTools
