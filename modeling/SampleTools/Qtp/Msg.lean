import SampleTools.Qtp.Frame
import SampleTools.Qtp.Parse

/-!
# Messages

`QtpMsg` holds its options twice: in the map `opts_`, and encoded in the buffer
`opt_buf_`. `encode` refreshes the buffer from the map, `parse_options` the map from
the buffer. A buffer is a pointer to a block and a length; the length may be smaller
than the block, and what was allocated is not stored anywhere.

Every block a method allocates is filled before it is read, so the contents `new`
leaves in it are written as zeros here. `opts_` is iterated in an order given by an
`IterOrder`, the same for the two loops of one `encode`.

## Main definitions

* `QtpMsg` and its methods, under the names of the class
* `QtpMsg.sendData`: the message afterwards and the frame it writes
* `MsgOp`, `QtpMsg.apply`: one call of a mutator
* `QtpMsg.BuffersFit`: both lengths fit the blocks behind the pointers

## Main results

* `QtpMsg.BuffersFit.apply`: every mutator keeps the lengths inside the blocks
* `QtpMsg.sendData_snd`: what a message writes
-/

namespace SampleTools

open LittleEndian Memory

/-- `QtpMsg`. A buffer pointer is `none` for `nullptr`, else the block it points to. -/
structure QtpMsg where
  head : MsgHead := {}
  opts : OptionMap := .empty
  dataLen : ℕ := 0
  dataBuf : Option (List UInt8) := none
  optLen : ℕ := 0
  optBuf : Option (List UInt8) := none

/-- `new char[n]`. -/
def newBlock (n : ℕ) : Option (List UInt8) := some (List.replicate n 0)

/-- `memcpy(dst + off, src, src.length)`. -/
def memcpy (dst : Option (List UInt8)) (off : ℕ) (src : List UInt8) : Option (List UInt8) :=
  dst.map fun b => overwrite b off src

/-- The bytes behind a pointer. -/
def cells (buf : Option (List UInt8)) : List UInt8 := buf.getD []

@[simp] theorem cells_none : cells none = [] := rfl

@[simp] theorem cells_some (b : List UInt8) : cells (some b) = b := rfl

@[simp] theorem cells_newBlock_length (n : ℕ) : (cells (newBlock n)).length = n := by
  simp [newBlock]

@[simp] theorem cells_memcpy (dst : Option (List UInt8)) (off : ℕ) (src : List UInt8) :
    cells (memcpy dst off src) = overwrite (cells dst) off src := by
  cases dst <;> simp [memcpy]

namespace QtpMsg

/-! ## Parsing -/

/-- `parse_options`. -/
def parseOptions (past : ℕ → UInt8) (m : QtpMsg) : QtpMsg :=
  { m with opts := (parseLoop past (cells m.optBuf) m.optLen 0 m.opts).1 }

/-- The reads `parse_options` makes in `opt_buf_`. -/
def parseReads (past : ℕ → UInt8) (m : QtpMsg) : List Access :=
  (parseLoop past (cells m.optBuf) m.optLen 0 m.opts).2

/-- The members `QtpMsg(const MSG_HEAD& head, char* data, char* opt)` initialises. -/
def initParts (head : MsgHead) (data opt : Option (List UInt8)) : QtpMsg :=
  { head := head, dataLen := head.datalen.toNat, dataBuf := data,
    optLen := head.optslen.toNat, optBuf := opt }

/-- `QtpMsg(const MSG_HEAD& head, char* data, char* opt)`. -/
def ofParts (past : ℕ → UInt8) (head : MsgHead) (data opt : Option (List UInt8)) : QtpMsg :=
  parseOptions past (initParts head data opt)

/-! ## Encoding -/

/-- `encode_opts`, from an offset on. -/
def encodeOpts : List OptionRequest → Option (List UInt8) → ℕ → Option (List UInt8)
  | [], optBuf, _ => optBuf
  | i :: rest, optBuf, offset =>
    let optBuf := memcpy optBuf offset (u16Bytes i.optionId)
    let optBuf := memcpy optBuf (offset + 2) (u16Bytes i.optionSize)
    let optBuf := memcpy optBuf (offset + 2 * 2) i.optionBuf
    encodeOpts rest optBuf (offset + (2 * 2 + i.optionSize.toNat))

/-- `encode`. -/
def encode (o : IterOrder OptionRequest) (m : QtpMsg) : QtpMsg :=
  let oldOptLen := m.optLen
  let optLen := ((o.order m.opts.requests).map OptionRequest.recordLen).sum
  -- a block that is long enough is kept
  let optBuf := if oldOptLen < optLen then newBlock optLen else m.optBuf
  { m with
    optLen := optLen
    optBuf := encodeOpts (o.order m.opts.requests) optBuf 0
    head := { m.head with optslen := UInt16.ofNat optLen, datalen := UInt32.ofNat m.dataLen } }

/-- What `bufferevent_write(bev, buf, len)` sends, guarded by `if (len && buf)`. -/
def written (len : ℕ) (buf : Option (List UInt8)) : List UInt8 :=
  if len = 0 then [] else (buf.map fun b => b.take len).getD []

/-- `send_data`: the message afterwards, and the three writes as one frame. -/
def sendData (o : IterOrder OptionRequest) (m : QtpMsg) : QtpMsg × Frame :=
  let m := m.encode o
  let m := { m with head :=
    { m.head with optslen := UInt16.ofNat m.optLen, datalen := UInt32.ofNat m.dataLen } }
  (m, ⟨m.head, written m.optLen m.optBuf, written m.dataLen m.dataBuf⟩)

/-! ## Accessors and mutators -/

/-- `get_option`. -/
def getOption (m : QtpMsg) (optionId : Int64) : Option OptionRequest := m.opts.get optionId

/-- `add_option(OptionRequestPtr)`; the other overloads build the request first. -/
def addOption (o : IterOrder OptionRequest) (request : OptionRequest) (m : QtpMsg) : QtpMsg :=
  { m with opts := m.opts.set request }.encode o

/-- `remove_option`: erases the first option whose `option_id` is `option_id`. Ids are
stored once, so the order of the search does not matter. -/
def removeOption (optionId : Int64) (m : QtpMsg) : Bool × QtpMsg :=
  match m.opts.requests.find? fun r => idKey r.optionId = optionId with
  | some r => (true, { m with opts := m.opts.erase (idKey r.optionId) })
  | none => (false, m)

/-- `set_head`. -/
def setHead (h : MsgHead) (m : QtpMsg) : QtpMsg := { m with head := h }

/-- `set_msgtype_topic`. -/
def setMsgtypeTopic (msgType topic : UInt16) (m : QtpMsg) : QtpMsg :=
  { m with head := { m.head with msgtype := msgType, topic := topic } }

/-- `set_msgtype`. -/
def setMsgtype (msgType : UInt16) (m : QtpMsg) : QtpMsg :=
  { m with head := { m.head with msgtype := msgType } }

/-- `set_topic`. -/
def setTopic (topic : UInt16) (m : QtpMsg) : QtpMsg :=
  { m with head := { m.head with topic := topic } }

/-- `set_version`. -/
def setVersion (version : UInt8) (m : QtpMsg) : QtpMsg :=
  { m with head := { m.head with version := version } }

/-- `reset_body`. -/
def resetBody (m : QtpMsg) : QtpMsg := { m with dataLen := 0, dataBuf := none }

/-- `reset_option`. -/
def resetOption (m : QtpMsg) : QtpMsg :=
  { m with optLen := 0, optBuf := none, opts := .empty }

/-- `reset`. -/
def reset (m : QtpMsg) : QtpMsg :=
  { m.resetBody.resetOption with head := { version := 0 } }

/-- `set_data`; a null `data` is `none`. -/
def setData (data : Option (List UInt8)) (m : QtpMsg) : Bool × QtpMsg :=
  match data with
  -- the head keeps its length
  | none => (false, m.resetBody)
  | some d =>
    let dataBuf := if m.dataLen < d.length then newBlock d.length else m.dataBuf
    (true, { m with
      head := { m.head with datalen := UInt32.ofNat d.length }
      dataLen := d.length
      dataBuf := memcpy dataBuf 0 d })

/-- `set_options`; a null `data` is `none`. -/
def setOptions (past : ℕ → UInt8) (data : Option (List UInt8)) (m : QtpMsg) : Bool × QtpMsg :=
  match data with
  | none => (false, m)
  | some d =>
    let optBuf := if m.optLen < d.length then newBlock d.length else m.optBuf
    (true, parseOptions past { m with optLen := d.length, optBuf := memcpy optBuf 0 d })

/-- The bytes `data()` and `data_len()` give. -/
def dataBytes (m : QtpMsg) : List UInt8 := (cells m.dataBuf).take m.dataLen

/-- The bytes `options()` and `opt_len()` give. -/
def optBytes (m : QtpMsg) : List UInt8 := (cells m.optBuf).take m.optLen

/-- The head, the encoded options and the data a message holds. -/
def frame (m : QtpMsg) : Frame := ⟨m.head, m.optBytes, m.dataBytes⟩

end QtpMsg

/-- A call of a mutator. -/
inductive MsgOp
  | setHead (h : MsgHead)
  | setMsgtypeTopic (msgType topic : UInt16)
  | setMsgtype (msgType : UInt16)
  | setTopic (topic : UInt16)
  | setVersion (version : UInt8)
  | setData (data : Option (List UInt8))
  | setOptions (past : ℕ → UInt8) (data : Option (List UInt8))
  | addOption (o : IterOrder OptionRequest) (request : OptionRequest)
  | removeOption (optionId : Int64)
  | encode (o : IterOrder OptionRequest)
  | resetBody
  | resetOption
  | reset

namespace QtpMsg

/-- The message after one call. -/
def apply (m : QtpMsg) : MsgOp → QtpMsg
  | .setHead h => m.setHead h
  | .setMsgtypeTopic t p => m.setMsgtypeTopic t p
  | .setMsgtype t => m.setMsgtype t
  | .setTopic p => m.setTopic p
  | .setVersion v => m.setVersion v
  | .setData d => (m.setData d).2
  | .setOptions past d => (m.setOptions past d).2
  | .addOption o r => m.addOption o r
  | .removeOption i => (m.removeOption i).2
  | .encode o => m.encode o
  | .resetBody => m.resetBody
  | .resetOption => m.resetOption
  | .reset => m.reset

/-- The message after a sequence of calls. -/
def applyAll (m : QtpMsg) (ops : List MsgOp) : QtpMsg := ops.foldl apply m

/-! ## Buffers -/

/-- Both lengths fit the blocks behind the pointers. -/
structure BuffersFit (m : QtpMsg) : Prop where
  data : m.dataLen ≤ (cells m.dataBuf).length
  opt : m.optLen ≤ (cells m.optBuf).length

theorem written_eq (len : ℕ) (buf : Option (List UInt8)) :
    written len buf = (cells buf).take len := by
  by_cases h : len = 0
  · simp [written, h]
  · cases buf <;> simp [written, h]

theorem cells_encodeOpts (rs : List OptionRequest) (buf : Option (List UInt8)) (off : ℕ)
    (h : off + (block rs).length ≤ (cells buf).length) :
    cells (encodeOpts rs buf off) = overwrite (cells buf) off (block rs) := by
  induction rs generalizing buf off with
  | nil => simp [encodeOpts]
  | cons r rs ih =>
    have hrec : 2 * 2 + r.optionSize.toNat = r.bytes.length := by
      simp [OptionRequest.recordLen, Nat.add_comm]
    have hfields : r.bytes.length = 2 + 2 + r.optionBuf.length := by
      rw [← hrec, r.size_eq]
    rw [block_cons, List.length_append] at h
    -- the three copies of a record are one copy of its bytes
    have hone : overwrite (overwrite (overwrite (cells buf) off (u16Bytes r.optionId)) (off + 2)
        (u16Bytes r.optionSize)) (off + 2 * 2) r.optionBuf = overwrite (cells buf) off r.bytes := by
      have h₁ := @overwrite_overwrite _ (cells buf) (u16Bytes r.optionId)
        (u16Bytes r.optionSize) off (by simp; omega)
      have h₂ := @overwrite_overwrite _ (cells buf) (u16Bytes r.optionId ++ u16Bytes r.optionSize)
        r.optionBuf off (by simp; omega)
      rw [u16Bytes_length] at h₁
      rw [List.length_append, u16Bytes_length, u16Bytes_length] at h₂
      rw [h₁, h₂, OptionRequest.bytes]
    simp only [encodeOpts]
    rw [ih, cells_memcpy, cells_memcpy, cells_memcpy, hone, hrec, overwrite_overwrite, block_cons]
    · omega
    · simp only [cells_memcpy, overwrite_length]
      omega

/-- `encode` leaves the records of the options at the front of the buffer. -/
theorem cells_encode_optBuf (o : IterOrder OptionRequest) {m : QtpMsg} (h : m.BuffersFit) :
    m.opts.encodedLen ≤ (cells (m.encode o).optBuf).length ∧
      (cells (m.encode o).optBuf).take m.opts.encodedLen = block (o.order m.opts.requests) := by
  have hlen := m.opts.block_order_length o
  have hsum : ((o.order m.opts.requests).map OptionRequest.recordLen).sum = m.opts.encodedLen := by
    rw [← block_length, hlen]
  have hfit : m.opts.encodedLen ≤ (cells (if m.optLen < m.opts.encodedLen
      then newBlock m.opts.encodedLen else m.optBuf)).length := by
    split
    · rw [cells_newBlock_length]
    · have := h.opt
      omega
  have hcells := cells_encodeOpts (o.order m.opts.requests) _ 0
    (by rw [Nat.zero_add, hlen]; exact hfit)
  simp only [encode, hsum, hcells, overwrite_length]
  refine ⟨hfit, ?_⟩
  rw [← hlen]
  exact take_overwrite_zero (hlen.symm ▸ hfit)

@[simp] theorem encode_optLen (o : IterOrder OptionRequest) (m : QtpMsg) :
    (m.encode o).optLen = m.opts.encodedLen := by
  rw [← m.opts.block_order_length o, block_length]
  rfl

@[simp] theorem addOption_opts (o : IterOrder OptionRequest) (r : OptionRequest) (m : QtpMsg) :
    (m.addOption o r).opts = m.opts.set r := rfl

theorem BuffersFit.encode (o : IterOrder OptionRequest) {m : QtpMsg} (h : m.BuffersFit) :
    (m.encode o).BuffersFit where
  data := h.data
  opt := by
    rw [encode_optLen]
    exact (cells_encode_optBuf o h).1

theorem BuffersFit.empty : (({} : QtpMsg)).BuffersFit := ⟨Nat.le_refl _, Nat.le_refl _⟩

theorem BuffersFit.ofParts (past : ℕ → UInt8) {head : MsgHead} {data opt : Option (List UInt8)}
    (hd : head.datalen.toNat ≤ (cells data).length)
    (ho : head.optslen.toNat ≤ (cells opt).length) : (ofParts past head data opt).BuffersFit :=
  ⟨hd, ho⟩

theorem BuffersFit.setData {m : QtpMsg} (h : m.BuffersFit) (d : Option (List UInt8)) :
    (m.setData d).2.BuffersFit := by
  cases d with
  | none => exact ⟨Nat.zero_le _, h.opt⟩
  | some d =>
    refine ⟨?_, h.opt⟩
    simp only [QtpMsg.setData, cells_memcpy, overwrite_length]
    split
    · rw [cells_newBlock_length]
    · have := h.data
      omega

theorem BuffersFit.setOptions {m : QtpMsg} (h : m.BuffersFit) (past : ℕ → UInt8)
    (d : Option (List UInt8)) : (m.setOptions past d).2.BuffersFit := by
  cases d with
  | none => exact h
  | some d =>
    refine ⟨h.data, ?_⟩
    simp only [QtpMsg.setOptions, parseOptions, cells_memcpy, overwrite_length]
    split
    · rw [cells_newBlock_length]
    · have := h.opt
      omega

/-- The option that is removed is the one `get_option` finds. -/
theorem removeOption_eq (i : Int64) (m : QtpMsg) :
    m.removeOption i =
      match m.getOption i with
      | some _ => (true, { m with opts := m.opts.erase i })
      | none => (false, m) := by
  rw [removeOption]
  split
  next r hr =>
    have hkey : idKey r.optionId = i := by simpa using List.find?_some hr
    have hget : m.getOption i = some r :=
      OptionMap.get_eq_some_iff.mpr ⟨List.mem_of_find?_eq_some hr, hkey⟩
    rw [hget, hkey]
  next hnone =>
    have hget : m.getOption i = none := by
      rw [Option.eq_none_iff_forall_ne_some]
      intro r hr
      obtain ⟨hmem, hkey⟩ := OptionMap.get_eq_some_iff.mp hr
      exact List.find?_eq_none.mp hnone r hmem (by simpa using hkey)
    rw [hget]

theorem BuffersFit.removeOption {m : QtpMsg} (h : m.BuffersFit) (i : Int64) :
    (m.removeOption i).2.BuffersFit := by
  rw [removeOption_eq]
  split
  · exact ⟨h.data, h.opt⟩
  · exact h

theorem BuffersFit.apply {m : QtpMsg} (h : m.BuffersFit) (op : MsgOp) :
    (m.apply op).BuffersFit := by
  cases op with
  | setHead | setMsgtypeTopic | setMsgtype | setTopic | setVersion => exact ⟨h.data, h.opt⟩
  | setData d => exact h.setData d
  | setOptions past d => exact h.setOptions past d
  | addOption o r => exact BuffersFit.encode o ⟨h.data, h.opt⟩
  | removeOption i => exact h.removeOption i
  | encode o => exact h.encode o
  | resetBody => exact ⟨Nat.zero_le _, h.opt⟩
  | resetOption => exact ⟨h.data, Nat.zero_le _⟩
  | reset => exact ⟨Nat.zero_le _, Nat.zero_le _⟩

theorem BuffersFit.applyAll {m : QtpMsg} (h : m.BuffersFit) (ops : List MsgOp) :
    (m.applyAll ops).BuffersFit :=
  List.foldlRecOn ops QtpMsg.apply h fun _ h op _ => h.apply op

/-! ## Sending -/

/-- What a message writes: its head with the lengths stored into their fields, the
records of its options, and its data. -/
theorem sendData_snd (o : IterOrder OptionRequest) {m : QtpMsg} (h : m.BuffersFit) :
    (m.sendData o).2 =
      ⟨{ m.head with
          optslen := UInt16.ofNat m.opts.encodedLen, datalen := UInt32.ofNat m.dataLen },
        block (o.order m.opts.requests), m.dataBytes⟩ := by
  simp only [sendData, written_eq, encode_optLen, (cells_encode_optBuf o h).2]
  rfl

theorem dataBytes_length {m : QtpMsg} (h : m.BuffersFit) : m.dataBytes.length = m.dataLen := by
  rw [dataBytes, List.length_take, Nat.min_eq_left h.data]

end QtpMsg

end SampleTools
