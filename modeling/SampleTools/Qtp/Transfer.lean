import SampleTools.Qtp.Msg

/-!
# Copying and moving messages

A copy is put together by the setters: the head, the bytes of the option block, the data;
the options are parsed again, twice where the source has a block. A move hands over the
blocks and the lengths, and takes them from the source; the option map of the source stays
where it is. Both kinds of assignment parse into a map that is not empty.

## Main definitions

* `QtpMsg.copy`, `QtpMsg.copyAssign`: the copy constructor and assignment
* `QtpMsg.move`, `QtpMsg.moveAssign`: the target and the source of a move
* `QtpMsg.recorded`: the option the block of a message records for an id

## Main results

* `QtpMsg.getOption_parseOptions`: parsing puts the records before the options held
* `QtpMsg.recorded_encode`: after `encode` the block records the options of the map
* `QtpMsg.BuffersFit.copyAssign`, `QtpMsg.BuffersFit.move`: the lengths stay in the blocks
-/

namespace SampleTools

open LittleEndian Memory

namespace QtpMsg

/-- What a setter is passed for a buffer and its length. -/
def source (buf : Option (List UInt8)) (len : ℕ) : Option (List UInt8) :=
  buf.map fun b => b.take len

/-- `operator=(const QtpMsg& msg)`: `past` is for the parse of `set_options`, `past'` for
the last one. -/
def copyAssign (past past' : ℕ → UInt8) (msg m : QtpMsg) : QtpMsg :=
  let m := m.setHead msg.head
  let m := (m.setOptions past (source msg.optBuf msg.optLen)).2
  let m := (m.setData (source msg.dataBuf msg.dataLen)).2
  m.parseOptions past'

/-- `QtpMsg(const QtpMsg& msg)`: the same calls, on a new object. -/
def copy (past past' : ℕ → UInt8) (msg : QtpMsg) : QtpMsg :=
  let m := ({} : QtpMsg).setHead msg.head
  let m := (m.setOptions past (source msg.optBuf msg.optLen)).2
  let m := (m.setData (source msg.dataBuf msg.dataLen)).2
  m.parseOptions past'

/-- The source of a move, afterwards. -/
def movedFrom (msg : QtpMsg) : QtpMsg :=
  -- `opts_` is not touched
  { msg with
    head := { msg.head with datalen := 0, optslen := 0 }
    dataBuf := none, dataLen := 0, optBuf := none, optLen := 0 }

/-- `QtpMsg(QtpMsg&& msg)`: the new object and the source. -/
def move (past : ℕ → UInt8) (msg : QtpMsg) : QtpMsg × QtpMsg :=
  (parseOptions past
    { head := msg.head, dataLen := msg.dataLen, dataBuf := msg.dataBuf,
      optLen := msg.optLen, optBuf := msg.optBuf }, msg.movedFrom)

/-- `operator=(QtpMsg&& msg)`: the target and the source. The blocks the target had are
not freed. -/
def moveAssign (past : ℕ → UInt8) (msg m : QtpMsg) : QtpMsg × QtpMsg :=
  (parseOptions past
    { m with
      head := msg.head, optBuf := msg.optBuf, opts := msg.opts, dataBuf := msg.dataBuf,
      dataLen := msg.dataLen, optLen := msg.optLen }, msg.movedFrom)

theorem copy_eq (past past' : ℕ → UInt8) (msg : QtpMsg) :
    msg.copy past past' = copyAssign past past' msg {} := rfl

/-! ## What a block records -/

/-- The option that parsing the block of a message leaves under an id. -/
def recorded (past : ℕ → UInt8) (m : QtpMsg) (id : Int64) : Option OptionRequest :=
  (parseLoop past (cells m.optBuf) m.optLen 0 .empty).1.get id

variable {m msg : QtpMsg}

theorem getOption_parseOptions (past : ℕ → UInt8) (m : QtpMsg) (id : Int64) :
    (m.parseOptions past).getOption id = (m.recorded past id).or (m.getOption id) :=
  get_parseLoop _ _ _ _

theorem recorded_of_optLen_eq_zero (past : ℕ → UInt8) (h : m.optLen = 0) (id : Int64) :
    m.recorded past id = none := by
  rw [recorded, parseLoop_of_le (Nat.le_of_eq h), OptionMap.get_empty]

/-- A block with any bytes records some option. -/
theorem exists_recorded (past : ℕ → UInt8) (h : m.optLen ≠ 0) :
    ∃ id, m.recorded past id ≠ none :=
  exists_get_parseLoop (Nat.pos_of_ne_zero h)

/-- A block that holds records, whatever lies behind them, records the last of each id. -/
theorem recorded_of_block (past : ℕ → UInt8) {rs : List OptionRequest} {post : List UInt8}
    (hbuf : cells m.optBuf = block rs ++ post) (hlen : m.optLen = (block rs).length)
    (id : Int64) : m.recorded past id = (rs.foldl OptionMap.set .empty).get id := by
  have hparse := (@parseLoop_block past [] rs post .empty).1
  simp only [List.nil_append, List.length_nil] at hparse
  rw [recorded, hbuf, hlen, hparse]

/-- After `encode` the block and the map are in step. -/
theorem recorded_encode (past : ℕ → UInt8) (o : IterOrder OptionRequest) (h : m.BuffersFit)
    (id : Int64) : (m.encode o).recorded past id = m.getOption id := by
  obtain ⟨hfit, htake⟩ := cells_encode_optBuf o h
  have hbuf : cells (m.encode o).optBuf = block (o.order m.opts.requests) ++
      (cells (m.encode o).optBuf).drop m.opts.encodedLen := by
    rw [← htake, List.take_append_drop]
  rw [recorded_of_block past hbuf (by rw [encode_optLen, m.opts.block_order_length o]),
    OptionMap.get_foldl_set_order, getOption]

/-! ## Lengths and blocks -/

theorem BuffersFit.parseOptions (past : ℕ → UInt8) (h : m.BuffersFit) :
    (m.parseOptions past).BuffersFit := ⟨h.data, h.opt⟩

theorem BuffersFit.copyAssign (past past' : ℕ → UInt8) (msg : QtpMsg) (h : m.BuffersFit) :
    (copyAssign past past' msg m).BuffersFit := by
  have hhead : (m.setHead msg.head).BuffersFit := ⟨h.data, h.opt⟩
  exact ((hhead.setOptions past _).setData _).parseOptions past'

theorem BuffersFit.copy (past past' : ℕ → UInt8) (msg : QtpMsg) :
    (msg.copy past past').BuffersFit :=
  BuffersFit.empty.copyAssign past past' msg

theorem BuffersFit.movedFrom (msg : QtpMsg) : msg.movedFrom.BuffersFit :=
  ⟨Nat.zero_le _, Nat.zero_le _⟩

theorem BuffersFit.move (past : ℕ → UInt8) (h : msg.BuffersFit) :
    (msg.move past).1.BuffersFit := ⟨h.data, h.opt⟩

theorem BuffersFit.moveAssign (past : ℕ → UInt8) (h : msg.BuffersFit) (m : QtpMsg) :
    (moveAssign past msg m).1.BuffersFit := ⟨h.data, h.opt⟩

theorem BuffersFit.sendData (o : IterOrder OptionRequest) (h : m.BuffersFit) :
    (m.sendData o).1.BuffersFit :=
  have henc := h.encode o
  ⟨henc.data, henc.opt⟩

theorem source_length {buf : Option (List UInt8)} {len : ℕ} (h : len ≤ (cells buf).length) :
    ∀ d ∈ source buf len, d.length = len := by
  intro d hd
  obtain ⟨b, rfl, rfl⟩ := Option.map_eq_some_iff.mp hd
  rw [cells_some] at h
  rw [List.length_take, Nat.min_eq_left h]

end QtpMsg

end SampleTools
