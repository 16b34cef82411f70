import SampleTools.Qtp.Store

/-!
# Is a copy a copy?

A copy takes its options from the option block of the source, and `remove_option` does not
touch that block: what was removed since the last `encode` comes back. A copy assignment
parses into the options the target has; what the block of the source does not record, the
target keeps. A copy is a copy exactly if neither happens.

## Main definitions

* `QtpMsg.IsCopy`: equal head, options and data
* `QtpMsg.CopyFits`: the block of the source records its options, and the target has no others

## Main results

* `QtpMsg.copyAssign_iff`: when an assignment makes a copy
* `QtpMsg.copyFits_of_encode`: a source that was encoded last is copied by the constructor
* `MsgStore.copies_iff`: the same for the messages of any run
-/

namespace SampleTools

open LittleEndian Memory

namespace QtpMsg

/-- The head fields, the options and the data of `m` are those of `msg`. -/
structure IsCopy (m msg : QtpMsg) : Prop where
  head : m.head = msg.head
  opts : ∀ id, m.getOption id = msg.getOption id
  data : m.dataBytes = msg.dataBytes

/-- The target with the option block of the source copied over its own. -/
def withBlock (msg m : QtpMsg) : QtpMsg :=
  { m with
    optLen := msg.optLen
    optBuf := memcpy (if m.optLen < msg.optLen then newBlock msg.optLen else m.optBuf) 0
      msg.optBytes }

/-- The option recorded for an id where an assignment parses: in the block of the source,
twice, or, if the source has no block, in the target's own. -/
def recordedFor (past past' : ℕ → UInt8) (msg m : QtpMsg) (id : Int64) : Option OptionRequest :=
  match msg.optBuf with
  | none => m.recorded past' id
  | some _ => ((withBlock msg m).recorded past' id).or ((withBlock msg m).recorded past id)

/-- The length in the head is that of the data, unless there is no data to copy; what is
recorded is what the source holds; and what is not recorded the target and the source hold
alike. -/
structure CopyFits (past past' : ℕ → UInt8) (msg m : QtpMsg) : Prop where
  head : msg.dataBuf = none ∨ msg.head.datalen = UInt32.ofNat msg.dataLen
  recorded : ∀ id r, recordedFor past past' msg m id = some r → msg.getOption id = some r
  unrecorded : ∀ id, recordedFor past past' msg m id = none → m.getOption id = msg.getOption id

variable {past past' : ℕ → UInt8} {m msg : QtpMsg}

theorem getOption_setData (d : Option (List UInt8)) (m : QtpMsg) (id : Int64) :
    (m.setData d).2.getOption id = m.getOption id := by
  cases d <;> rfl

theorem recorded_setData (past : ℕ → UInt8) (d : Option (List UInt8)) (m : QtpMsg) (id : Int64) :
    (m.setData d).2.recorded past id = m.recorded past id := by
  cases d <;> rfl

theorem source_some {buf : Option (List UInt8)} {b : List UInt8} (hb : buf = some b) (len : ℕ) :
    source buf len = some ((cells buf).take len) := by
  rw [hb]
  rfl

/-- The options of the target after an assignment. -/
theorem getOption_copyAssign (hmsg : msg.BuffersFit) (id : Int64) :
    (copyAssign past past' msg m).getOption id =
      (recordedFor past past' msg m id).or (m.getOption id) := by
  rw [copyAssign, getOption_parseOptions, recorded_setData, getOption_setData, recordedFor]
  split
  next hnone =>
    rw [hnone]
    rfl
  next b hsome =>
    have hlen := source_length hmsg.opt _ (source_some hsome msg.optLen)
    -- `set_options` puts the block in place and parses it into the options of the target
    have hset : ((m.setHead msg.head).setOptions past (source msg.optBuf msg.optLen)).2 =
        (withBlock msg (m.setHead msg.head)).parseOptions past := by
      rw [source_some hsome, setOptions]
      simp only [hlen]
      rfl
    rw [hset, getOption_parseOptions, ← Option.or_assoc]
    rfl

theorem head_copyAssign (hmsg : msg.BuffersFit) :
    (copyAssign past past' msg m).head = msg.head ↔
      msg.dataBuf = none ∨ msg.head.datalen = UInt32.ofNat msg.dataLen := by
  have hopts : ∀ d, ((m.setHead msg.head).setOptions past d).2.head = msg.head := by
    rintro (_ | d) <;> rfl
  cases hbuf : msg.dataBuf with
  | none =>
    refine iff_of_true ?_ (.inl rfl)
    rw [copyAssign, hbuf]
    exact hopts _
  | some b =>
    have hlen := source_length hmsg.data _ (source_some hbuf msg.dataLen)
    have hhead : (copyAssign past past' msg m).head =
        { msg.head with datalen := UInt32.ofNat msg.dataLen } := by
      rw [copyAssign, source_some hbuf]
      show { (((m.setHead msg.head).setOptions past _).2).head with
        datalen := UInt32.ofNat ((cells msg.dataBuf).take msg.dataLen).length } = _
      rw [hopts, hlen]
    rw [hhead]
    simp only [reduceCtorEq, false_or]
    constructor
    · intro h
      exact (congrArg MsgHead.datalen h).symm
    · intro h
      rw [← h]

theorem dataBytes_copyAssign (hmsg : msg.BuffersFit) (hm : m.BuffersFit) :
    (copyAssign past past' msg m).dataBytes = msg.dataBytes := by
  cases hbuf : msg.dataBuf with
  | none =>
    rw [copyAssign, hbuf, dataBytes, dataBytes, hbuf, cells_none, List.take_nil]
    rfl
  | some b =>
    have hlen := source_length hmsg.data _ (source_some hbuf msg.dataLen)
    have hopts : ∀ d, ((m.setHead msg.head).setOptions past d).2.BuffersFit := by
      have hhead : (m.setHead msg.head).BuffersFit := ⟨hm.data, hm.opt⟩
      exact hhead.setOptions past
    -- the data is copied to the front of a block that has room for it
    have hfit := (hopts (source msg.optBuf msg.optLen)).setData (some msg.dataBytes)
    rw [copyAssign, source_some hbuf, dataBytes]
    simp only [parseOptions, setData, cells_memcpy]
    refine take_overwrite_zero ?_
    have hdata := hfit.data
    simp only [setData, cells_memcpy, overwrite_length] at hdata
    exact hdata

/-- When an assignment makes a copy. -/
theorem copyAssign_iff (hmsg : msg.BuffersFit) (hm : m.BuffersFit) :
    (copyAssign past past' msg m).IsCopy msg ↔ CopyFits past past' msg m := by
  constructor
  · rintro ⟨hhead, hopts, -⟩
    refine ⟨(head_copyAssign hmsg).mp hhead, fun id r hr => ?_, fun id hnone => ?_⟩
    · rw [← hopts, getOption_copyAssign hmsg, hr]
      rfl
    · rw [← hopts, getOption_copyAssign hmsg, hnone, Option.none_or]
  · rintro ⟨hhead, hrec, hunrec⟩
    refine ⟨(head_copyAssign hmsg).mpr hhead, fun id => ?_, dataBytes_copyAssign hmsg hm⟩
    rw [getOption_copyAssign hmsg]
    cases hr : recordedFor past past' msg m id with
    | none => rw [Option.none_or, hunrec id hr]
    | some r => rw [hrec id r hr, Option.some_or]

/-- The block of a new copy holds the option bytes of the source, and no others. -/
theorem cells_withBlock_new (hmsg : msg.BuffersFit) :
    cells (withBlock msg {}).optBuf = msg.optBytes := by
  have hlen : msg.optBytes.length = msg.optLen := by
    rw [optBytes, List.length_take, Nat.min_eq_left hmsg.opt]
  simp only [withBlock, cells_memcpy]
  refine overwrite_of_length_eq ?_
  rw [hlen]
  split
  · exact cells_newBlock_length _
  next hzero => exact (Nat.eq_zero_of_not_pos hzero).symm

theorem recordedFor_encode (o : IterOrder OptionRequest) (h : m.BuffersFit) (id : Int64) :
    recordedFor past past' (m.encode o) {} id = m.getOption id := by
  rw [recordedFor]
  split
  next hnone =>
    -- no block, so there is no option either
    have hopt := (h.encode o).opt
    rw [hnone] at hopt
    rw [recorded_of_optLen_eq_zero past' rfl, ← recorded_encode past' o h id]
    exact (recorded_of_optLen_eq_zero past' (Nat.le_zero.mp hopt) id).symm
  next b hsome =>
    have hbytes : (m.encode o).optBytes = block (o.order m.opts.requests) := by
      rw [optBytes, encode_optLen]
      exact (cells_encode_optBuf o h).2
    have hcells : cells (withBlock (m.encode o) {}).optBuf =
        block (o.order m.opts.requests) ++ [] := by
      rw [cells_withBlock_new (h.encode o), hbytes, List.append_nil]
    have hlen : (withBlock (m.encode o) {}).optLen = (block (o.order m.opts.requests)).length := by
      rw [m.opts.block_order_length o, ← encode_optLen o]
      rfl
    rw [recorded_of_block past hcells hlen, recorded_of_block past' hcells hlen, Option.or_self,
      OptionMap.get_foldl_set_order, getOption]

/-- A message that was encoded last is what its copy is. -/
theorem copyFits_of_encode (o : IterOrder OptionRequest) (h : m.BuffersFit) :
    CopyFits past past' (m.encode o) {} := by
  have hget : ∀ id, (m.encode o).getOption id = m.getOption id := fun _ => rfl
  refine ⟨.inr rfl, fun id r hr => ?_, fun id hnone => ?_⟩
  · rw [hget, ← recordedFor_encode o h, hr]
  · rw [hget, ← recordedFor_encode o h, hnone]
    rfl

/-- An option that was added and removed comes back in a copy; and a target keeps its option
when it is assigned a message that has none. -/
theorem copy_differs :
    let past := fun _ => 0
    let added := ({} : QtpMsg).apply
      (.addOption .stored (.ofInt64 OptionId.sessionId.toU16 5))
    let removed := added.apply (.removeOption OptionId.sessionId.toI64)
    removed.getOption OptionId.sessionId.toI64 = none ∧
      (removed.copy past past).getOption OptionId.sessionId.toI64 =
        some (.ofInt64 OptionId.sessionId.toU16 5) ∧
      ({} : QtpMsg).getOption OptionId.sessionId.toI64 = none ∧
      (copyAssign past past {} added).getOption OptionId.sessionId.toI64 =
        some (.ofInt64 OptionId.sessionId.toU16 5) := by
  decide +kernel

end QtpMsg

namespace MsgStore

/-- **Copies.** In every run, constructing a copy and assigning a copy leave the source as it
is, and give the target its head, options and data exactly under `CopyFits`. A message assigned
to itself keeps its head, options and data exactly under `CopyFits`. -/
theorem copies_iff {trace : List (MsgStore × StoreOp)} {s : MsgStore}
    (hrun : Run step (fun _ => none) trace s) {j : ℕ} {msg : QtpMsg} (hj : s j = some msg)
    (past past' : ℕ → UInt8) :
    (∀ i, s i = none → ∃ s', s.step (.copy i j past past') = some s' ∧ s' j = some msg ∧
      ((∃ m, s' i = some m ∧ m.IsCopy msg) ↔ QtpMsg.CopyFits past past' msg {})) ∧
    (∀ i target, s i = some target → i ≠ j →
      ∃ s', s.step (.assign i j past past') = some s' ∧ s' j = some msg ∧
        ((∃ m, s' i = some m ∧ m.IsCopy msg) ↔ QtpMsg.CopyFits past past' msg target)) ∧
    ∃ s', s.step (.assign j j past past') = some s' ∧
      ((∃ m, s' j = some m ∧ m.IsCopy msg) ↔ QtpMsg.CopyFits past past' msg msg) := by
  have hfit := AllFit.of_run hrun
  refine ⟨fun i hi => ?_, fun i target hi hne => ?_, ?_⟩
  · have hne : j ≠ i := by
      rintro rfl
      rw [hi] at hj
      cases hj
    refine ⟨s.put i (msg.copy past past'), by rw [step, hi, hj], ?_, ?_⟩
    · rw [put_of_ne s _ hne, hj]
    · rw [put_self, QtpMsg.copy_eq, ← QtpMsg.copyAssign_iff (hfit j msg hj) .empty]
      simp
  · refine ⟨s.put i (.copyAssign past past' msg target), by rw [step, hi, hj], ?_, ?_⟩
    · rw [put_of_ne s _ hne.symm, hj]
    · rw [put_self, ← QtpMsg.copyAssign_iff (hfit j msg hj) (hfit i target hi)]
      simp
  · refine ⟨s.put j (.copyAssign past past' msg msg), by rw [step, hj], ?_⟩
    rw [put_self, ← QtpMsg.copyAssign_iff (hfit j msg hj) (hfit j msg hj)]
    simp

/-- A message with data and an option, copied as `add_option` left it. -/
theorem copies_encoded :
    ∃ (trace : List (MsgStore × StoreOp)) (s s' : MsgStore) (msg : QtpMsg),
      Run step (fun _ => none) trace s ∧
      trace.map Prod.snd = [.new 0, .call 0 (.setData (some [1, 2, 3])),
        .call 0 (.addOption .stored (.ofInt64 OptionId.sessionId.toU16 5))] ∧
      s 0 = some msg ∧ s.step (.copy 1 0 (fun _ => 0) (fun _ => 0)) = some s' ∧
      s' 0 = some msg ∧ ∃ m, s' 1 = some m ∧ m.IsCopy msg := by
  have hrun : Run step (fun _ => none) _ _ :=
    Run.nil.snoc (a := .new 0) rfl |>.snoc (a := .call 0 (.setData (some [1, 2, 3]))) rfl
    |>.snoc (a := .call 0 (.addOption .stored (.ofInt64 OptionId.sessionId.toU16 5))) rfl
  obtain ⟨s', hs, hsource, hiff⟩ :=
    (copies_iff hrun (j := 0) rfl (fun _ => 0) (fun _ => 0)).1 1 rfl
  exact ⟨_, _, s', _, hrun, rfl, rfl, hs, hsource, hiff.mpr
    (QtpMsg.copyFits_of_encode .stored ⟨Nat.le_refl _, Nat.le_refl _⟩)⟩

end MsgStore

end SampleTools
