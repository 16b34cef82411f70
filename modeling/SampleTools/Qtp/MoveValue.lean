import SampleTools.Qtp.Store

/-!
# What a move leaves behind

A move takes the blocks and the lengths from the source. The option map stays in the source,
in the constructor and in the assignment: a later `encode` puts all its options into a new
block, and `send_data` writes them. The source is left empty exactly if it had no options.

## Main definitions

* `QtpMsg.Moved`: the target has all the source had, and the source has nothing
* `QtpMsg.HasNoOptions`: no options in the map, no bytes in the option block

## Main results

* `QtpMsg.move_iff`, `QtpMsg.moveAssign_iff`: when a move leaves the source empty
* `MsgStore.moves_iff`: the same for the messages of any run
-/

namespace SampleTools

open LittleEndian Memory

namespace QtpMsg

/-- The head, the options and the data of `m` are those `msg` had; `after` has no options, no
data and zero lengths, and writes none. -/
structure Moved (msg m after : QtpMsg) : Prop where
  head : m.head = msg.head
  opts : ∀ id, m.getOption id = msg.getOption id
  data : m.dataBytes = msg.dataBytes
  noOptions : ∀ id, after.getOption id = none
  noBlocks : after.dataBuf = none ∧ after.optBuf = none
  noLengths : after.dataLen = 0 ∧ after.optLen = 0 ∧ after.head.datalen = 0 ∧
    after.head.optslen = 0
  encoded : ∀ o, (after.encode o).optLen = 0 ∧ (after.encode o).head.optslen = 0 ∧
    (after.encode o).head.datalen = 0
  sent : ∀ o, (after.sendData o).2 = ⟨after.head, [], []⟩

/-- No option in the map, and none in the block. -/
structure HasNoOptions (msg : QtpMsg) : Prop where
  opts : ∀ id, msg.getOption id = none
  optLen : msg.optLen = 0

variable {past : ℕ → UInt8} {m msg : QtpMsg}

theorem requests_eq_nil (h : ∀ id, m.getOption id = none) : m.opts.requests = [] := by
  rw [List.eq_nil_iff_forall_not_mem]
  intro r hr
  have hget : m.getOption (idKey r.optionId) = some r := OptionMap.get_eq_some_iff.mpr ⟨hr, rfl⟩
  rw [h] at hget
  cases hget

theorem encodedLen_eq_zero (h : ∀ id, m.getOption id = none) : m.opts.encodedLen = 0 := by
  rw [OptionMap.encodedLen, requests_eq_nil h, List.map_nil, List.sum_nil]

/-- A source without options is left empty, and stays so. -/
theorem movedFrom_encode (h : ∀ id, msg.getOption id = none) (o : IterOrder OptionRequest) :
    (msg.movedFrom.encode o).optLen = 0 ∧ (msg.movedFrom.encode o).head.optslen = 0 ∧
      (msg.movedFrom.encode o).head.datalen = 0 := by
  have hlen : (msg.movedFrom.encode o).optLen = 0 := by
    rw [encode_optLen]
    exact encodedLen_eq_zero h
  refine ⟨hlen, ?_, rfl⟩
  show UInt16.ofNat (msg.movedFrom.encode o).optLen = 0
  rw [hlen]
  rfl

theorem movedFrom_sendData (h : ∀ id, msg.getOption id = none) (o : IterOrder OptionRequest) :
    (msg.movedFrom.sendData o).2 = ⟨msg.movedFrom.head, [], []⟩ := by
  have hreq : msg.movedFrom.opts.requests = [] := requests_eq_nil h
  have horder : o.order msg.movedFrom.opts.requests = [] := by
    rw [hreq]
    exact (o.perm []).eq_nil
  have hlen : msg.movedFrom.opts.encodedLen = 0 := encodedLen_eq_zero h
  rw [sendData_snd o (.movedFrom msg), horder, hlen]
  rfl

/-- The block comes with the move and is parsed, over whatever options the target was
given. -/
theorem moved_iff {target : QtpMsg} (hhead : target.head = msg.head)
    (hdata : target.dataBytes = msg.dataBytes) (hlen : target.optLen = msg.optLen)
    (hopts : ∀ id, target.getOption id = none ∨ target.getOption id = msg.getOption id) :
    Moved msg (target.parseOptions past) msg.movedFrom ↔ msg.HasNoOptions := by
  constructor
  · intro h
    have hnone : ∀ id, msg.getOption id = none := h.noOptions
    refine ⟨hnone, ?_⟩
    by_contra hne
    -- the block records an option, and the target has none
    rw [← hlen] at hne
    obtain ⟨id, hid⟩ := exists_recorded past hne
    have htarget := (h.opts id).trans (hnone id)
    rw [getOption_parseOptions, Option.or_eq_none_iff] at htarget
    exact hid htarget.1
  · rintro ⟨hnone, hzero⟩
    refine ⟨hhead, fun id => ?_, hdata, hnone, ⟨rfl, rfl⟩, ⟨rfl, rfl, rfl, rfl⟩,
      movedFrom_encode hnone, movedFrom_sendData hnone⟩
    rw [getOption_parseOptions, recorded_of_optLen_eq_zero past (hlen.trans hzero),
      Option.none_or, hnone]
    rcases hopts id with h | h
    · exact h
    · rw [h, hnone]

theorem move_iff (past : ℕ → UInt8) (msg : QtpMsg) :
    Moved msg (msg.move past).1 (msg.move past).2 ↔ msg.HasNoOptions :=
  moved_iff rfl rfl rfl fun _ => .inl rfl

theorem moveAssign_iff (past : ℕ → UInt8) (msg m : QtpMsg) :
    Moved msg (moveAssign past msg m).1 (moveAssign past msg m).2 ↔ msg.HasNoOptions :=
  moved_iff rfl rfl rfl fun _ => .inr rfl

/-- A message with an option, moved: the source still has the option and sends it. -/
theorem move_leaves_options :
    let msg := ({} : QtpMsg).apply (.addOption .stored (.ofInt64 OptionId.sessionId.toU16 5))
    let after := (msg.move fun _ => 0).2
    after.getOption OptionId.sessionId.toI64 = some (.ofInt64 OptionId.sessionId.toU16 5) ∧
      (after.sendData .stored).2.opts =
        OptionRequest.bytes (.ofInt64 OptionId.sessionId.toU16 5) ∧
      (moveAssign (fun _ => 0) msg {}).2 = after := by
  refine ⟨by decide +kernel, by decide +kernel, rfl⟩

end QtpMsg

namespace MsgStore

/-- **Moves.** A move to a new message and a move to another one give the target all the
source had and leave the source empty, exactly if the source had no options. -/
theorem moves_iff (s : MsgStore) {j : ℕ} {msg : QtpMsg} (hj : s j = some msg)
    (past : ℕ → UInt8) :
    (∀ i, s i = none → ∃ s', s.step (.move i j past) = some s' ∧
      ((∃ m after, s' i = some m ∧ s' j = some after ∧ msg.Moved m after) ↔
        msg.HasNoOptions)) ∧
    ∀ i target, s i = some target → i ≠ j → ∃ s', s.step (.moveAssign i j past) = some s' ∧
      ((∃ m after, s' i = some m ∧ s' j = some after ∧ msg.Moved m after) ↔
        msg.HasNoOptions) := by
  refine ⟨fun i hi => ?_, fun i target hi hne => ?_⟩
  · have hne : i ≠ j := by
      rintro rfl
      rw [hi] at hj
      cases hj
    refine ⟨_, by rw [step, hi, hj], ?_⟩
    rw [put_of_ne _ _ hne, put_self, put_self, ← QtpMsg.move_iff past msg]
    simp
  · refine ⟨_, by rw [step, hi, hj], ?_⟩
    rw [put_of_ne _ _ hne, put_self, put_self, ← QtpMsg.moveAssign_iff past msg target]
    simp

/-- A message with data and no options is moved whole. -/
theorem moves_without_options :
    let s : MsgStore :=
      MsgStore.put (fun _ => none) 0 (({} : QtpMsg).apply (.setData (some [1, 2])))
    ∃ s' m after, s.step (.move 1 0 fun _ => 0) = some s' ∧ s' 1 = some m ∧
      s' 0 = some after ∧ QtpMsg.Moved (({} : QtpMsg).apply (.setData (some [1, 2]))) m after := by
  intro s
  obtain ⟨s', hs, hiff⟩ := (moves_iff s (j := 0) (put_self ..) fun _ => 0).1 1 rfl
  obtain ⟨m, after, hm, hafter, hmoved⟩ := hiff.mpr ⟨fun _ => rfl, rfl⟩
  exact ⟨s', m, after, hs, hm, hafter, hmoved⟩

end MsgStore

end SampleTools
