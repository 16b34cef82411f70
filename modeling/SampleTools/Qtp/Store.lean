import Mathlib.Logic.Function.Basic
import SampleTools.Library.Run
import SampleTools.Qtp.Transfer

/-!
# Any number of messages

A program holds messages under names; it constructs them, copies and moves them onto each
other, calls their methods and destroys them. No two messages ever share a block, so each is
a value of its own. What was allocated for a block is stored nowhere: that the lengths stay
inside the blocks is an invariant of all the operations together.

## Main definitions

* `QtpMsg.writes`: the copies into blocks that a mutator makes
* `MsgStore`, `StoreOp`, `MsgStore.step`: the messages of a program, and one operation
* `MsgStore.AllFit`: the lengths of every message stay inside its blocks

## Main results

* `MsgStore.capacity_of_run`: in every run the lengths fit, and every copy stays in its block
-/

namespace SampleTools

open LittleEndian Memory

/-- A `memcpy` into a block of `size` bytes. -/
structure Write where
  access : Access
  size : ℕ
  deriving DecidableEq, Repr

/-- The copy stays in the block. -/
def Write.Inside (w : Write) : Prop := w.access.Within w.size

namespace QtpMsg

/-! ## The copies -/

/-- The copy of `set_data`. -/
def setDataWrites (data : Option (List UInt8)) (m : QtpMsg) : List Write :=
  match data with
  | none => []
  | some d =>
    let dataBuf := if m.dataLen < d.length then newBlock d.length else m.dataBuf
    [⟨⟨0, d.length⟩, (cells dataBuf).length⟩]

/-- The copy of `set_options`. -/
def setOptionsWrites (data : Option (List UInt8)) (m : QtpMsg) : List Write :=
  match data with
  | none => []
  | some d =>
    let optBuf := if m.optLen < d.length then newBlock d.length else m.optBuf
    [⟨⟨0, d.length⟩, (cells optBuf).length⟩]

/-- The copies of `encode_opts` into a block of `size` bytes, from an offset on. -/
def encodeOptsWrites (size : ℕ) : List OptionRequest → ℕ → List Write
  | [], _ => []
  | i :: rest, offset =>
    [⟨⟨offset, 2⟩, size⟩, ⟨⟨offset + 2, 2⟩, size⟩, ⟨⟨offset + 2 * 2, i.optionSize.toNat⟩, size⟩] ++
      encodeOptsWrites size rest (offset + (2 * 2 + i.optionSize.toNat))

/-- The copies of `encode`. -/
def encodeWrites (o : IterOrder OptionRequest) (m : QtpMsg) : List Write :=
  let optLen := ((o.order m.opts.requests).map OptionRequest.recordLen).sum
  let optBuf := if m.optLen < optLen then newBlock optLen else m.optBuf
  encodeOptsWrites (cells optBuf).length (o.order m.opts.requests) 0

/-- The copies a mutator makes. -/
def writes (m : QtpMsg) : MsgOp → List Write
  | .setData d => m.setDataWrites d
  | .setOptions _ d => m.setOptionsWrites d
  | .addOption o r => encodeWrites o { m with opts := m.opts.set r }
  | .encode o => m.encodeWrites o
  | .setHead _ | .setMsgtypeTopic .. | .setMsgtype _ | .setTopic _ | .setVersion _
  | .removeOption _ | .resetBody | .resetOption | .reset => []

/-- The copies of the two setters that a copy calls. -/
def copyAssignWrites (past : ℕ → UInt8) (msg m : QtpMsg) : List Write :=
  let m := m.setHead msg.head
  let options := source msg.optBuf msg.optLen
  m.setOptionsWrites options ++
    (m.setOptions past options).2.setDataWrites (source msg.dataBuf msg.dataLen)

variable {m msg : QtpMsg}

theorem BuffersFit.setDataWrites (h : m.BuffersFit) (d : Option (List UInt8)) :
    ∀ w ∈ m.setDataWrites d, w.Inside := by
  cases d with
  | none => simp [QtpMsg.setDataWrites]
  | some d =>
    simp only [QtpMsg.setDataWrites, List.forall_mem_singleton, Write.Inside, Access.Within]
    split
    · rw [cells_newBlock_length, Nat.zero_add]
    · have := h.data
      omega

theorem BuffersFit.setOptionsWrites (h : m.BuffersFit) (d : Option (List UInt8)) :
    ∀ w ∈ m.setOptionsWrites d, w.Inside := by
  cases d with
  | none => simp [QtpMsg.setOptionsWrites]
  | some d =>
    simp only [QtpMsg.setOptionsWrites, List.forall_mem_singleton, Write.Inside, Access.Within]
    split
    · rw [cells_newBlock_length, Nat.zero_add]
    · have := h.opt
      omega

theorem encodeOptsWrites_inside {size : ℕ} (rs : List OptionRequest) (offset : ℕ)
    (h : offset + (rs.map OptionRequest.recordLen).sum ≤ size) :
    ∀ w ∈ encodeOptsWrites size rs offset, w.Inside := by
  induction rs generalizing offset with
  | nil => simp [encodeOptsWrites]
  | cons r rs ih =>
    simp only [List.map_cons, List.sum_cons, OptionRequest.recordLen] at h
    simp only [encodeOptsWrites, List.forall_mem_append, List.forall_mem_cons, Write.Inside,
      Access.Within]
    -- the record ends where the copies of the next one begin
    refine ⟨⟨by omega, by omega, by omega, by simp⟩, ih _ ?_⟩
    omega

theorem BuffersFit.encodeWrites (h : m.BuffersFit) (o : IterOrder OptionRequest) :
    ∀ w ∈ m.encodeWrites o, w.Inside := by
  refine encodeOptsWrites_inside _ _ ?_
  split
  · rw [cells_newBlock_length, Nat.zero_add]
  · have := h.opt
    omega

theorem BuffersFit.writes (h : m.BuffersFit) (op : MsgOp) : ∀ w ∈ m.writes op, w.Inside := by
  cases op with
  | setData d => exact h.setDataWrites d
  | setOptions past d => exact h.setOptionsWrites d
  | addOption o r =>
    have hset : ({ m with opts := m.opts.set r } : QtpMsg).BuffersFit := ⟨h.data, h.opt⟩
    exact hset.encodeWrites o
  | encode o => exact h.encodeWrites o
  | setHead | setMsgtypeTopic | setMsgtype | setTopic | setVersion | removeOption | resetBody
  | resetOption | reset => exact fun w hw => by cases hw

theorem BuffersFit.copyAssignWrites (h : m.BuffersFit) (past : ℕ → UInt8) (msg : QtpMsg) :
    ∀ w ∈ copyAssignWrites past msg m, w.Inside := by
  have hhead : (m.setHead msg.head).BuffersFit := ⟨h.data, h.opt⟩
  intro w hw
  rcases List.mem_append.mp hw with hw | hw
  · exact hhead.setOptionsWrites _ w hw
  · exact (hhead.setOptions past _).setDataWrites _ w hw

end QtpMsg

/-! ## The messages of a program -/

/-- The messages of a program, under their names. -/
abbrev MsgStore := ℕ → Option QtpMsg

/-- An operation on the messages: `i` is the object it makes or changes, `j` the source. -/
inductive StoreOp
  | new (i : ℕ)
  | ofParts (i : ℕ) (past : ℕ → UInt8) (head : MsgHead) (data opt : Option (List UInt8))
  | copy (i j : ℕ) (past past' : ℕ → UInt8)
  | move (i j : ℕ) (past : ℕ → UInt8)
  | assign (i j : ℕ) (past past' : ℕ → UInt8)
  | moveAssign (i j : ℕ) (past : ℕ → UInt8)
  | call (i : ℕ) (op : MsgOp)
  | parseOptions (i : ℕ) (past : ℕ → UInt8)
  | sendData (i : ℕ) (o : IterOrder OptionRequest)
  | destroy (i : ℕ)

namespace MsgStore

/-- The object `i` becomes `m`. -/
def put (s : MsgStore) (i : ℕ) (m : QtpMsg) : MsgStore := Function.update s i (some m)

@[simp] theorem put_self (s : MsgStore) (i : ℕ) (m : QtpMsg) : s.put i m i = some m :=
  Function.update_self ..

theorem put_of_ne (s : MsgStore) {i j : ℕ} (m : QtpMsg) (h : j ≠ i) : s.put i m j = s j :=
  Function.update_of_ne h ..

/-- The messages afterwards; none where the objects are not there, or a name is taken, or
the blocks passed to the constructor are smaller than the head says. -/
def step (s : MsgStore) : StoreOp → Option MsgStore
  | .new i =>
    match s i with
    | none => some (s.put i {})
    | some _ => none
  | .ofParts i past head data opt =>
    match s i with
    | none =>
      if head.datalen.toNat ≤ (cells data).length ∧ head.optslen.toNat ≤ (cells opt).length then
        some (s.put i (.ofParts past head data opt))
      else none
    | some _ => none
  | .copy i j past past' =>
    match s i, s j with
    | none, some msg => some (s.put i (msg.copy past past'))
    | _, _ => none
  | .move i j past =>
    match s i, s j with
    | none, some msg => some ((s.put i (msg.move past).1).put j (msg.move past).2)
    | _, _ => none
  | .assign i j past past' =>
    match s i, s j with
    | some m, some msg => some (s.put i (.copyAssign past past' msg m))
    | _, _ => none
  | .moveAssign i j past =>
    match s i, s j with
    | some m, some msg =>
      -- the source is emptied last, also when it is the target
      some ((s.put i (QtpMsg.moveAssign past msg m).1).put j (QtpMsg.moveAssign past msg m).2)
    | _, _ => none
  | .call i op => (s i).map fun m => s.put i (m.apply op)
  | .parseOptions i past => (s i).map fun m => s.put i (m.parseOptions past)
  | .sendData i o => (s i).map fun m => s.put i (m.sendData o).1
  | .destroy i => (s i).map fun _ => Function.update s i none

/-- The copies into blocks that an operation makes. -/
def writes (s : MsgStore) : StoreOp → List Write
  | .copy _ j past _ => (s j).elim [] fun msg => QtpMsg.copyAssignWrites past msg {}
  | .assign i j past _ =>
    match s i, s j with
    | some m, some msg => QtpMsg.copyAssignWrites past msg m
    | _, _ => []
  | .call i op => (s i).elim [] fun m => m.writes op
  | .sendData i o => (s i).elim [] fun m => m.encodeWrites o
  | .new _ | .ofParts .. | .move .. | .moveAssign .. | .parseOptions .. | .destroy _ => []

/-- The lengths of every message stay inside its blocks. -/
def AllFit (s : MsgStore) : Prop := ∀ i m, s i = some m → m.BuffersFit

variable {s s' : MsgStore} {op : StoreOp}

theorem AllFit.empty : AllFit fun _ => none := fun _ _ h => by cases h

theorem AllFit.put (h : s.AllFit) (i : ℕ) {m : QtpMsg} (hm : m.BuffersFit) :
    (s.put i m).AllFit := by
  intro j m' hj
  by_cases hji : j = i
  · subst hji
    rw [put_self] at hj
    cases hj
    exact hm
  · rw [put_of_ne s m hji] at hj
    exact h j m' hj

theorem AllFit.destroy (h : s.AllFit) (i : ℕ) : AllFit (Function.update s i none) := by
  intro j m hj
  by_cases hji : j = i
  · subst hji
    rw [Function.update_self] at hj
    cases hj
  · rw [Function.update_of_ne hji] at hj
    exact h j m hj

theorem AllFit.step (h : s.AllFit) (hs : s.step op = some s') : s'.AllFit := by
  cases op with
  | new i =>
    simp only [MsgStore.step] at hs
    split at hs
    · cases hs
      exact h.put i .empty
    · cases hs
  | ofParts i past head data opt =>
    simp only [MsgStore.step] at hs
    split at hs
    · split at hs
      next hfit =>
        cases hs
        exact h.put i (.ofParts past hfit.1 hfit.2)
      · cases hs
    · cases hs
  | copy i j past past' =>
    simp only [MsgStore.step] at hs
    split at hs
    · cases hs
      exact h.put i (.copy past past' _)
    · cases hs
  | move i j past =>
    simp only [MsgStore.step] at hs
    split at hs
    next msg _ hj =>
      cases hs
      exact (h.put i ((h j msg hj).move past)).put j (.movedFrom msg)
    · cases hs
  | assign i j past past' =>
    simp only [MsgStore.step] at hs
    split at hs
    next m msg hi _ =>
      cases hs
      exact h.put i ((h i m hi).copyAssign past past' msg)
    · cases hs
  | moveAssign i j past =>
    simp only [MsgStore.step] at hs
    split at hs
    next m msg _ hj =>
      cases hs
      exact (h.put i ((h j msg hj).moveAssign past m)).put j (.movedFrom msg)
    · cases hs
  | call i op =>
    obtain ⟨m, hm, rfl⟩ := Option.map_eq_some_iff.mp hs
    exact h.put i ((h i m hm).apply op)
  | parseOptions i past =>
    obtain ⟨m, hm, rfl⟩ := Option.map_eq_some_iff.mp hs
    exact h.put i ((h i m hm).parseOptions past)
  | sendData i o =>
    obtain ⟨m, hm, rfl⟩ := Option.map_eq_some_iff.mp hs
    exact h.put i ((h i m hm).sendData o)
  | destroy i =>
    obtain ⟨m, -, rfl⟩ := Option.map_eq_some_iff.mp hs
    exact h.destroy i

theorem AllFit.writes (h : s.AllFit) (op : StoreOp) : ∀ w ∈ s.writes op, w.Inside := by
  cases op with
  | copy i j past past' =>
    cases hj : s j with
    | none => simp [MsgStore.writes, hj]
    | some msg =>
      simp only [MsgStore.writes, hj, Option.elim_some]
      exact QtpMsg.BuffersFit.empty.copyAssignWrites past msg
  | assign i j past past' =>
    simp only [MsgStore.writes]
    split
    next m msg hi _ => exact (h i m hi).copyAssignWrites past msg
    next => exact fun w hw => by cases hw
  | call i op =>
    cases hi : s i with
    | none => simp [MsgStore.writes, hi]
    | some m =>
      simp only [MsgStore.writes, hi, Option.elim_some]
      exact (h i m hi).writes op
  | sendData i o =>
    cases hi : s i with
    | none => simp [MsgStore.writes, hi]
    | some m =>
      simp only [MsgStore.writes, hi, Option.elim_some]
      exact (h i m hi).encodeWrites o
  | new | ofParts | move | moveAssign | parseOptions | destroy => exact fun w hw => by cases hw

theorem AllFit.of_run {trace : List (MsgStore × StoreOp)}
    (h : Run MsgStore.step (fun _ => none) trace s) : s.AllFit :=
  h.invariant AllFit.empty AllFit.step

/-- **Capacity.** Whatever a program does with its messages, the block behind each pointer
has at least as many bytes as the length beside it says, and every copy of `set_data`,
`set_options` and `encode_opts` stays in the block it copies into. -/
theorem capacity_of_run {trace : List (MsgStore × StoreOp)}
    (h : Run step (fun _ => none) trace s) :
    (∀ i m, s i = some m →
      m.dataLen ≤ (cells m.dataBuf).length ∧ m.optLen ≤ (cells m.optBuf).length) ∧
      ∀ e ∈ trace, ∀ w ∈ e.1.writes e.2, w.Inside := by
  refine ⟨fun i m hm => ⟨(AllFit.of_run h i m hm).data, (AllFit.of_run h i m hm).opt⟩, ?_⟩
  induction h with
  | nil => exact fun e he => by cases he
  | snoc hrun _ ih =>
    rw [List.forall_mem_append, List.forall_mem_singleton]
    exact ⟨ih, (AllFit.of_run hrun).writes _⟩

/-- Data that shrinks and grows again, a copy, and a move back onto the source. -/
theorem capacity_two_messages :
    ∃ (trace : List (MsgStore × StoreOp)) (s : MsgStore),
      Run step (fun _ => none) trace s ∧
      trace.map Prod.snd =
        [.new 0, .call 0 (.setData (some [1, 2, 3])), .call 0 (.setData (some [4])),
          .call 0 (.addOption .stored (.ofInt64 OptionId.sessionId.toU16 5)),
          .copy 1 0 (fun _ => 0) (fun _ => 0), .call 0 (.setData (some [5, 6])),
          .moveAssign 0 1 (fun _ => 0)] ∧
      (∀ i m, s i = some m →
        m.dataLen ≤ (cells m.dataBuf).length ∧ m.optLen ≤ (cells m.optBuf).length) ∧
      ∀ e ∈ trace, ∀ w ∈ e.1.writes e.2, w.Inside := by
  have hrun : Run step (fun _ => none) _ _ :=
    Run.nil.snoc (a := .new 0) rfl |>.snoc (a := .call 0 (.setData (some [1, 2, 3]))) rfl
    |>.snoc (a := .call 0 (.setData (some [4]))) rfl
    |>.snoc (a := .call 0 (.addOption .stored (.ofInt64 OptionId.sessionId.toU16 5))) rfl
    |>.snoc (a := .copy 1 0 (fun _ => 0) (fun _ => 0)) rfl
    |>.snoc (a := .call 0 (.setData (some [5, 6]))) rfl
    |>.snoc (a := .moveAssign 0 1 (fun _ => 0)) rfl
  exact ⟨_, _, hrun, rfl, capacity_of_run hrun⟩

end MsgStore

end SampleTools
