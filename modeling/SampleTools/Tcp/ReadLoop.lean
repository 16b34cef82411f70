import SampleTools.Tcp.Decode

/-!
# The read loop

A read callback calls `decode_msg_with_head` until it returns `nullptr`. What it takes
out of the buffer is what draining the buffer frame by frame takes out; so the frames a
connection delivers do not depend on how TCP cut the stream into arrivals.

## Main definitions

* `readLoop`: the messages one callback takes out, and what it leaves
* `Arrival`, `arrive`: bytes that arrive, and the callback run on them

## Main results

* `readLoop_frames`: the loop drains the buffer
* `framing_segmentation_independent`: the cuts between arrivals do not matter
-/

namespace SampleTools

theorem decodeMsgWithHead_shorter {past : ℕ → UInt8} {input rest : List UInt8} {msg : QtpMsg}
    (h : decodeMsgWithHead past input = (some msg, rest)) : rest.length < input.length := by
  obtain ⟨f, -, rfl, -⟩ := decodeMsgWithHead_eq_some h
  simp only [List.length_append, Frame.bytes_length, msgHeadSize]
  omega

/-- Call `decode_msg_with_head` until it returns `nullptr`; `past n` is for call `n`. -/
def readLoop (past : ℕ → ℕ → UInt8) (input : List UInt8) : List QtpMsg × List UInt8 :=
  match _h : decodeMsgWithHead (past 0) input with
  | (none, input) => ([], input)
  | (some msg, rest) =>
    let next := readLoop (fun n => past (n + 1)) rest
    (msg :: next.1, next.2)
termination_by input.length
decreasing_by exact decodeMsgWithHead_shorter _h

theorem readLoop_of_none {past : ℕ → ℕ → UInt8} {input : List UInt8}
    (h : takeFrame input = none) : readLoop past input = ([], input) := by
  have hdec := @decodeMsgWithHead_of_none (past 0) _ h
  rw [readLoop]
  split
  · rename_i h'
    rw [hdec] at h'
    cases h'
    rfl
  · rename_i h'
    rw [hdec] at h'
    cases h'

theorem readLoop_of_some {past : ℕ → ℕ → UInt8} {input rest : List UInt8} {f : Frame}
    (h : takeFrame input = some (f, rest)) :
    readLoop past input = (QtpMsg.ofFrame (past 0) f :: (readLoop (fun n => past (n + 1)) rest).1,
      (readLoop (fun n => past (n + 1)) rest).2) := by
  have hdec := @decodeMsgWithHead_of_some (past 0) _ _ _ h
  rw [readLoop]
  split
  · rename_i h'
    rw [hdec] at h'
    cases h'
  · rename_i h'
    rw [hdec] at h'
    cases h'
    rfl

/-- The messages' frames, and the bytes left over. -/
def framesOf (st : List QtpMsg × List UInt8) : List Frame × List UInt8 :=
  (st.1.map QtpMsg.frame, st.2)

theorem readLoop_frames (past : ℕ → ℕ → UInt8) (input : List UInt8) :
    framesOf (readLoop past input) = frameExtractor.drain input := by
  induction input using frameExtractor.drain_induction generalizing past with
  | stop input h => rw [readLoop_of_none h, Extractor.drain_of_none h, framesOf, List.map_nil]
  | step input f rest h ih =>
    have hf : f.Valid := (takeFrame_eq_some_iff.mp h).1
    have hrest := ih fun n => past (n + 1)
    rw [readLoop_of_some h, Extractor.drain_of_some h, ← hrest, framesOf, List.map_cons,
      QtpMsg.frame_ofFrame hf, framesOf]

/-- Each message is made of the frame it came in. -/
theorem readLoop_ofFrame (past : ℕ → ℕ → UInt8) (input : List UInt8) :
    List.Forall₂ (fun msg f => f.Valid ∧ ∃ p, msg = QtpMsg.ofFrame p f)
      (readLoop past input).1 (frameExtractor.drain input).1 := by
  induction input using frameExtractor.drain_induction generalizing past with
  | stop input h =>
    rw [readLoop_of_none h, Extractor.drain_of_none h]
    exact .nil
  | step input f rest h ih =>
    rw [readLoop_of_some h, Extractor.drain_of_some h]
    exact .cons ⟨(takeFrame_eq_some_iff.mp h).1, _, rfl⟩ (ih _)

/-- Bytes that arrive, with what reads past blocks find in the callback that follows. -/
structure Arrival where
  past : ℕ → ℕ → UInt8
  bytes : List UInt8

/-- The bytes join the input buffer and the read callback runs: the messages taken out so
far, and the buffer. -/
def arrive (st : List QtpMsg × List UInt8) (a : Arrival) : List QtpMsg × List UInt8 :=
  let next := readLoop a.past (st.2 ++ a.bytes)
  (st.1 ++ next.1, next.2)

theorem framesOf_arrive (st : List QtpMsg × List UInt8) (a : Arrival) :
    framesOf (arrive st a) = frameExtractor.receive (framesOf st) a.bytes := by
  simp only [arrive, Extractor.receive, ← readLoop_frames a.past, framesOf, List.map_append]

theorem framesOf_arrivals (arrivals : List Arrival) :
    framesOf (arrivals.foldl arrive ([], [])) =
      frameExtractor.drain (arrivals.map Arrival.bytes).flatten := by
  -- the messages play no part: only frames and bytes are carried along
  have hfold : ∀ st, framesOf (arrivals.foldl arrive st) =
      (arrivals.map Arrival.bytes).foldl frameExtractor.receive (framesOf st) := by
    induction arrivals with
    | nil => exact fun _ => rfl
    | cons a as ih =>
      intro st
      rw [List.foldl_cons, ih, framesOf_arrive, List.map_cons, List.foldl_cons]
  have hempty : framesOf ([], []) = frameExtractor.drain [] := by
    rw [Extractor.drain_of_none rfl, framesOf, List.map_nil]
  rw [hfold, hempty, Extractor.foldl_receive, List.nil_append]

/-- **Framing does not depend on segmentation.** However the stream arrives, the frames
taken out are those of the whole stream read at once, which are its whole frames one after
another; frames and leftover bytes are the stream; nothing can be taken from the leftover bytes;
and a call that returns `nullptr` removes nothing. -/
theorem framing_segmentation_independent (arrivals : List Arrival) (past : ℕ → ℕ → UInt8) :
    let stream := (arrivals.map Arrival.bytes).flatten
    let st := arrivals.foldl arrive ([], [])
    framesOf st = framesOf (readLoop past stream) ∧
      framesOf st = frameExtractor.drain stream ∧
      (framesOf st).1.flatMap Frame.bytes ++ st.2 = stream ∧
      (∀ past', (decodeMsgWithHead past' st.2).1 = none) ∧
      ∀ past' input, (decodeMsgWithHead past' input).1 = none →
        (decodeMsgWithHead past' input).2 = input := by
  intro stream st
  have hst : framesOf st = frameExtractor.drain stream := framesOf_arrivals arrivals
  have hrest : st.2 = (frameExtractor.drain stream).2 := congrArg Prod.snd hst
  refine ⟨by rw [hst, readLoop_frames], hst, by rw [hst, hrest, drain_bytes], ?_, ?_⟩
  · intro past'
    have hnone : takeFrame st.2 = none := by
      rw [hrest]
      exact frameExtractor.next_drain stream
    rw [decodeMsgWithHead_eq, hnone]
  · intro past' input h
    rw [decodeMsgWithHead_eq] at h ⊢
    cases hf : takeFrame input with
    | none => rfl
    | some p => simp [hf] at h

end SampleTools
