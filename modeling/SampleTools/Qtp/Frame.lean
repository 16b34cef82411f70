import SampleTools.Library.Framing
import SampleTools.Library.LittleEndian

/-!
# Frames on the wire

A message travels as a packed 12-byte head, the option bytes and the data bytes; the
head says how many of each follow. `takeFrame` is the framing both ends mean, and
`frameExtractor` makes it an extractor: reading a stream frame by frame.

## Main definitions

* `MsgHead`: the head (`MSG_HEAD`), with its packed little-endian layout
* `Frame`, `Frame.Valid`: what is written at once, and that the head tells its lengths
* `takeFrame`, `frameExtractor`: one whole frame off the front of a buffer

## Main results

* `MsgHead.ofBytes_bytes`, `MsgHead.bytes_ofBytes`: the layout loses nothing
* `takeFrame_eq_some_iff`: exactly the valid frames are taken, byte for byte
-/

namespace SampleTools

open LittleEndian

/-- `MSG_HEAD`: the head of every message exchanged between gateway and client. -/
structure MsgHead where
  version : UInt8 := 0
  service : UInt8 := 0
  msgtype : UInt16 := 0
  topic : UInt16 := 0
  optslen : UInt16 := 0
  datalen : UInt32 := 0
  deriving DecidableEq, Repr, Inhabited

/-- `MSG_HEAD_SIZE`: the size of the packed head. -/
def msgHeadSize : ℕ := 12

namespace MsgHead

/-- The packed layout of a head. -/
def bytes (h : MsgHead) : List UInt8 :=
  [h.version, h.service] ++ u16Bytes h.msgtype ++ u16Bytes h.topic ++ u16Bytes h.optslen ++
    u32Bytes h.datalen

/-- The head whose packed layout the first 12 bytes are. -/
def ofBytes (bs : List UInt8) : MsgHead where
  version := bs.getD 0 0
  service := bs.getD 1 0
  msgtype := u16Of ((bs.drop 2).take 2)
  topic := u16Of ((bs.drop 4).take 2)
  optslen := u16Of ((bs.drop 6).take 2)
  datalen := u32Of ((bs.drop 8).take 4)

@[simp] theorem bytes_length (h : MsgHead) : h.bytes.length = msgHeadSize := by
  simp [bytes, msgHeadSize]

theorem ofBytes_bytes (h : MsgHead) (s : List UInt8) : ofBytes (h.bytes ++ s) = h := by
  -- each word is some bytes that denote it, so the fields can be read off
  have h16 : ∀ x : UInt16, ∃ a b, u16Bytes x = [a, b] ∧ u16Of [a, b] = x := fun x =>
    ⟨_, _, rfl, u16Of_u16Bytes x⟩
  have h32 : ∀ x : UInt32, ∃ a b c d, u32Bytes x = [a, b, c, d] ∧ u32Of [a, b, c, d] = x :=
    fun x => ⟨_, _, _, _, rfl, u32Of_u32Bytes x⟩
  obtain ⟨v, sv, mt, tp, ol, dl⟩ := h
  obtain ⟨a₁, b₁, hmt, hmt'⟩ := h16 mt
  obtain ⟨a₂, b₂, htp, htp'⟩ := h16 tp
  obtain ⟨a₃, b₃, hol, hol'⟩ := h16 ol
  obtain ⟨a₄, b₄, c₄, d₄, hdl, hdl'⟩ := h32 dl
  simp [ofBytes, bytes, hmt, htp, hol, hdl, hmt', htp', hol', hdl']

theorem bytes_ofBytes {bs : List UInt8} (h : msgHeadSize ≤ bs.length) :
    (ofBytes bs).bytes = bs.take msgHeadSize := by
  match bs, h with
  | b₀ :: b₁ :: b₂ :: b₃ :: b₄ :: b₅ :: b₆ :: b₇ :: b₈ :: b₉ :: b₁₀ :: b₁₁ :: bs, _ =>
    simp [ofBytes, bytes, msgHeadSize, u16Bytes_u16Of, u32Bytes_u32Of]

theorem ofBytes_append {bs : List UInt8} (h : msgHeadSize ≤ bs.length) (s : List UInt8) :
    ofBytes (bs ++ s) = ofBytes bs := by
  have hsplit : bs = (ofBytes bs).bytes ++ bs.drop msgHeadSize := by
    rw [bytes_ofBytes h, List.take_append_drop]
  conv_lhs => rw [hsplit, List.append_assoc]
  exact ofBytes_bytes _ _

end MsgHead

/-- What one message puts on the wire: the head, the option bytes, the data bytes. -/
structure Frame where
  head : MsgHead
  opts : List UInt8
  data : List UInt8
  deriving DecidableEq, Repr

namespace Frame

def bytes (f : Frame) : List UInt8 := f.head.bytes ++ f.opts ++ f.data

/-- The head tells how many option bytes and data bytes follow. -/
def Valid (f : Frame) : Prop :=
  f.opts.length = f.head.optslen.toNat ∧ f.data.length = f.head.datalen.toNat

instance (f : Frame) : Decidable f.Valid :=
  inferInstanceAs (Decidable (_ ∧ _))

@[simp] theorem bytes_length (f : Frame) :
    f.bytes.length = msgHeadSize + f.opts.length + f.data.length := by
  simp [bytes, Nat.add_assoc]

end Frame

/-- The first frame of a buffer, once all its bytes are there. -/
def takeFrame (input : List UInt8) : Option (Frame × List UInt8) :=
  let head := MsgHead.ofBytes input
  let body := input.drop msgHeadSize
  if input.length < msgHeadSize + head.optslen.toNat + head.datalen.toNat then none
  else some
    (⟨head, body.take head.optslen.toNat,
      (body.drop head.optslen.toNat).take head.datalen.toNat⟩,
     (body.drop head.optslen.toNat).drop head.datalen.toNat)

theorem takeFrame_bytes {f : Frame} (hf : f.Valid) (s : List UInt8) :
    takeFrame (f.bytes ++ s) = some (f, s) := by
  obtain ⟨head, opts, data⟩ := f
  obtain ⟨ho, hd⟩ := hf
  dsimp only at ho hd
  -- the head is read back, and behind it come the options and the data
  have hhead : MsgHead.ofBytes (Frame.bytes ⟨head, opts, data⟩ ++ s) = head := by
    rw [Frame.bytes, List.append_assoc, List.append_assoc, MsgHead.ofBytes_bytes]
  have hbody : (Frame.bytes ⟨head, opts, data⟩ ++ s).drop msgHeadSize = opts ++ (data ++ s) := by
    rw [Frame.bytes, List.append_assoc, List.append_assoc, ← head.bytes_length, List.drop_left]
  have hlen : ¬ (Frame.bytes ⟨head, opts, data⟩ ++ s).length <
      msgHeadSize + head.optslen.toNat + head.datalen.toNat := by
    simp only [List.length_append, Frame.bytes_length]
    omega
  simp only [takeFrame, hhead, if_neg hlen]
  simp only [hbody, ← ho, ← hd, List.take_left, List.drop_left]

theorem takeFrame_eq_some_iff {input rest : List UInt8} {f : Frame} :
    takeFrame input = some (f, rest) ↔ f.Valid ∧ input = f.bytes ++ rest := by
  constructor
  · intro h
    simp only [takeFrame] at h
    split at h
    · cases h
    · rename_i hlen
      simp only [Option.some.injEq, Prod.mk.injEq] at h
      -- all bytes are there, so the parts have the lengths the head tells
      obtain ⟨rfl, rfl⟩ := h
      refine ⟨⟨?_, ?_⟩, ?_⟩
      · simp only [List.length_take, List.length_drop]
        omega
      · simp only [List.length_take, List.length_drop]
        omega
      · simp only [Frame.bytes, MsgHead.bytes_ofBytes (show msgHeadSize ≤ input.length by omega),
          List.append_assoc, List.take_append_drop]
  · rintro ⟨hf, rfl⟩
    exact takeFrame_bytes hf rest

/-- Reading a stream frame by frame. -/
def frameExtractor : Extractor UInt8 Frame where
  next := takeFrame
  shorter h := by
    obtain ⟨-, rfl⟩ := takeFrame_eq_some_iff.mp h
    simp only [List.length_append, Frame.bytes_length, msgHeadSize]
    omega
  stable ys h := by
    obtain ⟨hf, rfl⟩ := takeFrame_eq_some_iff.mp h
    rw [List.append_assoc, takeFrame_bytes hf]

@[simp] theorem frameExtractor_next : frameExtractor.next = takeFrame := rfl

/-- A drained stream is its frames and the bytes left over. -/
theorem drain_bytes (xs : List UInt8) :
    (frameExtractor.drain xs).1.flatMap Frame.bytes ++ (frameExtractor.drain xs).2 = xs :=
  Extractor.drain_lossless (fun h => (takeFrame_eq_some_iff.mp h).2) xs

end SampleTools
