import Mathlib.Data.List.Basic
import Mathlib.Data.Nat.Notation
import Mathlib.Tactic.Common

/-!
# Reading lines

`std::istream`, read line by line into a buffer. What is read is told by the bits of the state of
the stream: the end of the file is reached with the line that ends there, and not by reading behind
it. A stream that is not good gives an empty line.

## Main definitions

* `IStream`: a stream
* `IStream.getline`: one line

## Main results

* `IStream.getline_append`, `IStream.getline_last`: a line that fits the buffer, with others behind
  it and as the last one
* `IStream.length_getline_lt`: where a line has characters, fewer are left
-/

/-- An input stream: what is left to read, `eofbit` and `failbit`. -/
structure IStream (α : Type*) where
  rest : List α
  eof : Bool
  fail : Bool
  deriving DecidableEq, Repr

namespace IStream

variable {α : Type*} [DecidableEq α]

/-- A stream that was opened. -/
def ofList (l : List α) : IStream α := ⟨l, false, false⟩

/-- The characters up to the delimiter, which is taken from the stream too. `room` characters fit
the buffer. -/
def takeLine (delim : α) : ℕ → List α → List α × IStream α
  | _, [] => ([], ⟨[], true, false⟩)
  | 0, c :: rest => if c = delim then ([], ofList rest) else ([], ⟨c :: rest, false, true⟩)
  | room + 1, c :: rest =>
    if c = delim then ([], ofList rest) else
      let (line, s) := takeLine delim room rest
      (c :: line, s)

/-- `getline` with a buffer of `n`: what the buffer holds in front of the zero. -/
def getline (s : IStream α) (n : ℕ) (delim : α) : List α × IStream α :=
  if s.eof ∨ s.fail then ([], { s with fail := true }) else
    let (line, s') := takeLine delim (n - 1) s.rest
    -- nothing was there to extract
    (line, { s' with fail := s'.fail || s.rest.isEmpty })

variable {s : IStream α} {delim : α} {room n : ℕ} {l rest : List α}

theorem takeLine_append (hl : delim ∉ l) (hroom : l.length ≤ room) :
    takeLine delim room (l ++ delim :: rest) = (l, ofList rest) := by
  induction l generalizing room with
  | nil => cases room <;> simp [takeLine]
  | cons c l ih =>
    rw [List.mem_cons, not_or] at hl
    obtain ⟨hc, hl⟩ := hl
    cases room with
    | zero => cases hroom
    | succ room =>
      rw [List.cons_append, takeLine, if_neg (Ne.symm hc), ih hl (Nat.le_of_succ_le_succ hroom)]

theorem takeLine_last (hl : delim ∉ l) (hroom : l.length ≤ room) :
    takeLine delim room l = (l, ⟨[], true, false⟩) := by
  induction l generalizing room with
  | nil => cases room <;> rfl
  | cons c l ih =>
    rw [List.mem_cons, not_or] at hl
    obtain ⟨hc, hl⟩ := hl
    cases room with
    | zero => cases hroom
    | succ room => rw [takeLine, if_neg (Ne.symm hc), ih hl (Nat.le_of_succ_le_succ hroom)]

/-- A line with others behind it. -/
theorem getline_append (hl : delim ∉ l) (hn : l.length < n) :
    (ofList (l ++ delim :: rest)).getline n delim = (l, ofList rest) := by
  simp [getline, ofList, takeLine_append hl (Nat.le_sub_one_of_lt hn)]

/-- The last line, which may be empty. -/
theorem getline_last (hl : delim ∉ l) (hn : l.length < n) :
    (ofList l).getline n delim = (l, ⟨[], true, l.isEmpty⟩) := by
  simp [getline, ofList, takeLine_last hl (Nat.le_sub_one_of_lt hn)]

theorem length_takeLine_le (delim : α) (room : ℕ) (l : List α) :
    (takeLine delim room l).1.length + (takeLine delim room l).2.rest.length ≤ l.length := by
  fun_induction takeLine delim room l with
  | case1 => exact Nat.le_refl _
  | case2 | case3 | case4 => simp [ofList]
  | case5 room c rest hc line s hline ih =>
    simp only [hline, List.length_cons] at ih ⊢
    omega

/-- The characters of a line are taken from what is left. -/
theorem length_getline_lt (h : (s.getline n delim).1 ≠ []) :
    (s.getline n delim).2.rest.length < s.rest.length := by
  have hpos := List.length_pos_iff.mpr h
  unfold getline at *
  split at h
  · exact absurd rfl h
  next hgood =>
    have hle := length_takeLine_le delim (n - 1) s.rest
    rw [if_neg hgood] at hpos ⊢
    dsimp only at hpos ⊢
    omega

end IStream
