import Mathlib.Data.Int.Notation
import SampleTools.Library.Cut

/-!
# Strings that end with a zero

A buffer is the list of its characters, and an index into it an integer. Reading or writing
outside of it, or looking for the end of a string where there is none, is `none`.

## Main definitions

* `CString`: a string
* `CString.ofBuffer`, `CString.strlen`: the string in a buffer
* `CString.read`, `CString.write`, `CString.strncpy`: accesses to a buffer

## Main results

* `CString.ofBuffer_append`, `CString.strlen_append`: a buffer that holds a string
* `CString.read_append`, `CString.write_append`: the accesses to one character
* `CString.strncpy_append`: a copy that ends before the source does
-/

/-- A string, which has no zero before its end. -/
structure CString where
  chars : List Char
  zero_notMem : '\x00' ∉ chars

namespace CString

/-- The characters of a string as they stand in memory. -/
def cells (s : CString) : List Char := s.chars ++ ['\x00']

/-- What a buffer is read as. -/
def ofBuffer (buf : List Char) : List Char := buf.takeWhile (· ≠ '\x00')

/-- `strlen` of a buffer. -/
def strlen (buf : List Char) : Option ℕ := buf.findIdx? (· = '\x00')

/-- One character of a buffer. -/
def read (buf : List Char) (i : ℤ) : Option Char := if i < 0 then none else buf[i.toNat]?

/-- The buffer after one character was written. -/
def write (buf : List Char) (i : ℤ) (c : Char) : Option (List Char) :=
  if 0 ≤ i ∧ i < buf.length then some (buf.set i.toNat c) else none

/-- `strncpy`: all `count` characters are written, with zeros from the end of the source on, and
no zero where the source does not end before. -/
def strncpy (buf : List Char) (src : CString) (count : ℕ) : Option (List Char) :=
  if count ≤ buf.length then
    some ((src.chars.take count).rightpad count '\x00' ++ buf.drop count)
  else none

variable {a b x buf : List Char} {c d : Char} {i : ℤ} {src : CString}

/-! ## The string in a buffer -/

/-- Something is behind the string in a buffer exactly if there is a zero. -/
theorem exists_ofBuffer_append (buf : List Char) : ∃ b, buf = ofBuffer buf ++ b ∧
    ('\x00' ∈ buf ↔ b ≠ []) := by
  refine ⟨buf.dropWhile (· ≠ '\x00'), List.takeWhile_append_dropWhile.symm, ?_⟩
  rw [ne_eq, List.dropWhile_eq_nil_iff]
  simp

theorem zero_notMem_ofBuffer (buf : List Char) : '\x00' ∉ ofBuffer buf := by
  intro hzero
  have hne := List.mem_takeWhile_imp hzero
  exact of_decide_eq_true hne rfl

theorem ofBuffer_of_notMem (h : '\x00' ∉ buf) : ofBuffer buf = buf := by
  apply List.takeWhile_eq_self_iff.mpr
  intro c hc
  apply decide_eq_true
  rintro rfl
  exact h hc

@[simp] theorem ofBuffer_append (ha : '\x00' ∉ a) : ofBuffer (a ++ '\x00' :: b) = a :=
  Cut.takeWhile_ne_append ha

@[simp] theorem strlen_append (ha : '\x00' ∉ a) : strlen (a ++ '\x00' :: b) = some a.length :=
  Cut.findIdx?_eq_append ha

/-! ## Accesses -/

/-- A buffer is cut at an index inside of it. -/
theorem exists_append_of_lt {n : ℕ} (h : n < buf.length) :
    ∃ a c b, buf = a ++ c :: b ∧ a.length = n :=
  ⟨buf.take n, buf[n], buf.drop (n + 1), by simp, List.length_take_of_le h.le⟩

theorem read_append (hi : i = a.length) : read (a ++ c :: b) i = some c := by
  subst hi
  rw [read, if_neg (by omega), Int.toNat_natCast, List.getElem?_append_right le_rfl,
    Nat.sub_self, List.getElem?_cons_zero]

theorem read_of_neg (hi : i < 0) : read buf i = none := if_pos hi

theorem write_append (hi : i = a.length) : write (a ++ c :: b) i d = some (a ++ d :: b) := by
  subst hi
  have hin : (a.length : ℤ) < ((a ++ c :: b).length : ℕ) := by
    rw [List.length_append, List.length_cons]
    omega
  rw [write, if_pos ⟨by omega, hin⟩, Int.toNat_natCast, List.set_append_right _ _ le_rfl,
    Nat.sub_self, List.set_cons_zero]

theorem write_of_le (hi : (buf.length : ℤ) ≤ i) : write buf i c = none :=
  if_neg fun hin => absurd hin.2 hi.not_gt

theorem length_of_write {buf' : List Char} (h : write buf i c = some buf') :
    buf'.length = buf.length := by
  rw [write] at h
  split at h
  · cases h
    exact List.length_set
  · cases h

/-- A copy that ends before the source does replaces that many characters. -/
theorem strncpy_append (hx : x.length ≤ src.chars.length) :
    strncpy (x ++ b) src x.length = some (src.chars.take x.length ++ b) := by
  have hfit : x.length ≤ (x ++ b).length := by
    rw [List.length_append]
    omega
  have hlen : (src.chars.take x.length).length = x.length := List.length_take_of_le hx
  rw [strncpy, if_pos hfit, List.drop_left, List.rightpad, hlen, Nat.sub_self, List.replicate_zero,
    List.append_nil]

end CString
