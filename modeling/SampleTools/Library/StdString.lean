import Mathlib.Data.List.Basic
import Mathlib.Data.List.Infix
import SampleTools.Library.Cut

/-!
# Strings with indices

`std::string`: a search answers the index of a character or `npos`, and what is computed with
indices is computed modulo `2^64`. A character stands for a byte.

## Main definitions

* `StdString`: a string
* `StdString.find`, `StdString.findFirstOf`, `StdString.findLastOf`: searches
* `StdString.substr`: a part of a string, if it does not throw

## Main results

* `StdString.find_ne_npos_iff`: what is found
* `StdString.findFirstOf_of_append`, `StdString.findLastOf_of_append`: the first and last place of
  a character
* `StdString.substr_of_append`: the part of a string between two others
-/

/-- A string. Its size fits the type of the differences of iterators, `ptrdiff_t`. -/
@[ext] structure StdString where
  chars : List Char
  size_lt : chars.length < 2 ^ 63
  deriving DecidableEq

namespace StdString

/-- `npos`: the largest `size_t`. -/
def npos : ℕ := 2 ^ 64 - 1

/-- `size`. -/
def size (s : StdString) : ℕ := s.chars.length

/-- The sum of two `size_t`. -/
def sizeAdd (a b : ℕ) : ℕ := (a + b) % 2 ^ 64

/-- The difference of two `size_t`. -/
def sizeSub (a b : ℕ) : ℕ := (a + 2 ^ 64 - b) % 2 ^ 64

/-- `find`. -/
def find (s : StdString) (t : List Char) : ℕ :=
  ((List.range (s.size + 1)).find? fun i => t.isPrefixOf (s.chars.drop i)).getD npos

/-- `find_first_of`, from an index on. -/
def findFirstOf (s : StdString) (delim : List Char) (pos : ℕ) : ℕ :=
  (((s.chars.drop pos).findIdx? (· ∈ delim)).map (pos + ·)).getD npos

/-- `find_last_of`. -/
def findLastOf (s : StdString) (delim : List Char) : ℕ :=
  ((s.chars.reverse.findIdx? (· ∈ delim)).map (s.size - 1 - ·)).getD npos

/-- The characters of a part. -/
def part (s : StdString) (pos count : ℕ) : StdString where
  chars := (s.chars.drop pos).take count
  size_lt := by
    have hsize := s.size_lt
    rw [List.length_take, List.length_drop]
    omega

/-- `substr`, which throws if it begins behind the end. -/
def substr (s : StdString) (pos count : ℕ) : Option StdString :=
  if pos > s.size then none else some (s.part pos count)

variable {s : StdString} {delim a b t : List Char} {c : Char} {pos count : ℕ}

/-! ## Indices -/

theorem sizeAdd_eq {a b : ℕ} (h : a + b < 2 ^ 64) : sizeAdd a b = a + b := Nat.mod_eq_of_lt h

theorem sizeSub_eq {a b : ℕ} (hle : b ≤ a) (ha : a < 2 ^ 64) : sizeSub a b = a - b := by
  unfold sizeSub
  omega

/-- Behind `npos` comes 0. -/
theorem sizeAdd_npos : sizeAdd npos 1 = 0 := rfl

/-! ## Searches -/

theorem findFirstOf_of_append (h : s.chars.drop pos = a ++ c :: b) (hc : c ∈ delim)
    (ha : ∀ x ∈ a, x ∉ delim) : s.findFirstOf delim pos = pos + a.length := by
  rw [findFirstOf, h, Cut.findIdx?_append_cons (by simpa using ha) (by simpa using hc)]
  rfl

theorem findFirstOf_of_none (h : ∀ x ∈ s.chars.drop pos, x ∉ delim) :
    s.findFirstOf delim pos = npos := by
  rw [findFirstOf, List.findIdx?_eq_none_iff.mpr (by simpa using h)]
  rfl

/-- What is found lies between the index and the end. -/
theorem findFirstOf_lt (h : s.findFirstOf delim pos ≠ npos) :
    pos ≤ s.findFirstOf delim pos ∧ s.findFirstOf delim pos < s.size := by
  unfold findFirstOf at h ⊢
  cases hindex : (s.chars.drop pos).findIdx? (· ∈ delim) with
  | none =>
    rw [hindex] at h
    exact absurd rfl h
  | some k =>
    have hlt := (List.findIdx?_eq_some_iff_findIdx_eq.mp hindex).1
    rw [List.length_drop] at hlt
    simp only [Option.map_some, Option.getD_some, size]
    omega

/-- Only for a string that is not empty something is found. -/
theorem size_pos_of_findFirstOf {delim : StdString} (h : s.findFirstOf delim.chars pos ≠ npos) :
    0 < delim.size := by
  by_contra hzero
  have hempty : delim.chars = [] := List.length_eq_zero_iff.mp (Nat.eq_zero_of_not_pos hzero)
  refine h (findFirstOf_of_none fun x _ hx => ?_)
  rw [hempty] at hx
  cases hx

theorem findLastOf_of_append (h : s.chars = a ++ c :: b) (hc : c ∈ delim)
    (hb : ∀ x ∈ b, x ∉ delim) : s.findLastOf delim = a.length := by
  have hreverse : s.chars.reverse = b.reverse ++ c :: a.reverse := by
    rw [h, List.reverse_append, List.reverse_cons, List.append_assoc]
    rfl
  have hsize : s.size = a.length + (b.length + 1) := by
    rw [size, h, List.length_append, List.length_cons]
  rw [findLastOf, hreverse, Cut.findIdx?_append_cons (by simpa using hb) (by simpa using hc),
    List.length_reverse, hsize]
  simp only [Option.map_some, Option.getD_some]
  omega

theorem findLastOf_of_none (h : ∀ x ∈ s.chars, x ∉ delim) : s.findLastOf delim = npos := by
  rw [findLastOf, List.findIdx?_eq_none_iff.mpr (by simpa using h)]
  rfl

/-- The last place of a character, or there is none. -/
theorem findLastOf_lt_or (s : StdString) (delim : List Char) :
    s.findLastOf delim < s.size ∨ s.findLastOf delim = npos := by
  unfold findLastOf
  cases hindex : s.chars.reverse.findIdx? (· ∈ delim) with
  | none => exact .inr rfl
  | some i =>
    left
    have hlt := (List.findIdx?_eq_some_iff_findIdx_eq.mp hindex).1
    rw [List.length_reverse] at hlt
    simp only [Option.map_some, Option.getD_some, size]
    omega

/-- Something is found exactly if it is part of the string. -/
theorem find_ne_npos_iff : s.find t ≠ npos ↔ t <:+: s.chars := by
  unfold find
  constructor
  · intro hfound
    cases hindex : (List.range (s.size + 1)).find? fun i => t.isPrefixOf (s.chars.drop i) with
    | none =>
      rw [hindex] at hfound
      exact absurd rfl hfound
    | some i =>
      have hstart : t.isPrefixOf (s.chars.drop i) = true := by
        simpa using List.find?_some hindex
      have hprefix := List.isPrefixOf_iff_prefix.mp hstart
      exact hprefix.isInfix.trans (List.drop_suffix i s.chars).isInfix
  · rintro ⟨a, b, heq⟩
    have hprefix : t.isPrefixOf (s.chars.drop a.length) = true := by
      rw [List.isPrefixOf_iff_prefix, ← heq, List.append_assoc, List.drop_left]
      exact List.prefix_append t b
    have hmem : a.length ∈ List.range (s.size + 1) := by
      rw [List.mem_range, size, ← heq, List.length_append, List.length_append]
      omega
    cases hindex : (List.range (s.size + 1)).find? fun i => t.isPrefixOf (s.chars.drop i) with
    | none => exact absurd hprefix (List.find?_eq_none.mp hindex _ hmem)
    | some i =>
      have hlt := List.mem_range.mp (List.mem_of_find?_eq_some hindex)
      have hsize := s.size_lt
      simp only [Option.getD_some, npos, size] at hlt ⊢
      omega

/-! ## Parts -/

/-- A part between two others, which may be given too long a count if it is the last. -/
theorem substr_of_append (h : s.chars = a ++ t ++ b) (hpos : pos = a.length)
    (hcount : count = t.length ∨ b = [] ∧ t.length ≤ count) :
    s.substr pos count = some (s.part pos count) ∧ (s.part pos count).chars = t := by
  have hle : ¬ pos > s.size := by
    rw [size, h, hpos, List.length_append, List.length_append]
    omega
  refine ⟨if_neg hle, ?_⟩
  change (s.chars.drop pos).take count = t
  rw [h, hpos, List.append_assoc, List.drop_left]
  rcases hcount with rfl | ⟨rfl, hcount⟩
  · exact List.take_left
  · rw [List.append_nil]
    exact List.take_of_length_le hcount

/-- What comes behind the last place of a character never begins behind the end. -/
theorem substr_findLastOf (s : StdString) (delim : List Char) (count : ℕ) :
    s.substr (sizeAdd (s.findLastOf delim) 1) count =
      some (s.part (sizeAdd (s.findLastOf delim) 1) count) := by
  apply if_neg
  have hsize := s.size_lt
  rcases s.findLastOf_lt_or delim with hlt | hnone
  · rw [sizeAdd_eq (by unfold size at hlt; omega)]
    omega
  · rw [hnone, sizeAdd_npos]
    exact Nat.not_lt_zero _

end StdString
