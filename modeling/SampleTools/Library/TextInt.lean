import SampleTools.Library.Decimal

/-!
# Integers in text

The conversions of `printf`, `scanf` and `atoi` for integers. Reading skips white space, takes
a sign and all digits there are, and stops before the first other character.

## Main definitions

* `TextInt.print`: `%d`, and `%0wd` with a width
* `TextInt.scan`, `TextInt.atoi`: one integer
* `TextInt.scanf`: a format of integers and other characters

## Main results

* `TextInt.scan_print`: what was printed is read back
* `TextInt.scan_numeral`: a numeral is read as its value
-/

namespace TextInt

open Decimal

/-- `isspace`. -/
def isSpace (c : Char) : Bool := c = ' ' ∨ 9 ≤ c.toNat ∧ c.toNat ≤ 13

/-- `%0wd`; `%d` is the width zero. The sign counts. -/
def print (w : ℕ) (x : ℤ) : List Char :=
  if x < 0 then '-' :: pad (w - 1) x.natAbs else pad w x.natAbs

/-- The digits of an integer after its sign, and what is left; no digits are no integer. -/
def scanDigits (s : List Char) : Option ℕ × List Char :=
  let digits := s.takeWhile Char.isDigit
  (if digits = [] then none else some (value digits), s.dropWhile Char.isDigit)

/-- `%d` of `scanf`: an integer, if there is one, and what is left. -/
def scan (s : List Char) : Option ℤ × List Char :=
  match s.dropWhile isSpace with
  | '-' :: rest => ((scanDigits rest).1.map fun n : ℕ => -(n : ℤ), (scanDigits rest).2)
  | '+' :: rest => ((scanDigits rest).1.map Int.ofNat, (scanDigits rest).2)
  | rest => ((scanDigits rest).1.map Int.ofNat, (scanDigits rest).2)

/-- `atoi`. -/
def atoi (s : List Char) : ℤ := (scan s).1.getD 0

/-- A part of a format: `%d`, white space, or a character. -/
inductive Directive
  | int
  | space
  | lit (c : Char)
  deriving DecidableEq, Repr

/-- `sscanf`: the integers read until something does not match. -/
def scanf : List Directive → List Char → List ℤ
  | [], _ => []
  | .int :: format, s =>
    match scan s with
    | (some x, rest) => x :: scanf format rest
    | (none, _) => []
  | .space :: format, s => scanf format (s.dropWhile isSpace)
  | .lit c :: format, c' :: rest => if c' = c then scanf format rest else []
  | .lit _ :: _, [] => []

/-- No further digit follows. -/
def EndsNumeral (s : List Char) : Prop := ∀ c ∈ s.head?, c.isDigit = false

variable {l rest : List Char}

theorem endsNumeral_nil : EndsNumeral [] := fun c hc => by cases hc

@[simp] theorem endsNumeral_cons {c : Char} : EndsNumeral (c :: rest) ↔ c.isDigit = false := by
  simp [EndsNumeral]

theorem takeWhile_numeral (hl : IsNumeral l) (hrest : EndsNumeral rest) :
    (l ++ rest).takeWhile Char.isDigit = l := by
  rw [List.takeWhile_append_of_pos hl]
  cases rest with
  | nil => rw [List.takeWhile_nil, List.append_nil]
  | cons c rest =>
    rw [endsNumeral_cons] at hrest
    rw [List.takeWhile_cons_of_neg (by simp [hrest]), List.append_nil]

theorem dropWhile_numeral (hl : IsNumeral l) (hrest : EndsNumeral rest) :
    (l ++ rest).dropWhile Char.isDigit = rest := by
  rw [List.dropWhile_append_of_pos hl]
  cases rest with
  | nil => rfl
  | cons c rest =>
    rw [endsNumeral_cons] at hrest
    exact List.dropWhile_cons_of_neg (by simp [hrest])

theorem scanDigits_numeral (hl : IsNumeral l) (hne : l ≠ []) (hrest : EndsNumeral rest) :
    scanDigits (l ++ rest) = (some (value l), rest) := by
  rw [scanDigits, takeWhile_numeral hl hrest, dropWhile_numeral hl hrest]
  exact congrArg (·, rest) (if_neg hne)

/-- A digit is no white space and no sign. -/
theorem not_space_of_isDigit {c : Char} (h : c.isDigit = true) :
    isSpace c = false ∧ c ≠ '-' ∧ c ≠ '+' := by
  have hdigit := isDigit_toNat h
  refine ⟨?_, ?_, ?_⟩
  · have hspace : c ≠ ' ' := by
      rintro rfl
      exact absurd hdigit (by decide)
    simp only [isSpace, hspace, false_or, decide_eq_false_iff_not]
    omega
  · rintro rfl
    exact absurd hdigit (by decide)
  · rintro rfl
    exact absurd hdigit (by decide)

theorem skipSpace_numeral (hl : IsNumeral l) (hne : l ≠ []) :
    (l ++ rest).dropWhile isSpace = l ++ rest := by
  cases l with
  | nil => exact absurd rfl hne
  | cons c l =>
    rw [List.cons_append, List.dropWhile_cons_of_neg]
    simp [(not_space_of_isDigit (IsNumeral.cons_iff.mp hl).1).1]

/-- A numeral is read as its value. -/
theorem scan_numeral (hl : IsNumeral l) (hne : l ≠ []) (hrest : EndsNumeral rest) :
    scan (l ++ rest) = (some (value l : ℤ), rest) := by
  have hdigits := scanDigits_numeral hl hne hrest
  unfold scan
  rw [skipSpace_numeral hl hne]
  cases l with
  | nil => exact absurd rfl hne
  | cons c l =>
    obtain ⟨-, hminus, hplus⟩ := not_space_of_isDigit (IsNumeral.cons_iff.mp hl).1
    split
    next heq => exact absurd (List.cons.inj heq).1 hminus
    next heq => exact absurd (List.cons.inj heq).1 hplus
    next =>
      rw [hdigits]
      rfl

theorem scan_neg_numeral (hl : IsNumeral l) (hne : l ≠ []) (hrest : EndsNumeral rest) :
    scan ('-' :: (l ++ rest)) = (some (-(value l : ℤ)), rest) := by
  unfold scan
  rw [List.dropWhile_cons_of_neg (by decide)]
  simp only [scanDigits_numeral hl hne hrest, Option.map_some]

theorem atoi_numeral (hl : IsNumeral l) (hne : l ≠ []) : atoi l = value l := by
  have h := scan_numeral hl hne endsNumeral_nil
  rw [List.append_nil] at h
  rw [atoi, h]
  rfl

theorem scan_space {c : Char} (hc : isSpace c = true) (s : List Char) : scan (c :: s) = scan s := by
  unfold scan
  rw [List.dropWhile_cons_of_pos hc]

theorem pad_ne_nil (w n : ℕ) : pad w n ≠ [] := fun h =>
  Nat.toDigits_ne_nil (List.append_eq_nil_iff.mp h).2

/-- What was printed is read back. -/
theorem scan_print (w : ℕ) (x : ℤ) (hrest : EndsNumeral rest) :
    scan (print w x ++ rest) = (some x, rest) := by
  unfold print
  split_ifs with hneg
  · rw [List.cons_append, scan_neg_numeral (.pad _ _) (pad_ne_nil _ _) hrest, value_pad,
      show -(x.natAbs : ℤ) = x by omega]
  · rw [scan_numeral (.pad _ _) (pad_ne_nil _ _) hrest, value_pad,
      show (x.natAbs : ℤ) = x by omega]

theorem print_of_nonneg {w : ℕ} {x : ℤ} (hx : 0 ≤ x) : print w x = pad w x.toNat := by
  rw [print, if_neg (by omega), show x.natAbs = x.toNat by omega]

end TextInt
