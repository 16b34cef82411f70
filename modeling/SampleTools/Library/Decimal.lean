import Mathlib.Data.Char
import Mathlib.Data.List.Lex
import Mathlib.Tactic.Common
import Mathlib.Tactic.Linarith

/-!
# Decimal numerals

A numeral is a list of digits. Numerals of the same length are ordered as their values are,
and a value has one numeral of each length that is long enough: zeros and its digits.

## Main definitions

* `Decimal.IsNumeral`, `Decimal.value`: lists of digits, and what they denote
* `Decimal.pad`: a number, padded with zeros on the left

## Main results

* `Decimal.value_lt_value_iff`: the order of numerals of the same length
* `Decimal.value_pad`, `Decimal.length_pad`: numbers and their numerals
-/

namespace Decimal

/-- Digits only. -/
def IsNumeral (l : List Char) : Prop := ∀ c ∈ l, c.isDigit = true

instance (l : List Char) : Decidable (IsNumeral l) := inferInstanceAs (Decidable (∀ c ∈ l, _))

/-- What a numeral denotes. -/
def value (l : List Char) : ℕ := Nat.ofDigitChars 10 l 0

/-- The digits of a number, with zeros before them up to a length. -/
def pad (w n : ℕ) : List Char := (Nat.toDigits 10 n).leftpad w '0'

variable {c : Char} {l l' : List Char} {w n : ℕ}

theorem isDigit_toNat (h : c.isDigit = true) : 48 ≤ c.toNat ∧ c.toNat ≤ 57 := by
  simpa [Char.isDigit, UInt32.le_iff_toNat_le] using h

namespace IsNumeral

theorem nil : IsNumeral [] := fun c hc => by cases hc

@[simp] theorem cons_iff : IsNumeral (c :: l) ↔ c.isDigit = true ∧ IsNumeral l :=
  List.forall_mem_cons

@[simp] theorem append_iff : IsNumeral (l ++ l') ↔ IsNumeral l ∧ IsNumeral l' :=
  List.forall_mem_append

theorem toDigits (n : ℕ) : IsNumeral (Nat.toDigits 10 n) := fun _ hc =>
  Nat.isDigit_of_mem_toDigits (by decide) (by decide) hc

theorem pad (w n : ℕ) : IsNumeral (Decimal.pad w n) := by
  refine append_iff.mpr ⟨fun c hc => ?_, toDigits n⟩
  rw [List.eq_of_mem_replicate hc]
  rfl

end IsNumeral

/-! ## Values -/

@[simp] theorem value_nil : value [] = 0 := rfl

theorem value_append (l l' : List Char) :
    value (l ++ l') = value l * 10 ^ l'.length + value l' := by
  rw [value, Nat.ofDigitChars_append, Nat.ofDigitChars_eq_ofDigitChars_zero, Nat.mul_comm]
  rfl

theorem value_cons (c : Char) (l : List Char) :
    value (c :: l) = (c.toNat - 48) * 10 ^ l.length + value l := by
  have h : value [c] = c.toNat - 48 := by
    simp [value, Nat.ofDigitChars_cons]
  rw [← List.singleton_append, value_append, h]

theorem value_toDigits (n : ℕ) : value (Nat.toDigits 10 n) = n := Nat.ofDigitChars_ten_toDigits

theorem value_lt (h : IsNumeral l) : value l < 10 ^ l.length := by
  induction l with
  | nil => exact Nat.one_pos
  | cons c l ih =>
    obtain ⟨hc, hl⟩ := IsNumeral.cons_iff.mp h
    have hdigit := isDigit_toNat hc
    have hmul : (c.toNat - 48) * 10 ^ l.length ≤ 9 * 10 ^ l.length :=
      Nat.mul_le_mul_right _ (by omega)
    have hlt := ih hl
    rw [value_cons, List.length_cons, Nat.pow_succ]
    omega

/-! ## The order of numerals -/

theorem value_lt_of_lt (h : IsNumeral l) (h' : IsNumeral l') (hlen : l.length = l'.length)
    (hlt : l < l') : value l < value l' := by
  induction l generalizing l' with
  | nil =>
    rw [List.length_nil, eq_comm, List.length_eq_zero_iff] at hlen
    rw [hlen] at hlt
    exact absurd hlt (lt_irrefl _)
  | cons c l ih =>
    cases l' with
    | nil => cases hlen
    | cons c' l' =>
      obtain ⟨hc, hl⟩ := IsNumeral.cons_iff.mp h
      obtain ⟨hc', hl'⟩ := IsNumeral.cons_iff.mp h'
      have htail : l.length = l'.length := Nat.succ.inj hlen
      rw [value_cons, value_cons, htail]
      rcases List.cons_lt_cons_iff.mp hlt with hfirst | ⟨rfl, hrest⟩
      -- the first digit that differs decides, whatever follows it
      · have hdigit := isDigit_toNat hc
        have hdigits : c.toNat < c'.toNat := hfirst
        have hmul : (c.toNat - 48 + 1) * 10 ^ l'.length ≤ (c'.toNat - 48) * 10 ^ l'.length :=
          Nat.mul_le_mul_right _ (by omega)
        have hbound := value_lt hl
        rw [htail] at hbound
        rw [Nat.add_mul] at hmul
        omega
      · have hvalue := ih hl hl' htail hrest
        omega

/-- Numerals of the same length are ordered as their values. -/
theorem value_lt_value_iff (h : IsNumeral l) (h' : IsNumeral l') (hlen : l.length = l'.length) :
    value l < value l' ↔ l < l' := by
  refine ⟨fun hlt => ?_, value_lt_of_lt h h' hlen⟩
  rcases lt_trichotomy l l' with hl | rfl | hl
  · exact hl
  · exact absurd hlt (lt_irrefl _)
  · exact absurd (value_lt_of_lt h' h hlen.symm hl) (Nat.lt_asymm hlt)

theorem value_inj (h : IsNumeral l) (h' : IsNumeral l') (hlen : l.length = l'.length) :
    value l = value l' ↔ l = l' := by
  refine ⟨fun heq => ?_, congrArg value⟩
  rcases lt_trichotomy l l' with hl | rfl | hl
  · exact absurd (value_lt_of_lt h h' hlen hl) (by omega)
  · rfl
  · exact absurd (value_lt_of_lt h' h hlen.symm hl) (by omega)

/-! ## Padding -/

theorem value_pad (w n : ℕ) : value (pad w n) = n := by
  rw [pad, List.leftpad, value_append, value_toDigits]
  simp [value, Nat.ofDigitChars_replicate_zero]

theorem length_pad (hw : 0 < w) (h : n < 10 ^ w) : (pad w n).length = w := by
  have hlen := (Nat.length_toDigits_le_iff (b := 10) (by decide) hw).mpr h
  rw [pad, List.length_leftpad]
  omega

end Decimal
