import Mathlib.Data.List.Infix
import Mathlib.Data.Nat.Notation
import Mathlib.Tactic.Common

/-!
# Occurrences in a list

The occurrences of one list in another are found from left to right, each behind the one before,
and replaced.

## Main definitions

* `Occurrences.find`: the first place from an index on
* `Occurrences.IsFirst`: an occurrence before which there is no other
* `Occurrences.Replaced`: a list with its occurrences replaced

## Main results

* `Occurrences.find_append_eq_some`, `Occurrences.find_append_eq_none`: what is found behind a part
* `Occurrences.Replaced.unique`: there is one result
-/

namespace Occurrences

variable {α : Type*} {old new s t a b front tail : List α} {pos i : ℕ}

/-! ## The first occurrence -/

/-- The first place, from an index on, at which a list is found. -/
def find [DecidableEq α] (s old : List α) (pos : ℕ) : Option ℕ :=
  (List.range (s.length + 1)).find? fun i => pos ≤ i && old.isPrefixOf (s.drop i)

/-- Between `a` and `b` is the first occurrence of `old`. -/
def IsFirst (old a b : List α) : Prop :=
  ∀ a' b', a ++ old ++ b = a' ++ old ++ b' → a.length ≤ a'.length

/-- The list is found at a place if it is there. -/
theorem prefix_drop (a old b : List α) : old <+: (a ++ old ++ b).drop a.length := by
  rw [List.append_assoc, List.drop_left]
  exact List.prefix_append old b

section Find

variable [DecidableEq α]

theorem isPlace_iff : (decide (pos ≤ i) && old.isPrefixOf (s.drop i)) = true ↔
    pos ≤ i ∧ old <+: s.drop i := by
  rw [Bool.and_eq_true, decide_eq_true_eq, List.isPrefixOf_iff_prefix]

theorem find_eq_some_iff : find s old pos = some i ↔
    (pos ≤ i ∧ old <+: s.drop i) ∧ i ≤ s.length ∧ ∀ j < i, pos ≤ j → ¬ old <+: s.drop j := by
  rw [find, List.find?_range_eq_some]
  simp only [isPlace_iff, Bool.not_eq_eq_eq_not, Bool.not_true, ← Bool.not_eq_true, not_and,
    List.mem_range, Nat.lt_succ_iff]

theorem find_eq_none_iff :
    find s old pos = none ↔ ∀ i ≤ s.length, pos ≤ i → ¬ old <+: s.drop i := by
  rw [find, List.find?_range_eq_none]
  simp only [isPlace_iff, Bool.not_eq_eq_eq_not, Bool.not_true, ← Bool.not_eq_true, not_and,
    Nat.lt_succ_iff]

/-- Behind a part of the list the first occurrence in the rest is found. -/
theorem find_append_eq_some (h : find (front ++ tail) old front.length = some i) :
    ∃ a b, tail = a ++ old ++ b ∧ IsFirst old a b ∧ i = front.length + a.length := by
  obtain ⟨⟨hpos, hprefix⟩, hle, hfirst⟩ := find_eq_some_iff.mp h
  rw [List.length_append] at hle
  obtain ⟨k, rfl⟩ := Nat.exists_eq_add_of_le hpos
  have hdrop : ∀ j, (front ++ tail).drop (front.length + j) = tail.drop j := fun j => by
    rw [← List.drop_drop, List.drop_left]
  rw [hdrop] at hprefix
  obtain ⟨b, hb⟩ := hprefix
  have htake : (tail.take k).length = k := List.length_take_of_le (by omega)
  have htail : tail = tail.take k ++ old ++ b := by
    rw [List.append_assoc, hb, List.take_append_drop]
  refine ⟨tail.take k, b, htail, fun a' b' heq => ?_, by rw [htake]⟩
  -- an earlier one would have been found
  by_contra hlt
  have hearlier : old <+: tail.drop a'.length := by
    rw [htail, heq]
    exact prefix_drop a' old b'
  rw [← hdrop] at hearlier
  exact hfirst (front.length + a'.length) (by omega) (Nat.le_add_right _ _) hearlier

theorem find_append_eq_none (h : find (front ++ tail) old front.length = none) :
    ¬ old <:+: tail := by
  rintro ⟨a, b, rfl⟩
  have hprefix := prefix_drop a old b
  refine find_eq_none_iff.mp h (front.length + a.length) ?_ (Nat.le_add_right _ _) ?_
  · simp only [List.length_append]
    omega
  · rwa [← List.drop_drop, List.drop_left]

end Find

/-! ## Replacing -/

/-- The first list with the occurrences of `old` replaced, from left to right, is the second. -/
inductive Replaced (old new : List α) : List α → List α → Prop
  | none {s : List α} : ¬ old <:+: s → Replaced old new s s
  | first {a s t : List α} : IsFirst old a s → Replaced old new s t →
    Replaced old new (a ++ old ++ s) (a ++ new ++ t)

theorem Replaced.unique {t' : List α} (h : Replaced old new s t) (h' : Replaced old new s t') :
    t = t' := by
  induction h generalizing t' with
  | none hnone =>
    cases h' with
    | none => rfl
    | first => exact absurd ⟨_, _, rfl⟩ hnone
  | @first a s t hfirst _ ih =>
    generalize hwhole : a ++ old ++ s = whole at h'
    cases h' with
    | none hnone =>
      subst hwhole
      exact absurd ⟨_, _, rfl⟩ hnone
    | @first a' s' t' hfirst' hrest =>
      -- both are the first one
      have hlength : a.length = a'.length :=
        Nat.le_antisymm (hfirst a' s' hwhole) (hfirst' a s hwhole.symm)
      rw [List.append_assoc, List.append_assoc] at hwhole
      obtain ⟨rfl, hbehind⟩ := List.append_inj hwhole hlength
      obtain rfl := List.append_cancel_left hbehind
      rw [ih hrest]

end Occurrences
