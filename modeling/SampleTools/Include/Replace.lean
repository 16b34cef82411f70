import SampleTools.Library.Occurrences

/-!
# Replacing in a string

`StringAssist::replace` looks for the old value, puts the new one in its place, and goes on behind
that. If the old value is empty it is found wherever the loop looks for it.

A string is the list of its characters here, `npos` is `none`, and memory does not run out.

## Main definitions

* `StringAssist.replaceLoop`: the loop of `replace`
* `StringAssist.Replaces`: it ends with the occurrences replaced

## Main results

* `StringAssist.replaceLoop_eq`: the loop replaces what is left of the string
* `StringAssist.replaces_iff`: when it ends with the occurrences replaced
-/

namespace SampleTools

namespace StringAssist

open Occurrences

/-- `std::string::replace`, with `count` characters from `pos` on replaced. -/
def replaceAt (str : List Char) (pos count : ℕ) (newVal : List Char) : List Char :=
  str.take pos ++ newVal ++ str.drop (pos + count)

/-- The loop of `replace`; `none` is a loop that goes on after `fuel` rounds. -/
def replaceLoop (oldVal newVal : List Char) : ℕ → List Char → ℕ → Option (List Char)
  | 0, _, _ => none
  | fuel + 1, str, pos =>
    match find str oldVal pos with
    | some pos =>
      replaceLoop oldVal newVal fuel (replaceAt str pos oldVal.length newVal) (pos + newVal.length)
    | none => some str

/-- `replace` ends, and with the occurrences of the old value in the string replaced. -/
def Replaces (str oldVal newVal : List Char) : Prop :=
  ∃ fuel result, replaceLoop oldVal newVal fuel str 0 = some result ∧
    Replaced oldVal newVal str result

variable {str oldVal newVal front tail : List Char} {pos fuel : ℕ}

theorem replaceAt_append (front a oldVal b newVal : List Char) :
    replaceAt (front ++ (a ++ oldVal ++ b)) (front.length + a.length) oldVal.length newVal =
      (front ++ a ++ newVal) ++ b := by
  have hbefore : front ++ (a ++ oldVal ++ b) = (front ++ a) ++ (oldVal ++ b) := by
    simp only [List.append_assoc]
  rw [replaceAt, hbefore, ← List.length_append, List.take_left, ← List.drop_drop, List.drop_left,
    List.drop_left]

/-- What is in front of the index stays, and what is behind it is replaced: the loop does not look
at what it has put into the string. -/
theorem replaceLoop_eq (hold : oldVal ≠ []) (hfuel : tail.length < fuel) :
    ∃ t, replaceLoop oldVal newVal fuel (front ++ tail) front.length = some (front ++ t) ∧
      Replaced oldVal newVal tail t := by
  induction fuel generalizing front tail with
  | zero => exact absurd hfuel (Nat.not_lt_zero _)
  | succ fuel ih =>
    rw [replaceLoop]
    split
    next i hfind =>
      obtain ⟨a, b, rfl, hfirst, rfl⟩ := find_append_eq_some hfind
      -- the rest is shorter by an old value
      have hpos := List.length_pos_iff.mpr hold
      have hshort : b.length < fuel := by
        simp only [List.length_append] at hfuel
        omega
      obtain ⟨t, ht, hreplaced⟩ := @ih (front ++ a ++ newVal) b hshort
      rw [List.length_append, List.length_append] at ht
      refine ⟨a ++ newVal ++ t, ?_, .first hfirst hreplaced⟩
      rw [replaceAt_append, ht]
      simp only [List.append_assoc]
    next hfind => exact ⟨tail, rfl, .none (find_append_eq_none hfind)⟩

/-- An empty value is found where it is looked for. -/
theorem find_nil (h : pos ≤ str.length) : find str [] pos = some pos :=
  find_eq_some_iff.mpr ⟨⟨le_rfl, List.nil_prefix⟩, h, fun _ hlt hle => absurd hlt hle.not_gt⟩

/-- The loop does not come to the end of the string. -/
theorem replaceLoop_nil (newVal : List Char) (fuel : ℕ) (h : pos ≤ str.length) :
    replaceLoop [] newVal fuel str pos = none := by
  induction fuel generalizing str pos with
  | zero => rfl
  | succ fuel ih =>
    rw [replaceLoop, find_nil h]
    apply ih
    rw [replaceAt, List.length_append, List.length_append, List.length_take]
    omega

/-- **`replace` replaces exactly if there is something to replace.** For every string and every new
value, also one that has the old value in it or makes it up with what stands beside it: the loop
ends, and the result is the string with the occurrences of the old value replaced that are found
from left to right, none of them overlapping, exactly if the old value is not empty. -/
theorem replaces_iff (str oldVal newVal : List Char) :
    Replaces str oldVal newVal ↔ oldVal ≠ [] := by
  constructor
  · rintro ⟨fuel, result, hresult, -⟩ rfl
    cases (replaceLoop_nil newVal fuel (Nat.zero_le _)).symm.trans hresult
  · intro hold
    obtain ⟨t, ht, hreplaced⟩ :=
      @replaceLoop_eq oldVal newVal [] str _ hold str.length.lt_succ_self
    exact ⟨_, t, ht, hreplaced⟩

/-- An old value that the new one makes up again is not replaced again. -/
example : replaceLoop ['a', 'a'] ['b', 'a', 'a'] 5 ['a', 'a', 'a', 'a'] 0 =
    some ['b', 'a', 'a', 'b', 'a', 'a'] := by decide

/-- With an empty old value there is no result, whether or not the string grows. -/
theorem replaces_fails : (∀ fuel, replaceLoop [] ['b'] fuel ['a'] 0 = none) ∧
    ¬ Replaces ['a'] [] ['b'] ∧ ¬ Replaces ['a'] [] [] := by
  have hnone : ∀ newVal fuel, replaceLoop [] newVal fuel ['a'] 0 = none :=
    fun newVal fuel => replaceLoop_nil newVal fuel (Nat.zero_le _)
  refine ⟨hnone ['b'], ?_, ?_⟩
  · rintro ⟨fuel, result, hresult, -⟩
    cases (hnone ['b'] fuel).symm.trans hresult
  · rintro ⟨fuel, result, hresult, -⟩
    cases (hnone [] fuel).symm.trans hresult

end StringAssist

end SampleTools
