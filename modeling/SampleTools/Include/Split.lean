import SampleTools.Library.Cut
import SampleTools.Library.StdString

/-!
# Splitting a string

There are two functions of this name. Both look for the next character of the separator string;
`Util.split` goes on behind that character, `StringAssist.split` as far behind it as the separator
string is long. For one separator character this is the same.

## Main definitions

* `Util.splitLoop`, `Util.split`: the one function
* `StringAssist.splitLoop`, `StringAssist.split`: the other
* `StringAssist.Splits`: all characters but the separators are in the elements

## Main results

* `StringAssist.splitLoop_eq`: the loop cuts what is left of the string
* `Util.split_eq`: the pieces between the separators
* `StringAssist.splits_iff`: which strings are split without loss
* `StringAssist.split_agrees`: both functions, for one separator
-/

namespace SampleTools

open StdString

namespace Util

/-- The loop of `split`, and what comes after it. -/
def splitLoop (s : StdString) (delim : List Char) (last : ℕ) (ret : List StdString) :
    Option (List StdString) :=
  let index := s.findFirstOf delim last
  if index ≠ npos then
    match s.substr last (sizeSub index last) with
    | none => none
    | some piece => splitLoop s delim (sizeAdd index 1) (ret ++ [piece])
  -- the index is `npos` here
  else if sizeSub index last > 0 then (s.substr last (sizeSub index last)).map (ret ++ [·])
  else some ret
termination_by s.size - last
decreasing_by
  have hbounds := findFirstOf_lt ‹_›
  have hsize := s.size_lt
  have hnext : sizeAdd (s.findFirstOf delim last) 1 = s.findFirstOf delim last + 1 :=
    sizeAdd_eq (by unfold size at hbounds; omega)
  change s.size - sizeAdd (s.findFirstOf delim last) 1 < s.size - last
  omega

/-- `split`. -/
def split (s : StdString) (delim : List Char) (ret : List StdString) : Option (List StdString) :=
  splitLoop s delim 0 ret

end Util

namespace StringAssist

/-- The loop of `split`, and what comes after it. -/
def splitLoop (str sepr : StdString) (last : ℕ) (elems : List StdString) :
    Option (List StdString) :=
  let index := str.findFirstOf sepr.chars last
  if index ≠ npos then
    match str.substr last (sizeSub index last) with
    | none => none
    | some elem => splitLoop str sepr (sizeAdd index sepr.size) (elems ++ [elem])
  else if sizeSub index last > 0 then (str.substr last (sizeSub index last)).map (elems ++ [·])
  else some elems
termination_by str.size - last
decreasing_by
  have hbounds := findFirstOf_lt ‹_›
  have hpos := size_pos_of_findFirstOf ‹_›
  have hsize := str.size_lt
  have hsepr := sepr.size_lt
  have hnext : sizeAdd (str.findFirstOf sepr.chars last) sepr.size =
      str.findFirstOf sepr.chars last + sepr.size :=
    sizeAdd_eq (by unfold size at hbounds ⊢; omega)
  change str.size - sizeAdd (str.findFirstOf sepr.chars last) sepr.size < str.size - last
  omega

/-- `StringAssist::split`. What is in `elems` before is thrown away. -/
def split (str sepr : StdString) (_elems : List StdString) : Option (List StdString) :=
  if str.size = 0 then some [] else splitLoop str sepr 0 []

/-- Nothing is thrown, and the elements have each character that is no separator, in order. -/
def Splits (str sepr : StdString) : Prop := ∀ elems, ∃ pieces, split str sepr elems = some pieces ∧
  (pieces.flatMap StdString.chars).filter (· ∉ sepr.chars) = str.chars.filter (· ∉ sepr.chars)

/-! ## The loop -/

section Loop

variable {str sepr s : StdString} {front tail a b delim : List Char} {c : Char}

/-- A separator is found: the piece before it. -/
theorem found (h : s.chars = front ++ (a ++ c :: b)) (hc : c ∈ delim) (ha : ∀ x ∈ a, x ∉ delim) :
    s.findFirstOf delim front.length = front.length + a.length ∧
      front.length + a.length ≠ npos ∧ ∃ piece : StdString, piece.chars = a ∧
        s.substr front.length (sizeSub (front.length + a.length) front.length) = some piece := by
  have hsize := s.size_lt
  have hlength := congrArg List.length h
  simp only [List.length_append, List.length_cons] at hlength
  have hdrop : s.chars.drop front.length = a ++ c :: b := by rw [h, List.drop_left]
  have hcount : sizeSub (front.length + a.length) front.length = a.length := by
    rw [sizeSub_eq (Nat.le_add_right _ _) (by omega), Nat.add_sub_cancel_left]
  have hmiddle : s.chars = front ++ a ++ c :: b := by rw [h, List.append_assoc]
  obtain ⟨hpiece, hchars⟩ := substr_of_append hmiddle rfl (.inl hcount)
  refine ⟨findFirstOf_of_append hdrop hc ha, ?_, _, hchars, hpiece⟩
  unfold npos
  omega

/-- No separator is found: the last piece, where `substr` stops at the end of the string. -/
theorem not_found (h : s.chars = front ++ tail) (hnone : ∀ x ∈ tail, x ∉ delim) :
    s.findFirstOf delim front.length = npos ∧ sizeSub npos front.length > 0 ∧
      ∃ piece : StdString, piece.chars = tail ∧
        s.substr front.length (sizeSub npos front.length) = some piece := by
  have hsize := s.size_lt
  have hlength := congrArg List.length h
  rw [List.length_append] at hlength
  have hdrop : s.chars.drop front.length = tail := by rw [h, List.drop_left]
  have hcount : sizeSub npos front.length = npos - front.length :=
    sizeSub_eq (by unfold npos; omega) (by decide)
  have hlong : tail.length ≤ sizeSub npos front.length := by
    rw [hcount]
    unfold npos
    omega
  have hlast : s.chars = front ++ tail ++ [] := by rw [h, List.append_nil]
  obtain ⟨hpiece, hchars⟩ := substr_of_append hlast rfl (.inr ⟨rfl, hlong⟩)
  refine ⟨findFirstOf_of_none (by rwa [hdrop]), ?_, _, hchars, hpiece⟩
  rw [hcount]
  unfold npos
  omega

/-- Behind the end of the string `substr` throws. -/
theorem splitLoop_of_size_lt {last : ℕ} (h : str.size < last) (hlast : last < npos)
    (elems : List StdString) : splitLoop str sepr last elems = none := by
  have hindex : str.findFirstOf sepr.chars last = npos := by
    apply findFirstOf_of_none
    rw [List.drop_of_length_le h.le]
    exact nofun
  have hcount : sizeSub npos last > 0 := by
    rw [sizeSub_eq hlast.le (by decide)]
    omega
  rw [splitLoop]
  simp only [hindex]
  rw [if_neg (not_not.mpr rfl), if_pos hcount, substr, if_pos h]
  rfl

/-- The loop cuts what is left of the string. -/
theorem splitLoop_eq (sepr : StdString) (h : str.chars = front ++ tail) (elems : List StdString) :
    (splitLoop str sepr front.length elems).map (List.map StdString.chars) =
      (Cut.cut (· ∈ sepr.chars) sepr.size tail).map (elems.map StdString.chars ++ ·) := by
  have hsize := str.size_lt
  have hsepr := sepr.size_lt
  induction hn : tail.length using Nat.strong_induction_on generalizing front tail elems with
  | h n ih =>
    have hlength := congrArg List.length h
    rcases Cut.exists_separator (fun x => decide (x ∈ sepr.chars)) tail with
      hnone | ⟨a, c, b, rfl, ha, hc⟩
    · have hnot : ∀ x ∈ tail, x ∉ sepr.chars := by simpa using hnone
      obtain ⟨hindex, hcount, piece, hchars, hpiece⟩ := not_found h hnot
      rw [Cut.cut_of_none hnone, splitLoop]
      simp only [hindex]
      rw [if_neg (not_not.mpr rfl), if_pos hcount, hpiece]
      simp [hchars]
    · obtain ⟨hindex, hne, piece, hchars, hpiece⟩ :=
        found h (by simpa using hc) (by simpa using ha)
      simp only [List.length_append, List.length_cons] at hlength hn
      have hnext : sizeAdd (front.length + a.length) sepr.size =
          front.length + a.length + sepr.size :=
        sizeAdd_eq (by unfold size; omega)
      rw [Cut.cut_append ha hc, splitLoop]
      simp only [hindex, hnext]
      rw [if_pos hne, hpiece]
      dsimp only
      split_ifs with hle
      -- the rest of the string, behind what is skipped
      · have hpos : 0 < sepr.size := List.length_pos_of_mem (by simpa using hc)
        have hskip : ((c :: b).take sepr.size).length = sepr.size :=
          List.length_take_of_le (by rwa [List.length_cons])
        have hdrop : (c :: b).drop sepr.size = b.drop (sepr.size - 1) := by
          conv => lhs; rw [← Nat.sub_add_cancel hpos]
          rfl
        have hrest : str.chars = (front ++ a ++ (c :: b).take sepr.size) ++
            b.drop (sepr.size - 1) := by
          rw [h, ← hdrop, List.append_assoc (front ++ a), List.take_append_drop,
            List.append_assoc]
        have hlast : (front ++ a ++ (c :: b).take sepr.size).length =
            front.length + a.length + sepr.size := by
          rw [List.length_append, List.length_append, hskip]
        have hshort : (b.drop (sepr.size - 1)).length < n := by
          rw [List.length_drop]
          omega
        rw [← hlast, ih _ hshort hrest _ rfl, List.map_append, List.map_singleton, hchars,
          Option.map_map]
        congr 1
        funext rest
        simp
      · rw [splitLoop_of_size_lt (by unfold size at *; omega)
          (by unfold size npos at *; omega)]
        rfl

/-- For one separator character both loops do the same. -/
theorem splitLoop_eq_of_single (s : StdString) (hsepr : sepr.size = 1) (last : ℕ)
    (elems : List StdString) :
    splitLoop s sepr last elems = Util.splitLoop s sepr.chars last elems := by
  fun_induction splitLoop s sepr last elems with
  | case1 last elems index hfound hthrows =>
    rw [Util.splitLoop]
    rw [if_pos hfound, hthrows]
  | case2 last elems index hfound elem helem ih =>
    rw [Util.splitLoop]
    rw [if_pos hfound, helem, ih, hsepr]
  | case3 last elems index hnone hcount =>
    rw [Util.splitLoop]
    rw [if_neg hnone, if_pos hcount]
  | case4 last elems index hnone hcount =>
    rw [Util.splitLoop]
    rw [if_neg hnone, if_neg hcount]

end Loop

/-- A string of one character. -/
def single (c : Char) : StdString := ⟨[c], by simp⟩

/-- Both loops split at one separator character. -/
theorem splitLoop_single (s : StdString) (c : Char) : ∃ pieces,
    splitLoop s (single c) 0 [] = some pieces ∧ pieces.map StdString.chars = s.chars.splitOn c := by
  have hloop := splitLoop_eq (single c) (List.nil_append s.chars).symm []
  have hp : (fun x => decide (x ∈ (single c).chars)) = fun x => x == c := by
    funext x
    exact decide_eq_decide.mpr List.mem_singleton
  rw [hp, show (single c).size = 1 from rfl, Cut.cut_one, Option.map_some] at hloop
  obtain ⟨pieces, hpieces, heq⟩ := Option.map_eq_some_iff.mp hloop
  exact ⟨pieces, hpieces, heq⟩

/-- What `split` makes of a string. -/
theorem split_chars (str sepr : StdString) (elems : List StdString) :
    (split str sepr elems).map (List.map StdString.chars) = if str.chars = [] then some []
      else Cut.cut (· ∈ sepr.chars) sepr.size str.chars := by
  have hloop := splitLoop_eq sepr (List.nil_append str.chars).symm []
  rw [split, size]
  simp only [List.length_eq_zero_iff]
  split_ifs
  · rfl
  · refine hloop.trans ?_
    cases Cut.cut (· ∈ sepr.chars) sepr.size str.chars <;> rfl

/-- **A string is split without loss exactly if its separators stand together in multiples of the
length of the separator string.** For every string and every separator string that is not empty:
nothing is thrown, and the characters that are no separators are all in the elements, each once and
in order, exactly if the numbers of separators between the other characters, and before and behind
them, are multiples of that length. -/
theorem splits_iff {str sepr : StdString} (hsepr : sepr.chars ≠ []) : Splits str sepr ↔
    Cut.RunsDvd (· ∈ sepr.chars) sepr.size str.chars := by
  have hpos : 0 < sepr.size := List.length_pos_iff.mpr hsepr
  rw [← Cut.cut_lossless_iff hpos]
  have hchars := split_chars str sepr
  have hnot : (fun x => decide (x ∉ sepr.chars)) = fun x => !decide (x ∈ sepr.chars) :=
    funext fun x => decide_not
  unfold Splits
  rw [hnot]
  by_cases hempty : str.chars = []
  · refine iff_of_true (fun elems => ⟨[], if_pos (List.length_eq_zero_iff.mpr hempty), ?_⟩)
      (Cut.lossless_of_none ?_)
    · rw [hempty]
      rfl
    · rw [hempty]
      exact nofun
  · simp only [if_neg hempty] at hchars
    constructor
    · intro h
      obtain ⟨pieces, hpieces, heq⟩ := h []
      have hcut := hchars []
      rw [hpieces] at hcut
      refine ⟨pieces.map StdString.chars, hcut.symm, ?_⟩
      rwa [← List.flatMap_def]
    · rintro ⟨cuts, hcuts, heq⟩ elems
      obtain ⟨pieces, hpieces, rfl⟩ := Option.map_eq_some_iff.mp ((hchars elems).trans hcuts)
      refine ⟨pieces, hpieces, ?_⟩
      rwa [List.flatMap_def]

/-- Two characters of a separator string, always together. -/
theorem splits_together :
    Splits ⟨['a', ',', ';', 'b', ',', ';'], by decide⟩ ⟨[',', ';'], by decide⟩ :=
  (splits_iff (by decide)).mpr (by decide)

/-- Behind one character of a separator string of two, the next character is lost, and at the end
of the string `substr` throws. -/
theorem splits_fails :
    (split ⟨['a', ',', 'b', 'c'], by decide⟩ ⟨[',', ';'], by decide⟩ []).map
        (List.map StdString.chars) = some [['a'], ['c']] ∧
      split ⟨['a', ','], by decide⟩ ⟨[',', ';'], by decide⟩ [] = none ∧
      ¬ Splits ⟨['a', ',', 'b', 'c'], by decide⟩ ⟨[',', ';'], by decide⟩ ∧
      ¬ Splits ⟨['a', ','], by decide⟩ ⟨[',', ';'], by decide⟩ := by
  have hlost : (split ⟨['a', ',', 'b', 'c'], by decide⟩ ⟨[',', ';'], by decide⟩ []).map
      (List.map StdString.chars) = some [['a'], ['c']] := by
    rw [split_chars, if_neg (by decide)]
    have hcut := Cut.cut_append (p := fun x => decide (x ∈ [',', ';'])) (n := 2) (a := ['a'])
      (c := ',') (b := ['b', 'c']) (by simp) (by simp)
    refine hcut.trans ?_
    rw [if_pos (by simp), Cut.cut_of_none (by simp)]
    rfl
  have hthrows : split ⟨['a', ','], by decide⟩ ⟨[',', ';'], by decide⟩ [] = none := by
    rw [← Option.map_eq_none_iff (f := List.map StdString.chars), split_chars,
      if_neg (by decide)]
    have hcut := Cut.cut_append (p := fun x => decide (x ∈ [',', ';'])) (n := 2) (a := ['a'])
      (c := ',') (b := []) (by simp) (by simp)
    exact hcut.trans (if_neg (by decide))
  refine ⟨hlost, hthrows, fun h => ?_, fun h => ?_⟩
  · obtain ⟨pieces, hpieces, heq⟩ := h []
    rw [hpieces] at hlost
    rw [List.flatMap_def, Option.some.inj hlost] at heq
    revert heq
    decide
  · obtain ⟨pieces, hpieces, -⟩ := h []
    cases hthrows.symm.trans hpieces

/-- **Both functions agree on one separator character, and lose nothing.** For every string that is
not empty and every character: the pieces of both are the same, none has the character, they are one
more than it is found in the string, and joined with it they give the string. -/
theorem split_agrees {s : StdString} (hs : s.chars ≠ []) (c : Char) (elems : List StdString) :
    ∃ pieces, Util.split s [c] [] = some pieces ∧ split s (single c) elems = some pieces ∧
      (∀ piece ∈ pieces, c ∉ piece.chars) ∧ pieces.length = s.chars.count c + 1 ∧
      [c].intercalate (pieces.map StdString.chars) = s.chars := by
  obtain ⟨pieces, hpieces, hchars⟩ := splitLoop_single s c
  have hsame : Util.split s [c] [] = some pieces := by
    rw [Util.split, ← hpieces]
    have hone : (single c).size = 1 := rfl
    exact (splitLoop_eq_of_single s hone 0 []).symm
  have hsize : s.size ≠ 0 := fun h => hs (List.length_eq_zero_iff.mp h)
  refine ⟨pieces, hsame, (if_neg hsize).trans hpieces, fun piece hpiece => ?_, ?_, ?_⟩
  · apply Cut.not_mem_of_mem_splitOn (l := s.chars)
    rw [← hchars]
    exact List.mem_map_of_mem hpiece
  · rw [← Cut.length_splitOn, ← hchars, List.length_map]
  · rw [hchars, List.intercalate_splitOn]

/-- A separator before and behind, and two together. -/
theorem split_agrees_empty_pieces : ∃ pieces,
    Util.split ⟨[',', 'a', ',', ',', 'b', ','], by decide⟩ [','] [] = some pieces ∧
      split ⟨[',', 'a', ',', ',', 'b', ','], by decide⟩ (single ',') [] = some pieces ∧
      (∀ piece ∈ pieces, ',' ∉ piece.chars) ∧ pieces.length = 5 ∧
      [','].intercalate (pieces.map StdString.chars) = [',', 'a', ',', ',', 'b', ','] :=
  split_agrees (by decide) ',' []

end StringAssist

/-- `Util.split` finds the pieces between the separators. -/
theorem Util.split_eq (s : StdString) (c : Char) : ∃ vec, Util.split s [c] [] = some vec ∧
    vec.map StdString.chars = s.chars.splitOn c := by
  obtain ⟨pieces, hpieces, heq⟩ := StringAssist.splitLoop_single s c
  rw [StringAssist.splitLoop_eq_of_single s rfl] at hpieces
  exact ⟨pieces, hpieces, heq⟩

end SampleTools
