import SampleTools.Include.Split

/-!
# Cleaning a path

`get_clean_path` splits a path and goes over the components, out of which it takes those that are
`.` and, before one that is `..`, the component before it. The `..` itself stays.

## Main definitions

* `Util.cleanLoop`, `Util.getCleanPath`: the functions
* `Util.normalise`: the components that are left when each `..` cancels what is before it
* `Util.Cleans`: a path is cleaned so

## Main results

* `Util.cleanLoop_eq`: the loop drops what is `.`, and does not end well if there is a `..`
* `Util.cleans_iff`: which paths are cleaned
-/

namespace SampleTools

namespace Util

open StdString

/-! ## The functions -/

/-- The loop of `get_clean_path`, at the component `it` points to. It has no result where an
iterator is moved before the first component. -/
def cleanLoop (vec : List (List Char)) (it : ℕ) : Option (List (List Char)) :=
  if h : it < vec.length then
    if vec[it] = ['.'] then cleanLoop (vec.eraseIdx it) it
    else if vec[it] = ['.', '.'] then
      -- `erase(it - 1, it)` answers the place of what it erases
      if it = 0 then none else cleanLoop (vec.eraseIdx (it - 1)) (it - 1)
    else cleanLoop vec (it + 1)
  else some vec
termination_by 2 * vec.length - it
decreasing_by
  · rw [List.length_eraseIdx_of_lt h]
    omega
  · rw [List.length_eraseIdx_of_lt (by omega)]
    omega
  · omega

/-- The loop that appends the components. -/
def append (cleanPath : List Char) : List (List Char) → List Char
  | [] => cleanPath
  | first :: vec => vec.foldl (fun cleanPath c => cleanPath ++ ['/'] ++ c) (cleanPath ++ first)

/-- `get_clean_path`. -/
def getCleanPath (path : StdString) (cleanPath : List Char) : Option (List Char) :=
  (split path ['/'] []).bind fun vec =>
    (cleanLoop (vec.map StdString.chars) 0).map (append cleanPath)

/-! ## What it is for -/

/-- What is left of components, the last one first: a `..` cancels the one before it. -/
def cancel (stack : List (List Char)) (c : List Char) : List (List Char) :=
  if c = ['.'] then stack else if c = ['.', '.'] then stack.tail else c :: stack

/-- The components that are left. -/
def normalise (components : List (List Char)) : List (List Char) :=
  (components.foldl cancel []).reverse

/-- No prefix has more `..` than ordinary components. -/
def Balanced (components : List (List Char)) : Prop :=
  ∀ pre, pre <+: components →
    pre.count ['.', '.'] ≤ pre.countP fun c => c ≠ ['.'] && c ≠ ['.', '.']

/-- The path is cleaned: the loops end, no iterator is moved before the first component, and the
components that are left are appended with a `/` between them. -/
def Cleans (path : StdString) : Prop :=
  ∀ cleanPath, getCleanPath path cleanPath =
    some (cleanPath ++ ['/'].intercalate (normalise (path.chars.splitOn '/')))

/-! ## The loop -/

variable {rest : List (List Char)}

/-- A component that is `..` makes the loop go back to the first one, and further. -/
theorem cleanLoop_parent (pre rest : List (List Char)) :
    cleanLoop (pre ++ ['.', '.'] :: rest) pre.length = none := by
  induction hn : pre.length generalizing pre with
  | zero =>
    obtain rfl := List.length_eq_zero_iff.mp hn
    rw [cleanLoop]
    simp
  | succ n ih =>
    -- only the component before it is erased, and the `..` is met again
    have hget : (pre ++ ['.', '.'] :: rest)[n + 1]? = some ['.', '.'] := by
      rw [← hn, List.getElem?_append_right le_rfl, Nat.sub_self]
      rfl
    obtain ⟨hlt, hget⟩ := List.getElem?_eq_some_iff.mp hget
    have herase : (pre ++ ['.', '.'] :: rest).eraseIdx n = pre.eraseIdx n ++ ['.', '.'] :: rest :=
      List.eraseIdx_append_of_lt_length (by omega) _
    rw [cleanLoop, dif_pos hlt, hget, if_neg (by decide), if_pos rfl, if_neg (by omega),
      Nat.add_sub_cancel, herase]
    exact ih (pre.eraseIdx n) (by rw [List.length_eraseIdx_of_lt (by omega)]; omega)

/-- The loop drops what is `.`, and has no result if there is a `..`. -/
theorem cleanLoop_eq (pre rest : List (List Char)) : cleanLoop (pre ++ rest) pre.length =
    if ['.', '.'] ∈ rest then none else some (pre ++ rest.filter (· ≠ ['.'])) := by
  induction rest generalizing pre with
  | nil =>
    rw [cleanLoop]
    simp
  | cons c rest ih =>
    have hget : (pre ++ c :: rest)[pre.length]? = some c := by
      rw [List.getElem?_append_right le_rfl, Nat.sub_self]
      rfl
    obtain ⟨hlt, hget⟩ := List.getElem?_eq_some_iff.mp hget
    by_cases hdot : c = ['.']
    · subst hdot
      have herase : (pre ++ ['.'] :: rest).eraseIdx pre.length = pre ++ rest := by
        rw [List.eraseIdx_append_of_length_le le_rfl, Nat.sub_self]
        rfl
      rw [cleanLoop, dif_pos hlt, hget, if_pos rfl, herase, ih]
      simp
    · by_cases hparent : c = ['.', '.']
      · subst hparent
        rw [cleanLoop_parent, if_pos List.mem_cons_self]
      · have hstep := ih (pre ++ [c])
        rw [List.append_assoc, List.length_append] at hstep
        rw [cleanLoop, dif_pos hlt, hget, if_neg hdot, if_neg hparent]
        refine hstep.trans ?_
        simp [hdot, Ne.symm hparent]

/-- Without a `..`, what is left is what is not a `.`. -/
theorem normalise_eq (h : ['.', '.'] ∉ rest) : normalise rest = rest.filter (· ≠ ['.']) := by
  have hfold : ∀ (stack : List (List Char)), rest.foldl cancel stack =
      (rest.filter (· ≠ ['.'])).reverse ++ stack := by
    induction rest with
    | nil => exact fun stack => rfl
    | cons c rest ih =>
      intro stack
      rw [List.mem_cons, not_or] at h
      obtain ⟨hc, hrest⟩ := h
      rw [List.foldl_cons, ih hrest, cancel]
      by_cases hdot : c = ['.']
      · simp [hdot]
      · simp [hdot, Ne.symm hc]
  rw [normalise, hfold, List.append_nil, List.reverse_reverse]

theorem append_eq (cleanPath : List Char) (vec : List (List Char)) :
    append cleanPath vec = cleanPath ++ ['/'].intercalate vec := by
  cases vec with
  | nil => simp [append]
  | cons first vec =>
    rw [append]
    induction vec generalizing first cleanPath with
    | nil => simp
    | cons c vec ih =>
      rw [List.foldl_cons, ih (cleanPath ++ first ++ ['/']) c]
      simp

/-- What `get_clean_path` does: it appends what is left after every `.` is dropped, and has no
result if there is a `..`. -/
theorem getCleanPath_eq (path : StdString) (cleanPath : List Char) : getCleanPath path cleanPath =
    if ['.', '.'] ∈ path.chars.splitOn '/' then none
    else some (cleanPath ++ ['/'].intercalate (normalise (path.chars.splitOn '/'))) := by
  obtain ⟨vec, hvec, hchars⟩ := split_eq path '/'
  have hloop := cleanLoop_eq [] (path.chars.splitOn '/')
  rw [List.nil_append, List.length_nil] at hloop
  rw [getCleanPath, hvec, Option.bind_some, hchars, hloop]
  split_ifs with hparent
  · rfl
  · rw [normalise_eq hparent, Option.map_some, append_eq, List.nil_append]

/-- **A path is cleaned exactly if it has no `..`.** For every path: the loops end without moving
an iterator before the first component, and append the components that are left when each `.` is
dropped and each `..` cancels the component before it, exactly if no component is a `..`. -/
theorem cleans_iff (path : StdString) : Cleans path ↔ ['.', '.'] ∉ path.chars.splitOn '/' := by
  unfold Cleans
  simp only [getCleanPath_eq]
  split_ifs with hparent
  · exact iff_of_false (fun h => nomatch h []) (not_not.mpr hparent)
  · exact iff_of_true (fun _ => rfl) hparent

/-- `a/..`: the `..` has a component before it. -/
def parentPath : StdString := ⟨['a', '/', '.', '.'], by decide⟩

/-- The loop goes back to the first component for the second time, and moves before it. -/
theorem cleans_fails : Balanced (parentPath.chars.splitOn '/') ∧
    normalise (parentPath.chars.splitOn '/') = [] ∧ getCleanPath parentPath [] = none ∧
    ¬ Cleans parentPath := by
  have hsplit : parentPath.chars.splitOn '/' = [['a'], ['.', '.']] := rfl
  have hnone : getCleanPath parentPath [] = none := by
    rw [getCleanPath_eq, hsplit]
    rfl
  refine ⟨?_, ?_, hnone, fun h => nomatch hnone.symm.trans (h [])⟩
  · rw [hsplit]
    have hinits : ∀ pre ∈ List.inits [['a'], ['.', '.']],
        pre.count ['.', '.'] ≤ pre.countP fun c => c ≠ ['.'] && c ≠ ['.', '.'] := by
      decide
    exact fun pre hpre => hinits pre ((List.mem_inits _ _).mpr hpre)
  · rw [hsplit]
    decide

end Util

end SampleTools
