import SampleTools.TopK.Main

/-!
# Heap sort

The second program of the directory sorts an array with the same loops as the first. Here the
array has an end, and an `int` has a largest value: reading outside the array and an index that is
too large are undefined.

## Main definitions

* `HeapSort.adjust`, `HeapSort.build`, `HeapSort.sort`: the loops on the array
* `HeapSort.main`: both loops of the program

## Main results

* `HeapSort.adjust_eq`: inside the array the loop does what `TopK.adjustDown` does
* `HeapSort.main_sorts`: every array is sorted
-/

namespace SampleTools

namespace HeapSort

open Heap

/-! ## The program -/

/-- The largest `int`. -/
def intMax : ℕ := 2 ^ 31 - 1

/-- The smaller one of two children; the second one may be past the end of the heap. -/
def smallerChild (arr : List ℤ) (topSize child : ℕ) : Option ℕ :=
  if child + 1 < topSize then do
    let second ← arr[child + 1]?
    let first ← arr[child]?
    some (if second < first then child + 1 else child)
  else some child

theorem smallerChild_cases {arr : List ℤ} {topSize child c : ℕ}
    (h : smallerChild arr topSize child = some c) :
    c = child ∨ c = child + 1 ∧ child + 1 < topSize := by
  unfold smallerChild at h
  split at h
  next hsecond =>
    obtain ⟨second, -, h⟩ := Option.bind_eq_some_iff.mp h
    obtain ⟨first, -, h⟩ := Option.bind_eq_some_iff.mp h
    obtain rfl := Option.some.inj h
    split_ifs
    · exact .inr ⟨rfl, hsecond⟩
    · exact .inl rfl
  · exact .inl (Option.some.inj h).symm

/-- `std::swap` of two elements. -/
def swap (arr : List ℤ) (i j : ℕ) : Option (List ℤ) := do
  let x ← arr[i]?
  let y ← arr[j]?
  some ((arr.set i y).set j x)

/-- `adjust`. -/
def adjust (arr : List ℤ) (topSize parent : ℕ) : Option (List ℤ) :=
  let child := parent * 2 + 1
  if child > intMax then none
  else if child < topSize then
    match _h : smallerChild arr topSize child with
    | none => none
    | some child =>
      match arr[child]?, arr[parent]? with
      | some x, some y =>
        if x < y then (swap arr child parent).bind fun arr => adjust arr topSize child
        else some arr
      | _, _ => none
  else some arr
termination_by topSize - parent
decreasing_by
  have hcases := smallerChild_cases _h
  omega

/-- The loop that makes a heap, from the place before `i` down. -/
def build (size : ℕ) : ℕ → List ℤ → Option (List ℤ)
  | 0, arr => some arr
  | i + 1, arr => (adjust arr size i).bind (build size i)

/-- The loop that sorts, from the place `i` down. -/
def sort : ℕ → List ℤ → Option (List ℤ)
  | 0, arr => some arr
  | i + 1, arr => do
    let arr ← swap arr 0 (i + 1)
    let arr ← adjust arr (i + 1) 0
    sort i arr

/-- The loops of `main`, on an array of any size. -/
def main (arr : List ℤ) : Option (List ℤ) := do
  let size := arr.length
  let arr ← build size ((size - 1) / 2 + 1) arr
  sort (size - 1) arr

/-! ## The array as memory -/

variable {arr arr' : List ℤ} {topSize parent i j n : ℕ}

/-- The memory an array is in. -/
def ints (arr : List ℤ) : TopK.Ints := ⟨fun i => arr.getD i 0⟩

theorem values_ints (arr : List ℤ) : values arr.length (ints arr).get = arr := by
  refine List.ext_getElem (length_values _ _) fun i _ hi => ?_
  simp [values, ints, hi]

theorem ints_get (hi : i < arr.length) : arr[i]? = some ((ints arr).get i) := by
  simp [ints, hi]

/-- The array is as long as before, and holds what the memory holds. -/
def Holds (n : ℕ) (a : TopK.Ints) (arr : List ℤ) : Prop := arr.length = n ∧ ints arr = a

theorem swap_eq (hi : i < arr.length) (hj : j < arr.length) :
    ∃ arr', swap arr i j = some arr' ∧ Holds arr.length ((ints arr).swap i j) arr' := by
  refine ⟨_, by rw [swap, ints_get hi, ints_get hj]; rfl, by simp, ?_⟩
  refine congrArg TopK.Ints.mk (funext fun k => ?_)
  rw [List.getD_eq_getElem?_getD, List.getElem?_set, List.length_set, List.getElem?_set]
  by_cases hkj : j = k
  · subst hkj
    rw [if_pos rfl, if_pos hj, swap_right]
    rfl
  · rw [if_neg hkj]
    by_cases hki : i = k
    · subst hki
      rw [if_pos rfl, if_pos hi, swap_left]
      rfl
    · rw [if_neg hki, swap_of_ne (Ne.symm hki) (Ne.symm hkj)]
      exact (List.getD_eq_getElem?_getD ..).symm

theorem smallerChild_eq (htop : topSize ≤ arr.length) {child : ℕ} (hchild : child < topSize) :
    smallerChild arr topSize child = some (TopK.smallerChild (ints arr) topSize child) := by
  unfold smallerChild TopK.smallerChild
  by_cases hsecond : child + 1 < topSize
  · rw [if_pos hsecond, ints_get (hsecond.trans_le htop), ints_get (hchild.trans_le htop)]
    simp [hsecond]
  · rw [if_neg hsecond, if_neg fun h => hsecond h.1]

/-- Inside the array the loop does what `TopK.adjustDown` does. -/
theorem adjust_eq (hsize : arr.length < 2 ^ 30) (htop : topSize ≤ arr.length)
    (hparent : parent < arr.length) : ∃ arr', adjust arr topSize parent = some arr' ∧
      Holds arr.length (TopK.adjustDown (ints arr) topSize parent) arr' := by
  fun_induction adjust arr topSize parent with
  | case1 arr parent child hlarge =>
    have hmax : parent * 2 + 1 > 2 ^ 31 - 1 := hlarge
    omega
  | case2 arr parent child hsmall hchild hnone =>
    -- the children that are read are in the heap, and so in the array
    cases hnone.symm.trans (smallerChild_eq htop hchild)
  | case3 arr parent child hsmall hchild c hc x y hy hx hlt ih =>
    obtain rfl := Option.some.inj (hc.symm.trans (smallerChild_eq htop hchild))
    set c := TopK.smallerChild (ints arr) topSize child with hcdef
    have hlast : c < arr.length := (TopK.smallerChild_lt (ints arr) hchild).trans_le htop
    obtain rfl := Option.some.inj (hx.symm.trans (ints_get hlast))
    obtain rfl := Option.some.inj (hy.symm.trans (ints_get hparent))
    obtain ⟨arr₁, hswap, hlength, hints⟩ := swap_eq hlast hparent
    rw [← hlength] at hsize htop hlast
    obtain ⟨arr', hadjust, hlength', hints'⟩ := ih arr₁ hsize htop hlast
    refine ⟨arr', by rw [hswap]; exact hadjust, hlength'.trans hlength, ?_⟩
    -- the other program names the parent first
    have hcomm : (ints arr).swap c parent = (ints arr).swap parent c :=
      congrArg (fun σ : Equiv.Perm ℕ => TopK.Ints.mk fun k => (ints arr).get (σ k))
        (Equiv.swap_comm c parent)
    rw [TopK.adjustDown]
    dsimp only
    rw [if_pos hchild, ← hcdef, if_pos hlt, hints', hints, hcomm]
  | case4 arr parent child hsmall hchild c hc x y hy hx hnlt =>
    obtain rfl := Option.some.inj (hc.symm.trans (smallerChild_eq htop hchild))
    have hlast := (TopK.smallerChild_lt (ints arr) hchild).trans_le htop
    obtain rfl := Option.some.inj (hx.symm.trans (ints_get hlast))
    obtain rfl := Option.some.inj (hy.symm.trans (ints_get hparent))
    refine ⟨arr, rfl, rfl, ?_⟩
    rw [TopK.adjustDown]
    dsimp only
    rw [if_pos hchild, if_neg hnlt]
  | case5 arr parent child hsmall hchild c hc hundefined =>
    obtain rfl := Option.some.inj (hc.symm.trans (smallerChild_eq htop hchild))
    have hlast := (TopK.smallerChild_lt (ints arr) hchild).trans_le htop
    exact (hundefined _ _ (ints_get hlast) (ints_get hparent)).elim
  | case6 arr parent child hsmall hleaf =>
    refine ⟨arr, rfl, rfl, ?_⟩
    rw [TopK.adjustDown]
    exact (if_neg hleaf).symm

theorem build_eq (hsize : arr.length < 2 ^ 30) (hi : i ≤ arr.length) :
    ∃ arr', build arr.length i arr = some arr' ∧
      Holds arr.length (TopK.heapify arr.length i (ints arr)) arr' := by
  generalize hn : arr.length = n at hsize hi ⊢
  induction i generalizing arr with
  | zero => exact ⟨arr, rfl, hn, rfl⟩
  | succ i ih =>
    subst hn
    obtain ⟨arr₁, hadjust, hlength, hints⟩ := adjust_eq hsize le_rfl (Nat.lt_of_succ_le hi)
    -- the rest of the loop, on an array that is as long
    obtain ⟨arr', hbuild, hholds⟩ := ih hlength (Nat.le_of_succ_le hi)
    refine ⟨arr', by rw [build, hadjust]; exact hbuild, ?_⟩
    rwa [hints] at hholds

theorem sort_eq (hsize : arr.length < 2 ^ 30) (hi : i < arr.length) :
    ∃ arr', sort i arr = some arr' ∧ Holds arr.length (TopK.sortDown i (ints arr)) arr' := by
  induction i generalizing arr with
  | zero => exact ⟨arr, rfl, rfl, rfl⟩
  | succ i ih =>
    obtain ⟨arr₁, hswap, hlength₁, hints₁⟩ := swap_eq (Nat.zero_lt_of_lt hi) hi
    rw [← hlength₁] at hsize hi ⊢
    obtain ⟨arr₂, hadjust, hlength₂, hints₂⟩ :=
      adjust_eq hsize hi.le (Nat.zero_lt_of_lt hi)
    rw [← hlength₂] at hsize hi ⊢
    obtain ⟨arr', hsort, hholds⟩ := ih hsize (Nat.lt_of_succ_lt hi)
    refine ⟨arr', ?_, ?_⟩
    · rw [sort, hswap, Option.bind_eq_bind, Option.bind_some, hadjust]
      exact hsort
    · rwa [hints₂, hints₁] at hholds

/-- **Heap sort.** Every array of 1 to `2^30 - 1` elements is sorted: no loop leaves the array or
goes on forever, no index is too large for an `int`, and in the end the elements are in
non-increasing order. -/
theorem main_sorts (arr : List ℤ) (hpos : 1 ≤ arr.length) (hsize : arr.length < 2 ^ 30) :
    ∃ sorted, main arr = some sorted ∧ sorted.Perm arr ∧ sorted.Pairwise (· ≥ ·) := by
  obtain ⟨n, hn⟩ : ∃ n, arr.length = n + 1 := ⟨arr.length - 1, by omega⟩
  have hparents : (arr.length - 1) / 2 + 1 ≤ arr.length := by omega
  obtain ⟨arr₁, hbuild, hlength₁, hints₁⟩ := build_eq hsize hparents
  rw [← hlength₁] at hsize
  have hlast : arr.length - 1 < arr₁.length := by omega
  obtain ⟨sorted, hsort, hlength, hints⟩ := sort_eq hsize hlast
  refine ⟨sorted, ?_, ?_⟩
  · rw [main, Option.bind_eq_bind, hbuild]
    exact hsort
  · -- the memory of the array is a heap in between
    have hheap : OrderedFrom (n + 1) 0 (ints arr₁).get := by
      rw [hints₁, ← hn]
      apply TopK.heapify_ordered
      apply orderedFrom_leaves
      omega
    obtain ⟨hsorted, hperm⟩ := TopK.sortDown_heap hheap
    have hvalues : values (n + 1) (TopK.sortDown n (ints arr₁)).get = sorted := by
      have hindex : arr.length - 1 = n := by omega
      rw [← values_ints sorted, hints, hindex, hlength, hlength₁, hn]
    have hbuilt := (TopK.heapify_rearranges (n + 1) ((arr.length - 1) / 2 + 1) (ints arr)).perm
    rw [← hn] at hbuilt
    rw [hvalues] at hsorted hperm
    refine ⟨hperm.trans ?_, hsorted⟩
    rw [hints₁, ← hn]
    exact hbuilt.trans (by rw [values_ints])

/-- The array of the program. -/
theorem main_sorts_example : ∃ sorted, main [10, 20, 5, 6, 8, 22, 15, 66, 42, 23] = some sorted ∧
    sorted.Perm [10, 20, 5, 6, 8, 22, 15, 66, 42, 23] ∧ sorted.Pairwise (· ≥ ·) :=
  main_sorts _ (by decide) (by decide)

end HeapSort

end SampleTools
