import Mathlib.Data.List.Perm.Basic
import Mathlib.Order.Lattice

/-!
# The largest elements of a list

Which elements of a list are its `k` largest, counted with multiplicity, and how they change
when the list grows.

## Main definitions

* `largest k l`: the `k` largest elements, the largest first
* `Selects l t u`: a list split in two, no element of the second part above one of the first

## Main results

* `Selects.eq_largest`, `Selects.perm_largest`: the first part, sorted, is the largest elements
* `Selects.keep`, `Selects.replace`: one more element
* `largest_append_iff`: when one more element changes nothing
-/

variable {α : Type*} [LinearOrder α]

/-- The `k` largest elements of a list, the largest first. -/
def largest (k : ℕ) (l : List α) : List α := (l.mergeSort (· ≥ ·)).take k

/-- The elements of `l` in two parts, none of `u` above one of `t`. -/
structure Selects (l t u : List α) : Prop where
  perm : (t ++ u).Perm l
  le : ∀ x ∈ t, ∀ y ∈ u, y ≤ x

variable {l t t' u : List α} {k : ℕ} {x v m : α}

theorem pairwise_mergeSort_ge (l : List α) : (l.mergeSort (· ≥ ·)).Pairwise (· ≥ ·) := by
  have htrans : ∀ a b c : α, decide (a ≥ b) = true → decide (b ≥ c) = true →
      decide (a ≥ c) = true := by
    intro a b c hab hbc
    exact decide_eq_true (le_trans (of_decide_eq_true hbc) (of_decide_eq_true hab))
  have htotal : ∀ a b : α, (decide (a ≥ b) || decide (b ≥ a)) = true := by
    intro a b
    simpa using le_total b a
  exact (List.pairwise_mergeSort htrans htotal l).imp of_decide_eq_true

theorem selects_largest (k : ℕ) (l : List α) :
    Selects l (largest k l) ((l.mergeSort (· ≥ ·)).drop k) where
  perm := by
    rw [largest, List.take_append_drop]
    exact List.mergeSort_perm l _
  le := by
    have hsorted := pairwise_mergeSort_ge l
    rw [← List.take_append_drop k (l.mergeSort (· ≥ ·)), List.pairwise_append] at hsorted
    exact hsorted.2.2

theorem length_largest (hk : k ≤ l.length) : (largest k l).length = k := by
  rw [largest, List.length_take, List.length_mergeSort, Nat.min_eq_left hk]

namespace Selects

theorem congr (h : Selects l t u) (ht : t'.Perm t) : Selects l t' u where
  perm := (ht.append_right u).trans h.perm
  le x hx := h.le x (ht.mem_iff.mp hx)

/-- The first part, sorted, is the largest elements. -/
theorem eq_largest (h : Selects l t u) (ht : t.Pairwise (· ≥ ·)) : t = largest t.length l := by
  have hu := pairwise_mergeSort_ge u
  have hsorted : (t ++ u.mergeSort (· ≥ ·)).Pairwise (· ≥ ·) :=
    List.pairwise_append.mpr
      ⟨ht, hu, fun x hx y hy => h.le x hx y ((List.mergeSort_perm u _).mem_iff.mp hy)⟩
  have hperm : (t ++ u.mergeSort (· ≥ ·)).Perm (l.mergeSort (· ≥ ·)) :=
    ((List.mergeSort_perm u _).append_left t).trans
      (h.perm.trans (List.mergeSort_perm l _).symm)
  have heq : t ++ u.mergeSort (· ≥ ·) = l.mergeSort (· ≥ ·) :=
    hperm.eq_of_pairwise (fun a b _ _ hab hba => le_antisymm hba hab) hsorted
      (pairwise_mergeSort_ge l)
  rw [largest, ← heq, List.take_left']
  rfl

/-- The first part is the largest elements, in some order. -/
theorem perm_largest (h : Selects l t u) : t.Perm (largest t.length l) := by
  have hsorted := List.mergeSort_perm t (· ≥ ·)
  have heq := (h.congr hsorted).eq_largest (pairwise_mergeSort_ge t)
  rw [List.length_mergeSort] at heq
  rw [← heq]
  exact hsorted.symm

/-- An element that is above none of the largest ones. -/
theorem keep (h : Selects l t u) (hv : ∀ x ∈ t, v ≤ x) : Selects (l ++ [v]) t (u ++ [v]) where
  perm := by
    rw [← List.append_assoc]
    exact h.perm.append_right [v]
  le x hx y hy := by
    rcases List.mem_append.mp hy with hy | hy
    · exact h.le x hx y hy
    · rw [List.mem_singleton.mp hy]
      exact hv x hx

/-- An element that takes the place of the smallest of the largest ones. -/
theorem replace (h : Selects l (m :: t) u) (hm : ∀ x ∈ t, m ≤ x) (hv : m ≤ v) :
    Selects (l ++ [v]) (v :: t) (m :: u) where
  perm := by
    have hmiddle : (t ++ m :: u).Perm l := List.perm_middle.trans h.perm
    exact (hmiddle.cons v).trans (List.perm_append_singleton v l).symm
  le x hx y hy := by
    have hmx : m ≤ x := by
      rcases List.mem_cons.mp hx with rfl | hx
      · exact hv
      · exact hm x hx
    rcases List.mem_cons.mp hy with rfl | hy
    · exact hmx
    · exact le_trans (h.le m List.mem_cons_self y hy) hmx

/-- So many elements are at least `v` exactly if all of the largest ones are. -/
theorem forall_le_iff (h : Selects l t u) :
    (∀ x ∈ t, v ≤ x) ↔ t.length ≤ l.countP (v ≤ ·) := by
  have hcount : l.countP (v ≤ ·) = t.countP (v ≤ ·) + u.countP (v ≤ ·) := by
    rw [← h.perm.countP_eq, List.countP_append]
  rw [hcount]
  constructor
  · intro hall
    have ht : t.countP (v ≤ ·) = t.length :=
      List.countP_eq_length.mpr fun x hx => decide_eq_true (hall x hx)
    omega
  · intro hle x hx
    by_contra hlt
    have hu : u.countP (v ≤ ·) = 0 := by
      refine List.countP_eq_zero.mpr fun y hy hvy => hlt ?_
      exact le_trans (of_decide_eq_true hvy) (h.le x hx y hy)
    have ht : t.countP (v ≤ ·) = t.length :=
      Nat.le_antisymm List.countP_le_length (by omega)
    exact hlt (of_decide_eq_true (List.countP_eq_length.mp ht x hx))

end Selects

/-- One more element leaves the `k` largest as they are exactly if `k` elements are at least as
large. -/
theorem largest_append_iff (hk : k ≤ l.length) :
    largest k (l ++ [v]) = largest k l ↔ k ≤ l.countP (v ≤ ·) := by
  have hselects := selects_largest k l
  have hlength := length_largest hk
  have hiff := hselects.forall_le_iff (v := v)
  rw [hlength] at hiff
  rw [← hiff]
  constructor
  · intro heq x hx
    obtain ⟨hperm, hle⟩ := selects_largest k (l ++ [v])
    rw [heq] at hperm hle
    -- the new element is in the second part: the first is what it was
    refine hle x hx v ?_
    have hrest : (((l ++ [v]).mergeSort (· ≥ ·)).drop k).Perm
        ((l.mergeSort (· ≥ ·)).drop k ++ [v]) := by
      refine (List.perm_append_left_iff (largest k l)).mp (hperm.trans ?_)
      rw [← List.append_assoc]
      exact (hselects.perm.append_right [v]).symm
    exact hrest.mem_iff.mpr (List.mem_append_right _ List.mem_cons_self)
  · intro hall
    have hsorted : (largest k l).Pairwise (· ≥ ·) :=
      (pairwise_mergeSort_ge l).sublist (List.take_sublist k _)
    have heq := (hselects.keep hall).eq_largest hsorted
    rw [hlength] at heq
    exact heq.symm
