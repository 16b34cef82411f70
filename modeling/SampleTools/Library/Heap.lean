import Mathlib.Data.List.Perm.Lattice
import Mathlib.Data.List.Range
import Mathlib.Logic.Equiv.Basic
import Mathlib.Order.Lattice

/-!
# Heaps in arrays

The first places of an array as a binary tree in which no child comes before its parent. Loops
that move an element down such a tree, and that sort with it, are given rules for one round.

## Main definitions

* `Heap.OrderedFrom`: the order of a heap, for the parents from a place on
* `Heap.OrderedExcept`: the same but for one parent, on its way down
* `Heap.Rearranges`: an array with its first places rearranged
* `Heap.SortedFrom`: an array with its last places sorted

## Main results

* `Heap.OrderedExcept.swap`, `Heap.OrderedExcept.done`: one round of moving an element down
* `Heap.OrderedFrom.root_le`: the root is the smallest element
* `Heap.SortedFrom.swap`: one round of sorting
-/

namespace Heap

variable {α : Type*}

/-- The elements at the first `n` places. -/
def values (n : ℕ) (a : ℕ → α) : List α := (List.range n).map a

/-- The array with two elements exchanged. -/
def swap (a : ℕ → α) (i j : ℕ) : ℕ → α := fun k => a (Equiv.swap i j k)

@[simp] theorem swap_left (a : ℕ → α) (i j : ℕ) : swap a i j i = a j :=
  congrArg a (Equiv.swap_apply_left i j)

@[simp] theorem swap_right (a : ℕ → α) (i j : ℕ) : swap a i j j = a i :=
  congrArg a (Equiv.swap_apply_right i j)

theorem swap_of_ne {i j k : ℕ} (hi : k ≠ i) (hj : k ≠ j) (a : ℕ → α) : swap a i j k = a k :=
  congrArg a (Equiv.swap_apply_of_ne_of_ne hi hj)

@[simp] theorem length_values (n : ℕ) (a : ℕ → α) : (values n a).length = n := by simp [values]

theorem values_succ (n : ℕ) (a : ℕ → α) : values (n + 1) a = values n a ++ [a n] := by
  rw [values, List.range_succ, List.map_append]
  rfl

theorem values_succ_eq_cons (n : ℕ) (a : ℕ → α) :
    values (n + 1) a = a 0 :: (List.range n).map fun i => a (i + 1) := by
  rw [values, List.range_succ_eq_map, List.map_cons, List.map_map]
  rfl

theorem values_congr {n : ℕ} {a b : ℕ → α} (h : ∀ i < n, a i = b i) : values n a = values n b :=
  List.map_congr_left fun i hi => h i (List.mem_range.mp hi)

theorem mem_values {n : ℕ} {a : ℕ → α} {x : α} : x ∈ values n a ↔ ∃ i < n, a i = x := by
  simp [values]

/-! ## Rearrangements -/

/-- The first `n` places of an array, rearranged. -/
def Rearranges (n : ℕ) (a b : ℕ → α) : Prop :=
  ∃ σ : Equiv.Perm ℕ, (∀ i, n ≤ i → σ i = i) ∧ ∀ i, b i = a (σ i)

variable {a b c : ℕ → α} {n m : ℕ}

namespace Rearranges

theorem refl (n : ℕ) (a : ℕ → α) : Rearranges n a a := ⟨Equiv.refl ℕ, fun _ _ => rfl, fun _ => rfl⟩

theorem trans (h : Rearranges n a b) (h' : Rearranges n b c) : Rearranges n a c := by
  obtain ⟨σ, hσ, hb⟩ := h
  obtain ⟨τ, hτ, hc⟩ := h'
  refine ⟨τ.trans σ, fun i hi => ?_, fun i => ?_⟩
  · rw [Equiv.trans_apply, hτ i hi, hσ i hi]
  · rw [hc, hb, Equiv.trans_apply]

theorem mono (h : Rearranges n a b) (hle : n ≤ m) : Rearranges m a b := by
  obtain ⟨σ, hσ, hb⟩ := h
  exact ⟨σ, fun i hi => hσ i (hle.trans hi), hb⟩

theorem swap {i j : ℕ} (hi : i < n) (hj : j < n) (a : ℕ → α) : Rearranges n a (swap a i j) := by
  refine ⟨Equiv.swap i j, fun k hk => Equiv.swap_apply_of_ne_of_ne ?_ ?_, fun _ => rfl⟩
  · exact (hi.trans_le hk).ne'
  · exact (hj.trans_le hk).ne'

theorem lt_of_fixed {σ : Equiv.Perm ℕ} (hσ : ∀ i, n ≤ i → σ i = i) {i : ℕ} (hi : i < n) :
    σ i < n := by
  by_contra hle
  have hfixed := σ.injective (hσ (σ i) (not_lt.mp hle))
  exact hle (hfixed.symm ▸ hi)

/-- Later places keep their elements. -/
theorem apply_of_le (h : Rearranges n a b) {i : ℕ} (hi : n ≤ i) : b i = a i := by
  obtain ⟨σ, hσ, hb⟩ := h
  rw [hb, hσ i hi]

/-- The first places get their elements from each other. -/
theorem exists_of_lt (h : Rearranges n a b) {i : ℕ} (hi : i < n) : ∃ j < n, b i = a j := by
  obtain ⟨σ, hσ, hb⟩ := h
  exact ⟨σ i, lt_of_fixed hσ hi, hb i⟩

theorem perm (h : Rearranges n a b) : (values n b).Perm (values n a) := by
  obtain ⟨σ, hσ, hb⟩ := h
  -- the first places are exchanged among themselves
  have hrange : ((List.range n).map σ).Perm (List.range n) := by
    rw [List.perm_ext_iff_of_nodup (List.nodup_range.map σ.injective) List.nodup_range]
    have hfixed : ∀ j, n ≤ j → σ.symm j = j := fun j hj => σ.symm_apply_eq.mpr (hσ j hj).symm
    intro i
    rw [List.mem_map, List.mem_range]
    constructor
    · rintro ⟨j, hj, rfl⟩
      exact lt_of_fixed hσ (List.mem_range.mp hj)
    · intro hi
      exact ⟨σ.symm i, List.mem_range.mpr (lt_of_fixed hfixed hi), σ.apply_symm_apply i⟩
  have hmap : values n b = ((List.range n).map σ).map a := by
    rw [values, List.map_map]
    exact List.map_congr_left fun i _ => hb i
  rw [hmap]
  exact hrange.map a

end Rearranges

/-! ## The order of a heap -/

/-- `c` is a child of `p`. -/
def IsChild (p c : ℕ) : Prop := c = p * 2 + 1 ∨ c = p * 2 + 2

theorem IsChild.lt {p c : ℕ} (h : IsChild p c) : p < c := by
  unfold IsChild at h
  omega

theorem IsChild.parent_unique {p q c : ℕ} (h : IsChild p c) (h' : IsChild q c) : p = q := by
  unfold IsChild at h h'
  omega

variable [LinearOrder α]

/-- Among the first `n` places, the parents from `lo` on do not come after their children. -/
def OrderedFrom (n lo : ℕ) (a : ℕ → α) : Prop :=
  ∀ p c, lo ≤ p → IsChild p c → c < n → a p ≤ a c

/-- The same but for one parent, whose own parent is in order with its children. -/
structure OrderedExcept (n lo hole : ℕ) (a : ℕ → α) : Prop where
  except : ∀ p c, lo ≤ p → p ≠ hole → IsChild p c → c < n → a p ≤ a c
  grand : ∀ p c, lo ≤ p → IsChild p hole → IsChild hole c → c < n → a p ≤ a c

variable {lo hole : ℕ}

/-- The last places are not parents. -/
theorem orderedFrom_leaves (h : n ≤ lo * 2 + 1) (a : ℕ → α) : OrderedFrom n lo a := by
  intro p c hp hc hn
  unfold IsChild at hc
  omega

theorem OrderedFrom.except (h : OrderedFrom n (lo + 1) a) : OrderedExcept n lo lo a where
  except p c hp hne hc hn := h p c (by omega) hc hn
  grand p c hp hchild := absurd hchild.lt hp.not_gt

theorem OrderedExcept.done (h : OrderedExcept n lo hole a)
    (hhole : ∀ c, IsChild hole c → c < n → a hole ≤ a c) : OrderedFrom n lo a := by
  intro p c hp hc hn
  by_cases hne : p = hole
  · subst hne
    exact hhole c hc hn
  · exact h.except p c hp hne hc hn

/-- One round of moving an element down: it is exchanged with its smallest child. -/
theorem OrderedExcept.swap (h : OrderedExcept n lo hole a) (hlo : lo ≤ hole) {child : ℕ}
    (hchild : IsChild hole child) (hlast : child < n)
    (hmin : ∀ c, IsChild hole c → c < n → a child ≤ a c) (hlt : a child < a hole) :
    OrderedExcept n lo child (swap a hole child) where
  except p c hp hne hc hn := by
    by_cases hph : p = hole
    -- the place the element leaves gets the smallest child
    · subst hph
      rw [swap_left]
      by_cases hcc : c = child
      · rw [hcc, swap_right]
        exact hlt.le
      · rw [swap_of_ne hc.lt.ne' hcc]
        exact hmin c hc hn
    · rw [swap_of_ne hph hne]
      have hcc : c ≠ child := by
        rintro rfl
        exact hph (hc.parent_unique hchild)
      by_cases hch : c = hole
      -- the parent of the place is in order with what comes up to it
      · subst hch
        rw [swap_left]
        exact h.grand p child hp hc hchild hlast
      · rw [swap_of_ne hch hcc]
        exact h.except p c hp hph hc hn
  grand p c hp hpc hc hn := by
    cases hpc.parent_unique hchild
    rw [swap_left, swap_of_ne (hchild.lt.trans hc.lt).ne' hc.lt.ne']
    exact h.except child c (hlo.trans hchild.lt.le) hchild.lt.ne' hc hn

/-- The root of a heap is its smallest element. -/
theorem OrderedFrom.root_le (h : OrderedFrom n 0 a) {i : ℕ} (hi : i < n) : a 0 ≤ a i := by
  induction i using Nat.strong_induction_on with
  | h i ih =>
    rcases i.eq_zero_or_pos with rfl | hpos
    · exact le_refl _
    -- up to the parent, and on from there
    · have hchild : IsChild ((i - 1) / 2) i := by
        unfold IsChild
        omega
      exact (ih _ hchild.lt (hchild.lt.trans hi)).trans (h _ i (Nat.zero_le _) hchild hi)

/-- A heap without its root: the root may be any element, and the last places may be left off. -/
theorem OrderedFrom.congr (h : OrderedFrom n 0 a) (hle : m ≤ n)
    (hsame : ∀ i, 0 < i → i < m → b i = a i) : OrderedFrom m 1 b := by
  intro p c hp hc hm
  have hlt := hc.lt
  rw [hsame p (by omega) (by omega), hsame c (by omega) hm]
  exact h p c (Nat.zero_le _) hc (by omega)

/-! ## Sorting -/

/-- Of the first `n` places, those from `m` on hold the smallest elements, in order. -/
def SortedFrom (n m : ℕ) (a : ℕ → α) : Prop := ∀ j k, j < k → m ≤ k → k < n → a k ≤ a j

/-- At first none are. -/
theorem sortedFrom_last (n : ℕ) (a : ℕ → α) : SortedFrom n n a :=
  fun _ _ _ hk hn => absurd hn hk.not_gt

theorem SortedFrom.rearranges (h : SortedFrom n m a) (hab : Rearranges m a b) :
    SortedFrom n m b := by
  intro j k hjk hm hn
  rw [hab.apply_of_le hm]
  by_cases hj : j < m
  · obtain ⟨j', hj', heq⟩ := hab.exists_of_lt hj
    rw [heq]
    exact h j' k (by omega) hm hn
  · rw [hab.apply_of_le (not_lt.mp hj)]
    exact h j k hjk hm hn

/-- One round of sorting: the root goes to the end of the heap. -/
theorem SortedFrom.swap (h : SortedFrom n (m + 1) a) (hheap : OrderedFrom (m + 1) 0 a) :
    SortedFrom n m (swap a 0 m) := by
  have hrest : SortedFrom n (m + 1) (Heap.swap a 0 m) :=
    h.rearranges (.swap m.succ_pos m.lt_succ_self a)
  intro j k hjk hm hn
  rcases hm.eq_or_lt with rfl | hlt
  -- the place the root comes to
  · rw [swap_right]
    obtain ⟨j', hj', heq⟩ :=
      (Rearranges.swap m.succ_pos m.lt_succ_self a).exists_of_lt (Nat.lt_succ_of_lt hjk)
    rw [heq]
    exact hheap.root_le hj'
  · exact hrest j k hjk hlt hn

theorem SortedFrom.pairwise (h : SortedFrom n 1 a) : (values n a).Pairwise (· ≥ ·) := by
  rw [values, List.pairwise_map]
  refine List.pairwise_lt_range.imp_of_mem fun {j k} _ hk hjk => ?_
  exact h j k hjk (by omega) (List.mem_range.mp hk)

end Heap
