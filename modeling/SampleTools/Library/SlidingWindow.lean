import Mathlib.Algebra.BigOperators.Group.List.Basic

/-!
# Windows of a ring of sums

A ring of `size` slots holds a sum for each of the last `size` periods, the current one at
index `cur`. When a period ends, the next slot is cleared and becomes the current one. The
window of `n` slots from the current one back is the sum of the last `n` periods.

## Main definitions

* `nextSlot size cur`, `slotBefore size cur j`: the index after, and the one `j` places before
* `window ring cur n`: the sum of `n` slots from `cur` back

## Main results

* `window_clear`: a new period shifts the windows by one
* `window_add`: what is added to the current slot is added to each window
-/

variable {size cur j n : ℕ}

/-- The index of the slot that is used next. -/
def nextSlot (size cur : ℕ) : ℕ := if cur + 1 ≥ size then 0 else cur + 1

/-- The index of the slot used `j` periods ago. -/
def slotBefore (size cur j : ℕ) : ℕ := if j ≤ cur then cur - j else cur + size - j

theorem nextSlot_lt (hcur : cur < size) : nextSlot size cur < size := by
  unfold nextSlot
  split <;> omega

theorem slotBefore_lt (hcur : cur < size) (hj : j < size) : slotBefore size cur j < size := by
  unfold slotBefore
  split <;> omega

@[simp] theorem slotBefore_zero (size cur : ℕ) : slotBefore size cur 0 = cur := rfl

theorem slotBefore_nextSlot (hcur : cur < size) (hj : j + 1 < size) :
    slotBefore size (nextSlot size cur) (j + 1) = slotBefore size cur j := by
  unfold slotBefore nextSlot
  split <;> split <;> split <;> omega

theorem slotBefore_ne_nextSlot (hcur : cur < size) (hj : j + 1 < size) :
    slotBefore size cur j ≠ nextSlot size cur := by
  unfold slotBefore nextSlot
  split <;> split <;> omega

theorem slotBefore_succ_ne (hj : j + 1 < size) :
    slotBefore size cur (j + 1) ≠ cur := by
  unfold slotBefore
  split <;> omega

section Window

variable {M : Type*} [AddCommMonoid M] {ring : Vector M size}

/-- The sum of `n` slots from the current one back. -/
def window (ring : Vector M size) (cur n : ℕ) : M :=
  ((List.range n).map fun j => ring[slotBefore size cur j]?.getD 0).sum

@[simp] theorem window_zero (ring : Vector M size) (cur : ℕ) : window ring cur 0 = 0 := rfl

theorem window_succ (ring : Vector M size) (cur n : ℕ) :
    window ring cur (n + 1) = window ring cur n + ring[slotBefore size cur n]?.getD 0 := by
  simp [window, List.range_succ]

theorem window_replicate_zero (cur n : ℕ) : window (Vector.replicate size (0 : M)) cur n = 0 := by
  induction n with
  | zero => rfl
  | succ n ih =>
    rw [window_succ, ih, Vector.getElem?_replicate]
    split <;> simp

/-- Clearing the next slot and moving to it shifts the windows by one. -/
theorem window_clear (hcur : cur < size) (hn : n < size) :
    window (ring.set (nextSlot size cur) 0 (nextSlot_lt hcur)) (nextSlot size cur) (n + 1) =
      window ring cur n := by
  induction n with
  | zero => simp [window]
  | succ n ih =>
    rw [window_succ, ih (by omega), window_succ, slotBefore_nextSlot hcur hn,
      Vector.getElem?_set_ne _ (slotBefore_ne_nextSlot hcur hn).symm]

/-- What is added to the current slot is added to each window that is not empty. -/
theorem window_add (hcur : cur < size) (hn : n < size) (x : M) :
    window (ring.set cur (ring[cur] + x)) cur (n + 1) = window ring cur (n + 1) + x := by
  induction n with
  | zero => simp [window, hcur]
  | succ n ih =>
    rw [window_succ, ih (by omega), window_succ ring cur (n + 1),
      Vector.getElem?_set_ne _ (slotBefore_succ_ne hn).symm]
    exact add_right_comm _ _ _

end Window
