import Mathlib.Data.List.Basic
import Mathlib.Tactic.Common

/-!
# Blocks of memory

A block is the list of the cells it was allocated with. A read past its end is not
part of the block: it finds whatever lies behind it, given by an oracle `past`. A
write past its end leaves the block as it is.

## Main definitions

* `peek`, `peekN`: one cell, and `n` cells in a row, read at an offset
* `overwrite`: the block after a copy into it
* `Access`, `Access.Within`: an access, and that it stays inside `n` cells

## Main results

* `peekN_eq_take_drop`: a read inside the block finds the block's own cells
* `overwrite_append`: a copy that fits replaces exactly the cells it covers
* `overwrite_overwrite`: copies to consecutive offsets add up
-/

namespace Memory

variable {α : Type*}

/-- The cell at offset `i`, taken from `past` when the block ends before it. -/
def peek (past : ℕ → α) (b : List α) (i : ℕ) : α :=
  if h : i < b.length then b[i] else past (i - b.length)

/-- The `n` cells from offset `off` on. -/
def peekN (past : ℕ → α) (b : List α) (off n : ℕ) : List α :=
  (List.range n).map fun k => peek past b (off + k)

@[simp] theorem peekN_length (past : ℕ → α) (b : List α) (off n : ℕ) :
    (peekN past b off n).length = n := by
  simp [peekN]

theorem peekN_eq_take_drop {past : ℕ → α} {b : List α} {off n : ℕ} (h : off + n ≤ b.length) :
    peekN past b off n = (b.drop off).take n := by
  apply List.ext_getElem
  · simp only [peekN_length, List.length_take, List.length_drop]
    omega
  · intro k hk hk'
    rw [peekN_length] at hk
    have hin : off + k < b.length := by omega
    simp [peekN, peek, hin]

/-- A read in the middle of a concatenation finds the middle part. -/
theorem peekN_append (past : ℕ → α) (pre mid post : List α) :
    peekN past (pre ++ mid ++ post) pre.length mid.length = mid := by
  rw [peekN_eq_take_drop (by simp), List.append_assoc, List.drop_left, List.take_left]

/-- The block after `src` was copied to offset `off`. -/
def overwrite (b : List α) (off : ℕ) (src : List α) : List α :=
  b.take off ++ src.take (b.length - off) ++ b.drop (off + src.length)

@[simp] theorem overwrite_length (b : List α) (off : ℕ) (src : List α) :
    (overwrite b off src).length = b.length := by
  simp only [overwrite, List.length_append, List.length_take, List.length_drop]
  omega

theorem overwrite_append {pre mid post src : List α} (h : mid.length = src.length) :
    overwrite (pre ++ mid ++ post) pre.length src = pre ++ src ++ post := by
  -- the copy is not cut short, and behind it comes what came behind `mid`
  have hfit : src.length ≤ (pre ++ mid ++ post).length - pre.length := by
    simp only [List.length_append]
    omega
  have hpost : (pre ++ mid ++ post).drop (pre.length + src.length) = post := by
    rw [← h, ← List.length_append, List.drop_left]
  rw [overwrite, List.take_of_length_le hfit, hpost, List.append_assoc pre mid post,
    List.take_left]

@[simp] theorem overwrite_nil_right (b : List α) (off : ℕ) : overwrite b off [] = b := by
  simp [overwrite]

@[simp] theorem overwrite_nil_left (off : ℕ) (src : List α) : overwrite [] off src = [] := by
  simp [overwrite]

/-- Two copies in a row are one copy of both sources. -/
theorem overwrite_overwrite {b s₁ s₂ : List α} {off : ℕ}
    (h : off + s₁.length + s₂.length ≤ b.length) :
    overwrite (overwrite b off s₁) (off + s₁.length) s₂ = overwrite b off (s₁ ++ s₂) := by
  -- cut the block where the two copies begin and end
  obtain ⟨pre, c, rfl, rfl⟩ : ∃ pre c, b = pre ++ c ∧ pre.length = off :=
    ⟨b.take off, b.drop off, (b.take_append_drop off).symm, by rw [List.length_take]; omega⟩
  rw [List.length_append] at h
  obtain ⟨m₁, c, rfl, hm₁⟩ : ∃ m₁ c', c = m₁ ++ c' ∧ m₁.length = s₁.length :=
    ⟨c.take s₁.length, c.drop s₁.length, (c.take_append_drop _).symm, by
      rw [List.length_take]; omega⟩
  rw [List.length_append] at h
  obtain ⟨m₂, post, rfl, hm₂⟩ : ∃ m₂ post, c = m₂ ++ post ∧ m₂.length = s₂.length :=
    ⟨c.take s₂.length, c.drop s₂.length, (c.take_append_drop _).symm, by
      rw [List.length_take]; omega⟩
  -- now each copy replaces one part
  have hfirst : overwrite (pre ++ (m₁ ++ (m₂ ++ post))) pre.length s₁ =
      pre ++ s₁ ++ (m₂ ++ post) := by
    rw [← List.append_assoc]
    exact overwrite_append hm₁
  have hsecond : overwrite (pre ++ s₁ ++ (m₂ ++ post)) (pre.length + s₁.length) s₂ =
      pre ++ s₁ ++ s₂ ++ post := by
    rw [← List.append_assoc, ← List.length_append]
    exact overwrite_append hm₂
  have hboth : overwrite (pre ++ (m₁ ++ (m₂ ++ post))) pre.length (s₁ ++ s₂) =
      pre ++ (s₁ ++ s₂) ++ post := by
    rw [← List.append_assoc m₁, ← List.append_assoc pre]
    exact overwrite_append (by simp [hm₁, hm₂])
  rw [hfirst, hsecond, hboth, List.append_assoc pre]

/-- A copy to the front of the block. -/
theorem take_overwrite_zero {b src : List α} (h : src.length ≤ b.length) :
    (overwrite b 0 src).take src.length = src := by
  simp only [overwrite, List.take_zero, List.nil_append, Nat.sub_zero,
    List.take_of_length_le h, List.take_left]

/-- A copy over the whole block. -/
theorem overwrite_of_length_eq {b src : List α} (h : b.length = src.length) :
    overwrite b 0 src = src := by
  have hall := @overwrite_append _ [] b [] src h
  simpa using hall

/-- An access to `len` cells from offset `off` on. -/
structure Access where
  off : ℕ
  len : ℕ
  deriving DecidableEq, Repr

/-- The access touches only the first `n` cells. -/
def Access.Within (n : ℕ) (a : Access) : Prop := a.off + a.len ≤ n

instance (n : ℕ) (a : Access) : Decidable (a.Within n) :=
  inferInstanceAs (Decidable (a.off + a.len ≤ n))

end Memory
