import Mathlib.Data.Finset.Card
import Mathlib.Data.List.Perm.Subperm
import Mathlib.Order.Interval.Finset.Nat
import Mathlib.Tactic.Common

/-!
# Numbers that are given out

Each object gets the next number as it is made. A list of such objects, none of them twice, stays
so when objects move in it or leave it, and when one that has just been made joins it.

A counter of period `N` takes the values `f 1`, `f 2`, …, and `f i = f j` exactly when
`i` and `j` agree modulo `N`. Its next value is new exactly as long as the values taken
so far are fewer than `N`.

## Main definitions

* `Numbered num next l`: the numbers of the list are different, and were given before `next`
* `WrapCounter.Taken f n taken`: the values a counter has taken after `n` steps

## Main results

* `Numbered.subperm`: objects move or leave
* `Numbered.fresh`: an object joins
* `WrapCounter.Taken.next_fresh_iff`: when the next value of a counter is new
-/

open scoped List

variable {α : Type*}

/-- The numbers of the objects in the list are different, and below the next number. -/
structure Numbered (num : α → ℕ) (next : ℕ) (l : List α) : Prop where
  nodup : (l.map num).Nodup
  lt : ∀ a ∈ l, num a < next

namespace Numbered

variable {num : α → ℕ} {next next' : ℕ} {l l' : List α} {a : α}

theorem nil (num : α → ℕ) (next : ℕ) : Numbered num next [] :=
  ⟨.nil, fun a ha => by cases ha⟩

theorem subperm (h : Numbered num next l) (hsub : l' <+~ l) (hnext : next ≤ next') :
    Numbered num next' l' := by
  refine ⟨?_, fun a ha => Nat.lt_of_lt_of_le (h.lt a (hsub.subset ha)) hnext⟩
  obtain ⟨kept, hperm, hkept⟩ := hsub
  exact (hperm.map num).nodup_iff.mp ((hkept.map num).nodup h.nodup)

theorem cons (h : Numbered num next l) (ha : num a = next) :
    Numbered num (next + 1) (a :: l) := by
  constructor
  · refine List.nodup_cons.mpr ⟨fun hmem => ?_, h.nodup⟩
    obtain ⟨b, hb, heq⟩ := List.mem_map.mp hmem
    have hlt := h.lt b hb
    omega
  · intro b hb
    rcases List.mem_cons.mp hb with rfl | hb
    · omega
    · exact Nat.lt_succ_of_lt (h.lt b hb)

theorem fresh (h : Numbered num next l) (ha : num a = next) (hsub : l' <+~ a :: l) :
    Numbered num (next + 1) l' :=
  (h.cons ha).subperm hsub (Nat.le_refl _)

/-- Objects at two places of the list are different. -/
theorem ne_of_append {l₁ l₂ : List α} (h : Numbered num next (l₁ ++ l₂)) {a b : α}
    (ha : a ∈ l₁) (hb : b ∈ l₂) : num a ≠ num b := by
  have hnodup := h.nodup
  rw [List.map_append] at hnodup
  exact (List.nodup_append.mp hnodup).2.2 _ (List.mem_map_of_mem ha) _ (List.mem_map_of_mem hb)

end Numbered

/-! ## A counter that wraps -/

namespace WrapCounter

variable {α : Type*} {f : ℕ → α} {N n : ℕ} {taken : Finset α}

/-- The values after `n` steps. -/
def Taken (f : ℕ → α) (n : ℕ) (taken : Finset α) : Prop :=
  ∀ a, a ∈ taken ↔ ∃ i, 1 ≤ i ∧ i ≤ n ∧ f i = a

theorem taken_zero : Taken f 0 ∅ := by
  intro a
  simp only [Finset.notMem_empty, false_iff]
  rintro ⟨i, h₁, h₀, -⟩
  omega

theorem Taken.succ [DecidableEq α] (h : Taken f n taken) :
    Taken f (n + 1) (insert (f (n + 1)) taken) := by
  intro a
  rw [Finset.mem_insert, h a]
  constructor
  · rintro (rfl | ⟨i, h₁, hn, rfl⟩)
    · exact ⟨n + 1, Nat.le_add_left 1 n, Nat.le_refl _, rfl⟩
    · exact ⟨i, h₁, Nat.le_succ_of_le hn, rfl⟩
  · rintro ⟨i, h₁, hn, rfl⟩
    rcases Nat.eq_or_lt_of_le hn with rfl | hlt
    · exact .inl rfl
    · exact .inr ⟨i, h₁, Nat.le_of_lt_succ hlt, rfl⟩

/-- Fewer than `N` values were taken exactly in the first `N` steps. -/
theorem Taken.card_lt_iff (hf : ∀ i j, f i = f j ↔ i % N = j % N) (h : Taken f n taken) :
    taken.card < N ↔ n < N := by
  constructor
  -- `N` steps take `N` different values
  · intro hcard
    by_contra hn
    have hle : (Finset.Icc 1 N).card ≤ taken.card := by
      refine Finset.card_le_card_of_injOn f ?_ ?_
      · intro i hi
        have hi := Finset.mem_Icc.mp hi
        exact (h _).mpr ⟨i, hi.1, by omega, rfl⟩
      · intro i hi j hj hij
        have hi := Finset.mem_Icc.mp hi
        have hj := Finset.mem_Icc.mp hj
        have hmod := (hf i j).mp hij
        rcases Nat.eq_or_lt_of_le hi.2 with rfl | hiN
        · rcases Nat.eq_or_lt_of_le hj.2 with rfl | hjN
          · rfl
          · rw [Nat.mod_self, Nat.mod_eq_of_lt hjN] at hmod
            omega
        · rcases Nat.eq_or_lt_of_le hj.2 with rfl | hjN
          · rw [Nat.mod_self, Nat.mod_eq_of_lt hiN] at hmod
            omega
          · rwa [Nat.mod_eq_of_lt hiN, Nat.mod_eq_of_lt hjN] at hmod
    rw [Nat.card_Icc] at hle
    omega
  -- `n` steps take at most `n` values
  · intro hn
    have hsub : taken.card ≤ (Finset.Icc 1 n).card := by
      refine Finset.card_le_card_of_surjOn f ?_
      intro a ha
      obtain ⟨i, h₁, hi, rfl⟩ := (h a).mp ha
      exact ⟨i, Finset.mem_coe.mpr (Finset.mem_Icc.mpr ⟨h₁, hi⟩), rfl⟩
    rw [Nat.card_Icc] at hsub
    omega

/-- The next value is new exactly as long as some value is left. -/
theorem Taken.next_fresh_iff (hf : ∀ i j, f i = f j ↔ i % N = j % N) (hN : 0 < N)
    (h : Taken f n taken) : f (n + 1) ∉ taken ↔ taken.card < N := by
  rw [h.card_lt_iff hf]
  constructor
  · intro hfresh
    by_contra hn
    -- `N` steps ago the counter had this value
    refine hfresh ((h _).mpr ⟨n + 1 - N, by omega, by omega, (hf _ _).mpr ?_⟩)
    rw [← Nat.mod_eq_sub_mod (by omega)]
  · intro hn hmem
    obtain ⟨i, h₁, hi, heq⟩ := (h _).mp hmem
    have hmod := (hf _ _).mp heq
    rw [Nat.mod_eq_of_lt (show i < N by omega)] at hmod
    rcases Nat.eq_or_lt_of_le (show n + 1 ≤ N by omega) with rfl | hlt
    · rw [Nat.mod_self] at hmod
      omega
    · rw [Nat.mod_eq_of_lt hlt] at hmod
      omega

end WrapCounter
