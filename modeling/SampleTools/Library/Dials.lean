import Mathlib.Algebra.Order.Group.Nat
import Mathlib.Algebra.Order.Ring.Nat
import Mathlib.Data.Nat.ModEq

/-!
# A time on dials of several levels

Dials of `b` marks show a time: that of level `0` goes on by one mark at every tick, that of
level `l` whenever `b ^ l` ticks have passed. The mark of a time on a dial is `t / b ^ l % b`.

## Main definitions

* `AheadOn b n l t`: on a dial, `t` is ahead of `n` by less than a turn
* `ReachedOn b n l t`: at `n` the dial goes on, to the mark of `t`

## Main results

* `AheadOn.succ`: a tick later a time is still ahead, or its mark has been reached
* `div_sub_div_pow_succ`: how far a time is ahead on the next dial
* `AheadOn.mark_ne`: a time ahead has another mark
* `land_upper_bits`: a mask of the upper bits rounds down
-/

variable {b n t l : ℕ}

/-- On the dial of level `l`, the time `t` is ahead of `n` by less than a turn. -/
def AheadOn (b n l t : ℕ) : Prop := n / b ^ l < t / b ^ l ∧ t / b ^ l < n / b ^ l + b

/-- At the time `n` the dial of level `l` goes on, and is then where `t` is on it. -/
def ReachedOn (b n l t : ℕ) : Prop := b ^ l ∣ n ∧ t / b ^ l = n / b ^ l

theorem AheadOn.lt (h : AheadOn b n l t) : n < t := by
  by_contra hle
  exact absurd (Nat.div_le_div_right (Nat.le_of_not_lt hle)) (Nat.not_le_of_lt h.1)

theorem ReachedOn.le (h : ReachedOn b n l t) : n ≤ t := by
  obtain ⟨hdvd, heq⟩ := h
  calc n = n / b ^ l * b ^ l := (Nat.div_mul_cancel hdvd).symm
    _ = t / b ^ l * b ^ l := by rw [heq]
    _ ≤ t := Nat.div_mul_le_self ..

/-- A tick later, a time ahead on a dial is still ahead, or its mark has been reached. -/
theorem AheadOn.succ (h : AheadOn b n l t) : AheadOn b (n + 1) l t ∨ ReachedOn b (n + 1) l t := by
  obtain ⟨hlow, hhigh⟩ := h
  by_cases hdvd : b ^ l ∣ n + 1
  · have hgo := Nat.succ_div_of_dvd hdvd
    by_cases heq : t / b ^ l = (n + 1) / b ^ l
    · exact .inr ⟨hdvd, heq⟩
    · refine .inl ⟨?_, ?_⟩ <;> omega
  · have hstay := Nat.succ_div_of_not_dvd hdvd
    exact .inl ⟨hstay ▸ hlow, hstay ▸ hhigh⟩

/-- A time ahead has another mark on the dial. -/
theorem AheadOn.mark_ne (h : AheadOn b n l t) : t / b ^ l % b ≠ n / b ^ l % b := by
  obtain ⟨hlow, hhigh⟩ := h
  intro heq
  have hdvd : b ∣ t / b ^ l - n / b ^ l := (Nat.modEq_iff_dvd' hlow.le).mp heq.symm
  exact absurd (Nat.le_of_dvd (by omega) hdvd) (by omega)

theorem ReachedOn.zero (h : ReachedOn b n 0 t) : t = n := by
  simpa [ReachedOn] using h

/-- How far a time is ahead on the next dial. -/
theorem div_sub_div_pow_succ (hb : 0 < b) (h : n ≤ t) (l : ℕ) :
    (t / b ^ l - n / b ^ l + n / b ^ l % b) / b = t / b ^ (l + 1) - n / b ^ (l + 1) := by
  rw [Nat.pow_succ, ← Nat.div_div_eq_div_mul, ← Nat.div_div_eq_div_mul]
  have hle : n / b ^ l ≤ t / b ^ l := Nat.div_le_div_right h
  generalize t / b ^ l = x at hle ⊢
  generalize n / b ^ l = y at hle ⊢
  have hsplit := Nat.div_add_mod y b
  have hx : x = x - y + y % b + b * (y / b) := by omega
  have hdiv : x / b = (x - y + y % b) / b + y / b := by
    conv_lhs => rw [hx, Nat.add_mul_div_left _ _ hb]
  rw [hdiv, Nat.add_sub_cancel]

/-- A time a turn or more ahead on a dial is ahead on the next one. -/
theorem div_pow_succ_lt_of_le (hb : 0 < b) (h : b ≤ t / b ^ l - n / b ^ l) :
    n / b ^ (l + 1) < t / b ^ (l + 1) := by
  rw [Nat.pow_succ, ← Nat.div_div_eq_div_mul, ← Nat.div_div_eq_div_mul]
  have hle : n / b ^ l + b ≤ t / b ^ l := by omega
  calc n / b ^ l / b < (n / b ^ l + b) / b := by rw [Nat.add_div_right _ hb]; omega
    _ ≤ t / b ^ l / b := Nat.div_le_div_right hle

/-- A time ahead on an outer dial is ahead on the inner ones. -/
theorem div_pow_lt_of_le {l' : ℕ} (hle : l ≤ l') (h : n / b ^ l' < t / b ^ l') :
    n / b ^ l < t / b ^ l := by
  have hsplit : b ^ l' = b ^ l * b ^ (l' - l) := by rw [← Nat.pow_add, Nat.add_sub_cancel' hle]
  rw [hsplit, ← Nat.div_div_eq_div_mul, ← Nat.div_div_eq_div_mul] at h
  by_contra hnot
  exact absurd (Nat.div_le_div_right (Nat.le_of_not_lt hnot)) (Nat.not_le_of_lt h)

/-- A dial that goes on takes the next one with it at its first mark. -/
theorem pow_succ_dvd_iff (h : b ^ l ∣ n) : b ^ (l + 1) ∣ n ↔ n / b ^ l % b = 0 := by
  rw [Nat.pow_succ, ← Nat.dvd_iff_mod_eq_zero]
  constructor
  · intro hdvd
    exact Nat.dvd_div_of_mul_dvd hdvd
  · intro hdvd
    obtain ⟨m, rfl⟩ := h
    rcases Nat.eq_zero_or_pos (b ^ l) with hzero | hpos
    · rw [hzero]
      simp
    · rw [Nat.mul_div_cancel_left _ hpos] at hdvd
      exact Nat.mul_dvd_mul_left _ hdvd

/-- A mask of the upper ones of `n` bits rounds the number of these bits down. -/
theorem land_upper_bits {k : ℕ} (hk : k ≤ n) (x : ℕ) :
    x &&& (2 ^ n - 2 ^ k) = x % 2 ^ n / 2 ^ k * 2 ^ k := by
  have hmask : 2 ^ n - 2 ^ k = (2 ^ (n - k) - 1) * 2 ^ k := by
    rw [Nat.sub_one_mul, ← Nat.pow_add, Nat.sub_add_cancel hk]
  rw [hmask]
  refine Nat.eq_of_testBit_eq fun i => ?_
  rw [Nat.testBit_and, Nat.testBit_mul_two_pow, Nat.testBit_mul_two_pow,
    Nat.testBit_div_two_pow, Nat.testBit_mod_two_pow, Nat.testBit_two_pow_sub_one]
  by_cases hi : k ≤ i
  · have hiff : i - k < n - k ↔ i < n := by omega
    simp [hi, hiff, Bool.and_comm]
  · simp [hi]
