import SampleTools.MyBase.TimerWheel

/-!
# Which tick of a range the timer wheel takes

`schedule_in_range` leaves the tick to the wheel. It clears as many bytes of the last delta as it
can, so that the event is promoted as few times as possible, with a mask whose upper byte is lost
in the last shift.

## Main results

* `TimerWheel.rangeDelta_eq`: what is computed
* `TimerWheel.rangeDelta_of_large`: a range that ends at `2 ^ 56` or later
* `TimerWheel.rangeDelta_mem_iff`: when the delta is in the range
* `TimerWheel.rangeDelta_roundest`: no other delta of the range has more bytes clear
-/

namespace SampleTools

namespace TimerWheel

variable {first last : ℕ}

theorem shift_mask {k : ℕ} (hk : k < numLevels) :
    toTick ((2 ^ 64 - numSlots ^ k) <<< widthBits) = 2 ^ 64 - numSlots ^ (k + 1) := by
  revert k
  decide

/-- The mask with as few bytes clear as the two ends of the range need to be equal in the rest. -/
theorem rangeMask_eq (hlast : last < 2 ^ 64) (hlt : first < last) (rounds k : ℕ)
    (hk : rounds + k = numLevels) (hne : ∀ j < k, first / numSlots ^ j ≠ last / numSlots ^ j) :
    ∃ m ≤ numLevels, rangeMask first last rounds (2 ^ 64 - numSlots ^ k) = 2 ^ 64 - numSlots ^ m ∧
      first / numSlots ^ m = last / numSlots ^ m ∧
      ∀ j < m, first / numSlots ^ j ≠ last / numSlots ^ j := by
  induction rounds generalizing k with
  | zero =>
    obtain rfl : k = numLevels := by omega
    have htop : numSlots ^ numLevels = 2 ^ 64 := rfl
    refine ⟨numLevels, le_rfl, rfl, ?_, hne⟩
    rw [htop, Nat.div_eq_of_lt hlast, Nat.div_eq_of_lt (hlt.trans hlast)]
  | succ rounds ih =>
    have hpow : numSlots ^ k = 2 ^ (8 * k) := by
      rw [Nat.pow_mul]
      rfl
    have hland : ∀ x < 2 ^ 64, x &&& (2 ^ 64 - numSlots ^ k) =
        x / numSlots ^ k * numSlots ^ k := by
      intro x hx
      have hle : 8 * k ≤ 64 := by
        have hlevels : numLevels = 8 := rfl
        omega
      rw [hpow, land_upper_bits hle, Nat.mod_eq_of_lt hx]
    have hpos : 0 < numSlots ^ k := Nat.pow_pos (by decide)
    rw [rangeMask, hland first (hlt.trans hlast), hland last hlast, shift_mask (by omega)]
    by_cases heq : first / numSlots ^ k = last / numSlots ^ k
    · rw [if_neg (not_not_intro (congrArg (· * _) heq))]
      exact ⟨k, by omega, rfl, heq, hne⟩
    · rw [if_pos fun hmul => heq (Nat.eq_of_mul_eq_mul_right hpos hmul)]
      refine ih (k + 1) (by omega) fun j hj => ?_
      rcases Nat.lt_succ_iff_lt_or_eq.mp hj with hj | rfl
      · exact hne j hj
      · exact heq

/-- The last delta without its upper byte, and with as many lower bytes clear as the ends of the
range differ in, less one. -/
theorem rangeDelta_eq (hlast : last < 2 ^ 64) (hlt : first < last) :
    ∃ m < numLevels, rangeDelta first last = last % 2 ^ 56 / numSlots ^ m * numSlots ^ m ∧
      first / numSlots ^ (m + 1) = last / numSlots ^ (m + 1) ∧
      ∀ j ≤ m, first / numSlots ^ j ≠ last / numSlots ^ j := by
  have hstart : 2 ^ 64 - 1 = 2 ^ 64 - numSlots ^ 0 := rfl
  obtain ⟨m, hm, hmask, heq, hne⟩ := rangeMask_eq hlast hlt numLevels 0 rfl
    fun j hj => absurd hj (Nat.not_lt_zero j)
  cases m with
  | zero =>
    rw [Nat.pow_zero, Nat.div_one, Nat.div_one] at heq
    exact absurd heq hlt.ne
  | succ m =>
    have hshift : ∀ m < numLevels,
        (2 ^ 64 - numSlots ^ (m + 1)) >>> widthBits = 2 ^ 56 - 2 ^ (8 * m) := by decide
    have hpow : numSlots ^ m = 2 ^ (8 * m) := by
      rw [Nat.pow_mul]
      rfl
    have hle : 8 * m ≤ 56 := by
      have hlevels : numLevels = 8 := rfl
      omega
    refine ⟨m, hm, ?_, heq, fun j hj => hne j (by omega)⟩
    rw [rangeDelta, hstart, hmask, hshift m hm, land_upper_bits hle, hpow]

/-- If the range ends at `2 ^ 56` or later, the delta is not in the range, or is zero. -/
theorem rangeDelta_of_large (hlast : last < 2 ^ 64) (hlt : first < last) (hlarge : 2 ^ 56 ≤ last) :
    rangeDelta first last = 0 ∨ rangeDelta first last < first := by
  obtain ⟨m, hm, hdelta, heq, -⟩ := rangeDelta_eq hlast hlt
  have hdown : rangeDelta first last ≤ last % 2 ^ 56 := hdelta ▸ Nat.div_mul_le_self ..
  have hmod : last % 2 ^ 56 < 2 ^ 56 := Nat.mod_lt _ (by decide)
  by_cases hfirst : first < 2 ^ 56
  · -- the ends differ in the upper byte, so all other bytes are cleared
    have htop : numSlots ^ 7 = 2 ^ 56 := rfl
    have hzero : first / numSlots ^ 7 = 0 := Nat.div_eq_of_lt hfirst
    have hseven : m = 7 := by
      by_contra hm7
      have hlevels : numLevels = 8 := rfl
      have hsplit : numSlots ^ 7 = numSlots ^ (m + 1) * numSlots ^ (6 - m) := by
        rw [← Nat.pow_add]
        congr 1
        omega
      have hupper : first / numSlots ^ 7 = last / numSlots ^ 7 := by
        rw [hsplit, ← Nat.div_div_eq_div_mul, heq, Nat.div_div_eq_div_mul]
      rw [hzero, htop] at hupper
      omega
    rw [hdelta, hseven, htop, Nat.div_eq_of_lt hmod]
    exact .inl (Nat.zero_mul _)
  · exact .inr (by omega)

/-- The delta is in the range exactly if the range ends below `2 ^ 56`. -/
theorem rangeDelta_mem_iff (hlast : last < 2 ^ 64) (hlt : first < last) :
    (first < rangeDelta first last ∧ rangeDelta first last ≤ last) ↔ last < 2 ^ 56 := by
  constructor
  · rintro ⟨hlow, -⟩
    by_contra hbig
    rcases rangeDelta_of_large hlast hlt (by omega) with hzero | hbelow <;> omega
  · intro hsmall
    obtain ⟨m, -, hdelta, -, hne⟩ := rangeDelta_eq hlast hlt
    have hpos : 0 < numSlots ^ m := Nat.pow_pos (by decide)
    rw [hdelta, Nat.mod_eq_of_lt hsmall]
    refine ⟨?_, Nat.div_mul_le_self ..⟩
    have hle : first / numSlots ^ m ≤ last / numSlots ^ m := Nat.div_le_div_right hlt.le
    have hstrict : first / numSlots ^ m < last / numSlots ^ m :=
      lt_of_le_of_ne hle (hne m le_rfl)
    exact (Nat.div_lt_iff_lt_mul hpos).mp hstrict

/-- The delta has more bytes clear than any other of the range, or as many. -/
theorem rangeDelta_roundest (hlast : last < 2 ^ 56) (hlt : first < last) :
    ∃ m, numSlots ^ m ∣ rangeDelta first last ∧
      ∀ delta, first < delta → delta ≤ last → ¬ numSlots ^ (m + 1) ∣ delta := by
  obtain ⟨m, -, hdelta, heq, -⟩ := rangeDelta_eq (hlast.trans (by decide)) hlt
  refine ⟨m, hdelta ▸ Nat.dvd_mul_left .., ?_⟩
  rintro delta hfirst hle ⟨c, rfl⟩
  have hpos : 0 < numSlots ^ (m + 1) := Nat.pow_pos (by decide)
  have hc : c ≤ last / numSlots ^ (m + 1) :=
    (Nat.le_div_iff_mul_le hpos).mpr (by rwa [Nat.mul_comm])
  rw [← heq] at hc
  have hback : numSlots ^ (m + 1) * c ≤ first := by
    rw [Nat.mul_comm]
    exact (Nat.le_div_iff_mul_le hpos).mp hc
  omega

end TimerWheel

end SampleTools
