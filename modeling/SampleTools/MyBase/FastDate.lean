import SampleTools.MyBase.TimerMan

/-!
# `FastSecondToDate` in 32 bits

All variables of `FastSecondToDate` are of type `int`. Here each of its operations is checked:
a result that does not fit 32 bits ends the function without a date. It never does so for
times up to the year 6053, and the date it computes is the one of the calendar.

## Main definitions

* `checked`, `int?`, `int64?`: the result of an operation, if it fits its type
* `fastSecondToDate?`: `FastSecondToDate` with every operation checked

## Main results

* `fastSecondToDate?_eq`: no operation overflows
* `fastSecondToDate_gregorian`: the date and the time of day are those of the calendar
-/

namespace SampleTools

open Gregorian

/-- The result of an operation on integers below a bound, if it fits. -/
def checked (bound x : ℤ) : Option ℤ := if -bound ≤ x ∧ x < bound then some x else none

/-- `int`. -/
abbrev int? (x : ℤ) : Option ℤ := checked (2 ^ 31) x

/-- `int64_t`. -/
abbrev int64? (x : ℤ) : Option ℤ := checked (2 ^ 63) x

theorem checked_of_fits {bound x : ℤ} (h : -bound ≤ x) (h' : x < bound) :
    checked bound x = some x :=
  if_pos ⟨h, h'⟩

theorem checked_bind {α : Type} {bound x : ℤ} {f : ℤ → Option α} (h : -bound ≤ x)
    (h' : x < bound) : (checked bound x >>= f) = f x := by
  rw [checked_of_fits h h']
  rfl

/-- `FastSecondToDate`, with every operation on `int` checked. -/
def fastSecondToDate? (unixSec timeZone : ℤ) : Option Tm := do
  let sec ← int? (unixSec.tmod 60)
  let i ← int? (unixSec.tdiv 60)
  let min ← int? (i.tmod 60)
  let i ← int? (i.tdiv 60)
  let hour ← int? ((← int? (i + timeZone)).tmod 24)
  let mday ← int? ((← int? (i + timeZone)).tdiv 24)
  let a ← int? (mday + 2472632)
  let b ← int? ((← int? ((← int? (a * 4)) + 3)).tdiv 146097)
  let c ← int? ((← int? ((← int? ((← int? (-b)) * 146097)).tdiv 4)) + a)
  let d ← int? ((← int? ((← int? (c * 4)) + 3)).tdiv 1461)
  let e ← int? ((← int? (-d)) * 1461)
  let e ← int? ((← int? (e.tdiv 4)) + c)
  let m ← int? ((← int? ((← int? (5 * e)) + 2)).tdiv 153)
  let mday ← int? (-(← int? ((← int? (153 * m)) + 2)))
  let mday ← int? ((← int? ((← int? (mday.tdiv 5)) + e)) + 1)
  let mon ← int? ((← int? ((← int? ((← int? ((← int? (-m)).tdiv 10)) * 12)) + m)) + 2)
  let year ← int? ((← int? ((← int? (b * 100)) + d)) - 6700)
  let year ← int? (year + (← int? (m.tdiv 10)))
  return { sec, min, hour, mday, mon, year }

variable {s timeZone : ℤ}

/-- No operation overflows. -/
theorem fastSecondToDate?_eq (hs : 0 ≤ s ∧ s < 60 * 2 ^ 31) (hzone : 0 ≤ timeZone ∧ timeZone ≤ 14) :
    fastSecondToDate? s timeZone = some (fastSecondToDate s timeZone) := by
  obtain ⟨h0, hlt⟩ := hs
  obtain ⟨hz0, hz14⟩ := hzone
  -- the time of day
  have hsec : s.tmod 60 = s % 60 := Int.tmod_eq_emod_of_nonneg h0
  have hsec' : toInt32 (s % 60) = s % 60 := toInt32_of_mem (by omega)
  have hi : s.tdiv 60 = s / 60 := Int.tdiv_eq_ediv_of_nonneg h0
  have hi' : toInt32 (s / 60) = s / 60 := toInt32_of_mem (by omega)
  obtain ⟨hmin, hhours, hhour, hday⟩ := timeFields_eq h0 hz0
  have hn : 0 ≤ (s / 3600 + timeZone) / 24 ∧ (s / 3600 + timeZone) / 24 ≤ 1500000 := by omega
  simp only [fastSecondToDate?, fastSecondToDate, hsec, hi, hsec', hi', hhours, hday]
  simp (disch := omega) only [↓checked_bind, hmin, hhours, hhour, hday]
  clear hsec hsec' hi hi' hmin hhours hhour hday h0 hlt hz0 hz14
  generalize (s / 3600 + timeZone) / 24 = n at hn
  obtain ⟨hn0, hn1⟩ := hn
  -- the century, and the day in it
  generalize hb : ((n + 2472632) * 4 + 3).tdiv 146097 = b
  rw [Int.tdiv_eq_ediv_of_nonneg (by omega)] at hb
  have hbmem : 0 ≤ b ∧ b ≤ 109 := by omega
  simp (disch := omega) only [↓checked_bind]
  generalize hb' : (-b * 146097).tdiv 4 = b'
  rw [Int.neg_mul, neg_tdiv_of_nonneg (by omega)] at hb'
  simp (disch := omega) only [↓checked_bind]
  generalize hc : b' + (n + 2472632) = c
  have hcmem : 0 ≤ c ∧ c ≤ 36525 := by omega
  clear hb hb' hc
  -- the year, and the day in it
  generalize hd : (c * 4 + 3).tdiv 1461 = d
  rw [Int.tdiv_eq_ediv_of_nonneg (by omega)] at hd
  have hdmem : 0 ≤ d ∧ d ≤ 100 := by omega
  simp (disch := omega) only [↓checked_bind]
  generalize hd' : (-d * 1461).tdiv 4 = d'
  rw [Int.neg_mul, neg_tdiv_of_nonneg (by omega)] at hd'
  simp (disch := omega) only [↓checked_bind]
  generalize he : d' + c = e
  have hemem : 0 ≤ e ∧ e ≤ 366 := by omega
  clear hd hd' he
  -- the month, and the day in it
  generalize hm : (5 * e + 2).tdiv 153 = m
  rw [Int.tdiv_eq_ediv_of_nonneg (by omega)] at hm
  have hmmem : 0 ≤ m ∧ m ≤ 12 := by omega
  clear hm
  have hm₁ : (-(153 * m + 2)).tdiv 5 = -((153 * m + 2) / 5) := neg_tdiv_of_nonneg (by omega) 5
  have hm₂ : (-m).tdiv 10 = -(m / 10) := neg_tdiv_of_nonneg hmmem.1 10
  have hm₃ : m.tdiv 10 = m / 10 := Int.tdiv_eq_ediv_of_nonneg hmmem.1
  simp (disch := omega) only [↓checked_bind, hm₁, hm₂, hm₃]
  rfl

/-- **The calendar.** Without an overflow `FastSecondToDate` finds the date whose number is the
number of days that have passed in the time zone, the only one that has it, and the hours,
minutes and seconds of the day that have passed. -/
theorem fastSecondToDate_gregorian (hs : 0 ≤ s ∧ s < 60 * 2 ^ 31)
    (hzone : 0 ≤ timeZone ∧ timeZone ≤ 14) :
    fastSecondToDate? s timeZone = some (fastSecondToDate s timeZone) ∧
      let tm := fastSecondToDate s timeZone
      let days := (s + 3600 * timeZone) / 86400
      let rest := (s + 3600 * timeZone) % 86400
      (∃ d : Date, (tm.year + 1900 = d.year ∧ tm.mon + 1 = d.month ∧ tm.mday = d.day) ∧
        d = Date.next^[days.toNat] Date.epoch ∧ ∀ d' : Date, d'.dayNumber = days ↔ d' = d) ∧
      tm.hour = rest / 3600 ∧ tm.min = rest / 60 % 60 ∧ tm.sec = rest % 60 := by
  refine ⟨fastSecondToDate?_eq hs hzone, ?_⟩
  intro tm days rest
  have htm : tm = _ := fastSecondToDate_eq hs hzone.1
  have hdays : (s / 3600 + timeZone) / 24 = days := by omega
  -- year, month and day, the number of days, then the rest of the day
  rw [hdays] at htm
  have hnumber : (Date.ofDayNumber days).dayNumber = days := Date.dayNumber_ofDayNumber days
  refine ⟨⟨Date.ofDayNumber days, ⟨?_, ?_, ?_⟩, ?_, fun d' => ?_⟩, ?_, ?_, ?_⟩
  · rw [htm]
    exact sub_add_cancel _ _
  · rw [htm]
    exact sub_add_cancel _ _
  · rw [htm]
  · exact Date.eq_iterate_next_epoch (by omega)
  · exact ⟨fun h => Date.dayNumber_injective (h.trans hnumber.symm), fun h => h ▸ hnumber⟩
  · rw [htm]
    dsimp only
    omega
  · rw [htm]
    dsimp only
    omega
  · rw [htm]
    dsimp only
    omega

/-- The last second of 29 February 2000 in China. -/
theorem fastSecondToDate_gregorian_leap_day :
    let s := 951839999
    let tm := fastSecondToDate s 8
    tm = ⟨59, 59, 23, 29, 1, 100⟩ ∧
      fastSecondToDate? s 8 = some tm ∧
      (∃ d : Date, (tm.year + 1900 = d.year ∧ tm.mon + 1 = d.month ∧ tm.mday = d.day) ∧
        d = Date.next^[((s + 3600 * 8) / 86400 : ℤ).toNat] Date.epoch ∧
        ∀ d' : Date, d'.dayNumber = (s + 3600 * 8) / 86400 ↔ d' = d) ∧
      tm.hour = (s + 3600 * 8) % 86400 / 3600 ∧ tm.min = (s + 3600 * 8) % 86400 / 60 % 60 ∧
      tm.sec = (s + 3600 * 8) % 86400 % 60 :=
  ⟨by decide, fastSecondToDate_gregorian (by decide) (by decide)⟩

end SampleTools
