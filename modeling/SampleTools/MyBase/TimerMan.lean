import SampleTools.Library.Calendar

/-!
# Dates and times as decimal numbers

`mybase::time` writes a date as the number `yyyymmdd` and a time of day as `HHMMSSsss`.
`unixTimeToDateTime` finds them by a closed formula for the calendar, and `makeUnixTimeMs`
takes their digits apart and leaves the calendar to `mktime`. Divisions of the code round
towards zero.

## Main definitions

* `fastSecondToDate`, `unixTimeToDateTime`, `makeUnixTimeMs`: the functions of the code
* `TimeOfDay`, `instant`: a time of day, and the time of a date and a time of day at UTC+8
* `dateAt`, `timeAt`: the date and the time of day of a time

## Main results

* `instant_dateAt_timeAt`, `dateAt_instant`, `timeAt_instant`: times are dates with times
* `unixTimeToDateTime_eq`, `makeUnixTimeMs_eq`: what the functions compute
* `dateTime_round_trip`: they are inverse
-/

namespace SampleTools

open Gregorian

/-! ## The functions -/

/-- The fields of `struct tm` that are read or written. -/
structure Tm where
  sec : ℤ
  min : ℤ
  hour : ℤ
  mday : ℤ
  mon : ℤ
  year : ℤ
  deriving DecidableEq, Repr

/-- A 64-bit integer stored in an `int`. -/
def toInt32 (x : ℤ) : ℤ := x.bmod (2 ^ 32)

/-- `FastSecondToDate`. -/
def fastSecondToDate (unixSec timeZone : ℤ) : Tm :=
  let i := toInt32 (unixSec.tdiv 60)
  let hours := i.tdiv 60
  let a := (hours + timeZone).tdiv 24 + 2472632
  let b := (a * 4 + 3).tdiv 146097
  let c := (-b * 146097).tdiv 4 + a
  let d := (c * 4 + 3).tdiv 1461
  let e := (-d * 1461).tdiv 4 + c
  let m := (5 * e + 2).tdiv 153
  { sec := toInt32 (unixSec.tmod 60)
    min := i.tmod 60
    hour := (hours + timeZone).tmod 24
    mday := (-(153 * m + 2)).tdiv 5 + e + 1
    mon := (-m).tdiv 10 * 12 + m + 2
    year := b * 100 + d - 6700 + m.tdiv 10 }

/-- `unixTimeToDateTime`: the date and the time. -/
def unixTimeToDateTime (unixDatetime : ℤ) : ℤ × ℤ :=
  let tm := fastSecondToDate (unixDatetime.tdiv 1000) 8
  ((tm.year + 1900) * 10000 + (tm.mon + 1) * 100 + tm.mday,
    toInt32 (unixDatetime.tmod 1000 + tm.hour * 10000000 + tm.min * 100000 + tm.sec * 1000))

/-- `mktime` at UTC+8; months past December are months of later years. -/
def mktime (tm : Tm) : ℤ :=
  dayNumber (tm.year + 1900 + tm.mon / 12) (tm.mon % 12 + 1) tm.mday * 86400 +
    tm.hour * 3600 + tm.min * 60 + tm.sec - 8 * 3600

/-- `makeUnixTimeMs`; `dateNowYMD` is the date of the timer. -/
def makeUnixTimeMs (dateNowYMD ymd hms : ℤ) : ℤ :=
  let ymd := if ymd ≤ 0 then dateNowYMD else ymd
  let mday := ymd.tmod 100
  let ymd := ymd.tdiv 100
  let mon := ymd.tmod 100 - 1
  let year := ymd.tdiv 100 - 1900
  let ms := hms.tmod 1000
  let hms := hms.tdiv 1000
  let sec := hms.tmod 100
  let hms := hms.tdiv 100
  let min := hms.tmod 100
  let hour := hms.tdiv 100
  mktime ⟨sec, min, hour, mday, mon, year⟩ * 1000 + ms

/-! ## Dates with times of day -/

/-- A time of day, in milliseconds. -/
@[ext]
structure TimeOfDay where
  hour : ℤ
  min : ℤ
  sec : ℤ
  ms : ℤ
  hour_mem : 0 ≤ hour ∧ hour < 24
  min_mem : 0 ≤ min ∧ min < 60
  sec_mem : 0 ≤ sec ∧ sec < 60
  ms_mem : 0 ≤ ms ∧ ms < 1000
  deriving DecidableEq, Repr

/-- `HHMMSSsss`. -/
def TimeOfDay.hmss (h : TimeOfDay) : ℤ :=
  h.hour * 10000000 + h.min * 100000 + h.sec * 1000 + h.ms

/-- `yyyymmdd`. -/
def ymd (d : Date) : ℤ := d.year * 10000 + d.month * 100 + d.day

/-- The time, in milliseconds since 1970, of a date and a time of day at UTC+8. -/
def instant (d : Date) (h : TimeOfDay) : ℤ :=
  (d.dayNumber * 86400 + h.hour * 3600 + h.min * 60 + h.sec - 8 * 3600) * 1000 + h.ms

/-- The date at UTC+8. -/
def dateAt (t : ℤ) : Date := Date.ofDayNumber ((t / 1000 / 3600 + 8) / 24)

/-- The time of day at UTC+8. -/
def timeAt (t : ℤ) : TimeOfDay where
  hour := (t / 1000 / 3600 + 8) % 24
  min := t / 1000 / 60 % 60
  sec := t / 1000 % 60
  ms := t % 1000
  hour_mem := by omega
  min_mem := by omega
  sec_mem := by omega
  ms_mem := by omega

theorem instant_dateAt_timeAt (t : ℤ) : instant (dateAt t) (timeAt t) = t := by
  unfold instant dateAt timeAt
  rw [Date.dayNumber_ofDayNumber]
  dsimp only
  omega

theorem dateAt_instant (d : Date) (h : TimeOfDay) : dateAt (instant d h) = d := by
  have hhour := h.hour_mem
  have hmin := h.min_mem
  have hsec := h.sec_mem
  have hms := h.ms_mem
  have hday : (instant d h / 1000 / 3600 + 8) / 24 = d.dayNumber := by
    unfold instant
    omega
  rw [dateAt, hday, Date.ofDayNumber_dayNumber]

theorem timeAt_instant (d : Date) (h : TimeOfDay) : timeAt (instant d h) = h := by
  have hhour := h.hour_mem
  have hmin := h.min_mem
  have hsec := h.sec_mem
  have hms := h.ms_mem
  unfold timeAt instant
  ext <;>
  · dsimp only
    omega

/-! ## What the functions compute -/

theorem toInt32_of_mem {x : ℤ} (h : 0 ≤ x ∧ x < 2 ^ 31) : toInt32 x = x :=
  Int.bmod_eq_of_le_mul_two (by omega) (by omega)

/-- Rounding towards zero. -/
theorem neg_tdiv_of_nonneg {x : ℤ} (h : 0 ≤ x) (k : ℤ) : (-x).tdiv k = -(x / k) := by
  rw [Int.neg_tdiv, Int.tdiv_eq_ediv_of_nonneg h]

/-- The code counts centuries from 4800 years earlier than the calendar. -/
theorem centuries_shift {n : ℤ} (hn : 0 ≤ n) :
    ((n + 2472632) * 4 + 3).tdiv 146097 = (4 * (n + 719468) + 3) / 146097 + 48 := by
  rw [Int.tdiv_eq_ediv_of_nonneg (by omega)]
  omega

theorem dayOfCentury_shift {n b : ℤ} (hb : 0 ≤ b) :
    (-(b + 48) * 146097).tdiv 4 + (n + 2472632) = n + 719468 - 146097 * b / 4 := by
  rw [Int.neg_mul, neg_tdiv_of_nonneg (by omega)]
  omega

/-- The minutes and hours that have passed, and the hours and days in a time zone. -/
theorem timeFields_eq {s timeZone : ℤ} (hs : 0 ≤ s) (hzone : 0 ≤ timeZone) :
    (s / 60).tmod 60 = s / 60 % 60 ∧ (s / 60).tdiv 60 = s / 3600 ∧
      (s / 3600 + timeZone).tmod 24 = (s / 3600 + timeZone) % 24 ∧
      (s / 3600 + timeZone).tdiv 24 = (s / 3600 + timeZone) / 24 := by
  have hminutes : 0 ≤ s / 60 := by omega
  have hhours : 0 ≤ s / 3600 + timeZone := by omega
  refine ⟨Int.tmod_eq_emod_of_nonneg hminutes, ?_, Int.tmod_eq_emod_of_nonneg hhours,
    Int.tdiv_eq_ediv_of_nonneg hhours⟩
  rw [Int.tdiv_eq_ediv_of_nonneg hminutes]
  omega

/-- `FastSecondToDate` computes a date of the calendar. -/
theorem fastSecondToDate_eq {s timeZone : ℤ} (hs : 0 ≤ s ∧ s < 60 * 2 ^ 31)
    (hzone : 0 ≤ timeZone) :
    let date := Date.ofDayNumber ((s / 3600 + timeZone) / 24)
    fastSecondToDate s timeZone =
      ⟨s % 60, s / 60 % 60, (s / 3600 + timeZone) % 24, date.day, date.month - 1,
        date.year - 1900⟩ := by
  obtain ⟨h0, hlt⟩ := hs
  intro date
  -- the time of day
  have hsec : toInt32 (s.tmod 60) = s % 60 := by
    rw [Int.tmod_eq_emod_of_nonneg h0, toInt32_of_mem (by omega)]
  have hi : toInt32 (s.tdiv 60) = s / 60 := by
    rw [Int.tdiv_eq_ediv_of_nonneg h0, toInt32_of_mem (by omega)]
  obtain ⟨hmin, hhours, hhour, hday⟩ := timeFields_eq h0 hzone
  -- the date
  have hn : 0 ≤ (s / 3600 + timeZone) / 24 := by omega
  simp only [fastSecondToDate, hsec, hi, hmin, hhours, hhour, hday, date, Date.ofDayNumber]
  generalize (s / 3600 + timeZone) / 24 = n at hn
  rw [centuries_shift hn]
  generalize hb : (4 * (n + 719468) + 3) / 146097 = b
  have hb0 : 0 ≤ b := by omega
  rw [dayOfCentury_shift hb0]
  generalize hc : n + 719468 - 146097 * b / 4 = c
  obtain ⟨hc0, hc1, -⟩ := dayOfCentury_mem hb.symm hc.symm
  have hyear : (c * 4 + 3).tdiv 1461 = (4 * c + 3) / 1461 := by
    rw [Int.tdiv_eq_ediv_of_nonneg (by omega), Int.mul_comm]
  rw [hyear]
  generalize hd : (4 * c + 3) / 1461 = d
  have hd0 : 0 ≤ d := by omega
  have hdayOfYear : (-d * 1461).tdiv 4 + c = c - 1461 * d / 4 := by
    rw [Int.neg_mul, neg_tdiv_of_nonneg (by omega), Int.mul_comm]
    omega
  rw [hdayOfYear]
  generalize he : c - 1461 * d / 4 = e
  obtain ⟨-, ⟨he0, he1⟩, -⟩ := dayOfYear_mem ⟨hc0, hc1⟩ hd.symm he.symm
  rw [Int.tdiv_eq_ediv_of_nonneg (show 0 ≤ 5 * e + 2 by omega)]
  generalize hm : (5 * e + 2) / 153 = m
  have hm0 : 0 ≤ m := by omega
  rw [neg_tdiv_of_nonneg (by omega), neg_tdiv_of_nonneg hm0, Int.tdiv_eq_ediv_of_nonneg hm0]
  congr 1 <;> omega

/-! ## Decimal digits -/

/-- The part of a packed number before its last digits. -/
theorem tdiv_packed {a k r : ℤ} (ha : 0 ≤ a) (hr : 0 ≤ r ∧ r < k) : (a * k + r).tdiv k = a := by
  have hk : 0 < k := hr.1.trans_lt hr.2
  have hnum : 0 ≤ a * k + r := Int.add_nonneg (Int.mul_nonneg ha hk.le) hr.1
  rw [Int.tdiv_eq_ediv_of_nonneg hnum, Int.add_comm, Int.add_mul_ediv_right _ _ hk.ne',
    Int.ediv_eq_zero_of_lt hr.1 hr.2, Int.zero_add]

/-- The last digits of a packed number. -/
theorem tmod_packed {a k r : ℤ} (ha : 0 ≤ a) (hr : 0 ≤ r ∧ r < k) : (a * k + r).tmod k = r := by
  have hk : 0 < k := hr.1.trans_lt hr.2
  have hnum : 0 ≤ a * k + r := Int.add_nonneg (Int.mul_nonneg ha hk.le) hr.1
  rw [Int.tmod_eq_emod_of_nonneg hnum, Int.add_comm, Int.add_mul_emod_self_right,
    Int.emod_eq_of_lt hr.1 hr.2]

/-- A date of the range is packed by `unixTimeToDateTime`, with its time. -/
theorem unixTimeToDateTime_eq {t : ℤ} (h : 0 ≤ t ∧ t < 60000 * 2 ^ 31) :
    unixTimeToDateTime t = (ymd (dateAt t), (timeAt t).hmss) := by
  obtain ⟨h0, hlt⟩ := h
  have hs : t.tdiv 1000 = t / 1000 := Int.tdiv_eq_ediv_of_nonneg h0
  have hms : t.tmod 1000 = t % 1000 := Int.tmod_eq_emod_of_nonneg h0
  have htm := @fastSecondToDate_eq (t / 1000) 8 (by omega) (by omega)
  unfold unixTimeToDateTime
  simp only [hs, hms, htm]
  refine Prod.ext ?_ ?_
  · simp only [ymd, dateAt]
    omega
  · rw [toInt32_of_mem (by omega)]
    simp only [TimeOfDay.hmss, timeAt]
    omega

/-- `mktime` finds the time of a date and a time of day. -/
theorem mktime_date (d : Date) (h : TimeOfDay) :
    mktime ⟨h.sec, h.min, h.hour, d.day, d.month - 1, d.year - 1900⟩ * 1000 + h.ms =
      instant d h := by
  have hmonth := d.month_mem
  have hm₁ : (d.month - 1) / 12 = 0 := by omega
  have hm₂ : (d.month - 1) % 12 + 1 = d.month := by omega
  simp only [mktime, hm₁, hm₂, sub_add_cancel, add_zero]
  rfl

/-- `makeUnixTimeMs` finds the fields of a packed date and time again. -/
theorem makeUnixTimeMs_eq (dateNowYMD : ℤ) {d : Date} (hyear : 0 < d.year) (h : TimeOfDay) :
    makeUnixTimeMs dateNowYMD (ymd d) h.hmss = instant d h := by
  have hmonth := d.month_mem
  have hday := d.day_mem_31
  have hhour := h.hour_mem
  have hmin := h.min_mem
  have hsec := h.sec_mem
  have hms := h.ms_mem
  have hpos : ¬ ymd d ≤ 0 := by
    unfold ymd
    omega
  -- the digits of the date
  have hymd : ymd d = (d.year * 100 + d.month) * 100 + d.day := by
    unfold ymd
    omega
  have hrest : (ymd d).tdiv 100 = d.year * 100 + d.month := by
    rw [hymd, tdiv_packed (by omega) (by omega)]
  have hmday : (ymd d).tmod 100 = d.day := by
    rw [hymd, tmod_packed (by omega) (by omega)]
  have hyears : (d.year * 100 + d.month).tdiv 100 = d.year := tdiv_packed hyear.le (by omega)
  have hmon : (d.year * 100 + d.month).tmod 100 = d.month := tmod_packed hyear.le (by omega)
  -- the digits of the time
  have hhmss : h.hmss = ((h.hour * 100 + h.min) * 100 + h.sec) * 1000 + h.ms := by
    unfold TimeOfDay.hmss
    omega
  have hrest₁ : h.hmss.tdiv 1000 = (h.hour * 100 + h.min) * 100 + h.sec := by
    rw [hhmss, tdiv_packed (by omega) hms]
  have hmsec : h.hmss.tmod 1000 = h.ms := by
    rw [hhmss, tmod_packed (by omega) hms]
  have hrest₂ : ((h.hour * 100 + h.min) * 100 + h.sec).tdiv 100 = h.hour * 100 + h.min :=
    tdiv_packed (by omega) (by omega)
  have hsecs : ((h.hour * 100 + h.min) * 100 + h.sec).tmod 100 = h.sec :=
    tmod_packed (by omega) (by omega)
  have hhours : (h.hour * 100 + h.min).tdiv 100 = h.hour := tdiv_packed hhour.1 (by omega)
  have hmins : (h.hour * 100 + h.min).tmod 100 = h.min := tmod_packed hhour.1 (by omega)
  rw [← mktime_date]
  simp only [makeUnixTimeMs, if_neg hpos, hmday, hrest, hmon, hyears, hmsec, hrest₁, hsecs,
    hrest₂, hmins, hhours]

/-! ## The round trip -/

/-- The date of a time is as many days after the first of January 1970 as have passed at
UTC+8. -/
theorem unixTimeToDateTime_fst {t : ℤ} (h : 0 ≤ t ∧ t < 60000 * 2 ^ 31) :
    (unixTimeToDateTime t).1 =
      ymd (Date.next^[((t / 1000 / 3600 + 8) / 24).toNat] Date.epoch) := by
  have hnumber : (dateAt t).dayNumber = ((t / 1000 / 3600 + 8) / 24).toNat := by
    rw [dateAt, Date.dayNumber_ofDayNumber, Int.toNat_of_nonneg (by omega)]
  rw [unixTimeToDateTime_eq h, Date.eq_iterate_next_epoch hnumber]

/-- From 1970 on the years are positive. -/
theorem year_pos_of_instant {d : Date} {h : TimeOfDay} (hpos : 0 ≤ instant d h) : 0 < d.year := by
  have hhour := h.hour_mem
  have hmin := h.min_mem
  have hsec := h.sec_mem
  have hms := h.ms_mem
  unfold instant at hpos
  exact Date.year_pos (by omega)

/-- **Round trip.** In the range of the minutes that fit an `int`, a time comes back from its
date and time, and a date with its time from their time; whatever the timer's date is. -/
theorem dateTime_round_trip (dateNowYMD : ℤ) :
    (∀ t, 0 ≤ t ∧ t < 60000 * 2 ^ 31 →
      makeUnixTimeMs dateNowYMD (unixTimeToDateTime t).1 (unixTimeToDateTime t).2 = t) ∧
    ∀ (d : Date) (h : TimeOfDay), 0 ≤ instant d h ∧ instant d h < 60000 * 2 ^ 31 →
      unixTimeToDateTime (makeUnixTimeMs dateNowYMD (ymd d) h.hmss) = (ymd d, h.hmss) := by
  constructor
  · intro t ht
    have hyear : 0 < (dateAt t).year := by
      apply @year_pos_of_instant _ (timeAt t)
      rw [instant_dateAt_timeAt]
      exact ht.1
    rw [unixTimeToDateTime_eq ht, makeUnixTimeMs_eq dateNowYMD hyear, instant_dateAt_timeAt]
  · intro d h hrange
    rw [makeUnixTimeMs_eq dateNowYMD (year_pos_of_instant hrange.1), unixTimeToDateTime_eq hrange,
      dateAt_instant, timeAt_instant]

/-- The last millisecond of 29 February 2000, and the date 29 February 2000. -/
theorem dateTime_round_trip_leap_day :
    makeUnixTimeMs 0 (unixTimeToDateTime 951839999999).1 (unixTimeToDateTime 951839999999).2 =
        951839999999 ∧
      unixTimeToDateTime (makeUnixTimeMs 0 20000229 235959999) = (20000229, 235959999) := by
  obtain ⟨htime, hdate⟩ := dateTime_round_trip 0
  exact ⟨htime 951839999999 (by decide), hdate ⟨2000, 2, 29, by decide, by decide⟩
    ⟨23, 59, 59, 999, by decide, by decide, by decide, by decide⟩ (by decide)⟩

end SampleTools
