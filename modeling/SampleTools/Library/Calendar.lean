import Mathlib.Tactic.Common
import Mathlib.Tactic.IntervalCases

/-!
# The Gregorian calendar

A date is a year, a month and a day that the calendar has; `Date.next` is the day after it.
Days are numbered from 1 January 1970. The number is a closed formula in years that begin on
1 March: then the leap day is the last day of its year, and the days before a month are
linear in the month.

## Main definitions

* `IsLeap`, `daysInMonth`: the rules of the calendar
* `Date`, `Date.next`, `Date.epoch`: the dates, the next day, and the first of January 1970
* `dayNumber`, `Date.ofDayNumber`: the number of a day, and the day of a number

## Main results

* `Date.dayNumber_next`, `Date.eq_iterate_next_epoch`: the numbers count the days
* `Date.dayNumber_injective`: different dates have different numbers
* `Date.dayNumber_ofDayNumber`, `Date.ofDayNumber_dayNumber`: both directions are inverse
-/

namespace Gregorian

/-- Every fourth year, but of the full centuries only every fourth. -/
def IsLeap (y : ℤ) : Prop := y % 4 = 0 ∧ (y % 100 = 0 → y % 400 = 0)

instance (y : ℤ) : Decidable (IsLeap y) := inferInstanceAs (Decidable (_ ∧ _))

/-- The length of a month. -/
def daysInMonth (y m : ℤ) : ℤ :=
  if m = 2 then if IsLeap y then 29 else 28
  else if m = 4 ∨ m = 6 ∨ m = 9 ∨ m = 11 then 30
  else 31

/-- A date that the calendar has. -/
@[ext]
structure Date where
  year : ℤ
  month : ℤ
  day : ℤ
  month_mem : 1 ≤ month ∧ month ≤ 12
  day_mem : 1 ≤ day ∧ day ≤ daysInMonth year month
  deriving DecidableEq, Repr

theorem one_le_daysInMonth (y m : ℤ) : 1 ≤ daysInMonth y m := by
  unfold daysInMonth
  split_ifs <;> omega

theorem daysInMonth_le (y m : ℤ) : daysInMonth y m ≤ 31 := by
  unfold daysInMonth
  split_ifs <;> omega

/-- A day of any month. -/
theorem Date.day_mem_31 (d : Date) : 1 ≤ d.day ∧ d.day ≤ 31 :=
  ⟨d.day_mem.1, d.day_mem.2.trans (daysInMonth_le _ _)⟩

/-- The day after. -/
def Date.next (d : Date) : Date :=
  if hday : d.day < daysInMonth d.year d.month then
    ⟨d.year, d.month, d.day + 1, d.month_mem, by have := d.day_mem; omega⟩
  else if hmonth : d.month < 12 then
    ⟨d.year, d.month + 1, 1, by have := d.month_mem; omega, le_refl 1, one_le_daysInMonth _ _⟩
  else
    ⟨d.year + 1, 1, 1, by omega, le_refl 1, one_le_daysInMonth _ _⟩

/-- 1 January 1970. -/
def Date.epoch : Date := ⟨1970, 1, 1, by omega, le_refl 1, one_le_daysInMonth _ _⟩

/-! ## Years that begin in March -/

/-- The year that began on the last 1 March. -/
def marchYear (y m : ℤ) : ℤ := if m ≤ 2 then y - 1 else y

/-- The months since that March. -/
def marchMonth (m : ℤ) : ℤ := if m ≤ 2 then m + 9 else m - 3

/-- The days from 1 March of year 0 to 1 March. -/
def daysBeforeYear (y : ℤ) : ℤ := 365 * y + y / 4 - y / 100 + y / 400

/-- The days from 1 March to the first of a month. -/
def daysBeforeMonth (m : ℤ) : ℤ := (153 * m + 2) / 5

/-- The days from 1 January 1970 to a day. -/
def dayNumber (y m d : ℤ) : ℤ :=
  daysBeforeYear (marchYear y m) + daysBeforeMonth (marchMonth m) + d - 1 - 719468

theorem daysBeforeYear_succ (y : ℤ) :
    daysBeforeYear (y + 1) = daysBeforeYear y + if IsLeap (y + 1) then 366 else 365 := by
  unfold daysBeforeYear IsLeap
  split_ifs <;> omega

theorem daysBeforeYear_mono {y y' : ℤ} (h : y ≤ y') : daysBeforeYear y ≤ daysBeforeYear y' := by
  unfold daysBeforeYear
  omega

/-- Where a month ends in its year; February ends with the year. -/
theorem daysBeforeMonth_add_daysInMonth (y : ℤ) {m : ℤ} (hm : 1 ≤ m ∧ m ≤ 12) :
    daysBeforeMonth (marchMonth m) + daysInMonth y m =
      if m = 2 then if IsLeap y then 366 else 365 else daysBeforeMonth (marchMonth m + 1) := by
  obtain ⟨h1, h12⟩ := hm
  unfold daysBeforeMonth marchMonth daysInMonth
  interval_cases m
  case «2» => by_cases h : IsLeap y <;> simp [h]
  all_goals norm_num

/-- Only from February to March the year changes. -/
theorem marchYear_succ {y m : ℤ} (hm : m ≠ 2) : marchYear y (m + 1) = marchYear y m := by
  unfold marchYear
  split_ifs <;> omega

theorem marchMonth_succ {m : ℤ} (hm : m ≠ 2) : marchMonth (m + 1) = marchMonth m + 1 := by
  unfold marchMonth
  split_ifs <;> omega

/-- The first of a month follows the last of the month before. -/
theorem dayNumber_month_succ (y : ℤ) {m : ℤ} (hm : 1 ≤ m ∧ m ≤ 12) :
    dayNumber y (m + 1) 1 = dayNumber y m (daysInMonth y m) + 1 := by
  have hend := daysBeforeMonth_add_daysInMonth y hm
  unfold dayNumber
  by_cases hfeb : m = 2
  -- on 1 March the next year begins
  · have hyear := daysBeforeYear_succ (y - 1)
    rw [sub_add_cancel] at hyear
    have hmar : daysBeforeMonth (marchMonth 3) = 0 := by decide
    have hstart : marchYear y 3 = y := if_neg (by omega)
    have hbefore : marchYear y 2 = y - 1 := if_pos (by omega)
    rw [if_pos hfeb, hfeb] at hend
    rw [hfeb, show (2 : ℤ) + 1 = 3 from rfl, hstart, hbefore, hyear, hmar]
    split_ifs at hend ⊢ <;> omega
  · rw [if_neg hfeb] at hend
    rw [marchYear_succ hfeb, marchMonth_succ hfeb]
    omega

/-- The first of January is the first of the thirteenth month of the year before. -/
theorem dayNumber_january (y d : ℤ) : dayNumber (y + 1) 1 d = dayNumber y 13 d := by
  have hyear : marchYear (y + 1) 1 = marchYear y 13 := by
    unfold marchYear
    omega
  have hmonth : marchMonth 1 = marchMonth 13 := by decide
  unfold dayNumber
  rw [hyear, hmonth]

namespace Date

/-- The number of a date. -/
def dayNumber (d : Date) : ℤ := Gregorian.dayNumber d.year d.month d.day

theorem dayNumber_epoch : epoch.dayNumber = 0 := by decide

/-- The next day has the next number. -/
theorem dayNumber_next (d : Date) : d.next.dayNumber = d.dayNumber + 1 := by
  have hmonth := d.month_mem
  have hday := d.day_mem
  have hsucc := dayNumber_month_succ d.year hmonth
  unfold next dayNumber
  split_ifs with hlt hdec
  · unfold Gregorian.dayNumber
    dsimp only
    omega
  · have hlast : d.day = daysInMonth d.year d.month := by omega
    rw [hlast]
    exact hsucc
  · have hlast : d.day = daysInMonth d.year d.month := by omega
    have hdecember : d.month = 12 := by omega
    rw [hlast, ← hsucc, hdecember]
    exact dayNumber_january d.year 1

/-! ## Different dates have different numbers -/

/-- The days from 1 March to a date. -/
def yearDay (d : Date) : ℤ := daysBeforeMonth (marchMonth d.month) + d.day - 1

theorem dayNumber_eq (d : Date) :
    d.dayNumber = daysBeforeYear (marchYear d.year d.month) + d.yearDay - 719468 := by
  unfold dayNumber Gregorian.dayNumber yearDay
  omega

/-- A date lies in its month. -/
theorem marchMonth_eq (d : Date) : marchMonth d.month = (5 * d.yearDay + 2) / 153 := by
  have hend := daysBeforeMonth_add_daysInMonth d.year d.month_mem
  have hmonth := d.month_mem
  have hday := d.day_mem
  have hmem : 0 ≤ marchMonth d.month ∧ marchMonth d.month ≤ 11 ∧
      (d.month = 2 → marchMonth d.month = 11) := by
    unfold marchMonth
    split_ifs <;> omega
  unfold daysBeforeMonth at hend
  unfold yearDay daysBeforeMonth
  split_ifs at hend <;> omega

/-- A date lies in its year. -/
theorem yearDay_mem (d : Date) : 0 ≤ d.yearDay ∧
    daysBeforeYear (marchYear d.year d.month) + d.yearDay <
      daysBeforeYear (marchYear d.year d.month + 1) := by
  have hend := daysBeforeMonth_add_daysInMonth d.year d.month_mem
  have hmonth := d.month_mem
  have hday := d.day_mem
  have hmem : 0 ≤ marchMonth d.month ∧ (d.month ≠ 2 → marchMonth d.month + 1 ≤ 11) := by
    unfold marchMonth
    split_ifs <;> omega
  have hyear := daysBeforeYear_succ (marchYear d.year d.month)
  unfold yearDay
  by_cases hfeb : d.month = 2
  · have hstart : marchYear d.year d.month + 1 = d.year := by
      unfold marchYear
      omega
    rw [hstart] at hyear ⊢
    rw [if_pos hfeb] at hend
    unfold daysBeforeMonth at hend ⊢
    split_ifs at hend hyear <;> omega
  · rw [if_neg hfeb] at hend
    unfold daysBeforeMonth at hend ⊢
    split_ifs at hyear <;> omega

/-- From 1970 on the years are positive. -/
theorem year_pos {d : Date} (h : 0 ≤ d.dayNumber) : 0 < d.year := by
  have hlt := d.yearDay_mem.2
  rw [dayNumber_eq] at h
  by_contra hneg
  have hstart : marchYear d.year d.month + 1 ≤ 1 := by
    unfold marchYear
    split_ifs <;> omega
  have hmono := daysBeforeYear_mono hstart
  have hfirst : daysBeforeYear 1 = 365 := by decide
  omega

/-- No date before 1 March of a year is of a later year. -/
theorem year_le {d : Date} {y : ℤ} (h : d.dayNumber + 719468 < daysBeforeYear y) : d.year ≤ y := by
  have hpos := d.yearDay_mem.1
  rw [dayNumber_eq] at h
  by_contra hlater
  have hstart : y ≤ marchYear d.year d.month := by
    unfold marchYear
    split_ifs <;> omega
  have hmono := daysBeforeYear_mono hstart
  omega

theorem dayNumber_injective : Function.Injective dayNumber := by
  intro d d' h
  rw [dayNumber_eq, dayNumber_eq] at h
  obtain ⟨hpos, hlt⟩ := d.yearDay_mem
  obtain ⟨hpos', hlt'⟩ := d'.yearDay_mem
  -- the years are the same, then the days of the year, the months and the days
  have hyear : marchYear d.year d.month = marchYear d'.year d'.month := by
    rcases lt_trichotomy (marchYear d.year d.month) (marchYear d'.year d'.month) with hy | hy | hy
    · have := daysBeforeYear_mono (Int.add_one_le_of_lt hy)
      omega
    · exact hy
    · have := daysBeforeYear_mono (Int.add_one_le_of_lt hy)
      omega
  have hyearDay : d.yearDay = d'.yearDay := by
    rw [hyear] at h
    omega
  have hmonth : marchMonth d.month = marchMonth d'.month := by
    rw [marchMonth_eq, marchMonth_eq, hyearDay]
  have hday : d.day = d'.day := by
    unfold yearDay at hyearDay
    rw [hmonth] at hyearDay
    omega
  have hm := d.month_mem
  have hm' := d'.month_mem
  unfold marchMonth at hmonth
  unfold marchYear at hyear
  ext
  · split_ifs at hmonth hyear <;> omega
  · split_ifs at hmonth <;> omega
  · exact hday

/-- Counting days. -/
theorem dayNumber_iterate_next (d : Date) (n : ℕ) : (next^[n] d).dayNumber = d.dayNumber + n := by
  induction n with
  | zero => rw [Function.iterate_zero_apply, Nat.cast_zero, Int.add_zero]
  | succ n ih => rw [Function.iterate_succ_apply', dayNumber_next, ih, Nat.cast_succ, Int.add_assoc]

/-- The day whose number is greater by `n` comes `n` days later. -/
theorem eq_iterate_next {d d' : Date} {n : ℕ} (h : d'.dayNumber = d.dayNumber + n) :
    d' = next^[n] d :=
  dayNumber_injective (h.trans (dayNumber_iterate_next d n).symm)

/-- The day number `n` is `n` days after the first. -/
theorem eq_iterate_next_epoch {d : Date} {n : ℕ} (h : d.dayNumber = n) : d = next^[n] epoch :=
  eq_iterate_next (by rw [h, dayNumber_epoch, Int.zero_add])

end Date

/-! ## The date of a day number

Centuries, years and months are cut off one after another: of the days up to the end of a
century, a year or a month, `146097 / 4`, `1461 / 4` and `153 / 5` fall on each of them. -/

section OfDayNumber

variable {a b c d e m : ℤ}

/-- A century has 36524 days, every fourth one more. -/
theorem centuries_eq (b : ℤ) : 146097 * b / 4 = 36524 * b + b / 4 := by
  omega

/-- In a century, a year has 365 days, every fourth one more. -/
theorem years_eq (d : ℤ) : 1461 * d / 4 = 365 * d + d / 4 := by
  omega

/-- Day `a` is day `c` of century `b`. -/
theorem dayOfCentury_mem (hb : b = (4 * a + 3) / 146097) (hc : c = a - 146097 * b / 4) :
    0 ≤ c ∧ c ≤ 36524 ∧ (c = 36524 → b % 4 = 3) := by
  rw [centuries_eq] at hc
  have hlow : 146097 * b ≤ 4 * a + 3 := by omega
  have hhigh : 4 * a + 3 < 146097 * (b + 1) := by omega
  clear hb
  refine ⟨by omega, by omega, fun hlast => ?_⟩
  omega

/-- Day `c` of a century is day `e` of its year `d`. -/
theorem dayOfYear_mem (hmem : 0 ≤ c ∧ c ≤ 36524) (hd : d = (4 * c + 3) / 1461)
    (he : e = c - 1461 * d / 4) :
    (0 ≤ d ∧ d ≤ 99) ∧ (0 ≤ e ∧ e ≤ 365) ∧ (e = 365 → d % 4 = 3 ∧ (d = 99 → c = 36524)) := by
  rw [years_eq] at he
  refine ⟨by omega, by omega, fun hlast => ⟨?_, fun hend => ?_⟩⟩
  · omega
  · omega

/-- Day `e` of a year lies in its month `m`. -/
theorem dayOfMonth_mem (hmem : 0 ≤ e ∧ e ≤ 365) (hm : m = (5 * e + 2) / 153) :
    (0 ≤ m ∧ m ≤ 11) ∧ (153 * m + 2) / 5 ≤ e ∧ e < (153 * (m + 1) + 2) / 5 := by
  omega

/-- The days before a year, by centuries. -/
theorem daysBeforeYear_century (b : ℤ) (hd : 0 ≤ d ∧ d ≤ 99) :
    daysBeforeYear (100 * b + d) = 146097 * b / 4 + 1461 * d / 4 := by
  have h4 : (100 * b + d) / 4 = 25 * b + d / 4 := by omega
  have h100 : (100 * b + d) / 100 = b := by omega
  have h400 : (100 * b + d) / 400 = b / 4 := by omega
  unfold daysBeforeYear
  rw [h4, h100, h400, centuries_eq, years_eq]
  omega

/-- A year ends with 29 February exactly if the next one is a leap year. -/
theorem isLeap_century (hd : 0 ≤ d ∧ d ≤ 99) :
    IsLeap (100 * b + d + 1) ↔ d % 4 = 3 ∧ (d = 99 → b % 4 = 3) := by
  unfold IsLeap
  omega

/-- The month `m` of a year that begins in March is a month of the calendar. -/
theorem calendarMonth_mem (hm : 0 ≤ m ∧ m ≤ 11) :
    1 ≤ m + 3 - 12 * (m / 10) ∧ m + 3 - 12 * (m / 10) ≤ 12 := by
  omega

/-- The day `e` of the year `y`, counted from 1 March, is a day of the calendar. -/
theorem date_mem {y : ℤ} (hm : 0 ≤ m ∧ m ≤ 11)
    (he : (153 * m + 2) / 5 ≤ e ∧ e < (153 * (m + 1) + 2) / 5) (hle : e ≤ 365)
    (hleap : e = 365 → IsLeap (y + 1)) :
    1 ≤ e - (153 * m + 2) / 5 + 1 ∧
      e - (153 * m + 2) / 5 + 1 ≤ daysInMonth (y + m / 10) (m + 3 - 12 * (m / 10)) := by
  obtain ⟨h0, h11⟩ := hm
  refine ⟨by omega, ?_⟩
  unfold daysInMonth
  interval_cases m
  case «11» =>
    by_cases hlast : e = 365
    · simp [hlast, hleap hlast]
    · norm_num at he ⊢
      split_ifs <;> omega
  all_goals
    norm_num at he ⊢
    omega

end OfDayNumber

namespace Date

/-- The date with a number. -/
def ofDayNumber (n : ℤ) : Date :=
  let a := n + 719468
  let b := (4 * a + 3) / 146097
  let c := a - 146097 * b / 4
  let d := (4 * c + 3) / 1461
  let e := c - 1461 * d / 4
  let m := (5 * e + 2) / 153
  have hc := dayOfCentury_mem (a := a) (b := b) (c := c) rfl rfl
  have he := dayOfYear_mem (c := c) (d := d) (e := e) ⟨hc.1, hc.2.1⟩ rfl rfl
  have hm := dayOfMonth_mem (e := e) (m := m) he.2.1 rfl
  { year := 100 * b + d + m / 10
    month := m + 3 - 12 * (m / 10)
    day := e - (153 * m + 2) / 5 + 1
    month_mem := calendarMonth_mem hm.1
    day_mem := date_mem hm.1 hm.2 he.2.1.2 fun hlast => (isLeap_century he.1).mpr
      ⟨(he.2.2 hlast).1, fun hd => hc.2.2 ((he.2.2 hlast).2 hd)⟩ }

theorem dayNumber_ofDayNumber (n : ℤ) : (ofDayNumber n).dayNumber = n := by
  unfold dayNumber Gregorian.dayNumber ofDayNumber
  dsimp only
  generalize hb : (4 * (n + 719468) + 3) / 146097 = b
  generalize hc : n + 719468 - 146097 * b / 4 = c
  generalize hd : (4 * c + 3) / 1461 = d
  generalize he : c - 1461 * d / 4 = e
  generalize hm : (5 * e + 2) / 153 = m
  obtain ⟨h0, h1, -⟩ := dayOfCentury_mem hb.symm hc.symm
  obtain ⟨hyears, hdays, -⟩ := dayOfYear_mem ⟨h0, h1⟩ hd.symm he.symm
  obtain ⟨hmonths, -, -⟩ := dayOfMonth_mem hdays hm.symm
  have hyear : marchYear (100 * b + d + m / 10) (m + 3 - 12 * (m / 10)) = 100 * b + d := by
    unfold marchYear
    split_ifs <;> omega
  have hmonth : marchMonth (m + 3 - 12 * (m / 10)) = m := by
    unfold marchMonth
    split_ifs <;> omega
  rw [hyear, hmonth, daysBeforeYear_century b hyears, daysBeforeMonth]
  omega

theorem ofDayNumber_dayNumber (d : Date) : ofDayNumber d.dayNumber = d :=
  dayNumber_injective (dayNumber_ofDayNumber _)

end Date

end Gregorian
