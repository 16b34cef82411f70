import SampleTools.Library.TextInt
import SampleTools.MyBase.FastDate

/-!
# Times as text

`unix2Full` prints a time as `YYYY-MM-DD HH:MM:SS.mmm`. `strtime2unix` reads the text with
`strptime` and `mktime` and adds the milliseconds; `strtime2int64` reads it with `sscanf` and
puts the fields together as the digits of one number.

## Main definitions

* `unix2Full`, `strtime2unix`, `strtime2int64`: the functions of the code
* `strptime`: the conversions of the library that the format uses
* `IsFull`: a text of the form, with its date and its time of day

## Main results

* `unix2Full_isFull`, `strtime2unix_isFull`, `strtime2int64_isFull`: what the functions do
* `textTime_round_trip`: printing and reading are inverse
* `timestamps_sortable`: the numbers read are ordered as the times are
-/

namespace SampleTools

open Gregorian Decimal TextInt

/-! ## The functions -/

/-- `unix2Full`; the buffer has 32 bytes. -/
def unix2Full (unixtime : ℤ) : List Char :=
  let tm := fastSecondToDate (unixtime.tdiv 1000) 8
  (print 4 (tm.year + 1900) ++ '-' :: (print 2 (tm.mon + 1) ++ '-' :: (print 2 tm.mday ++
    ' ' :: (print 2 tm.hour ++ ':' :: (print 2 tm.min ++ ':' :: (print 2 tm.sec ++
      '.' :: print 3 (toInt32 (unixtime.tmod 1000)))))))).take 31

/-- The digits of a number of `strptime`, at most `n` more: one is taken only if the number
with a zero in its place is not too large already. -/
def getDigits (max : ℕ) : ℕ → ℕ → List Char → ℕ × List Char
  | n + 1, val, c :: s =>
    if val * 10 ≤ max ∧ c.isDigit = true then
      getDigits max n (10 * val + (c.toNat - '0'.toNat)) s
    else (val, c :: s)
  | _, val, s => (val, s)

/-- A number of `strptime`: at most `n` digits after white space, between two bounds. -/
def getNumber (min max n : ℕ) (s : List Char) : Option (ℕ × List Char) :=
  let s := s.dropWhile isSpace
  let (val, rest) := getDigits max n 0 s
  if s.head?.any Char.isDigit = true ∧ min ≤ val ∧ val ≤ max then some (val, rest) else none

/-- A part of the format of `strptime`: `%Y`, `%m`, `%d`, `%H`, `%M`, `%S`, white space, or a
character. -/
inductive TimeField
  | year
  | mon
  | mday
  | hour
  | min
  | sec
  | space
  | lit (c : Char)
  deriving DecidableEq, Repr

/-- What is left and what is known after a part of the format, if it matches. -/
def TimeField.read : TimeField → List Char → Tm → Option (List Char × Tm)
  | .year, s, tm => (getNumber 0 9999 4 s).map fun r => (r.2, { tm with year := r.1 - 1900 })
  | .mon, s, tm => (getNumber 1 12 2 s).map fun r => (r.2, { tm with mon := r.1 - 1 })
  | .mday, s, tm => (getNumber 1 31 2 s).map fun r => (r.2, { tm with mday := r.1 })
  | .hour, s, tm => (getNumber 0 23 2 s).map fun r => (r.2, { tm with hour := r.1 })
  | .min, s, tm => (getNumber 0 59 2 s).map fun r => (r.2, { tm with min := r.1 })
  | .sec, s, tm => (getNumber 0 61 2 s).map fun r => (r.2, { tm with sec := r.1 })
  | .space, s, tm => some (s.dropWhile isSpace, tm)
  | .lit c, c' :: s, tm => if c' = c then some (s, tm) else none
  | .lit _, [], _ => none

/-- `strptime`; what was read before a part that does not match stays. -/
def strptime : List TimeField → List Char → Tm → Tm
  | [], _, tm => tm
  | field :: format, s, tm =>
    match field.read s tm with
    | some (rest, tm) => strptime format rest tm
    | none => tm

/-- `strtime2unix`; `now` is the time of the timer. -/
def strtime2unix (now : ℤ) (strtime : Option (List Char)) : ℤ :=
  match strtime with
  | none => 0
  | some s =>
    if s.length < 19 then 0
    else
      let tm := strptime [.year, .lit '-', .mon, .lit '-', .mday, .space, .hour, .lit ':', .min,
        .lit ':', .sec] s ⟨0, 0, 0, 0, 0, 0⟩
      let ms := if 19 < s.length then atoi (s.drop 20) else 0
      let ret := mktime tm * 1000 + ms
      if ret < 0 then now else ret

/-- `strtime2int64`, with every operation checked; the products of the month and all after it
are of type `int`. -/
def strtime2int64 (strtime : Option (List Char)) : Option ℤ :=
  match strtime with
  | none => some 0
  | some s =>
    if s.length < 19 then some 0
    else do
      let fields := scanf [.int, .lit '-', .int, .lit '-', .int, .space, .int, .lit ':', .int,
        .lit ':', .int, .lit '.', .int] s
      let year := fields.getD 0 0
      let month := fields.getD 1 0
      let day := fields.getD 2 0
      let hour := fields.getD 3 0
      let minute := fields.getD 4 0
      let second := fields.getD 5 0
      let ms := fields.getD 6 0
      let ret ← int64? (year * 10000000000)
      let ret ← int64? (ret + (← int? (month * 100000000)))
      let ret ← int64? (ret + (← int? (day * 1000000)))
      let ret ← int64? (ret + (← int? (hour * 10000)))
      let ret ← int64? (ret + (← int? (minute * 100)))
      let ret ← int64? (ret + second)
      int64? ((← int64? (ret * 1000)) + ms)

/-- `unixTimeToDateTime`, with every operation checked; the time is summed up in 64 bits. -/
def unixTimeToDateTime? (unixDatetime : ℤ) : Option (ℤ × ℤ) := do
  let tm ← fastSecondToDate? (unixDatetime.tdiv 1000) 8
  let date ← int? ((← int? (tm.year + 1900)) * 10000)
  let date ← int? (date + (← int? ((← int? (tm.mon + 1)) * 100)))
  let date ← int? (date + tm.mday)
  let time ← int64? (unixDatetime.tmod 1000 + (← int? (tm.hour * 10000000)))
  let time ← int64? (time + (← int? (tm.min * 100000)))
  let time ← int? (← int64? (time + (← int? (tm.sec * 1000))))
  return (date, time)

/-! ## The form -/

/-- A field of the form: as many digits as it is wide. -/
structure IsField (w : ℕ) (x : ℤ) (l : List Char) : Prop where
  numeral : IsNumeral l
  length : l.length = w
  value : (value l : ℤ) = x

/-- A text `YYYY-MM-DD HH:MM:SS.mmm`, with the date and the time of day it shows. -/
def IsFull (s : List Char) (d : Date) (h : TimeOfDay) : Prop :=
  ∃ year month day hour min sec ms, IsField 4 d.year year ∧ IsField 2 d.month month ∧
    IsField 2 d.day day ∧ IsField 2 h.hour hour ∧ IsField 2 h.min min ∧ IsField 2 h.sec sec ∧
    IsField 3 h.ms ms ∧
    s = year ++ '-' :: (month ++ '-' :: (day ++ ' ' :: (hour ++ ':' :: (min ++
      ':' :: (sec ++ '.' :: ms)))))

namespace IsField

variable {w : ℕ} {x : ℤ} {l l' : List Char}

theorem print (hw : 0 < w) (h : 0 ≤ x ∧ x < 10 ^ w) : IsField w x (print w x) := by
  rw [print_of_nonneg h.1]
  have hlt : x.toNat < 10 ^ w := by
    have hpow : ((10 ^ w : ℕ) : ℤ) = 10 ^ w := by simp
    omega
  exact ⟨.pad _ _, length_pad hw hlt, by rw [value_pad, Int.toNat_of_nonneg h.1]⟩

theorem unique (h : IsField w x l) (h' : IsField w x l') : l = l' :=
  (value_inj h.numeral h'.numeral (h.length.trans h'.length.symm)).mp
    (Int.natCast_inj.mp (h.value.trans h'.value.symm))

theorem ne_nil (h : IsField (w + 1) x l) : l ≠ [] := by
  rintro rfl
  cases h.length

/-- A field is read as its value, up to a character that is no digit. -/
theorem scan (h : IsField (w + 1) x l) (c : Char) (hc : c.isDigit = false) (rest : List Char) :
    scan (l ++ c :: rest) = (some x, c :: rest) := by
  rw [scan_numeral h.numeral h.ne_nil (endsNumeral_cons.mpr hc), h.value]

theorem scan_end (h : IsField (w + 1) x l) : TextInt.scan l = (some x, []) := by
  have hscan := scan_numeral h.numeral h.ne_nil endsNumeral_nil
  rwa [List.append_nil, h.value] at hscan

theorem skipSpace (h : IsField (w + 1) x l) (rest : List Char) :
    (' ' :: (l ++ rest)).dropWhile isSpace = l ++ rest := by
  rw [List.dropWhile_cons_of_pos (by decide), skipSpace_numeral h.numeral h.ne_nil]

end IsField

/-- A date and a time of day have one text. -/
theorem IsFull.unique {s s' : List Char} {d : Date} {h : TimeOfDay} (hs : IsFull s d h)
    (hs' : IsFull s' d h) : s = s' := by
  obtain ⟨_, _, _, _, _, _, _, hy, hmo, hd, hh, hmi, hsec, hms, rfl⟩ := hs
  obtain ⟨_, _, _, _, _, _, _, hy', hmo', hd', hh', hmi', hsec', hms', rfl⟩ := hs'
  rw [hy.unique hy', hmo.unique hmo', hd.unique hd', hh.unique hh', hmi.unique hmi',
    hsec.unique hsec', hms.unique hms']

theorem IsFull.length {s : List Char} {d : Date} {h : TimeOfDay} (hs : IsFull s d h) :
    s.length = 23 := by
  obtain ⟨_, _, _, _, _, _, _, hy, hmo, hd, hh, hmi, hsec, hms, rfl⟩ := hs
  simp only [List.length_append, List.length_cons, hy.length, hmo.length, hd.length, hh.length,
    hmi.length, hsec.length, hms.length]

/-- The years of the range have four digits. -/
theorem year_dateAt_mem {t : ℤ} (h : 0 ≤ t ∧ t < 60000 * 2 ^ 31) :
    0 ≤ (dateAt t).year ∧ (dateAt t).year < 10 ^ 4 := by
  obtain ⟨h0, hlt⟩ := h
  constructor
  · have hinstant : 0 ≤ instant (dateAt t) (timeAt t) := by rwa [instant_dateAt_timeAt]
    exact (year_pos_of_instant hinstant).le
  · have hnumber : (dateAt t).dayNumber = (t / 1000 / 3600 + 8) / 24 :=
      Date.dayNumber_ofDayNumber _
    have hlast : daysBeforeYear 9999 = 3652059 := by decide
    have hyear : (dateAt t).year ≤ 9999 := Date.year_le (by omega)
    omega

/-- The fields of a date and a time of day, printed. -/
def fullText (d : Date) (h : TimeOfDay) : List Char :=
  print 4 d.year ++ '-' :: (print 2 d.month ++ '-' :: (print 2 d.day ++ ' ' :: (print 2 h.hour ++
    ':' :: (print 2 h.min ++ ':' :: (print 2 h.sec ++ '.' :: print 3 h.ms)))))

theorem fullText_isFull {d : Date} (hyear : 0 ≤ d.year ∧ d.year < 10 ^ 4) (h : TimeOfDay) :
    IsFull (fullText d h) d h := by
  have hmonth := d.month_mem
  have hday := d.day_mem_31
  have hhour := h.hour_mem
  have hmin := h.min_mem
  have hsec := h.sec_mem
  exact ⟨_, _, _, _, _, _, _, .print (by decide) hyear, .print (by decide) (by omega),
    .print (by decide) (by omega), .print (by decide) (by omega), .print (by decide) (by omega),
    .print (by decide) (by omega), .print (by decide) h.ms_mem, rfl⟩

/-- The fields of a time of the range are those of its date and its time of day. -/
theorem fastSecondToDate_dateAt {t : ℤ} (h : 0 ≤ t ∧ t < 60000 * 2 ^ 31) :
    fastSecondToDate (t.tdiv 1000) 8 = ⟨(timeAt t).sec, (timeAt t).min, (timeAt t).hour,
      (dateAt t).day, (dateAt t).month - 1, (dateAt t).year - 1900⟩ := by
  rw [Int.tdiv_eq_ediv_of_nonneg h.1]
  exact fastSecondToDate_eq (by omega) (by omega)

/-- A time of the range is printed in the form, with its date and its time of day. -/
theorem unix2Full_isFull {t : ℤ} (h : 0 ≤ t ∧ t < 60000 * 2 ^ 31) :
    IsFull (unix2Full t) (dateAt t) (timeAt t) := by
  have hfull := fullText_isFull (year_dateAt_mem h) (timeAt t)
  have hms : toInt32 (t.tmod 1000) = (timeAt t).ms := by
    rw [Int.tmod_eq_emod_of_nonneg h.1]
    exact toInt32_of_mem (by omega)
  have hprint : unix2Full t = (fullText (dateAt t) (timeAt t)).take 31 := by
    unfold unix2Full
    rw [fastSecondToDate_dateAt h, hms]
    dsimp only
    rw [sub_add_cancel, sub_add_cancel]
    rfl
  rw [hprint, List.take_of_length_le (hfull.length.trans_le (by decide))]
  exact hfull

/-! ## Reading -/

theorem getDigits_numeral {max val : ℕ} {l rest : List Char} (hl : IsNumeral l)
    (hmax : Nat.ofDigitChars 10 l val ≤ max) :
    getDigits max l.length val (l ++ rest) = (Nat.ofDigitChars 10 l val, rest) := by
  induction l generalizing val with
  | nil => cases rest <;> rfl
  | cons c l ih =>
    obtain ⟨hc, hl⟩ := IsNumeral.cons_iff.mp hl
    rw [Nat.ofDigitChars_cons] at hmax ⊢
    -- the digits so far are a part of the number, with a zero in place of the next
    have hhead : val * 10 ≤ max := by
      rw [Nat.ofDigitChars_eq_ofDigitChars_zero] at hmax
      have hpow : 1 ≤ 10 ^ l.length := Nat.one_le_pow _ _ (by decide)
      have hmul := Nat.mul_le_mul_right (10 * val + (c.toNat - '0'.toNat)) hpow
      omega
    rw [List.length_cons, List.cons_append, getDigits, if_pos ⟨hhead, hc⟩]
    exact ih hl hmax

/-- A field of the form is read, whatever follows. -/
theorem getNumber_isField (min max : ℕ) {w : ℕ} {x : ℤ} {l rest : List Char}
    (h : IsField (w + 1) x l) (hx : (min : ℤ) ≤ x ∧ x ≤ max) :
    getNumber min max (w + 1) (l ++ rest) = some (value l, rest) := by
  have hne := h.ne_nil
  obtain ⟨hnumeral, hlen, hvalue⟩ := h
  have hread : getDigits max (w + 1) 0 (l ++ rest) = (value l, rest) :=
    hlen ▸ getDigits_numeral hnumeral (show value l ≤ max by omega)
  unfold getNumber
  simp only [skipSpace_numeral hnumeral hne, hread]
  refine if_pos ⟨?_, by omega, by omega⟩
  cases l with
  | nil => exact absurd rfl hne
  | cons c l => exact (IsNumeral.cons_iff.mp hnumeral).1

/-- A part of the format that matches. -/
theorem strptime_cons {field : TimeField} {s rest : List Char} {tm tm' : Tm}
    (h : field.read s tm = some (rest, tm')) (format : List TimeField) :
    strptime (field :: format) s tm = strptime format rest tm' := by
  rw [strptime, h]

theorem read_lit (c : Char) (s : List Char) (tm : Tm) :
    (TimeField.lit c).read (c :: s) tm = some (s, tm) := if_pos rfl

section Fields

variable {x : ℤ} {l : List Char}

theorem IsField.read_year (h : IsField 4 x l) (hx : 0 ≤ x ∧ x ≤ 9999) (rest : List Char)
    (tm : Tm) :
    TimeField.year.read (l ++ rest) tm = some (rest, { tm with year := x - 1900 }) := by
  rw [TimeField.read, getNumber_isField 0 9999 h hx, Option.map_some, h.value]

theorem IsField.read_mon (h : IsField 2 x l) (hx : 1 ≤ x ∧ x ≤ 12) (rest : List Char) (tm : Tm) :
    TimeField.mon.read (l ++ rest) tm = some (rest, { tm with mon := x - 1 }) := by
  rw [TimeField.read, getNumber_isField 1 12 h hx, Option.map_some, h.value]

theorem IsField.read_mday (h : IsField 2 x l) (hx : 1 ≤ x ∧ x ≤ 31) (rest : List Char)
    (tm : Tm) : TimeField.mday.read (l ++ rest) tm = some (rest, { tm with mday := x }) := by
  rw [TimeField.read, getNumber_isField 1 31 h hx, Option.map_some, h.value]

theorem IsField.read_space (h : IsField 2 x l) (rest : List Char) (tm : Tm) :
    TimeField.space.read (' ' :: (l ++ rest)) tm = some (l ++ rest, tm) := by
  rw [TimeField.read, h.skipSpace]

theorem IsField.read_hour (h : IsField 2 x l) (hx : 0 ≤ x ∧ x ≤ 23) (rest : List Char)
    (tm : Tm) : TimeField.hour.read (l ++ rest) tm = some (rest, { tm with hour := x }) := by
  rw [TimeField.read, getNumber_isField 0 23 h hx, Option.map_some, h.value]

theorem IsField.read_min (h : IsField 2 x l) (hx : 0 ≤ x ∧ x ≤ 59) (rest : List Char) (tm : Tm) :
    TimeField.min.read (l ++ rest) tm = some (rest, { tm with min := x }) := by
  rw [TimeField.read, getNumber_isField 0 59 h hx, Option.map_some, h.value]

theorem IsField.read_sec (h : IsField 2 x l) (hx : 0 ≤ x ∧ x ≤ 61) (rest : List Char) (tm : Tm) :
    TimeField.sec.read (l ++ rest) tm = some (rest, { tm with sec := x }) := by
  rw [TimeField.read, getNumber_isField 0 61 h hx, Option.map_some, h.value]

end Fields

section Reading

variable {s : List Char} {d : Date} {h : TimeOfDay}

/-- The text is read as the time it shows. -/
theorem strtime2unix_isFull (hs : IsFull s d h) (hpos : 0 ≤ instant d h) (now : ℤ) :
    strtime2unix now (some s) = instant d h := by
  have hlen := hs.length
  obtain ⟨year, month, day, hour, min, sec, ms, hy, hmo, hd, hh, hmi, hsec, hms, rfl⟩ := hs
  have hyear := year_pos_of_instant hpos
  have hyear' : d.year ≤ 9999 := by
    have hlt := value_lt hy.numeral
    rw [hy.length] at hlt
    have hvalue := hy.value
    omega
  have hday := d.day_mem_31
  have hhour := h.hour_mem
  have hmin := h.min_mem
  have hsec' := h.sec_mem
  have hmsec : atoi ms = h.ms := (atoi_numeral hms.numeral hms.ne_nil).trans hms.value
  -- the milliseconds begin after twenty characters
  have hdrop : (year ++ '-' :: (month ++ '-' :: (day ++ ' ' :: (hour ++ ':' :: (min ++
      ':' :: (sec ++ '.' :: ms)))))).drop 20 = ms := by
    have hsplit : year ++ '-' :: (month ++ '-' :: (day ++ ' ' :: (hour ++ ':' :: (min ++
        ':' :: (sec ++ '.' :: ms))))) = (year ++ '-' :: (month ++ '-' :: (day ++
          ' ' :: (hour ++ ':' :: (min ++ ':' :: (sec ++ ['.'])))))) ++ ms := by
      simp only [List.append_assoc, List.cons_append, List.nil_append]
    rw [hsplit]
    refine List.drop_left' ?_
    simp only [List.length_append, List.length_cons, List.length_nil, hy.length, hmo.length,
      hd.length, hh.length, hmi.length, hsec.length]
  have htm : strptime [.year, .lit '-', .mon, .lit '-', .mday, .space, .hour, .lit ':', .min,
      .lit ':', .sec] (year ++ '-' :: (month ++ '-' :: (day ++ ' ' :: (hour ++ ':' :: (min ++
      ':' :: (sec ++ '.' :: ms)))))) ⟨0, 0, 0, 0, 0, 0⟩ =
      ⟨h.sec, h.min, h.hour, d.day, d.month - 1, d.year - 1900⟩ := by
    rw [strptime_cons (hy.read_year ⟨by omega, hyear'⟩ _ _), strptime_cons (read_lit ..),
      strptime_cons (hmo.read_mon d.month_mem _ _), strptime_cons (read_lit ..),
      strptime_cons (hd.read_mday hday _ _), strptime_cons (hh.read_space _ _),
      strptime_cons (hh.read_hour ⟨hhour.1, by omega⟩ _ _), strptime_cons (read_lit ..),
      strptime_cons (hmi.read_min ⟨hmin.1, by omega⟩ _ _), strptime_cons (read_lit ..),
      strptime_cons (hsec.read_sec ⟨hsec'.1, by omega⟩ _ _), strptime]
  unfold strtime2unix
  simp only [hlen, hdrop, htm, hmsec, mktime_date, not_lt.mpr hpos, Nat.reduceLT, if_true,
    if_false]

theorem strtime2int64_isFull (hs : IsFull s d h) :
    strtime2int64 (some s) = some (ymd d * 10 ^ 9 + h.hmss) := by
  have hlen := hs.length
  obtain ⟨year, month, day, hour, min, sec, ms, hy, hmo, hd, hh, hmi, hsec, hms, rfl⟩ := hs
  have hyear : 0 ≤ d.year ∧ d.year ≤ 9999 := by
    have hlt := value_lt hy.numeral
    rw [hy.length] at hlt
    have hvalue := hy.value
    omega
  have hmonth := d.month_mem
  have hday := d.day_mem_31
  have hhour := h.hour_mem
  have hmin := h.min_mem
  have hsec' := h.sec_mem
  have hmsec := h.ms_mem
  unfold strtime2int64
  simp only [hlen, scanf, if_true, hy.scan '-' (by decide), hmo.scan '-' (by decide),
    hd.scan ' ' (by decide), hh.skipSpace, hh.scan ':' (by decide), hmi.scan ':' (by decide),
    hsec.scan '.' (by decide), hms.scan_end, Nat.reduceLT, if_false, List.getD_cons_zero,
    List.getD_cons_succ]
  simp (disch := omega) only [↓checked_bind, checked_of_fits]
  rw [Option.some.injEq, ymd, TimeOfDay.hmss]
  omega

end Reading

/-! ## The round trip -/

/-- **The round trip.** A time of the range is read back from its text, and a text of the form
that shows a time of the range is printed again. -/
theorem textTime_round_trip (now : ℤ) :
    (∀ t, 0 ≤ t ∧ t < 60000 * 2 ^ 31 → strtime2unix now (some (unix2Full t)) = t) ∧
      ∀ s d h, IsFull s d h → 0 ≤ instant d h ∧ instant d h < 60000 * 2 ^ 31 →
        unix2Full (strtime2unix now (some s)) = s := by
  constructor
  · intro t ht
    have hinstant := instant_dateAt_timeAt t
    rw [strtime2unix_isFull (unix2Full_isFull ht) (hinstant.symm ▸ ht.1), hinstant]
  · intro s d h hs hrange
    have hfull := unix2Full_isFull hrange
    rw [dateAt_instant, timeAt_instant] at hfull
    rw [strtime2unix_isFull hs hrange.1]
    exact hfull.unique hs

/-- The last second of 29 February 2000. -/
theorem textTime_round_trip_leap_day :
    let s := "2000-02-29 23:59:59.007".toList
    let t := 951839999007
    strtime2unix 0 (some (unix2Full t)) = t ∧ unix2Full (strtime2unix 0 (some s)) = s := by
  let d : Date := ⟨2000, 2, 29, by decide, by decide⟩
  let h : TimeOfDay := ⟨23, 59, 59, 7, by decide, by decide, by decide, by decide⟩
  have hs : fullText d h = "2000-02-29 23:59:59.007".toList := by decide
  exact ⟨(textTime_round_trip 0).1 _ (by decide),
    (textTime_round_trip 0).2 _ d h (hs ▸ fullText_isFull (by decide) h) (by decide)⟩

/-! ## Sortable numbers -/

/-- No operation of `unixTimeToDateTime` overflows. -/
theorem unixTimeToDateTime?_eq {t : ℤ} (h : 0 ≤ t ∧ t < 60000 * 2 ^ 31) :
    unixTimeToDateTime? t = some (unixTimeToDateTime t) := by
  have hyear := year_dateAt_mem h
  have hmonth := (dateAt t).month_mem
  have hday := (dateAt t).day_mem_31
  have hhour := (timeAt t).hour_mem
  have hmin := (timeAt t).min_mem
  have hsec := (timeAt t).sec_mem
  have hmsec := (timeAt t).ms_mem
  have hms : t.tmod 1000 = (timeAt t).ms := Int.tmod_eq_emod_of_nonneg h.1
  have hs : 0 ≤ t.tdiv 1000 ∧ t.tdiv 1000 < 60 * 2 ^ 31 := by
    rw [Int.tdiv_eq_ediv_of_nonneg h.1]
    omega
  unfold unixTimeToDateTime?
  rw [fastSecondToDate?_eq hs (by decide), fastSecondToDate_dateAt h, hms,
    unixTimeToDateTime_eq h, Option.bind_eq_bind, Option.bind_some]
  simp (disch := omega) only [↓checked_bind]
  refine congrArg some (Prod.ext ?_ ?_)
  · dsimp only
    rw [ymd]
    omega
  · dsimp only
    rw [TimeOfDay.hmss]
    omega

/-- The day after has the greater number. -/
theorem ymd_lt_next (d : Date) : ymd d < ymd d.next := by
  have hmonth := d.month_mem
  have hday := d.day_mem
  have hlast := daysInMonth_le d.year d.month
  unfold Date.next ymd
  split_ifs <;>
  · dsimp only
    omega

/-- Dates are ordered as their packed numbers are. -/
theorem ymd_lt_of_dayNumber_lt {d d' : Date} (h : d.dayNumber < d'.dayNumber) : ymd d < ymd d' := by
  obtain ⟨n, hn⟩ : ∃ n : ℕ, d'.dayNumber = d.dayNumber + ((n + 1 : ℕ) : ℤ) :=
    ⟨(d'.dayNumber - d.dayNumber - 1).toNat, by omega⟩
  rw [Date.eq_iterate_next hn]
  clear hn h
  induction n with
  | zero => exact ymd_lt_next d
  | succ n ih =>
    rw [Function.iterate_succ_apply']
    exact ih.trans (ymd_lt_next _)

theorem TimeOfDay.hmss_mem (h : TimeOfDay) : 0 ≤ h.hmss ∧ h.hmss < 10 ^ 9 := by
  have hhour := h.hour_mem
  have hmin := h.min_mem
  have hsec := h.sec_mem
  have hms := h.ms_mem
  unfold TimeOfDay.hmss
  omega

theorem hmss_lt_of_instant_lt {d : Date} {h h' : TimeOfDay} (hlt : instant d h < instant d h') :
    h.hmss < h'.hmss := by
  have hmin := h.min_mem
  have hsec := h.sec_mem
  have hms := h.ms_mem
  have hmin' := h'.min_mem
  have hsec' := h'.sec_mem
  have hms' := h'.ms_mem
  unfold instant at hlt
  unfold TimeOfDay.hmss
  omega

/-- The number of a time, `yyyymmddHHMMSSsss`, grows with the time. -/
theorem packed_lt {t₁ t₂ : ℤ} (hlt : t₁ < t₂) :
    ymd (dateAt t₁) * 10 ^ 9 + (timeAt t₁).hmss < ymd (dateAt t₂) * 10 ^ 9 + (timeAt t₂).hmss := by
  have h₁ := (timeAt t₁).hmss_mem
  have h₂ := (timeAt t₂).hmss_mem
  have hdays : (dateAt t₁).dayNumber ≤ (dateAt t₂).dayNumber := by
    unfold dateAt
    rw [Date.dayNumber_ofDayNumber, Date.dayNumber_ofDayNumber]
    omega
  rcases hdays.lt_or_eq with hday | hday
  · have hymd := ymd_lt_of_dayNumber_lt hday
    omega
  · have hdate : dateAt t₁ = dateAt t₂ := Date.dayNumber_injective hday
    have hinstant : instant (dateAt t₂) (timeAt t₁) < instant (dateAt t₂) (timeAt t₂) := by
      rw [instant_dateAt_timeAt, ← hdate, instant_dateAt_timeAt]
      exact hlt
    have hhmss := hmss_lt_of_instant_lt hinstant
    rw [hdate]
    omega

/-- **Sortable timestamps.** The numbers read from the texts of two times are ordered as the
times are; each is the date and the time of `unixTimeToDateTime`, one after the other, and no
operation overflows. -/
theorem timestamps_sortable :
    (∀ t₁ t₂, 0 ≤ t₁ → t₁ < t₂ → t₂ < 60000 * 2 ^ 31 →
      ∃ n₁ n₂, strtime2int64 (some (unix2Full t₁)) = some n₁ ∧
        strtime2int64 (some (unix2Full t₂)) = some n₂ ∧ n₁ < n₂) ∧
      ∀ t, 0 ≤ t ∧ t < 60000 * 2 ^ 31 →
        unixTimeToDateTime? t = some (unixTimeToDateTime t) ∧
          strtime2int64 (some (unix2Full t)) =
            some ((unixTimeToDateTime t).1 * 10 ^ 9 + (unixTimeToDateTime t).2) := by
  constructor
  · intro t₁ t₂ h0 hlt hmax
    exact ⟨_, _, strtime2int64_isFull (unix2Full_isFull ⟨h0, hlt.trans hmax⟩),
      strtime2int64_isFull (unix2Full_isFull ⟨h0.trans hlt.le, hmax⟩), packed_lt hlt⟩
  · intro t ht
    rw [strtime2int64_isFull (unix2Full_isFull ht), unixTimeToDateTime_eq ht]
    exact ⟨unixTimeToDateTime_eq ht ▸ unixTimeToDateTime?_eq ht, rfl⟩

/-- The last millisecond of 1999 in China, and the one after it. -/
theorem timestamps_sortable_new_year :
    let t₁ := 946655999999
    let t₂ := 946656000000
    (∃ n₁ n₂, strtime2int64 (some (unix2Full t₁)) = some n₁ ∧
      strtime2int64 (some (unix2Full t₂)) = some n₂ ∧ n₁ < n₂) ∧
      unixTimeToDateTime? t₁ = some (unixTimeToDateTime t₁) ∧
      strtime2int64 (some (unix2Full t₁)) =
        some ((unixTimeToDateTime t₁).1 * 10 ^ 9 + (unixTimeToDateTime t₁).2) :=
  ⟨timestamps_sortable.1 _ _ (by decide) (by decide) (by decide),
    timestamps_sortable.2 _ (by decide)⟩

end SampleTools
