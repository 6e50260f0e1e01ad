import Mathlib.Data.Int.Notation
import Mathlib.Logic.Function.Basic

/-!
# Calendar time

A time in seconds since the beginning of 1970 is broken down by the Gregorian calendar. Years
are counted from March on, so that the leap day is the last one of its year, and 400 of them
are an era. The seconds can be recovered, so that no two times share a date and a time of day.
-/

namespace Calendar

/-- A year that begins in March, within its era, and the day of that year. -/
def yearOfEra (day : ℤ) : ℤ × ℤ :=
  let century := min 3 (day / 36524)
  let dayOfCentury := day - 36524 * century
  let year := min 3 (dayOfCentury % 1461 / 365)
  (100 * century + 4 * (dayOfCentury / 1461) + year, dayOfCentury % 1461 - 365 * year)

/-- The days of an era before a year. -/
def daysBefore (year : ℤ) : ℤ := 365 * year + year / 4 - year / 100

/-- A day. -/
structure Date where
  year : ℤ
  /-- From 1 to 12. -/
  month : ℤ
  /-- From 1 on. -/
  day : ℤ
  deriving DecidableEq, Repr

/-- The date of a day, counted from the first of January 1970. -/
def date (days : ℤ) : Date :=
  let day := days + 719468
  let (year, dayOfYear) := yearOfEra (day % 146097)
  let month := (5 * dayOfYear + 2) / 153
  let dayOfMonth := dayOfYear - (153 * month + 2) / 5 + 1
  let year := 400 * (day / 146097) + year
  if month < 10 then ⟨year, month + 3, dayOfMonth⟩ else ⟨year + 1, month - 9, dayOfMonth⟩

/-- The day of a date. -/
def days (d : Date) : ℤ :=
  let year := if d.month ≤ 2 then d.year - 1 else d.year
  let month := if d.month ≤ 2 then d.month + 9 else d.month - 3
  146097 * (year / 400) + daysBefore (year % 400) + (153 * month + 2) / 5 + d.day - 1 - 719468

/-- `struct tm`, as far as it is printed. -/
structure Tm where
  tmYear : ℤ
  tmMon : ℤ
  tmMday : ℤ
  tmHour : ℤ
  tmMin : ℤ
  tmSec : ℤ
  deriving DecidableEq, Repr

/-- `gmtime_r`. -/
def gmtime (time : ℤ) : Tm :=
  let d := date (time / 86400)
  let second := time % 86400
  { tmYear := d.year - 1900
    tmMon := d.month - 1
    tmMday := d.day
    tmHour := second / 3600
    tmMin := second % 3600 / 60
    tmSec := second % 60 }

/-- The time that has been broken down. -/
def timegm (tm : Tm) : ℤ :=
  86400 * days ⟨tm.tmYear + 1900, tm.tmMon + 1, tm.tmMday⟩ + 3600 * tm.tmHour + 60 * tm.tmMin +
    tm.tmSec

/-- Years in an era, and days in a year. -/
theorem yearOfEra_spec {day : ℤ} (hnonneg : 0 ≤ day) (hlt : day < 146097) :
    (0 ≤ (yearOfEra day).1 ∧ (yearOfEra day).1 < 400) ∧
      (0 ≤ (yearOfEra day).2 ∧ (yearOfEra day).2 ≤ 365) ∧
      daysBefore (yearOfEra day).1 + (yearOfEra day).2 = day := by
  rw [yearOfEra]
  have hcentury : 0 ≤ min 3 (day / 36524) ∧ min 3 (day / 36524) ≤ 3 ∧
      0 ≤ day - 36524 * min 3 (day / 36524) ∧ day - 36524 * min 3 (day / 36524) ≤ 36524 := by
    omega
  generalize min 3 (day / 36524) = century at *
  generalize hr : day - 36524 * century = r at *
  have hcycle : 0 ≤ r / 1461 ∧ r / 1461 ≤ 24 ∧ 0 ≤ r % 1461 ∧ r % 1461 < 1461 ∧
      r = 1461 * (r / 1461) + r % 1461 := by omega
  generalize r / 1461 = cycle at *
  generalize r % 1461 = s at *
  have hyear : 0 ≤ min 3 (s / 365) ∧ min 3 (s / 365) ≤ 3 ∧ 0 ≤ s - 365 * min 3 (s / 365) ∧
      s - 365 * min 3 (s / 365) ≤ 365 := by omega
  generalize min 3 (s / 365) = year at *
  have hleap : (100 * century + 4 * cycle + year) / 4 = 25 * century + cycle := by omega
  have hskip : (100 * century + 4 * cycle + year) / 100 = century := by omega
  rw [daysBefore, hleap, hskip]
  omega

/-- The day is recovered from its date. -/
theorem days_date (n : ℤ) : days (date n) = n := by
  have hera : n + 719468 = 146097 * ((n + 719468) / 146097) + (n + 719468) % 146097 := by omega
  have hspec := @yearOfEra_spec ((n + 719468) % 146097) (by omega) (by omega)
  rw [date]
  generalize (n + 719468) / 146097 = era at *
  generalize (n + 719468) % 146097 = day at *
  generalize yearOfEra day = y at *
  obtain ⟨year, dayOfYear⟩ := y
  obtain ⟨hyear, hday, hsum⟩ := hspec
  dsimp only at hyear hday hsum ⊢
  have hmonth : 0 ≤ (5 * dayOfYear + 2) / 153 ∧ (5 * dayOfYear + 2) / 153 ≤ 11 := by omega
  generalize (5 * dayOfYear + 2) / 153 = month at *
  have hdiv : (400 * era + year) / 400 = era := by omega
  have hmod : (400 * era + year) % 400 = year := by omega
  split
  · rw [days]
    dsimp only
    rw [if_neg (by omega), if_neg (by omega), Int.add_sub_cancel, hdiv, hmod]
    omega
  · rw [days]
    dsimp only
    rw [if_pos (by omega), if_pos (by omega), Int.add_sub_cancel, Int.sub_add_cancel, hdiv, hmod]
    omega

/-- The fields that are printed with two digits. -/
structure Tm.Regular (tm : Tm) : Prop where
  mon : 0 ≤ tm.tmMon ∧ tm.tmMon < 12
  mday : 1 ≤ tm.tmMday ∧ tm.tmMday ≤ 31
  hour : 0 ≤ tm.tmHour ∧ tm.tmHour < 24
  min : 0 ≤ tm.tmMin ∧ tm.tmMin < 60
  sec : 0 ≤ tm.tmSec ∧ tm.tmSec < 60

/-- The month and the day are in their ranges. -/
theorem date_regular (n : ℤ) :
    (1 ≤ (date n).month ∧ (date n).month ≤ 12) ∧ 1 ≤ (date n).day ∧ (date n).day ≤ 31 := by
  have hspec := @yearOfEra_spec ((n + 719468) % 146097) (by omega) (by omega)
  rw [date]
  generalize yearOfEra ((n + 719468) % 146097) = y at *
  obtain ⟨year, dayOfYear⟩ := y
  obtain ⟨-, hday, -⟩ := hspec
  dsimp only at hday ⊢
  split
  · dsimp only
    omega
  · dsimp only
    omega

/-- `gmtime` gives a regular time. -/
theorem gmtime_regular (time : ℤ) : (gmtime time).Regular := by
  obtain ⟨⟨hmonth, hmonth'⟩, hday, hday'⟩ := date_regular (time / 86400)
  constructor
  all_goals
    rw [gmtime]
    dsimp only
    omega

/-- The time is recovered from its parts. -/
theorem timegm_gmtime (time : ℤ) : timegm (gmtime time) = time := by
  rw [timegm, gmtime]
  dsimp only
  rw [Int.sub_add_cancel, Int.sub_add_cancel, days_date]
  omega

/-- Different seconds have different calendar times. -/
theorem gmtime_injective : Function.Injective gmtime :=
  Function.LeftInverse.injective timegm_gmtime

/-! ## Later times have later dates -/

/-- A later year begins at least 365 days later. -/
theorem daysBefore_lt {year year' : ℤ} (h : year < year') :
    daysBefore year + 365 ≤ daysBefore year' := by
  have hskip (y : ℤ) : y / 100 = y / 4 / 25 := by omega
  rw [daysBefore, daysBefore, hskip, hskip]
  omega

/-- Later days of an era are in later years, or later in the same one. -/
theorem yearOfEra_lt {day day' : ℤ} (hnonneg : 0 ≤ day) (hlt : day < day') (hlt' : day' < 146097) :
    (yearOfEra day).1 < (yearOfEra day').1 ∨
      (yearOfEra day).1 = (yearOfEra day').1 ∧ (yearOfEra day).2 < (yearOfEra day').2 := by
  obtain ⟨-, hday, hsum⟩ := yearOfEra_spec hnonneg (Int.lt_trans hlt hlt')
  obtain ⟨-, hday', hsum'⟩ := yearOfEra_spec (Int.le_trans hnonneg (Int.le_of_lt hlt)) hlt'
  rcases Int.lt_trichotomy (yearOfEra day).1 (yearOfEra day').1 with hyear | hyear | hyear
  · exact .inl hyear
  · rw [hyear] at hsum
    omega
  · have hdays := daysBefore_lt hyear
    omega

/-- A later day has a later date. -/
theorem date_lt {n n' : ℤ} (h : n < n') :
    (date n).year < (date n').year ∨ (date n).year = (date n').year ∧
      ((date n).month < (date n').month ∨ (date n).month = (date n').month ∧
        (date n).day < (date n').day) := by
  obtain ⟨hyear, hday, -⟩ := @yearOfEra_spec ((n + 719468) % 146097) (by omega) (by omega)
  obtain ⟨hyear', hday', -⟩ := @yearOfEra_spec ((n' + 719468) % 146097) (by omega) (by omega)
  have hera : (n + 719468) / 146097 < (n' + 719468) / 146097 ∨
      (n + 719468) / 146097 = (n' + 719468) / 146097 ∧
        (n + 719468) % 146097 < (n' + 719468) % 146097 := by omega
  have horder := hera.imp_right fun ⟨heq, hlt⟩ =>
    And.intro heq (yearOfEra_lt (by omega) hlt (by omega))
  rw [date, date]
  clear hera
  generalize yearOfEra ((n + 719468) % 146097) = y at *
  generalize yearOfEra ((n' + 719468) % 146097) = y' at *
  generalize (n + 719468) / 146097 = era at *
  generalize (n' + 719468) / 146097 = era' at *
  obtain ⟨year, dayOfYear⟩ := y
  obtain ⟨year', dayOfYear'⟩ := y'
  dsimp only at *
  have hmonth : 0 ≤ (5 * dayOfYear + 2) / 153 ∧ (5 * dayOfYear + 2) / 153 ≤ 11 := by omega
  have hmonth' : 0 ≤ (5 * dayOfYear' + 2) / 153 ∧ (5 * dayOfYear' + 2) / 153 ≤ 11 := by omega
  -- In the years that begin in March a later day is in a later month, or later in the same one.
  have hmarch : 400 * era + year < 400 * era' + year' ∨
      400 * era + year = 400 * era' + year' ∧ dayOfYear < dayOfYear' ∧
        (5 * dayOfYear + 2) / 153 ≤ (5 * dayOfYear' + 2) / 153 := by omega
  generalize (5 * dayOfYear + 2) / 153 = month at *
  generalize (5 * dayOfYear' + 2) / 153 = month' at *
  generalize 400 * era + year = a at *
  generalize 400 * era' + year' = a' at *
  split
  · split
    · grind
    · dsimp only
      omega
  · split
    · dsimp only
      omega
    · grind

/-- The first time is the earlier one, field by field. -/
def Tm.Before (tm tm' : Tm) : Prop :=
  tm.tmYear < tm'.tmYear ∨ tm.tmYear = tm'.tmYear ∧
    (tm.tmMon < tm'.tmMon ∨ tm.tmMon = tm'.tmMon ∧
      (tm.tmMday < tm'.tmMday ∨ tm.tmMday = tm'.tmMday ∧
        (tm.tmHour < tm'.tmHour ∨ tm.tmHour = tm'.tmHour ∧
          (tm.tmMin < tm'.tmMin ∨ tm.tmMin = tm'.tmMin ∧ tm.tmSec < tm'.tmSec))))

/-- A later second has a later calendar time. -/
theorem gmtime_before {time time' : ℤ} (h : time < time') :
    (gmtime time).Before (gmtime time') := by
  have hday : time / 86400 < time' / 86400 ∨
      time / 86400 = time' / 86400 ∧ time % 86400 < time' % 86400 := by omega
  rw [gmtime, gmtime, Tm.Before]
  dsimp only
  rcases hday with hday | ⟨hday, hsecond⟩
  · have hdate := date_lt hday
    omega
  · rw [hday]
    omega

/-- A leap day, and the second before 1970. -/
example : date 11016 = ⟨2000, 2, 29⟩ ∧ gmtime (-1) = ⟨69, 11, 31, 23, 59, 59⟩ := by decide

end Calendar
