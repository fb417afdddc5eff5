/- digest: Days, months and years of the proleptic Gregorian calendar, as ECMAScript counts them. -/

import Mathlib

/-!
Days are numbered from 1970-01-01, months from 0 and days of a month from 1.
-/

set_option autoImplicit false
set_option relaxedAutoImplicit false

namespace Calendar

def IsLeap (year : Int) : Prop := year % 4 = 0 ∧ (year % 100 ≠ 0 ∨ year % 400 = 0)

instance (year : Int) : Decidable (IsLeap year) := inferInstanceAs (Decidable (_ ∧ _))

/-- The first day of a year. -/
def dayFromYear (year : Int) : Int :=
  365 * (year - 1970) + (year - 1969) / 4 - (year - 1901) / 100 + (year - 1601) / 400

/-- An estimate from the mean length of a year, which is at most one off. -/
private def aboutYear (day : Int) : Int := 1970 + 400 * day / 146097

/-- The year that a day lies in. -/
def yearFromDay (day : Int) : Int :=
  let year := aboutYear day
  if day < dayFromYear year then year - 1
  else if dayFromYear (year + 1) ≤ day then year + 1
  else year

/-- The days of a year that lie before a month. -/
def daysBefore (year : Int) (month : Nat) : Int :=
  [0, 31, 59, 90, 120, 151, 181, 212, 243, 273, 304].getD month 334 +
    if 2 ≤ month ∧ IsLeap year then 1 else 0

/-- The month that a day of a year lies in. -/
def monthFromDay (year dayOfYear : Int) : Nat :=
  ((List.range 11).filter fun month => daysBefore year (month + 1) ≤ dayOfYear).length

structure Civil where
  year : Int
  month : Nat
  day : Int
deriving DecidableEq

/-- The date of a day. -/
def civil (day : Int) : Civil :=
  let year := yearFromDay day
  let month := monthFromDay year (day - dayFromYear year)
  ⟨year, month, day - dayFromYear year - daysBefore year month + 1⟩

/-- The day of a date, whose month and day may lie outside their ranges. -/
def makeDay (year month day : Int) : Int :=
  let inYear := year + month / 12
  dayFromYear inYear + daysBefore inYear (month % 12).toNat + day - 1

/-- The day of the week, counted from Monday. -/
def daysSinceMonday (day : Int) : Int := (day + 3) % 7

theorem yearFromDay_spec (day : Int) :
    dayFromYear (yearFromDay day) ≤ day ∧ day < dayFromYear (yearFromDay day + 1) := by
  have lower : dayFromYear (aboutYear day - 1) ≤ day := by
    unfold dayFromYear aboutYear
    omega
  have upper : day < dayFromYear (aboutYear day + 2) := by
    unfold dayFromYear aboutYear
    omega
  unfold yearFromDay
  dsimp only
  split
  · next before => exact ⟨lower, by rwa [Int.sub_add_cancel]⟩
  · split
    · next after => exact ⟨after, by rwa [Int.add_assoc]⟩
    · exact ⟨by omega, by omega⟩

theorem monthFromDay_lt (year dayOfYear : Int) : monthFromDay year dayOfYear < 12 := by
  unfold monthFromDay
  have most := List.length_filter_le
    (fun month => decide (daysBefore year (month + 1) ≤ dayOfYear)) (List.range 11)
  rw [List.length_range] at most
  omega

/-- A date names its day, also when it is counted some days on. -/
theorem makeDay_civil (day more : Int) :
    makeDay (civil day).year (civil day).month ((civil day).day + more) = day + more := by
  have month := monthFromDay_lt (yearFromDay day) (day - dayFromYear (yearFromDay day))
  unfold makeDay civil
  dsimp only
  have sameYear : (monthFromDay (yearFromDay day) (day - dayFromYear (yearFromDay day)) : Int) / 12 =
      0 := by omega
  have sameMonth : ((monthFromDay (yearFromDay day)
      (day - dayFromYear (yearFromDay day)) : Int) % 12).toNat =
      monthFromDay (yearFromDay day) (day - dayFromYear (yearFromDay day)) := by omega
  rw [sameYear, sameMonth, Int.add_zero]
  omega

end Calendar
