/- digest: The current week's start, read through the offset at UTC midnight of its Monday. -/

import GuitarCoach.Calendar.Civil
import GuitarCoach.Store.Values

set_option autoImplicit false
set_option relaxedAutoImplicit false

namespace GuitarCoach

open Calendar (civil daysSinceMonday makeDay dayFromYear yearFromDay)

def msPerDay : Int := 86400000

/-- `Date.UTC`, which takes the years from 0 to 99 for those of the last century. -/
def dateUTC (year month day hour minute second : Int) : Int :=
  let fullYear := if 0 ≤ year ∧ year ≤ 99 then 1900 + year else year
  makeDay fullYear month day * msPerDay + hour * 3600000 + minute * 60000 + second * 1000

/-- A time zone: its offset at each instant, in milliseconds, and whether `Intl` writes the hour
of midnight as 24. -/
structure TimeZone where
  offset : Int → Int
  wholeSeconds : ∀ t, offset t % 1000 = 0
  belowDay : ∀ t, -msPerDay < offset t ∧ offset t < msPerDay
  midnightIs24 : Bool

namespace TimeZone

def utc : TimeZone := ⟨fun _ => 0, fun _ => rfl, fun _ => by unfold msPerDay; omega, true⟩

/-- What a clock in the zone shows, as if it were the time in UTC. -/
def wallClock (zone : TimeZone) (t : Instant) : Int := t + zone.offset t

/-- The date that a calendar in the zone shows. -/
def localDay (zone : TimeZone) (t : Instant) : Int := zone.wallClock t / msPerDay

/-- The second of the day that a clock in the zone shows. -/
def localSecond (zone : TimeZone) (t : Instant) : Int := zone.wallClock t % msPerDay / 1000

end TimeZone

structure DateParts where
  year : Int
  month : Int
  day : Int

/-- `weekday: 'short'`. -/
def weekdayName (day : Int) : String :=
  ["Mon", "Tue", "Wed", "Thu", "Fri", "Sat", "Sun"].getD (daysSinceMonday day).toNat ""

/-- `WEEKDAY_OFFSET_FROM_MONDAY`. -/
def weekdayOffsetFromMonday (weekday : String) : Option Int :=
  if weekday = "Mon" then some 0 else if weekday = "Tue" then some 1
  else if weekday = "Wed" then some 2 else if weekday = "Thu" then some 3
  else if weekday = "Fri" then some 4 else if weekday = "Sat" then some 5
  else if weekday = "Sun" then some 6 else none

def getDatePartsInTimeZone (instant : Instant) (zone : TimeZone) : DateParts × String :=
  let date := civil (zone.localDay instant)
  (⟨date.year, date.month + 1, date.day⟩, weekdayName (zone.localDay instant))

/-- The hour, minute and second that `Intl` writes. -/
def getTimePartsInTimeZone (instant : Instant) (zone : TimeZone) : Int × Int × Int :=
  let second := zone.localSecond instant
  let hour := second / 3600
  (if hour = 0 ∧ zone.midnightIs24 = true then 24 else hour, second / 60 % 60, second % 60)

def zonedMidnightToUtc (date : DateParts) (zone : TimeZone) : Instant :=
  let utcGuess := dateUTC date.year (date.month - 1) date.day 0 0 0
  let (parts, _) := getDatePartsInTimeZone utcGuess zone
  let (hour24, minute, second) := getTimePartsInTimeZone utcGuess zone
  let hour := if hour24 = 24 then 0 else hour24
  let asIfUtc := dateUTC parts.year (parts.month - 1) parts.day hour minute second
  let offsetMs := utcGuess - asIfUtc
  utcGuess + offsetMs

def getCurrentWeekStart (now : Instant) (zone : TimeZone) : Except Failure Instant := do
  let (date, weekday) := getDatePartsInTimeZone now zone
  match weekdayOffsetFromMonday weekday with
  | none => throw (.unexpected ("Unrecognized weekday abbreviation: \"" ++ weekday ++ "\""))
  | some daysSinceMonday =>
    let mondayCalendarGuess := dateUTC date.year (date.month - 1) (date.day - daysSinceMonday) 0 0 0
    let (monday, _) := getDatePartsInTimeZone mondayCalendarGuess .utc
    return zonedMidnightToUtc monday zone

/-! ### What the source computes -/

private theorem year_of_recent {day : Int} (recent : -600000 ≤ day) : 100 ≤ yearFromDay day := by
  have after := (Calendar.yearFromDay_spec day).2
  unfold dayFromYear at after
  omega

/-- The parts of a date give its day back, also some days before or after it. -/
private theorem dateUTC_civil {day : Int} (recent : -600000 ≤ day) (more hour minute second : Int) :
    dateUTC (civil day).year ((civil day).month + 1 - 1) ((civil day).day + more) hour minute
      second = (day + more) * msPerDay + hour * 3600000 + minute * 60000 + second * 1000 := by
  have year : 100 ≤ (civil day).year := year_of_recent recent
  unfold dateUTC
  dsimp only
  rw [if_neg (by omega), Int.add_sub_cancel, Calendar.makeDay_civil]

private theorem weekday_known (day : Int) :
    weekdayOffsetFromMonday (weekdayName day) = some (daysSinceMonday day) := by
  have lower : 0 ≤ daysSinceMonday day := Int.emod_nonneg _ (by decide)
  have upper : daysSinceMonday day < 7 := Int.emod_lt_of_pos _ (by decide)
  unfold weekdayName
  generalize daysSinceMonday day = since at lower upper ⊢
  interval_cases since <;> rfl

/-- The wall clock is read back from its parts. -/
private theorem timeParts (zone : TimeZone) (t : Int) (whole : t % 1000 = 0) :
    let (hour24, minute, second) := getTimePartsInTimeZone t zone
    (if hour24 = 24 then 0 else hour24) * 3600000 + minute * 60000 + second * 1000 =
      zone.wallClock t - zone.localDay t * msPerDay := by
  have offset := zone.wholeSeconds t
  unfold getTimePartsInTimeZone TimeZone.localSecond TimeZone.localDay TimeZone.wallClock msPerDay
  dsimp only
  split <;> split <;> omega

/-- Local midnight is found through the offset at UTC midnight. -/
private theorem zonedMidnightToUtc_eq {day : Int} (recent : -500000 ≤ day) (zone : TimeZone) :
    zonedMidnightToUtc ⟨(civil day).year, (civil day).month + 1, (civil day).day⟩ zone =
      day * msPerDay - zone.offset (day * msPerDay) := by
  have guess := @dateUTC_civil day (by omega) 0 0 0 0
  simp only [Int.add_zero, Int.zero_mul] at guess
  have near : -600000 ≤ zone.localDay (day * msPerDay) := by
    have bounds := zone.belowDay (day * msPerDay)
    unfold TimeZone.localDay TimeZone.wallClock
    unfold msPerDay at *
    omega
  have time := timeParts zone (day * msPerDay) (by unfold msPerDay; omega)
  unfold zonedMidnightToUtc
  simp only [guess, getDatePartsInTimeZone]
  have asIfUtc := dateUTC_civil near 0
  simp only [Int.add_zero] at asIfUtc
  rw [asIfUtc]
  dsimp only at time
  unfold TimeZone.wallClock at time
  show (_ : Int) = _
  omega

private theorem utc_localDay (day : Int) : TimeZone.utc.localDay (day * msPerDay) = day := by
  have same : TimeZone.utc.localDay (day * msPerDay) = (day * msPerDay + 0) / msPerDay := rfl
  rw [same]
  unfold msPerDay
  omega

/-- The day of the Monday on or before a day. -/
def mondayOf (day : Int) : Int := day - daysSinceMonday day

/-- The instant that the source takes for local midnight of the Monday of the week. -/
def weekStartGuess (now : Instant) (zone : TimeZone) : Int :=
  mondayOf (zone.localDay now) * msPerDay -
    zone.offset (mondayOf (zone.localDay now) * msPerDay)

theorem getCurrentWeekStart_eq {now : Int} (since1970 : 0 ≤ now) (zone : TimeZone) :
    getCurrentWeekStart now zone = .ok (weekStartGuess now zone) := by
  have near : -10 ≤ zone.localDay now := by
    have bounds := zone.belowDay now
    unfold TimeZone.localDay TimeZone.wallClock
    unfold msPerDay at *
    omega
  have since : daysSinceMonday (zone.localDay now) < 7 := Int.emod_lt_of_pos _ (by decide)
  have guess := @dateUTC_civil (zone.localDay now) (by omega)
    (-daysSinceMonday (zone.localDay now)) 0 0 0
  simp only [← Int.sub_eq_add_neg, Int.zero_mul, Int.add_zero] at guess
  unfold getCurrentWeekStart
  simp only [getDatePartsInTimeZone, weekday_known, guess]
  have monday : zone.localDay now - daysSinceMonday (zone.localDay now) =
      mondayOf (zone.localDay now) := rfl
  rw [monday, utc_localDay, zonedMidnightToUtc_eq (by unfold mondayOf; omega)]
  rfl

/-! ### The start of the week -/

/-- The instant begins the Monday of the week of `now`: at midnight when the Monday has one, and
otherwise at its first instant. -/
structure StartsWeek (zone : TimeZone) (now start : Instant) : Prop where
  past : start ≤ now
  monday : zone.localDay start = mondayOf (zone.localDay now)
  midnight : (∃ t, zone.localDay t = mondayOf (zone.localDay now) ∧ zone.localSecond t = 0) →
    zone.localSecond start = 0
  first : (∀ t, zone.localDay t = mondayOf (zone.localDay now) → zone.localSecond t ≠ 0) →
    ∀ t, zone.localDay t = mondayOf (zone.localDay now) → start ≤ t

/-- The offset at UTC midnight of the Monday leads to a local midnight that is past, or to the
end of a gap that the local midnight lies in. -/
def OffsetHolds (zone : TimeZone) (now : Instant) : Prop :=
  let monday := mondayOf (zone.localDay now)
  let offset := zone.offset (monday * msPerDay)
  monday * msPerDay - offset ≤ now ∧
    (zone.offset (monday * msPerDay - offset) = offset ∨
      (∀ t, zone.localDay t = monday → zone.localSecond t ≠ 0) ∧
        zone.localDay (monday * msPerDay - offset) = monday ∧
        ∀ t, zone.localDay t = monday → monday * msPerDay - offset ≤ t)

/-- The source finds the start of the week just when the offset at UTC midnight of its Monday is
the one in force where that offset puts the local midnight, or leads over a skipped midnight. -/
theorem week_start_iff {now : Int} (since1970 : 0 ≤ now) (zone : TimeZone) :
    (∃ start, getCurrentWeekStart now zone = .ok start ∧ StartsWeek zone now start) ↔
      OffsetHolds zone now := by
  have computed : getCurrentWeekStart now zone = .ok (weekStartGuess now zone) :=
    getCurrentWeekStart_eq since1970 zone
  unfold OffsetHolds
  dsimp only
  have guess : weekStartGuess now zone = mondayOf (zone.localDay now) * msPerDay -
    zone.offset (mondayOf (zone.localDay now) * msPerDay) := rfl
  rw [← guess]
  generalize weekStartGuess now zone = start at computed guess ⊢
  have whole := zone.wholeSeconds start
  have whole' := zone.wholeSeconds (mondayOf (zone.localDay now) * msPerDay)
  constructor
  · rintro ⟨start', computed', starts⟩
    rw [computed] at computed'
    cases computed'
    refine ⟨starts.past, ?_⟩
    by_cases midnight : ∃ t, zone.localDay t = mondayOf (zone.localDay now) ∧ zone.localSecond t = 0
    · left
      have day := starts.monday
      have second := starts.midnight midnight
      generalize mondayOf (zone.localDay now) = monday at day guess whole' ⊢
      unfold TimeZone.localDay TimeZone.wallClock at day
      unfold TimeZone.localSecond TimeZone.wallClock at second
      unfold msPerDay at *
      omega
    · right
      have none' : ∀ t, zone.localDay t = mondayOf (zone.localDay now) → zone.localSecond t ≠ 0 :=
        fun t day second => midnight ⟨t, day, second⟩
      exact ⟨none', starts.monday, starts.first none'⟩
  · rintro ⟨past, same | ⟨none', monday, first⟩⟩
    · have reading : zone.wallClock start = mondayOf (zone.localDay now) * msPerDay := by
        unfold TimeZone.wallClock
        omega
      have day : zone.localDay start = mondayOf (zone.localDay now) := by
        unfold TimeZone.localDay
        rw [reading]
        exact Int.mul_ediv_cancel _ (by decide)
      have second : zone.localSecond start = 0 := by
        unfold TimeZone.localSecond
        rw [reading, Int.mul_emod_left]
        rfl
      exact ⟨start, computed, past, day, fun _ => second, fun none' => absurd second (none' _ day)⟩
    · exact ⟨start, computed, past, monday,
        fun ⟨t, day, second⟩ => absurd second (none' t day), fun _ => first⟩

/-- Tehran in 2010, when the clocks went forward at midnight of Monday, March 22. -/
private def tehran : TimeZone where
  offset t := if 1269203400000 ≤ t then 16200000 else 12600000
  wholeSeconds t := by split <;> rfl
  belowDay t := by
    unfold msPerDay
    split <;> omega
  midnightIs24 := true

theorem week_start_iff_tehran :
    (∃ start, getCurrentWeekStart 1269400000000 tehran = .ok start ∧
      StartsWeek tehran 1269400000000 start) ↔ OffsetHolds tehran 1269400000000 :=
  week_start_iff (by decide) tehran

/-- The week of Wednesday, March 24 is taken to begin on Sunday at 23:00. -/
theorem week_starts_on_sunday :
    ¬∀ (now : Int) (zone : TimeZone), 0 ≤ now → now < 253402300800000 →
      (∃ t, zone.localDay t = mondayOf (zone.localDay now)) →
        ∃ start, getCurrentWeekStart now zone = .ok start ∧ StartsWeek zone now start := by
  intro claim
  obtain ⟨start, computed, starts⟩ := claim 1269400000000 tehran (by decide) (by decide)
    ⟨1269203400000, by decide⟩
  rw [getCurrentWeekStart_eq (by decide)] at computed
  cases computed
  have sunday : tehran.localDay (weekStartGuess 1269400000000 tehran) ≠
      mondayOf (tehran.localDay 1269400000000) := by decide
  exact sunday starts.monday

end GuitarCoach
