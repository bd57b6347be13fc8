/-!
# Dates and times

A date-time is a day of the proleptic Gregorian calendar and a time of that day, without a time
zone.  The nanosecond runs past one billion during a leap second, which follows second 59 only.

The number of a day counts from the first of January of the year one, a Monday; weekdays, weeks
and seconds since the start of 1970 are computed from it.
-/

namespace CalendarCommand

namespace Civil

def isLeapYear (year : Int) : Bool :=
  year % 4 == 0 && (year % 100 != 0 || year % 400 == 0)

/-- The number of days of a month, counted from one. -/
def daysInMonth (year : Int) (month : Nat) : Nat :=
  if month == 2 then (if isLeapYear year then 29 else 28)
  else if month == 4 || month == 6 || month == 9 || month == 11 then 30
  else 31

/-- The first and the last year that a date may have. -/
def firstYear : Int := -262143

def lastYear : Int := 262142

def isDate (year : Int) (month day : Nat) : Bool :=
  firstYear ≤ year && year ≤ lastYear && 1 ≤ month && month ≤ 12 && 1 ≤ day &&
    day ≤ daysInMonth year month

/-- The four numbers name a time of a day; nanoseconds from one billion on belong to a leap
second. -/
def isTime (hour minute second nanosecond : Nat) : Bool :=
  hour < 24 && minute < 60 && second < 60 &&
    (nanosecond < 1000000000 || (second == 59 && nanosecond < 2000000000))

end Civil

/-- A day and a time of that day. -/
structure DateTime where
  year : Int
  month : Nat
  day : Nat
  hour : Nat
  minute : Nat
  second : Nat
  nanosecond : Nat
  isDate : Civil.isDate year month day = true
  isTime : Civil.isTime hour minute second nanosecond = true

namespace DateTime

def ofNumbers? (year : Int) (month day hour minute second nanosecond : Nat) : Option DateTime :=
  if hdate : Civil.isDate year month day = true then
    if htime : Civil.isTime hour minute second nanosecond = true then
      some { year, month, day, hour, minute, second, nanosecond, isDate := hdate, isTime := htime }
    else none
  else none

def epoch : DateTime :=
  { year := 1970, month := 1, day := 1, hour := 0, minute := 0, second := 0, nanosecond := 0
    isDate := by decide, isTime := by decide }

end DateTime

namespace Civil

/-- The number of days before the first of January of a year, counted from the year one. -/
def daysBeforeYear (year : Int) : Int :=
  let past := year - 1
  365 * past + past / 4 - past / 100 + past / 400

/-- The number of days of a year before the first of a month. -/
def daysBeforeMonth (year : Int) (month : Nat) : Nat :=
  (List.range (month - 1)).foldl (fun days index => days + daysInMonth year (index + 1)) 0

/-- The place of a weekday behind Monday, for a day number. -/
def weekdayOfDay (day : Int) : Nat :=
  (day % 7).toNat

/-- The number of weeks of a year, each week belonging to the year of its Thursday. -/
def weeksInYear (year : Int) : Nat :=
  let first := weekdayOfDay (daysBeforeYear year)
  if first == 3 || (first == 2 && isLeapYear year) then 53 else 52

end Civil

namespace DateTime

open Civil

/-- The place of the day in its year, from one on. -/
def dayOfYear (time : DateTime) : Nat :=
  daysBeforeMonth time.year time.month + time.day

def dayNumber (time : DateTime) : Int :=
  daysBeforeYear time.year + time.dayOfYear - 1

/-- The place of the weekday behind Monday. -/
def weekday (time : DateTime) : Nat :=
  weekdayOfDay time.dayNumber

/-- The place of the weekday behind Sunday. -/
def weekdayFromSunday (time : DateTime) : Nat :=
  (time.weekday + 1) % 7

/-- The seconds since the start of 1970; a leap second counts with the second before it. -/
def unixSeconds (time : DateTime) : Int :=
  (time.dayNumber - 719162) * 86400 + (time.hour * 3600 + time.minute * 60 + time.second : Nat)

/-- The second as shown: sixty during a leap second. -/
def shownSecond (time : DateTime) : Nat :=
  time.second + time.nanosecond / 1000000000

/-- The nanosecond within the shown second. -/
def subsecond (time : DateTime) : Nat :=
  time.nanosecond % 1000000000

/-- The hour on a dial of twelve. -/
def hourOnDial (time : DateTime) : Nat :=
  if time.hour % 12 == 0 then 12 else time.hour % 12

/-- The week of the year where weeks start on Sunday and the days before the first Sunday belong
to week zero. -/
def weekFromSunday (time : DateTime) : Nat :=
  (time.dayOfYear + 6 - time.weekdayFromSunday) / 7

/-- The week of the year where weeks start on Monday and the days before the first Monday belong
to week zero. -/
def weekFromMonday (time : DateTime) : Nat :=
  (time.dayOfYear + 6 - time.weekday) / 7

/-- The year and the number of the week that holds the day, each week belonging to the year of its
Thursday. -/
def isoWeek (time : DateTime) : Int × Nat :=
  let week := (time.dayOfYear + 9 - time.weekday) / 7
  if week == 0 then (time.year - 1, weeksInYear (time.year - 1))
  else if week > weeksInYear time.year then (time.year + 1, 1)
  else (time.year, week)

/-- The quarter of the year, from one on. -/
def quarter (time : DateTime) : Nat :=
  (time.month - 1) / 3 + 1

end DateTime

end CalendarCommand
