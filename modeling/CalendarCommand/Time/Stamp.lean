import CalendarCommand.Time.Civil
import CalendarCommand.Time.Pattern

/-!
# Writing timestamps

A pattern is written out for a date-time item by item.  A date-time has no time zone, so an item of
the zone has no written form, and neither has a pattern that holds one.

Three forms of a number occur.  Numbers of two digits are filled up to two places; the digit of the
tens goes on behind `9` along the character table for the centuries that need it.  Years and wider
numbers are filled up to their least number of places, and a year outside the four-digit range
always carries its sign, which takes a place of its own.  Numbers of one digit are never filled up.
-/

namespace CalendarCommand

namespace Stamp

def digits (n : Nat) : List Char :=
  Nat.toDigits 10 n

/-- The text filled up on its left to a number of places. -/
def fill (c : Char) (places : Nat) (text : List Char) : List Char :=
  List.replicate (places - text.length) c ++ text

/-- A number filled up to a number of places, its sign in front of zeros and behind spaces. -/
def writeNumber (padding : Padding) (places : Nat) (sign : List Char) (n : Nat) : List Char :=
  match padding with
  | .bare => sign ++ digits n
  | .zeros => sign ++ fill '0' (places - sign.length) (digits n)
  | .spaces => fill ' ' places (sign ++ digits n)

/-- The sign of a number that shows a plus sign only where it is asked to. -/
def signOf (showsPlus : Bool) (value : Int) : List Char :=
  if value < 0 then ['-'] else if showsPlus then ['+'] else []

/-- A year: four places, and one more for the sign outside the years of four digits. -/
def writeYear (padding : Padding) (year : Int) : List Char :=
  if 0 ≤ year ∧ year < 10000 then writeNumber padding 4 [] year.natAbs
  else writeNumber padding 5 (signOf true year) year.natAbs

/-- The character of a digit, which goes on behind `9` along the character table. -/
def digitChar (digit : Nat) : Char :=
  Char.ofNat (48 + digit)

/-- A number of two places. -/
def writePair (padding : Padding) (n : Nat) : List Char :=
  let tens :=
    match n / 10, padding with
    | 0, .bare => []
    | 0, .spaces => [' ']
    | tens, _ => [digitChar tens]
  tens ++ [digitChar (n % 10)]

/-- The century of a year, as a number of eight bits. -/
def centuryOf (year : Int) : Nat :=
  (year / 100 % 256).toNat

/-- The last two digits of a year, counted upwards from the start of its century. -/
def yearOfCentury (year : Int) : Nat :=
  (year % 100).toNat

def writeField (time : DateTime) (padding : Padding) : NumberField → List Char
  | .year => writeYear padding time.year
  | .century => writePair padding (centuryOf time.year)
  | .yearOfCentury => writePair padding (yearOfCentury time.year)
  | .weekYear => writeYear padding time.isoWeek.1
  | .weekYearOfCentury => writePair padding (yearOfCentury time.isoWeek.1)
  | .quarter => [digitChar time.quarter]
  | .month => writePair padding time.month
  | .day => writePair padding time.day
  | .dayOfYear => writeNumber padding 3 [] time.dayOfYear
  | .weekFromSunday => writePair padding time.weekFromSunday
  | .weekFromMonday => writePair padding time.weekFromMonday
  | .isoWeek => writePair padding time.isoWeek.2
  | .weekdayFromSunday => [digitChar time.weekdayFromSunday]
  | .weekdayFromMonday => [digitChar (time.weekday + 1)]
  | .hour => writePair padding time.hour
  | .hourOnDial => writePair padding time.hourOnDial
  | .minute => writePair padding time.minute
  | .second => writePair padding time.shownSecond
  | .nanosecond => writeNumber padding 9 [] time.subsecond
  | .unixSeconds =>
    writeNumber padding 9 (signOf false time.unixSeconds) time.unixSeconds.natAbs

/-- The names of the weekdays from Monday on. -/
def weekdayNames : List String :=
  ["Monday", "Tuesday", "Wednesday", "Thursday", "Friday", "Saturday", "Sunday"]

def monthNames : List String :=
  ["January", "February", "March", "April", "May", "June", "July", "August", "September",
    "October", "November", "December"]

def nameAt (names : List String) (place : Nat) : List Char :=
  (names.getD place "").toList

/-- A name of a date-time; short names are the first three letters. -/
def writeName (time : DateTime) : NameField → List Char
  | .weekday => nameAt weekdayNames time.weekday
  | .shortWeekday => (nameAt weekdayNames time.weekday).take 3
  | .month => nameAt monthNames (time.month - 1)
  | .shortMonth => (nameAt monthNames (time.month - 1)).take 3
  | .half => if time.hour < 12 then ['A', 'M'] else ['P', 'M']
  | .smallHalf => if time.hour < 12 then ['a', 'm'] else ['p', 'm']

/-- The first groups of three digits of the nanoseconds. -/
def writeGroups (groups nanosecond : Nat) : List Char :=
  (fill '0' 9 (digits nanosecond)).take (3 * groups)

/-- The fraction of a second behind a point, in as many groups as it needs. -/
def writeShortFraction (nanosecond : Nat) : List Char :=
  if nanosecond == 0 then []
  else if nanosecond % 1000000 == 0 then '.' :: writeGroups 1 nanosecond
  else if nanosecond % 1000 == 0 then '.' :: writeGroups 2 nanosecond
  else '.' :: writeGroups 3 nanosecond

/-- The written form of a part of a pattern; a part of the zone has none. -/
def writeItem? (time : DateTime) : PatternItem → Option (List Char)
  | .literal c => some [c]
  | .number field padding => some (writeField time padding field)
  | .name field => some (writeName time field)
  | .shortFraction => some (writeShortFraction time.subsecond)
  | .fraction point groups =>
    some ((if point then ['.'] else []) ++ writeGroups groups time.subsecond)
  | .zone => none

end Stamp

namespace DateTime

def write? (time : DateTime) : Pattern → Option (List Char)
  | [] => some []
  | item :: pattern =>
    (Stamp.writeItem? time item).bind fun text => (time.write? pattern).map fun rest => text ++ rest

/-- The date-time written out by the pattern that a text denotes; `none` where the text denotes
none or the pattern has no written form. -/
def stamp? (time : DateTime) (format : String) : Option String :=
  (Pattern.ofText? format.toList).bind fun pattern => (time.write? pattern).map String.ofList

end DateTime

end CalendarCommand
