/-!
# Timestamp patterns

A pattern is a text in which a percent sign starts a directive and every other character stands
for itself.  A directive names a number of the date-time, a name, a fraction of the second, a
fixed character, or a sequence of other directives.  The directives of a single number admit a
mark for their padding behind the percent sign; no other directive does.

Reading a pattern fails as soon as it holds a directive that does not exist.  Directives of the
time zone exist, so they can be read; whether they can be written out is not decided here.
-/

namespace CalendarCommand

/-- How a number is filled up on its left. -/
inductive Padding where
  | bare
  | zeros
  | spaces
deriving DecidableEq, Repr

inductive NumberField where
  | year
  | century
  | yearOfCentury
  | weekYear
  | weekYearOfCentury
  | quarter
  | month
  | day
  | dayOfYear
  | weekFromSunday
  | weekFromMonday
  | isoWeek
  | weekdayFromSunday
  | weekdayFromMonday
  | hour
  | hourOnDial
  | minute
  | second
  | nanosecond
  | unixSeconds
deriving DecidableEq, Repr

inductive NameField where
  | weekday
  | shortWeekday
  | month
  | shortMonth
  | half
  | smallHalf
deriving DecidableEq, Repr

inductive PatternItem where
  /-- A character that stands for itself. -/
  | literal (c : Char)
  | number (field : NumberField) (padding : Padding)
  | name (field : NameField)
  /-- The fraction of the second behind a point, absent for a full second, and otherwise in as
  many groups of three digits as it needs. -/
  | shortFraction
  /-- The fraction of the second in `groups` groups of three digits. -/
  | fraction (point : Bool) (groups : Nat)
  /-- Something of the time zone. -/
  | zone
deriving DecidableEq, Repr

abbrev Pattern := List PatternItem

namespace Pattern

/-- The day, month and two digits of the year between slashes. -/
def shortDate : Pattern :=
  [.number .month .zeros, .literal '/', .number .day .zeros, .literal '/',
    .number .yearOfCentury .zeros]

def hourMinute : Pattern :=
  [.number .hour .zeros, .literal ':', .number .minute .zeros]

def clock : Pattern :=
  hourMinute ++ [.literal ':', .number .second .zeros]

def ofLetter? : Char → Option Pattern
  | 'Y' => some [.number .year .zeros]
  | 'C' => some [.number .century .zeros]
  | 'y' => some [.number .yearOfCentury .zeros]
  | 'G' => some [.number .weekYear .zeros]
  | 'g' => some [.number .weekYearOfCentury .zeros]
  | 'q' => some [.number .quarter .bare]
  | 'm' => some [.number .month .zeros]
  | 'd' => some [.number .day .zeros]
  | 'e' => some [.number .day .spaces]
  | 'j' => some [.number .dayOfYear .zeros]
  | 'U' => some [.number .weekFromSunday .zeros]
  | 'W' => some [.number .weekFromMonday .zeros]
  | 'V' => some [.number .isoWeek .zeros]
  | 'w' => some [.number .weekdayFromSunday .bare]
  | 'u' => some [.number .weekdayFromMonday .bare]
  | 'H' => some [.number .hour .zeros]
  | 'k' => some [.number .hour .spaces]
  | 'I' => some [.number .hourOnDial .zeros]
  | 'l' => some [.number .hourOnDial .spaces]
  | 'M' => some [.number .minute .zeros]
  | 'S' => some [.number .second .zeros]
  | 'f' => some [.number .nanosecond .zeros]
  | 's' => some [.number .unixSeconds .bare]
  | 'A' => some [.name .weekday]
  | 'a' => some [.name .shortWeekday]
  | 'B' => some [.name .month]
  | 'b' => some [.name .shortMonth]
  | 'h' => some [.name .shortMonth]
  | 'p' => some [.name .half]
  | 'P' => some [.name .smallHalf]
  | 'D' => some shortDate
  | 'x' => some shortDate
  | 'F' => some [.number .year .zeros, .literal '-', .number .month .zeros, .literal '-',
      .number .day .zeros]
  | 'v' => some [.number .day .spaces, .literal '-', .name .shortMonth, .literal '-',
      .number .year .zeros]
  | 'R' => some hourMinute
  | 'T' => some clock
  | 'X' => some clock
  | 'r' => some ([.number .hourOnDial .zeros, .literal ':', .number .minute .zeros, .literal ':',
      .number .second .zeros, .literal ' ', .name .half])
  | 'c' => some ([.name .shortWeekday, .literal ' ', .name .shortMonth, .literal ' ',
      .number .day .spaces, .literal ' '] ++ clock ++ [.literal ' ', .number .year .zeros])
  | 'z' => some [.zone]
  | 'Z' => some [.zone]
  | '+' => some [.zone]
  | 'n' => some [.literal '\n']
  | 't' => some [.literal '\t']
  | '%' => some [.literal '%']
  | _ => none

/-- The item of a directive of one letter behind a padding mark. -/
def ofPaddedLetter? (padding : Padding) (letter : Char) : Option Pattern :=
  match ofLetter? letter with
  | some [.number field _] => some [.number field padding]
  | _ => none

/-- Puts the items of a directive in front of a pattern, where both exist. -/
def prepend? (items pattern : Option Pattern) : Option Pattern :=
  items.bind fun items => pattern.map fun pattern => items ++ pattern

/-- The pattern that a text denotes; `none` where it holds a directive that does not exist. -/
def ofText? : List Char → Option Pattern
  | [] => some []
  | '%' :: '-' :: c :: rest => prepend? (ofPaddedLetter? .bare c) (ofText? rest)
  | '%' :: '0' :: c :: rest => prepend? (ofPaddedLetter? .zeros c) (ofText? rest)
  | '%' :: '_' :: c :: rest => prepend? (ofPaddedLetter? .spaces c) (ofText? rest)
  | '%' :: '#' :: 'z' :: rest => prepend? (some [.zone]) (ofText? rest)
  | '%' :: ':' :: 'z' :: rest => prepend? (some [.zone]) (ofText? rest)
  | '%' :: ':' :: ':' :: 'z' :: rest => prepend? (some [.zone]) (ofText? rest)
  | '%' :: ':' :: ':' :: ':' :: 'z' :: rest => prepend? (some [.zone]) (ofText? rest)
  | '%' :: '.' :: 'f' :: rest => prepend? (some [.shortFraction]) (ofText? rest)
  | '%' :: '.' :: '3' :: 'f' :: rest => prepend? (some [.fraction true 1]) (ofText? rest)
  | '%' :: '.' :: '6' :: 'f' :: rest => prepend? (some [.fraction true 2]) (ofText? rest)
  | '%' :: '.' :: '9' :: 'f' :: rest => prepend? (some [.fraction true 3]) (ofText? rest)
  | '%' :: '3' :: 'f' :: rest => prepend? (some [.fraction false 1]) (ofText? rest)
  | '%' :: '6' :: 'f' :: rest => prepend? (some [.fraction false 2]) (ofText? rest)
  | '%' :: '9' :: 'f' :: rest => prepend? (some [.fraction false 3]) (ofText? rest)
  | '%' :: c :: rest => prepend? (ofLetter? c) (ofText? rest)
  | ['%'] => none
  | c :: rest => prepend? (some [.literal c]) (ofText? rest)

end Pattern

end CalendarCommand
