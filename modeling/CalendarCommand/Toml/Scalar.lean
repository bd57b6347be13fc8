import CalendarCommand.Time.Civil
import CalendarCommand.Toml.Basic

/-!
# Numbers, dates and times of documents

A scalar that is not a text is one word, except that a date and a time may also stand side by side
with a blank between them.  Underscores may stand between the digits of a number.  An integer fits
into 64 bits with a sign, and a number with a fraction or an exponent is no larger than the largest
double.

A date or time is kept as it is written out: upper-case marks, fractions without trailing zeros and
of at most nine digits, and an offset with its sign.
-/

namespace CalendarCommand

namespace Toml

/-! ## Digits -/

/-- The value of a digit to one of the bases up to sixteen. -/
def digitValue? (base : Nat) (c : Char) : Option Nat :=
  let value :=
    if '0' ≤ c ∧ c ≤ '9' then some (c.toNat - 48)
    else if 'a' ≤ c ∧ c ≤ 'f' then some (c.toNat - 87)
    else if 'A' ≤ c ∧ c ≤ 'F' then some (c.toNat - 55)
    else none
  value.filter (· < base)

/-- The digits of a text in which an underscore may stand between two digits. -/
def plainDigits? (base : Nat) (text : List Char) : Option (List Nat) :=
  let groups := text.splitOn '_'
  if groups.any List.isEmpty then none else groups.flatten.mapM (digitValue? base)

def natOfDigits (base : Nat) (digits : List Nat) : Nat :=
  digits.foldl (fun n digit => n * base + digit) 0

/-! ## Numbers -/

/-- The sign of a number and what stands behind it. -/
def splitSign : List Char → Bool × List Char
  | '-' :: rest => (true, rest)
  | '+' :: rest => (false, rest)
  | text => (false, text)

/-- The largest magnitude of an integer; only negative integers reach it. -/
def largestMagnitude : Nat := 0x8000000000000000

/-- The integer with a sign, where it fits into 64 bits. -/
def integer? (negative : Bool) (magnitude : Nat) : Option Toml :=
  if negative then
    if magnitude ≤ largestMagnitude then some (.integer (-Int.ofNat magnitude)) else none
  else if magnitude < largestMagnitude then some (.integer (Int.ofNat magnitude))
  else none

/-- The integer of digits to a base other than ten. -/
def basedInteger? (base : Nat) (text : List Char) : Option Toml :=
  (plainDigits? base text).bind fun digits => integer? false (natOfDigits base digits)

/-- The digits of a whole number to base ten, without zeros in front. -/
def wholeDigits? (text : List Char) : Option (List Nat) :=
  (plainDigits? 10 text).filter fun digits => digits.length == 1 || digits.head? != some 0

/-- The text before the first character of a kind, and the text behind that character where there
is one. -/
def cutAt (isCut : Char → Bool) (text : List Char) : List Char × Option (List Char) :=
  (text.takeWhile fun c => !isCut c, (text.dropWhile fun c => !isCut c).tail?)

/-- The digits behind a mark; none where the mark is absent. -/
def digitsBehind? : Option (List Char) → Option (List Nat)
  | none => some []
  | some text => plainDigits? 10 text

/-- The exponent behind its mark; zero where the mark is absent. -/
def exponent? : Option (List Char) → Option Int
  | none => some 0
  | some text =>
    let signed := splitSign text
    (plainDigits? 10 signed.2).map fun digits =>
      let magnitude := natOfDigits 10 digits
      if signed.1 then -magnitude else magnitude

def decimal? (negative : Bool) (text : List Char) : Option Toml :=
  let parts := cutAt (fun c => c == 'e' || c == 'E') text
  let mantissa := cutAt (· == '.') parts.1
  (wholeDigits? mantissa.1).bind fun whole =>
    if mantissa.2.isNone && parts.2.isNone then integer? negative (natOfDigits 10 whole)
    else
      (digitsBehind? mantissa.2).bind fun fraction => (exponent? parts.2).bind fun power =>
        let value := Binary64.ofDecimal negative (natOfDigits 10 (whole ++ fraction))
          (power - fraction.length)
        if value.isInfinite then none else some (.float value)

def number? (word : List Char) : Option Toml :=
  match word with
  | '0' :: 'x' :: rest => basedInteger? 16 rest
  | '0' :: 'o' :: rest => basedInteger? 8 rest
  | '0' :: 'b' :: rest => basedInteger? 2 rest
  | _ =>
    let signed := splitSign word
    if signed.2 = "inf".toList then some (.float (.infinite signed.1))
    else if signed.2 = "nan".toList then some (.float .notANumber)
    else decimal? signed.1 signed.2

/-! ## Dates and times -/

/-- The number of exactly two digits. -/
def pairOf? (a b : Char) : Option Nat :=
  (digitValue? 10 a).bind fun a => (digitValue? 10 b).map fun b => a * 10 + b

/-- The number of two digits where it is at most `largest`. -/
def boundedPair? (largest : Nat) (a b : Char) : Option Nat :=
  (pairOf? a b).filter (· ≤ largest)

/-- A date at the start of a word, and what stands behind it. -/
def splitDate? : List Char → Option (List Char × List Char)
  | a :: b :: c :: d :: '-' :: e :: f :: '-' :: g :: h :: rest =>
    (pairOf? a b).bind fun century => (pairOf? c d).bind fun year =>
      (pairOf? e f).bind fun month => (pairOf? g h).bind fun day =>
        if 1 ≤ month ∧ month ≤ 12 ∧ 1 ≤ day ∧
            day ≤ Civil.daysInMonth (century * 100 + year : Nat) month then
          some ([a, b, c, d, '-', e, f, '-', g, h], rest)
        else none
  | _ => none

def dropTrailingZeros (digits : List Char) : List Char :=
  (digits.reverse.dropWhile (· == '0')).reverse

/-- The fraction of a second as it is written out. -/
def writeFraction (digits : List Char) : List Char :=
  match dropTrailingZeros (digits.take 9) with
  | [] => ['.', '0']
  | kept => '.' :: kept

/-- The fraction of a second behind its point, as it is written out, and what stands behind it. -/
def splitFraction? : List Char → Option (List Char × List Char)
  | '.' :: rest =>
    match rest.takeWhile Char.isDigit with
    | [] => none
    | digits => some (writeFraction digits, rest.dropWhile Char.isDigit)
  | text => some ([], text)

/-- The seconds of a time with their fraction, both of which may be absent, and what stands behind
them. -/
def splitSeconds? : List Char → Option (List Char × List Char)
  | ':' :: a :: b :: rest =>
    (boundedPair? 60 a b).bind fun _ => (splitFraction? rest).map fun fraction =>
      (':' :: a :: b :: fraction.1, fraction.2)
  | ':' :: _ => none
  | text => some ([], text)

/-- A time at the start of a word as it is written out, and what stands behind it. -/
def splitTime? : List Char → Option (List Char × List Char)
  | a :: b :: ':' :: c :: d :: rest =>
    (boundedPair? 23 a b).bind fun _ => (boundedPair? 59 c d).bind fun _ =>
      (splitSeconds? rest).map fun seconds => (a :: b :: ':' :: c :: d :: seconds.1, seconds.2)
  | _ => none

/-- The offset of a time as it is written out; a negative offset of zero has a plus sign. -/
def writeOffset? : List Char → Option (List Char)
  | [] => some []
  | ['Z'] => some ['Z']
  | ['z'] => some ['Z']
  | [sign, a, b, ':', c, d] =>
    if sign == '+' || sign == '-' then
      (boundedPair? 23 a b).bind fun hours => (boundedPair? 59 c d).map fun minutes =>
        let shown := if hours == 0 && minutes == 0 then '+' else sign
        [shown, a, b, ':', c, d]
    else none
  | _ => none

def isTimeMark (c : Char) : Bool :=
  c == 'T' || c == 't' || c == ' '

/-- A date, a time or both, as it is written out. -/
def writeMoment? (word : List Char) : Option (List Char) :=
  match splitDate? word with
  | some (date, []) => some date
  | some (date, mark :: rest) =>
    if isTimeMark mark then
      (splitTime? rest).bind fun time => (writeOffset? time.2).map fun offset =>
        date ++ 'T' :: time.1 ++ offset
    else none
  | none =>
    match splitTime? word with
    | some (time, []) => some time
    | _ => none

/-- The word starts as a date or a time does. -/
def looksLikeMoment : List Char → Bool
  | a :: b :: ':' :: _ => a.isDigit && b.isDigit
  | a :: b :: c :: d :: '-' :: _ => [a, b, c, d].all Char.isDigit
  | _ => false

/-! ## Words -/

def isWordChar (c : Char) : Bool :=
  c.isAlphanum || c == '+' || c == '-' || c == '_' || c == '.' || c == ':'

def ofWord? (word : List Char) : Option Toml :=
  if word = "true".toList then some (.boolean true)
  else if word = "false".toList then some (.boolean false)
  else if looksLikeMoment word then
    (writeMoment? word).map fun text => .moment (String.ofList text)
  else number? word

/-- A word at the start of a text, and the text behind it.  A date takes a time with it that stands
behind one blank. -/
def takeWord (text : List Char) : List Char × List Char :=
  let word := text.takeWhile isWordChar
  let rest := text.dropWhile isWordChar
  match splitDate? word, rest with
  | some (_, []), ' ' :: c :: more =>
    if c.isDigit then
      (word ++ ' ' :: (c :: more).takeWhile isWordChar, (c :: more).dropWhile isWordChar)
    else (word, rest)
  | _, _ => (word, rest)

/-- The scalar at the start of a text, and the text behind it. -/
def readScalar? (text : List Char) : Option (Toml × List Char) :=
  let cut := takeWord text
  (ofWord? cut.1).map fun value => (value, cut.2)

end Toml

end CalendarCommand
