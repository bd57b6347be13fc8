import CalendarCommand.Decimal.Binary64

/-!
# The shortest decimal of a double

The decimals that are read as one double form an interval around it.  The shortest decimal of the
double is the multiple of the largest power of ten that lies in this interval; of two such
multiples it is the one nearer to the double, and the larger one where both are equally near.  It
is written positionally, without an exponent, however large or small it is.
-/

namespace CalendarCommand

namespace Binary64

/-- The interval of the decimals that are read as a double, as quarters of the unit of its
mantissa, with the double between its two ends. -/
structure Interval where
  lower : Nat
  center : Nat
  upper : Nat
  holdsEnds : Bool

def intervalOf (mantissa : Nat) (exponent : Int) : Interval :=
  let isLeast := mantissa = leastNormal ∧ exponent > leastExponent
  { lower := if isLeast then 4 * mantissa - 1 else 4 * mantissa - 2
    center := 4 * mantissa
    upper := 4 * mantissa + 2
    holdsEnds := mantissa % 2 == 0 }

/-- The fraction `n / 1` divided by a power of ten, as a fraction. -/
def unscaleByTen (n : Nat × Nat) (power : Int) : Nat × Nat :=
  if power < 0 then (n.1 * Nat.pow 10 power.natAbs, n.2) else (n.1, n.2 * Nat.pow 10 power.natAbs)

/-- The multiple of `10 ^ power` in the interval of a double, if there is one. -/
def multipleIn? (interval : Interval) (exponent power : Int) : Option Nat :=
  let inUnits := fun quarters => unscaleByTen (scale quarters 1 (exponent - 2)) power
  let lower := inUnits interval.lower
  let center := inUnits interval.center
  let upper := inUnits interval.upper
  let isIn := fun n =>
    if interval.holdsEnds then lower.1 ≤ n * lower.2 && n * upper.2 ≤ upper.1
    else lower.1 < n * lower.2 && n * upper.2 < upper.1
  let below := center.1 / center.2
  let isNearerBelow := 2 * (center.1 % center.2) < center.2
  if isIn below && (isNearerBelow || !isIn (below + 1)) then some below
  else if isIn (below + 1) then some (below + 1)
  else none

/-- The digits and the power of ten of the shortest decimal of a positive double. -/
def shortest (mantissa : Nat) (exponent : Int) : Nat × Int :=
  let interval := intervalOf mantissa exponent
  let found := (List.range 750).findSome? fun (step : Nat) =>
    let power : Int := 310 - step
    (multipleIn? interval exponent power).map fun digits => (digits, power)
  found.getD (0, 0)

/-- The decimal `digits * 10 ^ power` without an exponent. -/
def writePositional (digits : Nat) (power : Int) : List Char :=
  let text := Nat.toDigits 10 digits
  if 0 ≤ power then text ++ List.replicate power.natAbs '0'
  else
    let places := power.natAbs
    let padded := List.replicate (places + 1 - text.length) '0' ++ text
    padded.take (padded.length - places) ++ '.' :: padded.drop (padded.length - places)

def text : Binary64 → List Char
  | .notANumber => "NaN".toList
  | .infinite negative => if negative then "-inf".toList else "inf".toList
  | .finite negative mantissa exponent =>
    let magnitude :=
      if mantissa = 0 then ['0']
      else
        let decimal := shortest mantissa exponent
        writePositional decimal.1 decimal.2
    if negative then '-' :: magnitude else magnitude

end Binary64

end CalendarCommand
