/-!
# Doubles

A double is a sign with a binary fraction `mantissa * 2 ^ exponent`, an infinity, or no number at
all.  The mantissa has at most 53 bits, and exactly 53 unless the exponent is the least one.

A decimal is read as the double nearest to it; of two nearest doubles the one with the even mantissa
is taken, and what lies beyond the largest double is an infinity.
-/

namespace CalendarCommand

/-- A double; zero has the mantissa zero and the least exponent. -/
inductive Binary64 where
  | finite (negative : Bool) (mantissa : Nat) (exponent : Int)
  | infinite (negative : Bool)
  | notANumber
deriving DecidableEq, Repr

namespace Binary64

def leastExponent : Int := -1074

def largestExponent : Int := 971

/-- The least mantissa of 53 bits. -/
def leastNormal : Nat := 0x10000000000000

/-- The quotient rounded to the nearest number, a half to the even one. -/
def divideToEven (dividend divisor : Nat) : Nat :=
  let quotient := dividend / divisor
  let doubled := 2 * (dividend % divisor)
  if doubled < divisor then quotient
  else if divisor < doubled then quotient + 1
  else quotient + quotient % 2

/-- The fraction `dividend / divisor`, scaled by a power of two, as a fraction. -/
def scale (dividend divisor : Nat) (power : Int) : Nat × Nat :=
  if power < 0 then (dividend, divisor * Nat.pow 2 power.natAbs)
  else (dividend * Nat.pow 2 power.natAbs, divisor)

/-- The double of a mantissa of up to 54 bits; the lowest bit of a mantissa of 54 bits is zero. -/
def ofParts (negative : Bool) (mantissa : Nat) (exponent : Int) : Binary64 :=
  let fitted :=
    if mantissa = 2 * leastNormal then (leastNormal, exponent + 1) else (mantissa, exponent)
  if fitted.2 > largestExponent then .infinite negative
  else .finite negative fitted.1 fitted.2

/-- The double nearest to the fraction `dividend / divisor`, for a positive dividend. -/
def ofFraction (negative : Bool) (dividend divisor : Nat) : Binary64 :=
  let estimate := max ((dividend.log2 : Int) - divisor.log2 - 53) leastExponent
  let scaled := scale dividend divisor (-estimate)
  let exponent := if scaled.1 / scaled.2 ≥ 2 * leastNormal then estimate + 1 else estimate
  let scaled := scale dividend divisor (-exponent)
  ofParts negative (divideToEven scaled.1 scaled.2) exponent

def digitCount (n : Nat) : Nat :=
  (Nat.toDigits 10 n).length

def ofDecimal (negative : Bool) (digits : Nat) (power : Int) : Binary64 :=
  if digits = 0 then .finite negative 0 leastExponent
  else if digitCount digits + power > 400 then .infinite negative
  else if digitCount digits + power < -400 then .finite negative 0 leastExponent
  else if power < 0 then ofFraction negative digits (Nat.pow 10 power.natAbs)
  else ofFraction negative (digits * Nat.pow 10 power.natAbs) 1

def multiply : Binary64 → Binary64 → Binary64
  | .finite negative mantissa exponent, .finite negative' mantissa' exponent' =>
    let sign := negative != negative'
    if mantissa * mantissa' = 0 then .finite sign 0 leastExponent
    else
      let product := scale (mantissa * mantissa') 1 (exponent + exponent')
      ofFraction sign product.1 product.2
  | .infinite negative, .infinite negative' => .infinite (negative != negative')
  | .infinite negative, .finite negative' mantissa _ =>
    if mantissa = 0 then .notANumber else .infinite (negative != negative')
  | .finite negative mantissa _, .infinite negative' =>
    if mantissa = 0 then .notANumber else .infinite (negative != negative')
  | _, _ => .notANumber

def isInfinite : Binary64 → Bool
  | .infinite _ => true
  | _ => false

/-- The nearest natural number, a half going up; none lies below zero or above `largest`, and what
is no number is zero. -/
def roundToNat (largest : Nat) : Binary64 → Nat
  | .notANumber => 0
  | .infinite negative => if negative then 0 else largest
  | .finite negative mantissa exponent =>
    if negative then 0
    else
      let scaled := scale mantissa 1 exponent
      min ((2 * scaled.1 + scaled.2) / (2 * scaled.2)) largest

end Binary64

end CalendarCommand
