import CalendarCommand.Decimal.Shortest
import CalendarCommand.Toml.Basic

/-!
# Converting values of settings

The value that a source gives to a key need not be of the kind that the key holds.  A width is also
taken from a number with a fraction, which is rounded, from a choice between on and off, which
counts as one and zero, and from a text that says one of these.  A text is also taken from any other
single value as it is written out.  Arrays and tables are neither.
-/

namespace CalendarCommand

namespace Settings

def largestWidth : Nat := 0xFFFFFFFFFFFFFFFF

def widthOfNat? (n : Nat) : Option UInt64 :=
  if n ≤ largestWidth then some (UInt64.ofNat n) else none

/-- The number of digits to base ten, one at least. -/
def natOfDigits? (text : List Char) : Option Nat :=
  if text.isEmpty ∨ text.any (fun c => !c.isDigit) then none
  else some (text.foldl (fun n c => n * 10 + (c.toNat - 48)) 0)

/-- The number of a text, behind a plus sign or without one. -/
def natOfText? : List Char → Option Nat
  | '+' :: digits => natOfDigits? digits
  | digits => natOfDigits? digits

/-- The side of a choice that a word stands for; the case of its letters does not matter. -/
def choiceOfWord? (word : String) : Option Bool :=
  let lower := word.map Char.toLower
  if ["true", "on", "yes"].contains lower then some true
  else if ["false", "off", "no"].contains lower then some false
  else none

def widthOf? : Toml → Option UInt64
  | .integer value => if 0 ≤ value then widthOfNat? value.natAbs else none
  | .float value => widthOfNat? (value.roundToNat largestWidth)
  | .boolean value => some (if value then 1 else 0)
  | .string value =>
    match choiceOfWord? value with
    | some choice => some (if choice then 1 else 0)
    | none => (natOfText? value.toList).bind widthOfNat?
  | _ => none

def textOf? : Toml → Option String
  | .string value => some value
  | .integer value => some (toString value)
  | .float value => some (String.ofList value.text)
  | .boolean value => some (if value then "true" else "false")
  | .moment text => some text
  | _ => none

end Settings

end CalendarCommand
