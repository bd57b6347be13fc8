import CalendarCommand.Toml.Scalar
import CalendarCommand.Toml.Text

/-!
# Keys that lead into values

The key under which a source gives a value may lead into the value of a name: behind the name stand
steps, each a point with the name of a member or the position of an item between brackets, where
blanks may surround the position.  Whatever has another form is a name as it stands.

A value given to a path is a value of the name in front of it: a table or an array that holds the
given value.
-/

namespace CalendarCommand

inductive KeyStep where
  | member (name : String)
  /-- Leads to an item of an array; a negative position counts from the end. -/
  | item (position : Int)
deriving DecidableEq, Repr

/-- A name and the steps that lead into its value. -/
structure KeyPath where
  name : String
  steps : List KeyStep
deriving DecidableEq, Repr

namespace KeyPath

/-- A name at the start of a text, and the text behind it. -/
def readName? (text : List Char) : Option (String × List Char) :=
  match text.takeWhile Toml.isKeyChar with
  | [] => none
  | name => some (String.ofList name, text.dropWhile Toml.isKeyChar)

/-- The position of digits with a sign, where it fits into 64 bits. -/
def position? (negative : Bool) (digits : List Char) : Option Int :=
  (Toml.plainDigits? 10 digits).bind fun digits =>
    match Toml.integer? negative (Toml.natOfDigits 10 digits) with
    | some (.integer position) => some position
    | _ => none

/-- A position at the start of a text, behind a minus sign or without one, and the text behind
it. -/
def readPosition? (text : List Char) : Option (Int × List Char) :=
  let unsigned := if text.head? = some '-' then text.drop 1 else text
  (position? (text.head? = some '-') (unsigned.takeWhile Char.isDigit)).map fun position =>
    (position, unsigned.dropWhile Char.isDigit)

/-- A step at the start of a text, and the text behind it. -/
def readStep? : List Char → Option (KeyStep × List Char)
  | '.' :: text => (readName? text).map fun read => (.member read.1, read.2)
  | '[' :: text =>
    (readPosition? (Toml.skipBlanks text)).bind fun read =>
      match Toml.skipBlanks read.2 with
      | ']' :: rest => some (.item read.1, rest)
      | _ => none
  | _ => none

def readSteps? (text : List Char) : Option (List KeyStep) :=
  if text.isEmpty then some []
  else
    match readStep? text with
    | none => none
    | some (step, rest) =>
      if _hrest : rest.length < text.length then (readSteps? rest).map fun steps => step :: steps
      else none
termination_by text.length
decreasing_by exact _hrest

/-- The path that a key consists of, if it has that form. -/
def ofText? (key : String) : Option KeyPath :=
  (readName? key.toList).bind fun read =>
    (readSteps? read.2).map fun steps => { name := read.1, steps }

/-- The path of a key; a key of another form is a name. -/
def ofText (key : String) : KeyPath :=
  (ofText? key).getD { name := key, steps := [] }

end KeyPath

/-- The value that holds a given one at the end of steps. -/
def Toml.enclose : List KeyStep → Toml → Toml
  | [], value => value
  | .member name :: steps, value => .table .dottedKey [(name, Toml.enclose steps value)]
  | .item _ :: steps, value => .array [Toml.enclose steps value]

end CalendarCommand
