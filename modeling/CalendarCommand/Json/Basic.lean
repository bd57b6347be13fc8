/-!
# JSON values

A JSON value keeps the members of an object in the order of the text, repeated names included.
Integers and all other numbers are kept apart, because a field that holds a count admits integers
only; any other number is kept as its literal.
-/

namespace CalendarCommand

inductive Json where
  | null
  | boolean (value : Bool)
  | integer (value : Int)
  /-- A number that is not written as an integer, with its literal. -/
  | decimal (literal : String)
  | string (value : String)
  | array (items : List Json)
  | object (members : List (String × Json))
deriving Repr, Inhabited

namespace Json

def isNull : Json → Bool
  | .null => true
  | _ => false

def string? : Json → Option String
  | .string value => some value
  | _ => none

def integer? : Json → Option Int
  | .integer value => some value
  | _ => none

def members? : Json → Option (List (String × Json))
  | .object members => some members
  | _ => none

def items? : Json → Option (List Json)
  | .array items => some items
  | _ => none

/-- The member of a name, `null` where an object has none or the value is no object. -/
def get (value : Json) (name : String) : Json :=
  match value with
  | .object members => ((members.find? fun member => member.1 == name).map Prod.snd).getD .null
  | _ => .null

end Json

end CalendarCommand
