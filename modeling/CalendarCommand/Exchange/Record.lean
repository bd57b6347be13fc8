import CalendarCommand.Json.Basic

/-!
# Records in JSON

A record is exchanged as an object with a member for each field, or as an array of its fields in
their order.  In an object a field that may be absent is absent or `null`, members of other names
are passed over, and no field occurs twice.  A choice without data is exchanged as its name, or as
an object whose only member has that name and `null` for its value.
-/

namespace CalendarCommand

namespace Json

/-- The member of a name, if there is one; `none` where the name occurs more than once. -/
def onlyMember? (members : List (String × Json)) (name : String) : Option (Option Json) :=
  match members.filter fun member => member.1 == name with
  | [] => some none
  | [member] => some (some member.2)
  | _ => none

def optional? {α : Type} (decode : Json → Option α) : Option Json → Option (Option α)
  | none => some none
  | some .null => some none
  | some value => (decode value).map some

/-- The value of a field that may be left out. -/
def withDefault? {α : Type} (default : α) (decode : Json → Option α) : Option Json → Option α
  | none => some default
  | some value => decode value

def required? {α : Type} (decode : Json → Option α) : Option Json → Option α
  | none => none
  | some value => decode value

def word? (value : Json) : Option UInt64 :=
  value.integer?.bind fun n =>
    if 0 ≤ n ∧ n.toNat < UInt64.size then some (UInt64.ofNat n.toNat) else none

/-- The name of a choice without data. -/
def choiceName? : Json → Option String
  | .string name => some name
  | .object [(name, .null)] => some name
  | _ => none

def ofOptionalText : Option String → Json
  | none => .null
  | some text => .string text

/-- A member for a text that is left out where the text is absent. -/
def textMember (name : String) : Option String → List (String × Json)
  | none => []
  | some text => [(name, .string text)]

end Json

end CalendarCommand
