import CalendarCommand.ContentLine.TextValue

/-!
# Components

A calendar text is one component: a name and a sequence of items, each a property or a component
of its own.  A property has a name, parameters and a value, which is kept as it stands in the
text.  What the value means depends on the parameter `VALUE`: a property of one of the types that
are not plain text keeps its value, and every other one holds an escaped text value.
-/

namespace CalendarCommand

/-- A parameter of a property; the value is absent where nothing follows the name. -/
structure Parameter where
  name : List Char
  value : Option (List Char)
deriving DecidableEq, Repr

structure Property where
  name : List Char
  parameters : List Parameter
  value : List Char
deriving DecidableEq, Repr

/-- What a component holds: a property, or a component with its own items. -/
inductive Item where
  | property (property : Property)
  | component (name : List Char) (items : List Item)
deriving Repr

/-- A component: its name and its items in the order of the text. -/
structure Component where
  name : List Char
  items : List Item
deriving Repr

namespace Property

/-- The names of the value types whose values are not escaped. -/
def literalTypes : List String :=
  ["BINARY", "BOOLEAN", "CAL-ADDRESS", "DATE", "DATE-TIME", "DURATION", "FLOAT", "INTEGER",
    "PERIOD", "RECUR", "TIME", "URI", "UTC-OFFSET"]

/-- The value of the first parameter `VALUE`. -/
def valueType? (property : Property) : Option (List Char) :=
  (property.parameters.find? fun parameter => parameter.name == "VALUE".toList).bind
    Parameter.value

/-- The property names a type whose values are not escaped. -/
def isLiteral (property : Property) : Bool :=
  match property.valueType? with
  | none => false
  | some type => literalTypes.any fun name => name.toList == type

/-- The characters that the value of a property escapes by a backslash in front of them. -/
def isValueMark (c : Char) : Bool :=
  ContentLine.isTextMark c || c == ':'

def content (property : Property) : List Char :=
  if property.isLiteral then property.value
  else ContentLine.unescapeWith isValueMark property.value

end Property

namespace Component

def children (component : Component) : List Component :=
  component.items.filterMap fun
    | .property _ => none
    | .component name items => some { name, items }

def properties (component : Component) : List Property :=
  component.items.filterMap fun
    | .property property => some property
    | .component _ _ => none

/-- The first property of a component with exactly the given name. -/
def property? (component : Component) (name : String) : Option Property :=
  component.properties.find? fun property => property.name == name.toList

/-- The components among which the event of a calendar is looked for: the children of a
`VCALENDAR`, and any other component itself. -/
def candidates (component : Component) : List Component :=
  if component.name = "VCALENDAR".toList then component.children else [component]

/-- The first candidate named exactly `VEVENT`. -/
def event? (component : Component) : Option Component :=
  component.candidates.find? fun candidate => candidate.name == "VEVENT".toList

end Component

end CalendarCommand
