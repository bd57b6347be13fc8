import CalendarCommand.Component.Basic
import CalendarCommand.ContentLine.Fold

/-!
# Writing components

A component is written as a sequence of logical lines: its `BEGIN` mark, the lines of its items in
their order, and its `END` mark.  Each logical line is then folded at a width of its own, and all
physical lines end with one terminator.
-/

namespace CalendarCommand

namespace Property

/-- The logical line of a property without parameters. -/
def logicalLine (property : Property) : List Char :=
  property.name ++ ':' :: property.value

end Property

mutual

def Item.logicalLines : Item → List (List Char)
  | .property property => [property.logicalLine]
  | .component name items =>
    ("BEGIN:".toList ++ name) :: logicalLinesOf items ++ ["END:".toList ++ name]

def logicalLinesOf : List Item → List (List Char)
  | [] => []
  | item :: items => item.logicalLines ++ logicalLinesOf items

end

namespace Component

def toItem (component : Component) : Item :=
  .component component.name component.items

def logicalLines (component : Component) : List (List Char) :=
  component.toItem.logicalLines

end Component

namespace ContentLine

/-- A logical line folded at a width, every physical line with its terminator. -/
def writeLine (terminator : Terminator) (width : Nat) (line : List Char) : List Char :=
  (fold line width).flatMap fun physical => physical ++ terminator.text

/-- Logical lines, each folded at the width that stands beside it. -/
def writeLines (terminator : Terminator) (lines : List (List Char × Nat)) : List Char :=
  lines.flatMap fun line => writeLine terminator line.2 line.1

end ContentLine

end CalendarCommand
