import CalendarCommand.ContentLine.Fold
import CalendarCommand.ContentLine.TextValue

/-!
# Splicing a DESCRIPTION

A stored calendar text is an opaque sequence of physical lines.  The splice replaces the lines of
its first DESCRIPTION property, that is the first line that opens the property and the
continuation lines directly behind it, and copies every other character.

The new lines carry the terminator of the line they replace, so that the text keeps its physical
format, and the last of them ends as the last replaced line did.
-/

namespace CalendarCommand.ContentLine

def descriptionName : List Char :=
  "DESCRIPTION".toList

/-- A text cut around its first DESCRIPTION property, in physical lines. -/
structure DescriptionSpan where
  before : List (List Char)
  first : List Char
  continuations : List (List Char)
  after : List (List Char)
deriving DecidableEq, Repr

namespace DescriptionSpan

def ofLines? (lines : List (List Char)) : Option DescriptionSpan :=
  let opens := opensProperty descriptionName
  match lines.dropWhile fun line => !opens line with
  | [] => none
  | first :: rest => some
      { before := lines.takeWhile fun line => !opens line
        first := first
        continuations := rest.takeWhile isContinuation
        after := rest.dropWhile isContinuation }

def ofText? (text : List Char) : Option DescriptionSpan :=
  ofLines? (physicalLines text)

def last (span : DescriptionSpan) : List Char :=
  span.continuations.getLastD span.first

/-- The terminator between the new lines of a span in `text`: that of the first replaced line, or
the one the text uses where that line has none. -/
def separator (span : DescriptionSpan) (text : List Char) : Terminator :=
  match terminator span.first with
  | .absent => prevailingTerminator text
  | found => found

end DescriptionSpan

/-- The logical line of a DESCRIPTION property with the given value. -/
def descriptionLine (narrative : List Char) : List Char :=
  descriptionName ++ ':' :: escape narrative

/-- The text with the value of its first DESCRIPTION property replaced, folded at a width; `none`
where no line opens that property. -/
def spliceDescription (text narrative : List Char) (width : Nat) : Option (List Char) :=
  (DescriptionSpan.ofText? text).map fun span =>
    let separator := (span.separator text).text
    span.before.flatten ++ separator.intercalate (fold (descriptionLine narrative) width) ++
      (terminator span.last).text ++ span.after.flatten

end CalendarCommand.ContentLine
