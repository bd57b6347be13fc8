import CalendarCommand.Text.Blank

/-!
# Events

A management command arrives as an ordinary calendar event.  Three of its properties matter: the
class, which says who may see the event, the summary, which names the command, and the
description, which is the narrative that commands append to.  Any of them may be absent.

The text of a class is compared after trimming and without regard to the case of ASCII letters,
so each of the three known classes is read from all its spellings and from nothing else.
-/

namespace CalendarCommand

/-- Who may see an event. -/
inductive Classification where
  | publicClass
  | privateClass
  | confidential
  | other (label : String)
deriving DecidableEq, Repr

namespace Classification

/-- The class that a text names; a text that names none of the known ones is kept, trimmed and
with its ASCII letters in upper case. -/
def ofText (text : String) : Classification :=
  let label := (Text.trim text.toList).map Char.toUpper
  if label = "PUBLIC".toList then .publicClass
  else if label = "PRIVATE".toList then .privateClass
  else if label = "CONFIDENTIAL".toList then .confidential
  else .other (String.ofList label)

/-- The text that a calendar holds for a class. -/
def text : Classification → String
  | .publicClass => "PUBLIC"
  | .privateClass => "PRIVATE"
  | .confidential => "CONFIDENTIAL"
  | .other label => label

end Classification

/-- The part of a calendar event that commands look at. -/
structure Event where
  classification : Option Classification
  summary : Option String
  narrative : Option String
deriving DecidableEq, Repr

namespace Event

def empty : Event :=
  { classification := none, summary := none, narrative := none }

def isPrivate (event : Event) : Bool :=
  event.classification == some .privateClass

/-- The name of the command that the event asks for: its summary, trimmed. -/
def commandName? (event : Event) : Option String :=
  event.summary.map Text.trimString

end Event

end CalendarCommand
