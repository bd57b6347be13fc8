/-!
# Outcomes

An outcome tells what came of an event that was handed to the engine without an error: that it is
no command, or which command was carried out, what the narrative has become, and what happened to
the stored calendar text.
-/

namespace CalendarCommand

/-- What happened to the stored calendar text. -/
inductive BlockEffect where
  /-- The text has a new description and is to be stored. -/
  | replaced (text : String)
  /-- The text has no description line and stays as it is. -/
  | skipped
  /-- The command produced no text, so nothing was to be changed. -/
  | unchanged
  /-- No stored text was given. -/
  | notRequested
deriving DecidableEq, Repr

/-- What came of an event. -/
inductive Outcome where
  /-- The event is an ordinary one. -/
  | notCommand
  /-- The command was carried out; the narrative is the new one, if the command appended to it. -/
  | applied (command : String) (narrative : Option String) (block : BlockEffect)
deriving DecidableEq, Repr

namespace Outcome

def isApplied : Outcome → Bool
  | .notCommand => false
  | .applied .. => true

/-- The calendar text to store, if there is a new one. -/
def replacement? : Outcome → Option String
  | .applied _ _ (.replaced text) => some text
  | _ => none

end Outcome

end CalendarCommand
