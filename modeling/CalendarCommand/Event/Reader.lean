import CalendarCommand.Component.Reader
import CalendarCommand.ContentLine.Unfold
import CalendarCommand.Event.Basic

/-!
# Reading events

The event of a calendar text is its first `VEVENT`, and the class, summary and description of an
event are the first properties of those names directly inside it.  Summary and description are
text values inside values of a component and are therefore unescaped twice.

The words in which the grammar of components turns a text down depend on the place in the text at
which it gives up.  They are a parameter, and nothing is said about them but what stands in front.
-/

namespace CalendarCommand

/-- The words in which a text that is not one component is turned down. -/
class SyntaxWording where
  refusal : List Char → String

/-- Words for a program that has no better ones. -/
instance (priority := low) plainSyntaxWording : SyntaxWording where
  refusal _ := "the text is not a calendar component"

inductive CalendarFault where
  /-- The unfolded text is not one component. -/
  | malformed (unfolded : List Char)
  /-- The component holds no event. -/
  | noEvent
  /-- A handler has refused a calendar text in words of its own. -/
  | refused (reason : String)
deriving DecidableEq, Repr

namespace CalendarFault

def message [SyntaxWording] : CalendarFault → String
  | .malformed unfolded => "error: " ++ SyntaxWording.refusal unfolded
  | .noEvent => "No VEVENT component found"
  | .refused reason => reason

end CalendarFault

namespace Event

def ofComponent (component : Component) : Event :=
  let content := fun name => (component.property? name).map Property.content
  let text := fun name => (content name).map fun value => String.ofList (ContentLine.unescape value)
  { classification := (content "CLASS").map fun value =>
      Classification.ofText (String.ofList value)
    summary := text "SUMMARY"
    narrative := text "DESCRIPTION" }

def ofText (text : String) : Except CalendarFault Event :=
  match Component.ofText? (ContentLine.unfoldPiecewise text.toList) with
  | none => .error (.malformed (ContentLine.unfoldPiecewise text.toList))
  | some component =>
    match component.event? with
    | none => .error .noEvent
    | some event => .ok (ofComponent event)

end Event

end CalendarCommand
