import CalendarCommand.Exchange.Management
import CalendarCommand.Json.Reader

/-!
# Bodies of requests

The body of a request is decoded while it is read, so the first fault from left to right is the one
that counts.  A body that is no JSON is malformed.  A body in which a field has a value of the wrong
kind, occurs twice or is missing is misshapen, whatever follows the place where that shows.

Members of other names are passed over, and their values are looked at superficially.
-/

namespace CalendarCommand

/-- Why a body is no request. -/
inductive BodyFault where
  /-- The body is no JSON. -/
  | malformed
  /-- The body is JSON of another shape. -/
  | misshapen
deriving DecidableEq, Repr

namespace ManagementRequest

def fieldName : String := "ics"

/-- Reads the value of the field, and the text behind it. -/
def readField (text : List Char) : Except BodyFault (String × List Char) :=
  match Json.skipSpace text with
  | [] => .error .malformed
  | '"' :: rest =>
    match Json.readText? .complete rest with
    | none => .error .malformed
    | some read => .ok read
  | '[' :: _ => .error .misshapen
  | '\x7b' :: _ => .error .misshapen
  | text =>
    match Json.readScalar? .complete text with
    | none => .error .malformed
    | some _ => .error .misshapen

/-- Reads the value of a member; the field must not have been found before. -/
def readMember (found : Option String) (name : String) (text : List Char) :
    Except BodyFault (Option String × List Char) :=
  if name = fieldName then
    match found with
    | some _ => .error .misshapen
    | none =>
      match Json.skipSpace text with
      | ':' :: rest => (readField rest).map fun read => (some read.1, read.2)
      | _ => .error .malformed
  else
    match Json.skipSpace text with
    | ':' :: rest =>
      match Json.readValue? .superficial [] rest with
      | none => .error .malformed
      | some read => .ok (found, read.2)
    | _ => .error .malformed

/-- Reads the members of an object from the name of one of them on, up to the closing brace. -/
def readMembers (found : Option String) (text : List Char) : Except BodyFault (String × List Char) :=
  match Json.skipSpace text with
  | '"' :: named =>
    match Json.readText? .complete named with
    | none => .error .malformed
    | some (name, rest) =>
      match readMember found name rest with
      | .error fault => .error fault
      | .ok (found, rest) =>
        match Json.skipSpace rest with
        | ',' :: rest =>
          if _hrest : rest.length < text.length then readMembers found rest
          else .error .malformed
        | '\x7d' :: rest =>
          match found with
          | some value => .ok (value, rest)
          | none => .error .misshapen
        | _ => .error .malformed
  | _ => .error .malformed
termination_by text.length
decreasing_by exact _hrest

/-- Reads the items of an array behind its opening bracket, up to the closing one. -/
def readItems (text : List Char) : Except BodyFault (String × List Char) :=
  match Json.skipSpace text with
  | ']' :: _ => .error .misshapen
  | text =>
    match readField text with
    | .error fault => .error fault
    | .ok (value, rest) =>
      match Json.skipSpace rest with
      | ']' :: rest => .ok (value, rest)
      | _ => .error .malformed

def readRequest (text : List Char) : Except BodyFault (String × List Char) :=
  match Json.skipSpace text with
  | [] => .error .malformed
  | '[' :: rest => readItems rest
  | '\x7b' :: rest =>
    match Json.skipSpace rest with
    | '\x7d' :: _ => .error .misshapen
    | _ => readMembers none rest
  | text =>
    match Json.readScalar? .complete text with
    | none => .error .malformed
    | some _ => .error .misshapen

def ofBody (body : String) : Except BodyFault ManagementRequest :=
  match readRequest body.toList with
  | .error fault => .error fault
  | .ok (text, rest) => if (Json.skipSpace rest).isEmpty then .ok { text } else .error .malformed

end ManagementRequest

end CalendarCommand
