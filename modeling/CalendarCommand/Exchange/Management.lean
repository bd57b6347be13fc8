import CalendarCommand.Command.Outcome
import CalendarCommand.Exchange.Record

/-!
# Requests and responses in JSON

A request carries a calendar text.  The response tells what came of it: the member `outcome` says
whether the text held a command, and for a command there are its name, what became of the stored
text, and, where they exist, the new narrative and the new text.
-/

namespace CalendarCommand

/-- A calendar text that is handed in to be handled. -/
structure ManagementRequest where
  text : String
deriving DecidableEq, Repr

/-- What happened to the stored calendar text, without the text itself. -/
inductive BlockStatus where
  | replaced
  | skipped
  | unchanged
  | notRequested
deriving DecidableEq, Repr

/-- The answer to a request; the text is the one to store, if there is a new one. -/
inductive ManagementResponse where
  | notCommand
  | applied (command : String) (narrative : Option String) (status : BlockStatus)
      (text : Option String)
deriving DecidableEq, Repr

namespace ManagementRequest

def toJson (request : ManagementRequest) : Json :=
  .object [("ics", .string request.text)]

def ofJson? : Json → Option ManagementRequest
  | .object members =>
    (Json.onlyMember? members "ics").bind fun text =>
      (Json.required? Json.string? text).map fun text => { text }
  | .array [text] => text.string?.map fun text => { text }
  | _ => none

end ManagementRequest

namespace BlockStatus

def name : BlockStatus → String
  | .replaced => "rewritten"
  | .skipped => "skipped"
  | .unchanged => "unchanged"
  | .notRequested => "not_requested"

def toJson (status : BlockStatus) : Json :=
  .string status.name

def ofName? (name : String) : Option BlockStatus :=
  if name = "rewritten" then some .replaced
  else if name = "skipped" then some .skipped
  else if name = "unchanged" then some .unchanged
  else if name = "not_requested" then some .notRequested
  else none

def ofJson? (value : Json) : Option BlockStatus :=
  value.choiceName?.bind ofName?

/-- The status that a field of a response stands for; there an empty object is as good as `null`. -/
def ofField? : Json → Option BlockStatus
  | .object [(name, .object [])] => ofName? name
  | value => ofJson? value

end BlockStatus

namespace BlockEffect

def status : BlockEffect → BlockStatus
  | .replaced _ => .replaced
  | .skipped => .skipped
  | .unchanged => .unchanged
  | .notRequested => .notRequested

/-- The text to store, if there is a new one. -/
def text? : BlockEffect → Option String
  | .replaced text => some text
  | _ => none

end BlockEffect

namespace ManagementResponse

def ofOutcome : Outcome → ManagementResponse
  | .notCommand => .notCommand
  | .applied command narrative block => .applied command narrative block.status block.text?

def toJson : ManagementResponse → Json
  | .notCommand => .object [("outcome", .string "not_a_command")]
  | .applied command narrative status text =>
    .object
      ([("outcome", .string "applied"), ("command", .string command)] ++
        Json.textMember "narrative" narrative ++ [("rewrite", status.toJson)] ++
        Json.textMember "ics" text)

def ofFields? (command narrative status text : Option Json) : Option ManagementResponse :=
  (Json.required? Json.string? command).bind fun command =>
    (Json.optional? Json.string? narrative).bind fun narrative =>
      (Json.required? BlockStatus.ofField? status).bind fun status =>
        (Json.optional? Json.string? text).map fun text =>
          .applied command narrative status text

/-- The response about a command, of the members beside its outcome. -/
def ofMembers? (members : List (String × Json)) : Option ManagementResponse :=
  (Json.onlyMember? members "command").bind fun command =>
    (Json.onlyMember? members "narrative").bind fun narrative =>
      (Json.onlyMember? members "rewrite").bind fun status =>
        (Json.onlyMember? members "ics").bind fun text =>
          ofFields? command narrative status text

/-- The response that a JSON value stands for; in an array the outcome comes first. -/
def ofJson? : Json → Option ManagementResponse
  | .object members =>
    match Json.onlyMember? members "outcome" with
    | some (some (.string "not_a_command")) => some .notCommand
    | some (some (.string "applied")) => ofMembers? members
    | _ => none
  | .array [.string "not_a_command"] => some .notCommand
  | .array [.string "applied", command, narrative, status, text] =>
    ofFields? (some command) (some narrative) (some status) (some text)
  | _ => none

end ManagementResponse

end CalendarCommand
