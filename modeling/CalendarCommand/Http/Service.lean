import CalendarCommand.Command.Engine
import CalendarCommand.Http.Body
import CalendarCommand.Http.MediaType
import CalendarCommand.Http.Target

/-!
# The service

The service lists the identifiers of the commands and handles calendar texts that are handed in.
A request is turned down for the first of these reasons that applies: nothing is served at its path,
its method is not the one served there, its body is not declared as JSON, its body is no JSON, or
the JSON has another shape.  Such an answer has no body of its own; an error of the engine is
answered with its wording.

A server may also turn down a body for its size, with the status 413.  Such a bound (two mebibytes
unless it is set otherwise) is left out here: a body of any size is read.
-/

namespace CalendarCommand

namespace Http

structure Request where
  method : String
  /-- The path or the whole address that is asked for. -/
  target : String
  contentType : Option String
  body : String
deriving DecidableEq, Repr

structure Response where
  status : Nat
  body : Option Json
deriving Repr

/-- What is served at a path. -/
inductive Resource where
  | commands
  | management
deriving DecidableEq, Repr

def Resource.ofPath? (path : String) : Option Resource :=
  if path = "/commands" then some .commands
  else if path = "/manage-event" then some .management
  else none

namespace Request

def resource? (request : Request) : Option Resource :=
  (Target.path? request.target).bind Resource.ofPath?

def declaresJson (request : Request) : Bool :=
  match request.contentType.bind MediaType.ofText? with
  | some mediaType => mediaType.isJson
  | none => false

end Request

namespace Response

/-- An answer without a body. -/
def plain (status : Nat) : Response :=
  { status, body := none }

def statusOf (error : CommandFault) : Nat :=
  if error.blamesInput then 400
  else
    match error with
    | .settings _ => 500
    | _ => 422

def ofError [SyntaxWording] (error : CommandFault) : Response :=
  { status := statusOf error, body := some (.object [("error", .string error.message)]) }

/-- The answer to a body that holds no request. -/
def ofBodyFault : BodyFault → Response
  | .malformed => plain 400
  | .misshapen => plain 422

end Response

def listCommands (engine : Engine) : Response :=
  { status := 200, body := some (.array (engine.registry.ids.map Json.string)) }

def manage [SyntaxWording] (engine : Engine) (now : DateTime) (request : ManagementRequest) :
    Response :=
  match engine.handleText now request.text with
  | .error error => Response.ofError error
  | .ok (_, outcome) =>
    { status := 200, body := some (ManagementResponse.ofOutcome outcome).toJson }

def manageBody [SyntaxWording] (engine : Engine) (now : DateTime) (request : Request) : Response :=
  if request.declaresJson then
    match ManagementRequest.ofBody request.body with
    | .error fault => Response.ofBodyFault fault
    | .ok request => manage engine now request
  else Response.plain 415

def answer [SyntaxWording] (engine : Engine) (now : DateTime) (request : Request) : Response :=
  match request.resource? with
  | none => Response.plain 404
  | some .commands =>
    if request.method = "GET" then listCommands engine
    else if request.method = "HEAD" then Response.plain 200
    else Response.plain 405
  | some .management =>
    if request.method = "POST" then manageBody engine now request else Response.plain 405

end Http

end CalendarCommand
