import CalendarCommand.Command.Outcome
import CalendarCommand.Command.Registry
import CalendarCommand.ContentLine.Splice
import CalendarCommand.Settings.Basic
import CalendarCommand.Time.Stamp

/-!
# The engine

The engine recognises an event as a command, runs the handler of the command and appends what the
handler reports to the narrative of the event, behind a line that carries the time.  Where the
event comes from a stored calendar text, the new narrative is also spliced into that text.

The narrative only ever grows, and only when everything has succeeded: whatever goes wrong, the
event is returned as it was given.
-/

namespace CalendarCommand

/-- The registered commands and the settings they are carried out with. -/
structure Engine where
  registry : Registry
  foldWidth : Nat
  timestampFormat : String

namespace Engine

/-- The engine of a registry, with the width and the format of the settings. -/
def ofRegistry (registry : Registry) (settings : Settings) : Engine :=
  { registry
    foldWidth := settings.foldWidth.toNat
    timestampFormat := settings.timestampFormat }

/-- The engine of the built-in commands under the prefix of the settings, which must be valid. -/
def ofSettings (settings : Settings) : Except CommandFault Engine :=
  settings.validate.map fun _ =>
    ofRegistry (Registry.ofBuiltins (settings.commandPrefix.getD "")) settings

def isCommand (engine : Engine) (event : Event) : Bool :=
  engine.registry.isCommand event

/-- What is appended to a narrative: a line with the time between two empty ones, and the text. -/
def updateRecord (stamp text : String) : String :=
  "\n\n======= update (" ++ stamp ++ ") =======\n" ++ text

def withUpdate (engine : Engine) (now : DateTime) (narrative text : String) :
    Except CommandFault String :=
  match now.stamp? engine.timestampFormat with
  | none => .error (.settings (.invalidFormat engine.timestampFormat))
  | some stamp => .ok (narrative ++ updateRecord stamp text)

/-- What becomes of a stored text when the narrative has changed. -/
def updateBlock (engine : Engine) (narrative : String) : Option String → BlockEffect
  | none => .notRequested
  | some block =>
    match ContentLine.spliceDescription block.toList narrative.toList engine.foldWidth with
    | none => .skipped
    | some text => .replaced (String.ofList text)

/-- Carries out a command that is named by an event: the new narrative, if any, and the outcome. -/
def carryOut (engine : Engine) (now : DateTime) (event : Event) (block : Option String)
    (command : String) : Except CommandFault (Option String × Outcome) :=
  match engine.registry.handler? command with
  | none => .error (.unrecognized command)
  | some handler =>
    match handler event with
    | .error error => .error error
    | .ok report =>
      let text := report.getD ""
      if text = "" then .ok (none, .applied command none .unchanged)
      else
        match event.narrative with
        | none => .error (.narrativeMissing command)
        | some narrative =>
          match engine.withUpdate now narrative text with
          | .error error => .error error
          | .ok narrative =>
            .ok (some narrative,
              .applied command (some narrative) (engine.updateBlock narrative block))

/-- Handles an event at a time, with the calendar text it is stored in, if any.  The first part of
the answer is the event afterwards. -/
def handle (engine : Engine) (now : DateTime) (event : Event) (block : Option String) :
    Event × Except CommandFault Outcome :=
  if engine.isCommand event then
    match engine.carryOut now event block (event.commandName?.getD "") with
    | .error error => (event, .error error)
    | .ok (none, outcome) => (event, .ok outcome)
    | .ok (some narrative, outcome) => ({ event with narrative := some narrative }, .ok outcome)
  else (event, .ok .notCommand)

/-- Reads the event of a calendar text and handles it with that text as the stored one. -/
def handleText (engine : Engine) (now : DateTime) (text : String) :
    Except CommandFault (Event × Outcome) :=
  match Event.ofText text with
  | .error fault => .error (.calendar fault)
  | .ok event =>
    match engine.handle now event (some text) with
    | (_, .error error) => .error error
    | (event, .ok outcome) => .ok (event, outcome)

/-! ## Runs -/

/-- One call of the engine on an event: the time and the stored text. -/
structure Call where
  now : DateTime
  block : Option String

/-- The event after a sequence of calls, and the answers to them in their order. -/
def run (engine : Engine) (event : Event) : List Call → Event × List (Except CommandFault Outcome)
  | [] => (event, [])
  | call :: calls =>
    let step := engine.handle call.now event call.block
    let rest := engine.run step.1 calls
    (rest.1, step.2 :: rest.2)

/-- A stored text after a sequence of times at which it is handled: each handling starts from the
text that the one before has left. -/
def runText (engine : Engine) (text : String) : List DateTime → String
  | [] => text
  | now :: times =>
    match engine.handleText now text with
    | .ok (_, outcome) => engine.runText (outcome.replacement?.getD text) times
    | .error _ => engine.runText text times

end Engine

end CalendarCommand
