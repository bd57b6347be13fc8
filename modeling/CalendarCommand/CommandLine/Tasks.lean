import CalendarCommand.Command.Engine
import CalendarCommand.CommandLine.Failure
import CalendarCommand.CommandLine.Style
import CalendarCommand.Exchange.Management
import CalendarCommand.Json.Printer

/-!
# The tasks of the command line

A task reads calendar files, asks the engine about them, and says what came of it.  Applying a file
replaces its text by the new one, unless it is asked to leave all files as they are.  Applying a
directory goes through its calendar files that hold a command, in the order of their names; each is
applied by itself, and one that fails does not stop the others.
-/

namespace CalendarCommand

namespace CommandLine

/-- What a task leaves behind: its output, the files, and a failure if there was one. -/
structure Report where
  output : String
  tree : FileTree
  failure : Option Failure

def line (text : String) : String :=
  text ++ "\n"

/-! ## Checking -/

/-- The command in the event of a file, if the event is one. -/
def check (engine : Engine) (tree : FileTree) (directory : Place) (path : String) :
    Except Failure (Option String) :=
  match tree.read directory path with
  | .error fault => .error (.fileNotRead path fault)
  | .ok text =>
    match Event.ofText text with
    | .error fault => .error (.notParsed path fault)
    | .ok event => .ok (if engine.isCommand event then event.commandName? else none)

/-- The answer to a check for programs. -/
def checkJson (command : Option String) : Json :=
  .object [("command", Json.ofOptionalText command), ("is_command", .boolean command.isSome)]

/-- The answer to a check for readers. -/
def checkNotice : Option String → String
  | some command => green "command:" ++ " " ++ bold command
  | none => notCommandNotice

def runCheck (engine : Engine) (tree : FileTree) (directory : Place) (path : String)
    (json : Bool) : Report :=
  match check engine tree directory path with
  | .error failure => { output := "", tree, failure := some failure }
  | .ok command =>
    { output := line (if json then (checkJson command).pretty else checkNotice command)
      tree
      failure := none }

/-! ## Applying a file -/

/-- Stores the new text of an outcome in a file, if there is one. -/
def store (tree : FileTree) (directory : Place) (path : String) (outcome : Outcome) :
    FileTree × Except Failure Outcome :=
  match outcome.replacement? with
  | none => (tree, .ok outcome)
  | some text =>
    match tree.write directory path text with
    | .error fault => (tree, .error (.fileNotWritten path fault))
    | .ok tree => (tree, .ok outcome)

/-- Carries out the command in a file; the first part of the answer is the files afterwards. -/
def applyOne (engine : Engine) (now : DateTime) (tree : FileTree) (directory : Place)
    (path : String) (dryRun : Bool) : FileTree × Except Failure Outcome :=
  match tree.read directory path with
  | .error fault => (tree, .error (.fileNotRead path fault))
  | .ok text =>
    match engine.handleText now text with
    | .error error => (tree, .error (.notApplied path error))
    | .ok (_, outcome) => if dryRun then (tree, .ok outcome) else store tree directory path outcome

/-- What is said about an applied file: the outcome and, where no file is changed, the new text. -/
def applyOutput (dryRun json : Bool) (outcome : Outcome) : String :=
  if json then line (ManagementResponse.ofOutcome outcome).toJson.pretty
  else
    let preview := if dryRun then (outcome.replacement?.map fun text => "\n" ++ text).getD "" else ""
    line outcome.notice ++ preview

def runApply (engine : Engine) (now : DateTime) (tree : FileTree) (directory : Place)
    (path : String) (dryRun json : Bool) : Report :=
  match applyOne engine now tree directory path dryRun with
  | (tree, .error failure) => { output := "", tree, failure := some failure }
  | (tree, .ok outcome) => { output := applyOutput dryRun json outcome, tree, failure := none }

/-! ## Applying a directory -/

structure Candidate where
  name : String
  command : String
deriving DecidableEq, Repr

def isCalendarName (name : String) : Bool :=
  Path.extension? name == some "ics"

def sortNames (names : List String) : List String :=
  names.mergeSort fun a b => !decide (b < a)

/-- The command in the event of a calendar text; none where the text holds no event. -/
def commandIn? (engine : Engine) (text : String) : Option String :=
  match Event.ofText text with
  | .error _ => none
  | .ok event => if engine.isCommand event then event.commandName? else none

/-- The candidate of a name in the directory of a path, if its file holds a command. -/
def candidate? (engine : Engine) (tree : FileTree) (directory : Place) (path name : String) :
    Option Candidate :=
  match tree.read directory (Path.join path name) with
  | .error _ => none
  | .ok text => (commandIn? engine text).map fun command => { name, command }

/-- The calendar files in a directory that hold a command, in the order of their names. -/
def candidates (engine : Engine) (tree : FileTree) (directory : Place) (path : String) :
    Except Failure (List Candidate) :=
  match tree.list directory path with
  | .error fault => .error (.directoryNotRead path fault)
  | .ok names =>
    .ok ((sortNames (names.filter isCalendarName)).filterMap
      (candidate? engine tree directory path))

def applyEach (engine : Engine) (now : DateTime) (directory : Place) (path : String)
    (dryRun : Bool) (tree : FileTree) :
    List Candidate → FileTree × List (Candidate × Except Failure Outcome)
  | [] => (tree, [])
  | candidate :: candidates =>
    let first := applyOne engine now tree directory (Path.join path candidate.name) dryRun
    let rest := applyEach engine now directory path dryRun first.1 candidates
    (rest.1, (candidate, first.2) :: rest.2)

/-- What is said about a candidate before anything is applied. -/
def candidateNotice (candidate : Candidate) : String :=
  "   " ++ bold candidate.command ++ " " ++ dimmed candidate.name

def resultNotice [SyntaxWording] (result : Candidate × Except Failure Outcome) : String :=
  result.1.name ++ " " ++
    match result.2 with
    | .ok outcome => outcome.notice
    | .error failure => red failure.inline

def isFailure (result : Candidate × Except Failure Outcome) : Bool :=
  match result.2 with
  | .ok _ => false
  | .error _ => true

def summary? (results : List (Candidate × Except Failure Outcome)) : Option Failure :=
  let failures := results.countP isFailure
  if failures = 0 then none else some (.commandsFailed failures results.length)

def lines (texts : List String) : String :=
  String.join (texts.map line)

/-- Carries out the commands in the calendar files of a directory and tells the outcomes. -/
def runApplyAll [SyntaxWording] (engine : Engine) (now : DateTime) (tree : FileTree)
    (directory : Place) (path : String) (dryRun force : Bool) : Report :=
  match candidates engine tree directory path with
  | .error failure => { output := "", tree, failure := some failure }
  | .ok [] => { output := line (dimmed "No management commands found"), tree, failure := none }
  | .ok candidates =>
    let listing := lines (candidates.map candidateNotice ++ [""])
    if dryRun || force then
      let applied := applyEach engine now directory path dryRun tree candidates
      { output := listing ++ lines (applied.2.map resultNotice)
        tree := applied.1
        failure := summary? applied.2 }
    else { output := listing, tree, failure := some .notConfirmed }

end CommandLine

end CalendarCommand
