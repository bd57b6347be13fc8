import CalendarCommand.Command.Fault

/-!
# Failures of the command line

A failure says what could not be done and, where something else is to blame, the cause.  On its own
it is reported over several lines with the cause set in; inside other output it is told on one line.
-/

namespace CalendarCommand

namespace CommandLine

inductive Failure where
  | settingsNotLoaded (path : Option String) (error : CommandFault)
  | settingsRefused (error : CommandFault)
  | fileNotRead (path : String) (fault : FileFault)
  | fileNotWritten (path : String) (fault : FileFault)
  | directoryNotRead (path : String) (fault : FileFault)
  | notParsed (path : String) (fault : CalendarFault)
  | notApplied (path : String) (error : CommandFault)
  /-- There is no terminal at which to ask for a confirmation. -/
  | notConfirmed
  | commandsFailed (failures total : Nat)
deriving DecidableEq, Repr

namespace Failure

def headline [SyntaxWording] : Failure → String
  | .settingsNotLoaded none _ => "Failed to load config"
  | .settingsNotLoaded (some path) _ => "Failed to load config from " ++ path
  | .settingsRefused error => error.message
  | .fileNotRead path _ => "Failed to read " ++ path
  | .fileNotWritten path _ => "Failed to write " ++ path
  | .directoryNotRead path _ => "Failed to read directory " ++ path
  | .notParsed path _ => "Failed to parse " ++ path
  | .notApplied path _ => "Failed to apply " ++ path
  | .notConfirmed => "IO error: not a terminal"
  | .commandsFailed failures total =>
    toString failures ++ " of " ++ toString total ++ " commands failed"

def cause? [SyntaxWording] : Failure → Option String
  | .settingsNotLoaded _ error => some error.message
  | .fileNotRead _ fault => some fault.message
  | .fileNotWritten _ fault => some fault.message
  | .directoryNotRead _ fault => some fault.message
  | .notParsed _ fault => some (CommandFault.calendar fault).message
  | .notApplied _ error => some error.message
  | _ => none

def indent (text : String) : String :=
  "\n".intercalate ((text.splitOn "\n").map fun line => "    " ++ line)

/-- The failure over several lines. -/
def report [SyntaxWording] (failure : Failure) : String :=
  match failure.cause? with
  | none => "Error: " ++ failure.headline
  | some cause => "Error: " ++ failure.headline ++ "\n\nCaused by:\n" ++ indent cause

def inline [SyntaxWording] (failure : Failure) : String :=
  match failure.cause? with
  | none => failure.headline
  | some cause => failure.headline ++ ": " ++ cause

end Failure

end CommandLine

end CalendarCommand
