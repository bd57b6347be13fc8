import CalendarCommand.CommandLine.Arguments
import CalendarCommand.CommandLine.Tasks
import CalendarCommand.Settings.Location

/-!
# Running the command line

The settings are loaded before anything else is done, from the path that is given or from the
default one.  A run ends well, with a failure, or, where the arguments ask for nothing that can be
done, before anything has happened.
-/

namespace CalendarCommand

namespace CommandLine

/-- Where the command line runs: the files, the directory it works in, and the variables. -/
structure Surroundings where
  tree : FileTree
  directory : Place
  environment : Environment

inductive Ending where
  | done
  | failed (failure : Failure)
  /-- The arguments are not understood. -/
  | misused
deriving DecidableEq, Repr

namespace Ending

def exitCode : Ending → Nat
  | .done => 0
  | .failed _ => 1
  | .misused => 2

def errorText? [SyntaxWording] : Ending → Option String
  | .failed failure => some failure.report
  | _ => none

end Ending

structure Run where
  output : String
  tree : FileTree
  ending : Ending

namespace Run

def ofReport (report : Report) : Run :=
  { output := report.output
    tree := report.tree
    ending := match report.failure with | none => .done | some failure => .failed failure }

/-- A run that fails before it has done anything. -/
def failedAt (tree : FileTree) (failure : Failure) : Run :=
  { output := "", tree, ending := .failed failure }

end Run

def loadEngine [SettingsLibrary] (surroundings : Surroundings) (path : Option String) :
    Except Failure Engine :=
  let loaded :=
    match path with
    | some path =>
      Settings.load surroundings.tree surroundings.directory surroundings.environment path
    | none =>
      Settings.loadDefault surroundings.tree surroundings.directory surroundings.environment
  match loaded with
  | .error error => .error (.settingsNotLoaded path error)
  | .ok settings =>
    match Engine.ofSettings settings with
    | .error error => .error (.settingsRefused error)
    | .ok engine => .ok engine

def runTask [SyntaxWording] (engine : Engine) (now : DateTime) (tree : FileTree)
    (directory : Place) : Task → Report
  | .commands => { output := line engine.registry.listing, tree, failure := none }
  | .check file json => runCheck engine tree directory file json
  | .apply file dryRun json => runApply engine now tree directory file dryRun json
  | .applyAll path dryRun force => runApplyAll engine now tree directory path dryRun force

def run [SyntaxWording] [SettingsLibrary] (now : DateTime) (surroundings : Surroundings)
    (arguments : List String) : Run :=
  match Invocation.ofArguments? arguments with
  | none => { output := "", tree := surroundings.tree, ending := .misused }
  | some invocation =>
    match loadEngine surroundings invocation.settingsPath with
    | .error failure => Run.failedAt surroundings.tree failure
    | .ok engine =>
      Run.ofReport
        (runTask engine now surroundings.tree surroundings.directory invocation.task)

end CommandLine

end CalendarCommand
