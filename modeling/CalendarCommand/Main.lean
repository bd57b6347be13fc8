import CalendarCommand.CommandLine.Run
import Std.Time.Zoned

/-!
# The program

The program looks at the files that its arguments lead to, runs the command line on what it has
seen, and puts the outcome into effect: the changed files are written, the output is printed, and
the ending decides the exit code.
-/

namespace CalendarCommand

namespace Program

def pathOf (place : Place) : String :=
  "/" ++ "/".intercalate place

/-- The places that a path leads through, from a directory on. -/
def placesOn (directory : Place) (path : String) : List Place :=
  let advance := fun (place : Place) (name : String) =>
    if name = "" ∨ name = "." then place
    else if name = ".." then place.dropLast
    else place ++ [name]
  let names := Path.names path
  (List.range (names.length + 1)).map fun count =>
    (names.take count).foldl advance (Path.origin directory path)

/-- The paths that an invocation leads to. -/
def pathsOf (environment : Environment) (invocation : CommandLine.Invocation) : List String :=
  let named := invocation.settingsPath.map (Path.expandHome (environment.value? "HOME"))
  let usual := Settings.defaultPath? (environment.value? "HOME") (environment.value? "XDG_CONFIG_HOME")
  let settings := (named.or usual).toList
  let endings := settings.flatMap fun path =>
    SettingsLibrary.endings.map fun ending => Path.addEnding path ("." ++ ending)
  settings ++ endings ++
    match invocation.task with
    | .commands => []
    | .check file _ => [file]
    | .apply file _ _ => [file]
    | .applyAll directory _ _ => [directory]

/-- The variables that bytes hold, each ended by a zero. -/
def environmentOfBytes (bytes : List UInt8) : Environment :=
  (bytes.splitOn 0).filterMap fun entry =>
    let text := (Text.ofBytesLossy entry).toList
    let name := text.takeWhile (· ≠ '=')
    if name.isEmpty then none
    else some (String.ofList name, String.ofList (text.drop (name.length + 1)))

/-! ## Looking -/

/-- The names in a directory; none where there is no directory. -/
def namesIn? (path : String) : IO (Option (List String)) := do
  try
    let entries ← (← IO.FS.realPath path).readDir
    return some (entries.toList.map fun entry => entry.fileName)
  catch _ => return none

def entryAt? (place : Place) : IO (Option FileEntry) := do
  match ← namesIn? (pathOf place) with
  | some _ => return some .directory
  | none =>
    try return some (.file (Content.ofBytes (← IO.FS.readBinFile (pathOf place)).toList))
    catch _ => return none

/-- The tree with what lies at places. -/
def look (tree : FileTree) (places : List Place) : IO FileTree :=
  places.foldlM
    (fun tree place => do
      match ← entryAt? place with
      | some entry => return tree.set place entry
      | none => return tree)
    tree

/-- The places of the calendar files in the directory that a task applies. -/
def calendarPlaces (tree : FileTree) (directory : Place) : CommandLine.Task → IO (List Place)
  | .applyAll path _ _ => do
    match tree.find directory path with
    | .ok (place, .directory) =>
      let names := ((← namesIn? (pathOf place)).getD []).filter CommandLine.isCalendarName
      return names.map fun name => place ++ [name]
    | _ => return []
  | _ => return []

/-- The variables of the program; without a list of all of them, those of the usual names. -/
def environment : IO Environment := do
  try return environmentOfBytes (← IO.FS.readBinFile "/proc/self/environ").toList
  catch _ =>
    let names :=
      ["HOME", "XDG_CONFIG_HOME", "CALMANAGE_FOLD_WIDTH", "CALMANAGE_TIMESTAMP_FORMAT",
        "CALMANAGE_COMMAND_PREFIX"]
    let values ← names.mapM fun name => return (← IO.getEnv name).map fun value => (name, value)
    return values.filterMap id

/-- The files that arguments lead to, with the directory the program works in. -/
def surroundings (arguments : List String) : IO CommandLine.Surroundings := do
  let environment ← environment
  let directory := (Path.names (← IO.currentDir).toString).filter (· ≠ "")
  let start := FileTree.empty.set directory .directory
  match CommandLine.Invocation.ofArguments? arguments with
  | none => return { tree := start, directory, environment }
  | some invocation =>
    let places := (pathsOf environment invocation).flatMap (placesOn directory)
    let tree ← look start places
    let tree ← look tree (← calendarPlaces tree directory invocation.task)
    return { tree, directory, environment }

/-! ## Acting -/

/-- Writes the texts that differ from what was seen. -/
def writeChanges (before after : FileTree) : IO Unit :=
  after.entries.forM fun entry => do
    match entry.2 with
    | .file (.text text) =>
      if before.entry? entry.1 ≠ some entry.2 then IO.FS.writeFile (pathOf entry.1) text
    | _ => return ()

def now : IO DateTime := do
  let time ← Std.Time.PlainDateTime.now
  let read := DateTime.ofNumbers? time.date.year.toInt time.date.month.val.toNat
    time.date.day.val.toNat time.time.hour.val.toNat time.time.minute.val.toNat
    time.time.second.val.toNat time.time.nanosecond.val.toNat
  return read.getD DateTime.epoch

def usage : String :=
  "Usage: calmanage [--config FILE] commands\n" ++
  "       calmanage [--config FILE] check [--json] FILE\n" ++
  "       calmanage [--config FILE] apply [--dry-run] [--json] FILE\n" ++
  "       calmanage [--config FILE] apply-all [--dry-run] [--force] DIRECTORY"

end Program

end CalendarCommand

open CalendarCommand in
def main (arguments : List String) : IO UInt32 := do
  let surroundings ← Program.surroundings arguments
  let run := CommandLine.run (← Program.now) surroundings arguments
  Program.writeChanges surroundings.tree run.tree
  IO.print run.output
  (← IO.getStdout).flush
  match run.ending with
  | .misused => IO.eprintln Program.usage
  | ending => (ending.errorText?).forM IO.eprintln
  return run.ending.exitCode.toUInt32
