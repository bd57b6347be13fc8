import CalendarCommand.Settings.Basic

/-!
# The default settings file

The default settings file names every key with its default value, in comments.  It therefore says
nothing, and whoever loads it gets the default settings.
-/

namespace CalendarCommand

namespace Settings

def defaultFile : String :=
  "# calmanage configuration\n" ++
  "\n" ++
  "# Maximum content-line width when rewriting DESCRIPTION:\n" ++
  "# fold_width = " ++ toString ContentLine.defaultWidth ++ "\n" ++
  "\n" ++
  "# Timestamp format of the audit separator line:\n" ++
  "# timestamp_format = \"" ++ default.timestampFormat ++ "\"\n" ++
  "\n" ++
  "# Namespace in front of every command name:\n" ++
  "# command_prefix = \"calendar-manage: \"\n"

/-- Writes the default settings file to a path, and makes the directories on its way. -/
def writeDefaultFile (tree : FileTree) (directory : Place) (path : String) :
    Except CommandFault FileTree :=
  let parents := (Path.dropTrailing (Path.names path)).dropLast
  match tree.makeDirectories (Path.origin directory path) parents with
  | .error fault => .error (.settings (.directoryNotMade fault))
  | .ok tree =>
    match tree.write directory path defaultFile with
    | .error fault => .error (.settings (.fileNotWritten fault))
    | .ok tree => .ok tree

end Settings

end CalendarCommand
