import CalendarCommand.Settings.Layers
import CalendarCommand.Toml.Document

/-!
# The place of settings

Settings are read from the file that a path leads to.  The ending of its name tells the format of a
file, and a file whose name has no ending of a known format is passed over.  Where the path itself
leads to no file, the path with an ending added is tried, one known ending after the other, and
where none of them leads to a file the document is empty.

TOML is the format of the settings files that the program writes.  The library that reads them knows
further formats by their endings.  Which ones these are, what their documents come to, and in which
words a document or a value is turned down, are parameters.

Where no path is given, the settings lie in a directory of their own inside the directory for
settings, which a variable names or which lies in the home directory.
-/

namespace CalendarCommand

structure SettingsFile where
  path : String
  /-- The ending of the name, which tells the format. -/
  ending : String
  text : String
deriving DecidableEq, Repr

namespace Settings

def fileEnding : String := "toml"

end Settings

/-- What is up to the library that reads settings. -/
class SettingsLibrary where
  /-- The endings of the known formats in the order in which they are tried. -/
  endings : List String
  toml_mem : Settings.fileEnding ∈ endings
  /-- The settings of a document in another format and of variables, valid or not. -/
  readOther? : SettingsFile → Environment → Option Settings
  /-- The words in which a file and variables are turned down in a directory. -/
  refusal : Place → Option SettingsFile → Environment → String

/-- A library that knows the other formats by their endings but reads none of them. -/
instance (priority := low) tomlLibrary : SettingsLibrary where
  endings := [Settings.fileEnding, "json", "yaml", "yml", "ini", "ron", "json5"]
  toml_mem := List.mem_cons_self
  readOther? _ _ := none
  refusal _ _ _ := "the settings cannot be read"

namespace Settings

def file? [SettingsLibrary] (tree : FileTree) (directory : Place) (path : String) :
    Option SettingsFile :=
  match tree.content? directory path with
  | some content =>
    let ending := (Path.lastName? path).bind Path.extension?
    (ending.filter (· ∈ SettingsLibrary.endings)).map fun ending =>
      { path, ending, text := content.lossyText }
  | none =>
    SettingsLibrary.endings.findSome? fun ending =>
      let path := Path.addEnding path ("." ++ ending)
      (tree.content? directory path).map fun content =>
        { path, ending, text := content.lossyText }

/-- The text of a file without the mark of its byte order. -/
def withoutMark (text : String) : String :=
  String.ofList (Toml.skipByteOrderMark text.toList)

/-- The settings of a file and variables, valid or not; where there is no file the document is
empty. -/
def read? [SettingsLibrary] (file : Option SettingsFile) (environment : Environment) :
    Option Settings :=
  match file with
  | none => ofLayers? [] environment
  | some file =>
    if file.ending = fileEnding then
      (Toml.ofText? (withoutMark file.text)).bind fun members => ofLayers? members environment
    else SettingsLibrary.readOther? file environment

/-- Loads the settings of a path, in which a mark for the home directory may stand. -/
def load [SettingsLibrary] (tree : FileTree) (directory : Place) (environment : Environment)
    (path : String) : Except CommandFault Settings :=
  let file := file? tree directory (Path.expandHome (environment.value? "HOME") path)
  match read? file environment with
  | none => .error (.settings (.unreadable (SettingsLibrary.refusal directory file environment)))
  | some settings =>
    match settings.validate with
    | .error error => .error error
    | .ok _ => .ok settings

/-- The directory for settings: the named one where its path leads on from the root, and otherwise
one in the home directory. -/
def directory? (home named : Option String) : Option String :=
  match named.filter Path.isAbsolute with
  | some named => some named
  | none => home.map fun home => Path.join home ".config"

def defaultPath? (home named : Option String) : Option String :=
  (directory? home named).map fun directory =>
    Path.join (Path.join directory "calmanage") ("config." ++ fileEnding)

def loadDefault [SettingsLibrary] (tree : FileTree) (directory : Place)
    (environment : Environment) : Except CommandFault Settings :=
  match defaultPath? (environment.value? "HOME") (environment.value? "XDG_CONFIG_HOME") with
  | none => .error (.settings .noDirectory)
  | some path => load tree directory environment path

end Settings

end CalendarCommand
