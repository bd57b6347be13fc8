import CalendarCommand.Settings.Basic
import CalendarCommand.Settings.Conversion
import CalendarCommand.Settings.KeyPath

/-!
# Layers of settings

Settings are put together key by key from three layers: environment variables, below them the
members of a document, and below these the default values.  For every key the uppermost layer that
has a value for it wins, and only the winning value has to be one that the key can hold.

A layer also has a value for a key where it gives one to a path that leads into the value of the
key.
-/

namespace CalendarCommand

abbrev Environment := List (String × String)

namespace Environment

def value? (environment : Environment) (name : String) : Option String :=
  (environment.find? fun entry => entry.1 == name).map Prod.snd

/-- What the names of the variables for settings start with. -/
def settingsMark : List Char := "calmanage_".toList

/-- The small letter of a letter, for those that are small letters of the ASCII range; the sign of
the unit kelvin is one of them. -/
def smallLetter (c : Char) : Char :=
  if c = '\u212A' then 'k' else c.toLower

/-- The key that the variable of a name sets; the case of its letters does not matter. -/
def settingKey? (name : String) : Option String :=
  let letters := name.toList.map smallLetter
  if settingsMark.isPrefixOf letters then some (String.ofList (letters.drop settingsMark.length))
  else none

/-- The keys that variables set, with the texts that they set them to. -/
def settings (environment : Environment) : List (String × Toml) :=
  environment.filterMap fun entry =>
    (settingKey? entry.1).map fun key => (key, .string entry.2)

end Environment

namespace Settings

/-- The value that a layer has for a key; of several entries for one key the last one counts. -/
def layerValue? (layer : List (String × Toml)) (key : String) : Option Toml :=
  layer.reverse.findSome? fun entry =>
    let path := KeyPath.ofText entry.1
    if path.name = key then some (Toml.enclose path.steps entry.2) else none

/-- The winning value of a key, where a variable or the document has one. -/
def layered? (members : List (String × Toml)) (environment : Environment) (key : String) :
    Option Toml :=
  (layerValue? environment.settings key).or (layerValue? members key)

/-- The value that a key holds: the winning one, converted, or the default value where no layer has
one. -/
def field? {α : Type} (members : List (String × Toml)) (environment : Environment) (key : String)
    (convert? : Toml → Option α) (default : α) : Option α :=
  match layered? members environment key with
  | none => some default
  | some value => convert? value

/-- The settings of a document and variables, whether they are valid or not. -/
def ofLayers? (members : List (String × Toml)) (environment : Environment) : Option Settings := do
  let foldWidth ← field? members environment "fold_width" widthOf? default.foldWidth
  let timestampFormat ←
    field? members environment "timestamp_format" textOf? default.timestampFormat
  let commandPrefix ←
    field? members environment "command_prefix" (fun value => (textOf? value).map some)
      default.commandPrefix
  return { foldWidth, timestampFormat, commandPrefix }

end Settings

end CalendarCommand
