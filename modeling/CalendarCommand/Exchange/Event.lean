import CalendarCommand.Event.Basic
import CalendarCommand.Exchange.Record
import CalendarCommand.Settings.Basic

/-!
# Events and settings in JSON

A class without a label is exchanged as a choice, and any other class as an object with the one
member `Other`.  The three fields of an event may be absent.  Of the settings, the width and the
format have default values, and the prefix is left out where there is none.
-/

namespace CalendarCommand

namespace Classification

def toJson : Classification → Json
  | .publicClass => .string "Public"
  | .privateClass => .string "Private"
  | .confidential => .string "Confidential"
  | .other label => .object [("Other", .string label)]

/-- The class that a name without a label stands for. -/
def ofChoiceName? (name : String) : Option Classification :=
  if name = "Public" then some .publicClass
  else if name = "Private" then some .privateClass
  else if name = "Confidential" then some .confidential
  else none

def ofJson? : Json → Option Classification
  | .object [("Other", .string label)] => some (.other label)
  | value => value.choiceName?.bind ofChoiceName?

end Classification

namespace Event

def toJson (event : Event) : Json :=
  .object
    [("classification", (event.classification.map Classification.toJson).getD .null),
      ("summary", Json.ofOptionalText event.summary),
      ("narrative", Json.ofOptionalText event.narrative)]

def ofFields? (classification summary narrative : Option Json) : Option Event :=
  (Json.optional? Classification.ofJson? classification).bind fun classification =>
    (Json.optional? Json.string? summary).bind fun summary =>
      (Json.optional? Json.string? narrative).map fun narrative =>
        { classification, summary, narrative }

def ofJson? : Json → Option Event
  | .object members =>
    (Json.onlyMember? members "classification").bind fun classification =>
      (Json.onlyMember? members "summary").bind fun summary =>
        (Json.onlyMember? members "narrative").bind fun narrative =>
          ofFields? classification summary narrative
  | .array [classification, summary, narrative] =>
    ofFields? (some classification) (some summary) (some narrative)
  | _ => none

end Event

namespace Settings

def toJson (settings : Settings) : Json :=
  .object
    ([("fold_width", .integer settings.foldWidth.toNat),
      ("timestamp_format", .string settings.timestampFormat)] ++
      Json.textMember "command_prefix" settings.commandPrefix)

def ofFields? (foldWidth timestampFormat commandPrefix : Option Json) : Option Settings :=
  (Json.withDefault? default.foldWidth Json.word? foldWidth).bind fun foldWidth =>
    (Json.withDefault? default.timestampFormat Json.string? timestampFormat).bind
      fun timestampFormat =>
        (Json.optional? Json.string? commandPrefix).map fun commandPrefix =>
          { foldWidth, timestampFormat, commandPrefix }

/-- The settings that a JSON value stands for; an array may break off where defaults follow. -/
def ofJson? : Json → Option Settings
  | .object members =>
    (Json.onlyMember? members "fold_width").bind fun foldWidth =>
      (Json.onlyMember? members "timestamp_format").bind fun timestampFormat =>
        (Json.onlyMember? members "command_prefix").bind fun commandPrefix =>
          ofFields? foldWidth timestampFormat commandPrefix
  | .array items =>
    if items.length ≤ 3 then ofFields? items[0]? items[1]? items[2]? else none
  | _ => none

end Settings

end CalendarCommand
