import CalendarCommand.Command.Fault
import CalendarCommand.ContentLine.Fold
import CalendarCommand.Time.Pattern

/-!
# Settings

The settings of the engine are the width at which a narrative is folded, the format of the
timestamps in front of its updates, and the prefix of the command identifiers.  Settings are valid
when the width leaves room for text and the format is neither blank nor malformed; the prefix is
free.
-/

namespace CalendarCommand

structure Settings where
  foldWidth : UInt64
  timestampFormat : String
  commandPrefix : Option String
deriving DecidableEq, Repr

namespace Settings

/-- The settings where nothing is asked for. -/
def default : Settings :=
  { foldWidth := UInt64.ofNat ContentLine.defaultWidth
    timestampFormat := "%d-%m-%Y %H:%M:%S"
    commandPrefix := none }

/-- Accepts valid settings; of several faults the first in the order width, blank format,
malformed format is the one reported. -/
def validate (settings : Settings) : Except CommandFault Unit :=
  if settings.foldWidth.toNat < ContentLine.leastWidth then
    .error (.settings (.narrowFold settings.foldWidth.toNat))
  else if Text.trimString settings.timestampFormat = "" then
    .error (.settings .blankFormat)
  else if (Pattern.ofText? settings.timestampFormat.toList).isNone then
    .error (.settings (.invalidFormat settings.timestampFormat))
  else .ok ()

end Settings

end CalendarCommand
