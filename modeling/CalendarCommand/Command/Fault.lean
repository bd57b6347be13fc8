import CalendarCommand.Event.Reader
import CalendarCommand.Files.Tree

/-!
# Errors of commands

An error is the cause for which a command was not carried out.  The wording of every cause stands
here, in one function for each kind; what the readers of calendars and of settings say themselves is
passed on as they say it.  That an event is no command, or that a stored text has no
description to replace, is an ordinary outcome and no error.
-/

namespace CalendarCommand

/-- What is wrong with the settings or with the commands they set up. -/
inductive SettingsFault where
  /-- The fold width leaves no room for text. -/
  | narrowFold (width : Nat)
  /-- The timestamp format is empty or blank. -/
  | blankFormat
  /-- The timestamp format cannot be written out. -/
  | invalidFormat (format : String)
  /-- A command was to be registered under a blank name. -/
  | unnamedCommand
  /-- A command was to be registered under an identifier that is taken. -/
  | duplicateCommand (id : String)
  /-- There is no directory for settings. -/
  | noDirectory
  /-- The settings file and the variables do not come to settings. -/
  | unreadable (reason : String)
  /-- The directory of a settings file cannot be made. -/
  | directoryNotMade (fault : FileFault)
  /-- A settings file cannot be written. -/
  | fileNotWritten (fault : FileFault)
  /-- A handler has refused the settings in words of its own. -/
  | refused (reason : String)
deriving DecidableEq, Repr

namespace SettingsFault

def message : SettingsFault → String
  | .narrowFold width => "fold_width must be at least 2, got " ++ toString width
  | .blankFormat => "timestamp_format must not be empty"
  | .invalidFormat format => "Invalid timestamp_format '" ++ format ++ "'"
  | .unnamedCommand => "Command name must not be empty"
  | .duplicateCommand id => "Command '" ++ id ++ "' is already registered"
  | .noDirectory => "Could not determine config directory"
  | .unreadable reason => reason
  | .directoryNotMade fault => "Could not create config directory: " ++ fault.message
  | .fileNotWritten fault => "Could not write config file: " ++ fault.message
  | .refused reason => reason

end SettingsFault

/-- Why a command was not carried out. -/
inductive CommandFault where
  /-- No handler answers to the name. -/
  | unrecognized (name : String)
  /-- The command produced text, and the event has no narrative to append it to. -/
  | narrativeMissing (command : String)
  /-- The handler of the command has failed. -/
  | handlerFailed (command reason : String)
  /-- The calendar text yields no event. -/
  | calendar (fault : CalendarFault)
  /-- The settings are at fault. -/
  | settings (fault : SettingsFault)
deriving DecidableEq, Repr

namespace CommandFault

def message [SyntaxWording] : CommandFault → String
  | .unrecognized name => "Unrecognized management command: " ++ name
  | .narrativeMissing command =>
    "Command '" ++ command ++ "' produced output but the event has no DESCRIPTION"
  | .handlerFailed command reason => "Command '" ++ command ++ "' failed: " ++ reason
  | .calendar fault => "ICS parse error: " ++ fault.message
  | .settings fault => "Configuration error: " ++ fault.message

/-- The error reflects bad input rather than a failure of the engine or of a handler. -/
def blamesInput : CommandFault → Bool
  | .calendar _ => true
  | _ => false

end CommandFault

end CalendarCommand
