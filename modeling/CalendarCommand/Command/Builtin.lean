import CalendarCommand.Command.Fault

/-!
# Built-in commands

Every registry can start with the thirteen commands below.  The three that share a calendar report
the access they grant; the others act on the calendar collection itself and report nothing.
-/

namespace CalendarCommand

/-- Runs one command on an event and gives the text to append to its narrative, if any. -/
abbrev Handler := Event → Except CommandFault (Option String)

/-- A command that needs no registration. -/
inductive Builtin where
  | shareRead
  | shareReadWrite
  | shareWrite
  | setName
  | addCalendar
  | setCalendarColour
  | setCalendarDefaultAlert
  | setCalendarDefaultDuration
  | setCalendarDefaultHome
  | setCalendarNotificationLocation
  | setCalendarTimezone
  | setCalendarLogAudit
  | setCalendarNotificationDeletes
deriving DecidableEq, Repr

namespace Builtin

/-- The built-in commands in the order in which they are listed. -/
def all : List Builtin :=
  [.shareRead, .shareReadWrite, .shareWrite, .setName, .addCalendar, .setCalendarColour,
    .setCalendarDefaultAlert, .setCalendarDefaultDuration, .setCalendarDefaultHome,
    .setCalendarNotificationLocation, .setCalendarTimezone, .setCalendarLogAudit,
    .setCalendarNotificationDeletes]

def name : Builtin → String
  | .shareRead => "share-read"
  | .shareReadWrite => "share-readwrite"
  | .shareWrite => "share-write"
  | .setName => "set-name"
  | .addCalendar => "add-calendar"
  | .setCalendarColour => "set-calendar-colour"
  | .setCalendarDefaultAlert => "set-calendar-default-alert"
  | .setCalendarDefaultDuration => "set-calendar-default-duration"
  | .setCalendarDefaultHome => "set-calendar-default-home"
  | .setCalendarNotificationLocation => "set-calendar-notification-location"
  | .setCalendarTimezone => "set-calendar-timezone"
  | .setCalendarLogAudit => "set-calendar-log-audit"
  | .setCalendarNotificationDeletes => "set-calendar-notification-deletes"

/-- The access that a sharing command grants. -/
def access? : Builtin → Option String
  | .shareRead => some "read"
  | .shareReadWrite => some "read-write"
  | .shareWrite => some "write"
  | _ => none

def report? (command : Builtin) : Option String :=
  command.access?.map fun access => "Calendar shared with " ++ access ++ " access"

/-- The handler of a built-in command, which looks at no event. -/
def handler (command : Builtin) : Handler :=
  fun _ => .ok command.report?

def ofName? (name : String) : Option Builtin :=
  all.find? fun command => command.name == name

end Builtin

end CalendarCommand
