import CalendarCommand.Command.Outcome

/-!
# Styled text

Text for a terminal is styled by a sequence in front of it that switches a style on and one behind
it that switches the style off.  An outcome is told in one line whose colours say whether the stored
text has been replaced.
-/

namespace CalendarCommand

namespace CommandLine

/-- A text between two switches of the terminal. -/
def styled (on off : Nat) (text : String) : String :=
  "\x1b[" ++ toString on ++ "m" ++ text ++ "\x1b[" ++ toString off ++ "m"

def green : String → String := styled 32 39

def yellow : String → String := styled 33 39

def red : String → String := styled 31 39

def bold : String → String := styled 1 0

def dimmed : String → String := styled 2 0

def notCommandNotice : String := dimmed "not a management command"

end CommandLine

def BlockEffect.notice : BlockEffect → String
  | .replaced _ => CommandLine.green "DESCRIPTION rewritten"
  | .skipped => CommandLine.yellow "no DESCRIPTION line, rewrite skipped"
  | .unchanged => CommandLine.dimmed "no changes"
  | .notRequested => CommandLine.dimmed "not saved"

def Outcome.notice : Outcome → String
  | .notCommand => CommandLine.notCommandNotice
  | .applied command _ block =>
    CommandLine.green "✓" ++ " " ++ CommandLine.bold command ++ " " ++ block.notice

end CalendarCommand
