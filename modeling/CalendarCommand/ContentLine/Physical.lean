/-!
# Physical lines

A calendar text is a sequence of physical lines, each ending with CRLF or LF, the last one perhaps
with neither.  This module cuts a text into its physical lines without losing a character, tells
which terminator a line carries, and which one a whole text uses.

A logical content line may run over several physical lines: a line that starts with a space or a
tab continues the line before it.
-/

namespace CalendarCommand.ContentLine

inductive Terminator where
  | crlf
  | lf
  | absent
deriving DecidableEq, Repr

def Terminator.text : Terminator → List Char
  | .crlf => ['\r', '\n']
  | .lf => ['\n']
  | .absent => []

/-- Puts a character in front of the first line, opening that line where there is none. -/
def consToFirst (c : Char) : List (List Char) → List (List Char)
  | [] => [[c]]
  | line :: more => (c :: line) :: more

/-- The physical lines of a text, each with its terminator. -/
def physicalLines : List Char → List (List Char)
  | [] => []
  | '\n' :: rest => ['\n'] :: physicalLines rest
  | c :: rest => consToFirst c (physicalLines rest)

def terminator : List Char → Terminator
  | [] => .absent
  | ['\r', '\n'] => .crlf
  | ['\n'] => .lf
  | _ :: rest => terminator rest

/-- The character that marks a physical line as a continuation. -/
def isFoldMark (c : Char) : Bool :=
  c == ' ' || c == '\t'

/-- The physical line continues the one before it. -/
def isContinuation : List Char → Bool
  | [] => false
  | c :: _ => isFoldMark c

/-- Somewhere in the text a line ends with CRLF. -/
def hasCrlf : List Char → Bool
  | [] => false
  | '\r' :: '\n' :: _ => true
  | _ :: rest => hasCrlf rest

/-- The terminator a text uses for new lines: CRLF as soon as one line has it. -/
def prevailingTerminator (text : List Char) : Terminator :=
  if hasCrlf text then .crlf else .lf

/-- The physical line opens the property `name`: the name stands at its start, directly followed
by the delimiter of a parameter or of the value. -/
def opensProperty (name line : List Char) : Bool :=
  match name.isPrefixOf? line with
  | some (c :: _) => c == ';' || c == ':'
  | _ => false

/-! ## Laws of the cut -/

theorem flatten_consToFirst (c : Char) (lines : List (List Char)) :
    (consToFirst c lines).flatten = c :: lines.flatten := by
  cases lines <;> simp [consToFirst]

/-- The physical lines of a text are the text. -/
theorem flatten_physicalLines (text : List Char) : (physicalLines text).flatten = text := by
  fun_induction physicalLines text with
  | case1 => rfl
  | case2 rest ih => simp [ih]
  | case3 c rest _ ih => rw [flatten_consToFirst, ih]

end CalendarCommand.ContentLine
