/-!
# Escaped text values

A value of type TEXT is written with a backslash in front of each backslash, semicolon and comma,
and with the pair backslash, `n` for each line break.  CRLF counts as one line break; so does a
carriage return that stands alone.

Reading undoes the pairs and keeps every pair it does not know, and a backslash at the very end,
as they are.  Which characters besides the line break may stand behind a backslash is a parameter
of the reading rule: text values admit three, and the values of a component admit the colon too.
-/

namespace CalendarCommand.ContentLine

def escapeChar : Char → List Char
  | '\\' => ['\\', '\\']
  | ';' => ['\\', ';']
  | ',' => ['\\', ',']
  | '\n' => ['\\', 'n']
  | '\r' => ['\\', 'n']
  | c => [c]

def escape : List Char → List Char
  | [] => []
  | '\r' :: '\n' :: rest => '\\' :: 'n' :: escape rest
  | c :: rest => escapeChar c ++ escape rest

/-- What the pair of a backslash and `c` stands for. -/
def unescapePair (isEscapable : Char → Bool) (c : Char) : List Char :=
  if c == 'n' || c == 'N' then ['\n']
  else if isEscapable c then [c]
  else ['\\', c]

/-- Undoes the pairs of a value in which the characters of `isEscapable` may be escaped. -/
def unescapeWith (isEscapable : Char → Bool) : List Char → List Char
  | [] => []
  | '\\' :: c :: rest => unescapePair isEscapable c ++ unescapeWith isEscapable rest
  | c :: rest => c :: unescapeWith isEscapable rest

/-- The characters that a text value escapes by a backslash in front of them. -/
def isTextMark (c : Char) : Bool :=
  c == '\\' || c == ';' || c == ','

def unescape : List Char → List Char :=
  unescapeWith isTextMark

/-- The text with each CRLF and each carriage return standing alone turned into a line feed. -/
def normalizeBreaks : List Char → List Char
  | [] => []
  | '\r' :: '\n' :: rest => '\n' :: normalizeBreaks rest
  | '\r' :: rest => '\n' :: normalizeBreaks rest
  | c :: rest => c :: normalizeBreaks rest

end CalendarCommand.ContentLine
