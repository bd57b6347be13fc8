import CalendarCommand.Json.Basic

/-!
# Writing JSON

A value is written either without any blank space or, for readers, with every item and member on a
line of its own, two spaces deeper than what holds it.  Inside a text only the quote, the backslash
and the control characters are escaped.
-/

namespace CalendarCommand

namespace Json

def hexDigit (n : Nat) : Char :=
  Char.ofNat (if n < 10 then 48 + n else 87 + n)

/-- A character inside a text. -/
def writeChar (c : Char) : List Char :=
  if c = '"' then ['\\', '"']
  else if c = '\\' then ['\\', '\\']
  else if c = '\n' then ['\\', 'n']
  else if c = '\r' then ['\\', 'r']
  else if c = '\t' then ['\\', 't']
  else if c.toNat = 8 then ['\\', 'b']
  else if c.toNat = 12 then ['\\', 'f']
  else if c.toNat < 32 then ['\\', 'u', '0', '0', hexDigit (c.toNat / 16), hexDigit (c.toNat % 16)]
  else [c]

def writeText (text : List Char) : List Char :=
  '"' :: text.flatMap writeChar ++ ['"']

def writeInteger (value : Int) : List Char :=
  (if value < 0 then ['-'] else []) ++ Nat.toDigits 10 value.natAbs

mutual

def write : Json → List Char
  | .null => "null".toList
  | .boolean value => if value then "true".toList else "false".toList
  | .integer value => writeInteger value
  | .decimal literal => literal.toList
  | .string value => writeText value.toList
  | .array [] => ['[', ']']
  | .array (item :: items) => '[' :: item.write ++ writeItems items ++ [']']
  | .object [] => ['\x7b', '\x7d']
  | .object ((name, value) :: members) =>
    '\x7b' :: writeText name.toList ++ ':' :: value.write ++ writeMembers members ++ ['\x7d']

/-- The items of an array behind the first one. -/
def writeItems : List Json → List Char
  | [] => []
  | item :: items => ',' :: item.write ++ writeItems items

/-- The members of an object behind the first one. -/
def writeMembers : List (String × Json) → List Char
  | [] => []
  | (name, value) :: members =>
    ',' :: writeText name.toList ++ ':' :: value.write ++ writeMembers members

end

/-- A line break and the blanks in front of what stands at a depth. -/
def newLine (depth : Nat) : List Char :=
  '\n' :: List.replicate (2 * depth) ' '

mutual

/-- A value with each item and member on its own line, where the value stands at a depth. -/
def writeLines (depth : Nat) : Json → List Char
  | .null => "null".toList
  | .boolean value => if value then "true".toList else "false".toList
  | .integer value => writeInteger value
  | .decimal literal => literal.toList
  | .string value => writeText value.toList
  | .array [] => ['[', ']']
  | .array (item :: items) =>
    '[' :: newLine (depth + 1) ++ item.writeLines (depth + 1) ++ writeItemLines depth items ++
      newLine depth ++ [']']
  | .object [] => ['\x7b', '\x7d']
  | .object ((name, value) :: members) =>
    '\x7b' :: newLine (depth + 1) ++ writeText name.toList ++ ':' :: ' ' ::
      value.writeLines (depth + 1) ++ writeMemberLines depth members ++ newLine depth ++ ['\x7d']

/-- The items of an array behind the first one, each on its own line. -/
def writeItemLines (depth : Nat) : List Json → List Char
  | [] => []
  | item :: items =>
    ',' :: newLine (depth + 1) ++ item.writeLines (depth + 1) ++ writeItemLines depth items

/-- The members of an object behind the first one, each on its own line. -/
def writeMemberLines (depth : Nat) : List (String × Json) → List Char
  | [] => []
  | (name, value) :: members =>
    ',' :: newLine (depth + 1) ++ writeText name.toList ++ ':' :: ' ' ::
      value.writeLines (depth + 1) ++ writeMemberLines depth members

end

def compact (value : Json) : String :=
  String.ofList value.write

def pretty (value : Json) : String :=
  String.ofList (value.writeLines 0)

end Json

end CalendarCommand
