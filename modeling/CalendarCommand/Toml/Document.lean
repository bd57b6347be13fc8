import CalendarCommand.Toml.Scalar
import CalendarCommand.Toml.Text

/-!
# Reading documents

A document is read line by line into statements, from which its tables are built.  Every line holds
at most one statement and may end with a comment.  Arrays and tables between braces may run over
several lines, broken anywhere but inside a key, and may end with a comma; they are nested no deeper
than a limit.
-/

namespace CalendarCommand

namespace Toml

/-- The text behind a comment, at the end of its line. -/
def skipComment? (text : List Char) : Option (List Char) :=
  match text.dropWhile isPlain with
  | [] => some []
  | '\n' :: rest => some ('\n' :: rest)
  | '\r' :: '\n' :: rest => some ('\n' :: rest)
  | _ => none

/-- The text behind blanks, line breaks and comments. -/
def skipGaps? : List Char → Option (List Char)
  | ' ' :: rest => skipGaps? rest
  | '\t' :: rest => skipGaps? rest
  | '\n' :: rest => skipGaps? rest
  | '\r' :: '\n' :: rest => skipGaps? rest
  | '#' :: text =>
    match skipComment? text with
    | none => none
    | some rest => if _hrest : rest.length ≤ text.length then skipGaps? rest else none
  | text => some text
termination_by text => text.length
decreasing_by
  all_goals simp only [List.length_cons]
  all_goals omega

/-- Items with commas between them up to a closing character, and the text behind it. -/
def readItems? {α : Type} (close : Char) (item : List Char → Option (α × List Char))
    (text : List Char) : Option (List α × List Char) :=
  match skipGaps? text with
  | none => none
  | some [] => none
  | some (c :: rest) =>
    if c = close then some ([], rest)
    else
      match item (c :: rest) with
      | none => none
      | some (value, rest) =>
        match skipGaps? rest with
        | none => none
        | some [] => none
        | some (d :: rest) =>
          if d = ',' then
            if _hrest : rest.length < text.length then
              (readItems? close item rest).map fun read => (value :: read.1, read.2)
            else none
          else if d = close then some ([value], rest)
          else none
termination_by text.length
decreasing_by exact _hrest

/-- A key with the value that is given to it, by a reader of values; `skip` finds the text behind
what may surround the sign between the two. -/
def readAssignment? (skip : List Char → Option (List Char))
    (value : List Char → Option (Toml × List Char)) (text : List Char) :
    Option ((Key × Toml) × List Char) :=
  (readKey? text).bind fun key => (skip key.2).bind fun sign =>
    match sign with
    | '=' :: rest =>
      (skip rest).bind fun rest => (value rest).map fun read => ((key.1, read.1), read.2)
    | _ => none

/-- The deepest nesting of arrays and tables between braces. -/
def deepestNesting : Nat := 80

/-- A value nested no deeper than a limit, and the text behind it. -/
def readValue? : Nat → List Char → Option (Toml × List Char)
  | 0, '[' :: _ => none
  | 0, '\x7b' :: _ => none
  | depth + 1, '[' :: rest =>
    (readItems? ']' (readValue? depth) rest).map fun read => (.array read.1, read.2)
  | depth + 1, '\x7b' :: rest =>
    (readItems? '\x7d' (readAssignment? skipGaps? (readValue? depth)) rest).bind fun read =>
      (Table.ofPairs? read.1).map fun inner => (.table inner.origin inner.members, read.2)
  | _, '"' :: rest =>
    (readText? ('"' :: rest)).map fun read => (.string (String.ofList read.1), read.2)
  | _, '\'' :: rest =>
    (readText? ('\'' :: rest)).map fun read => (.string (String.ofList read.1), read.2)
  | _, text => readScalar? text

/-- The statement at the start of a line, and the text behind it. -/
def readStatement? : List Char → Option (Statement × List Char)
  | '[' :: '[' :: text =>
    (readKey? text).bind fun key =>
      match key.2 with
      | ']' :: ']' :: rest => some (.arrayHeader key.1, rest)
      | _ => none
  | '[' :: text =>
    (readKey? text).bind fun key =>
      match key.2 with
      | ']' :: rest => some (.header key.1, rest)
      | _ => none
  | text =>
    (readAssignment? (fun rest => some (skipBlanks rest)) (readValue? deepestNesting) text).map
      fun read => (.assignment read.1.1 read.1.2, read.2)

/-- The text behind the end of a line, where nothing but a comment stands in front of it. -/
def skipLineEnd? (text : List Char) : Option (List Char) :=
  let ended :=
    match skipBlanks text with
    | '#' :: rest => skipComment? rest
    | rest => some rest
  match ended with
  | some [] => some []
  | some ('\n' :: rest) => some rest
  | some ('\r' :: '\n' :: rest) => some rest
  | _ => none

def isEmptyLine (text : List Char) : Bool :=
  match text with
  | [] => true
  | c :: _ => c == '#' || c == '\n' || c == '\r'

def readStatements? (text : List Char) : Option (List Statement) :=
  if text.isEmpty then some []
  else
    let start := skipBlanks text
    if isEmptyLine start then
      match skipLineEnd? start with
      | none => none
      | some rest => if _hrest : rest.length < text.length then readStatements? rest else none
    else
      match readStatement? start with
      | none => none
      | some (statement, rest) =>
        match skipLineEnd? rest with
        | none => none
        | some rest =>
          if _hrest : rest.length < text.length then
            (readStatements? rest).map fun statements => statement :: statements
          else none
termination_by text.length
decreasing_by
  all_goals exact _hrest

/-- The text without the mark of its byte order. -/
def skipByteOrderMark : List Char → List Char
  | '\uFEFF' :: rest => rest
  | text => text

/-- The members of the document that a text holds. -/
def ofText? (text : String) : Option (List (String × Toml)) :=
  (readStatements? (skipByteOrderMark text.toList)).bind fun statements =>
    (Table.ofStatements? statements).map Table.members

end Toml

end CalendarCommand
