import CalendarCommand.Json.Reader
import CalendarCommand.Toml.Basic

/-!
# Texts of documents

A text stands between double quotes, where a backslash starts an escape, or between single quotes,
where it does not.  Three quotes of either kind enclose a text of several lines: a line break
directly behind the opening quotes is not part of it, up to two quotes may stand in front of the
closing ones, and between double quotes a backslash at the end of a line joins the line to the next
character that is no blank.

Control characters other than the tab stand in no text, and a carriage return stands only in front
of a line feed.

A key consists of names with points between them, of which it has no more than a limit.  A name is a
text on one line or a run of letters, digits, hyphens and underscores.
-/

namespace CalendarCommand

namespace Toml

/-- The character may stand in a text or a comment. -/
def isPlain (c : Char) : Bool :=
  c == '\t' || (32 ≤ c.toNat && c.toNat != 127)

/-- The character separates words on a line. -/
def isBlank (c : Char) : Bool :=
  c == ' ' || c == '\t'

def charOf? (code : Nat) : Option Char :=
  if code.isValidChar then some (Char.ofNat code) else none

def hexCode? (digits : List Char) : Option Nat :=
  (digits.mapM Json.hexValue?).map fun values => values.foldl (fun n value => n * 16 + value) 0

/-- The character of an escape in its short form. -/
def shortEscape? : Char → Option Char
  | 'b' => some '\x08'
  | 't' => some '\t'
  | 'n' => some '\n'
  | 'f' => some '\x0c'
  | 'r' => some '\r'
  | 'e' => some '\x1b'
  | '"' => some '"'
  | '\\' => some '\\'
  | _ => none

/-- The number of digits behind the mark of an escape. -/
def escapeDigits : Char → Nat
  | 'x' => 2
  | 'u' => 4
  | 'U' => 8
  | _ => 0

/-- The character of an escape behind its backslash, and the text behind it. -/
def readEscape? : List Char → Option (Char × List Char)
  | [] => none
  | mark :: rest =>
    match escapeDigits mark with
    | 0 => (shortEscape? mark).map fun c => (c, rest)
    | count =>
      if rest.length < count then none
      else
        (hexCode? (rest.take count)).bind fun code => (charOf? code).map fun c =>
          (c, rest.drop count)

theorem length_of_readEscape? {text : List Char} {read : Char × List Char}
    (h : readEscape? text = some read) : read.2.length < text.length := by
  unfold readEscape? at h
  split at h
  · cases h
  · split at h
    · simp only [Option.map_eq_some_iff] at h
      obtain ⟨_, _, rfl⟩ := h
      simp
    · split at h
      · cases h
      · simp only [Option.bind_eq_some_iff, Option.map_eq_some_iff] at h
        obtain ⟨_, _, _, _, rfl⟩ := h
        simp only [List.length_drop, List.length_cons]
        omega

def consChar (c : Char) (read : List Char × List Char) : List Char × List Char :=
  (c :: read.1, read.2)

/-! ## Texts on one line -/

/-- A text between double quotes, behind the first. -/
def readBasic? : List Char → Option (List Char × List Char)
  | [] => none
  | '"' :: rest => some ([], rest)
  | '\\' :: text =>
    match _hescape : readEscape? text with
    | none => none
    | some (c, rest) => (readBasic? rest).map (consChar c)
  | c :: rest => if isPlain c then (readBasic? rest).map (consChar c) else none
termination_by text => text.length
decreasing_by
  · have := length_of_readEscape? _hescape
    simp only [List.length_cons] at this ⊢
    omega
  · simp only [List.length_cons]
    omega

/-- A text between single quotes, behind the first. -/
def readLiteral? : List Char → Option (List Char × List Char)
  | [] => none
  | '\'' :: rest => some ([], rest)
  | c :: rest => if isPlain c then (readLiteral? rest).map (consChar c) else none

/-! ## Texts of several lines -/

/-- The quotes in front of the closing ones, up to two, and the text behind. -/
def trailingQuotes (quote : Char) : List Char → List Char × List Char
  | a :: b :: rest =>
    if a == quote then (if b == quote then ([a, b], rest) else ([a], b :: rest))
    else ([], a :: b :: rest)
  | [a] => if a == quote then ([a], []) else ([], [a])
  | [] => ([], [])

def skipBlankLines : List Char → List Char
  | ' ' :: rest => skipBlankLines rest
  | '\t' :: rest => skipBlankLines rest
  | '\n' :: rest => skipBlankLines rest
  | '\r' :: '\n' :: rest => skipBlankLines rest
  | text => text

/-- The text behind a line break that a backslash in front of it joins to what follows; blanks may
stand between the two. -/
def skipJoint? (text : List Char) : Option (List Char) :=
  match text.dropWhile isBlank with
  | '\n' :: rest => some (skipBlankLines rest)
  | '\r' :: '\n' :: rest => some (skipBlankLines rest)
  | _ => none

/-- The text behind a backslash goes on with a blank or a line break. -/
def startsJoint : List Char → Bool
  | [] => false
  | c :: _ => isBlank c || c == '\n' || c == '\r'

theorem length_skipBlankLines_le (text : List Char) :
    (skipBlankLines text).length ≤ text.length := by
  fun_induction skipBlankLines text with
  | case1 rest ih => simp only [List.length_cons]; omega
  | case2 rest ih => simp only [List.length_cons]; omega
  | case3 rest ih => simp only [List.length_cons]; omega
  | case4 rest ih => simp only [List.length_cons]; omega
  | case5 => exact Nat.le_refl _

theorem length_of_skipJoint? {text rest : List Char} (h : skipJoint? text = some rest) :
    rest.length < text.length := by
  have hdrop : (text.dropWhile isBlank).length ≤ text.length :=
    (List.dropWhile_sublist isBlank).length_le
  unfold skipJoint? at h
  split at h
  · rename_i tail htail
    rw [htail] at hdrop
    have := length_skipBlankLines_le tail
    simp only [Option.some.injEq] at h
    subst h
    simp only [List.length_cons] at hdrop
    omega
  · rename_i tail htail
    rw [htail] at hdrop
    have := length_skipBlankLines_le tail
    simp only [Option.some.injEq] at h
    subst h
    simp only [List.length_cons] at hdrop
    omega
  · cases h

/-- A text of several lines between double quotes, behind the opening quotes. -/
def readBasicLines? : List Char → Option (List Char × List Char)
  | [] => none
  | '"' :: '"' :: '"' :: rest => some (trailingQuotes '"' rest)
  | '\\' :: text =>
    if startsJoint text then
      match _hjoint : skipJoint? text with
      | none => none
      | some rest => readBasicLines? rest
    else
      match _hescape : readEscape? text with
      | none => none
      | some (c, rest) => (readBasicLines? rest).map (consChar c)
  | '\r' :: '\n' :: rest =>
    (readBasicLines? rest).map fun read => consChar '\r' (consChar '\n' read)
  | c :: rest =>
    if isPlain c || c == '\n' then (readBasicLines? rest).map (consChar c) else none
termination_by text => text.length
decreasing_by
  · have := length_of_skipJoint? _hjoint
    simp only [List.length_cons]
    omega
  · have := length_of_readEscape? _hescape
    simp only [List.length_cons] at this ⊢
    omega
  · simp only [List.length_cons]
    omega
  · simp only [List.length_cons]
    omega

/-- A text of several lines between single quotes, behind the opening quotes. -/
def readLiteralLines? : List Char → Option (List Char × List Char)
  | [] => none
  | '\'' :: '\'' :: '\'' :: rest => some (trailingQuotes '\'' rest)
  | '\r' :: '\n' :: rest =>
    (readLiteralLines? rest).map fun read => consChar '\r' (consChar '\n' read)
  | c :: rest =>
    if isPlain c || c == '\n' then (readLiteralLines? rest).map (consChar c) else none

def skipFirstBreak : List Char → List Char
  | '\n' :: rest => rest
  | '\r' :: '\n' :: rest => rest
  | text => text

/-- A text in any of its forms, and what stands behind it. -/
def readText? : List Char → Option (List Char × List Char)
  | '"' :: '"' :: '"' :: rest => readBasicLines? (skipFirstBreak rest)
  | '"' :: rest => readBasic? rest
  | '\'' :: '\'' :: '\'' :: rest => readLiteralLines? (skipFirstBreak rest)
  | '\'' :: rest => readLiteral? rest
  | _ => none

/-! ## Keys -/

/-- The character may stand in a key without quotes. -/
def isKeyChar (c : Char) : Bool :=
  c.isAlphanum || c == '-' || c == '_'

def skipBlanks (text : List Char) : List Char :=
  text.dropWhile isBlank

/-- A part of a key: a text on one line, or a run of key characters. -/
def readKeyPart? : List Char → Option (List Char × List Char)
  | '"' :: rest => readBasic? rest
  | '\'' :: rest => readLiteral? rest
  | text =>
    match text.takeWhile isKeyChar with
    | [] => none
    | part => some (part, text.dropWhile isKeyChar)

/-- The parts of a key between points, and what stands behind the blanks that follow. -/
def readKeyParts? (text : List Char) : Option (List String × List Char) :=
  match readKeyPart? (skipBlanks text) with
  | none => none
  | some (part, rest) =>
    match skipBlanks rest with
    | '.' :: rest =>
      if _hrest : rest.length < text.length then
        (readKeyParts? rest).map fun read => (String.ofList part :: read.1, read.2)
      else none
    | rest => some ([String.ofList part], rest)
termination_by text.length
decreasing_by exact _hrest

def longestKey : Nat := 80

/-- A key, and what stands behind the blanks that follow. -/
def readKey? (text : List Char) : Option (Key × List Char) :=
  (readKeyParts? text).bind fun read =>
    match read.1.getLast? with
    | none => none
    | some name =>
      if read.1.length ≤ longestKey then some ({ path := read.1.dropLast, name }, read.2) else none

end Toml

end CalendarCommand
