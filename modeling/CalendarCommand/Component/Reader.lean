import CalendarCommand.Component.Basic
import CalendarCommand.Text.Alphanumeric

/-!
# Reading components

The reader takes an unfolded text and reads one component from it.  It keeps the components that
are open at the moment in a list of frames and works off the text from left to right.  At each
point an `END` mark closes the innermost frame, a `BEGIN` mark opens a new one, and anything else
is a property of the innermost frame.  A property that takes nothing from the text is a fault,
which is also why reading ends.

The value of a property runs up to the first CRLF of the remaining text, wherever that is, and only
without any CRLF up to the first line feed; in a text with mixed line ends a value may therefore
span several lines.
-/

namespace CalendarCommand

namespace Scan

/-! ## Scanning -/

/-- The text after a text that agrees with `expected` character by character. -/
def dropMatching? (agree : Char → Char → Bool) : List Char → List Char → Option (List Char)
  | [], text => some text
  | _ :: _, [] => none
  | e :: expected, c :: text =>
    if agree e c then dropMatching? agree expected text else none

/-- The text after a keyword in either case of its letters. -/
def dropKeyword? (keyword : String) (text : List Char) : Option (List Char) :=
  dropMatching? (fun a b => a.toLower == b.toLower) keyword.toList text

/-- The text after exactly the given characters. -/
def dropLiteral? (expected text : List Char) : Option (List Char) :=
  dropMatching? (fun a b => a == b) expected text

/-- The text without the line ends it starts with. -/
def skipLineEnds : List Char → List Char
  | '\n' :: rest => skipLineEnds rest
  | '\r' :: '\n' :: rest => skipLineEnds rest
  | text => text

/-- The text without one line end at its start. -/
def skipLineEnd : List Char → List Char
  | '\n' :: rest => rest
  | '\r' :: '\n' :: rest => rest
  | text => text

def isNameChar (c : Char) : Bool :=
  Text.isAlphanumeric c || c == '.' || c == ',' || c == '/' || c == '_' || c == '-'

def isParameterChar (c : Char) : Bool :=
  c != ';' && c != ':'

/-- The character may stand in front of a property. -/
def isGap (c : Char) : Bool :=
  c == ' ' || c == '\t' || c == '\r' || c == '\n'

theorem length_of_dropMatching? {agree : Char → Char → Bool} {expected text rest : List Char}
    (h : dropMatching? agree expected text = some rest) :
    text.length = expected.length + rest.length := by
  fun_induction dropMatching? agree expected text with
  | case1 => simp_all
  | case2 => simp_all
  | case3 e expected c text _ ih =>
    have := ih h
    simp only [List.length_cons]
    omega
  | case4 => simp_all

theorem length_skipLineEnds_le (text : List Char) :
    (skipLineEnds text).length ≤ text.length := by
  fun_induction skipLineEnds text with
  | case1 rest ih => simp only [List.length_cons]; omega
  | case2 rest ih => simp only [List.length_cons]; omega
  | case3 => exact Nat.le_refl _

theorem length_dropWhile_le (p : Char → Bool) (text : List Char) :
    (text.dropWhile p).length ≤ text.length :=
  (List.dropWhile_sublist p).length_le

end Scan

open Scan

/-! ## Parameters -/

/-- A quoted value with at least one character between its quotes. -/
def readQuoted? : List Char → Option (List Char × List Char)
  | '"' :: text =>
    match text.takeWhile (· != '"'), text.dropWhile (· != '"') with
    | c :: body, '"' :: rest => some (c :: body, rest)
    | _, _ => none
  | _ => none

theorem length_of_readQuoted? {text body rest : List Char}
    (h : readQuoted? text = some (body, rest)) : rest.length < text.length := by
  unfold readQuoted? at h
  split at h
  · rename_i inner
    split at h
    · rename_i hdrop
      have hle := length_dropWhile_le (· != '"') inner
      rw [hdrop] at hle
      simp only [Option.some.injEq, Prod.mk.injEq] at h
      simp only [List.length_cons] at hle ⊢
      rw [← h.2]
      omega
    · cases h
  · cases h

/-- Further quoted values, each behind a comma. -/
def readMoreQuoted : List Char → List (List Char) × List Char
  | ',' :: text =>
    match _h : readQuoted? text with
    | some (body, rest) =>
      let more := readMoreQuoted rest
      (body :: more.1, more.2)
    | none => ([], ',' :: text)
  | text => ([], text)
termination_by text => text.length
decreasing_by
  have := length_of_readQuoted? _h
  simp only [List.length_cons]
  omega

def joinQuoted (bodies : List (List Char)) : List Char :=
  [','].intercalate (bodies.map fun body => '"' :: body ++ ['"'])

/-- The value of a parameter, behind its equals sign: quoted values, or all up to the next
semicolon or colon. -/
def readParameterValue (text : List Char) : Option (List Char) × List Char :=
  match readQuoted? text with
  | some (body, rest) =>
    match readMoreQuoted rest with
    | ([], rest) => (some body, rest)
    | (more, rest) => (some (joinQuoted (body :: more)), rest)
  | none =>
    match text.takeWhile isParameterChar with
    | [] => (none, text)
    | value => (some value, text.dropWhile isParameterChar)

def readParameter (text : List Char) : Parameter × List Char :=
  let text := text.dropWhile fun c => c == ' ' || c == '\t'
  let name := text.takeWhile isNameChar
  match text.dropWhile isNameChar with
  | '=' :: rest =>
    let value := readParameterValue rest
    ({ name, value := value.1 }, value.2)
  | rest => ({ name, value := none }, rest)

theorem length_readMoreQuoted_le (text : List Char) :
    (readMoreQuoted text).2.length ≤ text.length := by
  fun_induction readMoreQuoted text with
  | case1 text body rest h more ih =>
    have := length_of_readQuoted? h
    simp only [more, List.length_cons]
    omega
  | case2 => exact Nat.le_refl _
  | case3 => exact Nat.le_refl _

theorem length_readParameterValue_le (text : List Char) :
    (readParameterValue text).2.length ≤ text.length := by
  unfold readParameterValue
  split
  · rename_i body rest h
    have hquoted := length_of_readQuoted? h
    have hmore := length_readMoreQuoted_le rest
    split
    · rename_i rest' hmore'
      rw [hmore'] at hmore
      simp only at hmore ⊢
      omega
    · rename_i more rest' _ hmore'
      rw [hmore'] at hmore
      simp only at hmore ⊢
      omega
  · split
    · exact Nat.le_refl _
    · exact length_dropWhile_le _ _

theorem length_readParameter_le (text : List Char) :
    (readParameter text).2.length ≤ text.length := by
  unfold readParameter
  have hblank := length_dropWhile_le (fun c => c == ' ' || c == '\t') text
  have hname := length_dropWhile_le isNameChar
    (text.dropWhile fun c => c == ' ' || c == '\t')
  simp only
  split
  · rename_i rest hrest
    have hvalue := length_readParameterValue_le rest
    rw [hrest] at hname
    simp only [List.length_cons] at hname ⊢
    omega
  · simp only
    omega

def readParameters : List Char → List Parameter × List Char
  | ';' :: text =>
    let next := readParameter text
    let more := readParameters next.2
    (next.1 :: more.1, more.2)
  | text => ([], text)
termination_by text => text.length
decreasing_by
  have := length_readParameter_le text
  simp only [List.length_cons]
  omega

/-! ## Properties -/

/-- The text before the first CRLF, and the text from there on. -/
def splitAtCrlf? : List Char → Option (List Char × List Char)
  | [] => none
  | '\r' :: '\n' :: rest => some ([], '\r' :: '\n' :: rest)
  | c :: rest => (splitAtCrlf? rest).map fun cut => (c :: cut.1, cut.2)

def readValue (text : List Char) : List Char × List Char :=
  match splitAtCrlf? text with
  | some cut => cut
  | none => (text.takeWhile (· != '\n'), text.dropWhile (· != '\n'))

/-- A mark that opens or closes a component stands here where a property is looked for. -/
def isMark (text : List Char) : Bool :=
  ["BEGIN", "END"].any fun keyword =>
    match dropKeyword? keyword text with
    | none => false
    | some [] => true
    | some (c :: _) => c == ':' || c == ';'

/-- A property and the text behind it; `none` where a mark stands in its place.  A name without a
value is read from the very start of the text. -/
def readProperty? (text : List Char) : Option (Property × List Char) :=
  let start := text.dropWhile isGap
  if isMark start then none
  else
    let parameters := readParameters (start.dropWhile isNameChar)
    match parameters.2 with
    | ':' :: rest =>
      let value := readValue rest
      some ({ name := start.takeWhile isNameChar, parameters := parameters.1, value := value.1 },
        skipLineEnd value.2)
    | _ =>
      some ({ name := text.takeWhile isNameChar, parameters := [], value := [] },
        skipLineEnd (text.dropWhile isNameChar))

/-! ## Components -/

/-- A component that is open while a text is read; its latest item comes first. -/
structure Frame where
  name : List Char
  reversed : List Item

namespace Frame

def new (name : List Char) : Frame :=
  { name, reversed := [] }

def push (frame : Frame) (item : Item) : Frame :=
  { frame with reversed := item :: frame.reversed }

def close (frame : Frame) : Component :=
  { name := frame.name, items := frame.reversed.reverse }

end Frame

/-- Reads on inside the innermost frame until the outermost one is closed. -/
def readBody (outer : List Frame) (frame : Frame) (text : List Char) :
    Option (Component × List Char) :=
  match _hend : dropKeyword? "END:" (skipLineEnds text) with
  | some tail =>
    match _hname : dropLiteral? frame.name tail with
    | none => none
    | some rest =>
      match outer with
      | [] => some (frame.close, skipLineEnds rest)
      | parent :: outer =>
        readBody outer (parent.push (.component frame.close.name frame.close.items)) rest
  | none =>
    match _hbegin : dropKeyword? "BEGIN:" (skipLineEnds text) with
    | some tail =>
      readBody (frame :: outer) (Frame.new (tail.takeWhile isNameChar)) (tail.dropWhile isNameChar)
    | none =>
      match readProperty? (skipLineEnds text) with
      | none => none
      | some (property, rest) =>
        if _hrest : (skipLineEnds rest).length < (skipLineEnds text).length then
          readBody outer (frame.push (.property property)) (skipLineEnds rest)
        else none
termination_by text.length
decreasing_by
  · have hend := length_of_dropMatching? _hend
    have hname := length_of_dropMatching? _hname
    have hskip := length_skipLineEnds_le text
    have hword : "END:".toList.length = 4 := rfl
    omega
  · have hbegin := length_of_dropMatching? _hbegin
    have hdrop := length_dropWhile_le isNameChar tail
    have hskip := length_skipLineEnds_le text
    have hword : "BEGIN:".toList.length = 6 := rfl
    omega
  · have hskip := length_skipLineEnds_le text
    omega

namespace Component

def read? (text : List Char) : Option (Component × List Char) :=
  match dropKeyword? "BEGIN:" (skipLineEnds text) with
  | none => none
  | some tail => readBody [] (Frame.new (tail.takeWhile isNameChar)) (tail.dropWhile isNameChar)

/-- The component that an unfolded text holds, where the text holds one and nothing else. -/
def ofText? (text : List Char) : Option Component :=
  match read? text with
  | some (component, []) => some component
  | _ => none

end Component

end CalendarCommand
