import CalendarCommand.Decimal.Binary64
import CalendarCommand.Json.Basic

/-!
# Reading JSON

The reader works off a text from left to right.  It keeps the arrays and objects that are open at
the moment on a stack; every step takes at least one character, so the length of the remaining text
bounds the reading.

A reading is either complete or superficial.  A complete reading refuses an escaped surrogate that
has no partner and a number that does not work out to a double.  A superficial one, meant for values
that are passed over, looks at the form of texts and numbers only.

A number is worked out as a significand of at most 64 bits times a power of ten.  Both are rounded
to doubles before they are multiplied, so a number close to the largest double may come out beyond
it.
-/

namespace CalendarCommand

namespace Json

/-- How closely texts and numbers are looked at. -/
inductive Reading where
  | complete
  | superficial
deriving DecidableEq, Repr

/-- The character separates the parts of a JSON text. -/
def isSpace (c : Char) : Bool :=
  c == ' ' || c == '\n' || c == '\r' || c == '\t'

def skipSpace (text : List Char) : List Char :=
  text.dropWhile isSpace

theorem length_skipSpace_le (text : List Char) : (skipSpace text).length ≤ text.length :=
  (List.dropWhile_sublist isSpace).length_le

/-! ## Texts -/

def hexValue? (c : Char) : Option Nat :=
  if '0' ≤ c ∧ c ≤ '9' then some (c.toNat - 48)
  else if 'a' ≤ c ∧ c ≤ 'f' then some (c.toNat - 87)
  else if 'A' ≤ c ∧ c ≤ 'F' then some (c.toNat - 55)
  else none

/-- The number of four digits to base sixteen. -/
def hexUnit? (a b c d : Char) : Option Nat :=
  (hexValue? a).bind fun a => (hexValue? b).bind fun b => (hexValue? c).bind fun c =>
    (hexValue? d).map fun d => ((a * 16 + b) * 16 + c) * 16 + d

/-- The code point of a character behind a backslash. -/
def escaped? : Char → Option Nat
  | '"' => some 34
  | '\\' => some 92
  | '/' => some 47
  | 'b' => some 8
  | 'f' => some 12
  | 'n' => some 10
  | 'r' => some 13
  | 't' => some 9
  | _ => none

def consCode (code : Nat) (read : List Nat × List Char) : List Nat × List Char :=
  (code :: read.1, read.2)

/-- The codes of a text behind its opening quote, escaped surrogates still apart, and what stands
behind its closing quote. -/
def readCodes? : List Char → Option (List Nat × List Char)
  | [] => none
  | '"' :: rest => some ([], rest)
  | '\\' :: 'u' :: a :: b :: c :: d :: rest =>
    (hexUnit? a b c d).bind fun code => (readCodes? rest).map (consCode code)
  | '\\' :: c :: rest => (escaped? c).bind fun code => (readCodes? rest).map (consCode code)
  | c :: rest => if c.toNat < 32 then none else (readCodes? rest).map (consCode c.toNat)

/-- The code is the first half of a surrogate pair. -/
def isLeading (code : Nat) : Bool :=
  0xD800 ≤ code && code < 0xDC00

/-- The code is the second half of a surrogate pair. -/
def isTrailing (code : Nat) : Bool :=
  0xDC00 ≤ code && code < 0xE000

def joinPair (leading trailing : Nat) : Nat :=
  0x10000 + (leading - 0xD800) * 0x400 + (trailing - 0xDC00)

/-- The characters of codes, surrogates joined to pairs. -/
def joinCodes? : List Nat → Option (List Char)
  | [] => some []
  | [code] => if isLeading code || isTrailing code then none else some [Char.ofNat code]
  | first :: second :: rest =>
    if isLeading first then
      if isTrailing second then
        (joinCodes? rest).map fun text => Char.ofNat (joinPair first second) :: text
      else none
    else if isTrailing first then none
    else (joinCodes? (second :: rest)).map fun text => Char.ofNat first :: text

/-- The characters that a reading takes from codes; a superficial reading takes none. -/
def textOfCodes? (reading : Reading) (codes : List Nat) : Option String :=
  match reading with
  | .complete => (joinCodes? codes).map String.ofList
  | .superficial => some ""

/-- A text behind its opening quote. -/
def readText? (reading : Reading) (text : List Char) : Option (String × List Char) :=
  (readCodes? text).bind fun read =>
    (textOfCodes? reading read.1).map fun value => (value, read.2)

theorem length_of_readCodes? {text : List Char} {read : List Nat × List Char}
    (h : readCodes? text = some read) : read.2.length < text.length := by
  fun_induction readCodes? text generalizing read with
  | case1 => cases h
  | case2 rest =>
    simp only [Option.some.injEq] at h
    subst h
    simp
  | case3 a b c d rest ih =>
    simp only [Option.bind_eq_some_iff, Option.map_eq_some_iff] at h
    obtain ⟨_, _, tail, htail, rfl⟩ := h
    have := ih htail
    simp only [consCode, List.length_cons] at this ⊢
    omega
  | case4 c rest _ ih =>
    simp only [Option.bind_eq_some_iff, Option.map_eq_some_iff] at h
    obtain ⟨_, _, tail, htail, rfl⟩ := h
    have := ih htail
    simp only [consCode, List.length_cons] at this ⊢
    omega
  | case5 => cases h
  | case6 c rest _ _ _ _ ih =>
    simp only [Option.map_eq_some_iff] at h
    obtain ⟨tail, htail, rfl⟩ := h
    have := ih htail
    simp only [consCode, List.length_cons] at this ⊢
    omega

theorem length_of_readText? {reading : Reading} {text : List Char} {read : String × List Char}
    (h : readText? reading text = some read) : read.2.length < text.length := by
  simp only [readText?, Option.bind_eq_some_iff, Option.map_eq_some_iff] at h
  obtain ⟨codes, hcodes, _, _, rfl⟩ := h
  exact length_of_readCodes? hcodes

/-! ## Numbers -/

def takeDigits (text : List Char) : List Char :=
  text.takeWhile Char.isDigit

def dropDigits (text : List Char) : List Char :=
  text.dropWhile Char.isDigit

def natOfDigits (digits : List Char) : Nat :=
  digits.foldl (fun n c => n * 10 + (c.toNat - 48)) 0

/-- A number as its parts are written; the exponent is absent where there is none. -/
structure Literal where
  negative : Bool
  whole : List Char
  fraction : List Char
  exponent : Option (Bool × List Char)
deriving DecidableEq, Repr

namespace Literal

def text (literal : Literal) : List Char :=
  let fraction := if literal.fraction.isEmpty then [] else '.' :: literal.fraction
  let exponent :=
    match literal.exponent with
    | none => []
    | some (negative, digits) => 'e' :: (if negative then ['-'] else []) ++ digits
  (if literal.negative then ['-'] else []) ++ literal.whole ++ fraction ++ exponent

/-- The end of the numbers that a significand may be. -/
def significandEnd : Nat := 0x10000000000000000

/-- Appends digits to a significand as long as it has room for them; the second part of the answer
is the number of digits that were appended. -/
def appendDigits (significand : Nat) : List Char → Nat × Nat
  | [] => (significand, 0)
  | c :: digits =>
    let longer := significand * 10 + (c.toNat - 48)
    if longer < significandEnd then
      let appended := appendDigits longer digits
      (appended.1, appended.2 + 1)
    else (significand, 0)

/-- The power of ten that the exponent names. -/
def exponentValue (literal : Literal) : Int :=
  match literal.exponent with
  | none => 0
  | some (negative, digits) => if negative then -natOfDigits digits else natOfDigits digits

/-- The significand of the number and the power of ten that goes with it.  Digits of the whole part
without room in the significand raise the power, and those of the fraction are left out. -/
def parts (literal : Literal) : Nat × Int :=
  let whole := appendDigits 0 literal.whole
  let all := appendDigits whole.1 literal.fraction
  (all.1, (literal.whole.length : Int) - whole.2 - all.2 + literal.exponentValue)

def largestPower : Nat := 308

/-- The number works out to more than the largest double. -/
def isTooLarge (literal : Literal) : Bool :=
  let parts := literal.parts
  if parts.1 = 0 ∨ parts.2 < 0 then false
  else if largestPower < parts.2.natAbs then true
  else
    ((Binary64.ofDecimal false parts.1 0).multiply
      (Binary64.ofDecimal false 1 parts.2)).isInfinite

/-- The value of the number: an integer where it is written as one.  A negative zero is no
integer. -/
def toJson (literal : Literal) : Json :=
  let magnitude := natOfDigits literal.whole
  if literal.fraction.isEmpty && literal.exponent.isNone && !(literal.negative && magnitude == 0) then
    .integer (if literal.negative then -magnitude else magnitude)
  else .decimal (String.ofList literal.text)

end Literal

/-- The digits of a whole number: a zero that stands alone, or any digits that start with another
one. -/
def readWhole? (text : List Char) : Option (List Char × List Char) :=
  match text with
  | '0' :: rest => if (takeDigits rest).isEmpty then some (['0'], rest) else none
  | _ => if (takeDigits text).isEmpty then none else some (takeDigits text, dropDigits text)

/-- The fraction of a number, empty where there is none. -/
def readFraction? : List Char → Option (List Char × List Char)
  | '.' :: rest =>
    if (takeDigits rest).isEmpty then none else some (takeDigits rest, dropDigits rest)
  | text => some ([], text)

def readSign : List Char → Bool × List Char
  | '-' :: rest => (true, rest)
  | '+' :: rest => (false, rest)
  | text => (false, text)

/-- The exponent of a number, absent where there is none. -/
def readExponent? : List Char → Option (Option (Bool × List Char) × List Char)
  | [] => some (none, [])
  | c :: rest =>
    if c == 'e' || c == 'E' then
      let signed := readSign rest
      if (takeDigits signed.2).isEmpty then none
      else some (some (signed.1, takeDigits signed.2), dropDigits signed.2)
    else some (none, c :: rest)

/-- A number behind its sign. -/
def readMagnitude? (negative : Bool) (text : List Char) : Option (Literal × List Char) :=
  (readWhole? text).bind fun whole => (readFraction? whole.2).bind fun fraction =>
    (readExponent? fraction.2).map fun exponent =>
      ({ negative, whole := whole.1, fraction := fraction.1, exponent := exponent.1 }, exponent.2)

def readLiteral? : List Char → Option (Literal × List Char)
  | '-' :: rest => readMagnitude? true rest
  | text => readMagnitude? false text

theorem length_dropDigits_lt (text : List Char) (h : (takeDigits text).isEmpty = false) :
    (dropDigits text).length < text.length := by
  cases text with
  | nil => simp [takeDigits] at h
  | cons c rest =>
    by_cases hc : c.isDigit = true
    · have hle : (rest.dropWhile Char.isDigit).length ≤ rest.length :=
        (List.dropWhile_sublist Char.isDigit).length_le
      simp only [dropDigits, List.dropWhile_cons, hc, if_true, List.length_cons]
      omega
    · simp [takeDigits, hc] at h

theorem length_of_readWhole? {text : List Char} {read : List Char × List Char}
    (h : readWhole? text = some read) : read.2.length < text.length := by
  unfold readWhole? at h
  split at h
  · split at h
    · simp only [Option.some.injEq] at h
      subst h
      simp
    · cases h
  · split at h
    · cases h
    · rename_i hdigits
      simp only [Option.some.injEq] at h
      subst h
      exact length_dropDigits_lt text (by simpa using hdigits)

theorem length_of_readFraction? {text : List Char} {read : List Char × List Char}
    (h : readFraction? text = some read) : read.2.length ≤ text.length := by
  unfold readFraction? at h
  split at h
  · split at h
    · cases h
    · rename_i rest hdigits
      simp only [Option.some.injEq] at h
      subst h
      have := length_dropDigits_lt rest (by simpa using hdigits)
      simp only [List.length_cons]
      omega
  · simp only [Option.some.injEq] at h
    subst h
    exact Nat.le_refl _

theorem length_readSign_le (text : List Char) : (readSign text).2.length ≤ text.length := by
  unfold readSign
  split <;> simp

theorem length_of_readExponent? {text : List Char}
    {read : Option (Bool × List Char) × List Char}
    (h : readExponent? text = some read) : read.2.length ≤ text.length := by
  unfold readExponent? at h
  split at h
  · simp only [Option.some.injEq] at h
    subst h
    exact Nat.le_refl _
  · rename_i c rest
    split at h
    · simp only at h
      split at h
      · cases h
      · rename_i hdigits
        simp only [Option.some.injEq] at h
        subst h
        have hdrop := length_dropDigits_lt (readSign rest).2 (by simpa using hdigits)
        have hsign := length_readSign_le rest
        simp only [List.length_cons]
        omega
    · simp only [Option.some.injEq] at h
      subst h
      exact Nat.le_refl _

theorem length_of_readMagnitude? {negative : Bool} {text : List Char}
    {read : Literal × List Char} (h : readMagnitude? negative text = some read) :
    read.2.length < text.length := by
  simp only [readMagnitude?, Option.bind_eq_some_iff, Option.map_eq_some_iff] at h
  obtain ⟨whole, hwhole, fraction, hfraction, exponent, hexponent, rfl⟩ := h
  have h₁ := length_of_readWhole? hwhole
  have h₂ := length_of_readFraction? hfraction
  have h₃ := length_of_readExponent? hexponent
  simp only
  omega

theorem length_of_readLiteral? {text : List Char} {read : Literal × List Char}
    (h : readLiteral? text = some read) : read.2.length < text.length := by
  unfold readLiteral? at h
  split at h
  · have := length_of_readMagnitude? h
    simp only [List.length_cons]
    omega
  · exact length_of_readMagnitude? h

/-- The value that a reading takes from a number; a complete reading refuses one that is too
large. -/
def numberOfLiteral? (reading : Reading) (literal : Literal) : Option Json :=
  if reading == .complete && literal.isTooLarge then none else some literal.toJson

/-! ## Values -/

/-- A value that holds no other one, and the text behind it. -/
def readScalar? (reading : Reading) (text : List Char) : Option (Json × List Char) :=
  match text with
  | 'n' :: 'u' :: 'l' :: 'l' :: rest => some (.null, rest)
  | 't' :: 'r' :: 'u' :: 'e' :: rest => some (.boolean true, rest)
  | 'f' :: 'a' :: 'l' :: 's' :: 'e' :: rest => some (.boolean false, rest)
  | '"' :: rest => (readText? reading rest).map fun read => (.string read.1, read.2)
  | _ => (readLiteral? text).bind fun read =>
      (numberOfLiteral? reading read.1).map fun number => (number, read.2)

/-- The name of a member with its colon, and the text behind them. -/
def readName? (reading : Reading) (text : List Char) : Option (String × List Char) :=
  match skipSpace text with
  | '"' :: rest =>
    (readText? reading rest).bind fun read =>
      match skipSpace read.2 with
      | ':' :: rest => some (read.1, rest)
      | _ => none
  | _ => none

theorem length_of_readScalar? {reading : Reading} {text : List Char} {read : Json × List Char}
    (h : readScalar? reading text = some read) : read.2.length < text.length := by
  unfold readScalar? at h
  split at h
  · simp only [Option.some.injEq] at h
    subst h
    simp only [List.length_cons]
    omega
  · simp only [Option.some.injEq] at h
    subst h
    simp only [List.length_cons]
    omega
  · simp only [Option.some.injEq] at h
    subst h
    simp only [List.length_cons]
    omega
  · simp only [Option.map_eq_some_iff] at h
    obtain ⟨tail, htail, rfl⟩ := h
    have := length_of_readText? htail
    simp only [List.length_cons]
    omega
  · simp only [Option.bind_eq_some_iff, Option.map_eq_some_iff] at h
    obtain ⟨tail, htail, _, _, rfl⟩ := h
    exact length_of_readLiteral? htail

theorem length_of_readName? {reading : Reading} {text : List Char} {read : String × List Char}
    (h : readName? reading text = some read) : read.2.length < text.length := by
  unfold readName? at h
  split at h
  · rename_i rest hquote
    simp only [Option.bind_eq_some_iff] at h
    obtain ⟨name, hname, h⟩ := h
    split at h
    · rename_i rest' hcolon
      simp only [Option.some.injEq] at h
      subst h
      have h₁ := length_skipSpace_le text
      have h₂ := length_of_readText? hname
      have h₃ := length_skipSpace_le name.2
      rw [hquote] at h₁
      rw [hcolon] at h₃
      simp only [List.length_cons] at h₁ h₃ ⊢
      omega
    · cases h
  · cases h

/-- An array or an object that is open while a text is read; what it holds comes in reverse. -/
inductive Frame where
  | array (reversed : List Json)
  /-- An object with the name of the member that is being read. -/
  | object (reversed : List (String × Json)) (name : String)

mutual

/-- Reads a value inside the open frames. -/
def readValue? (reading : Reading) (frames : List Frame) (text : List Char) :
    Option (Json × List Char) :=
  match _htext : skipSpace text with
  | '[' :: rest =>
    match _hrest : skipSpace rest with
    | ']' :: tail => resume? reading frames (.array []) tail
    | _ => readValue? reading (.array [] :: frames) rest
  | '\x7b' :: rest =>
    match _hrest : skipSpace rest with
    | '\x7d' :: tail => resume? reading frames (.object []) tail
    | _ =>
      match _hname : readName? reading rest with
      | none => none
      | some (name, rest) => readValue? reading (.object [] name :: frames) rest
  | _ =>
    match _hscalar : readScalar? reading (skipSpace text) with
    | none => none
    | some (value, rest) => resume? reading frames value rest
termination_by text.length
decreasing_by
  · have hopen := length_skipSpace_le text
    have hclose := length_skipSpace_le rest
    rw [_htext] at hopen
    rw [_hrest] at hclose
    simp only [List.length_cons] at hopen hclose
    omega
  · have hopen := length_skipSpace_le text
    rw [_htext] at hopen
    simp only [List.length_cons] at hopen
    omega
  · have hopen := length_skipSpace_le text
    have hclose := length_skipSpace_le rest
    rw [_htext] at hopen
    rw [_hrest] at hclose
    simp only [List.length_cons] at hopen hclose
    omega
  · have hopen := length_skipSpace_le text
    have hname := length_of_readName? _hname
    rw [_htext] at hopen
    simp only [List.length_cons] at hopen hname
    omega
  · have hopen := length_skipSpace_le text
    have hscalar := length_of_readScalar? _hscalar
    simp only at hscalar
    omega

/-- Goes on behind a value inside the open frames. -/
def resume? (reading : Reading) (frames : List Frame) (value : Json) (text : List Char) :
    Option (Json × List Char) :=
  match frames with
  | [] => some (value, text)
  | .array reversed :: frames =>
    match _htext : skipSpace text with
    | ',' :: rest => readValue? reading (.array (value :: reversed) :: frames) rest
    | ']' :: rest => resume? reading frames (.array (value :: reversed).reverse) rest
    | _ => none
  | .object reversed name :: frames =>
    match _htext : skipSpace text with
    | ',' :: rest =>
      match _hname : readName? reading rest with
      | none => none
      | some (next, rest) =>
        readValue? reading (.object ((name, value) :: reversed) next :: frames) rest
    | '\x7d' :: rest => resume? reading frames (.object ((name, value) :: reversed).reverse) rest
    | _ => none
termination_by text.length
decreasing_by
  all_goals have hskip := length_skipSpace_le text
  all_goals rw [_htext] at hskip
  all_goals simp only [List.length_cons] at hskip
  · omega
  · omega
  · have := length_of_readName? _hname
    simp only at this
    omega
  · omega

end

/-- The value that a text holds, where it holds one and blank space besides. -/
def ofText? (text : List Char) : Option Json :=
  match readValue? .complete [] text with
  | some (value, rest) => if (skipSpace rest).isEmpty then some value else none
  | none => none

end Json

end CalendarCommand
