import CalendarCommand.ContentLine.Physical

/-!
# Folding

Folding cuts a text into physical lines of at most `width` characters.  The text is first cut at
its own line breaks; each piece is then cut greedily into a first chunk of `width` characters and
further chunks of `width - 1`.  Every line but the very first one of the whole fold starts with
one added space, which tells a reader that the line continues the one before.

Widths count characters.  A width below two leaves no room for a character beside the added space,
so such a width acts as two.
-/

namespace CalendarCommand.ContentLine

/-- The least width that holds the added space and one character. -/
def leastWidth : Nat := 2

def defaultWidth : Nat := 75

/-- The width that a requested width acts as. -/
def effectiveWidth (width : Nat) : Nat :=
  max width leastWidth

/-- Cuts a line greedily: the first chunk takes `room` characters and each later chunk one more
than `later`. -/
def chunks (later : Nat) : Nat → List Char → List (List Char)
  | _, [] => [[]]
  | 0, c :: rest => [] :: consToFirst c (chunks later later rest)
  | room + 1, c :: rest => consToFirst c (chunks later room rest)

/-- The pieces of a text between its line feeds, each without one carriage return at its end. -/
def pieces (text : List Char) : List (List Char) :=
  (text.splitOn '\n').map fun piece =>
    if piece.getLast? = some '\r' then piece.dropLast else piece

/-- Marks every line but the first as a continuation. -/
def markContinuations : List (List Char) → List (List Char)
  | [] => []
  | first :: more => first :: more.map fun line => ' ' :: line

def fold (text : List Char) (width : Nat) : List (List Char) :=
  let width := effectiveWidth width
  markContinuations ((pieces text).flatMap (chunks (width - 2) width))

/-! ## Laws of the cut -/

theorem chunks_ne_nil (later room : Nat) (line : List Char) : chunks later room line ≠ [] := by
  cases line with
  | nil => simp [chunks]
  | cons c rest =>
    cases room with
    | zero => simp [chunks]
    | succ room =>
      simp only [chunks]
      cases chunks later room rest <;> simp [consToFirst]

/-- The chunks of a line are the line. -/
theorem flatten_chunks (later room : Nat) (line : List Char) :
    (chunks later room line).flatten = line := by
  induction line generalizing room with
  | nil => simp [chunks]
  | cons c rest ih => cases room <;> simp [chunks, flatten_consToFirst, ih]

end CalendarCommand.ContentLine
