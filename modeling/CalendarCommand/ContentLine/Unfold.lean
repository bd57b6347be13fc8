import CalendarCommand.ContentLine.Physical

/-!
# Unfolding

Unfolding joins the physical lines of a text into logical ones.  There are two rules for it here.
`unfold` reads the text once from left to right and drops each line break that a space or a tab
follows, together with that character.  `unfoldPiecewise` removes the four forms of a fold one
form at a time, each form from the pieces that the removal of the earlier forms has left; the
reader of components works on its result.
-/

namespace CalendarCommand.ContentLine

/-- The text without each line break that a space or a tab follows, and without that character. -/
def unfold : List Char → List Char
  | [] => []
  | '\r' :: '\n' :: ' ' :: rest => unfold rest
  | '\r' :: '\n' :: '\t' :: rest => unfold rest
  | '\n' :: ' ' :: rest => unfold rest
  | '\n' :: '\t' :: rest => unfold rest
  | c :: rest => c :: unfold rest

/-- The pieces of a text around the occurrences of the pattern `c :: more`, found from left to
right without overlap. -/
def splitAround (c : Char) (more : List Char) : List Char → List (List Char)
  | [] => [[]]
  | d :: rest =>
    if (c :: more).isPrefixOf (d :: rest) then
      [] :: splitAround c more (rest.drop more.length)
    else
      consToFirst d (splitAround c more rest)
termination_by text => text.length
decreasing_by
  all_goals simp only [List.length_drop, List.length_cons]
  all_goals omega

/-- The four forms of a fold in the order in which they are removed. -/
def foldForms : List (Char × List Char) :=
  [('\r', ['\n', ' ']), ('\n', [' ']), ('\r', ['\n', '\t']), ('\n', ['\t'])]

/-- Cuts every piece of a text around one form of a fold. -/
def splitPieces (pieces : List (List Char)) (form : Char × List Char) : List (List Char) :=
  pieces.flatMap (splitAround form.1 form.2)

/-- The text without its folds, each form removed from the pieces left by the forms before it. -/
def unfoldPiecewise (text : List Char) : List Char :=
  (foldForms.foldl splitPieces [text]).flatten

end CalendarCommand.ContentLine
