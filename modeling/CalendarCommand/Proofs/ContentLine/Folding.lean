import CalendarCommand.ContentLine.Fold
import Mathlib.Data.List.Basic

/-!
# Folding one line

A text without line breaks is a single piece, so folding it is cutting it into chunks.  A line that
does not fit gives up a chunk at a time: the first one holds as many characters as the width admits,
and the folded text is this chunk followed by the others, each behind a separator and one space.
-/

namespace CalendarCommand.ContentLine

theorem two_le_effectiveWidth (width : Nat) : 2 ≤ effectiveWidth width :=
  Nat.le_max_right width leastWidth

theorem pieces_ne_nil (text : List Char) : pieces text ≠ [] := by
  simp [pieces, List.splitOn_ne_nil]

theorem pieces_eq_singleton {text : List Char} (hlf : '\n' ∉ text)
    (hend : text.getLast? ≠ some '\r') : pieces text = [text] := by
  rw [pieces, List.splitOn_eq_singleton hlf, List.map_singleton, if_neg hend]

/-- Folding a text of a single piece is cutting it into chunks. -/
theorem fold_eq_chunks {text : List Char} (hlf : '\n' ∉ text) (hend : text.getLast? ≠ some '\r')
    (width : Nat) : fold text width =
      markContinuations (chunks (effectiveWidth width - 2) (effectiveWidth width) text) := by
  rw [fold, pieces_eq_singleton hlf hend, List.flatMap_singleton]

/-- A line that fits is its only chunk. -/
theorem chunks_of_le {later room : Nat} {line : List Char} (h : line.length ≤ room) :
    chunks later room line = [line] := by
  induction line generalizing room with
  | nil => rfl
  | cons c rest ih =>
    cases room with
    | zero => exact absurd h (Nat.not_succ_le_zero _)
    | succ room =>
      rw [chunks, ih (Nat.le_of_succ_le_succ h)]
      rfl

/-- A longer line gives up as many characters as there is room for. -/
theorem chunks_of_lt {later room : Nat} {line : List Char} (h : room < line.length) :
    chunks later room line = line.take room :: chunks later (later + 1) (line.drop room) := by
  induction line generalizing room with
  | nil => exact absurd h (Nat.not_lt_zero _)
  | cons c rest ih =>
    cases room with
    | zero => rfl
    | succ room =>
      rw [chunks, ih (Nat.lt_of_succ_lt_succ h)]
      rfl

/-- The first chunk of a line takes all the room it is given. -/
theorem exists_chunks_eq (later room : Nat) (line : List Char) :
    ∃ more, chunks later room line = line.take room :: more := by
  by_cases h : line.length ≤ room
  · exact ⟨[], by rw [chunks_of_le h, List.take_of_length_le h]⟩
  · exact ⟨_, chunks_of_lt (Nat.lt_of_not_le h)⟩

theorem intercalate_markContinuations (separator first : List Char) (more : List (List Char)) :
    separator.intercalate (markContinuations (first :: more)) =
      first ++ more.flatMap fun chunk ↦ separator ++ ' ' :: chunk := by
  rw [markContinuations]
  induction more generalizing first with
  | nil => simp
  | cons chunk more ih =>
    rw [List.map_cons, List.intercalate_cons_cons, ih, List.flatMap_cons]
    simp

/-- A text of a single piece is folded into a first chunk that takes the width and the chunks of what
is left. -/
theorem exists_fold_eq_markContinuations {text : List Char} (hlf : '\n' ∉ text)
    (hend : text.getLast? ≠ some '\r') (width : Nat) : ∃ more : List (List Char),
      fold text width = markContinuations (text.take (effectiveWidth width) :: more) ∧
      more.flatten = text.drop (effectiveWidth width) := by
  obtain ⟨more, hmore⟩ :=
    exists_chunks_eq (effectiveWidth width - 2) (effectiveWidth width) text
  refine ⟨more, by rw [fold_eq_chunks hlf hend, hmore], ?_⟩
  have hflat := flatten_chunks (effectiveWidth width - 2) (effectiveWidth width) text
  rw [hmore, List.flatten_cons] at hflat
  refine List.append_cancel_left (hflat.trans ?_)
  rw [List.take_append_drop]

/-- The lines of a folded text without line breaks, joined by any separator. -/
theorem intercalate_fold {text : List Char} (hlf : '\n' ∉ text) (hcr : '\r' ∉ text) (width : Nat) :
    ∃ more : List (List Char), more.flatten = text.drop (effectiveWidth width) ∧
      ∀ separator : List Char, separator.intercalate (fold text width) =
        text.take (effectiveWidth width) ++ more.flatMap fun chunk ↦ separator ++ ' ' :: chunk := by
  obtain ⟨more, hfold, hmore⟩ :=
    exists_fold_eq_markContinuations hlf (fun h ↦ hcr (List.mem_of_getLast? h)) width
  exact ⟨more, hmore, fun separator ↦ by rw [hfold, intercalate_markContinuations]⟩

end CalendarCommand.ContentLine
