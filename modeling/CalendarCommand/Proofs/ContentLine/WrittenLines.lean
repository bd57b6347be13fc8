import CalendarCommand.Component.Writer
import CalendarCommand.Proofs.ContentLine.FoldRoundTrip
import CalendarCommand.Proofs.ContentLine.TerminatedLines

/-!
# Written lines

A folded line unfolds to the line, at every width and with either line break.  Logical lines that are
written one after the other, each folded at a width of its own, therefore unfold to these lines with
their terminators.  The widths leave no trace, and a fold may lie anywhere in a line, in its name and in
its marks as well as in its value.
-/

namespace CalendarCommand.ContentLine

/-- The chunks of a folded line, joined by a line break, unfold to the line. -/
theorem unfold_joined {separator : Terminator} (hseparator : separator ≠ .absent)
    {line : List Char} (hlf : '\n' ∉ line) (hcr : '\r' ∉ line) (width : Nat) (rest : List Char) :
    unfold (separator.text.intercalate (fold line width) ++ rest) = line ++ unfold rest := by
  have hpieces : (pieces line).flatten = line := by
    rw [pieces_eq_singleton hlf fun h ↦ hcr (List.mem_of_getLast? h), List.flatten_singleton]
  rw [unfold_joined_fold hseparator width (.inl (hpieces.symm ▸ hcr)), hpieces]

/-- A logical line that can be written and read back: it holds no line break, and its first character
is no fold mark. -/
structure IsLogical (line : List Char) : Prop where
  breakFree : BreakFree line
  ne_nil : line ≠ []
  startsApart : StartsApart line

variable {terminator : Terminator} {line rest : List Char}

/-- A list of lines that is not empty, joined by the text that also ends the last one. -/
theorem flatMap_append_eq_intercalate {lines : List (List Char)} (hlines : lines ≠ [])
    (ending : List Char) :
    (lines.flatMap fun line ↦ line ++ ending) = ending.intercalate lines ++ ending := by
  obtain ⟨first, more, rfl⟩ := List.exists_cons_of_ne_nil hlines
  induction more generalizing first with
  | nil => simp
  | cons second more ih =>
    rw [List.flatMap_cons, ih second (List.cons_ne_nil _ _), List.intercalate_cons_cons]
    simp

theorem writeLine_eq (hline : BreakFree line) (width : Nat) :
    writeLine terminator width line =
      terminator.text.intercalate (fold line width) ++ terminator.text := by
  apply flatMap_append_eq_intercalate
  rw [fold_eq_chunks hline.2 hline.getLast?_ne_cr]
  cases hchunks : chunks (effectiveWidth width - 2) (effectiveWidth width) line with
  | nil => exact absurd hchunks (chunks_ne_nil _ _ _)
  | cons first more => exact List.cons_ne_nil _ _

/-- A written line begins with the first character of the line. -/
theorem startsApart_writeLine (hline : IsLogical line) (width : Nat) (rest : List Char) :
    StartsApart (writeLine terminator width line ++ rest) := by
  obtain ⟨more, -, hjoin⟩ := intercalate_fold hline.breakFree.2 hline.breakFree.1 width
  obtain ⟨c, tail, hcons⟩ := List.exists_cons_of_ne_nil hline.ne_nil
  obtain ⟨room, hroom⟩ := Nat.exists_eq_add_of_le' (two_le_effectiveWidth width)
  rw [writeLine_eq hline.breakFree, hjoin, hroom, hcons]
  intro d hd
  exact hline.startsApart d (by rw [hcons]; exact hd)

/-- A written line unfolds to the line with its terminator, unless a continuation follows. -/
theorem unfold_writeLine (hterminator : terminator ≠ .absent) (hline : BreakFree line)
    (width : Nat) (hrest : StartsApart rest) :
    unfold (writeLine terminator width line ++ rest) =
      line ++ (terminator.text ++ unfold rest) := by
  rw [writeLine_eq hline, List.append_assoc, unfold_joined hterminator hline.2 hline.1,
    unfold_append (Terminator.endsLine_text terminator) hrest, unfold_terminator]

/-- Written lines unfold to the lines with their terminators. -/
theorem unfold_writeLines (hterminator : terminator ≠ .absent) {lines : List (List Char × Nat)}
    (hlines : ∀ line ∈ lines, IsLogical line.1) :
    unfold (writeLines terminator lines) = terminated terminator (lines.map Prod.fst) ∧
      StartsApart (writeLines terminator lines) := by
  induction lines with
  | nil => exact ⟨rfl, nofun⟩
  | cons line lines ih =>
    have hline := hlines line List.mem_cons_self
    obtain ⟨hunfold, hstarts⟩ := ih fun other hother ↦ hlines other (List.mem_cons_of_mem _ hother)
    have hcons : writeLines terminator (line :: lines) =
        writeLine terminator line.2 line.1 ++ writeLines terminator lines := List.flatMap_cons
    rw [hcons, List.map_cons, terminated_cons,
      unfold_writeLine hterminator hline.breakFree line.2 hstarts, hunfold]
    exact ⟨rfl, startsApart_writeLine hline line.2 _⟩

end CalendarCommand.ContentLine
