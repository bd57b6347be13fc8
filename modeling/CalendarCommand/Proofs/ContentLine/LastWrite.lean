import CalendarCommand.Proofs.ContentLine.RepeatedSplice

/-!
# The last of two splices

A splice replaces what the splice before it has written, so of that one only the terminators can show
in the result: the terminator between the written lines is read off the first line that is replaced,
and where a folded span has become a single line, the terminator of its last line has taken the place
of the one of its first line.  In a text whose lines all end alike there is no such difference, and the
second of two splices leaves what it would have left without the first.  A splice that is repeated
writes the same lines again, whatever the terminators of the text are.
-/

namespace CalendarCommand.ContentLine

/-! ## Terminators of written lines -/

/-- A single written line ends as the last replaced line did; of several lines the first one ends with
the inner terminator. -/
theorem openingTerminator_replacementText (narrative : List Char) (width : Nat)
    (first last : Terminator) (crlf : Bool) :
    (∃ line, fold (descriptionLine narrative) width = [line]) ∧
        openingTerminator (replacementText narrative width first last crlf) = last ∨
      (¬ ∃ line, fold (descriptionLine narrative) width = [line]) ∧
        openingTerminator (replacementText narrative width first last crlf) =
          innerTerminator first crlf := by
  obtain ⟨lead, final, hfold⟩ := exists_fold_eq_concat (breakFree_descriptionLine narrative) width
  have hlines := hfold ▸ breakFree_of_mem_fold_descriptionLine narrative width
  rw [openingTerminator, physicalLines_replacementText hfold, hfold]
  cases lead with
  | nil => exact .inl ⟨⟨final, rfl⟩, terminator_line (hlines final (by simp)).1⟩
  | cons line lead =>
    exact .inr ⟨by simp, terminator_line (hlines line List.mem_cons_self).1⟩

/-- What a splice writes shows its inner terminator exactly when it has more than one line. -/
theorem replacementText_eq_iff {narrative : List Char} {width : Nat}
    {first first' last : Terminator} {crlf crlf' : Bool} :
    replacementText narrative width first last crlf =
        replacementText narrative width first' last crlf' ↔
      (∃ line, fold (descriptionLine narrative) width = [line]) ∨
        innerTerminator first crlf = innerTerminator first' crlf' := by
  constructor
  · intro h
    rcases openingTerminator_replacementText narrative width first last crlf with
      ⟨hsingle, -⟩ | ⟨hseveral, hopening⟩
    · exact .inl hsingle
    · rcases openingTerminator_replacementText narrative width first' last crlf' with
        ⟨hsingle, -⟩ | ⟨-, hopening'⟩
      · exact absurd hsingle hseveral
      · exact .inr (by rw [← hopening, ← hopening', h])
  · rintro (⟨line, hline⟩ | hinner)
    · rw [replacementText, replacementText, hline, List.intercalate_singleton,
        List.intercalate_singleton]
    · rw [replacementText, replacementText, hinner]

/-! ## The second splice -/

namespace DescriptionFrame

variable {text before span after out written narrative : List Char} {width : Nat}

/-- A splice after another one leaves what it leaves alone exactly when it writes a single line or finds
the same terminator for its lines. -/
theorem splice_again_iff (h : DescriptionFrame text before span after)
    (hwritten : written = replacementText narrative width (openingTerminator span)
      (closingTerminator span) (hasCrlf text)) (hout : out = before ++ written ++ after)
    (hwide : descriptionName.length < width) {later : List Char} {laterWidth : Nat} :
    spliceDescription out later laterWidth = spliceDescription text later laterWidth ↔
      (∃ line, fold (descriptionLine later) laterWidth = [line]) ∨
        innerTerminator (openingTerminator written) (hasCrlf out) =
          innerTerminator (openingTerminator span) (hasCrlf text) := by
  have hagain : DescriptionFrame out before written after := by
    rw [hout, hwritten]
    exact h.replaced_of_lt hwide narrative _ _
  have hclosing : closingTerminator written = closingTerminator span := by
    rw [hwritten, closingTerminator_replacementText]
  rw [hagain.spliceDescription_eq, h.spliceDescription_eq, Option.some.injEq,
    List.append_cancel_right_eq, List.append_cancel_left_eq, hclosing, replacementText_eq_iff]

/-- Where all lines of a text end alike, a splice leaves the terminator that the next one works with. -/
theorem innerTerminator_again (h : DescriptionFrame text before span after)
    (hwritten : written = replacementText narrative width (openingTerminator span)
      (closingTerminator span) (hasCrlf text)) (hout : out = before ++ written ++ after)
    {ending : Terminator} (hending : ∀ line ∈ physicalLines text, terminator line = ending) :
    innerTerminator (openingTerminator written) (hasCrlf out) =
      innerTerminator (openingTerminator span) (hasCrlf text) := by
  obtain ⟨⟨first, hfirst, hopening⟩, last, hlast, hclosing⟩ := h.exists_line_terminator
  rw [hending first hfirst] at hopening
  rw [hending last hlast] at hclosing
  have hagain := openingTerminator_replacementText narrative width (openingTerminator span)
    (closingTerminator span) (hasCrlf text)
  rw [← hwritten, ← hopening, ← hclosing] at hagain
  rw [← hopening]
  rcases hagain with ⟨-, hagain⟩ | ⟨-, hagain⟩
  · rw [hagain]
    by_cases habsent : ending = .absent
    · have hnone : hasCrlf text = false := by
        rw [hasCrlf_eq_false_iff]
        intro line hline
        rw [hending line hline, habsent]
        decide
      rw [hout, hwritten, h.hasCrlf_replacement narrative width hnone, hnone]
    · rw [innerTerminator_of_ne_absent habsent, innerTerminator_of_ne_absent habsent]
  · rw [hagain, innerTerminator_of_ne_absent (innerTerminator_ne_absent _ _)]

end DescriptionFrame

/-- The last of two splices wins, byte for byte, where all lines of the text end alike or both splices
are the same, and the first one has room for the name of the property and the delimiter behind it.
Repeating a splice changes nothing, whatever the terminators of the text are. -/
theorem spliceDescription_last_write_wins {text out first second : List Char}
    {firstWidth secondWidth : Nat} (h : spliceDescription text first firstWidth = some out)
    (hwide : descriptionName.length < firstWidth) :
    ((∃ ending, ∀ line ∈ physicalLines text, terminator line = ending) ∨
        first = second ∧ firstWidth = secondWidth →
      spliceDescription out second secondWidth = spliceDescription text second secondWidth) ∧
    spliceDescription out first firstWidth = some out := by
  obtain ⟨before, span, after, hframe⟩ := exists_frame_of_spliceDescription h
  obtain ⟨written, hwritten⟩ : ∃ written, written = replacementText first firstWidth
    (openingTerminator span) (closingTerminator span) (hasCrlf text) := ⟨_, rfl⟩
  have hout : out = before ++ written ++ after := by
    rw [hwritten]
    exact Option.some.inj (h.symm.trans (hframe.spliceDescription_eq first firstWidth))
  have hrepeated : spliceDescription out first firstWidth = spliceDescription text first firstWidth := by
    refine (hframe.splice_again_iff hwritten hout hwide).2 ?_
    -- Either the same single line is written again, or the first of several lines has kept the terminator.
    rcases openingTerminator_replacementText first firstWidth (openingTerminator span)
      (closingTerminator span) (hasCrlf text) with ⟨hsingle, -⟩ | ⟨-, hopening⟩
    · exact .inl hsingle
    · rw [← hwritten] at hopening
      rw [hopening, innerTerminator_of_ne_absent (innerTerminator_ne_absent _ _)]
      exact .inr rfl
  refine ⟨?_, hrepeated.trans h⟩
  rintro (⟨ending, hending⟩ | ⟨rfl, rfl⟩)
  · exact (hframe.splice_again_iff hwritten hout hwide).2
      (.inr (hframe.innerTerminator_again hwritten hout hending))
  · exact hrepeated

/-- A folded span becomes one line and then several lines again; all lines end with CRLF. -/
theorem spliceDescription_last_write_wins_crlf :
    spliceDescription "DESCRIPTION;L=e:x\r\n y\r\nB:2\r\n".toList "a".toList 13 =
        some "DESCRIPTION:a\r\nB:2\r\n".toList ∧
      descriptionName.length < 13 ∧
      (∀ line ∈ physicalLines "DESCRIPTION;L=e:x\r\n y\r\nB:2\r\n".toList,
        terminator line = .crlf) ∧
      spliceDescription "DESCRIPTION:a\r\nB:2\r\n".toList "b\nc".toList 12 =
        spliceDescription "DESCRIPTION;L=e:x\r\n y\r\nB:2\r\n".toList "b\nc".toList 12 := by
  have hfirst : spliceDescription "DESCRIPTION;L=e:x\r\n y\r\nB:2\r\n".toList "a".toList 13 =
      some "DESCRIPTION:a\r\nB:2\r\n".toList := by decide
  have hwide : descriptionName.length < 13 := by decide
  have hending : ∀ line ∈ physicalLines "DESCRIPTION;L=e:x\r\n y\r\nB:2\r\n".toList,
      terminator line = .crlf := by decide
  exact ⟨hfirst, hwide, hending,
    (spliceDescription_last_write_wins hfirst hwide).1 (.inl ⟨.crlf, hending⟩)⟩

/-- Where the span mixes its terminators, a first splice to a single line shows in the second one. -/
example : spliceDescription "DESCRIPTION:x\r\n y\n".toList "a".toList 13 =
      some "DESCRIPTION:a\n".toList ∧
    spliceDescription "DESCRIPTION:a\n".toList "b".toList 12 =
      some "DESCRIPTION:\n b\n".toList ∧
    spliceDescription "DESCRIPTION:x\r\n y\n".toList "b".toList 12 =
      some "DESCRIPTION:\r\n b\n".toList := by decide

end CalendarCommand.ContentLine
