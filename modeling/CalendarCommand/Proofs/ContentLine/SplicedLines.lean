import CalendarCommand.Proofs.ContentLine.GreedyFolding
import CalendarCommand.Proofs.ContentLine.SpliceUnfolding

/-!
# The lines of a spliced text

A splice writes the folded lines of its property, all of them but the last one with the terminator
between them, and the last one with the terminator of the last line it replaces.  What it writes holds
no line break of its own, so these are the physical lines of the written region, and no line is longer
than the width.

The terminators of the written lines come from lines of the text, or from what the text uses for its
line breaks, so a splice brings in no line break of a form that the text does not have.
-/

namespace CalendarCommand.ContentLine

/-! ## Lines that a splice writes -/

/-- A line without line breaks is folded into a first chunk that takes the width and chunks behind an
added space. -/
theorem exists_fold_eq_cons {line : List Char} (hline : BreakFree line) (width : Nat) :
    ∃ more : List (List Char),
      fold line width = line.take (effectiveWidth width) :: more.map (' ' :: ·) ∧
      ∀ chunk ∈ more, ∀ c ∈ chunk, c ∈ line := by
  obtain ⟨more, hfold, hmore⟩ :=
    exists_fold_eq_markContinuations hline.2 hline.getLast?_ne_cr width
  refine ⟨more, hfold, fun chunk hchunk c hc ↦ List.drop_subset (effectiveWidth width) line ?_⟩
  rw [← hmore]
  exact List.mem_flatten.2 ⟨chunk, hchunk, hc⟩

/-- Folding brings no line break into a line, and no line that is empty. -/
theorem breakFree_of_mem_fold {line : List Char} (hline : BreakFree line) (hne : line ≠ [])
    (width : Nat) : ∀ part ∈ fold line width, BreakFree part ∧ part ≠ [] := by
  obtain ⟨more, hfold, hmore⟩ := exists_fold_eq_cons hline width
  have hsubset {part : List Char} (hpart : ∀ c ∈ part, c ∈ line) : BreakFree part :=
    ⟨fun h ↦ hline.1 (hpart _ h), fun h ↦ hline.2 (hpart _ h)⟩
  rw [hfold, List.forall_mem_cons, List.forall_mem_map]
  refine ⟨⟨hsubset fun c hc ↦ List.take_subset _ _ hc, ?_⟩, fun chunk hchunk ↦ ?_⟩
  · have hroom := two_le_effectiveWidth width
    rw [Ne, List.take_eq_nil_iff]
    exact fun h ↦ h.elim (by omega) hne
  · have hfree : BreakFree chunk := hsubset (hmore chunk hchunk)
    exact ⟨⟨by simp [hfree.1], by simp [hfree.2]⟩, List.cons_ne_nil _ _⟩

theorem length_le_of_mem_fold {line part : List Char} (hline : BreakFree line) {width : Nat}
    (hpart : part ∈ fold line width) : part.length ≤ effectiveWidth width := by
  rcases mem_fold hpart with hle | ⟨piece, hpiece, -⟩
  · exact hle
  · rw [pieces_eq_singleton hline.2 hline.getLast?_ne_cr] at hpiece
    exact absurd hpiece (by simp)

theorem exists_fold_eq_concat {line : List Char} (hline : BreakFree line) (width : Nat) :
    ∃ lead final, fold line width = lead ++ [final] := by
  obtain ⟨more, hfold, -⟩ := exists_fold_eq_cons hline width
  exact ⟨_, _, (List.dropLast_append_getLast (by rw [hfold]; exact List.cons_ne_nil _ _)).symm⟩

theorem intercalate_concat (separator final : List Char) (lead : List (List Char)) :
    separator.intercalate (lead ++ [final]) = (lead.flatMap fun line ↦ line ++ separator) ++ final := by
  have hne : lead ++ [final] ≠ [] := by simp
  have hended := flatMap_append_eq_intercalate hne separator
  rw [List.flatMap_append, List.flatMap_singleton, ← List.append_assoc] at hended
  exact (List.append_cancel_right hended).symm

theorem breakFree_descriptionLine (narrative : List Char) : BreakFree (descriptionLine narrative) :=
  (break_notMem_descriptionLine narrative).symm

theorem breakFree_of_mem_fold_descriptionLine (narrative : List Char) (width : Nat) :
    ∀ line ∈ fold (descriptionLine narrative) width, BreakFree line ∧ line ≠ [] :=
  breakFree_of_mem_fold (breakFree_descriptionLine narrative) (by simp [descriptionLine]) width

section Written

variable {narrative : List Char} {width : Nat} {lead : List (List Char)} {final : List Char}

/-- The lines that are written: the folded lines, with the inner terminator behind each of them but the
last one. -/
theorem physicalLines_replacementText
    (hfold : fold (descriptionLine narrative) width = lead ++ [final]) (first last : Terminator)
    (crlf : Bool) : physicalLines (replacementText narrative width first last crlf) =
      (lead.map fun line ↦ line ++ (innerTerminator first crlf).text) ++ [final ++ last.text] := by
  have hinner := innerTerminator_ne_absent first crlf
  have hlines := hfold ▸ breakFree_of_mem_fold_descriptionLine narrative width
  have hlead : ∀ line ∈ lead, BreakFree line := fun line hline ↦
    (hlines line (List.mem_append_left _ hline)).1
  obtain ⟨hfinal, hne⟩ := hlines final (by simp)
  have htext : replacementText narrative width first last crlf =
      terminated (innerTerminator first crlf) lead ++ (final ++ last.text) := by
    rw [replacementText, hfold, intercalate_concat, List.append_assoc]
    rfl
  rw [htext, physicalLines_append (endsLine_terminated hinner),
    physicalLines_terminated hinner hlead, physicalLines_line_terminator hfinal.2 hne]

/-- A written line is a folded line with the inner terminator, or with the terminator that the last one
is given. -/
theorem exists_of_mem_replacementText {first last : Terminator} {crlf : Bool} {line : List Char}
    (hline : line ∈ physicalLines (replacementText narrative width first last crlf)) :
    ∃ part ∈ fold (descriptionLine narrative) width, line = part ++ (terminator line).text ∧
      (terminator line = innerTerminator first crlf ∨ terminator line = last) := by
  obtain ⟨lead, final, hfold⟩ := exists_fold_eq_concat (breakFree_descriptionLine narrative) width
  have hlines := breakFree_of_mem_fold_descriptionLine narrative width
  rw [physicalLines_replacementText hfold, List.mem_append, List.mem_singleton] at hline
  rw [hfold] at hlines ⊢
  rcases hline with hline | rfl
  · obtain ⟨part, hpart, rfl⟩ := List.mem_map.1 hline
    have hmem : part ∈ lead ++ [final] := List.mem_append_left _ hpart
    have hterminator : terminator (part ++ (innerTerminator first crlf).text) =
        innerTerminator first crlf := terminator_line (hlines part hmem).1
    exact ⟨part, hmem, by rw [hterminator], .inl hterminator⟩
  · have hmem : final ∈ lead ++ [final] := by simp
    have hterminator : terminator (final ++ last.text) = last := terminator_line (hlines final hmem).1
    exact ⟨final, hmem, by rw [hterminator], .inr hterminator⟩

/-- Every written line but the first one begins with the added space. -/
theorem head?_of_mem_tail_replacementText {first last : Terminator} {crlf : Bool} {line : List Char}
    (hline : line ∈ (physicalLines (replacementText narrative width first last crlf)).tail) :
    line.head? = some ' ' := by
  obtain ⟨lead, final, hfold⟩ := exists_fold_eq_concat (breakFree_descriptionLine narrative) width
  obtain ⟨more, hcons, -⟩ := exists_fold_eq_cons (breakFree_descriptionLine narrative) width
  rw [physicalLines_replacementText hfold] at hline
  rw [hfold] at hcons
  cases lead with
  | nil => exact absurd hline (by simp)
  | cons part lead =>
    have hrest : lead ++ [final] = more.map (' ' :: ·) := (List.cons.inj hcons).2
    have hspace (part : List Char) (hpart : part ∈ lead ++ [final]) (ending : List Char) :
        (part ++ ending).head? = some ' ' := by
      rw [hrest] at hpart
      obtain ⟨chunk, -, rfl⟩ := List.mem_map.1 hpart
      rfl
    rw [List.map_cons, List.cons_append, List.tail_cons, List.mem_append, List.mem_singleton] at hline
    rcases hline with hline | rfl
    · obtain ⟨part, hpart, rfl⟩ := List.mem_map.1 hline
      exact hspace part (List.mem_append_left _ hpart) _
    · exact hspace final (by simp) _

end Written

theorem replacementText_ne_nil (narrative : List Char) (width : Nat) (first last : Terminator)
    (crlf : Bool) : replacementText narrative width first last crlf ≠ [] := by
  obtain ⟨lead, final, hfold⟩ := exists_fold_eq_concat (breakFree_descriptionLine narrative) width
  intro hnil
  have hlines := physicalLines_replacementText hfold first last crlf
  simp [hnil, physicalLines] at hlines

theorem closingTerminator_replacementText (narrative : List Char) (width : Nat)
    (first last : Terminator) (crlf : Bool) :
    closingTerminator (replacementText narrative width first last crlf) = last := by
  obtain ⟨lead, final, hfold⟩ := exists_fold_eq_concat (breakFree_descriptionLine narrative) width
  have hfinal := breakFree_of_mem_fold_descriptionLine narrative width final (by rw [hfold]; simp)
  rw [closingTerminator, physicalLines_replacementText hfold, List.getLastD_concat]
  exact terminator_line hfinal.1

theorem terminator_replacementText (narrative : List Char) (width : Nat) (first last : Terminator)
    (crlf : Bool) : terminator (replacementText narrative width first last crlf) = last := by
  rw [← closingTerminator_eq (replacementText_ne_nil narrative width first last crlf), closingTerminator_replacementText]

theorem endsLine_replacementText (narrative : List Char) (width : Nat) (first : Terminator)
    {last : Terminator} (crlf : Bool) (hlast : last ≠ .absent) :
    EndsLine (replacementText narrative width first last crlf) :=
  endsLine_terminator hlast

theorem innerTerminator_ne {first terminator : Terminator} {crlf : Bool} (hfirst : first ≠ terminator)
    (hcrlf : crlf = false → terminator ≠ .lf) (hlf : crlf = true → terminator ≠ .crlf) :
    innerTerminator first crlf ≠ terminator := by
  cases first with
  | absent =>
    cases crlf with
    | false => exact (hcrlf rfl).symm
    | true => exact (hlf rfl).symm
  | crlf => exact hfirst
  | lf => exact hfirst

/-! ## Lines of the spliced text -/

namespace DescriptionFrame

variable {text before span after : List Char}

/-- The terminators that a splice works with are those of lines of the text. -/
theorem exists_line_terminator (h : DescriptionFrame text before span after) :
    (∃ line ∈ physicalLines text, terminator line = openingTerminator span) ∧
      ∃ line ∈ physicalLines text, terminator line = closingTerminator span := by
  obtain ⟨first, more, hspan, -⟩ := h.physicalLines_span
  have hmem {line : List Char} (hline : line ∈ physicalLines span) : line ∈ physicalLines text := by
    rw [h.physicalLines_text]
    exact List.mem_append_right _ (List.mem_append_left _ hline)
  have hne : physicalLines span ≠ [] := by rw [hspan]; exact List.cons_ne_nil _ _
  refine ⟨⟨first, hmem (by rw [hspan]; exact List.mem_cons_self), ?_⟩,
    ⟨_, hmem (List.getLast_mem hne), ?_⟩⟩
  · rw [openingTerminator, hspan]
    rfl
  · rw [closingTerminator, List.getLastD_eq_getLast?, List.getLast?_eq_some_getLast hne]
    rfl

/-- The lines of a spliced text are those before and behind the span and the written lines. -/
theorem physicalLines_replacement (h : DescriptionFrame text before span after)
    (narrative : List Char) (width : Nat) (first : Terminator) (crlf : Bool) :
    physicalLines (before ++
        replacementText narrative width first (closingTerminator span) crlf ++ after) =
      physicalLines before ++ (physicalLines
        (replacementText narrative width first (closingTerminator span) crlf) ++
          physicalLines after) := by
  rw [List.append_assoc, physicalLines_append h.before_ends]
  by_cases hafter : after = []
  · simp [hafter, physicalLines]
  · rw [physicalLines_append
      (endsLine_replacementText _ _ _ _ (h.closingTerminator_ne_absent hafter))]

/-- A terminator that no line of the text has, and that is not written between new lines, does not come
in with a splice. -/
theorem terminator_ne_of_mem_replacement (h : DescriptionFrame text before span after)
    {narrative : List Char} {width : Nat} {unused : Terminator}
    (htext : ∀ line ∈ physicalLines text, terminator line ≠ unused)
    (hinner : innerTerminator (openingTerminator span) (hasCrlf text) ≠ unused) :
    ∀ line ∈ physicalLines (before ++ replacementText narrative width (openingTerminator span)
        (closingTerminator span) (hasCrlf text) ++ after), terminator line ≠ unused := by
  intro line hline
  rw [h.physicalLines_text] at htext
  rw [h.physicalLines_replacement, List.mem_append, List.mem_append] at hline
  rcases hline with hline | hline | hline
  · exact htext line (List.mem_append_left _ hline)
  · obtain ⟨-, -, -, hterminator | hterminator⟩ := exists_of_mem_replacementText hline
    · exact hterminator ▸ hinner
    · obtain ⟨-, last, hlast, hclosing⟩ := h.exists_line_terminator
      rw [h.physicalLines_text] at hlast
      rw [hterminator, ← hclosing]
      exact htext last hlast
  · exact htext line (List.mem_append_right _ (List.mem_append_right _ hline))

theorem lfBehindCr_replacement (h : DescriptionFrame text before span after)
    (narrative : List Char) (width : Nat) (hcrlf : hasCrlf text = true) (hlf : LfBehindCr text) :
    LfBehindCr (before ++ replacementText narrative width (openingTerminator span)
      (closingTerminator span) (hasCrlf text) ++ after) := by
  obtain ⟨⟨first, hfirst, hopening⟩, -⟩ := h.exists_line_terminator
  rw [lfBehindCr_iff] at hlf ⊢
  refine h.terminator_ne_of_mem_replacement hlf ?_
  exact innerTerminator_ne (hopening ▸ hlf first hfirst) (by simp [hcrlf]) (by simp)

theorem hasCrlf_replacement (h : DescriptionFrame text before span after)
    (narrative : List Char) (width : Nat) (hcrlf : hasCrlf text = false) :
    hasCrlf (before ++ replacementText narrative width (openingTerminator span)
      (closingTerminator span) (hasCrlf text) ++ after) = false := by
  obtain ⟨⟨first, hfirst, hopening⟩, -⟩ := h.exists_line_terminator
  have hnone := hasCrlf_eq_false_iff.1 hcrlf
  refine hasCrlf_eq_false_iff.2 (h.terminator_ne_of_mem_replacement hnone ?_)
  exact innerTerminator_ne (hopening ▸ hnone first hfirst) (by simp) (by simp [hcrlf])

/-- A splice keeps how the text ends. -/
theorem terminator_replacement (h : DescriptionFrame text before span after) (narrative : List Char)
    (width : Nat) (first : Terminator) (crlf : Bool) :
    terminator (before ++
      replacementText narrative width first (closingTerminator span) crlf ++ after) =
        terminator text := by
  let written := replacementText narrative width first (closingTerminator span) crlf
  have hspan : closingTerminator span = terminator span := closingTerminator_eq h.span_ne_nil
  rw [h.text_eq]
  by_cases hafter : after = []
  · rw [hafter, List.append_nil, List.append_nil, terminator_append h.before_ends h.span_ne_nil,
      terminator_append h.before_ends (replacementText_ne_nil narrative width _ _ _), ← hspan]
    exact terminator_replacementText ..
  · have hwritten : EndsLine written :=
      endsLine_replacementText _ _ _ _ (h.closingTerminator_ne_absent hafter)
    rw [terminator_append (h.before_ends.append hwritten) hafter,
      terminator_append (h.before_ends.append (h.endsLine_span hafter)) hafter]

end DescriptionFrame

/-- A splice keeps the physical format of a text.  The lines it writes have no more characters than the
width admits, their terminators apart, and all but the first begin with a space.  Where every line feed
of the text stands behind a carriage return this holds after the splice too, a text without CRLF is left
without it, and the text ends as it did, with the same terminator or with none. -/
theorem spliceDescription_keeps_format {text narrative out : List Char} {width : Nat}
    (h : spliceDescription text narrative width = some out) :
    (∃ before span after written, DescriptionFrame text before span after ∧
      out = before ++ written ++ after ∧
      physicalLines out = physicalLines before ++ (physicalLines written ++ physicalLines after) ∧
      (∀ line ∈ physicalLines written,
        line.length ≤ effectiveWidth width + (terminator line).text.length) ∧
      ∀ line ∈ (physicalLines written).tail, line.head? = some ' ') ∧
    (hasCrlf text = true → LfBehindCr text → LfBehindCr out) ∧
    (hasCrlf text = false → hasCrlf out = false) ∧
    terminator out = terminator text ∧
    (out.getLast? = some '\n' ↔ text.getLast? = some '\n') := by
  obtain ⟨before, span, after, hframe⟩ := exists_frame_of_spliceDescription h
  obtain rfl := Option.some.inj (h.symm.trans (hframe.spliceDescription_eq narrative width))
  have hends := hframe.terminator_replacement narrative width (openingTerminator span) (hasCrlf text)
  refine ⟨⟨before, span, after, _, hframe, rfl, hframe.physicalLines_replacement ..,
    fun line hline ↦ ?_, fun line ↦ head?_of_mem_tail_replacementText⟩,
    hframe.lfBehindCr_replacement narrative width, hframe.hasCrlf_replacement narrative width, hends, ?_⟩
  · obtain ⟨part, hpart, hwritten, -⟩ := exists_of_mem_replacementText hline
    have hle := length_le_of_mem_fold (breakFree_descriptionLine narrative) hpart
    have hlength := congrArg List.length hwritten
    rw [List.length_append] at hlength
    omega
  · rw [getLast?_eq_lf_iff, getLast?_eq_lf_iff, hends]

/-- The last line of the text, which has no terminator, continues the span; the narrative holds both
forms of a line break and a carriage return standing alone. -/
theorem spliceDescription_keeps_format_unterminated :
    spliceDescription "A:1\r\nDESCRIPTION:x\r\n y".toList "C\r\nD\rE\n".toList 12 =
        some "A:1\r\nDESCRIPTION:\r\n C\\nD\\nE\\n".toList ∧
      hasCrlf "A:1\r\nDESCRIPTION:x\r\n y".toList = true ∧
      LfBehindCr "A:1\r\nDESCRIPTION:x\r\n y".toList ∧
      LfBehindCr "A:1\r\nDESCRIPTION:\r\n C\\nD\\nE\\n".toList ∧
      terminator "A:1\r\nDESCRIPTION:\r\n C\\nD\\nE\\n".toList = .absent := by
  have hsplice : spliceDescription "A:1\r\nDESCRIPTION:x\r\n y".toList "C\r\nD\rE\n".toList 12 =
      some "A:1\r\nDESCRIPTION:\r\n C\\nD\\nE\\n".toList := by decide
  have hcrlf : hasCrlf "A:1\r\nDESCRIPTION:x\r\n y".toList = true := by decide
  have hlf : LfBehindCr "A:1\r\nDESCRIPTION:x\r\n y".toList := by decide
  obtain ⟨-, hkeeps, -, hends, -⟩ := spliceDescription_keeps_format hsplice
  exact ⟨hsplice, hcrlf, hlf, hkeeps hcrlf hlf, hends.trans (by decide)⟩

end CalendarCommand.ContentLine
