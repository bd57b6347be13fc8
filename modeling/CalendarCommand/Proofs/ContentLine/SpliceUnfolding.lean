import CalendarCommand.Proofs.ContentLine.DescriptionFrame
import CalendarCommand.Proofs.ContentLine.WrittenLines

/-!
# A splice seen through unfolding

The frame of a splice lies at line ends that no continuation crosses, so a spliced text unfolds part
by part.  The span it replaces is one logical line, and so is what it writes: the name, the colon,
the escaped narrative and the terminator of the last replaced line, whatever the width.  No
character of a narrative, a line break included, can open a line of its own.
-/

namespace CalendarCommand.ContentLine

/-- The logical line that a splice writes, with its terminator. -/
def replacementLine (narrative : List Char) (last : Terminator) : List Char :=
  descriptionLine narrative ++ last.text

theorem OpensDescription.startsApart {text : List Char} (h : OpensDescription text) :
    StartsApart text := by
  intro c hc
  have hhead : text.head? = some 'D' := by
    rcases h with ⟨rest, rfl⟩ | ⟨rest, rfl⟩ <;> rfl
  rw [hhead, Option.some.injEq] at hc
  rw [← hc]
  decide

theorem startsApart_replacementText (narrative : List Char) (width : Nat)
    (first last : Terminator) (crlf : Bool) (after : List Char) :
    StartsApart (replacementText narrative width first last crlf ++ after) := by
  obtain ⟨rest, hrest⟩ := take_prefix_replacementText narrative width first last crlf
  obtain ⟨room, hroom⟩ := Nat.exists_eq_add_of_le' (two_le_effectiveWidth width)
  rw [← hrest, hroom]
  intro c hc
  rw [← Option.some.inj hc]
  decide

/-- A folded text unfolds to a single line. -/
theorem Folded.unfold_eq {text : List Char} (h : Folded text) {before rest : List Char}
    (hcut : unfold text = before ++ '\n' :: rest) : rest = [] := by
  induction text using unfold_induction generalizing before with
  | nil => simp [unfold] at hcut
  | crlf mark tail hmark ih =>
    rw [unfold_crlf_mark hmark] at hcut
    exact ih (Folded.of_append_right (a := ['\r', '\n', mark]) h) hcut
  | lf mark tail hmark ih =>
    rw [unfold_lf_mark hmark] at hcut
    exact ih (Folded.of_append_right (a := ['\n', mark]) h) hcut
  | cons c tail hfold ih =>
    rw [unfold_cons hfold] at hcut
    cases before with
    | nil =>
      obtain ⟨rfl, rfl⟩ := List.cons.inj hcut
      rcases h [] tail rfl with rfl | ⟨mark, more, rfl, hmark⟩
      · rfl
      · exact absurd ⟨mark, more, hmark, .inr rfl⟩ hfold
    | cons d before =>
      exact ih (Folded.of_append_right (a := [c]) h) (List.cons.inj hcut).2

theorem physicalLines_singleton {line : List Char} (hne : line ≠ [])
    (h : ∀ before rest, line = before ++ '\n' :: rest → rest = []) :
    physicalLines line = [line] := by
  by_cases hlf : '\n' ∈ line
  · obtain ⟨front, rest, hline, hfront⟩ := List.eq_append_cons_of_mem hlf
    have hrest := h front rest hline
    rw [hline, hrest, physicalLines_line hfront]
    rfl
  · exact physicalLines_unterminated hlf hne

theorem closingTerminator_eq {text : List Char} (hne : text ≠ []) :
    closingTerminator text = terminator text := by
  rcases List.eq_nil_or_concat (physicalLines text) with hnil | ⟨lead, line, hlines⟩
  · exact absurd (physicalLines_eq_nil_iff.1 hnil) hne
  · rw [List.concat_eq_append] at hlines
    obtain ⟨-, hline, hends⟩ := physicalLines_eq_append hlines
    have hflat := flatten_physicalLines text
    rw [hlines, List.flatten_append, List.flatten_singleton] at hflat
    rw [List.flatten_singleton] at hline
    have hne' : line ≠ [] := by
      intro hnil
      simp [hnil, physicalLines] at hline
    rw [closingTerminator, hlines, List.getLastD_concat, ← hflat,
      terminator_append (hends.resolve_left (by simp)) hne']

namespace DescriptionFrame

variable {text before span after : List Char}

theorem startsApart_after (h : DescriptionFrame text before span after) : StartsApart after := by
  rcases h.after_apart with rfl | ⟨-, c, more, rfl, hc⟩
  · simp [StartsApart]
  · intro d hd
    rw [← Option.some.inj hd, hc]

theorem endsLine_span (h : DescriptionFrame text before span after) (hafter : after ≠ []) :
    EndsLine span :=
  .inr (h.after_apart.resolve_left hafter).1

theorem closingTerminator_ne_absent (h : DescriptionFrame text before span after)
    (hafter : after ≠ []) : closingTerminator span ≠ .absent := by
  rw [closingTerminator_eq h.span_ne_nil]
  exact getLast?_eq_lf_iff.1 (h.after_apart.resolve_left hafter).1

/-- A framed text unfolds part by part. -/
theorem unfold_text (h : DescriptionFrame text before span after) :
    unfold text = unfold before ++ unfold span ++ unfold after := by
  rw [h.text_eq, List.append_assoc, List.append_assoc,
    unfold_append h.before_ends (h.span_opens.append after).startsApart]
  by_cases hafter : after = []
  · simp [hafter, unfold]
  · rw [unfold_append (h.endsLine_span hafter) h.startsApart_after]

/-- A text that keeps the frame unfolds to the replaced line between the unfolded parts. -/
theorem unfold_replacement (h : DescriptionFrame text before span after) (narrative : List Char)
    (width : Nat) :
    unfold (before ++ replacementText narrative width (openingTerminator span)
        (closingTerminator span) (hasCrlf text) ++ after) =
      unfold before ++ replacementLine narrative (closingTerminator span) ++ unfold after := by
  have hopens : StartsApart (replacementText narrative width (openingTerminator span)
      (closingTerminator span) (hasCrlf text) ++ after) :=
    startsApart_replacementText narrative width _ _ _ after
  obtain ⟨hlf, hcr⟩ := break_notMem_descriptionLine narrative
  have hafter : unfold ((closingTerminator span).text ++ after) =
      (closingTerminator span).text ++ unfold after := by
    by_cases hnil : after = []
    · simp [hnil, unfold, unfold_terminator]
    · rw [unfold_append (Terminator.endsLine_text _) h.startsApart_after, unfold_terminator]
  rw [List.append_assoc, unfold_append h.before_ends hopens, replacementText, List.append_assoc,
    unfold_joined (innerTerminator_ne_absent _ _) hlf hcr, hafter, replacementLine]
  simp

/-- The span of a frame is one logical line. -/
theorem physicalLines_unfold_span (h : DescriptionFrame text before span after) :
    physicalLines (unfold span) = [unfold span] := by
  refine physicalLines_singleton ?_ fun lead rest hcut ↦ h.span_folded.unfold_eq hcut
  rcases h.span_opens with ⟨rest, rfl⟩ | ⟨rest, rfl⟩ <;>
    · rw [descriptionName_eq, List.append_assoc, List.cons_append,
        unfold_cons (not_startsFold_of_ne (by decide) (by decide) _)]
      exact List.cons_ne_nil _ _

end DescriptionFrame

theorem physicalLines_replacementLine (narrative : List Char) (last : Terminator) :
    physicalLines (replacementLine narrative last) = [replacementLine narrative last] :=
  physicalLines_line_terminator (break_notMem_descriptionLine narrative).1 (by simp [descriptionLine])

theorem endsLine_replacementLine {narrative : List Char} {last : Terminator}
    (hlast : last ≠ .absent) : EndsLine (replacementLine narrative last) :=
  endsLine_terminator hlast

theorem exists_frame_of_spliceDescription {text narrative out : List Char} {width : Nat}
    (h : spliceDescription text narrative width = some out) :
    ∃ before span after, DescriptionFrame text before span after := by
  refine DescriptionFrame.exists_of_hasDescriptionLine ?_
  by_contra hno
  rw [spliceDescription_eq_none_iff.2 hno] at h
  exact absurd h (by simp)

/-- One line between two others, cut at its line ends. -/
theorem physicalLines_between {before line after : List Char} (hbefore : EndsLine before)
    (hline : physicalLines line = [line]) (hend : after = [] ∨ EndsLine line) :
    physicalLines (before ++ line ++ after) =
      physicalLines before ++ line :: physicalLines after := by
  rw [List.append_assoc, physicalLines_append hbefore]
  rcases hend with rfl | hend
  · rw [List.append_nil, hline]
    rfl
  · rw [physicalLines_append hend, hline]
    rfl

/-- A splice replaces exactly one logical line, whatever the narrative holds and whatever the width
is: the text unfolds to the lines in front of the span, the line that the span is, and the lines
behind it, and the spliced text to the same with the new line in between.  The new value holds no
line break and reads as the narrative with its line breaks turned into line feeds. -/
theorem unfold_spliceDescription {text narrative out : List Char} {width : Nat}
    (h : spliceDescription text narrative width = some out) :
    ∃ before span after replacement,
      DescriptionFrame text before span after ∧ out = before ++ replacement ++ after ∧
      unfold text = unfold before ++ unfold span ++ unfold after ∧
      unfold out = unfold before ++ (descriptionName ++ ':' :: escape narrative ++
        (closingTerminator span).text) ++ unfold after ∧
      '\r' ∉ escape narrative ∧ '\n' ∉ escape narrative ∧
      unescape (escape narrative) = normalizeBreaks narrative ∧
      physicalLines (unfold text) = physicalLines (unfold before) ++
        unfold span :: physicalLines (unfold after) ∧
      physicalLines (unfold out) = physicalLines (unfold before) ++
        (descriptionName ++ ':' :: escape narrative ++ (closingTerminator span).text) ::
          physicalLines (unfold after) ∧
      ∀ width', ∃ out', spliceDescription text narrative width' = some out' ∧
        unfold out' = unfold out := by
  obtain ⟨before, span, after, hframe⟩ := exists_frame_of_spliceDescription h
  have hout := Option.some.inj (h.symm.trans (hframe.spliceDescription_eq narrative width))
  have hunfold := hframe.unfold_replacement narrative
  obtain ⟨hlf, hcr⟩ := break_notMem_escape narrative
  have hends := hframe.before_ends.unfold
  have hspan : unfold after = [] ∨ EndsLine (unfold span) := by
    by_cases hafter : after = []
    · exact .inl (by rw [hafter]; rfl)
    · exact .inr (hframe.endsLine_span hafter).unfold
  have hline : unfold after = [] ∨
      EndsLine (replacementLine narrative (closingTerminator span)) := by
    by_cases hafter : after = []
    · exact .inl (by rw [hafter]; rfl)
    · exact .inr (endsLine_replacementLine (hframe.closingTerminator_ne_absent hafter))
  refine ⟨before, span, after, _, hframe, hout, hframe.unfold_text, ?_, hcr, hlf,
    unescape_escape narrative, ?_, ?_, fun width' ↦ ?_⟩
  · rw [hout]
    exact hunfold width
  · rw [hframe.unfold_text]
    exact physicalLines_between hends hframe.physicalLines_unfold_span hspan
  · rw [hout, hunfold width]
    exact physicalLines_between hends (physicalLines_replacementLine narrative _) hline
  · refine ⟨_, hframe.spliceDescription_eq narrative width', ?_⟩
    rw [hout, hunfold width, hunfold width']

/-- A folded span with a parameter, between lines with other terminators; the narrative tries to
close a component. -/
theorem unfold_spliceDescription_hostile :
    spliceDescription "A:1\nDESCRIPTION;L=e:x\r\n y\nB:2".toList "END:VEVENT\r\n;".toList 12 =
        some "A:1\nDESCRIPTION:\r\n END:VEVENT\\\r\n n\\;\nB:2".toList ∧
      ∃ before span after replacement,
        DescriptionFrame "A:1\nDESCRIPTION;L=e:x\r\n y\nB:2".toList before span after ∧
        "A:1\nDESCRIPTION:\r\n END:VEVENT\\\r\n n\\;\nB:2".toList =
          before ++ replacement ++ after := by
  have hsplice : spliceDescription "A:1\nDESCRIPTION;L=e:x\r\n y\nB:2".toList
      "END:VEVENT\r\n;".toList 12 =
        some "A:1\nDESCRIPTION:\r\n END:VEVENT\\\r\n n\\;\nB:2".toList := by decide
  obtain ⟨before, span, after, replacement, hframe, hout, -⟩ := unfold_spliceDescription hsplice
  exact ⟨hsplice, before, span, after, replacement, hframe, hout⟩

end CalendarCommand.ContentLine
