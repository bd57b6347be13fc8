import CalendarCommand.Proofs.ContentLine.SplicedLines
import CalendarCommand.Settings.Basic

/-!
# A splice and the next one

A splice looks for the name of its property and the delimiter behind it in one physical line, and it
folds what it writes wherever the width says.  Where the width has room for both, the lines that a
splice writes are the ones that the next splice finds, and the texts in front of them and behind them
stay.

A width that is too small for that is accepted by the settings all the same.  At such a width the name
is cut from its delimiter, or is cut itself: no line of what was written opens the property, and the
next splice goes on to a later property of that name or finds none.
-/

namespace CalendarCommand.ContentLine

/-- Where `out` has come from splicing `text` at a width, the lines that were written are those that any
further splice at this width replaces: what stands before and behind them is still the same. -/
def RecognisesSplice (text out : List Char) (width : Nat) : Prop :=
  ∃ before span after written, DescriptionFrame text before span after ∧
    out = before ++ written ++ after ∧ DescriptionFrame out before written after ∧
    ∀ narrative, ∃ rewritten,
      spliceDescription out narrative width = some (before ++ rewritten ++ after)

/-! ## Lines behind a fold -/

theorem not_opensDescription_of_isContinuation {line : List Char} (h : isContinuation line = true) :
    ¬ OpensDescription line := by
  intro hopens
  cases line with
  | nil => exact not_opensDescription_nil hopens
  | cons c rest =>
    have hapart : isFoldMark c = false := hopens.startsApart c rfl
    exact absurd h (by rw [isContinuation, hapart]; decide)

/-- A folded text has no other place for a DESCRIPTION than its start. -/
theorem Folded.hasDescriptionLine_iff {text : List Char} (h : Folded text) :
    HasDescriptionLine text ↔ OpensDescription text := by
  constructor
  · rw [ContentLine.hasDescriptionLine_iff]
    rintro ⟨line, hline, hopens⟩
    have htail := h.tail_isContinuation
    cases hlines : physicalLines text with
    | nil => simp [hlines] at hline
    | cons first more =>
      rw [hlines, List.tail_cons] at htail
      rw [hlines, List.mem_cons] at hline
      rcases hline with rfl | hline
      · exact (opensDescription_first hlines).2 (opensDescription_iff.2 hopens)
      · exact absurd (opensDescription_iff.2 hopens)
          (not_opensDescription_of_isContinuation (htail line hline))
  · exact fun hopens ↦ ⟨[], text, rfl, endsLine_nil, hopens⟩

theorem not_hasDescriptionLine_nil : ¬ HasDescriptionLine [] := by
  simp [hasDescriptionLine_iff, physicalLines]

theorem hasDescriptionLine_append {a : List Char} (ha : EndsLine a) (b : List Char) :
    HasDescriptionLine (a ++ b) ↔ HasDescriptionLine a ∨ HasDescriptionLine b := by
  simp only [hasDescriptionLine_iff, physicalLines_append ha, List.mem_append, or_and_right,
    exists_or]

/-- A line that breaks off within the name, or directly behind it, does not open a DESCRIPTION. -/
theorem not_opensDescription_take (room : Nat) {c : Char} (hc : c = '\r' ∨ c = '\n')
    (rest : List Char) : ¬ OpensDescription (descriptionName.take room ++ c :: rest) := by
  have hmark (mark : Char) (hmark : mark ≠ c) :
      ¬ (descriptionName ++ [mark]) <+: (descriptionName.take room ++ c :: rest) := by
    intro h
    have hname : descriptionName ++ [mark] =
        descriptionName.take room ++ (descriptionName.drop room ++ [mark]) := by
      rw [← List.append_assoc, List.take_append_drop]
    rw [hname, List.prefix_append_right_inj] at h
    have hmem : c ∈ descriptionName.drop room ++ [mark] := by
      cases hcut : descriptionName.drop room ++ [mark] with
      | nil => simp at hcut
      | cons d tail =>
        rw [hcut, List.cons_prefix_cons] at h
        exact h.1 ▸ List.mem_cons_self
    rcases List.mem_append.1 hmem with hmem | hmem
    · have hletter := List.drop_subset room descriptionName hmem
      rcases hc with rfl | rfl <;> exact absurd hletter (by decide)
    · exact hmark (List.mem_singleton.1 hmem).symm
  rintro (h | h)
  · exact hmark ':' (by rcases hc with rfl | rfl <;> decide) h
  · exact hmark ';' (by rcases hc with rfl | rfl <;> decide) h

/-! ## Lines that a splice writes -/

theorem folded_replacementText (narrative : List Char) (width : Nat) (first last : Terminator)
    (crlf : Bool) : Folded (replacementText narrative width first last crlf) := by
  refine folded_of_tail_isContinuation fun line hline ↦ ?_
  obtain ⟨chunk, rfl⟩ := List.head?_eq_some_iff.1 (head?_of_mem_tail_replacementText hline)
  rfl

/-- What a splice writes opens a DESCRIPTION exactly when the width has room for the name and the
delimiter behind it. -/
theorem opensDescription_replacementText_iff (narrative : List Char) (width : Nat)
    (first last : Terminator) (crlf : Bool) :
    OpensDescription (replacementText narrative width first last crlf) ↔
      descriptionName.length < width := by
  constructor
  · intro hopens
    by_contra hnarrow
    have hwidth : effectiveWidth width ≤ descriptionName.length :=
      Nat.max_le.2 ⟨Nat.le_of_not_lt hnarrow, by decide⟩
    obtain ⟨more, htext, hmore⟩ := exists_replacementText_eq narrative width first last crlf
    -- The colon is left for the lines behind the first one, so a line break follows the first chunk.
    obtain ⟨chunk, others, rfl⟩ : ∃ chunk others, more = chunk :: others := by
      refine List.exists_cons_of_ne_nil fun hnil ↦ ?_
      have hlength := congrArg List.length hmore
      rw [hnil, List.length_drop, descriptionLine, List.length_append, List.length_cons] at hlength
      simp only [List.flatten_nil, List.length_nil] at hlength
      omega
    obtain ⟨c, tail, hseparator, hc⟩ : ∃ c tail, (innerTerminator first crlf).text = c :: tail ∧
        (c = '\r' ∨ c = '\n') := by
      cases hinner : innerTerminator first crlf with
      | crlf => exact ⟨_, _, rfl, .inl rfl⟩
      | lf => exact ⟨_, _, rfl, .inr rfl⟩
      | absent => exact absurd hinner (innerTerminator_ne_absent first crlf)
    rw [htext, descriptionLine, List.take_append_of_le_length hwidth, List.flatMap_cons, hseparator]
      at hopens
    exact not_opensDescription_take _ hc _ hopens
  · intro hwide
    have hwidth : (descriptionName ++ [':']).length ≤ effectiveWidth width :=
      Nat.le_trans hwide (Nat.le_max_left width leastWidth)
    have hprefix := take_prefix_replacementText narrative width first last crlf
    rw [List.take_of_length_le hwidth] at hprefix
    exact .inl hprefix

namespace DescriptionFrame

variable {text before span after : List Char}

/-- Lines that fold a property and stand in place of a span are the span of the new text. -/
theorem replaced (h : DescriptionFrame text before span after) {written : List Char}
    (hopens : OpensDescription written) (hfolded : Folded written)
    (hends : after ≠ [] → EndsLine written) :
    DescriptionFrame (before ++ written ++ after) before written after := by
  refine ⟨rfl, h.before_ends, h.before_free, hopens, hfolded, h.after_apart.imp_right ?_⟩
  rintro ⟨-, c, more, hafter, hc⟩
  have hne : after ≠ [] := by simp [hafter]
  have hwritten : written ≠ [] := by
    rintro rfl
    exact not_opensDescription_nil hopens
  exact ⟨(hends hne).resolve_left hwritten, c, more, hafter, hc⟩

/-- At a width that has room for the name and the delimiter, the lines that a splice writes are the span
of the spliced text. -/
theorem replaced_of_lt (h : DescriptionFrame text before span after) {width : Nat}
    (hwide : descriptionName.length < width) (narrative : List Char) (first : Terminator)
    (crlf : Bool) :
    DescriptionFrame
      (before ++ replacementText narrative width first (closingTerminator span) crlf ++ after) before
      (replacementText narrative width first (closingTerminator span) crlf) after :=
  h.replaced ((opensDescription_replacementText_iff ..).2 hwide) (folded_replacementText narrative width _ _ _)
    fun hafter ↦ endsLine_replacementText _ _ _ _ (h.closingTerminator_ne_absent hafter)

/-- Text without a DESCRIPTION line in front of a framed text joins its first part. -/
theorem behind (h : DescriptionFrame text before span after) {lead : List Char}
    (hends : EndsLine lead) (hfree : ¬ HasDescriptionLine lead) :
    DescriptionFrame (lead ++ text) (lead ++ before) span after := by
  refine ⟨?_, hends.append h.before_ends, ?_, h.span_opens, h.span_folded, h.after_apart⟩
  · rw [h.text_eq]
    simp only [List.append_assoc]
  · rw [hasDescriptionLine_append hends]
    exact fun hline ↦ hline.elim hfree h.before_free

/-- Lines that open nothing and stand in place of a span leave the search to the text behind them. -/
theorem search_behind (h : DescriptionFrame text before span after) {written : List Char}
    (hfree : ¬ HasDescriptionLine written) (hends : after ≠ [] → EndsLine written) :
    (HasDescriptionLine (before ++ written ++ after) ↔ HasDescriptionLine after) ∧
      ∀ between found rest, DescriptionFrame after between found rest →
        DescriptionFrame (before ++ written ++ after) (before ++ written ++ between) found rest := by
  have hlead : ¬ HasDescriptionLine (before ++ written) := by
    rw [hasDescriptionLine_append h.before_ends]
    exact fun hline ↦ hline.elim h.before_free hfree
  constructor
  · by_cases hafter : after = []
    · rw [hafter, List.append_nil]
      exact iff_of_false hlead not_hasDescriptionLine_nil
    · rw [hasDescriptionLine_append (h.before_ends.append (hends hafter)), or_iff_right hlead]
  · intro between found rest hfound
    have hafter : after ≠ [] := by
      rw [hfound.text_eq]
      simp [hfound.span_ne_nil]
    exact hfound.behind (h.before_ends.append (hends hafter)) hlead

end DescriptionFrame

/-- The lines that a splice writes are those that the next one replaces exactly when the width has room
for the name of the property and the delimiter behind it.  At a smaller width the next splice acts on
the text behind these lines: it replaces the property that it finds there, and finds none where that
text has none. -/
theorem recognisesSplice_iff {text narrative out : List Char} {width : Nat}
    (h : spliceDescription text narrative width = some out) :
    (RecognisesSplice text out width ↔ descriptionName.length < width) ∧
    (width ≤ descriptionName.length →
      ∃ before span after written, DescriptionFrame text before span after ∧
        out = before ++ written ++ after ∧
        (∀ later, spliceDescription out later width = none ↔ ¬ HasDescriptionLine after) ∧
        ∀ between found rest, DescriptionFrame after between found rest →
          DescriptionFrame out (before ++ written ++ between) found rest ∧
          ∀ later, ∃ rewritten, spliceDescription out later width =
            some (before ++ written ++ between ++ rewritten ++ rest)) := by
  obtain ⟨before, span, after, hframe⟩ := exists_frame_of_spliceDescription h
  let written := replacementText narrative width (openingTerminator span) (closingTerminator span)
    (hasCrlf text)
  have hout : out = before ++ written ++ after :=
    Option.some.inj (h.symm.trans (hframe.spliceDescription_eq narrative width))
  have hopens : OpensDescription written ↔ descriptionName.length < width :=
    opensDescription_replacementText_iff ..
  have hfolded : Folded written := folded_replacementText narrative width _ _ _
  have hends (hafter : after ≠ []) : EndsLine written :=
    endsLine_replacementText _ _ _ _ (hframe.closingTerminator_ne_absent hafter)
  refine ⟨⟨?_, fun hwide ↦ ?_⟩, fun hnarrow ↦ ?_⟩
  · rintro ⟨before', span', after', written', hframe', hout', hagain, -⟩
    -- There is one frame of `text`, so what stands between its outer parts is what was written.
    obtain ⟨rfl, rfl, rfl⟩ := hframe.unique hframe'
    have hwritten : written = written' :=
      List.append_cancel_left (List.append_cancel_right (hout.symm.trans hout'))
    exact hopens.1 (hwritten ▸ hagain.span_opens)
  · have hagain : DescriptionFrame _ before written after := hframe.replaced_of_lt hwide ..
    rw [← hout] at hagain
    exact ⟨before, span, after, written, hframe, hout, hagain,
      fun later ↦ ⟨_, hagain.spliceDescription_eq later width⟩⟩
  · have hfree : ¬ HasDescriptionLine written := by
      rw [hfolded.hasDescriptionLine_iff, hopens]
      exact Nat.not_lt_of_le hnarrow
    obtain ⟨hline, hbehind⟩ := hframe.search_behind hfree hends
    rw [← hout] at hline hbehind
    refine ⟨before, span, after, written, hframe, hout, fun later ↦ ?_,
      fun between found rest hfound ↦ ?_⟩
    · rw [spliceDescription_none_iff, hline]
    · have hagain := hbehind between found rest hfound
      exact ⟨hagain, fun later ↦ ⟨_, hagain.spliceDescription_eq later width⟩⟩

/-- At the least width that suffices, two narratives one after the other; a second property of the name
follows. -/
theorem recognisesSplice_iff_leastWidth :
    spliceDescription "A:1\nDESCRIPTION;L=e:x\r\n y\nDESCRIPTION:z".toList "C:\nD".toList 12 =
        some "A:1\nDESCRIPTION:\r\n C:\\nD\nDESCRIPTION:z".toList ∧
      RecognisesSplice "A:1\nDESCRIPTION;L=e:x\r\n y\nDESCRIPTION:z".toList
        "A:1\nDESCRIPTION:\r\n C:\\nD\nDESCRIPTION:z".toList 12 := by
  have hsplice : spliceDescription "A:1\nDESCRIPTION;L=e:x\r\n y\nDESCRIPTION:z".toList
      "C:\nD".toList 12 = some "A:1\nDESCRIPTION:\r\n C:\\nD\nDESCRIPTION:z".toList := by decide
  exact ⟨hsplice, (recognisesSplice_iff hsplice).1.2 (by decide)⟩

/-- Settings with a width that has room for the name of the property and not for the delimiter. -/
def narrowSettings : Settings :=
  { Settings.default with foldWidth := 11 }

/-- Settings with this width are accepted, and what a splice writes at this width is not found by the
next one. -/
theorem not_recognisesSplice_narrowSettings : narrowSettings.validate = .ok () ∧
    spliceDescription "DESCRIPTION:note\r\n".toList "more".toList narrowSettings.foldWidth.toNat =
      some "DESCRIPTION\r\n :more\r\n".toList ∧
    spliceDescription "DESCRIPTION\r\n :more\r\n".toList "last".toList
      narrowSettings.foldWidth.toNat = none ∧
    ¬ RecognisesSplice "DESCRIPTION:note\r\n".toList "DESCRIPTION\r\n :more\r\n".toList
      narrowSettings.foldWidth.toNat := by
  have hnone : spliceDescription "DESCRIPTION\r\n :more\r\n".toList "last".toList
      narrowSettings.foldWidth.toNat = none := by decide
  refine ⟨by decide, by decide, hnone, ?_⟩
  rintro ⟨before, span, after, written, -, -, -, hagain⟩
  obtain ⟨rewritten, hsome⟩ := hagain "last".toList
  exact absurd (hnone.symm.trans hsome) nofun

end CalendarCommand.ContentLine
