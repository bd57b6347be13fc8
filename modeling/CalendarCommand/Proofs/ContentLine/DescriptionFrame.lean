import CalendarCommand.ContentLine.Splice
import CalendarCommand.Proofs.ContentLine.Escaping
import CalendarCommand.Proofs.ContentLine.Folding
import CalendarCommand.Proofs.ContentLine.Lines
import Mathlib.Data.List.Infix
import Mathlib.Data.List.TakeWhile

/-!
# The frame of a splice

The splice works on a list of physical lines; this module says what it does to the characters of a
text.  A `DescriptionFrame` cuts a text into what stands before its first DESCRIPTION, the span of
that property with its continuation lines, and what stands behind.  The three parts are described
by line feeds and the characters behind them only.

A text with a DESCRIPTION line has exactly one frame, and a splice replaces the span of this frame
and nothing else.  What it puts there depends on the text through two terminators and, where the
first line of the span has none, through the presence of CRLF.
-/

namespace CalendarCommand.ContentLine

/-- The text begins with the name DESCRIPTION and the delimiter of a value or of a parameter. -/
def OpensDescription (text : List Char) : Prop :=
  (descriptionName ++ [':']) <+: text ∨ (descriptionName ++ [';']) <+: text

/-- At the start of the text or directly behind one of its line feeds a DESCRIPTION opens. -/
def HasDescriptionLine (text : List Char) : Prop :=
  ∃ before rest, text = before ++ rest ∧ EndsLine before ∧ OpensDescription rest

/-- Every line feed of the text but a final one is followed by a space or a tab. -/
def Folded (text : List Char) : Prop :=
  ∀ before rest, text = before ++ '\n' :: rest →
    rest = [] ∨ ∃ c more, rest = c :: more ∧ isFoldMark c = true

/-- A text cut around its first DESCRIPTION. -/
structure DescriptionFrame (text before span after : List Char) : Prop where
  text_eq : text = before ++ span ++ after
  before_ends : EndsLine before
  before_free : ¬ HasDescriptionLine before
  span_opens : OpensDescription span
  span_folded : Folded span
  after_apart : after = [] ∨
    span.getLast? = some '\n' ∧ ∃ c more, after = c :: more ∧ isFoldMark c = false

def openingTerminator (text : List Char) : Terminator :=
  terminator ((physicalLines text).headD [])

def closingTerminator (text : List Char) : Terminator :=
  terminator ((physicalLines text).getLastD [])

/-- The terminator between the lines that a splice writes, from the terminator of the first line it
replaces and from whether the text holds CRLF. -/
def innerTerminator (first : Terminator) (crlf : Bool) : Terminator :=
  match first with
  | .absent => if crlf then .crlf else .lf
  | found => found

/-- What a splice puts in place of a span whose first and last line end with the given terminators,
in a text that holds CRLF or does not. -/
def replacementText (narrative : List Char) (width : Nat) (first last : Terminator)
    (crlf : Bool) : List Char :=
  (innerTerminator first crlf).text.intercalate (fold (descriptionLine narrative) width) ++
    last.text

/-! ## Lines that open a DESCRIPTION -/

theorem descriptionName_eq :
    descriptionName = ['D', 'E', 'S', 'C', 'R', 'I', 'P', 'T', 'I', 'O', 'N'] := rfl

theorem opensProperty_iff {name line : List Char} :
    opensProperty name line = true ↔ (name ++ [':']) <+: line ∨ (name ++ [';']) <+: line := by
  have hcut (c : Char) : (name ++ [c]) <+: line ↔ ∃ rest, line = name ++ c :: rest := by
    simp [List.IsPrefix, eq_comm]
  rw [hcut, hcut]
  unfold opensProperty
  cases hsuffix : name.isPrefixOf? line with
  | none =>
    have hnot : ¬ name <+: line := by
      rw [← List.isPrefixOf_iff_prefix, ← List.isSome_isPrefixOf?_eq_isPrefixOf, hsuffix]
      simp
    have hno (c : Char) : ¬ ∃ rest, line = name ++ c :: rest :=
      fun ⟨rest, h⟩ ↦ hnot ⟨c :: rest, h.symm⟩
    simp [hno]
  | some suffix =>
    have hline : name ++ suffix = line := List.append_eq_of_isPrefixOf?_eq_some hsuffix
    subst hline
    cases suffix with
    | nil => simp
    | cons c rest => simp [or_comm]

theorem opensDescription_iff {line : List Char} :
    OpensDescription line ↔ opensProperty descriptionName line = true :=
  opensProperty_iff.symm

theorem not_opensDescription_nil : ¬ OpensDescription [] := by
  simp [OpensDescription]

/-- Whether a text opens a DESCRIPTION shows in its first physical line. -/
theorem opensDescription_line {line rest : List Char} :
    OpensDescription (line ++ '\n' :: rest) ↔ OpensDescription (line ++ ['\n']) := by
  have hline : (line ++ ['\n']) <+: (line ++ '\n' :: rest) := ⟨rest, by simp⟩
  have hkeep (mark : Char) (hmark : mark ≠ '\n') :
      (descriptionName ++ [mark]) <+: (line ++ '\n' :: rest) ↔
        (descriptionName ++ [mark]) <+: (line ++ ['\n']) := by
    have hlf : '\n' ∉ descriptionName ++ [mark] := by
      simp [descriptionName_eq, Ne.symm hmark]
    constructor
    · intro h
      rcases List.prefix_or_prefix_of_prefix h hline with h | h
      · exact h
      · exact absurd (h.subset (by simp)) hlf
    · exact fun h ↦ h.trans hline
  exact or_congr (hkeep ':' (by decide)) (hkeep ';' (by decide))

theorem opensDescription_first {text first : List Char} {more : List (List Char)}
    (h : physicalLines text = first :: more) : OpensDescription text ↔ OpensDescription first := by
  induction text using line_induction with
  | last line hline =>
    by_cases hne : line = []
    · simp [hne, physicalLines] at h
    · rw [physicalLines_unterminated hline hne, List.cons.injEq] at h
      rw [h.1]
  | line line rest hline =>
    rw [physicalLines_line hline, List.cons.injEq] at h
    rw [← h.1]
    exact opensDescription_line

theorem OpensDescription.append {a : List Char} (h : OpensDescription a) (b : List Char) :
    OpensDescription (a ++ b) :=
  h.imp (·.trans (List.prefix_append a b)) (·.trans (List.prefix_append a b))

theorem hasDescriptionLine_line {line rest : List Char} (hline : '\n' ∉ line) :
    HasDescriptionLine (line ++ '\n' :: rest) ↔
      OpensDescription (line ++ ['\n']) ∨ HasDescriptionLine rest := by
  constructor
  · rintro ⟨before, tail, htext, hbefore, hopens⟩
    by_cases hnil : before = []
    · subst hnil
      rw [List.nil_append] at htext
      exact .inl (opensDescription_line.1 (htext ▸ hopens))
    · obtain ⟨first, more, rfl, hfirst⟩ :=
        List.eq_append_cons_of_mem (hbefore.mem_of_ne_nil hnil)
      rw [List.append_assoc, List.cons_append] at htext
      obtain ⟨rfl, rfl⟩ := append_lf_inj hline hfirst htext
      have hmore : EndsLine more :=
        EndsLine.of_append_right (a := line ++ ['\n']) (by simpa using hbefore)
      exact .inr ⟨more, tail, rfl, hmore, hopens⟩
  · rintro (hopens | ⟨before, tail, rfl, hbefore, hopens⟩)
    · exact ⟨[], _, rfl, endsLine_nil, opensDescription_line.2 hopens⟩
    · exact ⟨line ++ '\n' :: before, tail, by simp,
        by simpa using (endsLine_append_lf line).append hbefore, hopens⟩

theorem hasDescriptionLine_unterminated {line : List Char} (hline : '\n' ∉ line) :
    HasDescriptionLine line ↔ OpensDescription line := by
  constructor
  · rintro ⟨before, rest, rfl, hbefore, hopens⟩
    have hnil := hbefore.eq_nil_of_notMem fun hm ↦ hline (List.mem_append_left _ hm)
    simpa [hnil] using hopens
  · exact fun hopens ↦ ⟨[], line, rfl, endsLine_nil, hopens⟩

/-- A DESCRIPTION opens somewhere in the text exactly when one of its lines opens it. -/
theorem hasDescriptionLine_iff {text : List Char} :
    HasDescriptionLine text ↔
      ∃ line ∈ physicalLines text, opensProperty descriptionName line = true := by
  induction text using line_induction with
  | last line hline =>
    rw [hasDescriptionLine_unterminated hline]
    by_cases hne : line = []
    · subst hne
      simp [not_opensDescription_nil, physicalLines]
    · simp [physicalLines_unterminated hline hne, opensDescription_iff]
  | line line rest hline ih =>
    rw [hasDescriptionLine_line hline, physicalLines_line hline, ih, opensDescription_iff]
    simp

theorem Folded.of_append_right {a b : List Char} (h : Folded (a ++ b)) : Folded b := by
  intro before rest hb
  exact h (a ++ before) rest (by rw [hb, List.append_assoc])

/-- All lines of a folded text are continuations where the text begins with a fold mark. -/
theorem forall_isContinuation {text : List Char} (h : Folded text)
    (hhead : text = [] ∨ ∃ c more, text = c :: more ∧ isFoldMark c = true) :
    ∀ line ∈ physicalLines text, isContinuation line = true := by
  have hfirst {first : List Char} {more : List (List Char)}
      (hlines : physicalLines text = first :: more) : isContinuation first = true := by
    rcases hhead with rfl | ⟨c, rest, rfl, hc⟩
    · simp [physicalLines] at hlines
    · rw [isContinuation_of_physicalLines hlines, hc]
  induction text using line_induction with
  | last line hline =>
    by_cases hne : line = []
    · simp [hne, physicalLines]
    · have hlines := physicalLines_unterminated hline hne
      simpa [hlines] using hfirst hlines
  | line line rest hline ih =>
    have hlines := physicalLines_line hline rest
    have hrest : Folded rest :=
      Folded.of_append_right (a := line ++ ['\n']) (by simpa using h)
    have hmark := h line rest rfl
    rw [hlines]
    intro l hl
    rcases List.mem_cons.1 hl with rfl | hl
    · exact hfirst hlines
    · refine ih hrest hmark (fun hmore ↦ ?_) l hl
      rcases hmark with rfl | ⟨c, more, rfl, hc⟩
      · simp [physicalLines] at hmore
      · rw [isContinuation_of_physicalLines hmore, hc]

theorem Folded.tail_isContinuation {text : List Char} (h : Folded text) :
    ∀ line ∈ (physicalLines text).tail, isContinuation line = true := by
  induction text using line_induction with
  | last line hline =>
    by_cases hne : line = []
    · simp [hne, physicalLines]
    · simp [physicalLines_unterminated hline hne]
  | line line rest hline =>
    rw [physicalLines_line hline]
    have hrest : Folded rest :=
      Folded.of_append_right (a := line ++ ['\n']) (by simpa using h)
    exact forall_isContinuation hrest (h line rest rfl)

/-- A text whose lines but the first are continuations is folded. -/
theorem folded_of_tail_isContinuation {text : List Char}
    (h : ∀ line ∈ (physicalLines text).tail, isContinuation line = true) : Folded text := by
  intro before rest htext
  have hends : EndsLine (before ++ ['\n']) := endsLine_append_lf before
  have hlines : physicalLines text = physicalLines (before ++ ['\n']) ++ physicalLines rest := by
    rw [← physicalLines_append hends, htext]
    simp
  have hfirst : physicalLines (before ++ ['\n']) ≠ [] := by
    rw [Ne, physicalLines_eq_nil_iff]
    simp
  cases hrest : physicalLines rest with
  | nil => exact .inl (physicalLines_eq_nil_iff.1 hrest)
  | cons line lines =>
    have hcont : isContinuation line = true := by
      refine h line ?_
      rw [hlines, List.tail_append_of_ne_nil hfirst, hrest]
      simp
    have hflat := flatten_physicalLines rest
    rw [hrest] at hflat
    cases line with
    | nil => simp [isContinuation] at hcont
    | cons c more => exact .inr ⟨c, more ++ lines.flatten, by rw [← hflat]; rfl, hcont⟩

/-! ## The frame of a text -/

namespace DescriptionFrame

variable {text before span after : List Char}

theorem physicalLines_before (h : DescriptionFrame text before span after) :
    ∀ line ∈ physicalLines before, opensProperty descriptionName line = false := by
  intro line hline
  by_contra hopens
  exact h.before_free (hasDescriptionLine_iff.2 ⟨line, hline, by simpa using hopens⟩)

theorem span_ne_nil (h : DescriptionFrame text before span after) : span ≠ [] := by
  rintro rfl
  exact not_opensDescription_nil h.span_opens

/-- The first line of the span opens the DESCRIPTION, and the others continue it. -/
theorem physicalLines_span (h : DescriptionFrame text before span after) :
    ∃ first more, physicalLines span = first :: more ∧
      opensProperty descriptionName first = true ∧ ∀ line ∈ more, isContinuation line = true := by
  cases hlines : physicalLines span with
  | nil => exact absurd (physicalLines_eq_nil_iff.1 hlines) h.span_ne_nil
  | cons first more =>
    have hmore := h.span_folded.tail_isContinuation
    rw [hlines, List.tail_cons] at hmore
    refine ⟨first, more, rfl, ?_, hmore⟩
    exact opensDescription_iff.1 ((opensDescription_first hlines).1 h.span_opens)

theorem physicalLines_after (h : DescriptionFrame text before span after) {line : List Char}
    {more : List (List Char)} (hlines : physicalLines after = line :: more) :
    isContinuation line = false := by
  rcases h.after_apart with rfl | ⟨-, c, rest, rfl, hc⟩
  · simp [physicalLines] at hlines
  · rw [isContinuation_of_physicalLines hlines, hc]

/-- The lines of a framed text are the lines of its three parts. -/
theorem physicalLines_text (h : DescriptionFrame text before span after) :
    physicalLines text = physicalLines before ++ (physicalLines span ++ physicalLines after) := by
  rw [h.text_eq, List.append_assoc, physicalLines_append h.before_ends]
  rcases h.after_apart with rfl | ⟨hspan, -⟩
  · simp [physicalLines]
  · rw [physicalLines_append (.inr hspan)]

/-- The cut into lines that the splice works with is the frame of the text. -/
theorem ofText?_eq (h : DescriptionFrame text before span after) {first : List Char}
    {more : List (List Char)} (hspan : physicalLines span = first :: more) :
    DescriptionSpan.ofText? text = some
      { before := physicalLines before
        first := first
        continuations := more
        after := physicalLines after } := by
  obtain ⟨first', more', hspan', hopens, hmore⟩ := h.physicalLines_span
  obtain ⟨rfl, rfl⟩ := List.cons.inj (hspan'.symm.trans hspan)
  have hbefore : ∀ line ∈ physicalLines before,
      (!opensProperty descriptionName line) = true := by
    simpa using h.physicalLines_before
  have hafter : (physicalLines after).takeWhile isContinuation = [] ∧
      (physicalLines after).dropWhile isContinuation = physicalLines after := by
    cases hlines : physicalLines after with
    | nil => simp
    | cons line lines => simp [h.physicalLines_after hlines]
  simp only [DescriptionSpan.ofText?, DescriptionSpan.ofLines?]
  rw [h.physicalLines_text, hspan, List.dropWhile_append_of_pos hbefore,
    List.takeWhile_append_of_pos hbefore]
  simp only [List.cons_append, hopens, Bool.not_true, Bool.false_eq_true, not_false_eq_true,
    List.dropWhile_cons_of_neg, List.takeWhile_cons_of_neg, List.append_nil,
    List.takeWhile_append_of_pos hmore, List.dropWhile_append_of_pos hmore, hafter.1, hafter.2]

/-- A text has at most one frame. -/
theorem unique (h : DescriptionFrame text before span after) {before' span' after' : List Char}
    (h' : DescriptionFrame text before' span' after') :
    before' = before ∧ span' = span ∧ after' = after := by
  obtain ⟨first, more, hspan, -⟩ := h.physicalLines_span
  obtain ⟨first', more', hspan', -⟩ := h'.physicalLines_span
  have hcut := Option.some.inj ((h'.ofText?_eq hspan').symm.trans (h.ofText?_eq hspan))
  simp only [DescriptionSpan.mk.injEq] at hcut
  obtain ⟨hbefore, rfl, rfl, hafter⟩ := hcut
  have hflat {a b : List Char} (hab : physicalLines a = physicalLines b) : a = b := by
    rw [← flatten_physicalLines a, hab, flatten_physicalLines]
  exact ⟨hflat hbefore, hflat (hspan'.trans hspan.symm), hflat hafter⟩

/-- A text with a DESCRIPTION line has a frame. -/
theorem exists_of_hasDescriptionLine (h : HasDescriptionLine text) :
    ∃ before span after, DescriptionFrame text before span after := by
  let closed := fun line ↦ !opensProperty descriptionName line
  obtain ⟨opening, hopening, hopens⟩ := hasDescriptionLine_iff.1 h
  obtain ⟨first, rest, hrest⟩ : ∃ first rest,
      (physicalLines text).dropWhile closed = first :: rest := by
    refine List.exists_cons_of_ne_nil fun hnil ↦ ?_
    have hclosed := List.dropWhile_eq_nil_iff.1 hnil opening hopening
    simp [closed, hopens] at hclosed
  have hfirst : opensProperty descriptionName first = true := by
    have hnot := List.head?_dropWhile_not closed (physicalLines text)
    rw [hrest] at hnot
    simpa [closed] using hnot
  let lead := (physicalLines text).takeWhile closed
  let span := first :: rest.takeWhile isContinuation
  let remainder := rest.dropWhile isContinuation
  have hlines : physicalLines text = lead ++ (span ++ remainder) := by
    rw [← List.takeWhile_append_dropWhile (p := closed) (l := physicalLines text), hrest]
    simp only [lead, span, remainder, List.cons_append, List.takeWhile_append_dropWhile]
  obtain ⟨hlead, htail, hends⟩ := physicalLines_eq_append hlines
  obtain ⟨hspan, hremainder, hspanEnds⟩ := physicalLines_eq_append htail
  refine ⟨lead.flatten, span.flatten, remainder.flatten, ?_, ?_, ?_, ?_, ?_, ?_⟩
  · rw [← flatten_physicalLines text, hlines]
    simp
  · exact hends.resolve_left (by simp [span])
  · rw [hasDescriptionLine_iff, hlead]
    rintro ⟨line, hline, hopen⟩
    have hclosed := List.mem_takeWhile_imp hline
    simp [closed, hopen] at hclosed
  · exact (opensDescription_first hspan).2 (opensDescription_iff.2 hfirst)
  · refine folded_of_tail_isContinuation ?_
    rw [hspan]
    exact fun line hline ↦ List.mem_takeWhile_imp hline
  · cases hcut : remainder with
    | nil => exact .inl rfl
    | cons line lines =>
      rw [hcut] at hremainder hspanEnds
      have hopenSpan : span.flatten ≠ [] := by
        rw [Ne, ← physicalLines_eq_nil_iff, hspan]
        simp [span]
      have hline : isContinuation line = false := by
        have hnot := List.head?_dropWhile_not isContinuation rest
        rw [show rest.dropWhile isContinuation = line :: lines from hcut] at hnot
        simpa using hnot
      refine .inr ⟨(hspanEnds.resolve_left (by simp)).resolve_left hopenSpan, ?_⟩
      cases hflat : (line :: lines).flatten with
      | nil => simp [hflat, physicalLines] at hremainder
      | cons c more =>
        rw [hflat] at hremainder
        exact ⟨c, more, rfl, (isContinuation_of_physicalLines hremainder).symm.trans hline⟩

/-- A splice replaces the span of the frame and keeps what stands around it. -/
theorem spliceDescription_eq (h : DescriptionFrame text before span after)
    (narrative : List Char) (width : Nat) :
    spliceDescription text narrative width =
      some (before ++ replacementText narrative width (openingTerminator span)
        (closingTerminator span) (hasCrlf text) ++ after) := by
  obtain ⟨first, more, hspan, -⟩ := h.physicalLines_span
  have hseparator (cut : DescriptionSpan) (hfirst : cut.first = first) :
      cut.separator text = innerTerminator (openingTerminator span) (hasCrlf text) := by
    rw [DescriptionSpan.separator, hfirst, openingTerminator, hspan, List.headD_cons]
    rfl
  have hlast : more.getLastD first = (physicalLines span).getLastD [] := by
    rw [hspan]
    cases more <;> rfl
  rw [spliceDescription, h.ofText?_eq hspan, Option.map_some, hseparator _ rfl,
    DescriptionSpan.last, hlast, flatten_physicalLines, flatten_physicalLines]
  simp only [replacementText, closingTerminator, List.append_assoc]

end DescriptionFrame

theorem innerTerminator_ne_absent (first : Terminator) (crlf : Bool) :
    innerTerminator first crlf ≠ .absent := by
  cases first <;> cases crlf <;> decide

theorem innerTerminator_of_ne_absent {first : Terminator} (h : first ≠ .absent) (crlf : Bool) :
    innerTerminator first crlf = first := by
  cases first with
  | absent => exact absurd rfl h
  | crlf => rfl
  | lf => rfl

theorem break_notMem_descriptionLine (narrative : List Char) :
    '\n' ∉ descriptionLine narrative ∧ '\r' ∉ descriptionLine narrative := by
  have hescape := break_notMem_escape narrative
  simp [descriptionLine, descriptionName_eq, hescape]

/-- The lines that a splice writes are a first chunk with as much of the property as the width admits,
and chunks behind folds. -/
theorem exists_replacementText_eq (narrative : List Char) (width : Nat) (first last : Terminator)
    (crlf : Bool) : ∃ more : List (List Char),
    replacementText narrative width first last crlf =
        (descriptionLine narrative).take (effectiveWidth width) ++ ((more.flatMap
          fun chunk ↦ (innerTerminator first crlf).text ++ ' ' :: chunk) ++ last.text) ∧
      more.flatten = (descriptionLine narrative).drop (effectiveWidth width) := by
  obtain ⟨hlf, hcr⟩ := break_notMem_descriptionLine narrative
  obtain ⟨more, hmore, hjoin⟩ := intercalate_fold hlf hcr width
  exact ⟨more, by rw [replacementText, hjoin, List.append_assoc], hmore⟩

/-- As much of `DESCRIPTION:` as the width admits stands at the start of what a splice writes. -/
theorem take_prefix_replacementText (narrative : List Char) (width : Nat)
    (first last : Terminator) (crlf : Bool) :
    (descriptionName ++ [':']).take (effectiveWidth width) <+:
      replacementText narrative width first last crlf := by
  obtain ⟨more, htext, -⟩ := exists_replacementText_eq narrative width first last crlf
  have hline : (descriptionName ++ [':']) <+: descriptionLine narrative :=
    ⟨escape narrative, by simp [descriptionLine]⟩
  rw [htext]
  exact (hline.take _).trans (List.prefix_append _ _)

/-- Whether a text is spliced depends neither on the narrative nor on the width. -/
theorem spliceDescription_none_iff {text : List Char} (narrative : List Char) (width : Nat) :
    spliceDescription text narrative width = none ↔ ¬ HasDescriptionLine text := by
  constructor
  · intro hnone hline
    obtain ⟨before, span, after, hframe⟩ := DescriptionFrame.exists_of_hasDescriptionLine hline
    have hsome := hframe.spliceDescription_eq narrative width
    rw [hnone] at hsome
    exact absurd hsome (by simp)
  · intro hno
    have hclosed : (physicalLines text).dropWhile
        (fun line ↦ !opensProperty descriptionName line) = [] := by
      rw [List.dropWhile_eq_nil_iff]
      intro line hline
      by_contra hopens
      exact hno (hasDescriptionLine_iff.2 ⟨line, hline, by simpa using hopens⟩)
    simp [spliceDescription, DescriptionSpan.ofText?, DescriptionSpan.ofLines?, hclosed]

theorem spliceDescription_eq_none_iff {text : List Char} :
    (∀ narrative width, spliceDescription text narrative width = none) ↔
      ¬ HasDescriptionLine text := by
  simp only [spliceDescription_none_iff, forall_const]

/-- The frame of a splice, byte for byte: a text without a DESCRIPTION line is never rewritten; any
other text has one frame, and every splice keeps what stands before and behind the span of this
frame.  What it puts between them begins as `DESCRIPTION:` does and depends on the text only
through the terminators of the first and the last line of the span and, where the first line has
none, through the presence of CRLF. -/
theorem spliceDescription_keeps_frame (text : List Char) :
    ((∀ narrative width, spliceDescription text narrative width = none) ↔
      ¬ HasDescriptionLine text) ∧
    (HasDescriptionLine text → ∃ before span after, DescriptionFrame text before span after ∧
      (∀ before' span' after', DescriptionFrame text before' span' after' →
        before' = before ∧ span' = span ∧ after' = after) ∧
      ∀ narrative width, spliceDescription text narrative width =
        some (before ++ replacementText narrative width (openingTerminator span)
          (closingTerminator span) (hasCrlf text) ++ after)) ∧
    ∀ narrative width first last crlf,
      (descriptionName ++ [':']).take (effectiveWidth width) <+:
        replacementText narrative width first last crlf ∧
      (first ≠ .absent → ∀ crlf', replacementText narrative width first last crlf' =
        replacementText narrative width first last crlf) := by
  refine ⟨spliceDescription_eq_none_iff, fun hline ↦ ?_, fun narrative width first last crlf ↦ ?_⟩
  · obtain ⟨before, span, after, hframe⟩ := DescriptionFrame.exists_of_hasDescriptionLine hline
    exact ⟨before, span, after, hframe, fun _ _ _ hframe' ↦ hframe.unique hframe',
      hframe.spliceDescription_eq⟩
  · refine ⟨take_prefix_replacementText narrative width first last crlf, fun hfirst crlf' ↦ ?_⟩
    cases first with
    | absent => exact absurd rfl hfirst
    | crlf => rfl
    | lf => rfl

end CalendarCommand.ContentLine
