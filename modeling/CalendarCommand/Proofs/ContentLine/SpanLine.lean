import CalendarCommand.Proofs.ContentLine.SpliceUnfolding
import CalendarCommand.Proofs.ContentLine.TerminatedLines

/-!
# The line that a span is

Where every carriage return of a text stands directly in front of a line feed, unfolding keeps the
terminator of a text, and the span of a frame unfolds to a line without line breaks and the
terminator of the span.
-/

namespace CalendarCommand.ContentLine

/-- Carriage returns stand directly in front of line feeds only. -/
def CrBeforeLf (text : List Char) : Prop :=
  ∀ before rest, text = before ++ '\r' :: rest → rest.head? = some '\n'

theorem crBeforeLf_iff {text : List Char} : CrBeforeLf text ↔
    ∀ rest ∈ text.tails, rest.head? = some '\r' → rest.tail.head? = some '\n' := by
  constructor
  · intro h rest hrest hhead
    obtain ⟨before, htext⟩ := (List.mem_tails rest text).1 hrest
    obtain ⟨more, rfl⟩ := List.head?_eq_some_iff.1 hhead
    exact h before more htext.symm
  · intro h before rest htext
    exact h ('\r' :: rest) ((List.mem_tails _ text).2 ⟨before, htext.symm⟩) rfl

instance decidableCrBeforeLf (text : List Char) : Decidable (CrBeforeLf text) :=
  decidable_of_iff _ crBeforeLf_iff.symm

theorem CrBeforeLf.of_append_right {a b : List Char} (h : CrBeforeLf (a ++ b)) : CrBeforeLf b := by
  intro before rest hb
  exact h (a ++ before) rest (by rw [hb, List.append_assoc])

theorem CrBeforeLf.tail {c : Char} {rest : List Char} (h : CrBeforeLf (c :: rest)) :
    CrBeforeLf rest :=
  CrBeforeLf.of_append_right (a := [c]) h

/-- A line end is not cut apart where a text ends with a line feed. -/
theorem CrBeforeLf.of_append_left {a b : List Char} (h : CrBeforeLf (a ++ b))
    (ha : b = [] ∨ a.getLast? = some '\n') : CrBeforeLf a := by
  intro before rest hrest
  have hhead := h before (rest ++ b) (by rw [hrest]; simp)
  cases rest with
  | nil =>
    rcases ha with rfl | ha
    · exact hhead
    · rw [hrest] at ha
      simp at ha
  | cons c rest => exact hhead

theorem CrBeforeLf.unfold {text : List Char} (h : CrBeforeLf text) :
    CrBeforeLf (ContentLine.unfold text) := by
  induction text using unfold_induction with
  | nil => exact h
  | crlf mark rest hmark ih =>
    rw [unfold_crlf_mark hmark]
    exact ih h.tail.tail.tail
  | lf mark rest hmark ih =>
    rw [unfold_lf_mark hmark]
    exact ih h.tail.tail
  | cons c rest hfold ih =>
    rw [unfold_cons hfold]
    intro before more hcut
    cases before with
    | nil =>
      obtain ⟨rfl, rfl⟩ := List.cons.inj hcut
      obtain ⟨tail, rfl⟩ := List.head?_eq_some_iff.1 (h [] rest rfl)
      have hlf : ¬ StartsFold ('\n' :: tail) := by
        rintro ⟨mark, behind, hmark, hstart | hstart⟩
        · exact absurd hstart (by simp)
        · exact hfold ⟨mark, behind, hmark, .inl (by rw [hstart])⟩
      rw [unfold_cons hlf]
      rfl
    | cons d before => exact ih h.tail before more (List.cons.inj hcut).2

theorem terminator_append_of_cr {front rest : List Char} (hfront : front.getLast? ≠ some '\r')
    (hrest : rest ≠ []) : terminator (front ++ rest) = terminator rest := by
  by_cases hlf : rest = ['\n']
  · rw [hlf, terminator_lf hfront]
    rfl
  · exact terminator_append_of_ne hrest hlf front

theorem unfold_ne_nil {text : List Char} (h : text.getLast? = some '\n') : unfold text ≠ [] := by
  intro hnil
  have hlast := getLast?_unfold h
  rw [hnil] at hlast
  exact absurd hlast (by simp)

/-- Behind a carriage return unfolding keeps whether there is anything more than a line feed. -/
theorem unfold_eq_lf_iff {rest : List Char} (hfold : ¬ StartsFold ('\r' :: '\n' :: rest))
    (hend : rest = [] ∨ rest.getLast? = some '\n') :
    unfold ('\n' :: rest) = ['\n'] ↔ rest = [] := by
  have hlf : ¬ StartsFold ('\n' :: rest) := by
    rintro ⟨mark, behind, hmark, hstart | hstart⟩
    · exact absurd hstart (by simp)
    · exact hfold ⟨mark, behind, hmark, .inl (by rw [hstart])⟩
  rw [unfold_cons hlf]
  constructor
  · intro h
    rcases hend with hnil | hend
    · exact hnil
    · exact absurd (List.cons.inj h).2 (unfold_ne_nil hend)
  · rintro rfl
    rfl

/-- A text with a line end at its end goes on behind a fold mark. -/
theorem getLast?_behind_mark {front rest : List Char} {mark : Char} (hmark : isFoldMark mark = true)
    (hend : (front ++ mark :: rest).getLast? = some '\n') :
    rest.getLast? = some '\n' ∧ terminator (front ++ mark :: rest) = terminator rest := by
  have hne : mark ≠ '\n' ∧ mark ≠ '\r' := by
    rcases isFoldMark_iff.1 hmark with rfl | rfl <;> decide
  have hrest : rest.getLast? = some '\n' := by
    cases rest with
    | nil => exact absurd (by simpa using hend) hne.1
    | cons c rest => simpa [List.getLast?_append] using hend
  have hwhole : front ++ mark :: rest = front ++ [mark] ++ rest := by simp
  refine ⟨hrest, ?_⟩
  rw [hwhole]
  apply terminator_append_of_cr
  · simpa using hne.2
  · rintro rfl
    exact absurd hrest (by simp)

/-- Unfolding keeps the terminator at the end of a text. -/
theorem terminator_unfold {text : List Char} (h : CrBeforeLf text)
    (hend : text.getLast? = some '\n') : terminator (unfold text) = terminator text := by
  induction text using unfold_induction with
  | nil => rfl
  | crlf mark rest hmark ih =>
    have hend : (['\r', '\n'] ++ mark :: rest).getLast? = some '\n' := hend
    obtain ⟨hrest, hterminator⟩ := getLast?_behind_mark hmark hend
    rw [unfold_crlf_mark hmark, ih h.tail.tail.tail hrest]
    exact hterminator.symm
  | lf mark rest hmark ih =>
    have hend : (['\n'] ++ mark :: rest).getLast? = some '\n' := hend
    obtain ⟨hrest, hterminator⟩ := getLast?_behind_mark hmark hend
    rw [unfold_lf_mark hmark, ih h.tail.tail hrest]
    exact hterminator.symm
  | cons c rest hfold ih =>
    rw [unfold_cons hfold]
    by_cases hnil : rest = []
    · rw [hnil]
      rfl
    · have hrest : rest.getLast? = some '\n' := by
        obtain ⟨d, more, rfl⟩ := List.exists_cons_of_ne_nil hnil
        simpa [List.getLast?_cons_cons] using hend
      have hunfold := unfold_ne_nil hrest
      by_cases hcr : c = '\r'
      · subst hcr
        obtain ⟨tail, rfl⟩ := List.head?_eq_some_iff.1 (h [] rest rfl)
        have htail : tail = [] ∨ tail.getLast? = some '\n' := by
          cases tail with
          | nil => exact .inl rfl
          | cons d more => exact .inr (by simpa [List.getLast?_cons_cons] using hrest)
        have hlf := unfold_eq_lf_iff hfold htail
        by_cases htailNil : tail = []
        · rw [hlf.2 htailNil, htailNil]
        · have hleft := terminator_append_of_ne hunfold (fun heq ↦ htailNil (hlf.1 heq)) ['\r']
          have hright := terminator_append_of_ne hnil
            (fun heq ↦ htailNil (List.cons.inj heq).2) ['\r']
          exact hleft.trans ((ih h.tail hrest).trans hright.symm)
      · have hfront : [c].getLast? ≠ some '\r' := by simpa using hcr
        have hleft := terminator_append_of_cr hfront hunfold
        have hright := terminator_append_of_cr hfront hnil
        exact hleft.trans ((ih h.tail hrest).trans hright.symm)

theorem lf_notMem_unfold {text : List Char} (h : Folded text) (hend : text.getLast? ≠ some '\n') :
    '\n' ∉ unfold text := by
  have hrest (front rest : List Char) (hend : (front ++ rest).getLast? ≠ some '\n') :
      rest.getLast? ≠ some '\n' := by
    intro hlast
    rw [List.getLast?_append, hlast] at hend
    exact hend rfl
  induction text using unfold_induction with
  | nil => simp [unfold]
  | crlf mark rest hmark ih =>
    rw [unfold_crlf_mark hmark]
    exact ih (Folded.of_append_right (a := ['\r', '\n', mark]) h)
      (hrest ['\r', '\n', mark] rest hend)
  | lf mark rest hmark ih =>
    rw [unfold_lf_mark hmark]
    exact ih (Folded.of_append_right (a := ['\n', mark]) h) (hrest ['\n', mark] rest hend)
  | cons c rest hfold ih =>
    have htail := ih (Folded.of_append_right (a := [c]) h) (hrest [c] rest hend)
    rw [unfold_cons hfold, List.mem_cons, not_or]
    refine ⟨?_, htail⟩
    rintro rfl
    rcases h [] rest rfl with rfl | ⟨mark, more, rfl, hmark⟩
    · exact hend rfl
    · exact hfold ⟨mark, more, hmark, .inr rfl⟩

/-- Characters that are no line breaks stand in front of the terminator. -/
theorem BreakFree.prefix_of_append {start line : List Char} {terminator : Terminator}
    (hstart : BreakFree start) (h : start <+: line ++ terminator.text) : start <+: line := by
  obtain ⟨more, hmore⟩ := h
  rcases List.append_eq_append_iff.1 hmore with ⟨back, rfl, -⟩ | ⟨back, rfl, hback⟩
  · exact List.prefix_append start back
  · cases back with
    | nil => rw [List.append_nil]
    | cons c back =>
      exfalso
      have hc : c ∈ line ++ c :: back := by simp
      cases terminator with
      | absent => exact absurd hback (by simp [Terminator.text])
      | crlf => exact hstart.1 ((List.cons.inj hback).1 ▸ hc)
      | lf => exact hstart.2 ((List.cons.inj hback).1 ▸ hc)

namespace DescriptionFrame

variable {text before span after : List Char}

theorem crBeforeLf_span (h : DescriptionFrame text before span after) (hcr : CrBeforeLf text) :
    CrBeforeLf span := by
  have htext : CrBeforeLf (before ++ (span ++ after)) := by
    rw [← List.append_assoc, ← h.text_eq]
    exact hcr
  exact htext.of_append_right.of_append_left (h.after_apart.imp_right And.left)

theorem opensDescription_unfold (h : DescriptionFrame text before span after) :
    OpensDescription (unfold span) := by
  have hunfold (mark : Char) (hmark : mark ≠ '\r' ∧ mark ≠ '\n') (rest : List Char) :
      unfold (descriptionName ++ [mark] ++ rest) = descriptionName ++ [mark] ++ unfold rest := by
    apply unfold_append_of_notMem
    · simp [descriptionName_eq, Ne.symm hmark.1]
    · simp [descriptionName_eq, Ne.symm hmark.2]
  rcases h.span_opens with ⟨rest, rfl⟩ | ⟨rest, rfl⟩
  · rw [hunfold ':' (by decide)]
    exact .inl (List.prefix_append _ _)
  · rw [hunfold ';' (by decide)]
    exact .inr (List.prefix_append _ _)

theorem terminator_unfold_span (h : DescriptionFrame text before span after)
    (hcr : CrBeforeLf text) : terminator (unfold span) = closingTerminator span := by
  rw [closingTerminator_eq h.span_ne_nil]
  by_cases hend : span.getLast? = some '\n'
  · exact terminator_unfold (h.crBeforeLf_span hcr) hend
  · have hlf := lf_notMem_unfold h.span_folded hend
    rw [terminator_eq_absent hend, terminator_eq_absent fun hlast ↦ hlf (List.mem_of_getLast? hlast)]

/-- The span unfolds to a line without line breaks and its terminator. -/
theorem exists_line (h : DescriptionFrame text before span after) (hcr : CrBeforeLf text) :
    ∃ line, unfold span = line ++ (closingTerminator span).text ∧ BreakFree line ∧
      OpensDescription line := by
  obtain ⟨line, hline, habsent, hbare⟩ := exists_body (unfold span)
  have hopens := h.opensDescription_unfold
  have hunfold := (h.crBeforeLf_span hcr).unfold
  rw [h.terminator_unfold_span hcr] at hline habsent hbare
  have hlf : '\n' ∉ line := by
    intro hlf
    obtain ⟨front, back, hcut, -⟩ := List.eq_append_cons_of_mem hlf
    have hwhole : unfold span = front ++ '\n' :: (back ++ (closingTerminator span).text) := by
      rw [hline, hcut, List.append_assoc, List.cons_append]
    obtain ⟨rfl, hterminator⟩ := List.append_eq_nil_iff.1 (h.span_folded.unfold_eq hwhole)
    cases hclosing : closingTerminator span with
    | absent =>
      apply habsent hclosing
      rw [hline, hcut, hterminator, List.append_nil, List.getLast?_concat]
    | crlf => rw [hclosing] at hterminator; exact absurd hterminator (by simp [Terminator.text])
    | lf => rw [hclosing] at hterminator; exact absurd hterminator (by simp [Terminator.text])
  have hcrLine : '\r' ∉ line := by
    intro hcrLine
    obtain ⟨front, back, hcut⟩ := List.append_of_mem hcrLine
    have hhead := hunfold front (back ++ (closingTerminator span).text)
      (by rw [hline, hcut, List.append_assoc, List.cons_append])
    cases back with
    | nil =>
      cases hclosing : closingTerminator span with
      | absent => rw [hclosing] at hhead; exact absurd hhead (by simp [Terminator.text])
      | crlf => rw [hclosing] at hhead; exact absurd hhead (by simp [Terminator.text])
      | lf => exact hbare hclosing (by rw [hcut, List.getLast?_concat])
    | cons c back =>
      apply hlf
      rw [hcut, Option.some.inj hhead]
      simp
  refine ⟨line, hline, ⟨hcrLine, hlf⟩, ?_⟩
  rw [hline] at hopens
  exact hopens.imp (BreakFree.prefix_of_append (by decide)) (BreakFree.prefix_of_append (by decide))

end DescriptionFrame

end CalendarCommand.ContentLine
