import CalendarCommand.Event.Reader
import CalendarCommand.Proofs.ContentLine.Unfolding
import Mathlib.Data.List.Induction
import Mathlib.Data.List.Infix

/-!
# Unfolding form by form

Removing the four forms of a fold one after the other, each from the pieces that the earlier forms
have left, gives the same text as the single pass.  A character that begins no fold stays in front
of the first piece whatever is cut off behind it.  A text that begins with a fold keeps it whole
until its own form is removed, since no earlier form matches inside it.

A form begins with a character that does not occur in it again, so its occurrences in a text cannot
overlap, and there is one way only to cut a text around all of them.  The reader of events works on
what the four cuts leave, and therefore on the text that the single pass leaves.
-/

namespace CalendarCommand.ContentLine

/-! ## Pieces around a pattern -/

/-- The text is cut around the occurrences of a pattern: with the pattern put between them the pieces
are the text, and none of them holds the pattern. -/
structure CutAround (pattern text : List Char) (pieces : List (List Char)) : Prop where
  ne_nil : pieces ≠ []
  joined : pattern.intercalate pieces = text
  free : ∀ piece ∈ pieces, ¬ pattern <:+: piece

theorem splitAround_nil (c : Char) (more : List Char) : splitAround c more [] = [[]] := by
  rw [splitAround]

theorem splitAround_cons {c d : Char} {more rest : List Char} (h : ¬ (c :: more) <+: (d :: rest)) :
    splitAround c more (d :: rest) = consToFirst d (splitAround c more rest) := by
  rw [splitAround, if_neg]
  simpa using h

theorem splitAround_append (c : Char) (more rest : List Char) :
    splitAround c more (c :: more ++ rest) = [] :: splitAround c more rest := by
  rw [List.cons_append, splitAround, if_pos]
  · rw [List.drop_left]
  · simp

theorem CutAround.cons {pattern text piece : List Char} {pieces : List (List Char)}
    (h : CutAround pattern text pieces) (hpiece : ¬ pattern <:+: piece) :
    CutAround pattern (piece ++ (pattern ++ text)) (piece :: pieces) := by
  obtain ⟨first, more, rfl⟩ := List.exists_cons_of_ne_nil h.ne_nil
  refine ⟨List.cons_ne_nil _ _, ?_, List.forall_mem_cons.2 ⟨hpiece, h.free⟩⟩
  rw [List.intercalate_cons_cons, h.joined, List.append_assoc]

/-- A character in front of which the pattern does not begin joins the first piece. -/
theorem CutAround.consToFirst {pattern text : List Char} {pieces : List (List Char)}
    (h : CutAround pattern text pieces) {d : Char} (hd : ¬ pattern <+: d :: text) :
    CutAround pattern (d :: text) (ContentLine.consToFirst d pieces) := by
  obtain ⟨first, more, rfl⟩ := List.exists_cons_of_ne_nil h.ne_nil
  have hjoined : pattern.intercalate ((d :: first) :: more) = d :: text := by
    rw [← h.joined]
    cases more with
    | nil => simp
    | cons second more => rw [List.intercalate_cons_cons, List.intercalate_cons_cons]; rfl
  have hfirst : first <+: text := by
    rw [← h.joined]
    cases more with
    | nil => simp
    | cons second more =>
      rw [List.intercalate_cons_cons, List.append_assoc]
      exact List.prefix_append first _
  obtain ⟨hfree, hmore⟩ := List.forall_mem_cons.1 h.free
  refine ⟨List.cons_ne_nil _ _, hjoined, List.forall_mem_cons.2 ⟨fun hinfix ↦ ?_, hmore⟩⟩
  rcases List.infix_cons_iff.1 hinfix with hbegins | hinfix
  · exact hd (hbegins.trans (List.cons_prefix_cons.2 ⟨rfl, hfirst⟩))
  · exact hfree hinfix

theorem cutAround_splitAround (c : Char) (more text : List Char) :
    CutAround (c :: more) text (splitAround c more text) := by
  fun_induction splitAround c more text with
  | case1 => exact ⟨List.cons_ne_nil _ _, by simp, by simp⟩
  | case2 d rest hbegins ih =>
    obtain ⟨tail, htail⟩ := List.isPrefixOf_iff_prefix.1 hbegins
    rw [List.cons_append, List.cons.injEq] at htail
    obtain ⟨rfl, rfl⟩ := htail
    have hnil : ¬ (c :: more) <:+: [] := by simp
    rw [List.drop_left] at ih ⊢
    exact ih.cons hnil
  | case3 d rest hnot ih => exact ih.consToFirst fun h ↦ hnot (List.isPrefixOf_iff_prefix.2 h)

theorem splitAround_of_not_infix {c : Char} {more text : List Char}
    (h : ¬ (c :: more) <:+: text) : splitAround c more text = [text] := by
  induction text with
  | nil => exact splitAround_nil c more
  | cons d rest ih =>
    rw [splitAround_cons fun hbegins ↦ h hbegins.isInfix,
      ih fun hrest ↦ h (hrest.trans (List.suffix_cons d rest).isInfix)]
    rfl

/-- Where the first character of a pattern occurs in it only once, no occurrence of the pattern begins
in front of another one and runs into it. -/
theorem not_prefix_append_of_not_infix {c : Char} {more part : List Char} (hc : c ∉ more)
    (hpart : ¬ (c :: more) <:+: part) (hne : part ≠ []) (rest : List Char) :
    ¬ (c :: more) <+: part ++ (c :: more ++ rest) := by
  intro h
  rcases List.prefix_or_prefix_of_prefix h (List.prefix_append part _) with hinside | hlonger
  · exact hpart hinside.isInfix
  · obtain ⟨tail, htail⟩ := hlonger
    have hrest : tail <+: c :: more ++ rest :=
      (List.prefix_append_right_inj part).1 (by rw [htail]; exact h)
    cases tail with
    | nil => exact hpart (by rw [← htail, List.append_nil])
    | cons e tail =>
      obtain ⟨d, front, rfl⟩ := List.exists_cons_of_ne_nil hne
      rw [List.cons_append, List.cons_prefix_cons] at hrest
      refine hc ?_
      rw [← (List.cons.inj htail).2, ← hrest.1]
      simp

theorem splitAround_append_of_not_infix {c : Char} {more part : List Char} (hc : c ∉ more)
    (hpart : ¬ (c :: more) <:+: part) (rest : List Char) :
    splitAround c more (part ++ (c :: more ++ rest)) = part :: splitAround c more rest := by
  induction part with
  | nil => exact splitAround_append c more rest
  | cons d part ih =>
    have hnot := not_prefix_append_of_not_infix hc hpart (List.cons_ne_nil d part) rest
    rw [List.cons_append] at hnot ⊢
    rw [splitAround_cons hnot, ih fun h ↦ hpart (h.trans (List.suffix_cons d part).isInfix)]
    rfl

theorem CutAround.splitAround_eq {c : Char} {more text : List Char} (hc : c ∉ more)
    {pieces : List (List Char)} (h : CutAround (c :: more) text pieces) :
    splitAround c more text = pieces := by
  obtain ⟨hne, rfl, hfree⟩ := h
  induction pieces with
  | nil => exact absurd rfl hne
  | cons first pieces ih =>
    obtain ⟨hfirst, hfree⟩ := List.forall_mem_cons.1 hfree
    cases pieces with
    | nil => simpa using splitAround_of_not_infix hfirst
    | cons second pieces =>
      rw [List.intercalate_cons_cons, List.append_assoc, splitAround_append_of_not_infix hc hfirst,
        ih (List.cons_ne_nil _ _) hfree]

/-- The pieces around a pattern are determined by the text where the first character of the pattern
does not occur in it again. -/
theorem splitAround_eq_iff {c : Char} {more text : List Char} (hc : c ∉ more)
    {pieces : List (List Char)} :
    splitAround c more text = pieces ↔ CutAround (c :: more) text pieces :=
  ⟨fun h ↦ h ▸ cutAround_splitAround c more text, fun h ↦ h.splitAround_eq hc⟩

/-! ## One form after the other -/

/-- The first of several pieces is a start of the text. -/
def FirstStarts (pieces : List (List Char)) (text : List Char) : Prop :=
  ∃ first others, pieces = first :: others ∧ first <+: text

theorem firstStarts_splitAround (c : Char) (more text : List Char) :
    FirstStarts (splitAround c more text) text := by
  induction text with
  | nil => exact ⟨[], [], splitAround_nil c more, List.nil_prefix⟩
  | cons d rest ih =>
    by_cases h : (c :: more) <+: (d :: rest)
    · obtain ⟨tail, htail⟩ := h
      rw [← htail, splitAround_append]
      exact ⟨[], _, rfl, List.nil_prefix⟩
    · obtain ⟨first, others, hpieces, hfirst⟩ := ih
      rw [splitAround_cons h, hpieces]
      exact ⟨d :: first, others, rfl, List.cons_prefix_cons.2 ⟨rfl, hfirst⟩⟩

theorem splitPieces_cons (first : List Char) (others : List (List Char)) (form : Char × List Char) :
    splitPieces (first :: others) form =
      splitAround form.1 form.2 first ++ splitPieces others form :=
  List.flatMap_cons

theorem FirstStarts.splitPieces {pieces : List (List Char)} {text : List Char}
    (h : FirstStarts pieces text) (form : Char × List Char) :
    FirstStarts (ContentLine.splitPieces pieces form) text := by
  obtain ⟨first, others, rfl, hfirst⟩ := h
  obtain ⟨piece, more, hpieces, hpiece⟩ := firstStarts_splitAround form.1 form.2 first
  rw [splitPieces_cons, hpieces]
  exact ⟨piece, _, rfl, hpiece.trans hfirst⟩

/-- A character where no form begins stays in front of the first piece. -/
theorem foldl_splitPieces_consToFirst {c : Char} {rest : List Char}
    {forms : List (Char × List Char)} {pieces : List (List Char)}
    (hforms : ∀ form ∈ forms, ¬ (form.1 :: form.2) <+: (c :: rest))
    (hpieces : FirstStarts pieces rest) :
    forms.foldl splitPieces (consToFirst c pieces) =
      consToFirst c (forms.foldl splitPieces pieces) := by
  induction forms generalizing pieces with
  | nil => rfl
  | cons form forms ih =>
    have hmore := hpieces.splitPieces form
    obtain ⟨first, others, rfl, hfirst⟩ := hpieces
    have hcut : splitPieces (consToFirst c (first :: others)) form =
        consToFirst c (splitPieces (first :: others) form) := by
      have hnot : ¬ (form.1 :: form.2) <+: (c :: first) := fun h ↦
        hforms form List.mem_cons_self (h.trans (List.cons_prefix_cons.2 ⟨rfl, hfirst⟩))
      obtain ⟨piece, more, hsplit, -⟩ := firstStarts_splitAround form.1 form.2 first
      rw [consToFirst, splitPieces_cons, splitPieces_cons, splitAround_cons hnot, hsplit]
      rfl
    rw [List.foldl_cons, List.foldl_cons, hcut,
      ih (fun other hother ↦ hforms other (List.mem_cons_of_mem _ hother)) hmore]

theorem foldl_splitPieces_nil_cons (forms : List (Char × List Char)) (pieces : List (List Char)) :
    forms.foldl splitPieces ([] :: pieces) = [] :: forms.foldl splitPieces pieces := by
  induction forms generalizing pieces with
  | nil => rfl
  | cons form forms ih =>
    rw [List.foldl_cons, List.foldl_cons, splitPieces_cons, splitAround_nil,
      List.singleton_append, ih]

theorem firstStarts_foldl (forms : List (Char × List Char)) (text : List Char) :
    FirstStarts (forms.foldl splitPieces [text]) text := by
  induction forms using List.reverseRecOn with
  | nil => exact ⟨text, [], rfl, List.prefix_rfl⟩
  | append_singleton forms form ih =>
    rw [List.foldl_append, List.foldl_cons, List.foldl_nil]
    exact ih.splitPieces form

/-- A text in which no form begins before `rest` keeps its characters in front of the first piece
of `rest`. -/
theorem foldl_splitPieces_append {forms : List (Char × List Char)} {lead rest : List Char}
    (hforms : ∀ form ∈ forms, ∀ part ∈ lead.tails, part ≠ [] →
      ¬ (form.1 :: form.2) <+: (part ++ rest)) :
    forms.foldl splitPieces [lead ++ rest] =
      lead.foldr consToFirst (forms.foldl splitPieces [rest]) := by
  induction lead with
  | nil => rfl
  | cons c lead ih =>
    rw [List.tails] at hforms
    have hrest := ih fun form hform part hpart ↦
      hforms form hform part (List.mem_cons_of_mem _ hpart)
    have hc := foldl_splitPieces_consToFirst
      (fun form hform ↦ hforms form hform _ List.mem_cons_self (List.cons_ne_nil c lead))
      (firstStarts_foldl [] (lead ++ rest))
    rw [List.foldr_cons, ← hrest]
    exact hc

/-- A fold is removed with its own form, when no earlier form begins inside it. -/
theorem foldl_splitPieces_form {earlier later : List (Char × List Char)} {c : Char}
    {more rest : List Char}
    (hearlier : ∀ form ∈ earlier, ∀ part ∈ (c :: more).tails, part ≠ [] →
      ¬ (form.1 :: form.2) <+: (part ++ rest)) :
    (earlier ++ (c, more) :: later).foldl splitPieces [c :: more ++ rest] =
      [] :: (earlier ++ (c, more) :: later).foldl splitPieces [rest] := by
  obtain ⟨first, others, hpieces, -⟩ := firstStarts_foldl earlier rest
  have hjoin (lead : List Char) :
      lead.foldr consToFirst (first :: others) = (lead ++ first) :: others := by
    induction lead with
    | nil => rfl
    | cons d lead ih => rw [List.foldr_cons, ih]; rfl
  rw [List.foldl_append, List.foldl_append, foldl_splitPieces_append hearlier, hpieces, hjoin,
    List.foldl_cons, List.foldl_cons, splitPieces_cons, splitAround_append, splitPieces_cons,
    List.cons_append, foldl_splitPieces_nil_cons]

/-! ## Both rules agree -/

theorem unfoldPiecewise_form (earlier : List (Char × List Char)) {later : List (Char × List Char)}
    {c : Char} {more : List Char} (hforms : foldForms = earlier ++ (c, more) :: later)
    {rest : List Char}
    (hearlier : ∀ form ∈ earlier, ∀ part ∈ (c :: more).tails, part ≠ [] →
      ¬ (form.1 :: form.2) <+: (part ++ rest)) :
    unfoldPiecewise (c :: more ++ rest) = unfoldPiecewise rest := by
  rw [unfoldPiecewise, hforms, foldl_splitPieces_form hearlier, List.flatten_cons, List.nil_append,
    unfoldPiecewise, hforms]

theorem unfoldPiecewise_crlf_mark {mark : Char} (hmark : isFoldMark mark = true)
    (rest : List Char) : unfoldPiecewise ('\r' :: '\n' :: mark :: rest) = unfoldPiecewise rest := by
  rcases isFoldMark_iff.1 hmark with rfl | rfl
  · exact unfoldPiecewise_form [] rfl (by simp)
  · refine unfoldPiecewise_form [('\r', ['\n', ' ']), ('\n', [' '])] rfl ?_
    simp [List.cons_prefix_cons]

theorem unfoldPiecewise_lf_mark {mark : Char} (hmark : isFoldMark mark = true)
    (rest : List Char) : unfoldPiecewise ('\n' :: mark :: rest) = unfoldPiecewise rest := by
  rcases isFoldMark_iff.1 hmark with rfl | rfl
  · refine unfoldPiecewise_form [('\r', ['\n', ' '])] rfl ?_
    simp [List.cons_prefix_cons]
  · refine unfoldPiecewise_form
      [('\r', ['\n', ' ']), ('\n', [' ']), ('\r', ['\n', '\t'])] rfl ?_
    simp [List.cons_prefix_cons]

theorem unfoldPiecewise_cons {c : Char} {rest : List Char} (h : ¬ StartsFold (c :: rest)) :
    unfoldPiecewise (c :: rest) = c :: unfoldPiecewise rest := by
  have hforms : ∀ form ∈ foldForms, ¬ (form.1 :: form.2) <+: (c :: rest) := by
    intro form hform hprefix
    refine h ?_
    obtain ⟨tail, htail⟩ := hprefix
    simp only [foldForms, List.mem_cons, List.not_mem_nil, or_false] at hform
    rcases hform with rfl | rfl | rfl | rfl
    · exact ⟨' ', tail, rfl, .inl htail.symm⟩
    · exact ⟨' ', tail, rfl, .inr htail.symm⟩
    · exact ⟨'\t', tail, rfl, .inl htail.symm⟩
    · exact ⟨'\t', tail, rfl, .inr htail.symm⟩
  have hfirst := foldl_splitPieces_consToFirst hforms (firstStarts_foldl [] rest)
  calc
    unfoldPiecewise (c :: rest) = (consToFirst c (foldForms.foldl splitPieces [rest])).flatten :=
      congrArg List.flatten hfirst
    _ = c :: unfoldPiecewise rest := flatten_consToFirst c _

/-- Removing the forms of a fold one after the other is unfolding. -/
theorem unfoldPiecewise_eq_unfold (text : List Char) : unfoldPiecewise text = unfold text := by
  induction text using unfold_induction with
  | nil => simp [unfoldPiecewise, foldForms, splitPieces, splitAround_nil, unfold]
  | crlf mark rest hmark ih => rw [unfoldPiecewise_crlf_mark hmark, unfold_crlf_mark hmark, ih]
  | lf mark rest hmark ih => rw [unfoldPiecewise_lf_mark hmark, unfold_lf_mark hmark, ih]
  | cons c rest hfold ih => rw [unfoldPiecewise_cons hfold, unfold_cons hfold, ih]

/-- The single pass leaves what is left by cutting a text around CRLF and a space, the pieces around LF
and a space, these around CRLF and a tab and these around LF and a tab, where each cut is the only one
that leaves none of its forms in a piece.  Events are read from this text: foldings of a text that the
single pass cannot tell apart hold the same event, or none for the same reason. -/
theorem unfold_agrees_with_reading (text : List Char) :
    unfold text = (splitPieces (splitPieces (splitPieces (splitPieces [text] ('\r', ['\n', ' ']))
      ('\n', [' '])) ('\r', ['\n', '\t'])) ('\n', ['\t'])).flatten ∧
    (∀ form ∈ foldForms, ∀ part pieces,
      splitAround form.1 form.2 part = pieces ↔ CutAround (form.1 :: form.2) part pieces) ∧
    unfoldPiecewise text = unfold text ∧
    ∀ other, unfold other = unfold text →
      Event.ofText (String.ofList other) = Event.ofText (String.ofList text) := by
  refine ⟨(unfoldPiecewise_eq_unfold text).symm, fun form hform part pieces ↦ ?_,
    unfoldPiecewise_eq_unfold text, fun other hother ↦ ?_⟩
  · refine splitAround_eq_iff ?_
    revert form
    decide
  · rw [Event.ofText, Event.ofText, String.toList_ofList, String.toList_ofList,
      unfoldPiecewise_eq_unfold, unfoldPiecewise_eq_unfold, hother]

/-- An event with two folds next to each other in a value, and with a fold in the name instead. -/
theorem unfold_agrees_with_reading_twoFoldings :
    ('\n', ['\t']) ∈ foldForms ∧
      CutAround ['\n', '\t'] "a\n\t\tb".toList ["a".toList, "\tb".toList] ∧
      unfold "BEGIN:VEVENT\nSUMM\n\tARY:ab\nEND:VEVENT".toList =
        unfold "BEGIN:VEVENT\nSUMMARY:a\r\n \n\tb\nEND:VEVENT".toList ∧
      Event.ofText (String.ofList "BEGIN:VEVENT\nSUMM\n\tARY:ab\nEND:VEVENT".toList) =
        Event.ofText (String.ofList "BEGIN:VEVENT\nSUMMARY:a\r\n \n\tb\nEND:VEVENT".toList) := by
  have hform : ('\n', ['\t']) ∈ foldForms := by decide
  have hother : unfold "BEGIN:VEVENT\nSUMM\n\tARY:ab\nEND:VEVENT".toList =
      unfold "BEGIN:VEVENT\nSUMMARY:a\r\n \n\tb\nEND:VEVENT".toList := by decide
  have hpieces : splitAround '\n' ['\t'] "a\n\t\tb".toList = ["a".toList, "\tb".toList] := by
    decide +kernel
  obtain ⟨-, hcut, -, hread⟩ :=
    unfold_agrees_with_reading "BEGIN:VEVENT\nSUMMARY:a\r\n \n\tb\nEND:VEVENT".toList
  exact ⟨hform, (hcut _ hform _ _).1 hpieces, hother, hread _ hother⟩

end CalendarCommand.ContentLine
