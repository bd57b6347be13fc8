import CalendarCommand.ContentLine.Physical
import Mathlib.Data.List.Basic

/-!
# Physical lines and line ends

Cutting a text into physical lines respects every cut that stands behind a line feed, so a text
can be taken apart and put together at its line ends without a change to its lines.  Statements
about lines are proved by an induction that takes one whole line off the text at a time.

The terminator of a text is read off its end alone: the text is a body followed by the characters
of its terminator, and the body of a text that ends with LF does not end with CR.  Which line breaks
a text holds shows in the terminators of its lines.
-/

namespace CalendarCommand.ContentLine

/-- A property of all characters of a text is decided over the text.  The other way, over all
characters that there are, does not end in reasonable time. -/
instance decidableForallMem {p : Char → Prop} [DecidablePred p] (text : List Char) :
    Decidable (∀ c ∈ text, p c) :=
  List.decidableBAll p text

/-- The text stops at a line end: it is empty, or its last character is a line feed. -/
def EndsLine (text : List Char) : Prop :=
  text = [] ∨ text.getLast? = some '\n'

theorem endsLine_nil : EndsLine [] := .inl rfl

theorem endsLine_append_lf (line : List Char) : EndsLine (line ++ ['\n']) :=
  .inr (by simp)

theorem EndsLine.append {a b : List Char} (ha : EndsLine a) (hb : EndsLine b) :
    EndsLine (a ++ b) := by
  rcases hb with rfl | hb
  · simpa using ha
  · exact .inr (by simp [List.getLast?_append, hb])

theorem EndsLine.of_append_right {a b : List Char} (h : EndsLine (a ++ b)) : EndsLine b := by
  cases b with
  | nil => exact endsLine_nil
  | cons c rest =>
    rcases h with h | h
    · simp at h
    · exact .inr (by simpa [List.getLast?_append] using h)

theorem EndsLine.of_suffix {text rest : List Char} (h : EndsLine text) (hrest : rest <:+ text) :
    EndsLine rest := by
  obtain ⟨front, rfl⟩ := hrest
  exact h.of_append_right

theorem EndsLine.tail {c : Char} {rest : List Char} (h : EndsLine (c :: rest)) : EndsLine rest :=
  EndsLine.of_append_right (a := [c]) h

theorem EndsLine.eq_nil_of_notMem {text : List Char} (h : EndsLine text) (hlf : '\n' ∉ text) :
    text = [] := by
  rcases h with h | h
  · exact h
  · exact absurd (List.mem_of_getLast? h) hlf

theorem EndsLine.mem_of_ne_nil {text : List Char} (h : EndsLine text) (hne : text ≠ []) :
    '\n' ∈ text :=
  List.mem_of_getLast? (h.resolve_left hne)

/-- A text is taken apart by whole lines: either it holds no line feed, or it is a line without
one, a line feed and a further text. -/
@[elab_as_elim]
theorem line_induction {motive : List Char → Prop}
    (last : ∀ line, '\n' ∉ line → motive line)
    (line : ∀ line rest, '\n' ∉ line → motive rest → motive (line ++ '\n' :: rest))
    (text : List Char) : motive text := by
  by_cases hlf : '\n' ∈ text
  · obtain ⟨first, rest, htext, hfirst⟩ := List.eq_append_cons_of_mem hlf
    have hshorter : rest.length < text.length := by
      rw [htext, List.length_append, List.length_cons]
      omega
    exact htext ▸ line first rest hfirst (line_induction last line rest)
  · exact last text hlf
termination_by text.length

/-- The cut of a text behind its first line feed is determined by the text. -/
theorem append_lf_inj {a b c d : List Char} (ha : '\n' ∉ a) (hc : '\n' ∉ c)
    (h : a ++ '\n' :: b = c ++ '\n' :: d) : a = c ∧ b = d := by
  induction a generalizing c with
  | nil =>
    cases c with
    | nil => simpa using h
    | cons x c =>
      have hx : '\n' = x := by simpa using congrArg List.head? h
      exact absurd (hx ▸ List.mem_cons_self) hc
  | cons x a ih =>
    cases c with
    | nil =>
      have hx : x = '\n' := by simpa using congrArg List.head? h
      exact absurd (hx ▸ List.mem_cons_self) ha
    | cons y c =>
      simp only [List.cons_append, List.cons.injEq] at h
      obtain ⟨rfl, h⟩ := h
      obtain ⟨rfl, rfl⟩ := ih (fun hm ↦ ha (List.mem_cons_of_mem _ hm))
        (fun hm ↦ hc (List.mem_cons_of_mem _ hm)) h
      exact ⟨rfl, rfl⟩

/-! ## Lines of a text -/

theorem physicalLines_lf_cons (rest : List Char) :
    physicalLines ('\n' :: rest) = ['\n'] :: physicalLines rest := rfl

theorem physicalLines_cons {c : Char} (hc : c ≠ '\n') (rest : List Char) :
    physicalLines (c :: rest) = consToFirst c (physicalLines rest) := by
  rw [physicalLines]
  exact hc

/-- The first physical line of a text runs to its first line feed. -/
theorem physicalLines_line {line : List Char} (hline : '\n' ∉ line) (rest : List Char) :
    physicalLines (line ++ '\n' :: rest) = (line ++ ['\n']) :: physicalLines rest := by
  induction line with
  | nil => rfl
  | cons c line ih =>
    have hc : c ≠ '\n' := fun h ↦ hline (h ▸ List.mem_cons_self)
    have htail := ih fun h ↦ hline (List.mem_cons_of_mem _ h)
    rw [List.cons_append, physicalLines_cons hc, htail]
    rfl

/-- A text without a line feed is one physical line. -/
theorem physicalLines_unterminated {line : List Char} (hline : '\n' ∉ line) (hne : line ≠ []) :
    physicalLines line = [line] := by
  induction line with
  | nil => exact absurd rfl hne
  | cons c line ih =>
    have hc : c ≠ '\n' := fun h ↦ hline (h ▸ List.mem_cons_self)
    rw [physicalLines_cons hc]
    cases line with
    | nil => rfl
    | cons d line =>
      rw [ih (fun h ↦ hline (List.mem_cons_of_mem _ h)) (List.cons_ne_nil _ _)]
      rfl

/-- Behind a line end a text can be cut without a change to its lines. -/
theorem physicalLines_append {before : List Char} (h : EndsLine before) (text : List Char) :
    physicalLines (before ++ text) = physicalLines before ++ physicalLines text := by
  induction before using line_induction with
  | last line hline =>
    rw [h.eq_nil_of_notMem hline]
    rfl
  | line line rest hline ih =>
    have hrest : EndsLine rest := EndsLine.of_append_right (a := line ++ ['\n']) (by simpa using h)
    rw [List.append_assoc, List.cons_append, physicalLines_line hline, physicalLines_line hline,
      ih hrest, List.cons_append]

theorem physicalLines_eq_nil_iff {text : List Char} : physicalLines text = [] ↔ text = [] := by
  constructor
  · intro h
    simpa [h] using (flatten_physicalLines text).symm
  · rintro rfl
    rfl

/-- A text and its first physical line begin with the same character. -/
theorem head?_of_physicalLines {text first : List Char} {more : List (List Char)}
    (h : physicalLines text = first :: more) : first.head? = text.head? := by
  cases text with
  | nil => simp [physicalLines] at h
  | cons c rest =>
    by_cases hc : c = '\n'
    · subst hc
      rw [physicalLines_lf_cons, List.cons.injEq] at h
      rw [← h.1]
      rfl
    · rw [physicalLines_cons hc] at h
      cases hrest : physicalLines rest <;>
        · rw [hrest, consToFirst, List.cons.injEq] at h
          rw [← h.1]
          rfl

theorem isContinuation_of_physicalLines {c : Char} {rest first : List Char}
    {more : List (List Char)} (h : physicalLines (c :: rest) = first :: more) :
    isContinuation first = isFoldMark c := by
  have hhead := head?_of_physicalLines h
  cases first with
  | nil => simp at hhead
  | cons d first =>
    have hd : d = c := by simpa using hhead
    exact congrArg isFoldMark hd

/-- Taking lines off the front of a text is cutting the text behind a line end. -/
theorem physicalLines_eq_append {text : List Char} {a b : List (List Char)}
    (h : physicalLines text = a ++ b) :
    physicalLines a.flatten = a ∧ physicalLines b.flatten = b ∧
      (b = [] ∨ EndsLine a.flatten) := by
  induction text using line_induction generalizing a with
  | last line hline =>
    by_cases hne : line = []
    · subst hne
      obtain ⟨rfl, rfl⟩ := List.append_eq_nil_iff.1 h.symm
      exact ⟨rfl, rfl, .inl rfl⟩
    · rw [physicalLines_unterminated hline hne] at h
      rcases List.singleton_eq_append_iff.1 h with ⟨rfl, rfl⟩ | ⟨rfl, rfl⟩
      · exact ⟨rfl, by simpa using physicalLines_unterminated hline hne, .inr endsLine_nil⟩
      · exact ⟨by simpa using physicalLines_unterminated hline hne, rfl, .inl rfl⟩
  | line line rest hline ih =>
    cases a with
    | nil =>
      rw [List.nil_append] at h
      subst h
      exact ⟨rfl, by rw [flatten_physicalLines], .inr endsLine_nil⟩
    | cons first a =>
      rw [physicalLines_line hline, List.cons_append, List.cons.injEq] at h
      obtain ⟨rfl, h⟩ := h
      obtain ⟨ha, hb, hend⟩ := ih h
      refine ⟨?_, hb, ?_⟩
      · rw [List.flatten_cons, List.append_assoc, List.singleton_append, physicalLines_line hline,
          ha]
      · exact hend.imp_right fun ha ↦ by
          rw [List.flatten_cons]
          exact (endsLine_append_lf line).append ha

/-! ## Terminators -/

theorem terminator_eq_absent {text : List Char} (h : text.getLast? ≠ some '\n') :
    terminator text = .absent := by
  fun_induction terminator text with
  | case1 => rfl
  | case2 => simp at h
  | case3 => simp at h
  | case4 c rest hcrlf hlf ih =>
    cases rest with
    | nil => rfl
    | cons d rest => exact ih (by simpa [List.getLast?_cons_cons] using h)

theorem terminator_append_of_ne {b : List Char} (hnil : b ≠ []) (hlf : b ≠ ['\n'])
    (a : List Char) : terminator (a ++ b) = terminator b := by
  induction a with
  | nil => rfl
  | cons c a ih =>
    rw [List.cons_append, terminator, ih]
    · rintro rfl htail
      rcases List.append_eq_singleton_iff.1 htail with ⟨-, rfl⟩ | ⟨-, rfl⟩
      · exact hlf rfl
      · exact hnil rfl
    · rintro rfl htail
      exact hnil (List.append_eq_nil_iff.1 htail).2

theorem terminator_crlf (body : List Char) : terminator (body ++ ['\r', '\n']) = .crlf :=
  terminator_append_of_ne (by simp) (by simp) body

theorem terminator_lf {body : List Char} (h : body.getLast? ≠ some '\r') :
    terminator (body ++ ['\n']) = .lf := by
  rcases List.eq_nil_or_concat body with rfl | ⟨front, c, rfl⟩
  · rfl
  · have hc : c ≠ '\r' := by simpa using h
    rw [List.concat_eq_append, List.append_assoc, List.singleton_append,
      terminator_append_of_ne (by simp) (by simp) front, terminator]
    · rfl
    · rintro rfl
      exact absurd rfl hc
    · rintro rfl htail
      exact absurd htail (by simp)

/-- Whatever lines stand in front of a text, they do not change how it ends. -/
theorem terminator_append {a b : List Char} (ha : EndsLine a) (hb : b ≠ []) :
    terminator (a ++ b) = terminator b := by
  by_cases hlf : b = ['\n']
  · subst hlf
    refine terminator_lf ?_
    rcases ha with rfl | ha
    · simp
    · rw [ha]
      decide
  · exact terminator_append_of_ne hb hlf a

/-- A text is a body and the characters of its terminator. -/
theorem exists_body (text : List Char) : ∃ body, text = body ++ (terminator text).text ∧
    (terminator text = .absent → text.getLast? ≠ some '\n') ∧
    (terminator text = .lf → body.getLast? ≠ some '\r') := by
  by_cases hend : text.getLast? = some '\n'
  · obtain ⟨body, rfl⟩ := List.getLast?_eq_some_iff.1 hend
    by_cases hcr : body.getLast? = some '\r'
    · obtain ⟨front, rfl⟩ := List.getLast?_eq_some_iff.1 hcr
      rw [List.append_assoc, List.singleton_append, terminator_crlf]
      exact ⟨front, rfl, nofun, nofun⟩
    · have hterm := terminator_lf hcr
      exact ⟨body, by rw [hterm]; rfl, by simp [hterm], fun _ ↦ hcr⟩
  · have hterm := terminator_eq_absent hend
    exact ⟨text, by rw [hterm]; simp [Terminator.text], fun _ ↦ hend, by simp [hterm]⟩

theorem terminator_append_lf (line : List Char) :
    terminator (line ++ ['\n']) = if line.getLast? = some '\r' then .crlf else .lf := by
  split
  case isTrue hcr =>
    obtain ⟨front, rfl⟩ := List.getLast?_eq_some_iff.1 hcr
    rw [List.append_assoc]
    exact terminator_crlf front
  case isFalse hcr => exact terminator_lf hcr

theorem getLast?_eq_lf_iff {text : List Char} :
    text.getLast? = some '\n' ↔ terminator text ≠ .absent := by
  obtain ⟨-, -, habsent, -⟩ := exists_body text
  exact ⟨fun h hterm ↦ habsent hterm h, not_imp_comm.1 terminator_eq_absent⟩

/-! ## Line breaks of a text -/

/-- Every line feed of the text stands directly behind a carriage return. -/
def LfBehindCr (text : List Char) : Prop :=
  ∀ before rest, text = before ++ '\n' :: rest → before.getLast? = some '\r'

/-- Without a line feed a text has no line with a terminator. -/
theorem terminator_of_lf_notMem {text : List Char} (h : '\n' ∉ text) :
    ∀ line ∈ physicalLines text, terminator line = .absent := by
  by_cases hne : text = []
  · simp [hne, physicalLines]
  · rw [physicalLines_unterminated h hne, List.forall_mem_singleton]
    exact terminator_eq_absent fun hlast ↦ h (List.mem_of_getLast? hlast)

theorem hasCrlf_eq_false {text : List Char} (h : '\r' ∉ text ∨ '\n' ∉ text) :
    hasCrlf text = false := by
  fun_induction hasCrlf text with
  | case1 => rfl
  | case2 => simp at h
  | case3 c rest _ ih =>
    exact ih (h.imp (mt (List.mem_cons_of_mem c)) (mt (List.mem_cons_of_mem c)))

theorem hasCrlf_line {line : List Char} (hline : '\n' ∉ line) (rest : List Char) :
    hasCrlf (line ++ '\n' :: rest) = true ↔ line.getLast? = some '\r' ∨ hasCrlf rest = true := by
  induction line with
  | nil => simp [hasCrlf]
  | cons c line ih =>
    cases line with
    | nil =>
      by_cases hc : c = '\r'
      · simp [hc, hasCrlf]
      · rw [List.singleton_append, hasCrlf]
        · simp [hasCrlf, hc]
        · rintro more rfl
          exact absurd rfl hc
    | cons d line =>
      have hd : d ≠ '\n' := fun hd ↦ hline (by simp [hd])
      rw [List.cons_append, hasCrlf, ih fun h ↦ hline (List.mem_cons_of_mem c h),
        List.getLast?_cons_cons]
      rintro more - htail
      exact hd (List.cons.inj htail).1

/-- A text holds CRLF exactly when one of its lines ends with it. -/
theorem hasCrlf_iff {text : List Char} :
    hasCrlf text = true ↔ ∃ line ∈ physicalLines text, terminator line = .crlf := by
  induction text using line_induction with
  | last line hline =>
    rw [hasCrlf_eq_false (.inr hline)]
    refine iff_of_false (by simp) ?_
    rintro ⟨part, hpart, hcrlf⟩
    rw [terminator_of_lf_notMem hline part hpart] at hcrlf
    exact absurd hcrlf (by decide)
  | line line rest hline ih =>
    rw [hasCrlf_line hline, physicalLines_line hline, ih]
    simp [terminator_append_lf]

theorem hasCrlf_eq_false_iff {text : List Char} :
    hasCrlf text = false ↔ ∀ line ∈ physicalLines text, terminator line ≠ .crlf := by
  rw [← Bool.not_eq_true, hasCrlf_iff]
  simp only [not_exists, not_and, ne_eq]

theorem lfBehindCr_line {line : List Char} (hline : '\n' ∉ line) (rest : List Char) :
    LfBehindCr (line ++ '\n' :: rest) ↔ line.getLast? = some '\r' ∧ LfBehindCr rest := by
  constructor
  · refine fun h ↦ ⟨h line rest rfl, fun before more hrest ↦ ?_⟩
    have hlast := h (line ++ '\n' :: before) more (by rw [hrest]; simp)
    cases before with
    | nil => simp at hlast
    | cons c before => simpa [List.getLast?_append] using hlast
  · rintro ⟨hlast, h⟩ before more htext
    by_cases hbefore : '\n' ∈ before
    · obtain ⟨first, others, rfl, hfirst⟩ := List.eq_append_cons_of_mem hbefore
      rw [List.append_assoc, List.cons_append] at htext
      obtain ⟨rfl, rfl⟩ := append_lf_inj hline hfirst htext
      have hothers := h others more rfl
      cases others with
      | nil => simp at hothers
      | cons c others => simpa [List.getLast?_append] using hothers
    · rw [← (append_lf_inj hline hbefore htext).1]
      exact hlast

/-- Every line feed stands behind a carriage return exactly when no line ends with LF alone. -/
theorem lfBehindCr_iff {text : List Char} :
    LfBehindCr text ↔ ∀ line ∈ physicalLines text, terminator line ≠ .lf := by
  induction text using line_induction with
  | last line hline =>
    refine iff_of_true (fun before rest h ↦ absurd (by rw [h]; simp) hline) fun part hpart ↦ ?_
    rw [terminator_of_lf_notMem hline part hpart]
    decide
  | line line rest hline ih =>
    rw [lfBehindCr_line hline, physicalLines_line hline, ih]
    simp [terminator_append_lf]

instance decidableLfBehindCr (text : List Char) : Decidable (LfBehindCr text) :=
  decidable_of_iff _ lfBehindCr_iff.symm

end CalendarCommand.ContentLine
