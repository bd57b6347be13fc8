import CalendarCommand.Component.Basic
import Mathlib.Data.List.Basic

/-!
# Escaped text values

An escaped text holds no line break, and reading undoes escaping: what comes back is the text with
its line breaks turned into line feeds.  This holds for every reading rule that knows at least the
marks of a text value, so also for the rule of component values, which admits the colon as well.

Reading a text that was not escaped may change it.  It does so exactly when a backslash stands
directly in front of a character that it could escape; reading never takes a line feed away.
-/

namespace CalendarCommand.ContentLine

variable {isEscapable : Char → Bool}

/-! ## Steps of reading and writing -/

theorem unescapeWith_pair (c : Char) (rest : List Char) :
    unescapeWith isEscapable ('\\' :: c :: rest) =
      unescapePair isEscapable c ++ unescapeWith isEscapable rest := rfl

theorem unescapeWith_cons {c : Char} (hc : c ≠ '\\') (rest : List Char) :
    unescapeWith isEscapable (c :: rest) = c :: unescapeWith isEscapable rest := by
  rw [unescapeWith]
  rintro - - rfl -
  exact hc rfl

theorem normalizeBreaks_cons {c : Char} (hc : c ≠ '\r') (rest : List Char) :
    normalizeBreaks (c :: rest) = c :: normalizeBreaks rest := by
  rw [normalizeBreaks]
  · rintro - rfl -
    exact hc rfl
  · exact hc

theorem normalizeBreaks_cr {rest : List Char} (h : rest.head? ≠ some '\n') :
    normalizeBreaks ('\r' :: rest) = '\n' :: normalizeBreaks rest := by
  rw [normalizeBreaks]
  rintro more rfl
  exact h rfl

/-- Texts without CR are their own normal form. -/
theorem normalizeBreaks_eq_self {text : List Char} (h : '\r' ∉ text) :
    normalizeBreaks text = text := by
  induction text with
  | nil => rfl
  | cons c rest ih =>
    have hc : c ≠ '\r' := fun hc ↦ h (hc ▸ List.mem_cons_self)
    rw [normalizeBreaks_cons hc, ih fun hr ↦ h (List.mem_cons_of_mem _ hr)]

/-! ## What escaping leaves -/

theorem escapeChar_eq_self {c : Char} (hmark : isTextMark c = false) (hlf : c ≠ '\n')
    (hcr : c ≠ '\r') : escapeChar c = [c] := by
  have hmarks : (c ≠ '\\' ∧ c ≠ ';') ∧ c ≠ ',' := by simpa [isTextMark] using hmark
  rw [escapeChar]
  · exact hmarks.1.1
  · exact hmarks.1.2
  · exact hmarks.2
  · exact hlf
  · exact hcr

theorem ne_of_isTextMark {c d : Char} (hc : isTextMark c = true) (hd : isTextMark d = false) :
    c ≠ d := by
  apply ne_of_apply_ne isTextMark
  rw [hc, hd]
  decide

/-- The written form of a character: a pair for a mark and for a line break, and otherwise the
character itself. -/
theorem escapeChar_cases (c : Char) :
    (isTextMark c = true ∧ escapeChar c = ['\\', c]) ∨
      ((c = '\n' ∨ c = '\r') ∧ escapeChar c = ['\\', 'n']) ∨
        (isTextMark c = false ∧ c ≠ '\n' ∧ c ≠ '\r' ∧ escapeChar c = [c]) := by
  by_cases hmark : isTextMark c = true
  · have hmarks : (c = '\\' ∨ c = ';') ∨ c = ',' := by simpa [isTextMark] using hmark
    rcases hmarks with (rfl | rfl) | rfl <;> exact .inl ⟨rfl, rfl⟩
  · by_cases hlf : c = '\n'
    · subst hlf
      exact .inr (.inl ⟨.inl rfl, rfl⟩)
    · by_cases hcr : c = '\r'
      · subst hcr
        exact .inr (.inl ⟨.inr rfl, rfl⟩)
      · have hmark : isTextMark c = false := by simpa using hmark
        exact .inr (.inr ⟨hmark, hlf, hcr, escapeChar_eq_self hmark hlf hcr⟩)

theorem break_notMem_escapeChar (c : Char) : '\n' ∉ escapeChar c ∧ '\r' ∉ escapeChar c := by
  rcases escapeChar_cases c with ⟨hmark, h⟩ | ⟨-, h⟩ | ⟨-, hlf, hcr, h⟩
  · have hlf : c ≠ '\n' := ne_of_isTextMark hmark rfl
    have hcr : c ≠ '\r' := ne_of_isTextMark hmark rfl
    simp [h, hlf.symm, hcr.symm]
  · simp [h]
  · simp [h, Ne.symm hlf, Ne.symm hcr]

/-- An escaped text holds no line break. -/
theorem break_notMem_escape (text : List Char) : '\n' ∉ escape text ∧ '\r' ∉ escape text := by
  fun_induction escape text with
  | case1 => simp
  | case2 rest ih => simpa using ih
  | case3 c rest _ ih =>
    have hc := break_notMem_escapeChar c
    simp [hc, ih]

/-! ## Reading what was written -/

theorem unescapePair_mark {c : Char} (hc : isEscapable c = true) (hn : c ≠ 'n') (hbig : c ≠ 'N') :
    unescapePair isEscapable c = [c] := by
  simp [unescapePair, hc, hn, hbig]

theorem unescapePair_n : unescapePair isEscapable 'n' = ['\n'] := rfl

/-- Reading undoes escaping up to the form of line breaks, whatever stands behind the text. -/
theorem unescapeWith_escape_append (hmarks : ∀ c, isTextMark c = true → isEscapable c = true)
    (text rest : List Char) :
    unescapeWith isEscapable (escape text ++ rest) =
      normalizeBreaks text ++ unescapeWith isEscapable rest := by
  fun_induction escape text with
  | case1 => rfl
  | case2 more ih =>
    rw [List.cons_append, List.cons_append, unescapeWith_pair, unescapePair_n, ih]
    rfl
  | case3 c more hcrlf ih =>
    have hhead : c = '\r' → more.head? ≠ some '\n' := by
      rintro rfl hhead
      obtain ⟨tail, rfl⟩ := List.head?_eq_some_iff.1 hhead
      exact hcrlf tail rfl rfl
    rcases escapeChar_cases c with ⟨hmark, h⟩ | ⟨hbreak, h⟩ | ⟨hmark, hlf, hcr, h⟩
    · have hn : c ≠ 'n' := ne_of_isTextMark hmark rfl
      have hbig : c ≠ 'N' := ne_of_isTextMark hmark rfl
      have hcr : c ≠ '\r' := ne_of_isTextMark hmark rfl
      rw [h, List.append_assoc, List.cons_append, List.singleton_append, unescapeWith_pair,
        unescapePair_mark (hmarks c hmark) hn hbig, ih, normalizeBreaks_cons hcr]
      rfl
    · rw [h, List.append_assoc, List.cons_append, List.singleton_append, unescapeWith_pair,
        unescapePair_n, ih]
      rcases hbreak with rfl | rfl
      · rw [normalizeBreaks_cons (by decide)]
        rfl
      · rw [normalizeBreaks_cr (hhead rfl)]
        rfl
    · have hslash : c ≠ '\\' := (ne_of_isTextMark rfl hmark).symm
      rw [h, List.append_assoc, List.singleton_append, unescapeWith_cons hslash, ih,
        normalizeBreaks_cons hcr]
      rfl

theorem unescapeWith_escape (hmarks : ∀ c, isTextMark c = true → isEscapable c = true)
    (text : List Char) : unescapeWith isEscapable (escape text) = normalizeBreaks text := by
  simpa [unescapeWith] using unescapeWith_escape_append hmarks text []

theorem unescape_escape (text : List Char) : unescape (escape text) = normalizeBreaks text :=
  unescapeWith_escape (fun _ h ↦ h) text

/-! ## Reading any text -/

/-- The text is cut behind a character that is no backslash without a change to its reading. -/
theorem unescapeWith_append {c : Char} (hc : c ≠ '\\') (before after : List Char) :
    unescapeWith isEscapable (before ++ c :: after) =
      unescapeWith isEscapable (before ++ [c]) ++ unescapeWith isEscapable after := by
  fun_induction unescapeWith isEscapable before with
  | case1 =>
    rw [List.nil_append, List.nil_append, unescapeWith_cons hc, unescapeWith_cons hc]
    rfl
  | case2 d rest ih =>
    rw [List.cons_append, List.cons_append, List.cons_append, List.cons_append, unescapeWith_pair,
      unescapeWith_pair, ih, List.append_assoc]
  | case3 d rest hpair ih =>
    by_cases hd : d = '\\'
    · subst hd
      cases rest with
      | nil => simp [unescapeWith_pair, unescapeWith]
      | cons e rest => exact absurd rfl (hpair e rest rfl)
    · rw [List.cons_append, List.cons_append, unescapeWith_cons hd, unescapeWith_cons hd, ih,
        List.cons_append]

/-- A pair is read as one character, or it is kept because it is not known. -/
theorem unescapePair_cases (isEscapable : Char → Bool) (c : Char) :
    (∃ d, unescapePair isEscapable c = [d] ∧ (c = '\n' → d = '\n')) ∨
      (unescapePair isEscapable c = ['\\', c] ∧ c ≠ 'n' ∧ c ≠ 'N' ∧ isEscapable c = false) := by
  by_cases hn : (c == 'n' || c == 'N') = true
  · exact .inl ⟨'\n', by rw [unescapePair, if_pos hn], fun _ ↦ rfl⟩
  · by_cases hmark : isEscapable c = true
    · exact .inl ⟨c, by rw [unescapePair, if_neg hn, if_pos hmark], id⟩
    · have hletters : c ≠ 'n' ∧ c ≠ 'N' := by simpa using hn
      exact .inr ⟨by rw [unescapePair, if_neg hn, if_neg hmark], hletters.1, hletters.2,
        by simpa using hmark⟩

/-- Reading takes no line feed away. -/
theorem count_lf_le_unescapeWith (text : List Char) :
    text.count '\n' ≤ (unescapeWith isEscapable text).count '\n' := by
  fun_induction unescapeWith isEscapable text with
  | case1 => exact Nat.le_refl _
  | case2 c rest ih =>
    have hpair : ['\\', c].count '\n' ≤ (unescapePair isEscapable c).count '\n' := by
      rcases unescapePair_cases isEscapable c with ⟨d, h, hd⟩ | ⟨h, -⟩
      · rw [h]
        by_cases hc : c = '\n'
        · simp [hc, hd hc]
        · simp [hc]
      · exact Nat.le_of_eq (congrArg (List.count '\n') h.symm)
    rw [List.count_append]
    calc
      ('\\' :: c :: rest).count '\n' = ['\\', c].count '\n' + rest.count '\n' := by
        rw [← List.count_append]
        rfl
      _ ≤ _ := Nat.add_le_add hpair ih
  | case3 c rest _ ih =>
    rw [List.count_cons, List.count_cons]
    exact Nat.add_le_add_right ih _

theorem count_lf_le_normalizeBreaks (text : List Char) :
    text.count '\n' ≤ (normalizeBreaks text).count '\n' := by
  fun_induction normalizeBreaks text with
  | case1 => exact Nat.le_refl _
  | case2 rest ih =>
    rw [List.count_cons_of_ne (by decide), List.count_cons_self, List.count_cons_self]
    exact Nat.succ_le_succ ih
  | case3 rest _ ih =>
    rw [List.count_cons_of_ne (by decide), List.count_cons_self]
    exact Nat.le_succ_of_le ih
  | case4 c rest _ _ ih =>
    rw [List.count_cons, List.count_cons]
    exact Nat.add_le_add_right ih _

/-- The line feeds around an escaped text come on top of its own. -/
theorem count_lf_unescapeWith_escape (hmarks : ∀ c, isTextMark c = true → isEscapable c = true)
    {lead : List Char} (hlead : lead = [] ∨ ∃ before, lead = before ++ [':'])
    (text extra : List Char) :
    lead.count '\n' + (text.count '\n' + extra.count '\n') ≤
      (unescapeWith isEscapable (lead ++ (escape text ++ extra))).count '\n' := by
  have htext := count_lf_le_normalizeBreaks text
  have hextra : _ ≤ (unescapeWith isEscapable extra).count '\n' := count_lf_le_unescapeWith extra
  have hlead' : _ ≤ (unescapeWith isEscapable lead).count '\n' := count_lf_le_unescapeWith lead
  have hcut : unescapeWith isEscapable (lead ++ (escape text ++ extra)) =
      unescapeWith isEscapable lead ++ unescapeWith isEscapable (escape text ++ extra) := by
    rcases hlead with rfl | ⟨before, rfl⟩
    · rfl
    · rw [List.append_assoc]
      exact unescapeWith_append (by decide) before _
  rw [hcut, unescapeWith_escape_append hmarks, List.count_append, List.count_append]
  omega

/-- Reading brings in no character but the line feed. -/
theorem mem_of_mem_unescapeWith {text : List Char} {d : Char}
    (h : d ∈ unescapeWith isEscapable text) : d = '\n' ∨ d ∈ text := by
  fun_induction unescapeWith isEscapable text with
  | case1 => exact .inr h
  | case2 c rest ih =>
    rcases List.mem_append.1 h with h | h
    · rw [unescapePair] at h
      split_ifs at h
      · exact .inl (List.mem_singleton.1 h)
      · exact .inr (List.mem_cons_of_mem _ (List.mem_cons.2 (.inl (List.mem_singleton.1 h))))
      · exact .inr (List.mem_append_left rest h)
    · exact (ih h).imp_right fun h ↦ List.mem_cons_of_mem _ (List.mem_cons_of_mem _ h)
  | case3 c rest _ ih =>
    rcases List.mem_cons.1 h with h | h
    · exact .inr (List.mem_cons.2 (.inl h))
    · exact (ih h).imp_right (List.mem_cons_of_mem _)

/-- No backslash of the text stands directly in front of a character that it could escape. -/
def PairFree (text : List Char) : Prop :=
  ∀ before c rest, text = before ++ '\\' :: c :: rest → c ≠ 'n' ∧ c ≠ 'N' ∧ isTextMark c = false

theorem PairFree.of_append_right {a b : List Char} (h : PairFree (a ++ b)) : PairFree b := by
  intro before c rest hb
  exact h (a ++ before) c rest (by rw [hb, List.append_assoc])

theorem PairFree.of_append_left {a b : List Char} (h : PairFree (a ++ b)) : PairFree a := by
  intro before c rest ha
  exact h before c (rest ++ b) (by rw [ha]; simp)

theorem pairFree_cons {c : Char} {rest : List Char} (hrest : PairFree rest)
    (hhead : c = '\\' → ∀ d, rest.head? = some d → d ≠ 'n' ∧ d ≠ 'N' ∧ isTextMark d = false) :
    PairFree (c :: rest) := by
  intro before d more htext
  cases before with
  | nil =>
    obtain ⟨rfl, rfl⟩ := List.cons.inj htext
    exact hhead rfl d rfl
  | cons e before => exact hrest before d more (List.cons.inj htext).2

/-- A text without pairs is read as itself. -/
theorem unescape_eq_self {text : List Char} (h : PairFree text) : unescape text = text := by
  unfold unescape
  fun_induction unescapeWith isTextMark text with
  | case1 => rfl
  | case2 c rest ih =>
    obtain ⟨hn, hbig, hmark⟩ := h [] c rest rfl
    rw [ih (PairFree.of_append_right (a := ['\\', c]) h)]
    simp [unescapePair, hn, hbig, hmark]
  | case3 c rest _ ih => rw [ih (PairFree.of_append_right (a := [c]) h)]

theorem length_unescapeWith_le (isEscapable : Char → Bool) (text : List Char) :
    (unescapeWith isEscapable text).length ≤ text.length := by
  fun_induction unescapeWith isEscapable text with
  | case1 => exact Nat.le_refl _
  | case2 c rest ih =>
    rw [List.length_append, List.length_cons, List.length_cons]
    rcases unescapePair_cases isEscapable c with ⟨d, h, -⟩ | ⟨h, -⟩ <;>
      · rw [h]
        simp only [List.length_cons, List.length_nil]
        omega
  | case3 c rest _ ih => simpa using ih

/-- A text that is read as itself holds no pair, since a pair that is read makes it shorter. -/
theorem pairFree_of_unescape_eq_self {text : List Char} (h : unescape text = text) :
    PairFree text := by
  unfold unescape at h
  fun_induction unescapeWith isTextMark text with
  | case1 =>
    intro before c rest hnil
    simp at hnil
  | case2 c rest ih =>
    rcases unescapePair_cases isTextMark c with ⟨d, hpair, -⟩ | ⟨hpair, hn⟩
    · have hle := length_unescapeWith_le isTextMark rest
      have hlength := congrArg List.length h
      rw [hpair, List.length_append] at hlength
      simp only [List.length_cons, List.length_nil] at hlength
      omega
    · rw [hpair] at h
      have hrest : PairFree rest := ih (List.append_cancel_left  h)
      have hslash : c ≠ '\\' := (ne_of_isTextMark rfl hn.2.2).symm
      exact pairFree_cons (pairFree_cons hrest fun hc ↦ absurd hc hslash)
        (fun _ d hd ↦ Option.some.inj hd ▸ hn)
  | case3 c rest hpair ih =>
    refine pairFree_cons (ih (List.cons.inj h).2) ?_
    rintro rfl d hd
    obtain ⟨more, rfl⟩ := List.head?_eq_some_iff.1 hd
    exact absurd rfl (hpair d more rfl)

theorem unescape_eq_self_iff {text : List Char} : unescape text = text ↔ PairFree text :=
  ⟨pairFree_of_unescape_eq_self, unescape_eq_self⟩

/-! ## Reading more than once -/

/-- A rule that changes a text takes at least one backslash away. -/
theorem unescapeWith_eq_self_or_count_lt (isEscapable : Char → Bool) (text : List Char) :
    unescapeWith isEscapable text = text ∨
      (unescapeWith isEscapable text).count '\\' < text.count '\\' := by
  fun_induction unescapeWith isEscapable text with
  | case1 => exact .inl rfl
  | case2 c rest ih =>
    have hrest : (unescapeWith isEscapable rest).count '\\' ≤ rest.count '\\' := by
      rcases ih with ih | ih
      · exact Nat.le_of_eq (congrArg _ ih)
      · exact Nat.le_of_lt ih
    by_cases hpair : unescapePair isEscapable c = ['\\', c]
    · rw [hpair]
      exact ih.imp (congrArg ('\\' :: c :: ·)) fun ih ↦ by simpa [List.count_cons] using ih
    · refine .inr ?_
      have hless : (unescapePair isEscapable c).count '\\' < ['\\', c].count '\\' := by
        unfold unescapePair at hpair ⊢
        split_ifs at hpair ⊢ with hn hmark
        · simp
        · simp [List.count_cons]
        · exact absurd rfl hpair
      calc
        (unescapePair isEscapable c ++ unescapeWith isEscapable rest).count '\\' =
            (unescapePair isEscapable c).count '\\' +
              (unescapeWith isEscapable rest).count '\\' := List.count_append
        _ < ['\\', c].count '\\' + rest.count '\\' := Nat.add_lt_add_of_lt_of_le hless hrest
        _ = ('\\' :: c :: rest).count '\\' := List.count_append.symm
  | case3 c rest _ ih =>
    exact ih.imp (congrArg (c :: ·)) fun ih ↦ by simpa [List.count_cons] using ih

theorem count_unescapeWith_le (isEscapable : Char → Bool) (text : List Char) :
    (unescapeWith isEscapable text).count '\\' ≤ text.count '\\' := by
  rcases unescapeWith_eq_self_or_count_lt isEscapable text with h | h
  · exact Nat.le_of_eq (congrArg _ h)
  · exact Nat.le_of_lt h

/-- A rule that knows the marks of text values and reads a text in another way than the rule of text
values takes more backslashes away. -/
theorem unescapeWith_eq_unescape_or_count_lt
    (hmarks : ∀ c, isTextMark c = true → isEscapable c = true) (text : List Char) :
    unescapeWith isEscapable text = unescape text ∨
      (unescapeWith isEscapable text).count '\\' < (unescape text).count '\\' := by
  unfold unescape
  fun_induction unescapeWith isEscapable text with
  | case1 => exact .inl rfl
  | case2 c rest ih =>
    have hrest : (unescapeWith isEscapable rest).count '\\' ≤
        (unescapeWith isTextMark rest).count '\\' := by
      rcases ih with ih | ih
      · exact Nat.le_of_eq (congrArg _ ih)
      · exact Nat.le_of_lt ih
    rw [unescapeWith_pair]
    by_cases hpair : unescapePair isEscapable c = unescapePair isTextMark c
    · rw [hpair]
      refine ih.imp (congrArg (_ ++ ·)) fun ih ↦ ?_
      rw [List.count_append, List.count_append]
      exact Nat.add_lt_add_left ih _
    · refine .inr ?_
      have hless : (unescapePair isEscapable c).count '\\' <
          (unescapePair isTextMark c).count '\\' := by
        unfold unescapePair at hpair ⊢
        split_ifs at hpair ⊢ with hn hmark htext htext
        · exact absurd rfl hpair
        · exact absurd rfl hpair
        · simp [List.count_cons]
        · exact absurd (hmarks c htext) hmark
        · exact absurd rfl hpair
      rw [List.count_append, List.count_append]
      exact Nat.add_lt_add_of_lt_of_le hless hrest
  | case3 c rest hc ih =>
    have hcons : unescapeWith isTextMark (c :: rest) = c :: unescapeWith isTextMark rest := by
      rw [unescapeWith]
      exact hc
    rw [hcons]
    exact ih.imp (congrArg (c :: ·)) fun ih ↦ by simpa [List.count_cons] using ih

/-- Reading a text by a wider rule first makes no difference exactly when that rule reads the text as
a text value is read, and the text that comes out has no pair left. -/
theorem unescape_unescapeWith_eq_iff (hmarks : ∀ c, isTextMark c = true → isEscapable c = true)
    {text : List Char} :
    unescape (unescapeWith isEscapable text) = unescape text ↔
      unescapeWith isEscapable text = unescape text ∧ PairFree (unescape text) := by
  constructor
  · intro h
    have hcount := congrArg (List.count '\\') h
    have hle : (unescape (unescapeWith isEscapable text)).count '\\' ≤ _ :=
      count_unescapeWith_le isTextMark (unescapeWith isEscapable text)
    rcases unescapeWith_eq_unescape_or_count_lt hmarks text with hfirst | hfirst
    · refine ⟨hfirst, unescape_eq_self_iff.1 ?_⟩
      rw [← hfirst]
      exact h.trans hfirst.symm
    · omega
  · rintro ⟨hfirst, hfree⟩
    rw [hfirst, unescape_eq_self hfree]

end CalendarCommand.ContentLine

/-! ## Component values -/

namespace CalendarCommand

open ContentLine

/-- The rule of component values knows the marks of text values. -/
theorem isValueMark_of_isTextMark (c : Char) (h : isTextMark c = true) :
    Property.isValueMark c = true := by
  rw [Property.isValueMark, h]
  rfl

/-- The value of a property without parameters has its pairs undone. -/
theorem Property.content_of_parameters {property : Property} (h : property.parameters = []) :
    property.content = unescapeWith isValueMark property.value := by
  have hliteral : property.isLiteral = false := by
    rw [isLiteral, valueType?, h]
    rfl
  rw [content, hliteral]
  rfl

end CalendarCommand
