import CalendarCommand.Proofs.ContentLine.Escaping
import Mathlib.Data.Set.Operations

/-!
# The units of an escaped text

An escaped text is made of units: characters that stand for themselves, and pairs that a backslash
opens.  No unit begins another one, so a text falls into units in one way at most, and each unit reads
as one character.

Escaping keeps apart whatever differs by more than the form of its line breaks.  What it writes are
exactly the texts without line breaks that fall into units, and among these reading and escaping undo
each other.  Reading accepts more than that: pairs that it does not know, a capital `N`, a backslash at
the end.
-/

namespace CalendarCommand.ContentLine

/-- A unit of an escaped text. -/
inductive IsEscapeUnit : List Char → Prop where
  /-- A character that is no mark stands for itself. -/
  | plain {c : Char} (hmark : isTextMark c = false) : IsEscapeUnit [c]
  /-- A mark is written behind a backslash. -/
  | mark {c : Char} (hmark : isTextMark c = true) : IsEscapeUnit ['\\', c]
  /-- A line break is written as a backslash and an `n`. -/
  | lineBreak : IsEscapeUnit ['\\', 'n']

/-- The text falls into units. -/
structure FallsInto (text : List Char) (units : List (List Char)) : Prop where
  all_units : ∀ unit ∈ units, IsEscapeUnit unit
  joined : units.flatten = text

/-! ## One way to fall into units -/

/-- Units at the start of one text are the same unit. -/
theorem IsEscapeUnit.eq_of_append_eq {a b : List Char} (ha : IsEscapeUnit a) (hb : IsEscapeUnit b)
    {restA restB : List Char} (h : a ++ restA = b ++ restB) : a = b := by
  cases ha with
  | plain hc =>
    cases hb with
    | plain => rw [(List.cons.inj h).1]
    | mark => exact absurd (List.cons.inj h).1 (ne_of_isTextMark rfl hc).symm
    | lineBreak => exact absurd (List.cons.inj h).1 (ne_of_isTextMark rfl hc).symm
  | mark hc =>
    cases hb with
    | plain hd => exact absurd (List.cons.inj h).1 (ne_of_isTextMark rfl hd)
    | mark => rw [(List.cons.inj (List.cons.inj h).2).1]
    | lineBreak => exact absurd (List.cons.inj (List.cons.inj h).2).1 (ne_of_isTextMark hc rfl)
  | lineBreak =>
    cases hb with
    | plain hd => exact absurd (List.cons.inj h).1 (ne_of_isTextMark rfl hd)
    | mark hd => exact absurd (List.cons.inj (List.cons.inj h).2).1 (ne_of_isTextMark hd rfl).symm
    | lineBreak => rfl

theorem IsEscapeUnit.ne_nil {unit : List Char} (h : IsEscapeUnit unit) : unit ≠ [] := by
  cases h <;> exact List.cons_ne_nil _ _

theorem fallsInto_nil_iff {units : List (List Char)} : FallsInto [] units ↔ units = [] := by
  constructor
  · rintro ⟨hunits, hjoined⟩
    refine List.eq_nil_iff_forall_not_mem.2 fun unit hunit ↦ ?_
    exact (hunits unit hunit).ne_nil (List.flatten_eq_nil_iff.1 hjoined unit hunit)
  · rintro rfl
    exact ⟨nofun, rfl⟩

theorem FallsInto.cons {unit text : List Char} {units : List (List Char)}
    (hunit : IsEscapeUnit unit) (h : FallsInto text units) :
    FallsInto (unit ++ text) (unit :: units) :=
  ⟨List.forall_mem_cons.2 ⟨hunit, h.all_units⟩, by rw [List.flatten_cons, h.joined]⟩

theorem FallsInto.exists_cons {unit text : List Char} {units : List (List Char)}
    (h : FallsInto text (unit :: units)) :
    ∃ rest, text = unit ++ rest ∧ IsEscapeUnit unit ∧ FallsInto rest units := by
  obtain ⟨hunit, hunits⟩ := List.forall_mem_cons.1 h.all_units
  exact ⟨units.flatten, h.joined.symm, hunit, hunits, rfl⟩

/-- A text falls into units in one way at most. -/
theorem FallsInto.unique {text : List Char} {units units' : List (List Char)}
    (h : FallsInto text units) (h' : FallsInto text units') : units' = units := by
  induction units generalizing text units' with
  | nil =>
    obtain rfl : [] = text := h.joined
    exact fallsInto_nil_iff.1 h'
  | cons unit units ih =>
    obtain ⟨rest, rfl, hunit, hrest⟩ := h.exists_cons
    cases units' with
    | nil => exact absurd h'.joined.symm (by simp [hunit.ne_nil])
    | cons unit' units' =>
      obtain ⟨rest', heq, hunit', hrest'⟩ := h'.exists_cons
      obtain rfl := hunit.eq_of_append_eq hunit' heq
      obtain rfl : rest = rest' := List.append_cancel_left heq
      rw [ih hrest hrest']

/-! ## What escaping writes -/

theorem isEscapeUnit_escapeChar (c : Char) : IsEscapeUnit (escapeChar c) := by
  rcases escapeChar_cases c with ⟨hmark, h⟩ | ⟨-, h⟩ | ⟨hmark, -, -, h⟩
  · exact h ▸ .mark hmark
  · exact h ▸ .lineBreak
  · exact h ▸ .plain hmark

theorem exists_fallsInto_escape (text : List Char) : ∃ units, FallsInto (escape text) units := by
  fun_induction escape text with
  | case1 => exact ⟨[], fallsInto_nil_iff.2 rfl⟩
  | case2 rest ih =>
    obtain ⟨units, h⟩ := ih
    exact ⟨_, h.cons .lineBreak⟩
  | case3 c rest _ ih =>
    obtain ⟨units, h⟩ := ih
    exact ⟨_, h.cons (isEscapeUnit_escapeChar c)⟩

theorem escape_cons {c : Char} (hc : c ≠ '\r') (rest : List Char) :
    escape (c :: rest) = escapeChar c ++ escape rest := by
  rw [escape]
  rintro more rfl rfl
  exact hc rfl

/-- Escaping does not see which form a line break has. -/
theorem escape_normalizeBreaks (text : List Char) : escape (normalizeBreaks text) = escape text := by
  fun_induction normalizeBreaks text with
  | case1 => rfl
  | case2 rest ih => rw [escape_cons (by decide), ih]; rfl
  | case3 rest hlf ih =>
    rw [escape_cons (by decide), ih, escape]
    · rfl
    · rintro more - rfl
      exact hlf more rfl
  | case4 c rest _ hcr ih => rw [escape_cons hcr, ih, escape_cons hcr]

/-- A unit without line breaks reads as the one character that is written in this way. -/
theorem IsEscapeUnit.exists_escapeChar {unit : List Char} (h : IsEscapeUnit unit) (hcr : '\r' ∉ unit)
    (hlf : '\n' ∉ unit) : ∃ c, c ≠ '\r' ∧ escapeChar c = unit ∧
      ∀ rest, unescape (unit ++ rest) = c :: unescape rest := by
  cases h with
  | @plain c hmark =>
    have hslash : c ≠ '\\' := (ne_of_isTextMark rfl hmark).symm
    simp only [List.mem_singleton] at hcr hlf
    exact ⟨c, Ne.symm hcr, escapeChar_eq_self hmark (Ne.symm hlf) (Ne.symm hcr),
      unescapeWith_cons hslash⟩
  | @mark c hmark =>
    have hcr : c ≠ '\r' := ne_of_isTextMark hmark rfl
    have hpair : unescapePair isTextMark c = [c] :=
      unescapePair_mark hmark (ne_of_isTextMark hmark rfl) (ne_of_isTextMark hmark rfl)
    refine ⟨c, hcr, ?_, fun rest ↦ ?_⟩
    · rcases escapeChar_cases c with ⟨-, h⟩ | ⟨rfl | rfl, -⟩ | ⟨hno, -⟩
      · exact h
      · exact absurd hmark (by decide)
      · exact absurd hmark (by decide)
      · exact absurd hmark (by rw [hno]; decide)
    · rw [unescape, List.cons_append, List.singleton_append, unescapeWith_pair, hpair]
      rfl
  | lineBreak => exact ⟨'\n', by decide, rfl, fun rest ↦ rfl⟩

theorem escape_unescape_of_fallsInto {text : List Char} {units : List (List Char)}
    (h : FallsInto text units) (hcr : '\r' ∉ text) (hlf : '\n' ∉ text) :
    escape (unescape text) = text := by
  induction units generalizing text with
  | nil =>
    obtain rfl : [] = text := h.joined
    rfl
  | cons unit units ih =>
    obtain ⟨rest, rfl, hunit, hrest⟩ := h.exists_cons
    rw [List.mem_append, not_or] at hcr hlf
    obtain ⟨c, hc, hwritten, hread⟩ := hunit.exists_escapeChar hcr.1 hlf.1
    rw [hread, escape_cons hc, hwritten, ih hrest hcr.2 hlf.2]

/-- The texts that reading and escaping bring back are those without line breaks that fall into units. -/
theorem escape_unescape_eq_iff {text : List Char} : escape (unescape text) = text ↔
    '\r' ∉ text ∧ '\n' ∉ text ∧ ∃ units, FallsInto text units := by
  constructor
  · intro h
    obtain ⟨hlf, hcr⟩ := break_notMem_escape (unescape text)
    rw [h] at hlf hcr
    exact ⟨hcr, hlf, h ▸ exists_fallsInto_escape (unescape text)⟩
  · rintro ⟨hcr, hlf, units, h⟩
    exact escape_unescape_of_fallsInto h hcr hlf

/-- Two texts are written alike exactly when they differ in the form of their line breaks only. -/
theorem escape_eq_escape_iff {text other : List Char} :
    escape other = escape text ↔ normalizeBreaks other = normalizeBreaks text := by
  constructor
  · intro h
    rw [← unescape_escape, h, unescape_escape]
  · intro h
    rw [← escape_normalizeBreaks, h, escape_normalizeBreaks]

/-- Escaping loses the form of line breaks and nothing else, and leaves nothing that would have to be
escaped: what is written reads as the text with its line breaks turned into line feeds and is written
again as it was, it holds no line break, and it falls into units in exactly one way.  Texts are written
alike only where they differ in the form of their line breaks. -/
theorem escape_lossless (text : List Char) :
    unescape (escape text) = normalizeBreaks text ∧
    escape (unescape (escape text)) = escape text ∧
    '\r' ∉ escape text ∧ '\n' ∉ escape text ∧
    (∃! units, FallsInto (escape text) units) ∧
    (∀ other, escape other = escape text ↔ normalizeBreaks other = normalizeBreaks text) ∧
    Set.InjOn escape {free | '\r' ∉ free} := by
  have hagain : escape (unescape (escape text)) = escape text := by
    rw [unescape_escape, escape_normalizeBreaks]
  obtain ⟨hcr, hlf, units, hunits⟩ := escape_unescape_eq_iff.1 hagain
  refine ⟨unescape_escape text, hagain, hcr, hlf, ⟨units, hunits, fun _ ↦ hunits.unique⟩,
    fun other ↦ escape_eq_escape_iff, fun a ha b hb hab ↦ ?_⟩
  calc
    a = normalizeBreaks a := (normalizeBreaks_eq_self ha).symm
    _ = normalizeBreaks b := escape_eq_escape_iff.1 hab
    _ = b := normalizeBreaks_eq_self hb

/-- A backslash in front of an `n` is not written as a line break is. -/
theorem escape_lossless_backslash :
    '\r' ∉ "C:\\new".toList ∧ '\r' ∉ "C:\new".toList ∧
      escape "C:\\new".toList ≠ escape "C:\new".toList := by
  have hslash : '\r' ∉ "C:\\new".toList := by decide
  have hbreak : '\r' ∉ "C:\new".toList := by decide
  obtain ⟨-, -, -, -, -, -, hinj⟩ := escape_lossless "C:\\new".toList
  exact ⟨hslash, hbreak, fun h ↦ absurd (hinj hslash hbreak h) (by decide)⟩

end CalendarCommand.ContentLine
