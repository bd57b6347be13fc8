import Mathlib.Data.List.Basic
import CalendarCommand.Time.Pattern

/-!
# The grammar of timestamp patterns

A text that denotes a pattern is a sequence of directives, where a character that stands for itself
counts as a directive of its own.  `Directive` lists the directives with the items that they stand for,
and `Denotes` puts them in a row.  Reading a text is this grammar, so that an induction over what a
text denotes has one case for each kind of directive and no case for the way in which it is read.

The items of the time zone come from seven directives, and a text has such an item exactly when one of
the seven stands in it behind a text that denotes a pattern itself.  The condition on what stands in
front is needed: a percent sign in front of a percent sign only stands for itself.
-/

namespace CalendarCommand.Pattern

/-- The directives of the zone offset that take more than one letter. -/
def offsetForms : List (List Char) :=
  [['%', '#', 'z'], ['%', ':', 'z'], ['%', ':', ':', 'z'], ['%', ':', ':', ':', 'z']]

/-- The directives of the fraction of a second, with their items. -/
def fractionForms : List (List Char × PatternItem) :=
  [(['%', '.', 'f'], .shortFraction), (['%', '.', '3', 'f'], .fraction true 1),
    (['%', '.', '6', 'f'], .fraction true 2), (['%', '.', '9', 'f'], .fraction true 3),
    (['%', '3', 'f'], .fraction false 1), (['%', '6', 'f'], .fraction false 2),
    (['%', '9', 'f'], .fraction false 3)]

/-- A directive, and the items that it stands for. -/
inductive Directive : List Char → Pattern → Prop
  | plain {c : Char} (hc : c ≠ '%') : Directive [c] [.literal c]
  | letter {c : Char} {items : Pattern} (hitems : ofLetter? c = some items) :
      Directive ['%', c] items
  | bare {c : Char} {items : Pattern} (hitems : ofPaddedLetter? .bare c = some items) :
      Directive ['%', '-', c] items
  | zeros {c : Char} {items : Pattern} (hitems : ofPaddedLetter? .zeros c = some items) :
      Directive ['%', '0', c] items
  | spaces {c : Char} {items : Pattern} (hitems : ofPaddedLetter? .spaces c = some items) :
      Directive ['%', '_', c] items
  | offset {part : List Char} (hpart : part ∈ offsetForms) : Directive part [.zone]
  | fraction {part : List Char} {item : PatternItem} (hpart : (part, item) ∈ fractionForms) :
      Directive part [item]

/-- The text is a sequence of directives that stand for the pattern. -/
inductive Denotes : List Char → Pattern → Prop
  | nil : Denotes [] []
  | cons {part rest : List Char} {items pattern : Pattern} (hpart : Directive part items)
      (hrest : Denotes rest pattern) : Denotes (part ++ rest) (items ++ pattern)

theorem prepend?_eq_some {items pattern : Option Pattern} {whole : Pattern}
    (h : prepend? items pattern = some whole) :
    ∃ first rest, items = some first ∧ pattern = some rest ∧ whole = first ++ rest := by
  obtain ⟨first, hfirst, hmore⟩ := Option.bind_eq_some_iff.1 h
  obtain ⟨rest, hrest, hwhole⟩ := Option.map_eq_some_iff.1 hmore
  exact ⟨first, rest, hfirst, hrest, hwhole.symm⟩

/-- A letter that has a directive of its own is none of the marks that open a longer one. -/
theorem ne_of_ofLetter? {c d : Char} {items : Pattern} (hitems : ofLetter? c = some items)
    (hd : ofLetter? d = none) : c ≠ d := by
  rintro rfl
  exact absurd (hitems.symm.trans hd) (by simp)

theorem ofText?_letter {c : Char} {items : Pattern} (hitems : ofLetter? c = some items)
    (rest : List Char) : ofText? ('%' :: c :: rest) = prepend? (ofLetter? c) (ofText? rest) := by
  have hne {d : Char} (hd : ofLetter? d = none) : c ≠ d := ne_of_ofLetter? hitems hd
  have hdash : c ≠ '-' := hne rfl
  have hzero : c ≠ '0' := hne rfl
  have hline : c ≠ '_' := hne rfl
  have hhash : c ≠ '#' := hne rfl
  have hcolon : c ≠ ':' := hne rfl
  have hpoint : c ≠ '.' := hne rfl
  have hthree : c ≠ '3' := hne rfl
  have hsix : c ≠ '6' := hne rfl
  have hnine : c ≠ '9' := hne rfl
  simp [ofText?, *]

theorem ofText?_plain {c : Char} (hc : c ≠ '%') (rest : List Char) :
    ofText? (c :: rest) = prepend? (some [.literal c]) (ofText? rest) := by
  simp [ofText?, hc]

/-- A directive in front of a text puts its items in front of the pattern of the text. -/
theorem Directive.ofText?_append {part : List Char} {items : Pattern} (h : Directive part items)
    (rest : List Char) : ofText? (part ++ rest) = prepend? (some items) (ofText? rest) := by
  cases h with
  | plain hc => exact ofText?_plain hc rest
  | letter hitems => exact hitems ▸ ofText?_letter hitems rest
  | bare hitems => exact hitems ▸ rfl
  | zeros hitems => exact hitems ▸ rfl
  | spaces hitems => exact hitems ▸ rfl
  | offset hpart =>
    simp only [offsetForms, List.mem_cons, List.not_mem_nil, or_false] at hpart
    rcases hpart with rfl | rfl | rfl | rfl <;> rfl
  | fraction hpart =>
    simp only [fractionForms, List.mem_cons, List.not_mem_nil, or_false, Prod.mk.injEq] at hpart
    rcases hpart with ⟨rfl, rfl⟩ | ⟨rfl, rfl⟩ | ⟨rfl, rfl⟩ | ⟨rfl, rfl⟩ | ⟨rfl, rfl⟩ |
      ⟨rfl, rfl⟩ | ⟨rfl, rfl⟩ <;> rfl

/-- What a text denotes is what it is read as. -/
theorem Denotes.ofText?_eq {text : List Char} {pattern : Pattern} (h : Denotes text pattern) :
    ofText? text = some pattern := by
  induction h with
  | nil => rfl
  | cons hpart hrest ih => rw [hpart.ofText?_append, ih]; rfl

/-- A text that is read as a pattern denotes it. -/
theorem denotes_of_ofText? {text : List Char} {pattern : Pattern}
    (h : ofText? text = some pattern) : Denotes text pattern := by
  -- Each clause of the reading takes off one directive, whose items are found apart from the rest.
  have hcons (part : List Char) {rest : List Char} {items : Option Pattern} {whole : Pattern}
      (hpart : ∀ first, items = some first → Directive part first)
      (ih : ∀ {pattern}, ofText? rest = some pattern → Denotes rest pattern)
      (hwhole : prepend? items (ofText? rest) = some whole) : Denotes (part ++ rest) whole := by
    obtain ⟨first, more, hfirst, hmore, rfl⟩ := prepend?_eq_some hwhole
    exact .cons (hpart first hfirst) (ih hmore)
  have hitem {part : List Char} {item : PatternItem} (hpart : Directive part [item])
      (first : Pattern) (hfirst : some [item] = some first) : Directive part first :=
    Option.some.inj hfirst ▸ hpart
  fun_induction ofText? text generalizing pattern with
  | case1 =>
    cases h
    exact .nil
  | case2 c rest ih => exact hcons ['%', '-', c] (fun _ ↦ .bare) ih h
  | case3 c rest ih => exact hcons ['%', '0', c] (fun _ ↦ .zeros) ih h
  | case4 c rest ih => exact hcons ['%', '_', c] (fun _ ↦ .spaces) ih h
  | case5 rest ih => exact hcons ['%', '#', 'z'] (hitem (.offset (by decide))) ih h
  | case6 rest ih => exact hcons ['%', ':', 'z'] (hitem (.offset (by decide))) ih h
  | case7 rest ih => exact hcons ['%', ':', ':', 'z'] (hitem (.offset (by decide))) ih h
  | case8 rest ih => exact hcons ['%', ':', ':', ':', 'z'] (hitem (.offset (by decide))) ih h
  | case9 rest ih => exact hcons ['%', '.', 'f'] (hitem (.fraction (by decide))) ih h
  | case10 rest ih => exact hcons ['%', '.', '3', 'f'] (hitem (.fraction (by decide))) ih h
  | case11 rest ih => exact hcons ['%', '.', '6', 'f'] (hitem (.fraction (by decide))) ih h
  | case12 rest ih => exact hcons ['%', '.', '9', 'f'] (hitem (.fraction (by decide))) ih h
  | case13 rest ih => exact hcons ['%', '3', 'f'] (hitem (.fraction (by decide))) ih h
  | case14 rest ih => exact hcons ['%', '6', 'f'] (hitem (.fraction (by decide))) ih h
  | case15 rest ih => exact hcons ['%', '9', 'f'] (hitem (.fraction (by decide))) ih h
  | case16 c rest =>
    rename_i ih
    exact hcons ['%', c] (fun _ ↦ .letter) ih h
  | case17 => exact absurd h (by simp)
  | case18 c rest =>
    rename_i hletter hlast ih
    have hc : c ≠ '%' := by
      intro hc
      cases rest with
      | nil => exact hlast hc rfl
      | cons d more => exact hletter d more hc rfl
    exact hcons [c] (hitem (.plain hc)) ih h

/-- A text in front of another one puts its pattern in front of the other pattern. -/
theorem Denotes.ofText?_append {text : List Char} {pattern : Pattern} (h : Denotes text pattern)
    (rest : List Char) : ofText? (text ++ rest) = (ofText? rest).map (pattern ++ ·) := by
  induction h with
  | nil => simp
  | @cons part more items pattern hpart hmore ih =>
    calc
      ofText? (part ++ more ++ rest) = prepend? (some items) (ofText? (more ++ rest)) := by
        rw [List.append_assoc, hpart.ofText?_append]
      _ = ((ofText? rest).map (pattern ++ ·)).map (items ++ ·) := by
        rw [ih]
        rfl
      _ = (ofText? rest).map (items ++ pattern ++ ·) := by
        simp [Function.comp_def]

/-! ## The time zone -/

def zoneForms : List (List Char) :=
  ['%', 'z'] :: ['%', 'Z'] :: ['%', '+'] :: offsetForms

/-- A directive of the time zone stands in the text, at a place where a directive begins. -/
def NamesZone (text : List Char) : Prop :=
  ∃ before part after, (ofText? before).isSome ∧ part ∈ zoneForms ∧ text = before ++ part ++ after

theorem directive_of_mem_zoneForms {part : List Char} (h : part ∈ zoneForms) :
    Directive part [.zone] := by
  rw [zoneForms, List.mem_cons, List.mem_cons, List.mem_cons] at h
  rcases h with rfl | rfl | rfl | hoffset
  · exact .letter rfl
  · exact .letter rfl
  · exact .letter rfl
  · exact .offset hoffset

theorem zone_mem_ofLetter? {c : Char} {items : Pattern} (h : ofLetter? c = some items) :
    PatternItem.zone ∈ items ↔ ['%', c] ∈ zoneForms := by
  unfold ofLetter? at h
  split at h <;> cases h <;> decide

theorem zone_notMem_ofPaddedLetter? {padding : Padding} {c : Char} {items : Pattern}
    (h : ofPaddedLetter? padding c = some items) : PatternItem.zone ∉ items := by
  unfold ofPaddedLetter? at h
  split at h <;> cases h
  simp

/-- The directives that stand for something of the zone are those of the time zone. -/
theorem Directive.zone_mem_iff {part : List Char} {items : Pattern} (h : Directive part items) :
    PatternItem.zone ∈ items ↔ part ∈ zoneForms := by
  cases h with
  | @plain c hc => simp [zoneForms, offsetForms]
  | letter hitems => exact zone_mem_ofLetter? hitems
  | bare hitems =>
    exact iff_of_false (zone_notMem_ofPaddedLetter? hitems) (by simp [zoneForms, offsetForms])
  | zeros hitems =>
    exact iff_of_false (zone_notMem_ofPaddedLetter? hitems) (by simp [zoneForms, offsetForms])
  | spaces hitems =>
    exact iff_of_false (zone_notMem_ofPaddedLetter? hitems) (by simp [zoneForms, offsetForms])
  | offset hpart =>
    have hzone : part ∈ zoneForms :=
      List.mem_cons_of_mem _ (List.mem_cons_of_mem _ (List.mem_cons_of_mem _ hpart))
    exact iff_of_true (List.mem_singleton_self _) hzone
  | fraction hpart =>
    have hnone : ∀ form ∈ fractionForms, PatternItem.zone ≠ form.2 ∧ form.1 ∉ zoneForms := by decide
    obtain ⟨hitem, hzone⟩ := hnone _ hpart
    exact iff_of_false (by simpa using hitem) hzone

/-- A pattern has something of the zone exactly when the text names the zone. -/
theorem Denotes.zone_mem_iff {text : List Char} {pattern : Pattern} (h : Denotes text pattern) :
    PatternItem.zone ∈ pattern ↔ NamesZone text := by
  constructor
  · intro hzone
    induction h with
    | nil => exact absurd hzone List.not_mem_nil
    | @cons part rest items pattern hpart hrest ih =>
      rcases List.mem_append.1 hzone with hitems | hmore
      · exact ⟨[], part, rest, rfl, hpart.zone_mem_iff.1 hitems, rfl⟩
      · obtain ⟨before, directive, after, hbefore, hdirective, rfl⟩ := ih hmore
        refine ⟨part ++ before, directive, after, ?_, hdirective, by simp⟩
        rw [hpart.ofText?_append]
        obtain ⟨first, hfirst⟩ := Option.isSome_iff_exists.1 hbefore
        rw [hfirst]
        rfl
  · rintro ⟨before, part, after, hbefore, hpart, rfl⟩
    obtain ⟨first, hfirst⟩ := Option.isSome_iff_exists.1 hbefore
    have hwhole := h.ofText?_eq
    rw [List.append_assoc, (denotes_of_ofText? hfirst).ofText?_append,
      (directive_of_mem_zoneForms hpart).ofText?_append] at hwhole
    obtain ⟨tail, htail, rfl⟩ := Option.map_eq_some_iff.1 hwhole
    obtain ⟨items, more, hitems, -, rfl⟩ := prepend?_eq_some htail
    rw [← Option.some.inj hitems]
    simp

end CalendarCommand.Pattern
