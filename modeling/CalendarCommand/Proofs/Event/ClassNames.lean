import Mathlib
import CalendarCommand.Proofs.Event.WrittenCalendar

/-!
# The names of classes

A class is read from its text by trimming the text and putting its letters in upper case.  Two rules
that know different alphabets meet here: every blank of Unicode is trimmed, and only the letters of
ASCII change their case.  They do not disturb each other, since no letter of ASCII is blank and a change
of case turns letters into letters only.  Whatever was trimmed stays trimmed, and the two may be taken in
either order.

So a class is read alike from exactly the texts that differ in nothing but the blanks around them and the
case of letters, and the text that it shows is one of them.  From this follows all the rest: the text
that a class shows names this class again and no other, and a class of no known name does not show a
spelling of a known one.  An event is private for the spellings of one word only, and never without a
class.
-/

namespace CalendarCommand

namespace Text

variable {text other : List Char}

/-! ## Spellings of a text -/

/-- The texts are the same up to the case of ASCII letters. -/
def EqIgnoringCase (text other : List Char) : Prop :=
  text.map Char.toLower = other.map Char.toLower

instance (text other : List Char) : Decidable (EqIgnoringCase text other) :=
  inferInstanceAs (Decidable (_ = _))

/-- The texts differ in nothing but the blanks around them and the case of ASCII letters. -/
def SpelledAlike (text other : List Char) : Prop :=
  ∃ core core', Encloses text core ∧ Encloses other core' ∧ EqIgnoringCase core core'

theorem map_map_eq {first second both : Char → Char} (h : ∀ c, second (first c) = both c)
    (text : List Char) : (text.map first).map second = text.map both := by
  rw [List.map_map]
  exact List.map_congr_left fun c _ ↦ h c

/-- Upper case tells the same texts apart as lower case. -/
theorem eqIgnoringCase_iff :
    EqIgnoringCase text other ↔ text.map Char.toUpper = other.map Char.toUpper := by
  constructor
  · intro h
    have hupper := map_map_eq Char.toUpper_toLower_eq_toUpper
    rw [← hupper text, ← hupper other, h]
  · intro h
    have hlower := map_map_eq Char.toLower_toUpper_eq_toLower
    rw [EqIgnoringCase, ← hlower text, ← hlower other, h]

/-! ## Blanks and case -/

theorem isBlank_eq_false_of_isAlpha {c : Char} (h : c.isAlpha = true) : isBlank c = false := by
  have hrange : 65 ≤ c.toNat ∧ c.toNat ≤ 90 ∨ 97 ≤ c.toNat ∧ c.toNat ≤ 122 := by
    simpa [Char.isAlpha, Char.isUpper, Char.isLower, UInt32.le_iff_toNat_le] using h
  simp only [isBlank, Bool.or_eq_false_iff, Bool.and_eq_false_iff, decide_eq_false_iff_not,
    beq_eq_false_iff_ne]
  omega

theorem isBlank_toUpper (c : Char) : isBlank c.toUpper = isBlank c := by
  by_cases hlower : c.isLower = true
  · have halpha : c.isAlpha = true := by rw [Char.isAlpha, hlower, Bool.or_true]
    have hupper : c.toUpper.isAlpha = true := by rwa [Char.isAlpha_toUpper_eq_isAlpha]
    rw [isBlank_eq_false_of_isAlpha halpha, isBlank_eq_false_of_isAlpha hupper]
  · rw [Char.toUpper_eq_of_not_isLower hlower]

end Text

namespace Classification

open Text

/-! ## Reading a class -/

theorem label_eq_trim_map (text : List Char) : label text = trim (text.map Char.toUpper) :=
  (trim_map isBlank_toUpper text).symm

theorem label_of_encloses {text core : List Char} (h : Encloses text core) :
    label text = label core := by
  rw [label, label, h.trim_eq]

/-- Texts are compared in the same form exactly when they are spelled alike. -/
theorem label_eq_label_iff {text other : List Char} :
    label text = label other ↔ SpelledAlike text other := by
  constructor
  · intro h
    exact ⟨trim text, trim other, encloses_trim text, encloses_trim other, eqIgnoringCase_iff.2 h⟩
  · rintro ⟨core, core', htext, hother, hcase⟩
    -- The cores may have blanks at their own ends, so they are compared before they are trimmed.
    calc
      label text = trim (core.map Char.toUpper) := by
        rw [label_of_encloses htext, label_eq_trim_map]
      _ = trim (core'.map Char.toUpper) := by rw [eqIgnoringCase_iff.1 hcase]
      _ = label other := by rw [label_of_encloses hother, label_eq_trim_map]

/-- The form of comparison is its own form of comparison. -/
theorem label_label (text : List Char) : label (label text) = label text := by
  calc
    label (label text) = (trim (trim (text.map Char.toUpper))).map Char.toUpper := by
      rw [label_eq_trim_map text, label]
    _ = ((trim text).map Char.toUpper).map Char.toUpper := by
      rw [trim_trim, trim_map isBlank_toUpper]
    _ = (trim text).map Char.toUpper := map_map_eq Char.toUpper_toUpper_eq_toUpper _

/-- The text that a class shows is a spelling of the one that it was read from. -/
theorem spelledAlike_text_ofText (text : String) :
    SpelledAlike (ofText text).text.toList text.toList := by
  have htext := text_ofText text.toList
  rw [String.ofList_toList] at htext
  rw [htext, String.toList_ofList, ← label_eq_label_iff, label_label]

/-- A class is read alike from the spellings of one text, and from no other texts. -/
theorem ofText_eq_ofText_iff {text other : String} :
    ofText text = ofText other ↔ SpelledAlike text.toList other.toList := by
  rw [← label_eq_label_iff]
  constructor
  · intro h
    have hshown := congrArg Classification.text h
    rw [← String.ofList_toList (s := text), ← String.ofList_toList (s := other), text_ofText,
      text_ofText] at hshown
    exact String.ofList_injective hshown
  · intro h
    rw [label, label] at h
    rw [ofText, ofText, h]

theorem ofText_text_ofText (text : String) : ofText (ofText text).text = ofText text :=
  ofText_eq_ofText_iff.2 (spelledAlike_text_ofText text)

/-- A class shows its own text, and no other class that is read from a text shows the same. -/
theorem injOn_text : Set.InjOn Classification.text (Set.range ofText) := by
  rintro - ⟨text, rfl⟩ - ⟨other, rfl⟩ h
  rw [← ofText_text_ofText text, h, ofText_text_ofText]

theorem ofText_ne_other_of_known {known : String}
    (h : known ∈ ["PUBLIC", "PRIVATE", "CONFIDENTIAL"]) (name : String) :
    ofText known ≠ .other name := by
  have hknown : ∀ known ∈ ["PUBLIC", "PRIVATE", "CONFIDENTIAL"],
      ofText known ∈ [.publicClass, .privateClass, .confidential] := by decide
  intro hother
  have hmem := hknown known h
  rw [hother] at hmem
  simp at hmem

/-- A class of no known name does not show a spelling of a known one: its own name would have been read
as the known class. -/
theorem not_spelledAlike_known {text name : String} (h : ofText text = .other name)
    {known : String} (hknown : known ∈ ["PUBLIC", "PRIVATE", "CONFIDENTIAL"]) :
    ¬ SpelledAlike name.toList known.toList := by
  intro halike
  have hname : ofText name = .other name := by
    have hagain := ofText_text_ofText text
    rwa [h] at hagain
  exact ofText_ne_other_of_known hknown name ((ofText_eq_ofText_iff.2 halike).symm.trans hname)

theorem ofText_eq_privateClass_iff {text : String} :
    ofText text = .privateClass ↔ EqIgnoringCase (trim text.toList) "private".toList := by
  have hword : ofText "private" = .privateClass := by decide
  have htrim : trim "private".toList = "private".toList := by decide
  rw [← hword, ofText_eq_ofText_iff, ← label_eq_label_iff, label, label, htrim,
    ← eqIgnoringCase_iff]

end Classification

namespace Event

open Text

/-! ## Private events -/

theorem isPrivate_iff {event : Event} :
    event.isPrivate = true ↔ event.classification = some .privateClass :=
  beq_iff_eq

/-- The text of the class in a calendar text: the content of the first CLASS directly inside its event, in
which the pairs of the value are undone already. -/
def classText? (text : String) : Option String :=
  ((Component.ofText? (ContentLine.unfoldPiecewise text.toList)).bind Component.event?).bind
    fun found ↦ (found.property? "CLASS").map fun property ↦ String.ofList property.content

/-- The class of an event is read from this text, and an event has none only where there is no text. -/
theorem classification_of_ofText {text : String} {event : Event} (h : ofText text = .ok event) :
    event.classification = (classText? text).map Classification.ofText := by
  obtain ⟨component, hcomponent, hheld⟩ := ofText_eq_ok_iff.1 h
  obtain ⟨found, hfound, rfl⟩ := Option.map_eq_some_iff.1 hheld
  rw [classText?, ContentLine.unfoldPiecewise_eq_unfold, hcomponent, Option.bind_some, hfound,
    Option.bind_some, ofComponent]
  simp only [Option.map_map, Function.comp_def]

theorem isPrivate_iff_of_class {event : Event} {shown : String}
    (h : event.classification = some (Classification.ofText shown)) :
    event.isPrivate = true ↔ EqIgnoringCase (trim shown.toList) "private".toList := by
  rw [isPrivate_iff, h, Option.some_inj, Classification.ofText_eq_privateClass_iff]

/-- An event that is read from a calendar text is private for the spellings of one word only, and not
without a class. -/
theorem isPrivate_iff_of_ofText {text : String} {event : Event} (h : ofText text = .ok event) :
    event.isPrivate = true ↔ ∃ shown, classText? text = some shown ∧
      EqIgnoringCase (trim shown.toList) "private".toList := by
  have hclass := classification_of_ofText h
  cases hshown : classText? text with
  | none =>
    rw [hshown, Option.map_none] at hclass
    simp [isPrivate_iff, hclass]
  | some shown =>
    rw [hshown, Option.map_some] at hclass
    simp [isPrivate_iff_of_class hclass]

end Event

/-- Reading a class brings its text into a normal form.  A class is read again from the text that it
shows, it is read alike from the spellings of one text and from no other texts, and no two classes that
are read show the same text.  No class of another name shows a spelling of a known name.  So the events
that are private are those whose class is spelled as one word, whether the class is read alone or in a
calendar text. -/
theorem Classification.ofText_canonicalises :
    (∀ text, ofText (ofText text).text = ofText text) ∧
    (∀ text other, ofText text = ofText other ↔ Text.SpelledAlike text.toList other.toList) ∧
    (∀ text name, ofText text = .other name → ∀ known ∈ ["PUBLIC", "PRIVATE", "CONFIDENTIAL"],
      ¬ Text.SpelledAlike name.toList known.toList) ∧
    Set.InjOn Classification.text (Set.range ofText) ∧
    (∀ text (event : Event), event.classification = some (ofText text) →
      (event.isPrivate = true ↔
        Text.EqIgnoringCase (Text.trim text.toList) "private".toList)) ∧
    ∀ text event, Event.ofText text = .ok event →
      (event.isPrivate = true ↔ ∃ shown, Event.classText? text = some shown ∧
        Text.EqIgnoringCase (Text.trim shown.toList) "private".toList) := by
  refine ⟨ofText_text_ofText, fun text other ↦ ofText_eq_ofText_iff, ?_, injOn_text, ?_, ?_⟩
  · exact fun text name hname known hknown ↦ not_spelledAlike_known hname hknown
  · exact fun text event hclass ↦ Event.isPrivate_iff_of_class hclass
  · exact fun text event hevent ↦ Event.isPrivate_iff_of_ofText hevent

/-- An event whose class stands between blanks that ASCII does not know. -/
def wideText : String :=
  "BEGIN:VEVENT\nCLASS:\u3000pRiVaTe\u2003\nEND:VEVENT\n"

/-- An event whose class has a private name of its own. -/
def ownEvent : Event :=
  { classification := some (Classification.ofText "x-private"), summary := none, narrative := none }

/-- The same class from two spellings, a class of another name whose event is not private, and an event
that is read as private. -/
theorem Classification.ofText_canonicalises_spellings :
    Text.SpelledAlike "\u3000pRiVaTe\u2003".toList "PRIVATE".toList ∧
    ofText "\u3000pRiVaTe\u2003" = ofText "PRIVATE" ∧
    ofText "x-private" = .other "X-PRIVATE" ∧
    ¬ Text.SpelledAlike "X-PRIVATE".toList "PRIVATE".toList ∧
    ownEvent.classification = some (ofText "x-private") ∧ ¬ ownEvent.isPrivate = true ∧
    ∃ event, Event.ofText wideText = .ok event ∧
      Event.classText? wideText = some "\u3000pRiVaTe\u2003" ∧ event.isPrivate = true := by
  obtain ⟨-, hspelled, hother, -, hprivate, hevent⟩ := ofText_canonicalises
  have halike : Text.SpelledAlike "\u3000pRiVaTe\u2003".toList "PRIVATE".toList :=
    ⟨"pRiVaTe".toList, "PRIVATE".toList,
      ⟨['\u3000'], ['\u2003'], List.forall_mem_singleton.2 (by decide),
        List.forall_mem_singleton.2 (by decide), rfl⟩,
      ⟨[], [], nofun, nofun, rfl⟩, by decide⟩
  have hname : ofText "x-private" = .other "X-PRIVATE" := by decide
  have hread : Event.ofText wideText =
      .ok { classification := some .privateClass, summary := none, narrative := none } := by
    decide +kernel
  have hshown : Event.classText? wideText = some "\u3000pRiVaTe\u2003" := by decide +kernel
  refine ⟨halike, (hspelled _ _).2 halike, hname, hother _ _ hname "PRIVATE" (by decide), rfl, ?_,
    _, hread, hshown, (hevent _ _ hread).2 ⟨_, hshown, by decide⟩⟩
  rw [hprivate "x-private" ownEvent rfl]
  decide

end CalendarCommand
