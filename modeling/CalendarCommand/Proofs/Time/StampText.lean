import Mathlib.Data.List.Basic
import CalendarCommand.Time.Stamp
import CalendarCommand.Proofs.Time.PatternGrammar

/-!
# The text of a stamp

A stamp has no carriage return of its own: numbers, names and the fixed characters of directives
are free of it.  A carriage return in a stamp is therefore a character of its format.

A format that can be read gives a stamp unless it names the time zone, and whether it does has nothing
to do with the time that is stamped.
-/

namespace CalendarCommand

namespace Stamp

/-! ## Written fields -/

theorem cr_notMem_digits (n : Nat) : '\r' ∉ digits n := by
  intro h
  have hdigit := Nat.isDigit_of_mem_toDigits (by decide) (by decide) h
  exact absurd hdigit (by decide)

theorem cr_notMem_fill {c : Char} {text : List Char} (hc : c ≠ '\r') (htext : '\r' ∉ text)
    (places : Nat) : '\r' ∉ fill c places text := by
  rw [fill, List.mem_append, not_or]
  exact ⟨fun h ↦ hc (List.eq_of_mem_replicate h).symm, htext⟩

theorem cr_notMem_signOf (showsPlus : Bool) (value : Int) : '\r' ∉ signOf showsPlus value := by
  unfold signOf
  split_ifs <;> decide

theorem cr_notMem_writeNumber {sign : List Char} (hsign : '\r' ∉ sign) (padding : Padding)
    (places n : Nat) : '\r' ∉ writeNumber padding places sign n := by
  have hdigits := cr_notMem_digits n
  have hsigned : '\r' ∉ sign ++ digits n := by simp [hsign, hdigits]
  cases padding with
  | bare => exact hsigned
  | zeros =>
    have hfill := cr_notMem_fill (c := '0') (by decide) hdigits (places - sign.length)
    rw [writeNumber, List.mem_append, not_or]
    exact ⟨hsign, hfill⟩
  | spaces => exact cr_notMem_fill (by decide) hsigned places

theorem cr_notMem_writeYear (padding : Padding) (year : Int) : '\r' ∉ writeYear padding year := by
  unfold writeYear
  split_ifs
  · exact cr_notMem_writeNumber List.not_mem_nil padding 4 _
  · exact cr_notMem_writeNumber (cr_notMem_signOf true year) padding 5 _

theorem digitChar_ne_cr (digit : Nat) : digitChar digit ≠ '\r' := by
  intro h
  by_cases hvalid : (48 + digit).isValidChar
  · rw [digitChar, Char.ofNat, dif_pos hvalid] at h
    have hvalue : 48 + digit = 13 := congrArg Char.toNat h
    omega
  · rw [digitChar, Char.ofNat, dif_neg hvalid] at h
    exact absurd h (by decide)

theorem cr_notMem_writePair (padding : Padding) (n : Nat) : '\r' ∉ writePair padding n := by
  have hdigit (digit : Nat) : '\r' ∉ [digitChar digit] := by simpa using (digitChar_ne_cr digit).symm
  unfold writePair
  dsimp only
  rw [List.mem_append, not_or]
  refine ⟨?_, hdigit _⟩
  split
  · exact List.not_mem_nil
  · decide
  · exact hdigit _

theorem cr_notMem_writeField (time : DateTime) (padding : Padding) (field : NumberField) :
    '\r' ∉ writeField time padding field := by
  have hdigit (digit : Nat) : '\r' ∉ [digitChar digit] := by simpa using (digitChar_ne_cr digit).symm
  cases field with
  | year => exact cr_notMem_writeYear padding _
  | weekYear => exact cr_notMem_writeYear padding _
  | quarter => exact hdigit _
  | weekdayFromSunday => exact hdigit _
  | weekdayFromMonday => exact hdigit _
  | dayOfYear => exact cr_notMem_writeNumber List.not_mem_nil padding 3 _
  | nanosecond => exact cr_notMem_writeNumber List.not_mem_nil padding 9 _
  | unixSeconds => exact cr_notMem_writeNumber (cr_notMem_signOf false _) padding 9 _
  | _ => exact cr_notMem_writePair padding _

theorem cr_notMem_nameAt (names : List String) (hnames : ∀ name ∈ names, '\r' ∉ name.toList)
    (place : Nat) : '\r' ∉ nameAt names place := by
  rw [nameAt, List.getD_eq_getElem?_getD]
  cases hname : names[place]? with
  | none => decide
  | some name => exact hnames name (List.mem_of_getElem? hname)

theorem cr_notMem_writeName (time : DateTime) (field : NameField) :
    '\r' ∉ writeName time field := by
  have hweekday := cr_notMem_nameAt weekdayNames (by decide)
  have hmonth := cr_notMem_nameAt monthNames (by decide)
  cases field with
  | weekday => exact hweekday _
  | shortWeekday => exact fun h ↦ hweekday _ (List.mem_of_mem_take h)
  | month => exact hmonth _
  | shortMonth => exact fun h ↦ hmonth _ (List.mem_of_mem_take h)
  | half =>
    simp only [writeName]
    split_ifs <;> simp
  | smallHalf =>
    simp only [writeName]
    split_ifs <;> simp

theorem cr_notMem_writeGroups (groups nanosecond : Nat) :
    '\r' ∉ writeGroups groups nanosecond :=
  fun h ↦ cr_notMem_fill (by decide) (cr_notMem_digits nanosecond) 9 (List.mem_of_mem_take h)

/-- A part of a pattern that is no carriage return itself writes none. -/
theorem cr_notMem_writeItem? {time : DateTime} {item : PatternItem} {text : List Char}
    (hitem : item ≠ .literal '\r') (h : writeItem? time item = some text) : '\r' ∉ text := by
  cases item with
  | literal c =>
    have hc : c ≠ '\r' := fun hc ↦ hitem (congrArg _ hc)
    rw [← Option.some.inj h]
    simpa using hc.symm
  | number field padding =>
    rw [← Option.some.inj h]
    exact cr_notMem_writeField time padding field
  | name field =>
    rw [← Option.some.inj h]
    exact cr_notMem_writeName time field
  | shortFraction =>
    have hgroups := fun groups ↦ cr_notMem_writeGroups groups time.subsecond
    rw [← Option.some.inj h, writeShortFraction]
    split_ifs <;> simp [hgroups]
  | fraction point groups =>
    have hgroups := cr_notMem_writeGroups groups time.subsecond
    rw [← Option.some.inj h]
    cases point <;> simp [hgroups]
  | zone => exact absurd h (by simp [writeItem?])

end Stamp

/-! ## Patterns -/

theorem Pattern.literal_cr_notMem_ofLetter? {letter : Char} {items : Pattern}
    (h : Pattern.ofLetter? letter = some items) : PatternItem.literal '\r' ∉ items := by
  unfold Pattern.ofLetter? at h
  split at h <;> cases h <;> decide

theorem Pattern.literal_cr_notMem_ofPaddedLetter? {padding : Padding} {letter : Char}
    {items : Pattern} (h : Pattern.ofPaddedLetter? padding letter = some items) :
    PatternItem.literal '\r' ∉ items := by
  unfold Pattern.ofPaddedLetter? at h
  split at h <;> cases h
  simp

theorem Pattern.Directive.literal_cr_notMem {part : List Char} {items : Pattern}
    (h : Pattern.Directive part items) (hpart : '\r' ∉ part) : PatternItem.literal '\r' ∉ items := by
  cases h with
  | plain hc => simpa using hpart
  | letter hitems => exact literal_cr_notMem_ofLetter? hitems
  | bare hitems => exact literal_cr_notMem_ofPaddedLetter? hitems
  | zeros hitems => exact literal_cr_notMem_ofPaddedLetter? hitems
  | spaces hitems => exact literal_cr_notMem_ofPaddedLetter? hitems
  | offset hoffset => decide
  | fraction hfraction =>
    have hnone : ∀ form ∈ fractionForms, PatternItem.literal '\r' ≠ form.2 := by decide
    simpa using hnone _ hfraction

theorem Pattern.literal_cr_notMem {format : List Char} {pattern : Pattern}
    (hformat : '\r' ∉ format) (h : Pattern.ofText? format = some pattern) :
    PatternItem.literal '\r' ∉ pattern := by
  induction denotes_of_ofText? h with
  | nil => exact List.not_mem_nil
  | cons hpart hrest ih =>
    rw [List.mem_append, not_or] at hformat ⊢
    exact ⟨hpart.literal_cr_notMem hformat.1, ih hformat.2 hrest.ofText?_eq⟩

theorem DateTime.cr_notMem_write? {time : DateTime} {pattern : Pattern} {text : List Char}
    (hpattern : PatternItem.literal '\r' ∉ pattern) (h : time.write? pattern = some text) :
    '\r' ∉ text := by
  induction pattern generalizing text with
  | nil =>
    rw [← Option.some.inj h]
    exact List.not_mem_nil
  | cons item pattern ih =>
    simp only [List.mem_cons, not_or] at hpattern
    obtain ⟨written, hwritten, hmore⟩ := Option.bind_eq_some_iff.1 h
    obtain ⟨rest, hrest, hwhole⟩ := Option.map_eq_some_iff.1 hmore
    rw [← hwhole, List.mem_append, not_or]
    exact ⟨Stamp.cr_notMem_writeItem? (Ne.symm hpattern.1) hwritten, ih hpattern.2 hrest⟩

/-- A format without carriage returns gives a stamp without them. -/
theorem DateTime.cr_notMem_stamp? {time : DateTime} {format stamp : String}
    (hformat : '\r' ∉ format.toList) (h : time.stamp? format = some stamp) :
    '\r' ∉ stamp.toList := by
  obtain ⟨pattern, hpattern, hwritten⟩ := Option.bind_eq_some_iff.1 h
  obtain ⟨text, htext, rfl⟩ := Option.map_eq_some_iff.1 hwritten
  rw [String.toList_ofList]
  exact cr_notMem_write? (Pattern.literal_cr_notMem hformat hpattern) htext

/-! ## Formats that give a stamp -/

theorem Stamp.writeItem?_isSome_iff (time : DateTime) (item : PatternItem) :
    (writeItem? time item).isSome ↔ item ≠ .zone := by
  cases item <;> simp [writeItem?]

/-- A pattern can be written out unless it has something of the zone. -/
theorem DateTime.write?_isSome_iff (time : DateTime) (pattern : Pattern) :
    (time.write? pattern).isSome ↔ PatternItem.zone ∉ pattern := by
  induction pattern with
  | nil => exact iff_of_true rfl List.not_mem_nil
  | cons item pattern ih =>
    have hitem := Stamp.writeItem?_isSome_iff time item
    rw [write?, List.mem_cons, not_or, ← ih, ← ne_eq, ne_comm, ← hitem]
    cases Stamp.writeItem? time item with
    | none => simp
    | some text => simp

/-- A format gives a stamp when it denotes a pattern and does not name the zone. -/
theorem DateTime.stamp?_isSome_iff (time : DateTime) (format : String) :
    (time.stamp? format).isSome ↔
      (Pattern.ofText? format.toList).isSome ∧ ¬ Pattern.NamesZone format.toList := by
  rw [stamp?]
  cases hpattern : Pattern.ofText? format.toList with
  | none => simp
  | some pattern =>
    rw [← (Pattern.denotes_of_ofText? hpattern).zone_mem_iff, ← time.write?_isSome_iff]
    simp

end CalendarCommand
