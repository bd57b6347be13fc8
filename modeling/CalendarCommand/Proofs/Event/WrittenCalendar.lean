import CalendarCommand.Proofs.Component.WrittenTree
import CalendarCommand.Proofs.Event.ChangedProperty
import CalendarCommand.Proofs.Text.Trimming

/-!
# Reading a written calendar

A calendar that is written as plain lines, each folded at a width of its own, is read as the component
that was written, and its event is read from the first child that is named `VEVENT`.  The reader always
finds the right property: nothing inside another component, and no second property of a name, has any
say in it.

What it makes of the value is another matter.  The grammar of components undoes the pairs of a value,
and the reader of events undoes the pairs of what is left a second time; a class, which is no escaped
text at all, is still read through the first of the two.  `ofValues` is the event that the written
values stand for, and `ReadsOnce` tells when it is the event that is read.
-/

namespace CalendarCommand

open ContentLine

/-! ## Classes -/

theorem toUpper_eq_backslash_iff (c : Char) : c.toUpper = '\\' ↔ c = '\\' := by
  constructor
  · intro h
    by_cases hc : c.toNat < 128
    · have hall : ∀ n : Fin 128, (Char.ofNat n).toUpper = '\\' → Char.ofNat n = '\\' := by decide
      have hn := hall ⟨c.toNat, hc⟩
      rw [Char.ofNat_toNat] at hn
      exact hn h
    · have hsame : c.toUpper = c := by
        apply dif_neg
        rintro ⟨-, hz⟩
        exact hc (Nat.lt_of_le_of_lt (UInt32.le_iff_toNat_le.1 hz) (by decide))
      exact hsame.symm.trans h
  · rintro rfl
    decide

namespace Classification

/-- The form in which the text of a class is compared. -/
def label (text : List Char) : List Char :=
  (Text.trim text).map Char.toUpper

/-- A class shows the text that names it, in the form in which it was compared. -/
theorem text_ofText (text : List Char) :
    (ofText (String.ofList text)).text = String.ofList (label text) := by
  have hlabel : label text = (Text.trim text).map Char.toUpper := rfl
  simp only [ofText, String.toList_ofList, ← hlabel]
  split_ifs with hpublic hprivate hconfidential
  · rw [hpublic, Classification.text, String.ofList_toList]
  · rw [hprivate, Classification.text, String.ofList_toList]
  · rw [hconfidential, Classification.text, String.ofList_toList]
  · rw [Classification.text]

theorem count_label (text : List Char) : (label text).count '\\' = text.count '\\' := by
  rw [← Text.count_trim (by decide) text, label]
  induction Text.trim text with
  | nil => rfl
  | cons c rest ih =>
    rw [List.map_cons, List.count_cons, List.count_cons, ih]
    simp only [beq_iff_eq, toUpper_eq_backslash_iff]

/-- Undoing the pairs of the text of a class leaves the class only where it leaves the text. -/
theorem ofText_unescapeWith_iff {isEscapable : Char → Bool} {text : List Char} :
    ofText (String.ofList (unescapeWith isEscapable text)) = ofText (String.ofList text) ↔
      unescapeWith isEscapable text = text := by
  constructor
  · intro h
    have hlabel := congrArg Classification.text h
    rw [text_ofText, text_ofText] at hlabel
    have hcount := congrArg (List.count '\\') (String.ofList_injective hlabel)
    rw [count_label, count_label] at hcount
    exact (unescapeWith_eq_self_or_count_lt isEscapable text).resolve_right (Nat.not_lt.2 hcount.ge)
  · intro h
    rw [h]

end Classification

/-! ## The event of a written component -/

/-- The text of a value stays the same when the pairs of a component value are undone first: no colon
stands behind a backslash that could escape it, and what the value stands for holds no pair. -/
def TextReadsOnce (value : List Char) : Prop :=
  unescapeWith Property.isValueMark value = unescape value ∧ PairFree (unescape value)

namespace Component

/-- The values of the component that make up an event are read as if their pairs were undone once, and
those of the class not at all. -/
structure ReadsOnce (component : Component) : Prop where
  classification : ∀ property, component.property? "CLASS" = some property →
    unescapeWith Property.isValueMark property.value = property.value
  summary : ∀ property, component.property? "SUMMARY" = some property →
    TextReadsOnce property.value
  narrative : ∀ property, component.property? "DESCRIPTION" = some property →
    TextReadsOnce property.value

end Component

namespace Event

/-- The event that the values of a component stand for: the class as it is written, and the summary and
the description with their pairs undone. -/
def ofValues (component : Component) : Event :=
  let text := fun name ↦ (component.property? name).map fun property ↦
    String.ofList (unescape property.value)
  { classification := (component.property? "CLASS").map fun property ↦
      Classification.ofText (String.ofList property.value)
    summary := text "SUMMARY"
    narrative := text "DESCRIPTION" }

end Event

theorem Item.IsPlain.of_property? {component : Component} (h : component.toItem.IsPlain)
    {name : String} {property : Property} (hproperty : component.property? name = some property) :
    property.IsPlain := by
  cases h with
  | component hname hitems =>
    obtain ⟨item, hitem, hkind⟩ := List.mem_filterMap.1 (List.mem_of_find?_eq_some hproperty)
    cases item with
    | property found =>
      cases hitems _ hitem with
      | property hplain => exact Option.some.inj hkind ▸ hplain
    | component name items => exact absurd hkind (by simp)

theorem map_eq_map_iff_forall {α β : Type} {f g : α → β} {option : Option α} :
    option.map f = option.map g ↔ ∀ a, option = some a → f a = g a := by
  cases option with
  | none => simp
  | some a => simp

/-- Reading the values of a name in two ways comes to the same when it does for the first of them. -/
theorem map_content_eq_iff {β : Type} {component : Component} (h : component.toItem.IsPlain)
    (name : String) (read : List Char → β) :
    ((component.property? name).map Property.content).map read =
        (component.property? name).map (fun property ↦ read property.value) ↔
      ∀ property, component.property? name = some property →
        read (unescapeWith Property.isValueMark property.value) = read property.value := by
  rw [Option.map_map, map_eq_map_iff_forall]
  refine forall₂_congr fun property hproperty ↦ ?_
  rw [Function.comp_apply, Property.content_of_parameters (h.of_property? hproperty).parameters_eq]

/-- The event that is read from a plain component is the one that its values stand for exactly when
undoing their pairs once more than they were written makes no difference. -/
theorem Event.ofComponent_eq_ofValues_iff {component : Component} (h : component.toItem.IsPlain) :
    ofComponent component = ofValues component ↔ component.ReadsOnce := by
  have hclass := map_content_eq_iff h "CLASS" fun value ↦
    Classification.ofText (String.ofList value)
  have htext (name : String) := map_content_eq_iff h name fun value ↦
    String.ofList (unescape value)
  simp only [Classification.ofText_unescapeWith_iff] at hclass
  simp only [String.ofList_inj, unescape_unescapeWith_eq_iff isValueMark_of_isTextMark]
    at htext
  rw [ofComponent, ofValues, Event.mk.injEq, hclass, htext, htext]
  exact ⟨fun hreads ↦ ⟨hreads.1, hreads.2.1, hreads.2.2⟩,
    fun hreads ↦ ⟨hreads.classification, hreads.summary, hreads.narrative⟩⟩

/-! ## The event of a written calendar -/

/-- The lines of a plain component, each folded at a width of its own, are read as the component. -/
theorem Component.ofText?_unfold_writeLines {terminator : Terminator}
    (hterminator : terminator ≠ .absent) {component : Component} (h : component.toItem.IsPlain)
    {lines : List (List Char × Nat)} (hlines : lines.map Prod.fst = component.logicalLines) :
    Component.ofText? (unfold (writeLines terminator lines)) = some component := by
  have hlogical : ∀ line ∈ lines, IsLogical line.1 := by
    intro line hline
    have hmem : line.1 ∈ component.logicalLines := by
      rw [← hlines]
      exact List.mem_map_of_mem hline
    exact (h.isNamedLine line.1 hmem).isLogical
  rw [(unfold_writeLines hterminator hlogical).1, hlines]
  exact Component.ofText?_terminated hterminator h

theorem Item.IsPlain.of_child {component child : Component} (h : component.toItem.IsPlain)
    (hchild : child ∈ component.children) : child.toItem.IsPlain := by
  cases h with
  | component hname hitems =>
    obtain ⟨item, hitem, hkind⟩ := List.mem_filterMap.1 hchild
    cases item with
    | property found => exact absurd hkind (by simp)
    | component name items => exact Option.some.inj hkind ▸ hitems _ hitem

/-- A written calendar is read as the event of its first child named `VEVENT`. -/
theorem Event.ofText_writeLines_eq {component : Component} (hplain : component.toItem.IsPlain)
    (hroot : component.name = "VCALENDAR".toList) {terminator : Terminator}
    (hterminator : terminator ≠ .absent) {lines : List (List Char × Nat)}
    (hlines : lines.map Prod.fst = component.logicalLines) :
    ofText (String.ofList (writeLines terminator lines)) =
      match component.children.find? fun child ↦ child.name == "VEVENT".toList with
      | none => .error .noEvent
      | some child => .ok (ofComponent child) := by
  have hread := Component.ofText?_unfold_writeLines hterminator hplain hlines
  have hevent := Component.event?_of_calendar hroot
  cases hfind : component.children.find? fun child ↦ child.name == "VEVENT".toList with
  | none => simp only [ofText, String.toList_ofList, unfoldPiecewise_eq_unfold, hread, hevent, hfind]
  | some child =>
    simp only [ofText, String.toList_ofList, unfoldPiecewise_eq_unfold, hread, hevent, hfind]

/-- The first child of a name is the one with no other child of the name in front of it. -/
theorem find?_child {children before after : List Component} {child : Component}
    {name : List Char} (hchildren : children = before ++ child :: after)
    (hbefore : ∀ other ∈ before, other.name ≠ name) (hchild : child.name = name) :
    (children.find? fun child ↦ child.name == name) = some child := by
  have hskip : (before.find? fun child ↦ child.name == name) = none := by
    rw [List.find?_eq_none]
    simpa using hbefore
  rw [hchildren, List.find?_append, hskip, Option.none_or]
  exact List.find?_cons_of_pos (by rw [hchild, beq_self_eq_true])

/-- A written calendar without a child named `VEVENT` is read as none, and any other one as the event of
its first such child; the event is the one that the written values stand for exactly when undoing their
pairs once more than they were written makes no difference. -/
theorem Event.ofText_writeLines (component : Component) (hplain : component.toItem.IsPlain)
    (hroot : component.name = "VCALENDAR".toList) (terminator : Terminator)
    (hterminator : terminator ≠ .absent) (lines : List (List Char × Nat))
    (hlines : lines.map Prod.fst = component.logicalLines) :
    ((∀ child ∈ component.children, child.name ≠ "VEVENT".toList) →
      ofText (String.ofList (writeLines terminator lines)) = .error .noEvent) ∧
    ∀ before child after, component.children = before ++ child :: after →
      (∀ other ∈ before, other.name ≠ "VEVENT".toList) → child.name = "VEVENT".toList →
      ofText (String.ofList (writeLines terminator lines)) = .ok (ofComponent child) ∧
        (ofText (String.ofList (writeLines terminator lines)) = .ok (ofValues child) ↔
          child.ReadsOnce) := by
  have htext := ofText_writeLines_eq hplain hroot hterminator hlines
  constructor
  · intro hnone
    have hfind : (component.children.find? fun child ↦ child.name == "VEVENT".toList) = none := by
      rw [List.find?_eq_none]
      simpa using hnone
    rw [htext, hfind]
  · intro before child after hchildren hbefore hchild
    have hchildPlain : child.toItem.IsPlain :=
      hplain.of_child (by rw [hchildren]; exact List.mem_append_right _ List.mem_cons_self)
    rw [htext, find?_child hchildren hbefore hchild]
    refine ⟨rfl, ?_⟩
    rw [← ofComponent_eq_ofValues_iff hchildPlain]
    exact ⟨Except.ok.inj, congrArg Except.ok⟩

/-! ## Two calendars -/

def line (name value : String) : Item :=
  .property { name := name.toList, parameters := [], value := value.toList }

theorem isPlain_line {name value : String} (h : IsPlainName name.toList ∧
    (name.toList ≠ "BEGIN".toList ∧ name.toList ≠ "END".toList) ∧ BreakFree value.toList) :
    (line name value).IsPlain :=
  .property ⟨h.1, h.2.1, rfl, h.2.2⟩

/-- An event with an alarm that has a description of its own. -/
def alarmEvent : Component :=
  { name := "VEVENT".toList
    items := [.component "VALARM".toList [line "DESCRIPTION" "ring"], line "CLASS" "private",
      line "SUMMARY" "share-read", line "DESCRIPTION" "shared\\, by\\nrequest",
      line "DESCRIPTION" "again"] }

/-- A calendar with a task in front of its event. -/
def alarmCalendar : Component :=
  { name := "VCALENDAR".toList
    items := [.component "VTODO".toList [line "SUMMARY" "task"], alarmEvent.toItem] }

theorem isPlain_alarmCalendar : alarmCalendar.toItem.IsPlain := by
  have halarm : ∀ item ∈ [line "DESCRIPTION" "ring"], item.IsPlain :=
    List.forall_mem_singleton.2 (isPlain_line (by decide))
  have htask : ∀ item ∈ [line "SUMMARY" "task"], item.IsPlain :=
    List.forall_mem_singleton.2 (isPlain_line (by decide))
  have hevent : ∀ item ∈ alarmEvent.items, item.IsPlain :=
    List.forall_mem_cons.2 ⟨.component (by decide) halarm,
      List.forall_mem_cons.2 ⟨isPlain_line (by decide),
        List.forall_mem_cons.2 ⟨isPlain_line (by decide),
          List.forall_mem_cons.2 ⟨isPlain_line (by decide),
            List.forall_mem_singleton.2 (isPlain_line (by decide))⟩⟩⟩⟩
  exact .component (by decide) (List.forall_mem_cons.2 ⟨.component (by decide) htask,
    List.forall_mem_singleton.2 (.component (by decide) hevent)⟩)

theorem readsOnce_alarmEvent : alarmEvent.ReadsOnce where
  classification property h := by
    have hproperty : alarmEvent.property? "CLASS" =
        some { name := "CLASS".toList, parameters := [], value := "private".toList } := by rfl
    rw [← Option.some.inj (hproperty.symm.trans h)]
    decide
  summary property h := by
    have hproperty : alarmEvent.property? "SUMMARY" =
        some { name := "SUMMARY".toList, parameters := [], value := "share-read".toList } := by rfl
    rw [← Option.some.inj (hproperty.symm.trans h)]
    exact ⟨by decide, unescape_eq_self_iff.1 (by decide)⟩
  narrative property h := by
    have hproperty : alarmEvent.property? "DESCRIPTION" =
        some { name := "DESCRIPTION".toList, parameters := [],
               value := "shared\\, by\\nrequest".toList } := by rfl
    rw [← Option.some.inj (hproperty.symm.trans h)]
    exact ⟨by decide, unescape_eq_self_iff.1 (by decide)⟩

/-- Folded after every fifth character, the calendar is read as its event. -/
theorem Event.ofText_writeLines_alarmCalendar :
    ∃ lines : List (List Char × Nat), alarmCalendar.toItem.IsPlain ∧
      alarmCalendar.name = "VCALENDAR".toList ∧ Terminator.lf ≠ .absent ∧
      lines.map Prod.fst = alarmCalendar.logicalLines ∧ (∀ line ∈ lines, line.2 = 5) ∧
      ofText (String.ofList (writeLines .lf lines)) =
        .ok { classification := some .privateClass, summary := some "share-read"
              narrative := some "shared, by\nrequest" } := by
  let lines := alarmCalendar.logicalLines.map fun line ↦ (line, 5)
  have hlines : lines.map Prod.fst = alarmCalendar.logicalLines := by
    rw [List.map_map]
    exact List.map_id' _
  have hwidth : ∀ line ∈ lines, line.2 = 5 := by
    intro line hline
    obtain ⟨logical, -, rfl⟩ := List.mem_map.1 hline
    rfl
  have hevent := (ofText_writeLines alarmCalendar isPlain_alarmCalendar rfl .lf (by decide) lines
    hlines).2 [{ name := "VTODO".toList, items := [line "SUMMARY" "task"] }] alarmEvent [] rfl
    (by decide) rfl
  refine ⟨lines, isPlain_alarmCalendar, rfl, by decide, hlines, hwidth, ?_⟩
  rw [hevent.2.2 readsOnce_alarmEvent]
  decide

/-- An event whose summary names the directory `C:\new`, with its backslash escaped. -/
def directoryEvent : Component :=
  { name := "VEVENT".toList, items := [line "SUMMARY" "C:\\\\new"] }

def directoryCalendar : Component :=
  { name := "VCALENDAR".toList, items := [directoryEvent.toItem] }

/-- Written and read again, the name of the directory has a line break in it. -/
theorem Event.ofText_writeLines_directoryCalendar :
    directoryCalendar.toItem.IsPlain ∧ directoryCalendar.children = [directoryEvent] ∧
      ofValues directoryEvent =
        { classification := none, summary := some "C:\\new", narrative := none } ∧
      ofText (String.ofList (writeLines .crlf
          (directoryCalendar.logicalLines.map fun line ↦ (line, 75)))) =
        .ok { classification := none, summary := some "C:\new", narrative := none } := by
  have hevent : directoryEvent.toItem.IsPlain :=
    .component (by decide) (List.forall_mem_singleton.2 (isPlain_line (by decide)))
  have hplain : directoryCalendar.toItem.IsPlain :=
    .component (by decide) (List.forall_mem_singleton.2 hevent)
  have hlines : (directoryCalendar.logicalLines.map fun line ↦ (line, 75)).map Prod.fst =
      directoryCalendar.logicalLines := by
    rw [List.map_map]
    exact List.map_id' _
  refine ⟨hplain, rfl, by decide, ?_⟩
  rw [ofText_writeLines_eq hplain rfl (by decide) hlines]
  decide

end CalendarCommand
