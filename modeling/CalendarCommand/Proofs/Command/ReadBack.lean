import CalendarCommand.Proofs.Command.Handling
import CalendarCommand.Proofs.Component.MeetingLine
import CalendarCommand.Proofs.ContentLine.SpanLine
import CalendarCommand.Proofs.Event.ChangedProperty

/-!
# Reading back what has been stored

The splice looks for a DESCRIPTION among physical lines, the reader of events among the properties of
the first `VEVENT`.  A text that is stored with a new narrative reads as the event with that narrative
exactly where the two have found the same property.
-/

namespace CalendarCommand

open Scan ContentLine

/-- The event shows the value in the lines that a splice replaces.  The reader comes to these lines
directly inside the event, before any other DESCRIPTION there, and the value ends where they end. -/
def ShowsSpan (text : List Char) : Prop :=
  ∃ (before span after : List Char) (outer : List Frame) (frame : Frame) (gap : List Char),
    DescriptionFrame text before span after ∧
    Reading.ComesFrom ⟨outer, frame, gap ++ (unfold span ++ unfold after)⟩ (unfold text) ∧
    (∀ c ∈ gap, isGap c = true) ∧ InEvent outer frame ∧ ¬ frame.HasProperty descriptionName ∧
    EndsValue (closingTerminator span) (unfold after)

/-- The properties that begin in front of the lines that a splice replaces, or with them, have
parameters that end in their lines. -/
def ClosedUpToSpan (text : List Char) : Prop :=
  ∀ before span after start, DescriptionFrame text before span after →
    Reading.start? (unfold text) = some start → start.ClosedUpTo (unfold span ++ unfold after)

theorem ClosedUpToSpan.of_notMem {text : List Char} (h : ';' ∉ unfold text) :
    ClosedUpToSpan text := by
  intro before span after start _ hstart
  obtain ⟨tail, hbegin, rfl⟩ := Option.map_eq_some_iff.1 hstart
  apply Reading.ClosedUpTo.of_notMem
  exact fun hmem ↦ h ((skipLineEnds_suffix _).subset
    ((suffix_of_dropMatching? hbegin).subset ((List.dropWhile_suffix _).subset hmem)))

namespace ContentLine.DescriptionFrame

variable {text before span after : List Char}

theorem stopsLine (h : DescriptionFrame text before span after) :
    Reading.StopsLine ((closingTerminator span).text ++ unfold after) := by
  by_cases hafter : after = []
  · rw [hafter]
    cases closingTerminator span with
    | absent => exact .inl rfl
    | crlf => exact .inr (.inr ⟨[], rfl⟩)
    | lf => exact .inr (.inl ⟨[], rfl⟩)
  · have hclosing := h.closingTerminator_ne_absent hafter
    cases hterminator : closingTerminator span with
    | absent => exact absurd hterminator hclosing
    | crlf => exact .inr (.inr ⟨unfold after, rfl⟩)
    | lf => exact .inr (.inl ⟨unfold after, rfl⟩)

theorem isDescriptionLine (narrative : List Char) :
    IsDescriptionLine (descriptionName ++ ':' :: escape narrative) := by
  obtain ⟨hlf, hcr⟩ := break_notMem_descriptionLine narrative
  refine ⟨⟨hcr, hlf⟩, .inl ⟨escape narrative, ?_⟩⟩
  rw [List.append_assoc]
  rfl

/-- The components of a text and of the text with another narrative differ in the property that takes
up the span, which the reader meets once. -/
theorem exists_exchange (h : DescriptionFrame text before span after) (hcr : CrBeforeLf text)
    (hclosed : ClosedUpToSpan text) {component : Component}
    (hcomponent : Component.ofText? (unfold text) = some component) (narrative : List Char) :
    ∃ (next : Reading) (p q : Property) (added : List Item) (adds : List (List Item)),
      Reading.ComesFrom (next.followedBy (unfold span ++ unfold after)) (unfold text) ∧
      (∀ other : Reading, other.AtLine →
        Reading.ComesFrom (other.followedBy (unfold span ++ unfold after)) (unfold text) →
          other = next) ∧
      next.Exchange ((closingTerminator span).text ++ unfold after) (escape narrative) p q ∧
      closingTerminator span ≠ .absent ∧
      component = rebuild next.outer (next.frame.push (.property p)) added adds ∧
      Component.ofText? (unfold before ++ replacementLine narrative (closingTerminator span) ++
        unfold after) = some (rebuild next.outer (next.frame.push (.property q)) added adds) := by
  obtain ⟨line, hspan, hfree, hopens⟩ := h.exists_line hcr
  let tail := (closingTerminator span).text ++ unfold after
  have hold : IsDescriptionLine line := ⟨hfree, hopens⟩
  have hnew := isDescriptionLine narrative
  have hrest : unfold span ++ unfold after = line ++ tail := by rw [hspan, List.append_assoc]
  have htext : unfold text = unfold before ++ (line ++ tail) := by
    rw [h.unfold_text, List.append_assoc, hrest]
  have hother : unfold before ++ replacementLine narrative (closingTerminator span) ++
      unfold after = unfold before ++ (descriptionName ++ ':' :: escape narrative ++ tail) := by
    rw [replacementLine, List.append_assoc, List.append_assoc]
    rfl
  obtain ⟨start, hstart, hbody⟩ := Reading.ofText?_eq_some_iff.1 hcomponent
  have hclosedStart := hclosed before span after start h hstart
  rw [htext] at hstart ⊢
  rw [hrest] at hclosedStart ⊢
  obtain ⟨first, hwhole, hfirst⟩ := Reading.exists_start h.before_ends.unfold hold
    (by rw [hstart]; simp)
  obtain rfl := Option.some.inj ((hfirst line hold).symm.trans hstart)
  obtain ⟨next, p, q, added, adds, hreach, hexchange, hne, hp, hq⟩ :=
    Reading.exists_exchange hwhole hold h.stopsLine hbody hclosedStart hnew
  refine ⟨next, p, q, added, adds, ⟨_, hstart, hreach⟩, ?_, hexchange, ?_, hp, ?_⟩
  · rintro other hline ⟨begun, hbegun, hcomes⟩
    obtain rfl := Option.some.inj (hstart.symm.trans hbegun)
    exact Reading.meeting_unique hold h.stopsLine hbody hclosedStart hcomes hreach (.inl hline)
      hexchange.meets
  · intro habsent
    have hafter : after = [] := by
      by_contra hafter
      exact h.closingTerminator_ne_absent hafter habsent
    rw [habsent, hafter] at hne
    exact hne rfl
  · rw [hother]
    exact Reading.ofText?_eq_some_iff.2 ⟨_, hfirst _ hnew, hq⟩

/-- The event shows the span where the one meeting of the reader with the span is inside the event. -/
theorem showsSpan_iff (h : DescriptionFrame text before span after) {next : Reading}
    (hcomes : Reading.ComesFrom (next.followedBy (unfold span ++ unfold after)) (unfold text))
    (hunique : ∀ other : Reading, other.AtLine →
      Reading.ComesFrom (other.followedBy (unfold span ++ unfold after)) (unfold text) →
        other = next) :
    ShowsSpan text ↔ next.AtLine ∧ InEvent next.outer next.frame ∧
      ¬ next.frame.HasProperty descriptionName ∧
      EndsValue (closingTerminator span) (unfold after) := by
  constructor
  · rintro ⟨before', span', after', outer, frame, gap, hframe, hother, hgap, hin, hfirst, hends⟩
    obtain ⟨rfl, rfl, rfl⟩ := h.unique hframe
    obtain rfl := hunique ⟨outer, frame, gap⟩ hgap hother
    exact ⟨hgap, hin, hfirst, hends⟩
  · rintro ⟨hline, hin, hfirst, hends⟩
    exact ⟨before, span, after, next.outer, next.frame, next.text, h, hcomes, hline, hin, hfirst,
      hends⟩

end ContentLine.DescriptionFrame

/-- An escaped text in front of a line end reads as the text where a value ends with the line. -/
theorem Property.reading_escape_iff {terminator : Terminator} (hterminator : terminator ≠ .absent)
    {rest : List Char} {narrative : String} (hfree : PairFree narrative.toList)
    (hcr : EndsValue terminator rest → '\r' ∉ narrative.toList) (name : List Char) :
    reading { name, parameters := []
              value := escape narrative.toList ++ (readValue (terminator.text ++ rest)).1 } =
        narrative ↔ EndsValue terminator rest := by
  constructor
  · intro hreading
    by_contra hends
    have hlf := lf_mem_readValue hterminator hends
    have hvalue : escape narrative.toList ++ (readValue (terminator.text ++ rest)).1 =
        [] ++ (escape narrative.toList ++ (readValue (terminator.text ++ rest)).1) := rfl
    exact reading_ne hvalue (.inl rfl) (.inr hlf) hreading
  · intro hends
    rw [hends.readValue, List.append_nil]
    exact reading_escape (hcr hends) hfree name

/-- A text with another narrative spliced into it reads as the event with that narrative exactly
where the event shows the lines that were replaced. -/
theorem Event.ofText_splice_iff {text block : String} {event : Event}
    (hread : Event.ofText text = .ok event) (hcr : CrBeforeLf text.toList)
    (hclosed : ClosedUpToSpan text.toList) {narrative : String} {width : Nat}
    (hsplice : spliceDescription text.toList narrative.toList width = some block.toList)
    (hother : event.narrative ≠ some narrative) (hfree : PairFree narrative.toList)
    (hkeeps : ∀ old, event.narrative = some old → '\r' ∉ old.toList → '\r' ∉ narrative.toList) :
    Event.ofText block = .ok { event with narrative := some narrative } ↔
      ShowsSpan text.toList := by
  obtain ⟨before, span, after, hframe⟩ := exists_frame_of_spliceDescription hsplice
  have hout := Option.some.inj (hsplice.symm.trans (hframe.spliceDescription_eq _ _))
  obtain ⟨component, hcomponent, hheld⟩ := Event.ofText_eq_ok_iff.1 hread
  obtain ⟨next, p, q, added, adds, hcomes, hunique, hexchange, hterminator, hp, hq⟩ :=
    hframe.exists_exchange hcr hclosed hcomponent narrative.toList
  rw [hp] at hheld
  have hblock : Event.ofText block = .ok { event with narrative := some narrative } ↔
      (rebuild next.outer (next.frame.push (.property q)) added adds).heldEvent? =
        some { event with narrative := some narrative } := by
    rw [Event.ofText_eq_ok_iff, hout, hframe.unfold_replacement, hq]
    simp
  rw [hblock, heldEvent?_rebuild_iff hexchange.name_eq hheld hother,
    hframe.showsSpan_iff hcomes hunique]
  cases hexchange with
  | @atLine hline parameters content hcontent =>
    have hreading (hin : InEvent next.outer next.frame)
        (hfirst : ¬ next.frame.HasProperty descriptionName) :
        Property.reading { name := descriptionName, parameters := []
                           value := escape narrative.toList ++
                            (readValue ((closingTerminator span).text ++ unfold after)).1 } =
          narrative ↔ EndsValue (closingTerminator span) (unfold after) := by
      apply Property.reading_escape_iff hterminator hfree
      intro hends
      have hold := narrative_eq_reading hin hfirst rfl hheld
      rw [hends.readValue, List.append_nil] at hold
      exact hkeeps _ hold (Property.cr_notMem_reading hcontent.1)
    constructor
    · rintro ⟨⟨hin, hfirst, -⟩, hshown⟩
      exact ⟨hline, hin, hfirst, (hreading hin hfirst).1 hshown⟩
    · rintro ⟨-, hin, hfirst, hends⟩
      exact ⟨⟨hin, hfirst, rfl⟩, (hreading hin hfirst).2 hends⟩
  | @within hgap hruns name parameters lead hlead line =>
    -- The span lies inside the value of a property that begins in front of it.
    constructor
    · rintro ⟨-, hreading⟩
      have hvalue : lead ++ (descriptionName ++ ':' :: escape narrative.toList ++
          (readValue ((closingTerminator span).text ++ unfold after)).1) =
            (lead ++ descriptionName ++ [':']) ++ (escape narrative.toList ++
              (readValue ((closingTerminator span).text ++ unfold after)).1) := by simp
      have hbreak : '\n' ∈ lead ++ descriptionName ++ [':'] :=
        List.mem_append_left _ (List.mem_append_left _ hlead)
      exact absurd hreading (Property.reading_ne hvalue (.inr ⟨_, rfl⟩) (.inl hbreak))
    · rintro ⟨hline, -⟩
      obtain ⟨c, hc, hno⟩ := hgap
      rw [hline c hc] at hno
      exact absurd hno (by simp)

namespace Engine

variable {engine : Engine} {now : DateTime} {event : Event}

theorem of_ofSettings {settings : Settings} (h : ofSettings settings = .ok engine) :
    engine.registry.ReportsNoCr ∧ engine.timestampFormat = settings.timestampFormat := by
  cases hvalid : settings.validate with
  | error fault => simp [ofSettings, hvalid, Except.map] at h
  | ok =>
    rw [ofSettings, hvalid] at h
    rw [← Except.ok.inj h]
    exact ⟨Registry.reportsNoCr_ofBuiltins _, rfl⟩

/-- A stored text with a new narrative reads as the event that the engine reports exactly where the
event shows the lines that were replaced. -/
theorem ofText_replaced_iff {settings : Settings} (hengine : ofSettings settings = .ok engine)
    (hformat : '\r' ∉ settings.timestampFormat.toList) {text : String}
    (hcr : CrBeforeLf text.toList) (hclosed : ClosedUpToSpan text.toList) {command block : String}
    {shown : Option String}
    (h : engine.handleText now text = .ok (event, .applied command shown (.replaced block)))
    (hfree : ∀ narrative, event.narrative = some narrative → PairFree narrative.toList) :
    Event.ofText block = .ok event ↔ ShowsSpan text.toList := by
  obtain ⟨read, narrative, stamp, report, hread, happend, rfl, hsplice⟩ :=
    exists_appends_of_replaced h
  obtain ⟨hreports, htimestamp⟩ := of_ofSettings hengine
  rw [← htimestamp] at hformat
  apply Event.ofText_splice_iff hread hcr hclosed hsplice
  · rw [happend.narrative_eq]
    intro hsame
    have hlonger := append_updateRecord_ne narrative stamp report ""
    rw [String.append_empty] at hlonger
    exact hlonger (Option.some.inj hsame).symm
  · exact hfree _ rfl
  · intro old hold hnarrative
    obtain rfl := Option.some.inj (happend.narrative_eq.symm.trans hold)
    exact happend.cr_notMem hformat hreports hnarrative

/-- The built-in commands with the default settings, except for the format of the stamps. -/
def withFormat (format : String) : Engine :=
  ofRegistry (Registry.ofBuiltins "") { Settings.default with timestampFormat := format }

/-- The private event that asks for a calendar to be shared. -/
def shareEvent (narrative : String) : Event :=
  { classification := some .privateClass, summary := some "share-read", narrative := some narrative }

/-- An event with an alarm behind its own DESCRIPTION. -/
def alarmText : String :=
  "BEGIN:VEVENT\nCLASS:PRIVATE\nSUMMARY:share-read\nDESCRIPTION:no\n te\nBEGIN:VALARM\n" ++
    "DESCRIPTION:ring\nEND:VALARM\nEND:VEVENT\n"

/-- The event shows its own DESCRIPTION, and not the one of the alarm. -/
theorem ofText_replaced_iff_alarm :
    ∃ (settings : Settings) (engine : Engine) (event : Event) (block : String),
      ofSettings settings = .ok engine ∧ '\r' ∉ settings.timestampFormat.toList ∧
      CrBeforeLf alarmText.toList ∧ ClosedUpToSpan alarmText.toList ∧
      engine.handleText DateTime.epoch alarmText =
        .ok (event, .applied "share-read" event.narrative (.replaced block)) ∧
      (∀ narrative, event.narrative = some narrative → PairFree narrative.toList) ∧
      Event.ofText block = .ok event ∧ ShowsSpan alarmText.toList := by
  let narrative := "note\n\n======= update (now) =======\nCalendar shared with read access"
  let event := shareEvent narrative
  let block := "BEGIN:VEVENT\nCLASS:PRIVATE\nSUMMARY:share-read\nDESCRIPTION:note\\n\\n======= " ++
    "update (now) =======\\nCalendar shared with read\n  access\nBEGIN:VALARM\n" ++
    "DESCRIPTION:ring\nEND:VALARM\nEND:VEVENT\n"
  have hengine : ofSettings { Settings.default with timestampFormat := "now" } =
      .ok (withFormat "now") := rfl
  have hformat : '\r' ∉ "now".toList := by decide
  have hcr : CrBeforeLf alarmText.toList := by decide +kernel
  have hclosed : ClosedUpToSpan alarmText.toList := .of_notMem (by decide +kernel)
  have hanswer : (withFormat "now").handleText DateTime.epoch alarmText =
      .ok (event, .applied "share-read" (some narrative) (.replaced block)) := by decide +kernel
  have hfree : ∀ text, event.narrative = some text → PairFree text.toList := by
    intro text htext
    rw [← Option.some.inj htext]
    exact unescape_eq_self_iff.1 (by decide +kernel)
  have hread : Event.ofText block = .ok event := by decide +kernel
  exact ⟨_, _, event, block, hengine, hformat, hcr, hclosed, hanswer, hfree, hread,
    (ofText_replaced_iff hengine hformat hcr hclosed hanswer hfree).1 hread⟩

/-- A text for which the engine stores something that does not read as the event it reports. -/
def Misreads (format text : String) : Prop :=
  ∃ (engine : Engine) (event : Event) (block : String),
    ofSettings { Settings.default with timestampFormat := format } = .ok engine ∧
    '\r' ∉ format.toList ∧ CrBeforeLf text.toList ∧
    engine.handleText DateTime.epoch text =
      .ok (event, .applied "share-read" event.narrative (.replaced block)) ∧
    Event.ofText block ≠ .ok event

/-- An event with an alarm in front of its own DESCRIPTION. -/
def leadingAlarmText : String :=
  "BEGIN:VEVENT\nBEGIN:VALARM\nDESCRIPTION:ring\nEND:VALARM\nCLASS:PRIVATE\nSUMMARY:share-read\n" ++
    "DESCRIPTION:note\nEND:VEVENT\n"

theorem misreads_leadingAlarmText : Misreads "now" leadingAlarmText := by
  let event := shareEvent "note\n\n======= update (now) =======\nCalendar shared with read access"
  -- The narrative of the event has become the one of the alarm.
  let block := "BEGIN:VEVENT\nBEGIN:VALARM\nDESCRIPTION:note\\n\\n======= update (now) =======\\n" ++
    "Calendar shared with read\n  access\nEND:VALARM\nCLASS:PRIVATE\nSUMMARY:share-read\n" ++
    "DESCRIPTION:note\nEND:VEVENT\n"
  refine ⟨withFormat "now", event, block, rfl, by decide, by decide +kernel, ?_, ?_⟩
  · decide +kernel
  · decide +kernel

/-- The line of the DESCRIPTION ends with a line feed, and its value with the next CRLF. -/
def mixedText : String :=
  "BEGIN:VEVENT\r\nCLASS:PRIVATE\r\nSUMMARY:share-read\r\nDESCRIPTION:note\nLOCATION:x\r\n" ++
    "END:VEVENT\r\n"

theorem misreads_mixedText : Misreads "now" mixedText := by
  let event := shareEvent
    "note\nLOCATION:x\n\n======= update (now) =======\nCalendar shared with read access"
  -- The location is in the new line, and still behind it.
  let block := "BEGIN:VEVENT\r\nCLASS:PRIVATE\r\nSUMMARY:share-read\r\nDESCRIPTION:note\\nLOCATION:x" ++
    "\\n\\n======= update (now) =======\\nCalendar shar\n ed with read access\nLOCATION:x\r\n" ++
    "END:VEVENT\r\n"
  refine ⟨withFormat "now", event, block, rfl, by decide, by decide +kernel, ?_, ?_⟩
  · decide +kernel
  · decide +kernel

/-- A parameter in front of the DESCRIPTION opens a quote. -/
def quoteText : String :=
  "BEGIN:VEVENT\nCLASS:PRIVATE\nSUMMARY:share-read\nX;P=\"a:b\nDESCRIPTION:note\nEND:VEVENT\n"

theorem misreads_quoteText : Misreads "\"now\"" quoteText := by
  let event := shareEvent
    "note\n\n======= update (\"now\") =======\nCalendar shared with read access"
  -- The quotes of the stamp make the DESCRIPTION a part of the parameter.
  let block := "BEGIN:VEVENT\nCLASS:PRIVATE\nSUMMARY:share-read\nX;P=\"a:b\nDESCRIPTION:note\\n\\n" ++
    "======= update (\"now\") =======\\nCalendar shared with re\n ad access\nEND:VEVENT\n"
  refine ⟨withFormat "\"now\"", event, block, rfl, by decide, by decide +kernel, ?_, ?_⟩
  · decide +kernel
  · decide +kernel

/-- Alarms, mixed line ends and open quotes can each keep the two readers from agreeing. -/
theorem misreads_texts : Misreads "now" leadingAlarmText ∧ Misreads "now" mixedText ∧
    Misreads "\"now\"" quoteText :=
  ⟨misreads_leadingAlarmText, misreads_mixedText, misreads_quoteText⟩

end Engine

end CalendarCommand
