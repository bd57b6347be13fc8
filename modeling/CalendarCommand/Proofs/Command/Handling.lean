import CalendarCommand.Command.Engine
import CalendarCommand.Proofs.Time.StampText

/-!
# What handling an event can do

Handling an event checks one thing after the other, and each check that fails ends it with an answer
of its own.  `Handled` lists these ends once, in the order of the checks.  In all of them but the last
the event is left as it is; in the last one an update record is appended to its narrative.  The stored
text has no say in which of them it is.  All that is shown about runs of the engine rests on this list.
-/

namespace CalendarCommand

/-- The outcome without the stored text that it carries. -/
def Outcome.withoutBlock : Outcome → Outcome
  | .applied command narrative (.replaced _) => .applied command narrative .notRequested
  | outcome => outcome

def Event.command (event : Event) : String :=
  event.commandName?.getD ""

namespace Engine

variable {engine : Engine} {now : DateTime} {event : Event}

/-- The event is a command whose handler has something to report. -/
def Reports (engine : Engine) (event : Event) (report : String) : Prop :=
  engine.isCommand event = true ∧ report ≠ "" ∧
    ∃ handler, engine.registry.handler? event.command = some handler ∧
      handler event = .ok (some report)

/-- All that handling an event can come to, as a function of the text that it is stored in. -/
inductive Handled (engine : Engine) (now : DateTime) (event : Event) :
    (Option String → Event × Except CommandFault Outcome) → Prop
  | ignored (hcommand : engine.isCommand event = false) :
      Handled engine now event fun _ ↦ (event, .ok .notCommand)
  | unrecognized (hcommand : engine.isCommand event = true)
      (hhandler : engine.registry.handler? event.command = none) :
      Handled engine now event fun _ ↦ (event, .error (.unrecognized event.command))
  | refused (hcommand : engine.isCommand event = true) {handler : Handler} {fault : CommandFault}
      (hhandler : engine.registry.handler? event.command = some handler)
      (hfault : handler event = .error fault) :
      Handled engine now event fun _ ↦ (event, .error fault)
  | silent (hcommand : engine.isCommand event = true) {handler : Handler} {report : Option String}
      (hhandler : engine.registry.handler? event.command = some handler)
      (hreport : handler event = .ok report) (hempty : report.getD "" = "") :
      Handled engine now event fun _ ↦ (event, .ok (.applied event.command none .unchanged))
  | bare {report : String} (hreports : engine.Reports event report)
      (hnarrative : event.narrative = none) :
      Handled engine now event fun _ ↦ (event, .error (.narrativeMissing event.command))
  | unstamped {report narrative : String} (hreports : engine.Reports event report)
      (hnarrative : event.narrative = some narrative)
      (hstamp : now.stamp? engine.timestampFormat = none) :
      Handled engine now event fun _ ↦
        (event, .error (.settings (.invalidFormat engine.timestampFormat)))
  | recorded {report narrative stamp : String} (hreports : engine.Reports event report)
      (hnarrative : event.narrative = some narrative)
      (hstamp : now.stamp? engine.timestampFormat = some stamp) :
      Handled engine now event fun block ↦
        ({ event with narrative := some (narrative ++ updateRecord stamp report) },
          .ok (.applied event.command (some (narrative ++ updateRecord stamp report))
            (engine.updateBlock (narrative ++ updateRecord stamp report) block)))

/-- What is carried out for a command that reports something. -/
theorem handle_of_reports {report : String} (h : engine.Reports event report)
    (now : DateTime) (block : Option String) :
    engine.handle now event block =
      match event.narrative with
      | none => (event, .error (.narrativeMissing event.command))
      | some narrative =>
        match engine.withUpdate now narrative report with
        | .error fault => (event, .error fault)
        | .ok longer => ({ event with narrative := some longer },
            .ok (.applied event.command (some longer) (engine.updateBlock longer block))) := by
  obtain ⟨hcommand, hne, handler, hhandler, hreport⟩ := h
  rw [Event.command] at hhandler
  rw [handle, if_pos hcommand]
  simp only [carryOut, hhandler, hreport, Option.getD_some, if_neg hne]
  cases event.narrative with
  | none => rfl
  | some narrative =>
    dsimp only
    cases engine.withUpdate now narrative report <;> rfl

/-- Handling an event comes to one of the listed ends, whatever text it is stored in. -/
theorem handled (engine : Engine) (now : DateTime) (event : Event) :
    engine.Handled now event (engine.handle now event) := by
  cases hcommand : engine.isCommand event with
  | false =>
    have heq : engine.handle now event = fun _ ↦ (event, .ok .notCommand) := by
      funext block
      simp [handle, hcommand]
    exact heq ▸ .ignored hcommand
  | true =>
    cases hhandler : engine.registry.handler? event.command with
    | none =>
      have heq : engine.handle now event =
          fun _ ↦ (event, .error (.unrecognized event.command)) := by
        funext block
        rw [Event.command] at hhandler
        simp only [handle, hcommand, if_true, carryOut, hhandler]
        rfl
      exact heq ▸ .unrecognized hcommand hhandler
    | some handler =>
      cases hanswer : handler event with
      | error fault =>
        have heq : engine.handle now event = fun _ ↦ (event, .error fault) := by
          funext block
          rw [Event.command] at hhandler
          simp only [handle, hcommand, if_true, carryOut, hhandler, hanswer]
        exact heq ▸ .refused hcommand hhandler hanswer
      | ok report =>
        by_cases hempty : report.getD "" = ""
        · have heq : engine.handle now event =
              fun _ ↦ (event, .ok (.applied event.command none .unchanged)) := by
            funext block
            rw [Event.command] at hhandler
            simp only [handle, hcommand, if_true, carryOut, hhandler, hanswer, if_pos hempty]
            rfl
          exact heq ▸ .silent hcommand hhandler hanswer hempty
        · cases report with
          | none => exact absurd rfl hempty
          | some report =>
            have hreports : engine.Reports event report :=
              ⟨hcommand, hempty, handler, hhandler, hanswer⟩
            have heq := funext (handle_of_reports hreports now)
            cases hnarrative : event.narrative with
            | none =>
              simp only [hnarrative] at heq
              exact heq ▸ .bare hreports hnarrative
            | some narrative =>
              cases hstamp : now.stamp? engine.timestampFormat with
              | none =>
                simp only [hnarrative, withUpdate, hstamp] at heq
                exact heq ▸ .unstamped hreports hnarrative hstamp
              | some stamp =>
                simp only [hnarrative, withUpdate, hstamp] at heq
                exact heq ▸ .recorded hreports hnarrative hstamp

/-- Handling the event changes nothing, whatever text it is stored in. -/
def Keeps (engine : Engine) (now : DateTime) (event : Event) : Prop :=
  ∃ answer : Except CommandFault Outcome, (∀ block, engine.handle now event block = (event, answer)) ∧
    ∀ outcome, answer = .ok outcome → outcome = .notCommand ∨
      ∃ command, outcome = .applied command none .unchanged

/-- Handling the event appends a record with the stamp and the report of a handler. -/
structure Appends (engine : Engine) (now : DateTime) (event : Event) (narrative command stamp report :
    String) : Prop where
  narrative_eq : event.narrative = some narrative
  stamp_eq : now.stamp? engine.timestampFormat = some stamp
  report_ne : report ≠ ""
  handler_reports : ∃ handler, engine.registry.handler? command = some handler ∧
    handler event = .ok (some report)
  handle_eq : ∀ block, engine.handle now event block =
    ({ event with narrative := some (narrative ++ updateRecord stamp report) },
      .ok (.applied command (some (narrative ++ updateRecord stamp report))
        (engine.updateBlock (narrative ++ updateRecord stamp report) block)))

/-- What an engine appends is the report of one of its commands. -/
theorem Appends.reported {narrative command stamp report : String}
    (h : engine.Appends now event narrative command stamp report) :
    ∃ entry ∈ engine.registry.entries, entry.handler event = .ok (some report) := by
  obtain ⟨handler, hhandler, hreport⟩ := h.handler_reports
  obtain ⟨entry, hentry, rfl⟩ := Option.map_eq_some_iff.1 hhandler
  exact ⟨entry, List.mem_of_find?_eq_some hentry, hreport⟩

/-- An event that is handled is kept, or its narrative grows by one record. -/
theorem keeps_or_appends (engine : Engine) (now : DateTime) (event : Event) :
    engine.Keeps now event ∨
      ∃ narrative command stamp report, engine.Appends now event narrative command stamp report := by
  generalize hanswer : engine.handle now event = answer
  have hhandle (block : Option String) : engine.handle now event block = answer block :=
    congrFun hanswer block
  cases hanswer ▸ engine.handled now event with
  | ignored => exact .inl ⟨_, hhandle, fun _ h ↦ .inl (Except.ok.inj h).symm⟩
  | unrecognized => exact .inl ⟨_, hhandle, nofun⟩
  | refused => exact .inl ⟨_, hhandle, nofun⟩
  | silent => exact .inl ⟨_, hhandle, fun _ h ↦ .inr ⟨_, (Except.ok.inj h).symm⟩⟩
  | bare => exact .inl ⟨_, hhandle, nofun⟩
  | unstamped => exact .inl ⟨_, hhandle, nofun⟩
  | recorded hreports hnarrative hstamp =>
    exact .inr ⟨_, _, _, _, hnarrative, hstamp, hreports.2.1, hreports.2.2, hhandle⟩

theorem toList_append_four (a b c d : String) :
    (a ++ b ++ c ++ d).toList = a.toList ++ b.toList ++ c.toList ++ d.toList := by
  rw [String.toList_append, String.toList_append, String.toList_append]

theorem toList_updateRecord (stamp report : String) : (updateRecord stamp report).toList =
    "\n\n======= update (".toList ++ stamp.toList ++ ") =======\n".toList ++ report.toList :=
  toList_append_four _ stamp _ report

theorem updateRecord_ne_empty (stamp report : String) : (updateRecord stamp report).toList ≠ [] := by
  rw [toList_updateRecord]
  exact List.cons_ne_nil _ _

theorem append_updateRecord_ne (narrative stamp report more : String) :
    narrative ++ updateRecord stamp report ++ more ≠ narrative := by
  intro h
  have hlength := congrArg (fun text ↦ text.toList.length) h
  simp only [String.toList_append, List.length_append] at hlength
  have hrecord := List.length_pos_of_ne_nil (updateRecord_ne_empty stamp report)
  omega

/-- A record has no carriage return of its own. -/
theorem cr_notMem_updateRecord {stamp report : String} (hstamp : '\r' ∉ stamp.toList)
    (hreport : '\r' ∉ report.toList) : '\r' ∉ (updateRecord stamp report).toList := by
  have hopening : '\r' ∉ "\n\n======= update (".toList := by decide
  have hclosing : '\r' ∉ ") =======\n".toList := by decide
  rw [toList_updateRecord]
  simp only [List.mem_append, not_or]
  exact ⟨⟨⟨hopening, hstamp⟩, hclosing⟩, hreport⟩

/-! ## Handling a stored text -/

theorem handleText_of_read (engine : Engine) (now : DateTime)
    {text : String}
    (hread : Event.ofText text = .ok event) :
    engine.handleText now text =
      (engine.handle now event (some text)).2.map fun outcome ↦
        ((engine.handle now event (some text)).1, outcome) := by
  rw [handleText, hread]
  dsimp only
  obtain ⟨after, answer⟩ := engine.handle now event (some text)
  cases answer <;> rfl

theorem updateBlock_eq_replaced_iff {narrative text block : String} :
    engine.updateBlock narrative (some text) = .replaced block ↔
      ContentLine.spliceDescription text.toList narrative.toList engine.foldWidth =
        some block.toList := by
  rw [updateBlock]
  cases hsplice : ContentLine.spliceDescription text.toList narrative.toList engine.foldWidth with
  | none => simp
  | some out =>
    rw [BlockEffect.replaced.injEq, Option.some.injEq, ← String.toList_inj, String.toList_ofList]

/-- Carrying out the command of a stored text shows nothing, or it appends a record to the event that
the text is read as, and tries to splice the new narrative into the text. -/
theorem unchanged_or_appends {text command : String} {shown : Option String} {block : BlockEffect}
    (h : engine.handleText now text = .ok (event, .applied command shown block)) :
    shown = none ∧ block = .unchanged ∨
      ∃ (read : Event) (narrative stamp report : String), Event.ofText text = .ok read ∧
        engine.Appends now read narrative command stamp report ∧
        event = { read with narrative := some (narrative ++ updateRecord stamp report) } ∧
        shown = some (narrative ++ updateRecord stamp report) ∧
        block = engine.updateBlock (narrative ++ updateRecord stamp report) (some text) := by
  cases hread : Event.ofText text with
  | error fault => simp [handleText, hread] at h
  | ok read =>
    rw [handleText_of_read engine now hread] at h
    rcases keeps_or_appends engine now read with
      ⟨answer, hkeep, hanswer⟩ | ⟨narrative, name, stamp, report, happend⟩
    · rw [hkeep] at h
      cases answer with
      | error fault => cases h
      | ok outcome =>
        have houtcome := congrArg Prod.snd (Except.ok.inj h)
        rcases hanswer outcome rfl with rfl | ⟨name, rfl⟩
        · exact absurd houtcome (by simp)
        · obtain ⟨-, hshown, hblock⟩ := Outcome.applied.inj houtcome
          exact .inl ⟨hshown.symm, hblock.symm⟩
    · rw [happend.handle_eq] at h
      obtain ⟨hevent, houtcome⟩ := Prod.mk.inj (Except.ok.inj h)
      obtain ⟨rfl, hshown, hblock⟩ := Outcome.applied.inj houtcome
      exact .inr ⟨read, narrative, stamp, report, rfl, happend, hevent.symm, hshown.symm,
        hblock.symm⟩

/-- Where a stored text is replaced its event has grown by a record, and the new narrative is spliced
into the text. -/
theorem exists_appends_of_replaced {text block : String} {command : String}
    {shown : Option String} (h : engine.handleText now text =
      .ok (event, .applied command shown (.replaced block))) :
    ∃ (read : Event) (narrative stamp report : String), Event.ofText text = .ok read ∧
      engine.Appends now read narrative command stamp report ∧
      event = { read with narrative := some (narrative ++ updateRecord stamp report) } ∧
      ContentLine.spliceDescription text.toList
        (narrative ++ updateRecord stamp report).toList engine.foldWidth = some block.toList := by
  obtain ⟨-, hblock⟩ | ⟨read, narrative, stamp, report, hread, happend, hevent, -, hblock⟩ :=
    unchanged_or_appends h
  · exact absurd hblock (by simp)
  · exact ⟨read, narrative, stamp, report, hread, happend, hevent,
      updateBlock_eq_replaced_iff.1 hblock.symm⟩

end Engine

namespace Registry

/-- No text that a handler reports holds a carriage return. -/
def ReportsNoCr (registry : Registry) : Prop :=
  ∀ entry ∈ registry.entries, ∀ event text, entry.handler event = .ok (some text) →
    '\r' ∉ text.toList

theorem reportsNoCr_ofBuiltins (idPrefix : String) : (ofBuiltins idPrefix).ReportsNoCr := by
  intro entry hentry event text h
  obtain ⟨command, -, rfl⟩ := List.mem_map.1 hentry
  have hreport : command.report? = some text := Except.ok.inj h
  cases command <;> first | (rw [← Option.some.inj hreport]; decide) | cases hreport

end Registry

/-- What is appended holds no carriage return where the format and the handlers give none. -/
theorem Engine.Appends.cr_notMem {engine : Engine} {now : DateTime} {event : Event}
    {narrative command stamp report : String}
    (h : engine.Appends now event narrative command stamp report)
    (hformat : '\r' ∉ engine.timestampFormat.toList) (hreports : engine.registry.ReportsNoCr)
    (hnarrative : '\r' ∉ narrative.toList) :
    '\r' ∉ (narrative ++ Engine.updateRecord stamp report).toList := by
  obtain ⟨entry, hentry, hreport⟩ := h.reported
  have hrecord := Engine.cr_notMem_updateRecord (DateTime.cr_notMem_stamp? hformat h.stamp_eq)
    (hreports entry hentry event report hreport)
  rw [String.toList_append, List.mem_append, not_or]
  exact ⟨hnarrative, hrecord⟩

end CalendarCommand
