import CalendarCommand.Proofs.Command.AuditLog
import CalendarCommand.Proofs.Event.ChangedProperty
import CalendarCommand.Proofs.Event.PlainBlock

/-!
# Runs over a stored text and runs over an event

A stored text can be handled again and again, each time read anew, and the event that it holds at
first can be handled as often without being stored.  The first run simulates the second one as long
as reading the text gives the event back.

For a plain block everything but one point makes this so: the reader undoes an escaped text twice,
and the splice escapes it once.  The two runs therefore stay together exactly as long as the second
undoing finds no pair, which is a property of the narrative that the run ends with.
-/

namespace CalendarCommand

open ContentLine

namespace Engine

/-- The answers for a stored text and for the event alone are the same, but for the text to
store. -/
def Agree (stored : Except CommandFault (Event × Outcome))
    (direct : Event × Except CommandFault Outcome) : Prop :=
  (stored.map fun answer ↦ (answer.1, answer.2.withoutBlock)) =
    direct.2.map fun outcome ↦ (direct.1, outcome)

/-- The calls at some times for an event that is stored nowhere. -/
def directCalls (times : List DateTime) : List Call :=
  times.map fun now ↦ { now, block := none }

/-- After each part of the times the stored text reads as the event, and the next answers for the
text and for the event agree. -/
def Simulates (engine : Engine) (text : String) (event : Event) (times : List DateTime) : Prop :=
  ∀ past future, times = past ++ future →
    Event.ofText (engine.runText text past) = .ok (engine.run event (directCalls past)).1 ∧
    ∀ now, future.head? = some now →
      Agree (engine.handleText now (engine.runText text past))
        (engine.handle now (engine.run event (directCalls past)).1 none)

variable {engine : Engine} {now : DateTime} {event : Event} {text : String}

theorem runText_cons (times : List DateTime) : engine.runText text (now :: times) =
    engine.runText (engine.runText text [now]) times := by
  cases h : engine.handleText now text with
  | error fault => simp only [runText, h]
  | ok answer =>
    obtain ⟨after, outcome⟩ := answer
    simp only [runText, h]

theorem run_directCalls_cons (times : List DateTime) :
    (engine.run event (directCalls (now :: times))).1 =
      (engine.run (engine.handle now event none).1 (directCalls times)).1 := rfl

theorem simulates_nil : engine.Simulates text event [] ↔ Event.ofText text = .ok event := by
  have hstart : engine.runText text [] = text ∧ (engine.run event (directCalls [])).1 = event :=
    ⟨by rw [runText], by rw [directCalls, List.map_nil, run]⟩
  constructor
  · intro h
    have hread := (h [] [] rfl).1
    rwa [hstart.1, hstart.2] at hread
  · intro h past future htimes
    obtain ⟨rfl, rfl⟩ := List.append_eq_nil_iff.1 htimes.symm
    rw [hstart.1, hstart.2]
    exact ⟨h, fun now hnow ↦ absurd hnow (by simp)⟩

/-- A simulation goes on from the texts and the events after its first time. -/
theorem simulates_cons {times : List DateTime} : engine.Simulates text event (now :: times) ↔
    Event.ofText text = .ok event ∧
      Agree (engine.handleText now text) (engine.handle now event none) ∧
      engine.Simulates (engine.runText text [now]) (engine.handle now event none).1 times := by
  constructor
  · intro h
    obtain ⟨hread, hagree⟩ := h [] (now :: times) rfl
    refine ⟨hread, hagree now rfl, fun past future htimes ↦ ?_⟩
    have hnext := h (now :: past) future (by rw [htimes]; rfl)
    rwa [runText_cons, run_directCalls_cons] at hnext
  · rintro ⟨hread, hagree, hnext⟩ past future htimes
    cases past with
    | nil =>
      rw [List.nil_append] at htimes
      rw [← htimes]
      exact ⟨hread, fun first hfirst ↦ Option.some.inj hfirst ▸ hagree⟩
    | cons first past =>
      obtain ⟨rfl, hrest⟩ := List.cons.inj htimes
      rw [runText_cons, run_directCalls_cons]
      exact hnext past future hrest

/-! ## One step -/

/-- A step that keeps the event keeps the stored text. -/
theorem Keeps.step (h : engine.Keeps now event) (hread : Event.ofText text = .ok event) :
    engine.runText text [now] = text ∧ (engine.handle now event none).1 = event ∧
      Agree (engine.handleText now text) (engine.handle now event none) := by
  obtain ⟨answer, hkeep, hanswer⟩ := h
  have hstored : engine.handleText now text = answer.map fun outcome ↦ (event, outcome) := by
    rw [handleText_of_read engine now hread, hkeep]
  refine ⟨?_, by rw [hkeep], ?_⟩
  · cases answer with
    | error fault => rw [runText, hstored]; rfl
    | ok outcome =>
      rw [runText, hstored]
      rcases hanswer outcome rfl with rfl | ⟨command, rfl⟩ <;> rfl
  · rw [Agree, hstored, hkeep]
    cases answer with
    | error fault => rfl
    | ok outcome => rcases hanswer outcome rfl with rfl | ⟨command, rfl⟩ <;> rfl

/-- A step that appends to the narrative of a plain block leaves the plain block of the new
narrative. -/
theorem Appends.step {block : PlainBlock} {narrative command stamp report : String}
    (h : engine.Appends now block.event narrative command stamp report)
    (hwidth : 12 ≤ engine.foldWidth) :
    ∃ other, block.SameAround other ∧
      other.value = escape (narrative ++ updateRecord stamp report).toList ∧
      engine.runText (String.ofList block.text) [now] = String.ofList other.text ∧
      Agree (engine.handleText now (String.ofList block.text))
        (engine.handle now block.event none) := by
  obtain ⟨other, hsame, hvalue, hsplice⟩ :=
    block.exists_spliceDescription hwidth (narrative ++ updateRecord stamp report).toList
  have hblock : engine.updateBlock (narrative ++ updateRecord stamp report)
      (some (String.ofList block.text)) = .replaced (String.ofList other.text) := by
    rw [updateBlock, String.toList_ofList, hsplice]
  have hstored := handleText_of_read engine now block.ofText_text
  rw [h.handle_eq, hblock] at hstored
  refine ⟨other, hsame, hvalue, ?_, ?_⟩
  · rw [runText, hstored]
    rfl
  · rw [Agree, hstored, h.handle_eq]
    rfl

/-- A run that begins with a record does not come back to the event. -/
theorem Appends.run_ne {narrative command stamp report : String}
    (h : engine.Appends now event narrative command stamp report) (calls : List Call) :
    (engine.run { event with narrative := some (narrative ++ updateRecord stamp report) } calls).1 ≠
      event := by
  let after : Event := { event with narrative := some (narrative ++ updateRecord stamp report) }
  have hafter : after.narrative = some (narrative ++ updateRecord stamp report) := rfl
  obtain ⟨more, hmore⟩ := engine.exists_narrative_run calls hafter
  intro hsame
  rw [hsame, h.narrative_eq] at hmore
  exact append_updateRecord_ne narrative stamp report more (Option.some.inj hmore).symm

/-! ## Runs over plain blocks -/

/-- Where the narrative is present it holds no pair that a reader could undo. -/
def NarrativePairFree (event : Event) : Prop :=
  ∀ narrative, event.narrative = some narrative → PairFree narrative.toList

/-- The narrative of a plain block holds no carriage return. -/
theorem cr_notMem_narrative (block : PlainBlock) {narrative : String}
    (h : block.event.narrative = some narrative) : '\r' ∉ narrative.toList := by
  rw [block.event_narrative] at h
  rw [← Option.some.inj h, String.toList_ofList]
  intro hcr
  rcases mem_of_mem_unescapeWith hcr with hcr | hcr
  · exact absurd hcr (by decide)
  · rcases mem_of_mem_unescapeWith hcr with hcr | hcr
    · exact absurd hcr (by decide)
    · exact block.breakFree_value.1 hcr

/-- A block that holds an escaped narrative is read with its pairs undone once too often. -/
theorem event_of_escape {block other : PlainBlock} {narrative : String}
    (hsame : block.SameAround other) (hvalue : other.value = escape narrative.toList)
    (hcr : '\r' ∉ narrative.toList) :
    other.event = { block.event with
      narrative := some (String.ofList (unescape narrative.toList)) } := by
  have hreading : unescapeWith Property.isValueMark (escape narrative.toList) = narrative.toList := by
    rw [unescapeWith_escape isValueMark_of_isTextMark, normalizeBreaks_eq_self hcr]
  rw [block.event_of_sameAround hsame, other.event_narrative, hvalue, hreading]

theorem simulates_iff_narrativePairFree (hwidth : 12 ≤ engine.foldWidth)
    (hformat : '\r' ∉ engine.timestampFormat.toList) (hreports : engine.registry.ReportsNoCr)
    (block : PlainBlock) (times : List DateTime) :
    engine.Simulates (String.ofList block.text) block.event times ↔
      (engine.run block.event (directCalls times)).1 = block.event ∨
        NarrativePairFree (engine.run block.event (directCalls times)).1 := by
  induction times generalizing block with
  | nil =>
    have hstart : (engine.run block.event (directCalls [])).1 = block.event := by
      rw [directCalls, List.map_nil, run]
    rw [simulates_nil, block.ofText_text, hstart]
    simp
  | cons now times ih =>
    rw [simulates_cons, run_directCalls_cons, block.ofText_text]
    rcases keeps_or_appends engine now block.event with
      hkeep | ⟨narrative, command, stamp, report, happend⟩
    · obtain ⟨htext, hevent, hagree⟩ := hkeep.step block.ofText_text
      rw [htext, hevent, ← ih block]
      simp [hagree]
    · obtain ⟨other, hsame, hvalue, htext, hagree⟩ := happend.step hwidth
      have hcr := happend.cr_notMem hformat hreports
        (cr_notMem_narrative block happend.narrative_eq)
      have hother := event_of_escape hsame hvalue hcr
      let new := narrative ++ updateRecord stamp report
      let after : Event := { block.event with narrative := some new }
      have hafter : (engine.handle now block.event none).1 = after := by rw [happend.handle_eq]
      obtain ⟨more, hmore⟩ : ∃ more, (engine.run after (directCalls times)).1.narrative =
          some (new ++ more) := exists_narrative_run (directCalls times) rfl
      have hgrown : (engine.run after (directCalls times)).1 ≠ block.event :=
        happend.run_ne (directCalls times)
      rw [htext, hafter]
      by_cases hfree : PairFree new.toList
      · have hread : other.event = after := by
          rw [hother, unescape_eq_self hfree, String.ofList_toList]
        rw [← hread, ih other, hread]
        constructor
        · rintro ⟨-, -, hfinal | hfinal⟩
          · refine .inr fun last hlast ↦ ?_
            rw [hfinal] at hlast
            exact Option.some.inj hlast ▸ hfree
          · exact .inr hfinal
        · intro hfinal
          exact ⟨rfl, hagree, .inr (hfinal.resolve_left hgrown)⟩
      · have hunread : other.event ≠ after := by
          intro h
          have hnarrative := congrArg Event.narrative (hother.symm.trans h)
          have hsame := congrArg String.toList (Option.some.inj hnarrative)
          rw [String.toList_ofList] at hsame
          exact hfree (unescape_eq_self_iff.1 hsame)
        constructor
        · rintro ⟨-, -, hsimulates⟩
          have hread := (hsimulates [] times rfl).1
          rw [runText, directCalls, List.map_nil, run, other.ofText_text] at hread
          exact absurd (Except.ok.inj hread) hunread
        · rintro (hfinal | hfinal)
          · exact absurd hfinal hgrown
          · have hwhole := hfinal _ hmore
            rw [String.toList_append] at hwhole
            exact absurd hwhole.of_append_left hfree

/-- A plain block can be read, and a run over it simulates the run over its event exactly when the
latter never appends or ends with a narrative without pairs: the text is escaped once when it is
stored, and undone twice when it is read. -/
theorem plainBlock_simulates_iff (hwidth : 12 ≤ engine.foldWidth)
    (hformat : '\r' ∉ engine.timestampFormat.toList) (hreports : engine.registry.ReportsNoCr)
    (block : PlainBlock) (times : List DateTime) :
    Event.ofText (String.ofList block.text) = .ok block.event ∧
      (engine.Simulates (String.ofList block.text) block.event times ↔
        (engine.run block.event (directCalls times)).1 = block.event ∨
          ∀ narrative, (engine.run block.event (directCalls times)).1.narrative = some narrative →
            PairFree narrative.toList) :=
  ⟨block.ofText_text, simulates_iff_narrativePairFree hwidth hformat hreports block times⟩

/-- A private event that asks for a calendar to be shared, with a value of its DESCRIPTION. -/
def shareBlock (value : List Char) (hvalue : BreakFree value) : PlainBlock where
  terminator := .crlf
  calendar := []
  before :=
    [{ name := "CLASS".toList, value := "PRIVATE".toList, name_plain := by decide
       name_free := by decide, value_free := by decide },
     { name := "SUMMARY".toList, value := "share-read".toList, name_plain := by decide
       name_free := by decide, value_free := by decide }]
  first := value
  more := []
  after := []
  terminator_ne := by decide
  first_free := hvalue
  more_free := by simp

/-- The built-in commands with a format that is its own stamp. -/
def shareEngine : Engine :=
  { registry := Registry.ofBuiltins "", foldWidth := 75, timestampFormat := "now" }

/-- Two records behind ordinary words are read back as they were appended. -/
theorem plainBlock_simulates_iff_words :
    12 ≤ shareEngine.foldWidth ∧ '\r' ∉ shareEngine.timestampFormat.toList ∧
      shareEngine.registry.ReportsNoCr ∧
      ∃ block : PlainBlock, block.event.narrative = some "shared; by, request" ∧
        shareEngine.Simulates (String.ofList block.text) block.event
          [DateTime.epoch, DateTime.epoch] := by
  have hwidth : 12 ≤ shareEngine.foldWidth := by decide
  have hformat : '\r' ∉ shareEngine.timestampFormat.toList := by decide
  have hreports := Registry.reportsNoCr_ofBuiltins ""
  let block := shareBlock "shared\\; by\\, request".toList (by decide)
  have hfinal : (shareEngine.run block.event
      (directCalls [DateTime.epoch, DateTime.epoch])).1.narrative =
        some ("shared; by, request\n\n======= update (now) =======\n" ++
          "Calendar shared with read access\n\n======= update (now) =======\n" ++
          "Calendar shared with read access") := by decide
  refine ⟨hwidth, hformat, hreports, block, by decide, ?_⟩
  apply (plainBlock_simulates_iff hwidth hformat hreports block _).2.2
  refine .inr fun narrative hnarrative ↦ ?_
  rw [hfinal] at hnarrative
  rw [← Option.some.inj hnarrative]
  exact unescape_eq_self_iff.1 (by decide +kernel)

/-- A narrative that names a directory. -/
def directoryBlock : PlainBlock :=
  shareBlock "C:\\\\\\\\new".toList (by decide)

/-- The directory `C:\new` is read back as a line break once it has been stored. -/
theorem not_simulates_directoryBlock :
    ¬ shareEngine.Simulates (String.ofList directoryBlock.text) directoryBlock.event
      [DateTime.epoch] := by
  have hwidth : 12 ≤ shareEngine.foldWidth := by decide
  have hnarrative : (shareEngine.run directoryBlock.event (directCalls [DateTime.epoch])).1.narrative =
      some "C:\\new\n\n======= update (now) =======\nCalendar shared with read access" := by decide
  have hstart : directoryBlock.event.narrative = some "C:\\new" := by decide
  rw [simulates_iff_narrativePairFree hwidth (by decide) (Registry.reportsNoCr_ofBuiltins "")]
  rintro (hkept | hfree)
  · rw [hkept, hstart] at hnarrative
    exact absurd hnarrative (by decide)
  · have hpair := hfree _ hnarrative "C:".toList 'n' _ rfl
    exact absurd rfl hpair.1

end Engine

end CalendarCommand
