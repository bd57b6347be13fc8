import CalendarCommand.Proofs.Command.ReadBack
import CalendarCommand.Proofs.Event.ShownDescription

/-!
# Stored texts that are not replaced

A narrative that has grown is shown even where the text it was read from stays as it is.  The reader
knows a DESCRIPTION by its name, wherever the name stands and however it is folded.  The splice wants
the name and a delimiter behind it in one piece, at the start of a physical line.

So a text is skipped exactly where none of its lines begins in this way, and then the property that was
read stands elsewhere than at the start of a line, or is folded inside its name, or has no delimiter
behind the name.
-/

namespace CalendarCommand

open Scan ContentLine

/-- The narrative is read at the cut of the text, from the first DESCRIPTION directly inside the event.
Between the place that the reader has come to and the name there are gaps only. -/
structure DescriptionPlace (text before rest : List Char) (narrative : String) : Prop where
  text_eq : text = before ++ rest
  unfold_text : unfold text = unfold before ++ unfold rest
  head_rest : rest.head? = descriptionName.head?
  name_prefix : descriptionName <+: unfold rest
  exists_meeting : ∃ (outer : List Frame) (frame : Frame) (gap : List Char) (property : Property),
    gap <:+ unfold before ∧ (∀ c ∈ gap, isGap c = true) ∧
    Reading.ComesFrom ⟨outer, frame, gap ++ unfold rest⟩ (unfold text) ∧
    Reading.MeetsDescription ⟨outer, frame, gap ++ unfold rest⟩ property ∧
    property.reading = narrative

/-- The text that a property is read from is a gap and the name of the property with what follows. -/
theorem Reading.MeetsDescription.exists_gap {reading : Reading} {property : Property}
    (h : reading.MeetsDescription property) : ∃ gap more,
      (∀ c ∈ gap, isGap c = true) ∧ reading.text = gap ++ (descriptionName ++ more) := by
  obtain ⟨-, -, hname, behind, hstep⟩ := h
  obtain ⟨rest, hread⟩ := hstep.exists_read
  obtain ⟨-, gap, more, hgap, htext⟩ := readProperty?_place hread
  obtain ⟨ends, hends, hskip⟩ := forall_isGap_of_skipLineEnds reading.text
  refine ⟨ends ++ gap, more, List.forall_mem_append.2 ⟨hends, hgap⟩, ?_⟩
  calc
    reading.text = ends ++ skipLineEnds reading.text := hskip
    _ = ends ++ (gap ++ (descriptionName ++ more)) := by rw [htext, hname]
    _ = (ends ++ gap) ++ (descriptionName ++ more) := (List.append_assoc ends gap _).symm

/-- A text whose event has a narrative shows it at some place. -/
theorem exists_descriptionPlace {text narrative : String} {event : Event}
    (hread : Event.ofText text = .ok event) (hnarrative : event.narrative = some narrative) :
    ∃ before rest, DescriptionPlace text.toList before rest narrative := by
  obtain ⟨component, hcomponent, hheld⟩ := Event.ofText_eq_ok_iff.1 hread
  obtain ⟨⟨outer, frame, remaining⟩, property, hcomes, hmeets, hreading⟩ :=
    Reading.exists_meetsDescription hcomponent hheld hnarrative
  obtain ⟨gap, more, hgap, rfl⟩ := hmeets.exists_gap
  obtain ⟨front, hfront⟩ := hcomes.suffix
  rw [← List.append_assoc] at hfront
  obtain ⟨before, rest, htext, hbefore, hrest, hfold⟩ := exists_cut_of_unfold hfront.symm
  refine ⟨before, rest, htext, ?_, head?_of_unfold hrest hfold, ?_, outer, frame, gap, property,
    ?_, hgap, ?_, ?_, hreading⟩
  · rw [hbefore, hrest]
    exact hfront.symm
  · exact ⟨more, hrest.symm⟩
  · exact ⟨front, hbefore.symm⟩
  · rwa [hrest]
  · rwa [hrest]

namespace Engine

variable {engine : Engine} {now : DateTime} {event : Event}

theorem exists_updateBlock_eq (engine : Engine) {text : String}
    (h : HasDescriptionLine text.toList) (narrative : String) :
    ∃ out, engine.updateBlock narrative (some text) = .replaced out := by
  obtain ⟨before, span, after, hframe⟩ := DescriptionFrame.exists_of_hasDescriptionLine h
  rw [updateBlock, hframe.spliceDescription_eq]
  exact ⟨_, rfl⟩

theorem updateBlock_eq_skipped {text : String} (h : ¬ HasDescriptionLine text.toList)
    (narrative : String) : engine.updateBlock narrative (some text) = .skipped := by
  rw [updateBlock, spliceDescription_eq_none_iff.2 h]

theorem exists_updateBlock_eq_iff {narrative text : String} :
    (∃ out, engine.updateBlock narrative (some text) = .replaced out) ↔
      HasDescriptionLine text.toList := by
  constructor
  · rintro ⟨out, hout⟩
    by_contra hline
    exact absurd (hout.symm.trans (updateBlock_eq_skipped hline narrative)) (by simp)
  · exact fun hline ↦ engine.exists_updateBlock_eq hline narrative

theorem updateBlock_eq_skipped_iff {narrative text : String} :
    engine.updateBlock narrative (some text) = .skipped ↔ ¬ HasDescriptionLine text.toList := by
  constructor
  · intro hskipped hline
    obtain ⟨out, hout⟩ := engine.exists_updateBlock_eq hline narrative
    exact absurd (hskipped.symm.trans hout) (by simp)
  · exact fun hline ↦ updateBlock_eq_skipped hline narrative

/-- A text whose narrative has grown is replaced where one of its lines begins with the name
DESCRIPTION and a delimiter, and skipped where none does.  In particular it is replaced where the
property that the narrative was read from stands so in the text. -/
theorem handleText_replaced_iff {text command shown : String} {block : BlockEffect}
    (h : engine.handleText now text = .ok (event, .applied command (some shown) block)) :
    ((∃ out, block = .replaced out) ↔ HasDescriptionLine text.toList) ∧
    (block = .skipped ↔ ¬ HasDescriptionLine text.toList) ∧
    ∃ before rest narrative record, DescriptionPlace text.toList before rest narrative ∧
      shown = narrative ++ record ∧
      (EndsLine before → OpensDescription rest → ∃ out, block = .replaced out) := by
  obtain ⟨hnone, -⟩ | ⟨read, narrative, stamp, report, hread, happend, -, hshown, rfl⟩ :=
    unchanged_or_appends h
  · exact absurd hnone (by simp)
  · obtain rfl := Option.some.inj hshown
    obtain ⟨before, rest, hplace⟩ := exists_descriptionPlace hread happend.narrative_eq
    refine ⟨exists_updateBlock_eq_iff, updateBlock_eq_skipped_iff, before, rest, narrative,
      updateRecord stamp report, hplace, rfl, fun hends hopens ↦ ?_⟩
    exact engine.exists_updateBlock_eq ⟨before, rest, hplace.text_eq, hends, hopens⟩ _

/-- The DESCRIPTION of the event stands at the start of a line. -/
theorem handleText_replaced_iff_alarm : ∃ (event : Event) (shown out : String),
    (withFormat "now").handleText DateTime.epoch alarmText =
      .ok (event, .applied "share-read" (some shown) (.replaced out)) ∧
    HasDescriptionLine alarmText.toList ∧
    ∃ before rest narrative record, DescriptionPlace alarmText.toList before rest narrative ∧
      shown = narrative ++ record := by
  let shown := "note\n\n======= update (now) =======\nCalendar shared with read access"
  let out := "BEGIN:VEVENT\nCLASS:PRIVATE\nSUMMARY:share-read\nDESCRIPTION:note\\n\\n======= " ++
    "update (now) =======\\nCalendar shared with read\n  access\nBEGIN:VALARM\n" ++
    "DESCRIPTION:ring\nEND:VALARM\nEND:VEVENT\n"
  have hanswer : (withFormat "now").handleText DateTime.epoch alarmText =
      .ok (shareEvent shown, .applied "share-read" (some shown) (.replaced out)) := by
    decide +kernel
  obtain ⟨hreplaced, -, before, rest, narrative, record, hplace, hshown, -⟩ :=
    handleText_replaced_iff hanswer
  exact ⟨_, shown, out, hanswer, hreplaced.1 ⟨out, rfl⟩, before, rest, narrative, record, hplace,
    hshown⟩

/-- A text for which the engine shows a new narrative and stores none. -/
def Loses (text : String) : Prop :=
  ∃ (engine : Engine) (event : Event) (shown : String),
    ofSettings { Settings.default with timestampFormat := "now" } = .ok engine ∧
    engine.handleText DateTime.epoch text =
      .ok (event, .applied "share-read" (some shown) .skipped)

/-- An event whose DESCRIPTION is laid out as given. -/
def laidOutText (description : String) : String :=
  "BEGIN:VEVENT\r\nCLASS:PRIVATE\r\nSUMMARY:share-read\r\n" ++ description ++ "END:VEVENT\r\n"

theorem loses_of_handleText {description : String} (narrative : String)
    (h : (withFormat "now").handleText DateTime.epoch (laidOutText description) =
      .ok (shareEvent narrative, .applied "share-read" (some narrative) .skipped)) :
    Loses (laidOutText description) :=
  ⟨withFormat "now", _, narrative, rfl, h⟩

/-- A fold in the name, a continuation of an empty line and a missing delimiter each keep the splice
from a DESCRIPTION that is read. -/
theorem loses_texts : Loses (laidOutText "DESCRIP\r\n TION:note\r\n") ∧
    Loses (laidOutText "\r\n DESCRIPTION:note\r\n") ∧ Loses (laidOutText "DESCRIPTION\r\n") := by
  let record := "\n\n======= update (now) =======\nCalendar shared with read access"
  refine ⟨loses_of_handleText ("note" ++ record) ?_,
    loses_of_handleText ("note" ++ record) ?_,
    loses_of_handleText record ?_⟩
  · decide +kernel
  · decide +kernel
  · decide +kernel

end Engine

end CalendarCommand
