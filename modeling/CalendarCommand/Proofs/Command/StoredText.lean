import CalendarCommand.Proofs.Command.Handling

/-!
# Two texts that an event is stored in

An event can be handled with the text that it is stored in, and the same event can be handled with
another text or with none.  Two such runs are the same run: each of the listed ends of handling an event
is a function of the stored text, and all of these functions but the last are constant.  The last one
differs only in what becomes of the text, and that is settled by the text and the new narrative alone.
-/

namespace CalendarCommand

namespace Engine

variable {engine : Engine} {now : DateTime} {event : Event}

/-- What an outcome that shows a narrative, or none, says about the text that the event is stored in:
an outcome without a narrative leaves the text unchanged, and otherwise the splice decides. -/
structure Settles (width : Nat) (shown stored : Option String) (block : BlockEffect) : Prop where
  unchanged_iff : block = .unchanged ↔ shown = none
  notRequested_iff : block = .notRequested ↔ shown ≠ none ∧ stored = none
  skipped_iff : block = .skipped ↔ ∃ narrative text, shown = some narrative ∧ stored = some text ∧
    ContentLine.spliceDescription text.toList narrative.toList width = none
  replaced_iff : ∀ out, block = .replaced out ↔ ∃ narrative text, shown = some narrative ∧
    stored = some text ∧
    ContentLine.spliceDescription text.toList narrative.toList width = some out.toList

theorem settles_unchanged (width : Nat) (stored : Option String) :
    Settles width none stored .unchanged := by
  constructor <;> simp

theorem settles_updateBlock (engine : Engine) (narrative : String) (stored : Option String) :
    Settles engine.foldWidth (some narrative) stored (engine.updateBlock narrative stored) := by
  cases stored with
  | none => constructor <;> simp [updateBlock]
  | some text =>
    rw [updateBlock]
    cases hsplice : ContentLine.spliceDescription text.toList narrative.toList engine.foldWidth with
    | none => constructor <;> simp [hsplice]
    | some out =>
      have hout (other : String) : String.ofList out = other ↔ out = other.toList := by
        rw [← String.toList_inj, String.toList_ofList]
      constructor <;> simp [hsplice, hout]

/-- Two answers about one event, each with what it says about a text of its own.  They are the same but
for that. -/
inductive SameAnswer (width : Nat) (first second : Option String) :
    Except CommandFault Outcome → Except CommandFault Outcome → Prop
  | failed (fault : CommandFault) : SameAnswer width first second (.error fault) (.error fault)
  | notCommand : SameAnswer width first second (.ok .notCommand) (.ok .notCommand)
  | applied {command : String} {shown : Option String} {block other : BlockEffect}
      (hfirst : Settles width shown first block) (hsecond : Settles width shown second other) :
      SameAnswer width first second (.ok (.applied command shown block))
        (.ok (.applied command shown other))

/-- A new narrative is shown exactly for a command with a report and a narrative to append it to, where
the time can be stamped. -/
theorem handle_shows_iff (stored : Option String) :
    (∃ command narrative block,
        (engine.handle now event stored).2 = .ok (.applied command (some narrative) block)) ↔
      event.narrative ≠ none ∧ now.stamp? engine.timestampFormat ≠ none ∧
        ∃ report, engine.Reports event report := by
  constructor
  · generalize hanswer : engine.handle now event = answer
    rintro ⟨command, narrative, block, h⟩
    cases hanswer ▸ engine.handled now event with
    | recorded hreports hnarrative hstamp => exact ⟨by simp [hnarrative], by simp [hstamp], _, hreports⟩
    | _ => exact absurd h (by simp)
  · rintro ⟨hnarrative, hstamp, report, hreports⟩
    obtain ⟨narrative, hnarrative⟩ := Option.ne_none_iff_exists'.1 hnarrative
    obtain ⟨stamp, hstamp⟩ := Option.ne_none_iff_exists'.1 hstamp
    rw [handle_of_reports hreports]
    simp only [hnarrative, withUpdate, hstamp]
    exact ⟨_, _, _, rfl⟩

/-- Handling one event with two stored texts leaves the same event and gives the same answer, up to what
becomes of the texts.  Whether there is a new narrative to store is settled without a text. -/
theorem handle_ignores_stored (engine : Engine) (now : DateTime) (event : Event)
    (first second : Option String) :
    (engine.handle now event first).1 = (engine.handle now event second).1 ∧
    SameAnswer engine.foldWidth first second (engine.handle now event first).2
      (engine.handle now event second).2 ∧
    ∀ stored, (∃ command narrative block,
        (engine.handle now event stored).2 = .ok (.applied command (some narrative) block)) ↔
      event.narrative ≠ none ∧ now.stamp? engine.timestampFormat ≠ none ∧
        ∃ report, engine.Reports event report := by
  refine ⟨?_, ?_, handle_shows_iff⟩
  · generalize hanswer : engine.handle now event = answer
    cases hanswer ▸ engine.handled now event <;> rfl
  · generalize hanswer : engine.handle now event = answer
    cases hanswer ▸ engine.handled now event with
    | ignored => exact .notCommand
    | unrecognized => exact .failed _
    | refused => exact .failed _
    | silent => exact .applied (settles_unchanged _ first) (settles_unchanged _ second)
    | bare => exact .failed _
    | unstamped => exact .failed _
    | recorded =>
      exact .applied (engine.settles_updateBlock _ first) (engine.settles_updateBlock _ second)

end Engine

end CalendarCommand
