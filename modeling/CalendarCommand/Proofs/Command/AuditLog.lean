import Mathlib.Data.List.Basic
import CalendarCommand.Proofs.Command.Handling

/-!
# The narrative as a log

Over a run of calls the narrative of an event is a log.  A call that shows a new narrative has
appended one record to the narrative that it found, and every other call leaves the event as it is.
`Logs` tells, for each call of a run, which of the two it is, and collects the records in their order.

The records are what the handlers report on the events of the run, so they are read off the run as it
goes along: a handler is asked about the event that the earlier calls have left.
-/

namespace CalendarCommand

namespace Engine

variable {engine : Engine} {event : Event} {calls : List Call} {records : List String}
variable {finish : Event × List (Except CommandFault Outcome)}

/-- The answers that come with an event that is left as it is. -/
inductive ShowsNothing : Except CommandFault Outcome → Prop
  | failed (fault : CommandFault) : ShowsNothing (.error fault)
  | notCommand : ShowsNothing (.ok .notCommand)
  | unchanged (command : String) : ShowsNothing (.ok (.applied command none .unchanged))

/-- The calls lead from the event to the last one with these answers, and have logged these
records. -/
inductive Logs (engine : Engine) :
    Event → List Call → Event × List (Except CommandFault Outcome) → List String → Prop
  | nil {event : Event} : Logs engine event [] (event, []) []
  | keep {event : Event} {call : Call} {calls : List Call} {answer : Except CommandFault Outcome}
      {finish : Event × List (Except CommandFault Outcome)} {records : List String}
      (hanswer : ShowsNothing answer) (hrest : Logs engine event calls finish records) :
      Logs engine event (call :: calls) (finish.1, answer :: finish.2) records
  | append {event : Event} {call : Call} {calls : List Call}
      {finish : Event × List (Except CommandFault Outcome)} {records : List String}
      {narrative stamp report record : String} (hnarrative : event.narrative = some narrative)
      (hreports : engine.Reports event report)
      (hstamp : call.now.stamp? engine.timestampFormat = some stamp)
      (hrecord : record = "\n\n======= update (" ++ stamp ++ ") =======\n" ++ report)
      (hrest : Logs engine { event with narrative := some (narrative ++ record) } calls finish
        records) :
      Logs engine event (call :: calls)
        (finish.1, .ok (.applied event.command (some (narrative ++ record))
          (engine.updateBlock (narrative ++ record) call.block)) :: finish.2)
        (record :: records)

/-- One call keeps the event and shows nothing, or it logs a record. -/
theorem Logs.cons (call : Call)
    (hrest : ∀ after : Event, ∃ records, engine.Logs after calls (engine.run after calls) records) :
    ∃ records, engine.Logs event (call :: calls) (engine.run event (call :: calls)) records := by
  generalize hanswer : engine.handle call.now event = answer
  have hhandle : engine.handle call.now event call.block = answer call.block :=
    congrFun hanswer call.block
  have hkeep {answer : Except CommandFault Outcome} (hnothing : ShowsNothing answer)
      (h : engine.handle call.now event call.block = (event, answer)) :
      ∃ records, engine.Logs event (call :: calls) (engine.run event (call :: calls)) records := by
    obtain ⟨records, hlogs⟩ := hrest event
    rw [run, h]
    exact ⟨records, .keep hnothing hlogs⟩
  cases hanswer ▸ engine.handled call.now event with
  | ignored => exact hkeep .notCommand hhandle
  | unrecognized => exact hkeep (.failed _) hhandle
  | refused => exact hkeep (.failed _) hhandle
  | silent => exact hkeep (.unchanged _) hhandle
  | bare => exact hkeep (.failed _) hhandle
  | unstamped => exact hkeep (.failed _) hhandle
  | recorded hreports hnarrative hstamp =>
    obtain ⟨records, hlogs⟩ := hrest _
    rw [run, hhandle]
    exact ⟨_, .append hnarrative hreports hstamp rfl hlogs⟩

/-- Every run logs. -/
theorem exists_logs (engine : Engine) (event : Event) (calls : List Call) :
    ∃ records, engine.Logs event calls (engine.run event calls) records := by
  induction calls generalizing event with
  | nil => exact ⟨[], .nil⟩
  | cons call calls ih => exact Logs.cons call ih

/-- What a run leaves of an event is the event with the records behind its narrative. -/
theorem Logs.last_eq (h : engine.Logs event calls finish records) :
    finish.1 = { event with narrative := event.narrative.map (· ++ String.join records) } := by
  induction h with
  | @nil event => cases event with | mk classification summary narrative => cases narrative <;> simp
  | keep hanswer hrest ih => exact ih
  | append hnarrative hreports hstamp hrecord hrest ih =>
    rw [ih, hnarrative, Option.map_some, Option.map_some, String.join_cons, String.append_assoc]

/-- A run appends to the narrative of an event one record for each answer that shows a new narrative,
and changes nothing else of it. -/
theorem run_appends_records (engine : Engine) (event : Event) (calls : List Call) :
    ∃ records, engine.Logs event calls (engine.run event calls) records ∧
      (engine.run event calls).1 =
        { event with narrative := event.narrative.map (· ++ String.join records) } := by
  obtain ⟨records, hlogs⟩ := exists_logs engine event calls
  exact ⟨records, hlogs, hlogs.last_eq⟩

/-- A narrative that a run starts with is the beginning of the one it ends with. -/
theorem exists_narrative_run (calls : List Call) {narrative : String}
    (h : event.narrative = some narrative) :
    ∃ more, (engine.run event calls).1.narrative = some (narrative ++ more) := by
  obtain ⟨records, hlogs⟩ := exists_logs engine event calls
  exact ⟨String.join records, by rw [hlogs.last_eq, h, Option.map_some]⟩

end Engine

end CalendarCommand
