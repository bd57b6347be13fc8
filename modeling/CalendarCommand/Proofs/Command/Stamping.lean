import CalendarCommand.Proofs.Command.Handling

/-!
# Stamping with valid settings

The check of the settings reads the timestamp format, and an update writes it out.  A format that names
the time zone can be read, and a date-time has no zone to write: such settings are accepted, and every
update made with them is refused, at all times and for all narratives alike.  The refusal blames the
format in the very words that the check has for a format that cannot be read.

For all other formats the check keeps its promise.
-/

namespace CalendarCommand

/-- Settings that are accepted have a format that denotes a pattern. -/
theorem Settings.isSome_of_validate {settings : Settings} (h : settings.validate = .ok ()) :
    (Pattern.ofText? settings.timestampFormat.toList).isSome := by
  rw [validate] at h
  split_ifs at h with hwidth hblank hformat
  exact Option.isSome_iff_ne_none.2 fun hnone ↦ hformat (by rw [hnone]; rfl)

/-- The handlers of a registry that starts with the built-in commands never fail. -/
theorem Registry.handler?_ofBuiltins {idPrefix id : String} {handler : Handler}
    (h : (ofBuiltins idPrefix).handler? id = some handler) :
    ∃ command : Builtin, handler = command.handler := by
  obtain ⟨entry, hentry, rfl⟩ := Option.map_eq_some_iff.1 h
  obtain ⟨command, -, rfl⟩ := List.mem_map.1 (List.mem_of_find?_eq_some hentry)
  exact ⟨command, rfl⟩

namespace Engine

variable {engine : Engine} {now : DateTime} {event : Event}

/-- An update is appended unless the format gives no stamp. -/
theorem withUpdate_ok_iff (engine : Engine) (now : DateTime) (narrative text : String) :
    (∃ longer, engine.withUpdate now narrative text = .ok longer) ↔
      (now.stamp? engine.timestampFormat).isSome := by
  rw [withUpdate]
  cases now.stamp? engine.timestampFormat with
  | none => simp
  | some stamp => simp

/-- Where no handler fails, handling blames the format exactly for an event with a narrative and
something to report that cannot be stamped. -/
theorem handle_invalidFormat_iff (block : Option String)
    (hnofail : ∀ handler fault, engine.registry.handler? event.command = some handler →
      handler event ≠ .error fault) :
    (engine.handle now event block).2 =
        .error (.settings (.invalidFormat engine.timestampFormat)) ↔
      now.stamp? engine.timestampFormat = none ∧ event.narrative ≠ none ∧
        ∃ report, engine.Reports event report := by
  constructor
  · generalize hanswer : engine.handle now event = answer
    intro h
    cases hanswer ▸ engine.handled now event with
    | ignored hcommand => exact absurd h (by simp)
    | unrecognized hcommand hhandler => exact absurd h (by simp)
    | refused hcommand hhandler hfault => exact absurd hfault (hnofail _ _ hhandler)
    | silent hcommand hhandler hreport hempty => exact absurd h (by simp)
    | bare hreports hnarrative => exact absurd h (by simp)
    | unstamped hreports hnarrative hstamp =>
      exact ⟨hstamp, by simp [hnarrative], _, hreports⟩
    | recorded hreports hnarrative hstamp => exact absurd h (by simp)
  · rintro ⟨hstamp, hnarrative, report, hreports⟩
    obtain ⟨narrative, hnarrative⟩ := Option.ne_none_iff_exists'.1 hnarrative
    rw [handle_of_reports hreports]
    simp only [hnarrative, withUpdate, hstamp]

/-- With settings that are accepted, an update can be stamped exactly when the format does not name
the time zone, and the engine of the settings blames the format exactly where it had something to
append and the format names the zone. -/
theorem stamps_iff_of_validate (settings : Settings) (h : settings.validate = .ok ()) :
    (∀ registry now narrative text,
      (∃ longer, (ofRegistry registry settings).withUpdate now narrative text = .ok longer) ↔
        ¬ Pattern.NamesZone settings.timestampFormat.toList) ∧
    ∃ engine, ofSettings settings = .ok engine ∧
      ∀ now event block, (engine.handle now event block).2 =
          .error (.settings (.invalidFormat settings.timestampFormat)) ↔
        Pattern.NamesZone settings.timestampFormat.toList ∧ event.narrative ≠ none ∧
          ∃ report, engine.Reports event report := by
  have hformat := Settings.isSome_of_validate h
  constructor
  · intro registry now narrative text
    calc
      (∃ longer, (ofRegistry registry settings).withUpdate now narrative text = .ok longer)
        ↔ (now.stamp? settings.timestampFormat).isSome := withUpdate_ok_iff _ now narrative text
      _ ↔ (Pattern.ofText? settings.timestampFormat.toList).isSome ∧
            ¬ Pattern.NamesZone settings.timestampFormat.toList := now.stamp?_isSome_iff _
      _ ↔ ¬ Pattern.NamesZone settings.timestampFormat.toList := and_iff_right hformat
  · let engine := ofRegistry (Registry.ofBuiltins (settings.commandPrefix.getD "")) settings
    refine ⟨engine, by rw [ofSettings, h]; rfl, fun now event block ↦ ?_⟩
    have hnofail (handler : Handler) (fault : CommandFault)
        (hhandler : engine.registry.handler? event.command = some handler) :
        handler event ≠ .error fault := by
      obtain ⟨command, rfl⟩ := Registry.handler?_ofBuiltins hhandler
      exact nofun
    have hstamp : now.stamp? settings.timestampFormat = none ↔
        Pattern.NamesZone settings.timestampFormat.toList := by
      rw [← Option.not_isSome_iff_eq_none, now.stamp?_isSome_iff, and_iff_right hformat, not_not]
    rw [← hstamp]
    exact handle_invalidFormat_iff block hnofail

/-- Whatever is reported under the default settings can be stamped. -/
theorem stamps_iff_of_validate_default : Settings.default.validate = .ok () ∧
    ∀ registry now narrative text, ∃ longer,
      (ofRegistry registry Settings.default).withUpdate now narrative text = .ok longer := by
  have hvalid : Settings.default.validate = .ok () := by decide
  have hformat : ¬ Pattern.NamesZone Settings.default.timestampFormat.toList := by
    have hpattern : Pattern.ofText? Settings.default.timestampFormat.toList = some
        [.number .day .zeros, .literal '-', .number .month .zeros, .literal '-',
          .number .year .zeros, .literal ' ', .number .hour .zeros, .literal ':',
          .number .minute .zeros, .literal ':', .number .second .zeros] := by decide
    rw [← (Pattern.denotes_of_ofText? hpattern).zone_mem_iff]
    decide
  exact ⟨hvalid, fun registry now narrative text ↦
    ((stamps_iff_of_validate Settings.default hvalid).1 registry now narrative text).2 hformat⟩

/-- Settings that name the time zone in their format. -/
def zoneSettings : Settings :=
  { Settings.default with timestampFormat := "%H:%M %Z" }

/-- Settings that name the time zone are accepted, and their engine refuses to share a calendar
because of their format. -/
theorem not_stamps_zoneSettings : zoneSettings.validate = .ok () ∧
    ∃ engine, ofSettings zoneSettings = .ok engine ∧
      (engine.handle DateTime.epoch
        { classification := some .privateClass, summary := some "share-read",
          narrative := some "note" } none).2 =
        .error (.settings (.invalidFormat "%H:%M %Z")) := by
  have hvalid : zoneSettings.validate = .ok () := by decide
  exact ⟨hvalid, ofRegistry (Registry.ofBuiltins "") zoneSettings, rfl, by decide⟩

end Engine

end CalendarCommand
