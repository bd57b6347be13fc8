import CalendarCommand.Proofs.Command.Invocation
import CalendarCommand.Proofs.CommandLine.ApplyingDirectory
import CalendarCommand.Proofs.Json.RoundTrip

/-!
# Recognising a calendar file

Three tasks recognise commands in files.  A check says whether a file holds one, applying a file carries
it out, and applying a directory goes through the files that hold one.  Each of them reads the file,
reads the event of its text and asks the engine by itself, and each has its own way to go on when that
fails.  They agree on every text: on which files hold a command, on the command, and on the fault of a
text that holds no event.

What a check says is taken from the lines that it prints, read again as a value.
-/

namespace CalendarCommand

namespace Engine

variable {engine : Engine} {now : DateTime} {event : Event} {stored : Option String}

/-- An event is passed over exactly when it is no command; whatever comes of a command, be it a fault,
shows that it is one. -/
theorem handle_eq_notCommand_iff :
    (engine.handle now event stored).2 = .ok .notCommand ↔ engine.isCommand event = false := by
  generalize hanswer : engine.handle now event = answer
  cases hanswer ▸ engine.handled now event with
  | ignored hcommand => simp [hcommand]
  | unrecognized hcommand => simp [hcommand]
  | refused hcommand => simp [hcommand]
  | silent hcommand => simp [hcommand]
  | bare hreports => simp [hreports.1]
  | unstamped hreports => simp [hreports.1]
  | recorded hreports => simp [hreports.1]

/-- A command is carried out under the name that the event asks for. -/
theorem command_of_handle {command : String} {shown : Option String} {block : BlockEffect}
    (h : (engine.handle now event stored).2 = .ok (.applied command shown block)) :
    command = event.command := by
  generalize hanswer : engine.handle now event = answer at h
  cases hanswer ▸ engine.handled now event with
  | silent => exact (Outcome.applied.inj (Except.ok.inj h)).1.symm
  | recorded => exact (Outcome.applied.inj (Except.ok.inj h)).1.symm
  | _ => exact absurd h (by simp)

end Engine

namespace CommandLine

variable {engine : Engine} {now : DateTime} {tree : FileTree} {directory place : Place}
variable {path file name text : String} {event : Event} {command : Option String}

/-! ## What a check prints -/

/-- A report prints a value that says whether there is a command, and which. -/
structure Prints (report : Report) (command : Option String) : Prop where
  failure_eq : report.failure = none
  exists_value : ∃ value, Json.ofText? report.output.toList = some value ∧
    value.get "is_command" = .boolean command.isSome ∧
    value.get "command" = Json.ofOptionalText command

theorem ofText?_checkJson (command : Option String) :
    Json.ofText? (line (checkJson command).pretty).toList = some (checkJson command) := by
  have hfree : (checkJson command).NumberFree := by
    refine .object ?_
    simp only [List.forall_mem_cons]
    refine ⟨?_, .boolean _, nofun⟩
    cases command with
    | none => exact .null
    | some name => exact .string name
  rw [line, String.toList_append]
  exact Json.ofText?_pretty hfree (by decide)

theorem string?_ofOptionalText (command : Option String) :
    (Json.ofOptionalText command).string? = command := by
  cases command <;> rfl

/-- A check that succeeds prints what it has found, and nothing else. -/
theorem prints_runCheck_iff {found : Option String}
    (h : check engine tree directory file = .ok found) :
    Prints (runCheck engine tree directory file true) command ↔ command = found := by
  have hreport : runCheck engine tree directory file true =
      { output := line (checkJson found).pretty, tree, failure := none } := by
    rw [runCheck, h]
    rfl
  rw [hreport]
  constructor
  · rintro ⟨-, value, hvalue, -, hcommand⟩
    obtain rfl := Option.some.inj ((ofText?_checkJson found).symm.trans hvalue)
    calc
      command = (Json.ofOptionalText command).string? := (string?_ofOptionalText command).symm
      _ = ((checkJson found).get "command").string? := by rw [hcommand]
      _ = found := string?_ofOptionalText found
  · rintro rfl
    exact ⟨rfl, _, ofText?_checkJson command, rfl, rfl⟩

theorem not_prints_of_error {failure : Failure}
    (h : check engine tree directory file = .error failure) :
    ¬ Prints (runCheck engine tree directory file true) command := by
  rintro ⟨hfailure, -⟩
  rw [runCheck, h] at hfailure
  cases hfailure

/-! ## One file -/

theorem check_of_read (hread : tree.read directory file = .ok text)
    (hevent : Event.ofText text = .ok event) :
    check engine tree directory file = .ok (commandIn? engine text) := by
  rw [check, hread]
  simp only [commandIn?, hevent]

theorem check_of_refused (hread : tree.read directory file = .ok text) {fault : CalendarFault}
    (hfault : Event.ofText text = .error fault) :
    check engine tree directory file = .error (.notParsed file fault) := by
  rw [check, hread]
  simp only [hfault]

theorem commandIn?_of_command (hevent : Event.ofText text = .ok event)
    (h : engine.isCommand event = true) : commandIn? engine text = some event.command := by
  obtain ⟨-, name, hname, -⟩ := Registry.isCommand_iff.1 h
  rw [commandIn?_eq_some_iff, Event.command, hname]
  exact ⟨event, hevent, h, hname⟩

theorem commandIn?_of_ordinary (hevent : Event.ofText text = .ok event)
    (h : engine.isCommand event = false) : commandIn? engine text = none := by
  rw [commandIn?, hevent]
  simp [h]

/-- A dry run shows an outcome exactly when the engine does for the event that is read. -/
theorem applyOne_eq_ok_iff (hread : tree.read directory file = .ok text)
    (hevent : Event.ofText text = .ok event) {outcome : Outcome} :
    (applyOne engine now tree directory file true).2 = .ok outcome ↔
      (engine.handle now event (some text)).2 = .ok outcome := by
  obtain ⟨place, hlocate, hfile⟩ := FileTree.read_eq_ok_iff.1 hread
  rw [applyOne_result hlocate hfile, resultFor, Engine.handleText_of_read engine now hevent]
  cases (engine.handle now event (some text)).2 with
  | error fault => simp [Except.map]
  | ok other => simp [Except.map]

theorem applyOne_of_refused (hread : tree.read directory file = .ok text) {fault : CalendarFault}
    (hfault : Event.ofText text = .error fault) :
    (applyOne engine now tree directory file true).2 = .error (.notApplied file (.calendar fault)) := by
  obtain ⟨place, hlocate, hfile⟩ := FileTree.read_eq_ok_iff.1 hread
  rw [applyOne_result hlocate hfile, resultFor, Engine.handleText, hfault]

/-- The candidates that a directory yields for the name of a calendar file are those of its text. -/
theorem exists_candidates_of_file (engine : Engine)
    (hfind : tree.find directory path = .ok (place, .directory)) (hname : isCalendarName name = true)
    (hfile : tree.entry? (place ++ [name]) = some (.file (.text text))) :
    ∃ found, candidates engine tree directory path = .ok found ∧
      ∀ command, { name, command } ∈ found ↔ commandIn? engine text = some command := by
  refine ⟨_, by rw [candidates, FileTree.list_eq hfind], fun command ↦ ?_⟩
  have hplace : tree.locate directory (Path.join path name) = .ok (place ++ [name]) :=
    FileTree.locate_join (FileTree.isFileName_of_mem (FileTree.mem_places_of_file hfile)) hfind
  have hcandidate : candidate? engine tree directory path name = some { name, command } ↔
      commandIn? engine text = some command := by
    rw [candidate?_eq_some_iff hplace, hfile]
    simp
  rw [List.mem_filterMap, ← hcandidate]
  constructor
  · rintro ⟨other, -, hother⟩
    obtain rfl : name = other := name_of_candidate? hother
    exact hother
  · refine fun h ↦ ⟨name, ?_, h⟩
    rw [(sortNames_perm _).mem_iff, List.mem_filter, FileTree.mem_filterMap_nameIn?]
    exact ⟨FileTree.mem_places_of_file hfile, hname⟩

/-! ## Agreement -/

/-- A check of a file, a dry run on it and the search of its directory agree on the text of the file. -/
structure RecognisedAlike [SyntaxWording] (engine : Engine) (now : DateTime) (tree : FileTree)
    (directory : Place) (file name text : String) (found : List Candidate) : Prop where
  prints_iff_mem : ∀ command,
    Prints (runCheck engine tree directory file true) (some command) ↔ { name, command } ∈ found
  prints_iff_applies :
    (∃ command, Prints (runCheck engine tree directory file true) (some command)) ↔
      (∃ event, Event.ofText text = .ok event) ∧
        (applyOne engine now tree directory file true).2 ≠ .ok .notCommand
  command_eq : ∀ command other shown block,
    Prints (runCheck engine tree directory file true) (some command) →
      (applyOne engine now tree directory file true).2 = .ok (.applied other shown block) →
      other = command
  prints_none_iff : Prints (runCheck engine tree directory file true) none ↔
    (applyOne engine now tree directory file true).2 = .ok .notCommand
  left_out : Prints (runCheck engine tree directory file true) none →
    ∀ command, { name, command } ∉ found
  refused : ∀ fault, Event.ofText text = .error fault →
    (runCheck engine tree directory file true).failure = some (.notParsed file fault) ∧
    (applyOne engine now tree directory file true).2 = .error (.notApplied file (.calendar fault)) ∧
    (Failure.notParsed file fault).cause? = (Failure.notApplied file (.calendar fault)).cause? ∧
    ∀ command, { name, command } ∉ found

section

variable {found : List Candidate}

/-- A text without an event is refused by the check and by the dry run. -/
theorem recognisedAlike_of_refused [SyntaxWording] (hread : tree.read directory file = .ok text)
    (hmem : ∀ command, { name, command } ∈ found ↔ commandIn? engine text = some command)
    {fault : CalendarFault} (hfault : Event.ofText text = .error fault) :
    RecognisedAlike engine now tree directory file name text found := by
  have hcheck : check engine tree directory file = .error (.notParsed file fault) :=
    check_of_refused hread hfault
  have happlied : (applyOne engine now tree directory file true).2 =
      .error (.notApplied file (.calendar fault)) := applyOne_of_refused hread hfault
  have hprints (command : Option String) :
      ¬ Prints (runCheck engine tree directory file true) command := not_prints_of_error hcheck
  have hout (command : String) : { name, command } ∉ found := by
    rw [hmem, commandIn?, hfault]
    exact Option.some_ne_none _ ∘ Eq.symm
  constructor
  · exact fun command ↦ iff_of_false (hprints _) (hout command)
  · refine iff_of_false (not_exists.2 fun command ↦ hprints command) ?_
    rintro ⟨⟨event, hevent⟩, -⟩
    exact absurd (hfault.symm.trans hevent) (by simp)
  · exact fun _ _ _ _ h ↦ absurd h (hprints _)
  · exact iff_of_false (hprints none) (by simp [happlied])
  · exact fun h ↦ absurd h (hprints none)
  · intro other hother
    obtain rfl := Except.error.inj (hfault.symm.trans hother)
    exact ⟨by rw [runCheck, hcheck], happlied, rfl, hout⟩

/-- A text with an event that is no command is passed over by all three. -/
theorem recognisedAlike_of_ordinary [SyntaxWording] (hread : tree.read directory file = .ok text)
    (hmem : ∀ command, { name, command } ∈ found ↔ commandIn? engine text = some command)
    (hevent : Event.ofText text = .ok event) (hcommand : engine.isCommand event = false) :
    RecognisedAlike engine now tree directory file name text found := by
  have hnone := commandIn?_of_ordinary hevent hcommand
  have hprints (command : Option String) :
      Prints (runCheck engine tree directory file true) command ↔ command = none :=
    hnone ▸ prints_runCheck_iff (check_of_read hread hevent)
  have happlied : (applyOne engine now tree directory file true).2 = .ok .notCommand :=
    (applyOne_eq_ok_iff hread hevent).2 (Engine.handle_eq_notCommand_iff.2 hcommand)
  constructor
  · intro command
    rw [hprints, hmem, hnone, eq_comm]
  · simp [hprints, happlied]
  · simp [hprints]
  · simp [hprints, happlied]
  · simp [hmem, hnone]
  · exact fun fault hfault ↦ absurd (hfault.symm.trans hevent) (by simp)

/-- A text with a command is recognised by all three, and its command has one name. -/
theorem recognisedAlike_of_command [SyntaxWording] (hread : tree.read directory file = .ok text)
    (hmem : ∀ command, { name, command } ∈ found ↔ commandIn? engine text = some command)
    (hevent : Event.ofText text = .ok event) (hcommand : engine.isCommand event = true) :
    RecognisedAlike engine now tree directory file name text found := by
  have hsome := commandIn?_of_command hevent hcommand
  have hprints (command : Option String) :
      Prints (runCheck engine tree directory file true) command ↔ command = some event.command :=
    hsome ▸ prints_runCheck_iff (check_of_read hread hevent)
  have happlied : (applyOne engine now tree directory file true).2 ≠ .ok .notCommand := by
    rw [Ne, applyOne_eq_ok_iff hread hevent, Engine.handle_eq_notCommand_iff]
    simp [hcommand]
  constructor
  · intro command
    rw [hprints, hmem, hsome, eq_comm]
  · simp [hprints, happlied, hevent]
  · intro command other shown block h hother
    obtain rfl := Option.some.inj ((hprints _).1 h)
    exact Engine.command_of_handle ((applyOne_eq_ok_iff hread hevent).1 hother)
  · exact iff_of_false (by simp [hprints]) happlied
  · exact fun h ↦ absurd ((hprints none).1 h) (by simp)
  · exact fun fault hfault ↦ absurd (hfault.symm.trans hevent) (by simp)

end

/-- A calendar file in a directory is recognised alike by a check, by a dry run and by the search of
the directory, whatever text it holds and by whatever path it is named. -/
theorem recognised_alike [SyntaxWording] (engine : Engine) (now : DateTime)
    (hfind : tree.find directory path = .ok (place, .directory)) (hname : isCalendarName name = true)
    (hfile : tree.entry? (place ++ [name]) = some (.file (.text text)))
    (hlocate : tree.locate directory file = .ok (place ++ [name])) :
    ∃ found, candidates engine tree directory path = .ok found ∧
      RecognisedAlike engine now tree directory file name text found := by
  obtain ⟨found, hfound, hmem⟩ := exists_candidates_of_file engine hfind hname hfile
  have hread : tree.read directory file = .ok text :=
    FileTree.read_eq_ok_iff.2 ⟨_, hlocate, hfile⟩
  refine ⟨found, hfound, ?_⟩
  cases hevent : Event.ofText text with
  | error fault => exact recognisedAlike_of_refused hread hmem hevent
  | ok event =>
    cases hcommand : engine.isCommand event with
    | false => exact recognisedAlike_of_ordinary hread hmem hevent hcommand
    | true => exact recognisedAlike_of_command hread hmem hevent hcommand

/-- A command without a narrative is recognised although it cannot be applied; the file is named
by a roundabout path. -/
theorem recognised_alike_mixed :
    mixedTree.find [] "in" = .ok (["in"], .directory) ∧ isCalendarName "b.ics" = true ∧
    mixedTree.entry? (["in"] ++ ["b.ics"]) = some (.file (.text (summaryText "share-read" ""))) ∧
    mixedTree.locate [] "in/../in//b.ics" = .ok (["in"] ++ ["b.ics"]) ∧
    ∃ found, candidates timelessEngine mixedTree [] "in" = .ok found ∧
      RecognisedAlike timelessEngine .epoch mixedTree [] "in/../in//b.ics" "b.ics"
        (summaryText "share-read" "") found ∧
      { name := "b.ics", command := "share-read" } ∈ found ∧
      Prints (runCheck timelessEngine mixedTree [] "in/../in//b.ics" true) (some "share-read") ∧
      (applyOne timelessEngine .epoch mixedTree [] "in/../in//b.ics" true).2 =
        .error (.notApplied "in/../in//b.ics" (.narrativeMissing "share-read")) := by
  have hfind : mixedTree.find [] "in" = .ok (["in"], .directory) := by decide +kernel
  have hfile : mixedTree.entry? (["in"] ++ ["b.ics"]) =
      some (.file (.text (summaryText "share-read" ""))) := by decide +kernel
  have hlocate : mixedTree.locate [] "in/../in//b.ics" = .ok (["in"] ++ ["b.ics"]) := by
    decide +kernel
  have hname : isCalendarName "b.ics" = true := by decide
  obtain ⟨found, hfound, halike⟩ :=
    recognised_alike timelessEngine .epoch hfind hname hfile hlocate
  have hprints : Prints (runCheck timelessEngine mixedTree [] "in/../in//b.ics" true)
      (some "share-read") := by
    have hcheck : check timelessEngine mixedTree [] "in/../in//b.ics" = .ok (some "share-read") := by
      decide +kernel
    exact (prints_runCheck_iff hcheck).2 rfl
  refine ⟨hfind, hname, hfile, hlocate, found, hfound, halike,
    (halike.prints_iff_mem _).1 hprints, hprints, ?_⟩
  decide +kernel

end CommandLine

end CalendarCommand
