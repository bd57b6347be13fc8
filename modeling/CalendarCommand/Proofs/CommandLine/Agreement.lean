import Mathlib.Data.List.Basic
import CalendarCommand.CommandLine.Run
import CalendarCommand.Http.Service
import CalendarCommand.Proofs.Exchange.Management

/-!
# The command line and the service

A calendar text can be applied as a file, with the answer printed for programs and all files left as they
are, and it can be handed in at the service.  Both come to what the engine makes of the text: each prints
or sends the same response, or tells the same error.

The answer of the command line is printed over several lines and read again, that of the service is a
value.  A body of a request may be any text that holds the request.
-/

namespace CalendarCommand

namespace CommandLine

variable {engine : Engine} {now : DateTime} {surroundings : Surroundings} {arguments : List String}
variable {file text body : String} {settings : Settings} {path : Option String}

/-- A run loads the settings: those of the path, or the default ones where no path is given. -/
def Loads [SettingsLibrary] (surroundings : Surroundings) (path : Option String) (settings : Settings) : Prop :=
  match path with
  | some path =>
    Settings.load surroundings.tree surroundings.directory surroundings.environment path =
      .ok settings
  | none =>
    Settings.loadDefault surroundings.tree surroundings.directory surroundings.environment =
      .ok settings

theorem loadEngine_of_loads [SettingsLibrary] (h : Loads surroundings path settings)
    (hengine : Engine.ofSettings settings = .ok engine) :
    loadEngine surroundings path = .ok engine := by
  cases path with
  | none =>
    have hload : Settings.loadDefault surroundings.tree surroundings.directory
      surroundings.environment = .ok settings := h
    rw [loadEngine.eq_def]
    simp only [hload, hengine]
  | some path =>
    have hload : Settings.load surroundings.tree surroundings.directory surroundings.environment
      path = .ok settings := h
    rw [loadEngine.eq_def]
    simp only [hload, hengine]

/-! ## Arguments -/

theorem ne_of_isOption {option : String} (h : Argument.isOption text = false)
    (hoption : Argument.isOption option = true) : text ≠ option := by
  rintro rfl
  rw [hoption] at h
  cases h

theorem joinedSettings?_eq_none (h : Argument.isOption text = false) :
    Argument.joinedSettings? text = none := by
  refine if_neg fun hprefix ↦ ?_
  obtain ⟨more, hmore⟩ := List.isPrefixOf_iff_prefix.1 hprefix
  have htext : text = String.ofList ("--config=".toList ++ more) := by
    rw [← String.toList_inj, String.toList_ofList, ← hmore]
    rfl
  have hoption : Argument.isOption (String.ofList ("--config=".toList ++ more)) = true := by
    simp [Argument.isOption, ← String.toList_inj]
  exact ne_of_isOption h hoption htext

theorem ofText?_operand (h : Argument.isOption text = false) :
    Argument.ofText? text = some (.operand text) := by
  have hjson : text ≠ "--json" := ne_of_isOption h (by decide)
  have hdryRun : text ≠ "--dry-run" := ne_of_isOption h (by decide)
  have hforce : ¬ (text = "--force" ∨ text = "-f") :=
    not_or.2 ⟨ne_of_isOption h (by decide), ne_of_isOption h (by decide)⟩
  rw [Argument.ofText?, joinedSettings?_eq_none h]
  dsimp only
  rw [if_neg hjson, if_neg hdryRun, if_neg hforce, h]
  rfl

theorem ofTexts?_operand {next : String} {rest : List String} (h : Argument.isOption text = false) :
    Argument.ofTexts? (text :: next :: rest) =
      (Argument.ofTexts? (next :: rest)).map fun others ↦ .operand text :: others := by
  rw [Argument.ofTexts?, if_neg (ne_of_isOption h (by decide)), if_neg (ne_of_isOption h (by decide)),
    ofText?_operand h, Option.bind_some]

/-- What is asked for by arguments that name a file to apply, want output for programs and leave all
files as they are. -/
theorem ofArguments?_apply (hfile : file ≠ "") (hoption : Argument.isOption file = false) :
    Invocation.ofArguments? ["apply", file, "--dry-run", "--json"] =
      some { settingsPath := none, task := .apply file true true } := by
  have hoptions : Argument.ofTexts? ["--dry-run", "--json"] = some [.dryRun, .json] := by decide
  have htexts : Argument.ofTexts? ["apply", file, "--dry-run", "--json"] =
      some [.operand "apply", .operand file, .dryRun, .json] := by
    rw [ofTexts?_operand (by decide), ofTexts?_operand hoption, hoptions]
    rfl
  have htask : Task.ofArguments? "apply" [.operand file, .dryRun, .json] =
      some (.apply file true true) :=
    if_pos ⟨hfile, rfl⟩
  rw [Invocation.ofArguments?, htexts, Option.bind_some]
  calc Invocation.ofParts? [] "apply" [.operand file, .dryRun, .json]
    _ = (Task.ofArguments? "apply" [.operand file, .dryRun, .json]).map fun task ↦
        { settingsPath := none, task } := rfl
    _ = some { settingsPath := none, task := .apply file true true } := by
      rw [htask, Option.map_some]

/-! ## The run -/

def reportFor (engine : Engine) (now : DateTime) (tree : FileTree) (file text : String) : Report :=
  match engine.handleText now text with
  | .error error => { output := "", tree, failure := some (.notApplied file error) }
  | .ok (_, outcome) =>
    { output := line (ManagementResponse.ofOutcome outcome).toJson.pretty, tree, failure := none }

theorem runApply_json (tree : FileTree) (directory : Place)
    (hfile : tree.read directory file = .ok text) :
    runApply engine now tree directory file true true = reportFor engine now tree file text := by
  rw [runApply, applyOne, hfile, reportFor]
  dsimp only
  rcases engine.handleText now text with error | ⟨event, outcome⟩ <;> rfl

theorem run_apply_json [SyntaxWording] [SettingsLibrary] (hloads : Loads surroundings path settings)
    (hengine : Engine.ofSettings settings = .ok engine)
    (harguments : Invocation.ofArguments? arguments =
      some { settingsPath := path, task := .apply file true true })
    (hfile : surroundings.tree.read surroundings.directory file = .ok text) :
    run now surroundings arguments =
      Run.ofReport (reportFor engine now surroundings.tree file text) := by
  rw [run, harguments]
  simp only [loadEngine_of_loads hloads hengine, runTask, runApply_json _ _ hfile]

/-! ## The response -/

def handIn (body : String) : Http.Request :=
  { method := "POST"
    target := "/manage-event"
    contentType := some "application/json"
    body }

theorem answer_handIn [SyntaxWording] (hbody : Json.ofText? body.toList = some (ManagementRequest.toJson { text })) :
    Http.answer engine now (handIn body) = Http.manage engine now { text } := by
  have hresource : (handIn body).resource? = some .management := by
    have hpath : Http.Target.path? "/manage-event" = some "/manage-event" := by decide
    rw [Http.Request.resource?, handIn, hpath]
    decide
  have hdeclares : (handIn body).declaresJson = true := by
    have hmediaType : MediaType.ofText? "application/json" =
        some { kind := "application".toList, subtype := "json".toList, suffix := none } := by
      decide
    rw [Http.Request.declaresJson, handIn, Option.bind_some, hmediaType]
    decide
  rw [Http.answer, hresource]
  dsimp only
  rw [handIn] at hdeclares ⊢
  rw [if_pos rfl, Http.manageBody, if_pos hdeclares]
  dsimp only
  rw [ManagementRequest.ofBody_of_ofText? hbody]

def statusFor : CommandFault → Nat
  | .calendar _ => 400
  | .settings _ => 500
  | .unrecognized _ => 422
  | .narrativeMissing _ => 422
  | .handlerFailed _ _ => 422

theorem statusOf_eq (error : CommandFault) : Http.Response.statusOf error = statusFor error := by
  cases error <;> rfl

theorem statusFor_ne (error : CommandFault) : statusFor error ≠ 200 := by
  cases error <;> nofun

/-! ## Agreement -/

/-- A run and a response tell what the engine makes of a text. -/
structure Agree [SyntaxWording] (engine : Engine) (now : DateTime) (tree : FileTree)
    (file text : String) (run : Run) (response : Http.Response) : Prop where
  tree_eq : run.tree = tree
  exitCode_eq_zero_iff : run.ending.exitCode = 0 ↔ response.status = 200
  handled : run.ending.exitCode = 0 → ∃ event outcome value,
    engine.handleText now text = .ok (event, outcome) ∧ response.body = some value ∧
    Json.ofText? run.output.toList = some value ∧
    ManagementResponse.ofJson? value = some (.ofOutcome outcome)
  refused : run.ending.exitCode ≠ 0 → run.ending.exitCode = 1 ∧ ∃ error,
    engine.handleText now text = .error error ∧ run.ending = .failed (.notApplied file error) ∧
    response = { status := statusFor error, body := some (.object [("error", .string error.message)]) }

theorem agree_of_ok [SyntaxWording] {event : Event} {outcome : Outcome} (tree : FileTree)
    (h : engine.handleText now text = .ok (event, outcome)) :
    Agree engine now tree file text (Run.ofReport (reportFor engine now tree file text))
      (Http.manage engine now { text }) := by
  have hreport : reportFor engine now tree file text =
      { output := line (ManagementResponse.ofOutcome outcome).toJson.pretty, tree
        failure := none } := by
    rw [reportFor, h]
  have hresponse : Http.manage engine now { text } =
      { status := 200, body := some (ManagementResponse.ofOutcome outcome).toJson } := by
    rw [Http.manage, h]
  rw [hreport, hresponse]
  refine ⟨rfl, ⟨fun _ ↦ rfl, fun _ ↦ rfl⟩, fun _ ↦ ⟨event, outcome, _, h, rfl, ?_, ?_⟩, ?_⟩
  · have hfree := (ManagementResponse.ofOutcome outcome).numberFree_toJson
    rw [Run.ofReport, line, String.toList_append]
    exact Json.ofText?_pretty hfree (by decide)
  · exact ManagementResponse.ofJson?_toJson _
  · exact fun hexit ↦ absurd rfl hexit

theorem agree_of_error [SyntaxWording] {error : CommandFault} (tree : FileTree)
    (h : engine.handleText now text = .error error) :
    Agree engine now tree file text (Run.ofReport (reportFor engine now tree file text))
      (Http.manage engine now { text }) := by
  have hreport : reportFor engine now tree file text =
      { output := "", tree, failure := some (.notApplied file error) } := by
    rw [reportFor, h]
  have hresponse : Http.manage engine now { text } =
      { status := statusFor error, body := some (.object [("error", .string error.message)]) } := by
    rw [Http.manage, h, ← statusOf_eq]
    rfl
  rw [hreport, hresponse]
  refine ⟨rfl, ⟨nofun, fun hstatus ↦ absurd hstatus (statusFor_ne error)⟩, nofun, ?_⟩
  exact fun _ ↦ ⟨rfl, error, h, rfl, rfl⟩

/-- With the same valid settings, applying a file with a text and handing the text in agree, whatever
the text and however the request is written down. -/
theorem run_apply_agrees_with_answer [SyntaxWording] [SettingsLibrary] (now : DateTime)
    (hvalid : settings.validate = .ok ()) (hloads : Loads surroundings path settings)
    (harguments : Invocation.ofArguments? arguments =
      some { settingsPath := path, task := .apply file true true })
    (hfile : surroundings.tree.read surroundings.directory file = .ok text)
    (hbody : Json.ofText? body.toList = some (ManagementRequest.toJson { text })) :
    ∃ engine, Engine.ofSettings settings = .ok engine ∧
      Agree engine now surroundings.tree file text (run now surroundings arguments)
        (Http.answer engine now (handIn body)) := by
  have hengine : ∃ engine, Engine.ofSettings settings = .ok engine := by
    rw [Engine.ofSettings, hvalid]
    exact ⟨_, rfl⟩
  obtain ⟨engine, hengine⟩ := hengine
  refine ⟨engine, hengine, ?_⟩
  rw [run_apply_json hloads hengine harguments hfile, answer_handIn hbody]
  rcases hhandle : engine.handleText now text with error | ⟨event, outcome⟩
  · exact agree_of_error surroundings.tree hhandle
  · exact agree_of_ok surroundings.tree hhandle

/-- A command whose narrative holds a quote, a backslash and a control character. -/
def quotedText : String :=
  "BEGIN:VEVENT\r\nCLASS:PRIVATE\r\nSUMMARY:share-read\r\nDESCRIPTION:say \"a\\\\b\"\u0001\r\n" ++
    "END:VEVENT\r\n"

/-- A home directory with a file of this text and without settings. -/
def quotedSurroundings : Surroundings where
  tree := .ofEntries [(["home", "note.ics"], .file (.text quotedText))]
  directory := ["home"]
  environment := [("HOME", "/home")]

/-- The file is applied with the default settings. -/
theorem run_apply_agrees_with_answer_quoted :
    Settings.default.validate = .ok () ∧ Loads quotedSurroundings none .default ∧
    quotedSurroundings.tree.read quotedSurroundings.directory "note.ics" = .ok quotedText ∧
    ∃ engine, Engine.ofSettings .default = .ok engine ∧
      let run := run .epoch quotedSurroundings ["apply", "note.ics", "--dry-run", "--json"]
      let response := Http.answer engine .epoch
        (handIn (ManagementRequest.toJson { text := quotedText }).pretty)
      Agree engine .epoch quotedSurroundings.tree "note.ics" quotedText run response ∧
      run.ending.exitCode = 0 ∧ response.status = 200 := by
  have hvalid : Settings.default.validate = .ok () := by decide +kernel
  have hloads : Loads quotedSurroundings none .default := by
    have hload : Settings.loadDefault quotedSurroundings.tree quotedSurroundings.directory
        quotedSurroundings.environment = .ok .default := by decide +kernel
    exact hload
  have harguments : Invocation.ofArguments? ["apply", "note.ics", "--dry-run", "--json"] =
      some { settingsPath := none, task := .apply "note.ics" true true } :=
    ofArguments?_apply (by decide) (by decide)
  have hfile : quotedSurroundings.tree.read quotedSurroundings.directory "note.ics" =
      .ok quotedText := by decide +kernel
  obtain ⟨engine, hengine, hagree⟩ := run_apply_agrees_with_answer .epoch hvalid hloads harguments
    hfile (ManagementRequest.ofText?_toJson { text := quotedText })
  have hexit : (run .epoch quotedSurroundings
      ["apply", "note.ics", "--dry-run", "--json"]).ending.exitCode = 0 := by decide +kernel
  exact ⟨hvalid, hloads, hfile, engine, hengine, hagree, hexit, hagree.exitCode_eq_zero_iff.1 hexit⟩

end CommandLine

end CalendarCommand
