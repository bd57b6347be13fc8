import CalendarCommand.Proofs.Command.Handling
import CalendarCommand.Proofs.Command.RegistryTable

/-!
# Invoking registered commands

An event names its command by its summary, and the summary is trimmed before it is looked up.  An
identifier is the prefix of the registry and a name behind it.  The name was trimmed when it was
registered; the prefix never is.  So the identifiers can be invoked, each of them, when the prefix does
not start with a blank character, and when it does, none of them can: whatever a summary is trimmed to
starts with another character.

Recognising an event and looking up its handler go through the same identifiers.  A recognised event
therefore has a handler, and what handling it comes to is fixed by the answer of this handler.  Nothing
that is registered later changes it.
-/

namespace CalendarCommand

def StartsBlank (text : String) : Prop :=
  text.toList.head?.any Text.isBlank = true

instance (text : String) : Decidable (StartsBlank text) :=
  inferInstanceAs (Decidable (_ = true))

theorem startsBlank_iff {text : String} :
    StartsBlank text ↔ ∃ c, text.toList.head? = some c ∧ Text.isBlank c = true := by
  rw [StartsBlank]
  cases text.toList.head? <;> simp

theorem trimmed_trimString (text : String) : Text.Trimmed (Text.trimString text).toList := by
  rw [Text.trimString, String.toList_ofList]
  exact Text.trimmed_trim text.toList

/-- A text without blank ends is what is left of it between blanks. -/
theorem trimString_between {before text after : String} (hbefore : Text.AllBlank before.toList)
    (hafter : Text.AllBlank after.toList) (h : Text.Trimmed text.toList) :
    Text.trimString (before ++ text ++ after) = text := by
  rw [Text.trimString, String.toList_append, String.toList_append,
    Text.trim_between hbefore hafter, Text.trim_eq_self h, String.ofList_toList]

namespace Registry

variable {registry : Registry} {event : Event}

/-- The identifiers of a registry have no blank ends unless its prefix starts with a blank. -/
theorem WellFormed.trimmed_iff (h : registry.WellFormed) {id : String} (hid : id ∈ registry.ids) :
    Text.Trimmed id.toList ↔ ¬ StartsBlank registry.idPrefix := by
  obtain ⟨name, hne, ⟨hhead, hlast⟩, rfl⟩ := h.named id hid
  have hname : name.toList ≠ [] := fun hnil ↦ hne (String.toList_eq_nil_iff.1 hnil)
  rw [String.toList_append]
  rw [startsBlank_iff]
  constructor
  · rintro ⟨hfirst, -⟩ ⟨c, hc, hblank⟩
    have hidhead : (registry.idPrefix.toList ++ name.toList).head? = some c := by
      rw [List.head?_append, hc, Option.some_or]
    rw [hfirst c hidhead] at hblank
    cases hblank
  · intro hprefix
    constructor
    · intro c hc
      cases hempty : registry.idPrefix.toList with
      | nil =>
        rw [hempty, List.nil_append] at hc
        exact hhead c hc
      | cons d rest =>
        rw [hempty, List.cons_append, List.head?_cons] at hc
        refine Bool.eq_false_iff.2 fun hblank ↦ hprefix ⟨c, ?_, hblank⟩
        rw [hempty, List.head?_cons, hc]
    · intro c hc
      rw [List.getLast?_append_of_ne_nil _ hname] at hc
      exact hlast c hc

theorem isCommand_iff : registry.isCommand event = true ↔
    event.isPrivate = true ∧ ∃ name, event.commandName? = some name ∧ name ∈ registry.ids := by
  rw [isCommand, Bool.and_eq_true]
  cases event.commandName? with
  | none => simp
  | some name => simp [contains_iff]

theorem command_mem_ids (h : registry.isCommand event = true) : event.command ∈ registry.ids := by
  obtain ⟨-, name, hname, hmem⟩ := isCommand_iff.1 h
  rwa [Event.command, hname, Option.getD_some]

/-- A recognised event has a handler. -/
theorem exists_handler?_of_isCommand (h : registry.isCommand event = true) :
    ∃ handler, registry.handler? event.command = some handler :=
  Option.ne_none_iff_exists'.1 fun hnone ↦ handler?_eq_none_iff.1 hnone (command_mem_ids h)

/-- What a registry recognises it still recognises after further calls. -/
theorem isCommand_registerAll (h : registry.isCommand event = true)
    (calls : List (String × Handler)) : (registry.registerAll calls).isCommand event = true := by
  obtain ⟨hprivate, name, hname, hmem⟩ := isCommand_iff.1 h
  obtain ⟨handler, hhandler⟩ :=
    Option.ne_none_iff_exists'.1 fun hnone ↦ handler?_eq_none_iff.1 hnone hmem
  exact isCommand_iff.2
    ⟨hprivate, name, hname, mem_ids_of_handler? (handler?_registerAll hhandler calls)⟩

/-- Under a prefix that starts with a blank no event is a command. -/
theorem WellFormed.isCommand_eq_false (h : registry.WellFormed)
    (hblank : StartsBlank registry.idPrefix) (event : Event) : registry.isCommand event = false := by
  refine Bool.eq_false_iff.2 fun hcommand ↦ ?_
  obtain ⟨-, name, hname, hmem⟩ := isCommand_iff.1 hcommand
  obtain ⟨summary, -, rfl⟩ := Option.map_eq_some_iff.1 hname
  exact (h.trimmed_iff hmem).1 (trimmed_trimString summary) hblank

end Registry

namespace Engine

variable {engine : Engine} {now : DateTime} {event : Event} {block : Option String}

/-- What handling a command comes to once its handler has answered. -/
def conclude (engine : Engine) (now : DateTime) (event : Event) (block : Option String) :
    Except CommandFault (Option String) → Event × Except CommandFault Outcome
  | .error fault => (event, .error fault)
  | .ok report =>
    if report.getD "" = "" then (event, .ok (.applied event.command none .unchanged))
    else
      match event.narrative with
      | none => (event, .error (.narrativeMissing event.command))
      | some narrative =>
        match engine.withUpdate now narrative (report.getD "") with
        | .error fault => (event, .error fault)
        | .ok longer =>
          ({ event with narrative := some longer },
            .ok (.applied event.command (some longer) (engine.updateBlock longer block)))

/-- Handling a command runs the handler that is stored under it. -/
theorem handle_eq_conclude (hcommand : engine.isCommand event = true) {handler : Handler}
    (hhandler : engine.registry.handler? event.command = some handler) :
    engine.handle now event block = engine.conclude now event block (handler event) := by
  rw [Event.command] at hhandler
  rw [handle, if_pos hcommand]
  simp only [carryOut, hhandler]
  cases handler event with
  | error fault => rfl
  | ok report =>
    rw [conclude, Event.command]
    by_cases hempty : report.getD "" = ""
    · simp only [if_pos hempty]
    · simp only [if_neg hempty]
      cases event.narrative with
      | none => rfl
      | some narrative =>
        dsimp only
        cases engine.withUpdate now narrative (report.getD "") <;> rfl

/-- Only a handler can say that a recognised command is unknown. -/
theorem conclude_unrecognized {answer : Except CommandFault (Option String)} {name : String}
    (h : (engine.conclude now event block answer).2 = .error (.unrecognized name)) :
    answer = .error (.unrecognized name) := by
  cases answer with
  | error fault => simpa [conclude] using h
  | ok report =>
    by_cases hempty : report.getD "" = ""
    · simp [conclude, hempty] at h
    · cases hnarrative : event.narrative with
      | none => simp [conclude, hempty, hnarrative] at h
      | some narrative =>
        cases hstamp : now.stamp? engine.timestampFormat <;>
          simp [conclude, hempty, hnarrative, withUpdate, hstamp] at h

def extend (engine : Engine) (calls : List (String × Handler)) : Engine :=
  { engine with registry := engine.registry.registerAll calls }

/-- Further commands do not change what handling a recognised event comes to. -/
theorem handle_extend (h : engine.isCommand event = true) (calls : List (String × Handler)) :
    (engine.extend calls).handle now event block = engine.handle now event block := by
  obtain ⟨handler, hhandler⟩ := Registry.exists_handler?_of_isCommand h
  have hextended : (engine.extend calls).isCommand event = true :=
    Registry.isCommand_registerAll h calls
  rw [handle_eq_conclude h hhandler,
    handle_eq_conclude hextended (Registry.handler?_registerAll hhandler calls)]
  rfl

/-- A private event whose summary is a registered identifier between blanks. -/
def asking (before id after : String) (narrative : Option String) : Event :=
  { classification := some .privateClass, summary := some (before ++ id ++ after), narrative }

/-- Whatever is registered, an event that asks for a registered identifier is recognised exactly when
the prefix does not start with a blank.  Handling it then runs the handler that is stored under the
identifier, and otherwise leaves the event as an ordinary one. -/
theorem asking_iff_not_startsBlank {idPrefix : String} {start : Registry}
    {initial : List (String × Handler)} (hstart : Registry.Starts idPrefix start initial)
    (calls : List (String × Handler)) {before id after : String}
    (hid : id ∈ (start.registerAll calls).ids) (hbefore : Text.AllBlank before.toList)
    (hafter : Text.AllBlank after.toList) (narrative : Option String) :
    ((start.registerAll calls).isCommand (asking before id after narrative) = true ↔
      ¬ StartsBlank idPrefix) ∧
    ∃ handler, { id, handler } ∈ (start.registerAll calls).entries ∧
      ∀ engine : Engine, engine.registry = start.registerAll calls → ∀ now block,
        (¬ StartsBlank idPrefix →
          engine.handle now (asking before id after narrative) block =
            engine.conclude now (asking before id after narrative) block
              (handler (asking before id after narrative))) ∧
        (StartsBlank idPrefix →
          engine.handle now (asking before id after narrative) block =
            (asking before id after narrative, .ok .notCommand)) := by
  have htable := hstart.tabulates calls
  generalize start.registerAll calls = registry at hid htable
  obtain ⟨handler, hhandler⟩ :=
    Option.ne_none_iff_exists'.1 fun hnone ↦ Registry.handler?_eq_none_iff.1 hnone hid
  have hasked (hblank : ¬ StartsBlank idPrefix) :
      (asking before id after narrative).commandName? = some id := by
    rw [← htable.prefix_eq] at hblank
    exact congrArg some
      (trimString_between hbefore hafter ((htable.wellFormed.trimmed_iff hid).2 hblank))
  have hcommand : registry.isCommand (asking before id after narrative) = true ↔
      ¬ StartsBlank idPrefix := by
    constructor
    · intro hcommand hprefix
      rw [htable.wellFormed.isCommand_eq_false (htable.prefix_eq ▸ hprefix)] at hcommand
      cases hcommand
    · exact fun hprefix ↦ Registry.isCommand_iff.2 ⟨rfl, id, hasked hprefix, hid⟩
  refine ⟨hcommand, handler, Registry.mem_of_handler? hhandler, ?_⟩
  rintro engine rfl now block
  constructor
  · intro hprefix
    refine handle_eq_conclude (hcommand.2 hprefix) ?_
    rwa [Event.command, hasked hprefix, Option.getD_some]
  · intro hprefix
    refine if_neg fun hrecognised ↦ ?_
    exact hcommand.1 hrecognised hprefix

/-- One command to be registered, under a name with blanks around it. -/
def purgeCalls : List (String × Handler) :=
  [("\tpurge ", fun _ ↦ .ok (some "purged"))]

/-- A command that is registered beside the built-in ones is found between other blanks than those that
its name was registered with. -/
theorem asking_iff_not_startsBlank_purge :
    "calendar-manage: purge" ∈
      ((Registry.ofBuiltins "calendar-manage: ").registerAll purgeCalls).ids ∧
    ((Registry.ofBuiltins "calendar-manage: ").registerAll purgeCalls).isCommand
      (asking "\u00A0" "calendar-manage: purge" "\n" (some "")) = true := by
  have hid : "calendar-manage: purge" ∈
      ((Registry.ofBuiltins "calendar-manage: ").registerAll purgeCalls).ids := by decide
  have hprefix : ¬ StartsBlank "calendar-manage: " := by decide
  have hbefore : ∀ c ∈ "\u00A0".toList, Text.isBlank c = true := by decide
  have hafter : ∀ c ∈ "\n".toList, Text.isBlank c = true := by decide
  exact ⟨hid, (asking_iff_not_startsBlank .builtins purgeCalls hid hbefore hafter _).1.2 hprefix⟩

/-- Under a prefix that is a blank, the first command that is listed is not recognised. -/
theorem not_asking_blankPrefix : " share-read" ∈ (Registry.ofBuiltins " ").ids ∧
    (Registry.ofBuiltins " ").isCommand (asking "" " share-read" "" none) = false := by
  decide

/-- A registry shows the table that its history of calls fills, whichever registry the history starts
from.  Every event that it recognises has its handler in the table, and what handling the event comes to
is fixed by what this handler answers, now and after all further calls. -/
theorem registerAll_tabulates_and_serves {idPrefix : String} {start : Registry}
    {initial : List (String × Handler)} (hstart : Registry.Starts idPrefix start initial)
    (calls : List (String × Handler)) :
    (start.registerAll calls).Tabulates idPrefix (initial ++ calls) ∧
    ∀ engine : Engine, engine.registry = start.registerAll calls → ∀ now event block,
      engine.isCommand event = true →
      ∃ handler, engine.registry.handler? event.command = some handler ∧
        { id := event.command, handler } ∈ (Registry.empty idPrefix).accepted (initial ++ calls) ∧
        engine.handle now event block = engine.conclude now event block (handler event) ∧
        (∀ name, (engine.handle now event block).2 = .error (.unrecognized name) →
          handler event = .error (.unrecognized name)) ∧
        ∀ more, (engine.extend more).handle now event block = engine.handle now event block := by
  have htable := hstart.tabulates calls
  constructor
  · exact htable
  · intro engine hregistry now event block hcommand
    obtain ⟨handler, hhandler⟩ := Registry.exists_handler?_of_isCommand hcommand
    have hhandle : engine.handle now event block = engine.conclude now event block (handler event) :=
      handle_eq_conclude hcommand hhandler
    refine ⟨handler, hhandler, ?_, hhandle, ?_, ?_⟩
    · rw [← htable.entries_eq, ← hregistry]
      exact Registry.mem_of_handler? hhandler
    · intro name hname
      rw [hhandle] at hname
      exact conclude_unrecognized hname
    · exact fun more ↦ handle_extend hcommand more

/-- Calls that register a built-in command anew, a blank name and a command of their own. -/
def laterCalls : List (String × Handler) :=
  [("share-read", fun _ ↦ .ok none), (" ", fun _ ↦ .ok none), ("purge", fun _ ↦ .ok (some "purged"))]

def laterEngine : Engine :=
  ofRegistry ((Registry.ofBuiltins "").registerAll laterCalls) Settings.default

/-- A built-in command that was registered anew is handled as before. -/
theorem registerAll_tabulates_and_serves_share :
    laterEngine.registry.Tabulates "" (Registry.builtinCalls ++ laterCalls) ∧
    laterEngine.isCommand (asking " " "share-read" "" none) = true ∧
    ∃ handler, { id := "share-read", handler } ∈
        (Registry.empty "").accepted (Registry.builtinCalls ++ laterCalls) ∧
      laterEngine.handle DateTime.epoch (asking " " "share-read" "" none) none =
        laterEngine.conclude DateTime.epoch (asking " " "share-read" "" none) none
          (handler (asking " " "share-read" "" none)) := by
  have hstart : Registry.Starts "" (Registry.ofBuiltins "") Registry.builtinCalls := .builtins
  obtain ⟨htable, hserves⟩ := registerAll_tabulates_and_serves hstart laterCalls
  have hcommand : laterEngine.isCommand (asking " " "share-read" "" none) = true := by decide
  have hname : (asking " " "share-read" "" none).command = "share-read" := by decide
  obtain ⟨handler, -, haccepted, hhandle, -⟩ :=
    hserves laterEngine rfl DateTime.epoch _ none hcommand
  exact ⟨htable, hcommand, handler, hname ▸ haccepted, hhandle⟩

end Engine

end CalendarCommand
