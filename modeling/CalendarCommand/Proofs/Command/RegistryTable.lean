import Mathlib.Data.List.Nodup
import CalendarCommand.Command.Registry

/-!
# The registry as a table

What a registry shows is a table: the identifiers in an order, and a handler for each of them.
Registering a command inserts its identifier at the end of the table unless it is there already, and a
blank name inserts nothing.  So the first registration of an identifier is the one that counts, and no
later one moves or changes it.

A call of `register` can end in three ways, listed in `Registering`; all that is shown about histories
of calls rests on this list.
-/

namespace CalendarCommand

/-- Identifiers in an order, with a handler for each of them. -/
structure CommandTable where
  order : List String
  handler? : String → Option Handler

namespace CommandTable

def empty : CommandTable :=
  { order := [], handler? := fun _ ↦ none }

/-- The table with a handler for an identifier at its end, unless it has the identifier. -/
def insertNew (table : CommandTable) (id : String) (handler : Handler) : CommandTable :=
  if id ∈ table.order then table
  else
    { order := table.order ++ [id]
      handler? := fun other ↦ if other = id then some handler else table.handler? other }

theorem insertNew_of_mem {table : CommandTable} {id : String} (h : id ∈ table.order)
    (handler : Handler) : table.insertNew id handler = table :=
  if_pos h

theorem insertNew_of_notMem {table : CommandTable} {id : String} (h : id ∉ table.order)
    (handler : Handler) : table.insertNew id handler =
      { order := table.order ++ [id]
        handler? := fun other ↦ if other = id then some handler else table.handler? other } :=
  if_neg h

/-- The table after a call that registers a handler under a name behind a prefix. -/
def register (idPrefix : String) (table : CommandTable) (call : String × Handler) : CommandTable :=
  if Text.trimString call.1 = "" then table
  else table.insertNew (idPrefix ++ Text.trimString call.1) call.2

end CommandTable

namespace Registry

variable {registry : Registry} {name id : String} {handler : Handler}

def table (registry : Registry) : CommandTable :=
  { order := registry.ids, handler? := registry.handler? }

/-! ## Looking up -/

theorem contains_iff : registry.contains id = true ↔ id ∈ registry.ids := by
  simp [contains, ids]

theorem handler?_eq_none_iff : registry.handler? id = none ↔ id ∉ registry.ids := by
  simp [handler?, ids]

theorem mem_of_handler? (h : registry.handler? id = some handler) :
    { id, handler } ∈ registry.entries := by
  obtain ⟨entry, hfind, rfl⟩ := Option.map_eq_some_iff.1 h
  have hid := List.find?_some hfind
  rw [beq_iff_eq] at hid
  subst hid
  exact List.mem_of_find?_eq_some hfind

theorem mem_ids_of_handler? (h : registry.handler? id = some handler) : id ∈ registry.ids :=
  List.mem_map.2 ⟨_, mem_of_handler? h, rfl⟩

/-- Where no identifier occurs twice, an entry is found under its identifier. -/
theorem handler?_of_mem (hnodup : registry.ids.Nodup) {entry : Entry}
    (h : entry ∈ registry.entries) : registry.handler? entry.id = some entry.handler := by
  cases hfound : registry.handler? entry.id with
  | none => exact absurd (List.mem_map.2 ⟨entry, h, rfl⟩) (handler?_eq_none_iff.1 hfound)
  | some handler =>
    have hsame := List.inj_on_of_nodup_map hnodup (mem_of_handler? hfound) h rfl
    rw [← hsame]

/-! ## One call -/

/-- All that a call which registers a handler can come to. -/
inductive Registering (registry : Registry) (name : String) (handler : Handler) :
    Except CommandFault Registry → Prop
  | unnamed (hname : Text.trimString name = "") :
      Registering registry name handler (.error (.settings .unnamedCommand))
  | taken (hname : Text.trimString name ≠ "")
      (hid : registry.identifierOf (Text.trimString name) ∈ registry.ids) :
      Registering registry name handler
        (.error (.settings (.duplicateCommand (registry.identifierOf (Text.trimString name)))))
  | added (hname : Text.trimString name ≠ "")
      (hid : registry.identifierOf (Text.trimString name) ∉ registry.ids) :
      Registering registry name handler
        (.ok { registry with
          entries := registry.entries ++
            [{ id := registry.identifierOf (Text.trimString name), handler }] })

theorem registering (registry : Registry) (name : String) (handler : Handler) :
    registry.Registering name handler (registry.register name handler) := by
  rw [register]
  dsimp only
  split_ifs with hname hid
  · exact .unnamed hname
  · exact .taken hname (contains_iff.1 hid)
  · exact .added hname fun hmem ↦ hid (contains_iff.2 hmem)

/-- A call is refused exactly where the name is blank or its identifier is taken. -/
theorem register_refused_iff : (∃ fault, registry.register name handler = .error fault) ↔
    Text.trimString name = "" ∨
      registry.identifierOf (Text.trimString name) ∈ registry.ids := by
  generalize hanswer : registry.register name handler = answer
  cases hanswer ▸ registry.registering name handler with
  | unnamed hname => simp [hname]
  | taken hname hid => simp [hid]
  | added hname hid => simp [hname, hid]

theorem register_of_fresh (hne : name ≠ "") (htrim : Text.trimString name = name)
    (hid : registry.identifierOf name ∉ registry.ids) :
    registry.register name handler = .ok { registry with
      entries := registry.entries ++ [{ id := registry.identifierOf name, handler }] } := by
  rw [register, htrim]
  dsimp only
  rw [if_neg hne, if_neg fun hcontains ↦ hid (contains_iff.1 hcontains)]

/-- The identifiers of a longer registry. -/
theorem ids_extended (entry : Entry) :
    ids { registry with entries := registry.entries ++ [entry] } = registry.ids ++ [entry.id] := by
  simp [ids]

theorem handler?_extended {entry : Entry} (h : entry.id ∉ registry.ids) (other : String) :
    handler? { registry with entries := registry.entries ++ [entry] } other =
      if other = entry.id then some entry.handler else registry.handler? other := by
  have hlast : handler? { registry with entries := registry.entries ++ [entry] } other =
      (registry.handler? other).or
        (if entry.id == other then some entry.handler else none) := by
    simp only [handler?, List.find?_append, Option.map_or, List.find?_singleton]
    split <;> rfl
  rw [hlast]
  by_cases hother : other = entry.id
  · subst hother
    simp [handler?_eq_none_iff.2 h]
  · simp [hother, Ne.symm hother]

/-! ## Histories of calls -/

theorem registerAll_refused {fault : CommandFault}
    (h : registry.register name handler = .error fault) (calls : List (String × Handler)) :
    registry.registerAll ((name, handler) :: calls) = registry.registerAll calls := by
  rw [registerAll, h]

theorem registerAll_accepted {extended : Registry}
    (h : registry.register name handler = .ok extended) (calls : List (String × Handler)) :
    registry.registerAll ((name, handler) :: calls) = extended.registerAll calls := by
  rw [registerAll, h]

/-- What holds of a registry and outlives every call that is accepted holds after all calls. -/
theorem registerAll_induction {motive : Registry → Prop} (hstart : motive registry)
    (hstep : ∀ {registry extended : Registry} {name : String} {handler : Handler},
      motive registry → registry.register name handler = .ok extended → motive extended)
    (calls : List (String × Handler)) : motive (registry.registerAll calls) := by
  induction calls generalizing registry with
  | nil => exact hstart
  | cons call calls ih =>
    obtain ⟨name, handler⟩ := call
    cases hanswer : registry.register name handler with
    | error fault =>
      rw [registerAll_refused hanswer]
      exact ih hstart
    | ok extended =>
      rw [registerAll_accepted hanswer]
      exact ih (hstep hstart hanswer)

theorem registerAll_append (first second : List (String × Handler)) :
    registry.registerAll (first ++ second) = (registry.registerAll first).registerAll second := by
  induction first generalizing registry with
  | nil => rfl
  | cons call first ih =>
    obtain ⟨name, handler⟩ := call
    cases hanswer : registry.register name handler with
    | error fault =>
      rw [List.cons_append, registerAll_refused hanswer, registerAll_refused hanswer, ih]
    | ok extended =>
      rw [List.cons_append, registerAll_accepted hanswer, registerAll_accepted hanswer, ih]

theorem idPrefix_of_register {extended : Registry}
    (h : registry.register name handler = .ok extended) :
    extended.idPrefix = registry.idPrefix := by
  cases h ▸ registry.registering name handler with
  | added hname hid => rfl

theorem idPrefix_registerAll (calls : List (String × Handler)) :
    (registry.registerAll calls).idPrefix = registry.idPrefix :=
  registerAll_induction (motive := fun later ↦ later.idPrefix = registry.idPrefix) rfl
    (fun hprefix h ↦ (idPrefix_of_register h).trans hprefix) calls

/-- A call that is refused does nothing to the table. -/
theorem table_refused {fault : CommandFault} (h : registry.register name handler = .error fault) :
    registry.table.register registry.idPrefix (name, handler) = registry.table := by
  cases h ▸ registry.registering name handler with
  | unnamed hname => exact if_pos hname
  | taken hname hid => exact (if_neg hname).trans (CommandTable.insertNew_of_mem hid handler)

/-- A call that is accepted inserts into the table. -/
theorem table_accepted {extended : Registry}
    (h : registry.register name handler = .ok extended) :
    extended.table = registry.table.register registry.idPrefix (name, handler) := by
  cases h ▸ registry.registering name handler with
  | added hname hid =>
    calc
      _ = registry.table.insertNew (registry.identifierOf (Text.trimString name)) handler := by
        rw [CommandTable.insertNew_of_notMem hid, table, ids_extended,
          funext (handler?_extended hid)]
        rfl
      _ = registry.table.register registry.idPrefix (name, handler) := (if_neg hname).symm

/-- A history of calls inserts into the table, call by call. -/
theorem table_registerAll (calls : List (String × Handler)) :
    (registry.registerAll calls).table =
      calls.foldl (CommandTable.register registry.idPrefix) registry.table := by
  induction calls generalizing registry with
  | nil => rfl
  | cons call calls ih =>
    obtain ⟨name, handler⟩ := call
    cases hanswer : registry.register name handler with
    | error fault => rw [registerAll_refused hanswer, ih, List.foldl_cons, table_refused hanswer]
    | ok extended =>
      rw [registerAll_accepted hanswer, ih, List.foldl_cons, ← table_accepted hanswer,
        idPrefix_of_register hanswer]

/-- The entries that the accepted ones of the calls add, in the order of the calls. -/
def accepted (registry : Registry) : List (String × Handler) → List Entry
  | [] => []
  | (name, handler) :: calls =>
    match registry.register name handler with
    | .ok extended =>
      { id := registry.identifierOf (Text.trimString name), handler } :: extended.accepted calls
    | .error _ => registry.accepted calls

theorem entries_registerAll (calls : List (String × Handler)) :
    (registry.registerAll calls).entries = registry.entries ++ registry.accepted calls := by
  induction calls generalizing registry with
  | nil => exact (List.append_nil _).symm
  | cons call calls ih =>
    obtain ⟨name, handler⟩ := call
    cases hanswer : registry.register name handler with
    | error fault => rw [registerAll_refused hanswer, ih, accepted, hanswer]
    | ok extended =>
      rw [registerAll_accepted hanswer, ih, accepted, hanswer]
      cases hanswer ▸ registry.registering name handler with
      | added hname hid => exact List.append_assoc _ _ _

/-- An identifier keeps its handler over all later calls. -/
theorem handler?_registerAll (h : registry.handler? id = some handler)
    (calls : List (String × Handler)) :
    (registry.registerAll calls).handler? id = some handler := by
  refine registerAll_induction (motive := fun later ↦ later.handler? id = some handler) h ?_ calls
  intro earlier extended name other hearlier hregister
  cases hregister ▸ earlier.registering name other with
  | added hname hid =>
    have hne : id ≠ earlier.identifierOf (Text.trimString name) := fun heq ↦
      hid (heq ▸ mem_ids_of_handler? hearlier)
    rw [handler?_extended hid, if_neg hne, hearlier]

/-! ## Well-formed registries -/

/-- No identifier occurs twice, and each is the prefix with a name behind it that has no blank
end. -/
structure WellFormed (registry : Registry) : Prop where
  nodup : registry.ids.Nodup
  named : ∀ id ∈ registry.ids, ∃ name, name ≠ "" ∧ Text.Trimmed name.toList ∧
    id = registry.idPrefix ++ name

theorem wellFormed_empty (idPrefix : String) : (empty idPrefix).WellFormed where
  nodup := List.nodup_nil
  named := nofun

theorem WellFormed.register {extended : Registry} (hregistry : registry.WellFormed)
    (h : registry.register name handler = .ok extended) : extended.WellFormed := by
  cases h ▸ registry.registering name handler with
  | added hname hid =>
    constructor
    · rw [ids_extended, List.nodup_append_comm, List.singleton_append, List.nodup_cons]
      exact ⟨hid, hregistry.nodup⟩
    · intro id hmem
      rw [ids_extended, List.mem_append, List.mem_singleton] at hmem
      rcases hmem with hmem | rfl
      · exact hregistry.named id hmem
      · refine ⟨Text.trimString name, hname, ?_, rfl⟩
        rw [Text.trimString, String.toList_ofList]
        exact Text.trimmed_trim name.toList

theorem WellFormed.registerAll (h : registry.WellFormed) (calls : List (String × Handler)) :
    (registry.registerAll calls).WellFormed :=
  registerAll_induction h WellFormed.register calls

def builtinCalls : List (String × Handler) :=
  Builtin.all.map fun command ↦ (command.name, command.handler)

/-- Calls with names of their own, no two alike and none blank or taken, are all accepted. -/
theorem registerAll_of_fresh (calls : List (String × Handler))
    (hname : ∀ call ∈ calls, call.1 ≠ "" ∧ Text.trimString call.1 = call.1)
    (hfresh : (registry.ids ++ calls.map fun call ↦ registry.identifierOf call.1).Nodup) :
    registry.registerAll calls = { registry with
      entries := registry.entries ++
        calls.map fun call ↦ { id := registry.identifierOf call.1, handler := call.2 } } := by
  induction calls generalizing registry with
  | nil => simp [registerAll]
  | cons call calls ih =>
    obtain ⟨name, handler⟩ := call
    obtain ⟨⟨hne, htrim⟩, hrest⟩ := List.forall_mem_cons.1 hname
    rw [List.map_cons] at hfresh
    have hid : registry.identifierOf name ∉ registry.ids := fun hmem ↦
      (List.nodup_cons.1 (List.nodup_middle.1 hfresh)).1 (List.mem_append_left _ hmem)
    rw [List.append_cons, ← ids_extended { id := _, handler }] at hfresh
    rw [registerAll_accepted (register_of_fresh hne htrim hid), ih hrest hfresh]
    simp [identifierOf]

/-- The registry of the built-in commands is what their calls make of the empty one. -/
theorem ofBuiltins_eq (idPrefix : String) :
    ofBuiltins idPrefix = (empty idPrefix).registerAll builtinCalls := by
  have hname : ∀ call ∈ builtinCalls, call.1 ≠ "" ∧ Text.trimString call.1 = call.1 := by
    have hall : ∀ command ∈ Builtin.all, command.name ≠ "" ∧
        Text.trimString command.name = command.name := by decide
    intro call hcall
    obtain ⟨command, hcommand, rfl⟩ := List.mem_map.1 hcall
    exact hall command hcommand
  have hdistinct : (Builtin.all.map Builtin.name).Nodup := by decide
  have hfresh : ((empty idPrefix).ids ++
      builtinCalls.map fun call ↦ (empty idPrefix).identifierOf call.1).Nodup := by
    have hmap := hdistinct.map (f := (idPrefix ++ ·)) fun _ _ h ↦ String.append_right_inj _ |>.1 h
    simpa [builtinCalls, identifierOf, empty, ids, Function.comp_def] using hmap
  rw [registerAll_of_fresh builtinCalls hname hfresh]
  simp [ofBuiltins, builtinCalls, empty, identifierOf, Function.comp_def]

/-- The registries that callers start from, with the calls that they stand for. -/
inductive Starts (idPrefix : String) : Registry → List (String × Handler) → Prop
  | empty : Starts idPrefix (empty idPrefix) []
  | builtins : Starts idPrefix (ofBuiltins idPrefix) builtinCalls

theorem Starts.eq {idPrefix : String} {start : Registry} {initial : List (String × Handler)}
    (h : Starts idPrefix start initial) : start = (Registry.empty idPrefix).registerAll initial := by
  cases h with
  | empty => rfl
  | builtins => exact ofBuiltins_eq idPrefix

/-- The registry shows the table that a history of calls has filled: the accepted calls in their order,
each identifier with the handler of the one call that was accepted for it. -/
structure Tabulates (registry : Registry) (idPrefix : String)
    (history : List (String × Handler)) : Prop where
  table_eq : registry.table =
    history.foldl (CommandTable.register idPrefix) CommandTable.empty
  prefix_eq : registry.idPrefix = idPrefix
  wellFormed : registry.WellFormed
  entries_eq : registry.entries = (Registry.empty idPrefix).accepted history
  handler?_iff : ∀ id handler,
    registry.handler? id = some handler ↔ { id, handler } ∈ registry.entries
  refused_iff : ∀ name handler, (∃ fault, registry.register name handler = .error fault) ↔
    Text.trimString name = "" ∨ idPrefix ++ Text.trimString name ∈ registry.ids
  refused_eq : ∀ name handler fault, registry.register name handler = .error fault →
    registry.registerAll [(name, handler)] = registry
  kept : ∀ id handler more, registry.handler? id = some handler →
    (registry.registerAll more).handler? id = some handler

/-- A history of calls fills a table. -/
theorem tabulates_registerAll (idPrefix : String) (history : List (String × Handler)) :
    ((Registry.empty idPrefix).registerAll history).Tabulates idPrefix history := by
  have hwell := (wellFormed_empty idPrefix).registerAll history
  have hprefix : ((Registry.empty idPrefix).registerAll history).idPrefix = idPrefix :=
    idPrefix_registerAll history
  constructor
  · exact table_registerAll history
  · exact hprefix
  · exact hwell
  · exact entries_registerAll history
  · exact fun id handler ↦ ⟨mem_of_handler?, handler?_of_mem hwell.nodup⟩
  · intro name handler
    rw [register_refused_iff, identifierOf, hprefix]
  · exact fun name handler fault h ↦ registerAll_refused h []
  · exact fun id handler more h ↦ handler?_registerAll h more

/-- Calls from a start fill the table of the calls that the start stands for and these. -/
theorem Starts.tabulates {idPrefix : String} {start : Registry}
    {initial : List (String × Handler)} (h : Starts idPrefix start initial)
    (calls : List (String × Handler)) :
    (start.registerAll calls).Tabulates idPrefix (initial ++ calls) := by
  rw [h.eq, ← registerAll_append]
  exact tabulates_registerAll idPrefix (initial ++ calls)

end Registry

end CalendarCommand
