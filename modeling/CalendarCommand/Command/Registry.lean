import CalendarCommand.Command.Builtin

/-!
# The registry of commands

A registry maps identifiers to handlers and keeps the order of registration.  An identifier is the
prefix of the registry followed by the trimmed name of the command.  An identifier is registered
once: a second registration is refused and changes nothing.

Recognition and look-up read the same list with the same key, so an event that is recognised as a
command has a handler.
-/

namespace CalendarCommand

structure Entry where
  id : String
  handler : Handler

/-- The registered commands, all under one prefix, in the order of their registration. -/
structure Registry where
  idPrefix : String
  entries : List Entry

namespace Registry

def empty (idPrefix : String) : Registry :=
  { idPrefix, entries := [] }

def identifierOf (registry : Registry) (name : String) : String :=
  registry.idPrefix ++ name

def ofBuiltins (idPrefix : String) : Registry :=
  { idPrefix
    entries := Builtin.all.map fun command =>
      { id := idPrefix ++ command.name, handler := command.handler } }

/-- The identifiers in the order of registration. -/
def ids (registry : Registry) : List String :=
  registry.entries.map Entry.id

def contains (registry : Registry) (id : String) : Bool :=
  registry.entries.any fun entry => entry.id == id

def handler? (registry : Registry) (id : String) : Option Handler :=
  (registry.entries.find? fun entry => entry.id == id).map Entry.handler

def size (registry : Registry) : Nat :=
  registry.entries.length

def isEmpty (registry : Registry) : Bool :=
  registry.entries.isEmpty

/-- Adds a command behind the registered ones, under the trimmed name. -/
def register (registry : Registry) (name : String) (handler : Handler) :
    Except CommandFault Registry :=
  let name := Text.trimString name
  if name = "" then .error (.settings .unnamedCommand)
  else
    let id := registry.identifierOf name
    if registry.contains id then .error (.settings (.duplicateCommand id))
    else .ok { registry with entries := registry.entries ++ [{ id, handler }] }

/-- One identifier a line, in the order of registration. -/
def listing (registry : Registry) : String :=
  "\n".intercalate registry.ids

/-- The event is a command: it is private and its trimmed summary is a registered identifier. -/
def isCommand (registry : Registry) (event : Event) : Bool :=
  event.isPrivate &&
    match event.commandName? with
    | some name => registry.contains name
    | none => false

/-! ## Histories -/

/-- Registers commands one after the other; a registration that is refused is passed over. -/
def registerAll (registry : Registry) : List (String × Handler) → Registry
  | [] => registry
  | (name, handler) :: more =>
    match registry.register name handler with
    | .ok extended => extended.registerAll more
    | .error _ => registry.registerAll more

/-! ## Description -/

/-- A character of an identifier between double quotes; a control character without a mark of its
own is written by its code to base sixteen. -/
def quoteChar : Char → List Char
  | '"' => ['\\', '"']
  | '\\' => ['\\', '\\']
  | '\n' => ['\\', 'n']
  | '\r' => ['\\', 'r']
  | '\t' => ['\\', 't']
  | '\x00' => ['\\', '0']
  | c =>
    if c.toNat < 32 ∨ c.toNat = 127 then
      ['\\', 'u', '\x7b'] ++ Nat.toDigits 16 c.toNat ++ ['\x7d']
    else [c]

def quote (text : String) : String :=
  "\"" ++ String.ofList (text.toList.flatMap quoteChar) ++ "\""

/-- The prefix and the identifiers of a registry in one line. -/
def description (registry : Registry) : String :=
  "CommandRegistry \x7b prefix: " ++ quote registry.idPrefix ++ ", ids: [" ++
    ", ".intercalate (registry.ids.map quote) ++ "] \x7d"

end Registry

end CalendarCommand
