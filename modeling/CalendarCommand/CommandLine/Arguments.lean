/-!
# Arguments

The arguments name a subcommand, the file or directory it works on, and options.  The option for
the path of the settings may stand in front of the subcommand as well as behind it, and the one
behind it counts; all other options stand behind the subcommand they belong to.  Behind a separator
nothing is an option.  No option is given twice in one place.
-/

namespace CalendarCommand

namespace CommandLine

inductive Argument where
  /-- Names the path of the settings. -/
  | settings (path : String)
  /-- Asks for output that is meant for programs. -/
  | json
  /-- Asks to leave all files as they are. -/
  | dryRun
  /-- Asks to go on without a confirmation. -/
  | force
  /-- Ends the options. -/
  | separator
  /-- Names a subcommand, a file or a directory. -/
  | operand (text : String)
deriving DecidableEq, Repr

/-- What the command line is asked to do. -/
inductive Task where
  | commands
  | check (file : String) (json : Bool)
  | apply (file : String) (dryRun json : Bool)
  | applyAll (directory : String) (dryRun force : Bool)
deriving DecidableEq, Repr

/-- A task with the path of the settings, where one is given. -/
structure Invocation where
  settingsPath : Option String
  task : Task
deriving DecidableEq, Repr

namespace Argument

def settingsOption : String := "--config"

def isOption (text : String) : Bool :=
  text.toList.head? == some '-' && text != "-"

/-- The value of the option for the path of the settings, where it is joined to the option. -/
def joinedSettings? (text : String) : Option String :=
  let start := settingsOption.toList ++ ['=']
  if start.isPrefixOf text.toList then some (String.ofList (text.toList.drop start.length)) else none

/-- The argument of a text that stands by itself. -/
def ofText? (text : String) : Option Argument :=
  match joinedSettings? text with
  | some path => if path = "" then none else some (.settings path)
  | none =>
    if text = "--json" then some .json
    else if text = "--dry-run" then some .dryRun
    else if text = "--force" ∨ text = "-f" then some .force
    else if isOption text then none
    else some (.operand text)

def ofTexts? : List String → Option (List Argument)
  | [] => some []
  | [text] => if text = "--" then some [.separator] else (ofText? text).map fun first => [first]
  | text :: next :: rest =>
    if text = "--" then some (.separator :: (next :: rest).map .operand)
    else if text = settingsOption then
      if next = "" ∨ isOption next then none
      else (ofTexts? rest).map fun others => .settings next :: others
    else
      (ofText? text).bind fun first => (ofTexts? (next :: rest)).map fun others => first :: others

def settings? : Argument → Option String
  | .settings path => some path
  | _ => none

def operand? : Argument → Option String
  | .operand text => some text
  | _ => none

/-- The argument is an option without a value. -/
def isFlag : Argument → Bool
  | .json => true
  | .dryRun => true
  | .force => true
  | _ => false

end Argument

namespace Task

/-- The options of arguments are among the allowed ones, and none occurs twice. -/
def allowsFlags (allowed arguments : List Argument) : Bool :=
  let flags := arguments.filter Argument.isFlag
  flags.all allowed.contains && decide flags.Nodup

def ofArguments? (name : String) (arguments : List Argument) : Option Task :=
  let given := fun argument => arguments.contains argument
  match name, arguments.filterMap Argument.operand? with
  | "commands", [] => if allowsFlags [] arguments then some .commands else none
  | "check", [file] =>
    if file ≠ "" ∧ allowsFlags [.json] arguments then some (.check file (given .json)) else none
  | "apply", [file] =>
    if file ≠ "" ∧ allowsFlags [.dryRun, .json] arguments then
      some (.apply file (given .dryRun) (given .json))
    else none
  | "apply-all", [directory] =>
    if directory ≠ "" ∧ allowsFlags [.dryRun, .force] arguments then
      some (.applyAll directory (given .dryRun) (given .force))
    else none
  | _, _ => none

end Task

namespace Invocation

/-- The path of the settings that arguments name once or not at all. -/
def settingsPath? (arguments : List Argument) : Option (Option String) :=
  match arguments.filterMap Argument.settings? with
  | [] => some none
  | [path] => some (some path)
  | _ => none

/-- The invocation of a subcommand behind the arguments in front of it. -/
def ofParts? (front : List Argument) (name : String) (arguments : List Argument) :
    Option Invocation :=
  (settingsPath? front).bind fun outer => (settingsPath? arguments).bind fun inner =>
    (Task.ofArguments? name arguments).map fun task => { settingsPath := inner.or outer, task }

def ofArguments? (texts : List String) : Option Invocation :=
  (Argument.ofTexts? texts).bind fun arguments =>
    let front := arguments.takeWhile fun argument => argument.settings?.isSome
    match arguments.drop front.length with
    | .operand name :: rest => ofParts? front name rest
    | _ => none

end Invocation

end CommandLine

end CalendarCommand
