import CalendarCommand.Decimal.Binary64

/-!
# Configuration documents

A TOML document is a tree of tables whose members keep the order of the text.  Each table remembers
how it came about, because that decides what may still be added to it.  An inline table is closed.
A table that a header names cannot be named again, and dotted keys do not reach into it from
outside.  A table on the way to the table of a header may later get a header of its own, unless a
dotted key leads into it before that, which makes it a table of dotted keys.  Such a table grows by
dotted keys only.
-/

namespace CalendarCommand

/-- How a table came about. -/
inductive TableOrigin where
  /-- It is written between braces. -/
  | inline
  /-- A header names it. -/
  | header
  /-- It lies on the way to a table that a header names. -/
  | headerPath
  /-- It lies on the way of a dotted key. -/
  | dottedKey
deriving DecidableEq, Repr

inductive Toml where
  | string (value : String)
  | integer (value : Int)
  | float (value : Binary64)
  | boolean (value : Bool)
  /-- A date, a time or both, as it is written out. -/
  | moment (text : String)
  | array (items : List Toml)
  | table (origin : TableOrigin) (members : List (String × Toml))
  /-- An array whose elements have headers; the latest element comes first. -/
  | tables (latest : List (String × Toml)) (earlier : List (List (String × Toml)))
deriving Repr

namespace Toml

/-- A table that is being filled. -/
structure Table where
  origin : TableOrigin
  members : List (String × Toml)
deriving Repr

/-- A key in its parts: the tables on its way and the name in the last of them. -/
structure Key where
  path : List String
  name : String
deriving DecidableEq, Repr

inductive Statement where
  /-- Goes on with the table of a key. -/
  | header (key : Key)
  /-- Goes on with a new element of the array of a key. -/
  | arrayHeader (key : Key)
  /-- Gives a value to a key. -/
  | assignment (key : Key) (value : Toml)
deriving Repr

/-- The members with a name set to a value, in its place or behind the others. -/
def setMember (name : String) (value : Toml) : List (String × Toml) → List (String × Toml)
  | [] => [(name, value)]
  | member :: members =>
    if member.1 == name then (name, value) :: members
    else member :: setMember name value members

namespace Table

def get? (table : Table) (name : String) : Option Toml :=
  (table.members.find? fun member => member.1 == name).map Prod.snd

def set (table : Table) (name : String) (value : Toml) : Table :=
  { table with members := setMember name value table.members }

/-- Changes the table at the end of a path.  Missing tables on the way are made with an origin; an
array of tables leads on to its latest element; a dotted key does not enter a table that a header
names, and takes a table on the way of a header over. -/
def changeAt? (made : TableOrigin) (change : Table → Option Table) :
    List String → Table → Option Table
  | [], target => change target
  | name :: path, target =>
    match target.get? name with
    | none =>
      (changeAt? made change path { origin := made, members := [] }).map fun inner =>
        target.set name (.table inner.origin inner.members)
    | some (.table origin members) =>
      if origin = .inline ∨ (made = .dottedKey ∧ origin = .header) then none
      else
        let entered := if made = .dottedKey ∧ origin = .headerPath then .dottedKey else origin
        (changeAt? made change path { origin := entered, members }).map fun inner =>
          target.set name (.table inner.origin inner.members)
    | some (.tables latest earlier) =>
      (changeAt? made change path { origin := .header, members := latest }).map fun inner =>
        target.set name (.tables inner.members earlier)
    | some _ => none

/-- Gives a value to a key that has none.  A table is filled either by dotted keys or by plain
ones. -/
def assign? (table : Table) (key : Key) (value : Toml) : Option Table :=
  let put := fun (inner : Table) =>
    if (inner.origin = .dottedKey ∧ key.path = []) ∨ (inner.origin ≠ .dottedKey ∧ key.path ≠ []) then
      none
    else
      match inner.get? key.name with
      | some _ => none
      | none => some (inner.set key.name value)
  changeAt? .dottedKey put key.path table

/-- Names the table of a key by a header. -/
def openHeader? (table : Table) (key : Key) : Option Table :=
  let put := fun (inner : Table) =>
    match inner.get? key.name with
    | none => some (inner.set key.name (.table .header []))
    | some (.table .headerPath members) => some (inner.set key.name (.table .header members))
    | some _ => none
  changeAt? .headerPath put key.path table

/-- Adds an element to the array of tables of a key. -/
def openArrayHeader? (table : Table) (key : Key) : Option Table :=
  let put := fun (inner : Table) =>
    match inner.get? key.name with
    | none => some (inner.set key.name (.tables [] []))
    | some (.tables latest earlier) => some (inner.set key.name (.tables [] (latest :: earlier)))
    | some _ => none
  changeAt? .headerPath put key.path table

/-- The members of a table between braces. -/
def ofPairs? (pairs : List (Key × Toml)) : Option Table :=
  pairs.foldlM (fun table pair => table.assign? pair.1 pair.2) { origin := .inline, members := [] }

/-- The document after further statements, where `current` leads to the table that is being
filled. -/
def extend? (current : List String) (root : Table) : List Statement → Option Table
  | [] => some root
  | .header key :: statements =>
    (root.openHeader? key).bind fun root => extend? (key.path ++ [key.name]) root statements
  | .arrayHeader key :: statements =>
    (root.openArrayHeader? key).bind fun root => extend? (key.path ++ [key.name]) root statements
  | .assignment key value :: statements =>
    (changeAt? .headerPath (fun table => table.assign? key value) current root).bind fun root =>
      extend? current root statements

def ofStatements? (statements : List Statement) : Option Table :=
  extend? [] { origin := .header, members := [] } statements

end Table

end Toml

end CalendarCommand
