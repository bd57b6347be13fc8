/-!
# Paths

A path is a text in which a slash ends each name on the way.  A path that starts with a slash leads
on from the root, and any other one from the directory in which one works.  An empty name and a
single point lead nowhere else, and two points lead one directory up.
-/

namespace CalendarCommand

/-- Where something lies: the names on the way from the root. -/
abbrev Place := List String

/-- The text can name something in a directory. -/
structure IsFileName (name : String) : Prop where
  ne_empty : name ≠ ""
  ne_point : name ≠ "."
  ne_points : name ≠ ".."
  slash_notMem : '/' ∉ name.toList

instance (name : String) : Decidable (IsFileName name) :=
  decidable_of_iff (name ≠ "" ∧ name ≠ "." ∧ name ≠ ".." ∧ '/' ∉ name.toList)
    ⟨fun ⟨hempty, hpoint, hpoints, hslash⟩ => ⟨hempty, hpoint, hpoints, hslash⟩,
      fun h => ⟨h.ne_empty, h.ne_point, h.ne_points, h.slash_notMem⟩⟩

/-- Something can lie at the place. -/
def Place.IsNamed (place : Place) : Prop :=
  ∀ name ∈ place, IsFileName name

instance (place : Place) : Decidable place.IsNamed :=
  inferInstanceAs (Decidable (∀ name ∈ place, IsFileName name))

namespace Path

def join (directory name : String) : String :=
  if directory = "" ∨ directory.toList.getLast? = some '/' then directory ++ name
  else directory ++ "/" ++ name

/-- The path leads on from the root. -/
def isAbsolute (path : String) : Bool :=
  path.toList.head? == some '/'

def pieces (text : List Char) : List (List Char) :=
  text.splitOn '/'

/-- The names of a path, empty ones and points included. -/
def names (path : String) : List String :=
  (pieces path.toList).map String.ofList

/-- The directory that a path leads on from. -/
def origin (directory : Place) (path : String) : Place :=
  if isAbsolute path then [] else directory

/-- What follows the last point of a name; the point that a name starts with does not count. -/
def extension? (name : String) : Option String :=
  let reversed := name.toList.reverse
  let ending := reversed.takeWhile (· ≠ '.')
  match reversed.drop ending.length with
  | '.' :: _ :: _ => if name = ".." then none else some (String.ofList ending.reverse)
  | _ => none

/-- The text of a path without the slashes, and single points behind slashes, that it ends with. -/
def dropTrailing : List String → List String
  | [] => []
  | name :: names =>
    match dropTrailing names with
    | [] => if name = "" ∨ name = "." then [] else [name]
    | kept => name :: kept

def lastName? (path : String) : Option String :=
  (dropTrailing (names path)).getLast?.filter (· ≠ "..")

/-- The name that stands in for an absent one in front of an ending. -/
def placeholder : String := ".placeholder"

/-- The path with an ending behind it.  Where the last name has no ending, the new one goes directly
behind that name, and otherwise behind the whole path, which needs a name to end in.  A path without
a last name stays as it is. -/
def addEnding (path ending : String) : String :=
  match lastName? path with
  | none => path
  | some name =>
    if (extension? name).isNone then "/".intercalate (dropTrailing (names path)) ++ ending
    else if path.toList.getLast? = some '/' then path ++ placeholder ++ ending
    else path ++ ending

/-- The path with a leading mark for the home directory written out. -/
def expandHome (home : Option String) (path : String) : String :=
  match home, path.toList with
  | some home, ['~'] => home
  | some home, '~' :: '/' :: rest => home ++ String.ofList ('/' :: rest)
  | _, _ => path

end Path

end CalendarCommand
