import CalendarCommand.Files.Path
import CalendarCommand.Text.Utf8

/-!
# File trees

A file tree says what lies at which place: a file with its content, or a directory.  Every place on
the way to another one is a directory, and so is the root.  No place occurs twice, and the names on
the way to one are names of files.

A path is followed name by name, and every name, an empty one included, must be looked up in a
directory.  A path therefore fails where it leads through a file or through nothing.
-/

namespace CalendarCommand

/-- What a file holds: a text, or bytes that are no text. -/
inductive Content where
  | text (value : String)
  | binary (bytes : List UInt8)
deriving DecidableEq, Repr

namespace Content

def ofBytes (bytes : List UInt8) : Content :=
  match Text.ofBytes? bytes with
  | some value => .text value
  | none => .binary bytes

/-- The content as text, at any price. -/
def lossyText : Content → String
  | .text value => value
  | .binary bytes => Text.ofBytesLossy bytes

end Content

inductive FileFault where
  /-- Nothing lies at the place. -/
  | notFound
  /-- A directory lies where a file is asked for. -/
  | isDirectory
  /-- A file lies where a directory is asked for. -/
  | notDirectory
  /-- The bytes of the file are no text. -/
  | notText
deriving DecidableEq, Repr

namespace FileFault

def message : FileFault → String
  | .notFound => "No such file or directory (os error 2)"
  | .isDirectory => "Is a directory (os error 21)"
  | .notDirectory => "Not a directory (os error 20)"
  | .notText => "stream did not contain valid UTF-8"

end FileFault

inductive FileEntry where
  | file (content : Content)
  | directory
deriving DecidableEq, Repr

/-- The entries with a place set to an entry, where it stands or behind the others. -/
def setEntry (place : Place) (entry : FileEntry) :
    List (Place × FileEntry) → List (Place × FileEntry)
  | [] => [(place, entry)]
  | other :: entries =>
    if other.1 = place then (place, entry) :: entries
    else other :: setEntry place entry entries

theorem fst_mem_of_mem_setEntry {place : Place} {entry : FileEntry}
    {entries : List (Place × FileEntry)} {other : Place}
    (h : other ∈ (setEntry place entry entries).map Prod.fst) :
    other = place ∨ other ∈ entries.map Prod.fst := by
  induction entries with
  | nil => exact Or.inl (by simpa [setEntry] using h)
  | cons first entries ih =>
    by_cases hfirst : first.1 = place
    · simp only [setEntry, if_pos hfirst, List.map_cons, List.mem_cons] at h
      rcases h with h | h
      · exact Or.inl h
      · exact Or.inr (by simp [h])
    · simp only [setEntry, if_neg hfirst, List.map_cons, List.mem_cons] at h
      rcases h with h | h
      · exact Or.inr (by simp [h])
      · rcases ih h with h | h
        · exact Or.inl h
        · exact Or.inr (List.mem_cons_of_mem _ h)

/-- Setting a place keeps all places distinct. -/
theorem nodup_setEntry {place : Place} {entry : FileEntry} {entries : List (Place × FileEntry)}
    (h : (entries.map Prod.fst).Nodup) : ((setEntry place entry entries).map Prod.fst).Nodup := by
  induction entries with
  | nil => simp [setEntry]
  | cons first entries ih =>
    simp only [List.map_cons, List.nodup_cons] at h
    by_cases hfirst : first.1 = place
    · rw [hfirst] at h
      simpa only [setEntry, if_pos hfirst, List.map_cons, List.nodup_cons] using h
    · simp only [setEntry, if_neg hfirst, List.map_cons, List.nodup_cons]
      refine ⟨fun hmem => ?_, ih h.2⟩
      rcases fst_mem_of_mem_setEntry hmem with hplace | hother
      · exact hfirst hplace
      · exact h.1 hother

theorem isNamed_setEntry {place : Place} {entry : FileEntry} {entries : List (Place × FileEntry)}
    (hplace : place.IsNamed) (h : ∀ other ∈ entries.map Prod.fst, other.IsNamed) :
    ∀ other ∈ (setEntry place entry entries).map Prod.fst, other.IsNamed := by
  intro other hother
  rcases fst_mem_of_mem_setEntry hother with rfl | hmem
  · exact hplace
  · exact h other hmem

structure FileTree where
  entries : List (Place × FileEntry)
  distinct : (entries.map Prod.fst).Nodup
  named : ∀ place ∈ entries.map Prod.fst, place.IsNamed

namespace FileTree

def empty : FileTree :=
  { entries := [], distinct := List.nodup_nil, named := nofun }

/-- The tree with a place set to an entry, if anything can lie there. -/
def set (tree : FileTree) (place : Place) (entry : FileEntry) : FileTree :=
  if hplace : place.IsNamed then
    { entries := setEntry place entry tree.entries
      distinct := nodup_setEntry tree.distinct
      named := isNamed_setEntry hplace tree.named }
  else tree

/-- The tree of entries; of several for one place the last one counts. -/
def ofEntries (entries : List (Place × FileEntry)) : FileTree :=
  entries.foldl (fun tree entry => tree.set entry.1 entry.2) empty

def entry? (tree : FileTree) (place : Place) : Option FileEntry :=
  match tree.entries.find? fun entry => entry.1 == place with
  | some entry => some entry.2
  | none =>
    if place = [] ∨ tree.entries.any (fun entry => place.isPrefixOf entry.1) then some .directory
    else none

/-! ## Following paths -/

/-- The place that a name leads to from a place. -/
def step (tree : FileTree) (place : Place) (name : String) : Except FileFault Place :=
  match tree.entry? place with
  | none => .error .notFound
  | some (.file _) => .error .notDirectory
  | some .directory =>
    if name = "" ∨ name = "." then .ok place
    else if name = ".." then .ok place.dropLast
    else .ok (place ++ [name])

def walk (tree : FileTree) (place : Place) : List String → Except FileFault Place
  | [] => .ok place
  | name :: names =>
    match tree.step place name with
    | .error fault => .error fault
    | .ok place => tree.walk place names

/-- The place of a path, from the directory in which one works. -/
def locate (tree : FileTree) (directory : Place) (path : String) : Except FileFault Place :=
  tree.walk (Path.origin directory path) (Path.names path)

def find (tree : FileTree) (directory : Place) (path : String) :
    Except FileFault (Place × FileEntry) :=
  match tree.locate directory path with
  | .error fault => .error fault
  | .ok place =>
    match tree.entry? place with
    | none => .error .notFound
    | some entry => .ok (place, entry)

/-! ## Reading and writing -/

def content? (tree : FileTree) (directory : Place) (path : String) : Option Content :=
  match tree.find directory path with
  | .ok (_, .file content) => some content
  | _ => none

def read (tree : FileTree) (directory : Place) (path : String) : Except FileFault String :=
  match tree.find directory path with
  | .error fault => .error fault
  | .ok (_, .directory) => .error .isDirectory
  | .ok (_, .file (.binary _)) => .error .notText
  | .ok (_, .file (.text value)) => .ok value

/-- Writes a text into a file, which is made if nothing lies at its place. -/
def write (tree : FileTree) (directory : Place) (path text : String) : Except FileFault FileTree :=
  match tree.locate directory path with
  | .error fault => .error fault
  | .ok place =>
    match tree.entry? place with
    | some .directory => .error .isDirectory
    | some (.file _) => .ok (tree.set place (.file (.text text)))
    | none =>
      match tree.entry? place.dropLast with
      | none => .error .notFound
      | some (.file _) => .error .notDirectory
      | some .directory => .ok (tree.set place (.file (.text text)))

/-- The name of a place directly in a directory. -/
def nameIn? (directory place : Place) : Option String :=
  if place.dropLast = directory then place.getLast? else none

/-- Lists the names of what lies directly in a directory; directories without an entry of their own
are left out. -/
def list (tree : FileTree) (directory : Place) (path : String) : Except FileFault (List String) :=
  match tree.find directory path with
  | .error fault => .error fault
  | .ok (_, .file _) => .error .notDirectory
  | .ok (place, .directory) =>
    .ok (tree.entries.filterMap fun entry => nameIn? place entry.1)

/-- Makes the directories that names lead through, from a directory on. -/
def makeDirectories (tree : FileTree) (place : Place) : List String → Except FileFault FileTree
  | [] => .ok tree
  | name :: names =>
    match tree.step place name with
    | .error fault => .error fault
    | .ok next =>
      match tree.entry? next with
      | some (.file _) => .error .notDirectory
      | some .directory => tree.makeDirectories next names
      | none => (tree.set next .directory).makeDirectories next names

end FileTree

end CalendarCommand
