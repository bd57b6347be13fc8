import Mathlib.Data.List.Nodup
import CalendarCommand.Files.Tree

/-!
# Looking up in file trees

What lies at a place does not depend on the order of the entries, and setting the content of a file
changes what lies at its place and nowhere else.  Which way a path leads depends on the directories
alone, so a path leads to the same place after the contents of files have changed.

A name in a directory is reached by the path of the directory with the name behind it.
-/

namespace CalendarCommand

theorem map_fst_setEntry {place : Place} {entry : FileEntry} {entries : List (Place × FileEntry)}
    (h : place ∈ entries.map Prod.fst) :
    (setEntry place entry entries).map Prod.fst = entries.map Prod.fst := by
  induction entries with
  | nil => cases h
  | cons first entries ih =>
    by_cases hfirst : first.1 = place
    · rw [setEntry, if_pos hfirst, List.map_cons, List.map_cons, hfirst]
    · have hrest : place ∈ entries.map Prod.fst := by
        rcases List.mem_cons.1 h with h | h
        · exact absurd h.symm hfirst
        · exact h
      rw [setEntry, if_neg hfirst, List.map_cons, List.map_cons, ih hrest]

def FileEntry.isDirectory : FileEntry → Bool
  | .file _ => false
  | .directory => true

namespace FileTree

variable {tree other : FileTree} {place directory : Place} {content : Content}

/-! ## What lies at a place -/

/-- The entry that a tree has of its own for a place. -/
def own? (tree : FileTree) (place : Place) : Option FileEntry :=
  (tree.entries.find? fun entry ↦ entry.1 == place).map Prod.snd

/-- The place is the root or on the way to an entry. -/
def OnTheWay (tree : FileTree) (place : Place) : Prop :=
  place = [] ∨ ∃ way ∈ tree.entries.map Prod.fst, place <+: way

instance (tree : FileTree) (place : Place) : Decidable (tree.OnTheWay place) :=
  inferInstanceAs (Decidable (place = [] ∨ ∃ way ∈ tree.entries.map Prod.fst, place <+: way))

theorem entry?_of_own? {entry : FileEntry} (h : tree.own? place = some entry) :
    tree.entry? place = some entry := by
  obtain ⟨found, hfound, rfl⟩ := Option.map_eq_some_iff.1 h
  unfold entry?
  rw [hfound]

theorem entry?_of_own?_eq_none (h : tree.own? place = none) :
    tree.entry? place = if tree.OnTheWay place then some .directory else none := by
  unfold entry?
  rw [Option.map_eq_none_iff.1 h]
  refine if_congr ?_ rfl rfl
  simp [OnTheWay]

/-- Only an entry of its own makes a place a file. -/
theorem own?_of_file (h : tree.entry? place = some (.file content)) :
    tree.own? place = some (.file content) := by
  cases hown : tree.own? place with
  | some entry => rw [← entry?_of_own? hown, h]
  | none =>
    rw [entry?_of_own?_eq_none hown] at h
    split at h <;> cases h

theorem own?_eq_some_iff {entry : FileEntry} :
    tree.own? place = some entry ↔ (place, entry) ∈ tree.entries := by
  constructor
  · intro h
    obtain ⟨found, hfound, rfl⟩ := Option.map_eq_some_iff.1 h
    have hplace := List.find?_some hfound
    rw [beq_iff_eq] at hplace
    subst hplace
    exact List.mem_of_find?_eq_some hfound
  · intro h
    cases hown : tree.entries.find? fun entry ↦ entry.1 == place with
    | none => exact absurd (List.find?_eq_none.1 hown _ h) (by simp)
    | some found =>
      have hplace := List.find?_some hown
      rw [beq_iff_eq] at hplace
      have hsame := List.inj_on_of_nodup_map tree.distinct (List.mem_of_find?_eq_some hown) h hplace
      rw [own?, hown, hsame, Option.map_some]

theorem mem_places_of_file (h : tree.entry? place = some (.file content)) :
    place ∈ tree.entries.map Prod.fst :=
  List.mem_map_of_mem (own?_eq_some_iff.1 (own?_of_file h))

/-- The same lies everywhere in both trees. -/
def Alike (tree other : FileTree) : Prop :=
  ∀ place, tree.entry? place = other.entry? place

/-- The order of the entries does not matter. -/
theorem alike_of_perm (h : tree.entries.Perm other.entries) : tree.Alike other := by
  intro place
  have hown : tree.own? place = other.own? place := by
    ext entry
    rw [own?_eq_some_iff, own?_eq_some_iff, h.mem_iff]
  have hway : tree.OnTheWay place ↔ other.OnTheWay place := by
    simp only [OnTheWay, (h.map Prod.fst).mem_iff]
  cases hfound : tree.own? place with
  | some entry => rw [entry?_of_own? hfound, entry?_of_own? (hown ▸ hfound)]
  | none =>
    rw [entry?_of_own?_eq_none hfound, entry?_of_own?_eq_none (hown ▸ hfound)]
    exact if_congr hway rfl rfl

theorem entries_set (h : place.IsNamed) (entry : FileEntry) :
    (tree.set place entry).entries = setEntry place entry tree.entries := by
  rw [set, dif_pos h]

theorem own?_set (tree : FileTree) (h : place.IsNamed) (entry : FileEntry) (other : Place) :
    (tree.set place entry).own? other = if other = place then some entry else tree.own? other := by
  rw [own?, own?, entries_set h]
  induction tree.entries with
  | nil => by_cases h : other = place <;> simp [setEntry, h, Ne.symm]
  | cons first entries ih =>
    by_cases hfirst : first.1 = place
    · by_cases h : other = place
      · simp [setEntry, hfirst, h]
      · simp [setEntry, hfirst, h, Ne.symm h]
    · by_cases h : first.1 = other
      · simp [setEntry, h, show other ≠ place from h ▸ hfirst]
      · simpa [setEntry, hfirst, h] using ih

/-- Setting the content of a file changes what lies at its place only. -/
theorem entry?_set (h : tree.entry? place = some (.file content)) (entry : FileEntry)
    (elsewhere : Place) : FileTree.entry? (tree.set place entry) elsewhere =
      if elsewhere = place then some entry else tree.entry? elsewhere := by
  have hplace := mem_places_of_file h
  have hnamed := tree.named place hplace
  have hway : (tree.set place entry).OnTheWay elsewhere ↔ tree.OnTheWay elsewhere := by
    simp only [OnTheWay, entries_set hnamed, map_fst_setEntry hplace]
  by_cases helsewhere : elsewhere = place
  · rw [if_pos helsewhere]
    exact entry?_of_own? ((own?_set tree hnamed entry elsewhere).trans (if_pos helsewhere))
  · rw [if_neg helsewhere]
    have hown := (own?_set tree hnamed entry elsewhere).trans (if_neg helsewhere)
    cases hfound : tree.own? elsewhere with
    | some found => rw [entry?_of_own? hfound, entry?_of_own? (hown.trans hfound)]
    | none =>
      rw [entry?_of_own?_eq_none hfound, entry?_of_own?_eq_none (hown.trans hfound)]
      exact if_congr hway rfl rfl

/-! ## Following paths -/

def isDirectory? (tree : FileTree) (place : Place) : Option Bool :=
  Option.map FileEntry.isDirectory <| tree.entry? place

theorem isDirectory?_of_file (h : tree.entry? place = some (.file content)) :
    tree.isDirectory? place = some false := by
  rw [isDirectory?, h]
  rfl

theorem step_eq (tree : FileTree) (place : Place) (name : String) :
    tree.step place name =
      match tree.isDirectory? place with
      | none => .error .notFound
      | some false => .error .notDirectory
      | some true =>
        if name = "" ∨ name = "." then .ok place
        else if name = ".." then .ok place.dropLast
        else .ok (place ++ [name]) := by
  rw [step, isDirectory?]
  rcases tree.entry? place with _ | ⟨content | _⟩ <;> rfl

/-- The same places are directories, and the same places are files, in both trees. -/
def SameShape (tree other : FileTree) : Prop :=
  ∀ place, tree.isDirectory? place = other.isDirectory? place

theorem Alike.sameShape (h : tree.Alike other) : tree.SameShape other := fun place ↦ by
  rw [isDirectory?, isDirectory?, h place]

theorem SameShape.step_eq (h : tree.SameShape other) (place : Place) (name : String) :
    tree.step place name = other.step place name := by
  rw [FileTree.step_eq, FileTree.step_eq, h place]

theorem SameShape.walk_eq (h : tree.SameShape other) (place : Place) (names : List String) :
    tree.walk place names = other.walk place names := by
  induction names generalizing place with
  | nil => rfl
  | cons name names ih =>
    rw [walk, walk, h.step_eq]
    cases other.step place name with
    | error fault => rfl
    | ok next => exact ih next

/-- A path leads to the same place in trees of the same shape. -/
theorem SameShape.locate_eq (h : tree.SameShape other) (directory : Place) (path : String) :
    tree.locate directory path = other.locate directory path :=
  h.walk_eq _ _

theorem Alike.find_eq (h : tree.Alike other) (directory : Place) (path : String) :
    tree.find directory path = other.find directory path := by
  rw [find, find, h.sameShape.locate_eq]
  cases other.locate directory path with
  | error fault => rfl
  | ok place =>
    dsimp only
    rw [h place]

theorem Alike.read_eq (h : tree.Alike other) (directory : Place) (path : String) :
    tree.read directory path = other.read directory path := by
  rw [read, read, h.find_eq]

theorem find_eq_ok_iff {path : String} {entry : FileEntry} :
    tree.find directory path = .ok (place, entry) ↔
      tree.locate directory path = .ok place ∧ tree.entry? place = some entry := by
  rw [find]
  cases tree.locate directory path with
  | error fault => simp
  | ok found =>
    dsimp only
    cases hentry : tree.entry? found with
    | none =>
      constructor
      · nofun
      · rintro ⟨hplace, hnone⟩
        rw [Except.ok.inj hplace, hnone] at hentry
        cases hentry
    | some other =>
      rw [Except.ok.injEq, Prod.mk.injEq, Except.ok.injEq]
      constructor
      · rintro ⟨rfl, rfl⟩
        exact ⟨rfl, hentry⟩
      · rintro ⟨rfl, hsome⟩
        exact ⟨rfl, Option.some.inj (hentry.symm.trans hsome)⟩

theorem read_eq_ok_iff {path text : String} : tree.read directory path = .ok text ↔
    ∃ place, tree.locate directory path = .ok place ∧
      tree.entry? place = some (.file (.text text)) := by
  simp only [← find_eq_ok_iff]
  rw [read]
  rcases tree.find directory path with fault | ⟨found, content | _⟩
  · simp
  · cases content <;> simp
  · simp

/-- A file that is there is written into. -/
theorem write_eq_of_file {path : String} (hplace : tree.locate directory path = .ok place)
    (h : tree.entry? place = some (.file content)) (text : String) :
    tree.write directory path text = .ok (tree.set place (.file (.text text))) := by
  rw [write, hplace]
  dsimp only
  rw [h]

/-! ## Names in a directory -/

/-- A name that something directly in a directory has is one of a file. -/
theorem isFileName_of_mem {name : String} (h : place ++ [name] ∈ tree.entries.map Prod.fst) :
    IsFileName name :=
  tree.named _ h name (List.mem_append_right _ (List.mem_singleton_self name))

theorem walk_append (tree : FileTree) (place : Place) (names more : List String) :
    tree.walk place (names ++ more) =
      match tree.walk place names with
      | .error fault => .error fault
      | .ok place => tree.walk place more := by
  induction names generalizing place with
  | nil => rfl
  | cons name names ih =>
    rw [List.cons_append, walk, walk]
    cases tree.step place name with
    | error fault => rfl
    | ok next => exact ih next

theorem walk_name (h : tree.entry? place = some .directory) {name : String}
    (hname : IsFileName name) : tree.walk place [name] = .ok (place ++ [name]) := by
  have hstep : tree.step place name = .ok (place ++ [name]) := by
    rw [step, h]
    dsimp only
    rw [if_neg (not_or.2 ⟨hname.ne_empty, hname.ne_point⟩), if_neg hname.ne_points]
  rw [walk, hstep]
  rfl

/-- An empty name leads on only inside a directory, and nowhere else. -/
theorem walk_empty (place : Place) {next : Place} (h : tree.walk place [""] = .ok next) :
    next = place ∧ tree.entry? place = some .directory := by
  rw [walk, step] at h
  cases hentry : tree.entry? place with
  | none => simp [hentry] at h
  | some entry =>
    cases entry with
    | file content => simp [hentry] at h
    | directory =>
      simp only [hentry, true_or, if_true, walk, Except.ok.injEq] at h
      exact ⟨h.symm, rfl⟩

end FileTree

namespace Path

theorem names_of_notMem {name : String} (h : '/' ∉ name.toList) : names name = [name] := by
  rw [names, pieces, List.splitOn_eq_singleton h, List.map_singleton, String.ofList_toList]

theorem names_append (path name : String) : names (path ++ "/" ++ name) = names path ++ names name := by
  have hslash : "/".toList = ['/'] := rfl
  rw [names, names, names, ← List.map_append, String.toList_append, String.toList_append, hslash,
    List.append_assoc, List.singleton_append]
  exact congrArg _ (List.splitOn_append_cons_self ..)

theorem origin_append {path : String} (h : path ≠ "") (directory : Place) (more : String) :
    origin directory (path ++ more) = origin directory path := by
  have hlist : path.toList ≠ [] := fun hnil ↦ h (String.toList_eq_nil_iff.1 hnil)
  rw [origin, origin, isAbsolute, isAbsolute, String.toList_append,
    List.head?_append_of_ne_nil _ hlist]

theorem origin_of_notMem {name : String} (h : '/' ∉ name.toList) (directory : Place) :
    origin directory name = directory := by
  rw [origin, isAbsolute]
  refine if_neg fun habsolute ↦ h ?_
  exact List.mem_of_head? (eq_of_beq habsolute)

/-- What a path that ends with a slash is made of. -/
theorem exists_eq_append_slash {path : String} (h : path.toList.getLast? = some '/') :
    ∃ front, path = front ++ "/" := by
  refine ⟨String.ofList path.toList.dropLast, String.toList_inj.1 ?_⟩
  rw [String.toList_append, String.toList_ofList]
  exact (List.dropLast_append_getLast? '/' h).symm

end Path

namespace FileTree

variable {tree : FileTree} {place directory : Place}

theorem locate_of_walk {path : String} {start : Place} {names : List String} {name : String}
    (hname : IsFileName name) (horigin : Path.origin directory path = start)
    (hnames : Path.names path = names ++ [name]) (hwalk : tree.walk start names = .ok place)
    (hentry : tree.entry? place = some .directory) :
    tree.locate directory path = .ok (place ++ [name]) := by
  rw [locate, horigin, hnames, walk_append, hwalk]
  exact walk_name hentry hname

/-- The path of a name in a directory leads to the name behind the place of the directory. -/
theorem locate_join {path name : String} (hname : IsFileName name)
    (h : tree.find directory path = .ok (place, .directory)) :
    tree.locate directory (Path.join path name) = .ok (place ++ [name]) := by
  obtain ⟨hlocate, hentry⟩ := find_eq_ok_iff.1 h
  have hnames := Path.names_of_notMem hname.slash_notMem
  rw [locate] at hlocate
  by_cases hempty : path = ""
  · -- The empty path stands for the directory in which one works.
    subst hempty
    obtain ⟨rfl, -⟩ := walk_empty directory hlocate
    have hstart : tree.walk place [] = .ok place := rfl
    rw [Path.join, if_pos (.inl rfl), String.empty_append]
    exact locate_of_walk hname (Path.origin_of_notMem hname.slash_notMem _) hnames hstart hentry
  · by_cases hslash : path.toList.getLast? = some '/'
    · -- The path has a slash of its own, behind which its last name is empty.
      rw [Path.join, if_pos (.inr hslash)]
      have horigin := Path.origin_append hempty directory name
      obtain ⟨front, rfl⟩ := Path.exists_eq_append_slash hslash
      have hfront : Path.names (front ++ "/") = Path.names front ++ [""] := by
        rw [← String.append_empty (s := front ++ "/"), Path.names_append]
        rfl
      rw [hfront, walk_append] at hlocate
      cases hwalk : tree.walk (Path.origin directory (front ++ "/")) (Path.names front) with
      | error fault => simp [hwalk] at hlocate
      | ok next =>
        rw [hwalk] at hlocate
        obtain ⟨rfl, -⟩ := walk_empty next hlocate
        refine locate_of_walk hname horigin ?_ hwalk hentry
        rw [Path.names_append, hnames]
    · rw [Path.join, if_neg (not_or.2 ⟨hempty, hslash⟩), String.append_assoc]
      refine locate_of_walk hname (Path.origin_append hempty directory _) ?_ hlocate hentry
      rw [← String.append_assoc, Path.names_append, hnames]

theorem nameIn?_eq_some_iff {name : String} {way : Place} :
    nameIn? place way = some name ↔ way = place ++ [name] := by
  rw [nameIn?]
  constructor
  · intro h
    split at h
    · rename_i hplace
      rw [← hplace]
      exact (List.dropLast_append_getLast? name h).symm
    · cases h
  · rintro rfl
    rw [List.dropLast_concat, if_pos rfl, List.getLast?_concat]

/-- What is listed are the last names of the entries directly in the directory. -/
theorem list_eq {path : String} (h : tree.find directory path = .ok (place, .directory)) :
    tree.list directory path = .ok ((tree.entries.map Prod.fst).filterMap (nameIn? place)) := by
  rw [list, h, List.filterMap_map]
  rfl

theorem mem_filterMap_nameIn? {name : String} {ways : List Place} :
    name ∈ ways.filterMap (nameIn? place) ↔ place ++ [name] ∈ ways := by
  simp [List.mem_filterMap, nameIn?_eq_some_iff]

/-- No name is listed twice. -/
theorem nodup_filterMap_nameIn? (tree : FileTree) (place : Place) :
    ((tree.entries.map Prod.fst).filterMap (nameIn? place)).Nodup := by
  refine tree.distinct.filterMap fun first second name hfirst hsecond ↦ ?_
  rw [nameIn?_eq_some_iff.1 hfirst, nameIn?_eq_some_iff.1 hsecond]

end FileTree

end CalendarCommand
