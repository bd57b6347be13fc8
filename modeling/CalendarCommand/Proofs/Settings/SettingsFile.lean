import CalendarCommand.Proofs.Files.Lookup
import CalendarCommand.Settings.Location

/-!
# The document of a path

A path that ends in `.toml` stands for the file that it leads to, or for an empty document where there
is no file.  `Supplies` says which document that is, and what a path supplies is what is layered for it.

A file whose whole name is `.toml` has a name without an ending, and where no file lies at a path, one may
lie at the path with a further ending.  In neither case does the path supply a document.
-/

namespace CalendarCommand

namespace Path

variable {path name : String} {before : List String} {base : List Char}

/-- The path ends as the paths of settings files do. -/
def EndsInToml (path : String) : Prop :=
  ".toml".toList <:+ path.toList

/-- The last name of the path is the ending alone. -/
def IsBare (path : String) : Prop :=
  path = ".toml" ∨ "/.toml".toList <:+ path.toList

/-- A home directory in front of a path does not change how it ends. -/
theorem EndsInToml.expandHome (h : EndsInToml path) (home : Option String) :
    EndsInToml (expandHome home path) := by
  rw [expandHome.eq_def]
  split
  · rename_i home hpath
    rw [EndsInToml, hpath] at h
    exact absurd h (by decide)
  · rename_i home rest hpath
    rw [EndsInToml, hpath] at h
    have htail : (String.ofList ('/' :: rest)).toList = '/' :: rest := String.toList_ofList
    rw [EndsInToml, String.toList_append, htail]
    rcases List.suffix_cons_iff.1 h with hall | hrest
    · exact absurd (List.cons.inj hall).1 (by decide)
    · exact hrest.trans (List.suffix_append _ _)
  · exact h

/-! ## The last name -/

theorem dropTrailing_concat (h : name ≠ "") (hpoint : name ≠ ".") :
    dropTrailing (before ++ [name]) = before ++ [name] := by
  induction before with
  | nil => simp [dropTrailing, h, hpoint]
  | cons first before ih =>
    rw [List.cons_append, dropTrailing, ih]
    cases before <;> rfl

/-- A text is cut at its last slash. -/
theorem exists_last_cut {text : List Char} (h : '/' ∈ text) :
    ∃ front back, text = front ++ '/' :: back ∧ '/' ∉ back := by
  obtain ⟨back, front, hcut, hback⟩ := List.eq_append_cons_of_mem (List.mem_reverse.2 h)
  refine ⟨front.reverse, back.reverse, ?_, fun hmem ↦ hback (List.mem_reverse.1 hmem)⟩
  rw [← text.reverse_reverse, hcut, List.reverse_append, List.reverse_cons, List.append_assoc,
    List.singleton_append]

theorem notMem_toml : '/' ∉ ".toml".toList := by
  decide

/-- A path is bare where a slash or nothing stands in front of the ending. -/
theorem isBare_of_append {front : List Char} (h : front ++ ".toml".toList = path.toList)
    (hfront : front = [] ∨ ∃ directory, front = directory ++ ['/']) : IsBare path := by
  have hslash : "/.toml".toList = ['/'] ++ ".toml".toList := by decide
  rcases hfront with rfl | ⟨directory, rfl⟩
  · exact .inl (String.toList_inj.1 h.symm)
  · refine .inr ⟨directory, ?_⟩
    rw [← h, hslash, List.append_assoc]

/-- The last name of a path that ends in `.toml` ends so too. -/
theorem EndsInToml.exists_names (h : EndsInToml path) : ∃ before base,
    names path = before ++ [String.ofList (base ++ ".toml".toList)] ∧ (base = [] → IsBare path) := by
  obtain ⟨front, hfront⟩ := h
  have hname {base : List Char} (hbase : '/' ∉ base) :
      names (String.ofList (base ++ ".toml".toList)) = [String.ofList (base ++ ".toml".toList)] := by
    refine names_of_notMem ?_
    rw [String.toList_ofList, List.mem_append, not_or]
    exact ⟨hbase, notMem_toml⟩
  by_cases hslash : '/' ∈ front
  · -- The name begins behind the last slash.
    obtain ⟨directory, base, rfl, hbase⟩ := exists_last_cut hslash
    have hpath : path = String.ofList directory ++ "/" ++ String.ofList (base ++ ".toml".toList) := by
      rw [← String.toList_inj, ← hfront]
      simp
    refine ⟨names (String.ofList directory), base, ?_, ?_⟩
    · rw [hpath, names_append, hname hbase]
    · rintro rfl
      exact isBare_of_append hfront (.inr ⟨directory, rfl⟩)
  · refine ⟨[], front, ?_, fun hnil ↦ isBare_of_append hfront (.inl hnil)⟩
    rw [List.nil_append, ← hname hslash, hfront, String.ofList_toList]

theorem EndsInToml.dropTrailing_names (h : EndsInToml path) :
    dropTrailing (names path) = names path := by
  obtain ⟨before, base, hnames, -⟩ := h.exists_names
  rw [hnames]
  refine dropTrailing_concat ?_ ?_
  · simp [← String.toList_inj]
  · intro hpoint
    have hlength := congrArg (fun name ↦ name.toList.length) hpoint
    simp at hlength

theorem toml_ne (base : List Char) : String.ofList (base ++ ".toml".toList) ≠ ".." := by
  intro hpoints
  have hlength := congrArg (fun name ↦ name.toList.length) hpoints
  simp at hlength

/-- The name of a settings file has its ending where there is more to the name. -/
theorem extension?_toml {base : List Char} (h : base ≠ []) :
    extension? (String.ofList (base ++ ".toml".toList)) = some "toml" := by
  have hreverse : (String.ofList (base ++ ".toml".toList)).toList.reverse =
      "lmot".toList ++ '.' :: base.reverse := by
    simp
  have hending : ("lmot".toList ++ '.' :: base.reverse).takeWhile (· ≠ '.') = "lmot".toList := by
    simp
  rw [extension?, hreverse, hending, List.drop_left]
  obtain ⟨c, rest, hbase⟩ := List.exists_cons_of_ne_nil (List.reverse_ne_nil_iff.2 h)
  rw [hbase, if_neg (toml_ne base)]
  rfl

theorem EndsInToml.exists_lastName? (h : EndsInToml path) :
    ∃ name, lastName? path = some name ∧ (¬ IsBare path → extension? name = some "toml") := by
  obtain ⟨before, base, hnames, hbare⟩ := h.exists_names
  refine ⟨String.ofList (base ++ ".toml".toList), ?_, fun hpath ↦ extension?_toml (hpath ∘ hbare)⟩
  rw [lastName?, h.dropTrailing_names, hnames, List.getLast?_concat]
  refine Option.filter_eq_some_iff.2 ⟨rfl, ?_⟩
  simpa using toml_ne base

/-- The names of a path with slashes between them are the path. -/
theorem intercalate_names (path : String) : "/".intercalate (names path) = path := by
  have hslash : "/".toList = ['/'] := by decide
  have hnames : (names path).map String.toList = pieces path.toList := by
    rw [names, List.map_map]
    exact (List.map_congr_left fun piece _ ↦ String.toList_ofList).trans (List.map_id _)
  rw [← String.toList_inj, String.toList_intercalate, hslash, hnames]
  exact List.intercalate_splitOn '/'

/-- An ending is added behind the whole path. -/
theorem EndsInToml.addEnding (h : EndsInToml path) (ending : String) :
    addEnding path ending = path ++ ending := by
  obtain ⟨name, hname, -⟩ := h.exists_lastName?
  have hlast : path.toList.getLast? ≠ some '/' := by
    obtain ⟨front, hfront⟩ := h
    have hend : ".toml".toList.getLast? = some 'l' := by decide
    rw [← hfront, List.getLast?_append, hend]
    simp
  rw [Path.addEnding, hname]
  dsimp only
  rw [h.dropTrailing_names, intercalate_names, if_neg hlast, ite_self]

end Path

namespace Settings

variable {tree : FileTree} {directory : Place} {path : String} {members : List (String × Toml)}

/-- The text of a file holds the document with these members. -/
def Holds (content : Content) (members : List (String × Toml)) : Prop :=
  Toml.ofText? (withoutMark content.lossyText) = some members

/-- A path that ends in `.toml` supplies the document of the file at the path, or the empty one where no
file lies there, with the ending of a known format added or without one. -/
inductive Supplies [SettingsLibrary] (tree : FileTree) (directory : Place) (path : String) :
    List (String × Toml) → Prop
  | own {content : Content} {members : List (String × Toml)}
      (hfile : tree.content? directory path = some content) (hname : ¬ Path.IsBare path)
      (hholds : Holds content members) : Supplies tree directory path members
  | missing (hfile : tree.content? directory path = none)
      (hbeside : ∀ ending ∈ SettingsLibrary.endings,
        tree.content? directory (path ++ ("." ++ ending)) = none) :
      Supplies tree directory path []

section

variable [SettingsLibrary]

theorem file?_of_content? {content : Content} (hfile : tree.content? directory path = some content)
    (hpath : Path.EndsInToml path) (hname : ¬ Path.IsBare path) :
    file? tree directory path = some { path, ending := fileEnding, text := content.lossyText } := by
  obtain ⟨name, hlast, hstem⟩ := hpath.exists_lastName?
  have hending : (Path.lastName? path).bind Path.extension? = some fileEnding := by
    rw [hlast, Option.bind_some, hstem hname, fileEnding]
  have hknown : (some fileEnding).filter (· ∈ SettingsLibrary.endings) = some fileEnding :=
    Option.filter_eq_some_iff.2 ⟨rfl, decide_eq_true SettingsLibrary.toml_mem⟩
  rw [file?, hfile]
  dsimp only
  rw [hending, hknown, Option.map_some]

theorem file?_eq_none (hfile : tree.content? directory path = none) (hpath : Path.EndsInToml path)
    (hbeside : ∀ ending ∈ SettingsLibrary.endings,
      tree.content? directory (path ++ ("." ++ ending)) = none) :
    file? tree directory path = none := by
  rw [file?, hfile]
  refine List.findSome?_eq_none_iff.2 fun ending hmem ↦ ?_
  rw [hpath.addEnding]
  dsimp only
  rw [hbeside ending hmem, Option.map_none]

/-- What a path supplies is the document that is layered for it. -/
theorem Supplies.read?_eq (h : Supplies tree directory path members) (hpath : Path.EndsInToml path)
    (environment : Environment) :
    read? (file? tree directory path) environment = ofLayers? members environment := by
  cases h with
  | own hfile hname hholds =>
    rw [Holds] at hholds
    rw [file?_of_content? hfile hpath hname, read?]
    dsimp only
    rw [if_pos rfl, hholds, Option.bind_some]
  | missing hfile hbeside =>
    rw [file?_eq_none hfile hpath hbeside, read?]

end

end Settings

end CalendarCommand
