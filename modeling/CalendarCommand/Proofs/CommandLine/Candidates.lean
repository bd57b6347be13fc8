import CalendarCommand.CommandLine.Tasks
import CalendarCommand.Proofs.Files.Lookup

/-!
# Candidates in a directory

The candidates of a directory are looked for by going through its names in their order and reading each
file whose name is that of a calendar file.  `AreCandidates` says without regard to this search which
candidates there are: one for each calendar file that holds a command, ordered by their names.  So the
order in which the directory lists its entries has no effect on them.
-/

namespace CalendarCommand

namespace CommandLine

variable {engine : Engine} {tree other : FileTree} {directory place : Place} {path text : String}

/-! ## One name -/

/-- The file of a name in a directory is a calendar file with a command in it. -/
def HoldsCommand (engine : Engine) (tree : FileTree) (place : Place) (name command : String) : Prop :=
  isCalendarName name = true ∧ ∃ text event,
    tree.entry? (place ++ [name]) = some (.file (.text text)) ∧ Event.ofText text = .ok event ∧
    engine.isCommand event = true ∧ event.commandName? = some command

theorem commandIn?_eq_some_iff {command : String} : commandIn? engine text = some command ↔
    ∃ event, Event.ofText text = .ok event ∧ engine.isCommand event = true ∧
      event.commandName? = some command := by
  rw [commandIn?]
  cases Event.ofText text with
  | error fault => simp
  | ok event => cases engine.isCommand event <;> simp

theorem candidate?_eq_some_iff {name : String}
    (hplace : tree.locate directory (Path.join path name) = .ok (place ++ [name]))
    {candidate : Candidate} : candidate? engine tree directory path name = some candidate ↔
      candidate.name = name ∧ ∃ text, tree.entry? (place ++ [name]) = some (.file (.text text)) ∧
        commandIn? engine text = some candidate.command := by
  obtain ⟨candidateName, command⟩ := candidate
  rw [candidate?]
  cases hread : tree.read directory (Path.join path name) with
  | error fault =>
    constructor
    · nofun
    · rintro ⟨-, text, hfile, -⟩
      rw [FileTree.read_eq_ok_iff.2 ⟨_, hplace, hfile⟩] at hread
      cases hread
  | ok text =>
    obtain ⟨found, hfound, hfile⟩ := FileTree.read_eq_ok_iff.1 hread
    obtain rfl := Except.ok.inj (hfound.symm.trans hplace)
    simp only [hfile, Option.map_eq_some_iff, Candidate.mk.injEq, Option.some.injEq,
      FileEntry.file.injEq, Content.text.injEq]
    constructor
    · rintro ⟨command, hcommand, rfl, rfl⟩
      exact ⟨rfl, text, rfl, hcommand⟩
    · rintro ⟨rfl, text, rfl, hcommand⟩
      exact ⟨command, hcommand, rfl, rfl⟩

/-! ## The order of names -/

theorem sortNames_perm (names : List String) : (sortNames names).Perm names :=
  List.mergeSort_perm names _

theorem pairwise_le_sortNames (names : List String) : (sortNames names).Pairwise (· ≤ ·) := by
  have hpairwise : (sortNames names).Pairwise fun a b ↦ (!decide (b < a)) = true := by
    refine List.pairwise_mergeSort ?_ ?_ names
    · intro a b c hab hbc
      simp only [Bool.not_eq_true', decide_eq_false_iff_not, String.not_lt] at hab hbc ⊢
      exact String.le_trans hab hbc
    · intro a b
      simpa only [Bool.or_eq_true, Bool.not_eq_true', decide_eq_false_iff_not, String.not_lt]
        using String.le_total a b
  refine hpairwise.imp fun hle ↦ ?_
  simpa only [Bool.not_eq_true', decide_eq_false_iff_not, String.not_lt] using hle

/-- The order in which names are given has no effect on their order. -/
theorem sortNames_eq_of_perm {names others : List String} (h : names.Perm others) :
    sortNames names = sortNames others :=
  List.Perm.eq_of_pairwise (fun _ _ _ _ ↦ String.le_antisymm) (pairwise_le_sortNames names)
    (pairwise_le_sortNames others)
    ((sortNames_perm names).trans (h.trans (sortNames_perm others).symm))

theorem pairwise_lt_sortNames {names : List String} (h : names.Nodup) :
    (sortNames names).Pairwise (· < ·) := by
  have hne : (sortNames names).Pairwise (· ≠ ·) := (sortNames_perm names).nodup_iff.2 h
  refine ((pairwise_le_sortNames names).and hne).imp fun ⟨hle, hne⟩ ↦ ?_
  exact String.not_le.1 fun hge ↦ hne (String.le_antisymm hle hge)

/-! ## A whole directory -/

/-- The candidates are the files of a directory that hold a command, in the order of their names. -/
structure AreCandidates (engine : Engine) (tree : FileTree) (place : Place)
    (found : List Candidate) : Prop where
  mem_iff : ∀ candidate, candidate ∈ found ↔
    HoldsCommand engine tree place candidate.name candidate.command
  ordered : found.Pairwise fun first second ↦ first.name < second.name

theorem mem_candidates_iff (hfind : tree.find directory path = .ok (place, .directory))
    {names : List String}
    (hmem : ∀ name, name ∈ names ↔ isCalendarName name = true ∧
      place ++ [name] ∈ tree.entries.map Prod.fst) (candidate : Candidate) :
    candidate ∈ names.filterMap (candidate? engine tree directory path) ↔
      HoldsCommand engine tree place candidate.name candidate.command := by
  have hlocate {name : String} (hname : name ∈ names) :
      tree.locate directory (Path.join path name) = .ok (place ++ [name]) :=
    FileTree.locate_join (FileTree.isFileName_of_mem ((hmem name).1 hname).2) hfind
  rw [List.mem_filterMap]
  constructor
  · rintro ⟨name, hname, hcandidate⟩
    obtain ⟨rfl, text, hfile, hcommand⟩ := (candidate?_eq_some_iff (hlocate hname)).1 hcandidate
    obtain ⟨event, hevent⟩ := commandIn?_eq_some_iff.1 hcommand
    exact ⟨((hmem _).1 hname).1, text, event, hfile, hevent⟩
  · rintro ⟨hcalendar, text, event, hfile, hevent⟩
    have hname := (hmem _).2 ⟨hcalendar, FileTree.mem_places_of_file hfile⟩
    refine ⟨candidate.name, hname, (candidate?_eq_some_iff (hlocate hname)).2 ⟨rfl, text, hfile, ?_⟩⟩
    exact commandIn?_eq_some_iff.2 ⟨event, hevent⟩

theorem name_of_candidate? {name : String} {candidate : Candidate}
    (h : candidate? engine tree directory path name = some candidate) : candidate.name = name := by
  rw [candidate?] at h
  cases hread : tree.read directory (Path.join path name) with
  | error fault => simp [hread] at h
  | ok text =>
    rw [hread] at h
    obtain ⟨command, -, rfl⟩ := Option.map_eq_some_iff.1 h
    rfl

theorem exists_candidates (engine : Engine)
    (hfind : tree.find directory path = .ok (place, .directory)) :
    ∃ found, candidates engine tree directory path = .ok found ∧
      AreCandidates engine tree place found := by
  refine ⟨_, by rw [candidates, FileTree.list_eq hfind], ?_, ?_⟩
  · refine mem_candidates_iff hfind fun name ↦ ?_
    rw [(sortNames_perm _).mem_iff, List.mem_filter, FileTree.mem_filterMap_nameIn?, and_comm]
  · have hnodup := (FileTree.nodup_filterMap_nameIn? tree place).filter isCalendarName
    refine (pairwise_lt_sortNames hnodup).filterMap _ fun first second hlt one hone two htwo ↦ ?_
    rw [name_of_candidate? hone, name_of_candidate? htwo]
    exact hlt

/-- The order in which a directory lists its entries does not matter for its candidates. -/
theorem candidates_eq_of_perm (h : tree.entries.Perm other.entries) :
    candidates engine tree directory path = candidates engine other directory path := by
  have halike := FileTree.alike_of_perm h
  have hcandidate : candidate? engine tree directory path =
      candidate? engine other directory path := by
    funext name
    rw [candidate?, candidate?, halike.read_eq]
  rw [candidates, candidates, FileTree.list, FileTree.list, halike.find_eq, hcandidate]
  rcases other.find directory path with fault | ⟨found, content | _⟩
  · rfl
  · rfl
  · dsimp only
    rw [sortNames_eq_of_perm ((h.filterMap _).filter _)]

end CommandLine

end CalendarCommand
