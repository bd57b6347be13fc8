import CalendarCommand.Proofs.CommandLine.Candidates

/-!
# Applying a directory

Applying a directory looks for the candidates first and applies them one after the other.  A candidate
is read again when its turn comes, after others have been written.  Still each of them comes out as if it
had been applied alone: an application writes to the file it has read and to no other, and two candidates
have two names.
-/

namespace CalendarCommand

namespace CommandLine

variable {engine : Engine} {now : DateTime} {tree other : FileTree} {directory place : Place}
variable {path text : String}

/-! ## One file -/

/-- What a file with a text holds after the command in the text has been applied. -/
def textAfter (engine : Engine) (now : DateTime) (text : String) : String :=
  match engine.handleText now text with
  | .error _ => text
  | .ok (_, outcome) => outcome.replacement?.getD text

/-- The result of applying the command in the text of a file. -/
def resultFor (engine : Engine) (now : DateTime) (path text : String) : Except Failure Outcome :=
  match engine.handleText now text with
  | .error error => .error (.notApplied path error)
  | .ok (_, outcome) => .ok outcome

theorem store_of_file {content : Content} (hplace : tree.locate directory path = .ok place)
    (hfile : tree.entry? place = some (.file content)) (outcome : Outcome) :
    store tree directory path outcome =
      match outcome.replacement? with
      | none => (tree, .ok outcome)
      | some text => (tree.set place (.file (.text text)), .ok outcome) := by
  rw [store]
  cases outcome.replacement? with
  | none => rfl
  | some text =>
    dsimp only
    rw [FileTree.write_eq_of_file hplace hfile]

theorem applyOne_result (hplace : tree.locate directory path = .ok place)
    (hfile : tree.entry? place = some (.file (.text text))) (dryRun : Bool) :
    (applyOne engine now tree directory path dryRun).2 = resultFor engine now path text := by
  rw [applyOne, FileTree.read_eq_ok_iff.2 ⟨place, hplace, hfile⟩, resultFor]
  dsimp only
  rcases engine.handleText now text with error | ⟨event, outcome⟩
  · rfl
  · cases dryRun with
    | true => rfl
    | false =>
      simp only [store_of_file hplace hfile]
      cases outcome.replacement? <;> rfl

/-- Applying a file changes what lies at its place and nothing else. -/
theorem entry?_applyOne (hplace : tree.locate directory path = .ok place)
    (hfile : tree.entry? place = some (.file (.text text))) (elsewhere : Place) :
    FileTree.entry? (applyOne engine now tree directory path false).1 elsewhere =
      if elsewhere = place then some (.file (.text (textAfter engine now text)))
      else tree.entry? elsewhere := by
  have hkept : tree.entry? elsewhere =
      if elsewhere = place then some (.file (.text text)) else tree.entry? elsewhere := by
    split_ifs with h
    · rw [h, hfile]
    · rfl
  rw [applyOne, FileTree.read_eq_ok_iff.2 ⟨place, hplace, hfile⟩, textAfter]
  dsimp only
  rcases engine.handleText now text with error | ⟨event, outcome⟩
  · exact hkept
  · simp only [store_of_file hplace hfile]
    cases outcome.replacement? with
    | none => exact hkept
    | some new => exact FileTree.entry?_set hfile _ elsewhere

/-- What comes of a file depends on the text in it only. -/
theorem applyOne_of_same_text (hplace : tree.locate directory path = .ok place)
    (hfile : tree.entry? place = some (.file (.text text)))
    (hplace' : other.locate directory path = .ok place)
    (hfile' : other.entry? place = some (.file (.text text))) :
    (applyOne engine now tree directory path false).2 =
        (applyOne engine now other directory path false).2 ∧
      FileTree.entry? (applyOne engine now tree directory path false).1 place =
        FileTree.entry? (applyOne engine now other directory path false).1 place := by
  constructor
  · rw [applyOne_result hplace hfile, applyOne_result hplace' hfile']
  · rw [entry?_applyOne hplace hfile, entry?_applyOne hplace' hfile', if_pos rfl, if_pos rfl]

theorem sameShape_applyOne (hplace : tree.locate directory path = .ok place)
    (hfile : tree.entry? place = some (.file (.text text))) :
    (applyOne engine now tree directory path false).1.SameShape tree := by
  intro elsewhere
  have hentry : FileTree.entry? (applyOne engine now tree directory path false).1 elsewhere = _ :=
    entry?_applyOne hplace hfile elsewhere
  by_cases helsewhere : elsewhere = place
  · subst helsewhere
    rw [if_pos rfl] at hentry
    rw [FileTree.isDirectory?_of_file hentry, FileTree.isDirectory?_of_file hfile]
  · rw [if_neg helsewhere] at hentry
    rw [FileTree.isDirectory?, hentry]
    rfl

/-- All files stay as they are where that is asked for. -/
theorem applyOne_dryRun : (applyOne engine now tree directory path true).1 = tree := by
  rw [applyOne]
  cases tree.read directory path with
  | error fault => rfl
  | ok text =>
    dsimp only
    rcases engine.handleText now text with error | ⟨event, outcome⟩ <;> rfl

/-- A failure leaves all files as they are. -/
theorem applyOne_of_error {dryRun : Bool} {failure : Failure}
    (h : (applyOne engine now tree directory path dryRun).2 = .error failure) :
    (applyOne engine now tree directory path dryRun).1 = tree := by
  rw [applyOne] at h ⊢
  cases hread : tree.read directory path with
  | error fault => rfl
  | ok text =>
    rw [hread] at h
    dsimp only at h ⊢
    rcases hhandle : engine.handleText now text with error | ⟨event, outcome⟩
    · rfl
    · cases dryRun with
      | true => rfl
      | false =>
        obtain ⟨place, hplace, hfile⟩ := FileTree.read_eq_ok_iff.1 hread
        simp only [hhandle, store_of_file hplace hfile] at h ⊢
        cases hreplacement : outcome.replacement? <;> simp [hreplacement] at h ⊢

/-- In trees in which the same lies everywhere, applying a file comes to the same. -/
theorem applyOne_alike (h : tree.Alike other) (engine : Engine) (now : DateTime) (directory : Place)
    (path : String) (dryRun : Bool) :
    (applyOne engine now tree directory path dryRun).2 =
      (applyOne engine now other directory path dryRun).2 ∧
    (applyOne engine now tree directory path dryRun).1.Alike
      (applyOne engine now other directory path dryRun).1 := by
  cases hread : tree.read directory path with
  | error fault =>
    have hother := (h.read_eq directory path).symm.trans hread
    simp only [applyOne, hread, hother]
    exact ⟨trivial, h⟩
  | ok text =>
    obtain ⟨place, hplace, hfile⟩ := FileTree.read_eq_ok_iff.1 hread
    have hplace' := (h.sameShape.locate_eq directory path).symm.trans hplace
    have hfile' := (h place).symm.trans hfile
    rw [applyOne_result hplace hfile, applyOne_result hplace' hfile']
    refine ⟨rfl, ?_⟩
    cases dryRun with
    | true =>
      rw [applyOne_dryRun, applyOne_dryRun]
      exact h
    | false =>
      intro elsewhere
      rw [entry?_applyOne hplace hfile, entry?_applyOne hplace' hfile', h elsewhere]

/-! ## One after the other -/

/-- What comes of a candidate that is applied alone. -/
def alone (engine : Engine) (now : DateTime) (tree : FileTree) (directory : Place) (path : String)
    (candidate : Candidate) : FileTree × Except Failure Outcome :=
  applyOne engine now tree directory (Path.join path candidate.name) false

/-- Candidates with different names, each of which is a text in the directory of the path. -/
structure Waiting (tree : FileTree) (directory : Place) (path : String) (place : Place)
    (found : List Candidate) : Prop where
  locate_eq : ∀ candidate ∈ found,
    tree.locate directory (Path.join path candidate.name) = .ok (place ++ [candidate.name])
  isText : ∀ candidate ∈ found, ∃ text,
    tree.entry? (place ++ [candidate.name]) = some (.file (.text text))
  distinct : found.Pairwise fun first second ↦
    place ++ [first.name] ≠ place ++ [second.name]

namespace Waiting

variable {candidate first : Candidate} {rest found : List Candidate}

/-- A candidate that has been applied has changed nothing at other places. -/
theorem entry?_alone (h : Waiting tree directory path place found) (engine : Engine) (now : DateTime)
    (hmem : candidate ∈ found) {elsewhere : Place} (hne : elsewhere ≠ place ++ [candidate.name]) :
    FileTree.entry? (alone engine now tree directory path candidate).1 elsewhere =
      tree.entry? elsewhere := by
  obtain ⟨text, hfile⟩ := h.isText candidate hmem
  rw [alone, entry?_applyOne (h.locate_eq candidate hmem) hfile, if_neg hne]

theorem sameShape_alone (h : Waiting tree directory path place found) (engine : Engine)
    (now : DateTime) (hmem : candidate ∈ found) :
    (alone engine now tree directory path candidate).1.SameShape tree := by
  obtain ⟨text, hfile⟩ := h.isText candidate hmem
  exact sameShape_applyOne (h.locate_eq candidate hmem) hfile

theorem entry?_rest (h : Waiting tree directory path place (first :: rest)) (engine : Engine)
    (now : DateTime) (hmem : candidate ∈ rest) :
    FileTree.entry? (alone engine now tree directory path first).1 (place ++ [candidate.name]) =
      tree.entry? (place ++ [candidate.name]) := by
  apply h.entry?_alone engine now List.mem_cons_self
  exact ((List.pairwise_cons.1 h.distinct).1 candidate hmem).symm

/-- After the first candidate has been applied, the others still wait. -/
theorem tail (h : Waiting tree directory path place (first :: rest)) (engine : Engine)
    (now : DateTime) :
    Waiting (alone engine now tree directory path first).1 directory path place rest := by
  have hshape := h.sameShape_alone engine now List.mem_cons_self
  refine ⟨fun candidate hmem ↦ ?_, fun candidate hmem ↦ ?_, (List.pairwise_cons.1 h.distinct).2⟩
  · rw [hshape.locate_eq]
    exact h.locate_eq candidate (List.mem_cons_of_mem _ hmem)
  · rw [h.entry?_rest engine now hmem]
    exact h.isText candidate (List.mem_cons_of_mem _ hmem)

/-- What comes of the others does not depend on whether the first candidate has been applied. -/
theorem alone_rest (h : Waiting tree directory path place (first :: rest)) (engine : Engine)
    (now : DateTime) (hmem : candidate ∈ rest) :
    (alone engine now (alone engine now tree directory path first).1 directory path candidate).2 =
        (alone engine now tree directory path candidate).2 ∧
      FileTree.entry? (alone engine now (alone engine now tree directory path first).1 directory path
          candidate).1 (place ++ [candidate.name]) =
        FileTree.entry? (alone engine now tree directory path candidate).1
          (place ++ [candidate.name]) := by
  -- The candidate is read anew, but its text is still the one from before.
  obtain ⟨text, hfile⟩ := h.isText candidate (List.mem_cons_of_mem _ hmem)
  apply applyOne_of_same_text
  · exact (h.tail engine now).locate_eq candidate hmem
  · exact (h.entry?_rest engine now hmem).trans hfile
  · exact h.locate_eq candidate (List.mem_cons_of_mem _ hmem)
  · exact hfile

end Waiting

variable {candidate : Candidate} {found : List Candidate}

/-- A run over candidates comes to what each of them comes to alone. -/
theorem applyEach_eq_alone (engine : Engine) (now : DateTime)
    (h : Waiting tree directory path place found) :
    (applyEach engine now directory path false tree found).2 =
        found.map (fun candidate ↦
          (candidate, (alone engine now tree directory path candidate).2)) ∧
      (∀ candidate ∈ found,
        FileTree.entry? (applyEach engine now directory path false tree found).1
            (place ++ [candidate.name]) =
          FileTree.entry? (alone engine now tree directory path candidate).1
            (place ++ [candidate.name])) ∧
      ∀ elsewhere, (∀ candidate ∈ found, elsewhere ≠ place ++ [candidate.name]) →
        FileTree.entry? (applyEach engine now directory path false tree found).1 elsewhere =
          tree.entry? elsewhere := by
  induction found generalizing tree with
  | nil =>
    refine ⟨rfl, ?_, fun _ _ ↦ rfl⟩
    nofun
  | cons first rest ih =>
    obtain ⟨hresults, hmembers, hothers⟩ := ih (h.tail engine now)
    refine ⟨?_, ?_, ?_⟩
    · calc (applyEach engine now directory path false tree (first :: rest)).2
        _ = (first, (alone engine now tree directory path first).2) ::
            (applyEach engine now directory path false
              (alone engine now tree directory path first).1 rest).2 := rfl
        _ = (first :: rest).map fun candidate ↦
            (candidate, (alone engine now tree directory path candidate).2) := by
          rw [hresults, List.map_cons]
          refine congrArg (List.cons _) (List.map_congr_left fun candidate hmem ↦ ?_)
          rw [(h.alone_rest engine now hmem).1]
    · intro candidate hmem
      rcases List.mem_cons.1 hmem with rfl | hmem
      · -- The later candidates lie at other places than the first one.
        exact hothers _ (List.pairwise_cons.1 h.distinct).1
      · exact (hmembers candidate hmem).trans (h.alone_rest engine now hmem).2
    · intro elsewhere hne
      have hfirst := hne first List.mem_cons_self
      rw [← h.entry?_alone engine now List.mem_cons_self hfirst]
      exact hothers elsewhere fun candidate hmem ↦ hne candidate (List.mem_cons_of_mem _ hmem)

theorem applyEach_dryRun (found : List Candidate) :
    (applyEach engine now directory path true tree found).1 = tree := by
  induction found with
  | nil => rfl
  | cons first rest ih =>
    rw [applyEach, applyOne_dryRun]
    exact ih

theorem applyEach_alike (h : tree.Alike other) (engine : Engine) (now : DateTime)
    (directory : Place) (path : String) (dryRun : Bool) (found : List Candidate) :
    (applyEach engine now directory path dryRun tree found).2 =
      (applyEach engine now directory path dryRun other found).2 ∧
    (applyEach engine now directory path dryRun tree found).1.Alike
      (applyEach engine now directory path dryRun other found).1 := by
  induction found generalizing tree other with
  | nil => exact ⟨rfl, h⟩
  | cons first rest ih =>
    obtain ⟨hresult, htree⟩ :=
      applyOne_alike h engine now directory (Path.join path first.name) dryRun
    obtain ⟨hresults, htrees⟩ := ih htree
    refine ⟨?_, htrees⟩
    rw [applyEach, applyEach, hresult, hresults]

/-! ## A whole directory -/

/-- The candidates of a directory are texts that can be applied. -/
theorem AreCandidates.waiting (h : AreCandidates engine tree place found)
    (hfind : tree.find directory path = .ok (place, .directory)) :
    Waiting tree directory path place found := by
  refine ⟨fun candidate hmem ↦ ?_, fun candidate hmem ↦ ?_, ?_⟩
  · obtain ⟨-, text, -, hfile, -⟩ := (h.mem_iff candidate).1 hmem
    have hname := FileTree.isFileName_of_mem (FileTree.mem_places_of_file hfile)
    exact FileTree.locate_join hname hfind
  · obtain ⟨-, text, -, hfile, -⟩ := (h.mem_iff candidate).1 hmem
    exact ⟨text, hfile⟩
  · refine h.ordered.imp fun {first second} hlt heq ↦ ?_
    rw [List.append_right_inj, List.singleton_inj] at heq
    rw [heq] at hlt
    exact String.lt_irrefl _ hlt

theorem runApplyAll_alike_of_perm [SyntaxWording] (h : tree.entries.Perm other.entries) (dryRun force : Bool) :
    (runApplyAll engine now tree directory path dryRun force).output =
        (runApplyAll engine now other directory path dryRun force).output ∧
      (runApplyAll engine now tree directory path dryRun force).failure =
        (runApplyAll engine now other directory path dryRun force).failure ∧
      (runApplyAll engine now tree directory path dryRun force).tree.Alike
        (runApplyAll engine now other directory path dryRun force).tree := by
  have halike := FileTree.alike_of_perm h
  rw [runApplyAll, runApplyAll, candidates_eq_of_perm h]
  rcases candidates engine other directory path with failure | ⟨⟩ | ⟨first, rest⟩
  · exact ⟨rfl, rfl, halike⟩
  · exact ⟨rfl, rfl, halike⟩
  · dsimp only
    split_ifs with hruns
    · obtain ⟨hresults, htrees⟩ := applyEach_alike halike engine now directory path
        dryRun (first :: rest)
      rw [hresults]
      exact ⟨rfl, rfl, htrees⟩
    · exact ⟨rfl, rfl, halike⟩

theorem runApplyAll_tree_eq [SyntaxWording] {dryRun force : Bool} (h : dryRun = true ∨ force = false) :
    (runApplyAll engine now tree directory path dryRun force).tree = tree := by
  rw [runApplyAll]
  rcases candidates engine tree directory path with failure | ⟨⟩ | ⟨first, rest⟩
  · rfl
  · rfl
  · rcases h with rfl | rfl
    · exact applyEach_dryRun _
    · cases dryRun with
      | true => exact applyEach_dryRun _
      | false => rfl

/-- What is said about the results of a run over a directory: a line for each candidate, an empty
line, and a line for each result. -/
def told [SyntaxWording] : List (Candidate × Except Failure Outcome) → String
  | [] => line (dimmed "No management commands found")
  | results =>
    lines (results.map (fun result ↦ candidateNotice result.1) ++ [""]) ++
      lines (results.map resultNotice)

/-- What a run over the candidates of a directory comes to is what applying each of them alone comes
to, and none of them is stopped by the failure of another one. -/
structure AppliesEach [SyntaxWording] (engine : Engine) (now : DateTime) (tree : FileTree)
    (directory : Place) (path : String) (place : Place) (found : List Candidate) (report : Report) :
    Prop where
  output_eq : report.output = told (found.map fun candidate ↦
    (candidate, (alone engine now tree directory path candidate).2))
  entry?_candidate : ∀ candidate ∈ found, report.tree.entry? (place ++ [candidate.name]) =
    FileTree.entry? (alone engine now tree directory path candidate).1
      (place ++ [candidate.name])
  entry?_failed : ∀ candidate ∈ found, ∀ failure,
    (alone engine now tree directory path candidate).2 = .error failure →
    report.tree.entry? (place ++ [candidate.name]) = tree.entry? (place ++ [candidate.name])
  entry?_other : ∀ elsewhere, (∀ candidate ∈ found, elsewhere ≠ place ++ [candidate.name]) →
    report.tree.entry? elsewhere = tree.entry? elsewhere
  succeeds_iff : report.failure = none ↔ ∀ candidate ∈ found, ∃ outcome,
    (alone engine now tree directory path candidate).2 = .ok outcome
  failure_eq : ∀ failure, report.failure = some failure → failure = .commandsFailed
    (found.countP fun candidate ↦
      !(alone engine now tree directory path candidate).2.toBool) found.length

theorem isFailure_eq (result : Candidate × Except Failure Outcome) :
    isFailure result = !result.2.toBool := by
  rw [isFailure]
  cases result.2 <;> rfl

theorem countP_isFailure (found : List Candidate) (result : Candidate → Except Failure Outcome) :
    (found.map fun candidate ↦ (candidate, result candidate)).countP isFailure =
      found.countP fun candidate ↦ !(result candidate).toBool := by
  rw [List.countP_map]
  exact List.countP_congr fun candidate _ ↦ by rw [Function.comp_apply, isFailure_eq]

theorem summary?_eq_none_iff (found : List Candidate)
    (result : Candidate → Except Failure Outcome) :
    summary? (found.map fun candidate ↦ (candidate, result candidate)) = none ↔
      ∀ candidate ∈ found, ∃ outcome, result candidate = .ok outcome := by
  rw [summary?, countP_isFailure, ite_eq_left_iff]
  simp only [reduceCtorEq, imp_false, not_not, List.countP_eq_zero]
  refine forall₂_congr fun candidate _ ↦ ?_
  cases result candidate <;> simp [Except.toBool]

theorem eq_of_summary?_eq_some {found : List Candidate}
    {result : Candidate → Except Failure Outcome} {failure : Failure}
    (h : summary? (found.map fun candidate ↦ (candidate, result candidate)) = some failure) :
    failure = .commandsFailed (found.countP fun candidate ↦ !(result candidate).toBool)
      found.length := by
  rw [summary?, countP_isFailure, List.length_map] at h
  split at h
  · cases h
  · exact (Option.some.inj h).symm

theorem appliesEach_runApplyAll [SyntaxWording]
    (hcandidates : candidates engine tree directory path = .ok found)
    (h : Waiting tree directory path place found) :
    AppliesEach engine now tree directory path place found
      (runApplyAll engine now tree directory path false true) := by
  obtain ⟨hresults, hmembers, hothers⟩ := applyEach_eq_alone engine now h
  have hreport : runApplyAll engine now tree directory path false true =
      { output := told (applyEach engine now directory path false tree found).2
        tree := (applyEach engine now directory path false tree found).1
        failure := summary? (applyEach engine now directory path false tree found).2 } := by
    rw [runApplyAll, hcandidates]
    cases found with
    | nil => rfl
    | cons first rest =>
      have hlisted : (first :: rest).map candidateNotice =
          (applyEach engine now directory path false tree (first :: rest)).2.map
            fun result ↦ candidateNotice result.1 := by
        rw [hresults, List.map_map]
        rfl
      dsimp only
      rw [hlisted]
      rfl
  rw [hreport, hresults]
  refine ⟨rfl, hmembers, ?_, hothers, summary?_eq_none_iff _ _, ?_⟩
  · intro candidate hmem failure hfailure
    rw [hmembers candidate hmem, alone, applyOne_of_error hfailure]
  · exact fun failure ↦ eq_of_summary?_eq_some

/-- A directory is applied file by file: exactly its candidates are, in the order of their names and
each as if it were alone, while all else stays as it is.  What the run says and leaves behind does not
depend on the order in which the directory lists its entries, and where nothing may be changed or the
run is not confirmed, all files stay as they are. -/
theorem runApplyAll_applies_each [SyntaxWording] (engine : Engine) (now : DateTime)
    (hfind : tree.find directory path = .ok (place, .directory)) :
    (∃ found, AreCandidates engine tree place found ∧
      AppliesEach engine now tree directory path place found
        (runApplyAll engine now tree directory path false true)) ∧
    (∀ other : FileTree, tree.entries.Perm other.entries → ∀ dryRun force,
      (runApplyAll engine now tree directory path dryRun force).output =
          (runApplyAll engine now other directory path dryRun force).output ∧
        (runApplyAll engine now tree directory path dryRun force).failure =
          (runApplyAll engine now other directory path dryRun force).failure ∧
        (runApplyAll engine now tree directory path dryRun force).tree.Alike
          (runApplyAll engine now other directory path dryRun force).tree) ∧
    ∀ dryRun force, dryRun = true ∨ force = false →
      (runApplyAll engine now tree directory path dryRun force).tree = tree := by
  refine ⟨?_, fun other hperm ↦ runApplyAll_alike_of_perm hperm, fun _ _ ↦ runApplyAll_tree_eq⟩
  obtain ⟨found, hcandidates, hfound⟩ := exists_candidates engine hfind
  exact ⟨found, hfound, appliesEach_runApplyAll hcandidates (hfound.waiting hfind)⟩

/-- The text of an event with a summary and further lines. -/
def summaryText (summary more : String) : String :=
  "BEGIN:VEVENT\r\nCLASS:PRIVATE\r\nSUMMARY:" ++ summary ++ "\r\n" ++ more ++ "END:VEVENT\r\n"

/-- A directory with a command, a command without a narrative, an ordinary event, an event in another
kind of file, a file that is no text, and a directory that is named as a calendar file. -/
def mixedTree : FileTree :=
  .ofEntries
    [(["in", "d.ics"], .file (.text (summaryText "share-read" "DESCRIPTION:note\r\n"))),
      (["in", "c.ics"], .file (.text (summaryText "lunch" "DESCRIPTION:note\r\n"))),
      (["in", "b.ics"], .file (.text (summaryText "share-read" ""))),
      (["in", "a.txt"], .file (.text (summaryText "share-read" "DESCRIPTION:note\r\n"))),
      (["in", "e.ics"], .file (.binary [255])),
      (["in", "f.ics"], .directory)]

/-- The built-in commands, with updates that carry the same time always. -/
def timelessEngine : Engine :=
  .ofRegistry (.ofBuiltins "") { Settings.default with timestampFormat := "now" }

def shareRead (narrative : Option String) : Event :=
  { classification := some .privateClass, summary := some "share-read", narrative }

/-- The command without a narrative fails, and the one behind it is carried out nevertheless. -/
theorem runApplyAll_applies_each_mixed :
    mixedTree.find [] "in" = .ok (["in"], .directory) ∧
    ∃ found, AreCandidates timelessEngine mixedTree ["in"] found ∧
      AppliesEach timelessEngine .epoch mixedTree [] "in" ["in"] found
        (runApplyAll timelessEngine .epoch mixedTree [] "in" false true) ∧
      { name := "b.ics", command := "share-read" } ∈ found ∧
      { name := "d.ics", command := "share-read" } ∈ found ∧
      (runApplyAll timelessEngine .epoch mixedTree [] "in" false true).failure ≠ none ∧
      FileTree.entry? (runApplyAll timelessEngine .epoch mixedTree [] "in" false true).tree
          ["in", "d.ics"] =
        some (.file (.text (summaryText "share-read" ("DESCRIPTION:note\\n\\n======= update (now) " ++
          "=======\\nCalendar shared with read\r\n  access\r\n")))) := by
  have hfind : mixedTree.find [] "in" = .ok (["in"], .directory) := by decide +kernel
  obtain ⟨⟨found, hfound, heach⟩, -⟩ := runApplyAll_applies_each timelessEngine .epoch hfind
  have hbad : { name := "b.ics", command := "share-read" } ∈ found := by
    refine (hfound.mem_iff _).2 ⟨by decide, summaryText "share-read" "", shareRead none, ?_⟩
    decide +kernel
  have hgood : { name := "d.ics", command := "share-read" } ∈ found := by
    refine (hfound.mem_iff _).2
      ⟨by decide, summaryText "share-read" "DESCRIPTION:note\r\n", shareRead (some "note"), ?_⟩
    decide +kernel
  refine ⟨hfind, found, hfound, heach, hbad, hgood, ?_, ?_⟩
  · intro hnone
    obtain ⟨outcome, houtcome⟩ := heach.succeeds_iff.1 hnone _ hbad
    have hfailed : (alone timelessEngine .epoch mixedTree [] "in"
        { name := "b.ics", command := "share-read" }).2 =
          .error (.notApplied "in/b.ics" (.narrativeMissing "share-read")) := by decide +kernel
    rw [hfailed] at houtcome
    cases houtcome
  · refine (heach.entry?_candidate _ hgood).trans ?_
    decide +kernel

end CommandLine

end CalendarCommand
