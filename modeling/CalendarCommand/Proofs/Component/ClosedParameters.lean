import CalendarCommand.Proofs.Component.Scanning

/-!
# Parameters that end in their line

A parameter is closed where its value holds no line feed and a quote that opens the value has a
second one.  Closed parameters in front of a colon are read without a look behind that colon: any
other text may stand there.  An open quote, in contrast, is closed by the next quote of the text,
however far away.
-/

namespace CalendarCommand

open Scan ContentLine

/-- The value of the parameter ends in the line it begins in. -/
def Parameter.Closed (parameter : Parameter) : Prop :=
  ∀ value, parameter.value = some value →
    '\n' ∉ value ∧ ∀ rest, value = '"' :: rest → '"' ∈ rest

def Property.Closed (property : Property) : Prop :=
  ∀ parameter ∈ property.parameters, parameter.Closed

variable {text rest : List Char}

/-! ## Quoted values -/

theorem readQuoted?_eq_some_iff {body : List Char} : readQuoted? text = some (body, rest) ↔
    text = '"' :: (body ++ '"' :: rest) ∧ body ≠ [] ∧ '"' ∉ body := by
  constructor
  · intro h
    unfold readQuoted? at h
    split at h
    · rename_i inner
      split at h
      · rename_i c front back htake hdrop
        obtain ⟨rfl, rfl⟩ := Prod.mk.inj (Option.some.inj h)
        refine ⟨?_, List.cons_ne_nil _ _, fun hmem ↦ ?_⟩
        · rw [← htake, ← hdrop, List.takeWhile_append_dropWhile]
        · rw [← htake] at hmem
          exact absurd (List.mem_takeWhile_imp hmem) (by simp)
      · exact absurd h (by simp)
    · exact absurd h (by simp)
  · rintro ⟨rfl, hne, hquote⟩
    have hall : ∀ c ∈ body, (c != '"') = true := by
      intro c hc
      rw [bne_iff_ne]
      exact fun h ↦ hquote (h ▸ hc)
    have hstop : ∀ c, ('"' :: rest).head? = some c → (c != '"') = false := by simp
    obtain ⟨htake, hdrop⟩ := cut_append hall hstop
    obtain ⟨c, body, rfl⟩ := List.exists_cons_of_ne_nil hne
    rw [readQuoted?, htake, hdrop]
    rfl

theorem readQuoted?_of_head {c : Char} (hc : c ≠ '"') (rest : List Char) :
    readQuoted? (c :: rest) = none := by
  rw [Option.eq_none_iff_forall_ne_some]
  intro cut h
  have heq := (readQuoted?_eq_some_iff.1 h).1
  exact hc (List.cons.inj heq).1

/-- A quote that is closed in front of a mark is read in the same way whatever is behind it. -/
theorem readQuoted?_closed {value : List Char} (hclosed : '"' ∈ value)
    (h : readQuoted? ('"' :: (value ++ rest)) = none) (other : List Char) :
    readQuoted? ('"' :: (value ++ other)) = none := by
  obtain ⟨front, back, rfl, hfront⟩ := List.eq_append_cons_of_mem hclosed
  cases front with
  | nil =>
    rw [Option.eq_none_iff_forall_ne_some]
    rintro ⟨body, after⟩ hsome
    obtain ⟨heq, hne, hquote⟩ := readQuoted?_eq_some_iff.1 hsome
    obtain ⟨c, body, rfl⟩ := List.exists_cons_of_ne_nil hne
    simp only [List.nil_append, List.cons_append, List.cons.injEq, true_and] at heq
    exact hquote (by rw [← heq.1]; exact List.mem_cons_self)
  | cons c front =>
    have hsome : readQuoted? ('"' :: (c :: front ++ '"' :: back ++ rest)) =
        some (c :: front, back ++ rest) := by
      apply readQuoted?_eq_some_iff.2
      exact ⟨congrArg _ (List.append_assoc (c :: front) ('"' :: back) rest),
        List.cons_ne_nil c front, hfront⟩
    rw [h] at hsome
    exact absurd hsome (by simp)

theorem readMoreQuoted_comma {body : List Char} (h : readQuoted? text = some (body, rest)) :
    readMoreQuoted (',' :: text) = (body :: (readMoreQuoted rest).1, (readMoreQuoted rest).2) := by
  rw [readMoreQuoted]
  split
  · rename_i found after hfound
    obtain ⟨rfl, rfl⟩ := Prod.mk.inj (Option.some.inj (h.symm.trans hfound))
    rfl
  · rename_i hnone
    rw [h] at hnone
    exact absurd hnone (by simp)

theorem readMoreQuoted_of_ne {c : Char} (hc : c ≠ ',') (rest : List Char) :
    readMoreQuoted (c :: rest) = ([], c :: rest) := by
  rw [readMoreQuoted]
  intro text h
  exact hc (List.cons.inj h).1

theorem mem_joinQuoted {body : List Char} {bodies : List (List Char)} (hbody : body ∈ bodies)
    {c : Char} (hc : c ∈ body) : c ∈ joinQuoted bodies := by
  induction bodies with
  | nil => exact absurd hbody (by simp)
  | cons first bodies ih =>
    cases bodies with
    | nil =>
      rw [List.mem_singleton.1 hbody] at hc
      simp [joinQuoted, hc]
    | cons second bodies =>
      have hjoin : joinQuoted (first :: second :: bodies) =
          ('"' :: first ++ ['"']) ++ ',' :: joinQuoted (second :: bodies) := by
        simp [joinQuoted, List.intercalate]
      rw [hjoin]
      rcases List.mem_cons.1 hbody with rfl | hbody
      · simp [hc]
      · simp [ih hbody]

/-! ## Parameters in front of a mark -/

/-- Text that is read in front of a mark is LF-free and is read in the same way whatever stands
behind the mark. -/
def ReadsBefore {α : Type} (read : List Char → α × List Char) (mark : Char) (text : List Char)
    (result : α) (rest : List Char) : Prop :=
  ∃ lead, '\n' ∉ lead ∧ text = lead ++ mark :: rest ∧
    ∀ other, read (lead ++ mark :: other) = (result, mark :: other)

variable {mark : Char}

theorem readMoreQuoted_local (hmark : isParameterChar mark = false) {bodies : List (List Char)}
    (h : readMoreQuoted text = (bodies, mark :: rest)) (hlf : ∀ body ∈ bodies, '\n' ∉ body) :
    ReadsBefore readMoreQuoted mark text bodies rest := by
  have hcomma : mark ≠ ',' := ne_of_apply_ne isParameterChar (by rw [hmark]; decide)
  fun_induction readMoreQuoted text generalizing bodies with
  | case1 text body after hbody more =>
    rename_i ih
    obtain ⟨rfl, hrest⟩ := Prod.mk.inj h
    obtain ⟨rfl, hne, hquote⟩ := readQuoted?_eq_some_iff.1 hbody
    obtain ⟨lead, hlead, rfl, hread⟩ := ih (by rw [← hrest])
      (fun other hother ↦ hlf other (List.mem_cons_of_mem _ hother))
    have hfirst := hlf body List.mem_cons_self
    refine ⟨',' :: '"' :: (body ++ '"' :: lead), by simp [hlead, hfirst], by simp, fun other ↦ ?_⟩
    have hsome : readQuoted? ('"' :: (body ++ '"' :: (lead ++ mark :: other))) =
        some (body, lead ++ mark :: other) := readQuoted?_eq_some_iff.2 ⟨rfl, hne, hquote⟩
    have hnext := readMoreQuoted_comma hsome
    rw [hread] at hnext
    simpa using hnext
  | case2 text hnone =>
    obtain ⟨-, hrest⟩ := Prod.mk.inj h
    exact absurd (List.cons.inj hrest).1.symm hcomma
  | case3 text hno =>
    obtain ⟨rfl, rfl⟩ := Prod.mk.inj h
    exact ⟨[], by simp, rfl, fun other ↦ readMoreQuoted_of_ne hcomma other⟩

theorem readParameterValue_quoted {body : List Char} {more : List (List Char)}
    {back : List Char} (h : readQuoted? text = some (body, back))
    (hmore : readMoreQuoted back = (more, rest)) :
    readParameterValue text =
      (some (if more = [] then body else joinQuoted (body :: more)), rest) := by
  rw [readParameterValue, h]
  dsimp only
  rw [hmore]
  cases more <;> rfl

theorem readParameterValue_unquoted {value : List Char} (h : readQuoted? text = none)
    (hvalue : text.takeWhile isParameterChar = value) :
    readParameterValue text = (if value = [] then none else some value,
      if value = [] then text else text.dropWhile isParameterChar) := by
  rw [readParameterValue, h]
  dsimp only
  rw [hvalue]
  cases value <;> rfl

theorem readParameterValue_local_of_quoted (hmark : isParameterChar mark = false) {name : List Char}
    {value : Option (List Char)} {body back : List Char} (hquoted : readQuoted? text = some (body, back))
    (h : readParameterValue text = (value, mark :: rest))
    (hclosed : Parameter.Closed { name, value }) :
    ReadsBefore readParameterValue mark text value rest := by
  obtain ⟨more, hmore⟩ : ∃ more, readMoreQuoted back = (more, (readMoreQuoted back).2) := ⟨_, rfl⟩
  obtain ⟨hvalue, hback⟩ := Prod.mk.inj ((readParameterValue_quoted hquoted hmore).symm.trans h)
  rw [hback] at hmore
  obtain ⟨hlf, -⟩ := hclosed _ hvalue.symm
  have hbodies : ∀ part ∈ body :: more, '\n' ∉ part := by
    intro part hpart hmem
    split at hlf
    · rename_i hnil
      rw [hnil, List.mem_singleton] at hpart
      exact hlf (hpart ▸ hmem)
    · exact hlf (mem_joinQuoted hpart hmem)
  obtain ⟨lead, hlead, rfl, hread⟩ := readMoreQuoted_local hmark hmore
    (fun part hpart ↦ hbodies part (List.mem_cons_of_mem _ hpart))
  obtain ⟨rfl, hne, hquote⟩ := readQuoted?_eq_some_iff.1 hquoted
  refine ⟨'"' :: (body ++ '"' :: lead), by simp [hlead, hbodies body List.mem_cons_self],
    by simp, fun other ↦ ?_⟩
  have hsome : readQuoted? ('"' :: (body ++ '"' :: (lead ++ mark :: other))) =
      some (body, lead ++ mark :: other) := readQuoted?_eq_some_iff.2 ⟨rfl, hne, hquote⟩
  have hnext := readParameterValue_quoted hsome (hread other)
  rw [hvalue] at hnext
  simpa using hnext

theorem readParameterValue_local_of_unquoted (hmark : isParameterChar mark = false)
    {name : List Char} {value : Option (List Char)} (hquoted : readQuoted? text = none)
    (h : readParameterValue text = (value, mark :: rest))
    (hclosed : Parameter.Closed { name, value }) :
    ReadsBefore readParameterValue mark text value rest := by
  have hquoteMark : mark ≠ '"' := ne_of_apply_ne isParameterChar (by rw [hmark]; decide)
  have hread := (readParameterValue_unquoted hquoted rfl).symm.trans h
  obtain ⟨hvalue, hrest⟩ := Prod.mk.inj hread
  by_cases hnil : text.takeWhile isParameterChar = []
  · rw [if_pos hnil] at hvalue hrest
    refine ⟨[], by simp, hrest, fun other ↦ ?_⟩
    have htake : (mark :: other).takeWhile isParameterChar = [] := by simp [hmark]
    rw [List.nil_append, readParameterValue_unquoted (readQuoted?_of_head hquoteMark other) htake,
      if_pos rfl, if_pos rfl, hvalue]
  · rw [if_neg hnil] at hvalue hrest
    obtain ⟨hlf, hclose⟩ := hclosed _ hvalue.symm
    have htext := List.takeWhile_append_dropWhile (p := isParameterChar) (l := text)
    rw [hrest] at htext
    refine ⟨text.takeWhile isParameterChar, hlf, htext.symm, fun other ↦ ?_⟩
    have hfront : ∀ c ∈ text.takeWhile isParameterChar, isParameterChar c = true :=
      fun c hc ↦ List.mem_takeWhile_imp hc
    have hstop : ∀ c, (mark :: other).head? = some c → isParameterChar c = false :=
      fun c hc ↦ Option.some.inj hc ▸ hmark
    have hcut := cut_append hfront hstop
    have hnone : readQuoted? (text.takeWhile isParameterChar ++ mark :: other) = none := by
      obtain ⟨c, value, hstart⟩ := List.exists_cons_of_ne_nil hnil
      rw [hstart, List.cons_append]
      by_cases hc : c = '"'
      · rw [← htext, hstart, List.cons_append, hc] at hquoted
        rw [hc]
        exact readQuoted?_closed (hclose value (by rw [hstart, hc])) hquoted _
      · exact readQuoted?_of_head hc _
    rw [readParameterValue_unquoted hnone hcut.1, if_neg hnil, if_neg hnil, hcut.2, hvalue]

theorem readParameterValue_local (hmark : isParameterChar mark = false) {name : List Char}
    {value : Option (List Char)} (h : readParameterValue text = (value, mark :: rest))
    (hclosed : Parameter.Closed { name, value }) :
    ReadsBefore readParameterValue mark text value rest := by
  cases hquoted : readQuoted? text with
  | some cut => exact readParameterValue_local_of_quoted hmark hquoted h hclosed
  | none => exact readParameterValue_local_of_unquoted hmark hquoted h hclosed

/-- A parameter is cut into the blanks in front of it, its name, and what follows the name. -/
theorem readParameter_cut {blanks name : List Char} {c : Char}
    (hblanks : ∀ d ∈ blanks, isFoldMark d = true) (hname : ∀ d ∈ name, isNameChar d = true)
    (hblank : isFoldMark c = false) (hc : isNameChar c = false) (back : List Char) :
    readParameter (blanks ++ (name ++ c :: back)) =
      if c = '=' then
        ({ name, value := (readParameterValue back).1 }, (readParameterValue back).2)
      else ({ name, value := none }, c :: back) := by
  have hstart : ∀ d, (name ++ c :: back).head? = some d → isFoldMark d = false := by
    intro d hd
    cases name with
    | nil => exact Option.some.inj hd ▸ hblank
    | cons e name =>
      obtain rfl := Option.some.inj hd
      have he := hname e List.mem_cons_self
      rw [← Bool.not_eq_true, isFoldMark_iff]
      rintro (rfl | rfl) <;> exact absurd he (by decide)
  have hdrop : (blanks ++ (name ++ c :: back)).dropWhile (fun d ↦ d == ' ' || d == '\t') =
      name ++ c :: back := (cut_append (p := isFoldMark) hblanks hstart).2
  have hstop : ∀ d, (c :: back).head? = some d → isNameChar d = false :=
    fun d hd ↦ Option.some.inj hd ▸ hc
  obtain ⟨htake, hback⟩ := cut_append hname hstop
  rw [readParameter]
  simp only [hdrop, htake, hback]
  split
  · rename_i tail heq
    obtain ⟨rfl, rfl⟩ := List.cons.inj heq
    rfl
  · rename_i hne
    rw [if_neg]
    rintro rfl
    exact hne back rfl

theorem readParameter_local (hmark : mark = ';' ∨ mark = ':') {parameter : Parameter}
    (h : readParameter text = (parameter, mark :: rest)) (hclosed : parameter.Closed) :
    ReadsBefore readParameter mark text parameter rest := by
  have hends : isParameterChar mark = false ∧ isFoldMark mark = false ∧
      isNameChar mark = false ∧ mark ≠ '=' := by
    rcases hmark with rfl | rfl <;> decide
  obtain ⟨hend, hblank, hnameChar, hequals⟩ := hends
  let start := text.dropWhile isFoldMark
  have htext : text = text.takeWhile isFoldMark ++
      (start.takeWhile isNameChar ++ start.dropWhile isNameChar) := by
    rw [List.takeWhile_append_dropWhile, List.takeWhile_append_dropWhile]
  have hblanks : ∀ c ∈ text.takeWhile isFoldMark, isFoldMark c = true :=
    fun c hc ↦ List.mem_takeWhile_imp hc
  have hname : ∀ c ∈ start.takeWhile isNameChar, isNameChar c = true :=
    fun c hc ↦ List.mem_takeWhile_imp hc
  have hlead : '\n' ∉ text.takeWhile isFoldMark ++ start.takeWhile isNameChar := by
    rw [List.mem_append, not_or]
    exact ⟨fun hlf ↦ absurd (hblanks _ hlf) (by decide),
      fun hlf ↦ absurd (hname _ hlf) (by decide)⟩
  unfold readParameter at h
  dsimp only at h
  split at h
  · rename_i tail hback
    obtain ⟨rfl, hrest⟩ := Prod.mk.inj h
    obtain ⟨lead, hvalue, htail, hread⟩ := readParameterValue_local hend
      (Prod.ext rfl hrest : readParameterValue tail = (_, mark :: rest)) hclosed
    have hback : start.dropWhile isNameChar = '=' :: tail := hback
    refine ⟨text.takeWhile isFoldMark ++ start.takeWhile isNameChar ++ '=' :: lead, ?_, ?_,
      fun other ↦ ?_⟩
    · simp only [List.mem_append, List.mem_cons, not_or] at hlead ⊢
      exact ⟨hlead, by decide, hvalue⟩
    · calc
        text = text.takeWhile isFoldMark ++
            (start.takeWhile isNameChar ++ start.dropWhile isNameChar) := htext
        _ = text.takeWhile isFoldMark ++ start.takeWhile isNameChar ++ '=' :: lead ++
            mark :: rest := by rw [hback, htail]; simp
    · have hcut := readParameter_cut hblanks hname (c := '=') (by decide) (by decide)
        (lead ++ mark :: other)
      rw [if_pos rfl, hread] at hcut
      simp only [List.append_assoc, List.cons_append]
      exact hcut
  · rename_i hback
    obtain ⟨rfl, hrest⟩ := Prod.mk.inj h
    have hrest : start.dropWhile isNameChar = mark :: rest := hrest
    refine ⟨text.takeWhile isFoldMark ++ start.takeWhile isNameChar, hlead, ?_, fun other ↦ ?_⟩
    · rw [List.append_assoc, ← hrest]
      exact htext
    · have hcut := readParameter_cut hblanks hname hblank hnameChar other
      rw [if_neg hequals] at hcut
      rw [List.append_assoc]
      exact hcut

theorem readParameters_of_ne (hmark : mark ≠ ';') (rest : List Char) :
    readParameters (mark :: rest) = ([], mark :: rest) := by
  rw [readParameters]
  intro more h
  exact hmark (List.cons.inj h).1

/-- Parameters end in front of a colon only where each of them ends in front of a mark. -/
theorem exists_mark_of_readParameters {parameters : List Parameter}
    (h : readParameters text = (parameters, ':' :: rest)) :
    ∃ mark back, text = mark :: back ∧ (mark = ';' ∨ mark = ':') := by
  cases text with
  | nil =>
    rw [readParameters] at h
    · exact absurd (congrArg Prod.snd h) (by simp)
    · simp
  | cons mark back =>
    refine ⟨mark, back, rfl, ?_⟩
    by_cases hmark : mark = ';'
    · exact .inl hmark
    · rw [readParameters_of_ne hmark] at h
      exact .inr (List.cons.inj (congrArg Prod.snd h)).1

/-- Closed parameters in front of a colon are read without a look behind it. -/
theorem readParameters_local {parameters : List Parameter}
    (h : readParameters text = (parameters, ':' :: rest))
    (hclosed : ∀ parameter ∈ parameters, parameter.Closed) :
    ReadsBefore readParameters ':' text parameters rest := by
  fun_induction readParameters text generalizing parameters with
  | case1 text next more =>
    rename_i ih
    obtain ⟨rfl, hrest⟩ := Prod.mk.inj h
    have hmore : readParameters next.2 = (more.1, ':' :: rest) := Prod.ext rfl hrest
    obtain ⟨mark, back, hnext, hmark⟩ := exists_mark_of_readParameters hmore
    obtain ⟨lead, hlead, hback, hread⟩ := ih hmore
      (fun parameter hparameter ↦ hclosed parameter (List.mem_cons_of_mem _ hparameter))
    obtain ⟨first, hfirst, htext, hparameter⟩ := readParameter_local hmark
      (Prod.ext rfl hnext : readParameter text = (next.1, mark :: back))
      (hclosed next.1 List.mem_cons_self)
    refine ⟨';' :: (first ++ lead), by simp [hfirst, hlead], ?_, fun other ↦ ?_⟩
    · rw [htext, ← hnext, hback]
      simp
    · -- The parameters behind the first one begin with the same mark.
      have hsame : ∃ tail, lead ++ ':' :: other = mark :: tail := by
        rw [hback] at hnext
        cases lead with
        | nil => exact ⟨other, by rw [← (List.cons.inj hnext).1]; rfl⟩
        | cons c lead => exact ⟨lead ++ ':' :: other, by rw [← (List.cons.inj hnext).1]; rfl⟩
      obtain ⟨tail, htail⟩ := hsame
      have hone := hparameter tail
      rw [← htail] at hone
      rw [List.cons_append, List.append_assoc, readParameters, hone]
      dsimp only
      rw [hread]
  | case2 text hno =>
    obtain ⟨rfl, rfl⟩ := Prod.mk.inj h
    exact ⟨[], by simp, rfl, fun other ↦ readParameters_of_ne (by decide) other⟩

end CalendarCommand
