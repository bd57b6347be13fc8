import CalendarCommand.Proofs.Component.ChangedLine

/-!
# Where the reader meets a line

A run of the reader over a text with a DESCRIPTION line meets that line exactly once.  Up to there
it is the run over any other line in its place, and behind it the same text is left, whichever line
it was.
-/

namespace CalendarCommand

open Scan ContentLine

variable {old tail : List Char} {component : Component}

namespace Reading

variable {reading next other : Reading}

/-! ## The step at the line -/

/-- Nothing but gaps stand in front of the line. -/
def AtLine (reading : Reading) : Prop :=
  ∀ c ∈ reading.text, isGap c = true

/-- A line that stands in front of the text ends there. -/
def StopsLine (tail : List Char) : Prop :=
  tail = [] ∨ (∃ rest, tail = '\n' :: rest) ∨ ∃ rest, tail = '\r' :: '\n' :: rest

/-- A colon that comes before any line feed belongs to the line. -/
theorem StopsLine.exists_value (htail : StopsLine tail) {front lead back : List Char}
    (hlead : '\n' ∉ lead) (h : front ++ tail = lead ++ ':' :: back) :
    ∃ value, front = lead ++ ':' :: value ∧ back = value ++ tail := by
  rcases List.append_eq_append_iff.1 h with ⟨more, rfl, hmore⟩ | ⟨more, rfl, hmore⟩
  · exfalso
    have hlf : '\n' ∉ more := fun hlf ↦ hlead (List.mem_append_right front hlf)
    rcases htail with rfl | ⟨rest, rfl⟩ | ⟨rest, rfl⟩
    · exact absurd hmore (by simp)
    · cases more with
      | nil => exact absurd hmore (by simp)
      | cons c more => exact hlf (by rw [← (List.cons.inj hmore).1]; exact List.mem_cons_self)
    · rcases more with - | ⟨c, - | ⟨d, more⟩⟩
      · exact absurd hmore (by simp)
      · exact absurd hmore (by simp)
      · simp only [List.cons_append, List.cons.injEq] at hmore
        exact hlf (by rw [← hmore.2.1]; simp)
  · cases more with
    | nil =>
      exfalso
      rw [List.nil_append] at hmore
      rcases htail with rfl | ⟨rest, rfl⟩ | ⟨rest, rfl⟩ <;> exact absurd hmore (by simp)
    | cons c more =>
      obtain ⟨rfl, rfl⟩ := List.cons.inj hmore
      exact ⟨more, rfl, rfl⟩

theorem AtLine.skipLineEnds (h : reading.AtLine) :
    ∀ c ∈ skipLineEnds reading.text, isGap c = true :=
  fun c hc ↦ h c ((skipLineEnds_suffix reading.text).subset hc)

/-- No mark stands where the line begins. -/
theorem AtLine.dropKeyword?_eq_none (h : reading.AtLine) {line : List Char}
    (hline : IsDescriptionLine line) (tail : List Char) :
    dropKeyword? "END:" (Scan.skipLineEnds (reading.text ++ (line ++ tail))) = none ∧
      dropKeyword? "BEGIN:" (Scan.skipLineEnds (reading.text ++ (line ++ tail))) = none := by
  have hgap := h.skipLineEnds
  rw [skipLineEnds_front hline]
  obtain ⟨back, rfl⟩ := hline.exists_cons
  cases hfront : Scan.skipLineEnds reading.text with
  | nil => exact ⟨rfl, rfl⟩
  | cons c front =>
    rw [hfront] at hgap
    have hc := hgap c List.mem_cons_self
    simp only [isGap, Bool.or_eq_true, beq_iff_eq] at hc
    rcases hc with ((rfl | rfl) | rfl) | rfl <;> exact ⟨rfl, rfl⟩

theorem isMark_line {line : List Char} (hline : IsDescriptionLine line) (more : List Char) :
    isMark (line ++ more) = false := by
  obtain ⟨back, rfl⟩ := hline.exists_cons
  rfl

theorem dropWhile_isGap_line {front line : List Char} (hfront : ∀ c ∈ front, isGap c = true)
    (hline : IsDescriptionLine line) (tail : List Char) :
    (front ++ (line ++ tail)).dropWhile isGap = line ++ tail := by
  obtain ⟨back, rfl⟩ := hline.exists_cons
  exact (cut_append hfront (by simp [isGap])).2

/-- The name of a DESCRIPTION line is cut off in front of a mark. -/
theorem cut_descriptionName {mark : Char} (hmark : mark = ';' ∨ mark = ':') (more : List Char) :
    (descriptionName ++ mark :: more).takeWhile isNameChar = descriptionName ∧
      (descriptionName ++ mark :: more).dropWhile isNameChar = mark :: more := by
  have hname : ∀ c ∈ descriptionName, isNameChar c = true := by decide
  apply cut_append hname
  intro c hc
  rw [← Option.some.inj hc]
  rcases hmark with rfl | rfl <;> decide

/-- A DESCRIPTION line is read behind its gap as one property. -/
theorem readProperty?_line {front lead value : List Char} {parameters : List Parameter}
    (hfront : ∀ c ∈ front, isGap c = true)
    (hline : IsDescriptionLine (descriptionName ++ (lead ++ ':' :: value)))
    (hlead : ∃ mark more, lead ++ [':'] = mark :: more ∧ (mark = ';' ∨ mark = ':'))
    (hread : readParameters (lead ++ ':' :: (value ++ tail)) = (parameters, ':' :: (value ++ tail))) :
    readProperty? (front ++ (descriptionName ++ (lead ++ ':' :: value) ++ tail)) =
      some ({ name := descriptionName, parameters, value := value ++ (readValue tail).1 },
        skipLineEnd (readValue tail).2) := by
  have hstart := dropWhile_isGap_line hfront hline tail
  obtain ⟨mark, more, hmore, hmark⟩ := hlead
  have hline' : descriptionName ++ (lead ++ ':' :: value) ++ tail =
      descriptionName ++ mark :: (more ++ (value ++ tail)) := by
    calc
      descriptionName ++ (lead ++ ':' :: value) ++ tail =
          descriptionName ++ (lead ++ [':'] ++ (value ++ tail)) := by simp
      _ = descriptionName ++ mark :: (more ++ (value ++ tail)) := by rw [hmore, List.cons_append]
  have hback : lead ++ ':' :: (value ++ tail) = mark :: (more ++ (value ++ tail)) := by
    calc
      lead ++ ':' :: (value ++ tail) = lead ++ [':'] ++ (value ++ tail) := by simp
      _ = mark :: (more ++ (value ++ tail)) := by rw [hmore, List.cons_append]
  obtain ⟨htake, hdrop⟩ := cut_descriptionName hmark (more ++ (value ++ tail))
  rw [← hline'] at htake hdrop
  rw [hback, ← hdrop, ← hstart] at hread
  have hproperty := readProperty?_value (by rw [hstart]; exact isMark_line hline tail) hread
  rw [hproperty, hstart, htake, readValue_append hline.breakFree_value]

/-- The step that reads the line into the innermost frame. -/
theorem AtLine.step (h : reading.AtLine) {line : List Char} (hline : IsDescriptionLine line)
    {property : Property}
    (hread : readProperty? (Scan.skipLineEnds reading.text ++ (line ++ tail)) =
      some (property, skipLineEnd (readValue tail).2)) :
    Step (reading.followedBy (line ++ tail))
      ⟨reading.outer, reading.frame.push (.property property),
        Scan.skipLineEnds (skipLineEnd (readValue tail).2)⟩ := by
  obtain ⟨hend, hbegin⟩ := h.dropKeyword?_eq_none hline tail
  have hskip := length_skipLineEnds_le (skipLineEnd (readValue tail).2)
  have hone := (skipLineEnd_suffix (readValue tail).2).length_le
  have hvalue := (readValue_suffix tail).length_le
  obtain ⟨back, hback⟩ := hline.exists_cons
  have hline' : 0 < line.length := by simp [hback]
  rw [← skipLineEnds_front hline] at hread
  refine .property hend hbegin hread ?_
  rw [skipLineEnds_front hline, List.length_append, List.length_append]
  omega

/-- Where the parameters of a DESCRIPTION line are not followed by a colon, reading ends. -/
theorem readBody_bare_line {front more rest : List Char} {mark : Char}
    (hfront : ∀ c ∈ front, isGap c = true) (hskip : Scan.skipLineEnds front = front)
    (hmark : mark = ';' ∨ mark = ':')
    (hline : IsDescriptionLine (descriptionName ++ mark :: more))
    (hbare : (readParameters (mark :: (more ++ tail))).2.head? ≠ some ':')
    {property : Property} {outer : List Frame} {frame : Frame}
    (hread : readProperty? (front ++ (descriptionName ++ mark :: more ++ tail)) =
      some (property, rest))
    (hshorter : (Scan.skipLineEnds rest).length <
      (front ++ (descriptionName ++ mark :: more ++ tail)).length) :
    readBody outer frame (Scan.skipLineEnds rest) = none := by
  have hstart := dropWhile_isGap_line hfront hline tail
  obtain ⟨-, hdrop⟩ := cut_descriptionName hmark (more ++ tail)
  have hwhole : descriptionName ++ mark :: more ++ tail =
      descriptionName ++ mark :: (more ++ tail) := by simp
  have hproperty := readProperty?_bare (by rw [hstart]; exact isMark_line hline tail) (by
    rw [hstart, hwhole, hdrop]
    exact hbare)
  rw [hread] at hproperty
  obtain ⟨-, rfl⟩ := Prod.mk.inj (Option.some.inj hproperty)
  cases front with
  | nil =>
    rw [List.nil_append, hwhole, hdrop]
    rcases hmark with rfl | rfl
    · have hsemicolon := skipLineEnds_of_ne (c := ';') (by decide) (by decide) (more ++ tail)
      rw [skipLineEnd_eq_self hsemicolon, hsemicolon]
      exact readBody_semicolon hbare
    · rw [readParameters_of_ne (by decide)] at hbare
      exact absurd rfl hbare
  | cons c front =>
    -- The gap keeps the name from being read, so nothing is taken from the text.
    exfalso
    have hc : ¬ isNameChar c = true := by
      intro hname
      have hgap := hfront c List.mem_cons_self
      rw [isGap_of_isNameChar hname] at hgap
      exact absurd hgap (by simp)
    have hstay : (c :: front ++ (descriptionName ++ mark :: more ++ tail)).dropWhile isNameChar =
        c :: front ++ (descriptionName ++ mark :: more ++ tail) := List.dropWhile_cons_of_neg hc
    have hwholeSkip : Scan.skipLineEnds (c :: front ++ (descriptionName ++ mark :: more ++ tail)) =
        c :: front ++ (descriptionName ++ mark :: more ++ tail) := by
      rw [skipLineEnds_front hline, hskip]
    rw [hstay, skipLineEnd_eq_self hwholeSkip, hwholeSkip] at hshorter
    exact Nat.lt_irrefl _ hshorter

/-- At a line whose parameters are closed the next step reads that line. -/
theorem AtLine.exists_step (h : reading.AtLine) (hold : IsDescriptionLine old)
    (htail : StopsLine tail)
    (hbody : (reading.followedBy (old ++ tail)).body = some (component, []))
    (hclosed : (reading.followedBy (old ++ tail)).ClosedUpTo (old ++ tail)) :
    ∃ parameters value, BreakFree value ∧ Step (reading.followedBy (old ++ tail))
      ⟨reading.outer, reading.frame.push (.property
        { name := descriptionName, parameters, value := value ++ (readValue tail).1 }),
        Scan.skipLineEnds (skipLineEnd (readValue tail).2)⟩ := by
  obtain ⟨mark, more, hmark, rfl⟩ := hold.exists_mark
  obtain ⟨hend, hbegin⟩ := h.dropKeyword?_eq_none hold tail
  obtain ⟨property, rest, hread, hshorter, hnext⟩ := exists_property hbody hend hbegin
  have hproperty := hclosed.closed (.property hend hbegin hread hshorter)
  have hskip := skipLineEnds_front hold reading.text tail
  have hread := (congrArg readProperty? hskip).symm.trans hread
  have hshorter := hshorter.trans_eq (congrArg List.length hskip)
  have hstart := dropWhile_isGap_line h.skipLineEnds hold tail
  obtain ⟨-, hdrop⟩ := cut_descriptionName hmark (more ++ tail)
  have hwhole : descriptionName ++ mark :: more ++ tail =
      descriptionName ++ mark :: (more ++ tail) := by simp
  obtain ⟨hnoMark, ⟨parameters, back, hparameters⟩ | hbare⟩ :=
    readProperty?_cases (by rw [hread]; simp)
  · have hvalue := (readProperty?_value hnoMark hparameters).symm.trans hread
    rw [← (Prod.mk.inj (Option.some.inj hvalue)).1] at hproperty
    rw [hstart, hwhole, hdrop] at hparameters
    obtain ⟨lead, hlead, hcut, hparameters⟩ := readParameters_local hparameters hproperty
    have hline : mark :: more ++ tail = lead ++ ':' :: back := hcut
    obtain ⟨value, hmore, -⟩ := htail.exists_value hlead hline
    have hstarts : ∃ mark more, lead ++ [':'] = mark :: more ∧ (mark = ';' ∨ mark = ':') := by
      cases lead with
      | nil => exact ⟨':', [], rfl, .inr rfl⟩
      | cons c lead => exact ⟨c, lead ++ [':'], rfl, (List.cons.inj hmore).1 ▸ hmark⟩
    rw [hmore] at hold ⊢
    exact ⟨parameters, value, hold.breakFree_value,
      h.step hold (readProperty?_line h.skipLineEnds hold hstarts (hparameters _))⟩
  · rw [hstart, hwhole, hdrop] at hbare
    rw [readBody_bare_line h.skipLineEnds (skipLineEnds_skipLineEnds reading.text) hmark hold hbare
      hread hshorter] at hnext
    exact absurd hnext (by simp)

/-! ## The meeting -/

/-- A run that begins in whole lines comes to the line, or to a property that runs over it, in the
same steps whatever the line is. -/
theorem exists_reaches {reading : Reading} (hreading : reading.WholeLines)
    (hold : IsDescriptionLine old)
    (hbody : (reading.followedBy (old ++ tail)).body = some (component, []))
    (hclosed : (reading.followedBy (old ++ tail)).ClosedUpTo (old ++ tail)) :
    ∃ next : Reading, (∀ line, IsDescriptionLine line →
        (reading.followedBy (line ++ tail)).Reaches (next.followedBy (line ++ tail))) ∧
      (next.AtLine ∨ (∃ c ∈ next.text, isGap c = false) ∧ next.RunsOver tail) := by
  by_cases hgap : ∃ c ∈ reading.text, isGap c = false
  · rcases exists_stepsTo hreading hgap hold hbody hclosed with ⟨first, hfirst⟩ | hruns
    · obtain ⟨hwhole, hshorter, hstep⟩ := hfirst
      have hbodyFirst := (hstep old hold).body_eq.symm.trans hbody
      obtain ⟨next, hreach, hmeets⟩ :=
        exists_reaches hwhole hold hbodyFirst (hclosed.of_reaches (.single (hstep old hold)))
      exact ⟨next, fun line hline ↦ .head (hstep line hline) (hreach line hline), hmeets⟩
    · exact ⟨reading, fun line _ ↦ .refl, .inr ⟨hgap, hruns⟩⟩
  · refine ⟨reading, fun line _ ↦ .refl, .inl fun c hc ↦ ?_⟩
    by_contra hno
    exact hgap ⟨c, hc, Bool.eq_false_iff.2 hno⟩
termination_by reading.text.length

/-- The step from where the line is met takes the line. -/
theorem length_of_step (hmeets : reading.AtLine ∨ reading.RunsOver tail)
    (hold : IsDescriptionLine old) (htail : StopsLine tail)
    (hbody : (reading.followedBy (old ++ tail)).body = some (component, []))
    (hclosed : (reading.followedBy (old ++ tail)).ClosedUpTo (old ++ tail)) (other : Reading) {later : Reading}
    (hstep : Step (reading.followedBy (old ++ tail)) later) :
    later.text.length < (other.followedBy (old ++ tail)).text.length := by
  have hlater : later.text = Scan.skipLineEnds (skipLineEnd (readValue tail).2) := by
    rcases hmeets with hline | ⟨name, parameters, lead, -, hruns⟩
    · obtain ⟨parameters, value, -, hnext⟩ := hline.exists_step hold htail hbody hclosed
      rw [hstep.unique hnext]
    · rw [hstep.unique (hruns old hold)]
  have hskip := length_skipLineEnds_le (skipLineEnd (readValue tail).2)
  have hone := (skipLineEnd_suffix (readValue tail).2).length_le
  have hvalue := (readValue_suffix tail).length_le
  obtain ⟨back, hback⟩ := hold.exists_cons
  have hlength : 0 < old.length := by simp [hback]
  rw [hlater, followedBy, List.length_append, List.length_append]
  omega

theorem followedBy_inj {more : List Char} (h : next.followedBy more = other.followedBy more) :
    next = other := by
  obtain ⟨outer, frame, text⟩ := next
  obtain ⟨outer', frame', text'⟩ := other
  simp only [followedBy, Reading.mk.injEq] at h
  rw [h.1, h.2.1, List.append_cancel_right h.2.2]

/-- The line is met once. -/
theorem meeting_unique (hold : IsDescriptionLine old) (htail : StopsLine tail)
    (hbody : reading.body = some (component, [])) (hclosed : reading.ClosedUpTo (old ++ tail))
    (hnext : reading.Reaches (next.followedBy (old ++ tail)))
    (hother : reading.Reaches (other.followedBy (old ++ tail)))
    (hmeets : next.AtLine ∨ next.RunsOver tail) (hmeets' : other.AtLine ∨ other.RunsOver tail) :
    next = other := by
  have hnextBody := hnext.body_eq.symm.trans hbody
  have hotherBody := hother.body_eq.symm.trans hbody
  apply followedBy_inj
  apply hnext.eq_of_length hother
  · intro later hstep
    exact length_of_step hmeets hold htail hnextBody (hclosed.of_reaches hnext) other hstep
  · intro later hstep
    exact length_of_step hmeets' hold htail hotherBody (hclosed.of_reaches hother) next hstep

theorem readBody_nil {outer : List Frame} {frame : Frame} : readBody outer frame [] = none := by
  by_contra h
  have hbody : body ⟨outer, frame, []⟩ ≠ none := h
  rcases step_or_closes hbody with ⟨next, hstep⟩ | ⟨rest, -, behind, hend, -⟩
  · exact absurd hstep.length_lt (Nat.not_lt_zero _)
  · have hlength : 0 = 4 + behind.length := length_of_dropMatching? hend
    omega

/-- The property `p` that takes up the line, and the property `q` in its place where the line is a
DESCRIPTION with the given value. -/
inductive Exchange (next : Reading) (tail value : List Char) : Property → Property → Prop
  | atLine (hline : next.AtLine) (parameters : List Parameter) {content : List Char}
      (hcontent : BreakFree content) :
      Exchange next tail value
        { name := descriptionName, parameters, value := content ++ (readValue tail).1 }
        { name := descriptionName, parameters := [], value := value ++ (readValue tail).1 }
  | within (hgap : ∃ c ∈ next.text, isGap c = false) (hruns : next.RunsOver tail)
      (name : List Char) (parameters : List Parameter) {lead : List Char} (hlead : '\n' ∈ lead)
      (line : List Char) :
      Exchange next tail value
        { name, parameters, value := lead ++ (line ++ (readValue tail).1) }
        { name, parameters
          value := lead ++ (descriptionName ++ ':' :: value ++ (readValue tail).1) }

variable {value : List Char} {p q : Property}

theorem Exchange.name_eq (h : next.Exchange tail value p q) : q.name = p.name := by
  cases h <;> rfl

theorem Exchange.meets (h : next.Exchange tail value p q) : next.AtLine ∨ next.RunsOver tail := by
  cases h with
  | atLine hline => exact .inl hline
  | within _ hruns => exact .inr hruns

/-- Where the line is met, one property is exchanged for the other, and the same text is left. -/
theorem exists_exchange_step (hmeets : next.AtLine ∨ (∃ c ∈ next.text, isGap c = false) ∧
      next.RunsOver tail) (hold : IsDescriptionLine old) (htail : StopsLine tail)
    (hbody : (next.followedBy (old ++ tail)).body = some (component, []))
    (hclosed : (next.followedBy (old ++ tail)).ClosedUpTo (old ++ tail))
    (hnew : IsDescriptionLine (descriptionName ++ ':' :: value)) :
    ∃ p q, next.Exchange tail value p q ∧
      Step (next.followedBy (old ++ tail)) ⟨next.outer, next.frame.push (.property p),
        Scan.skipLineEnds (skipLineEnd (readValue tail).2)⟩ ∧
      Step (next.followedBy (descriptionName ++ ':' :: value ++ tail))
        ⟨next.outer, next.frame.push (.property q),
          Scan.skipLineEnds (skipLineEnd (readValue tail).2)⟩ := by
  rcases hmeets with hline | ⟨hgap, hruns⟩
  · obtain ⟨parameters, content, hcontent, hp⟩ := hline.exists_step hold htail hbody hclosed
    have hparameters : readParameters ([] ++ ':' :: (value ++ tail)) = ([], ':' :: (value ++ tail)) :=
      readParameters_of_ne (by decide) (value ++ tail)
    have hbare : IsDescriptionLine (descriptionName ++ ([] ++ ':' :: value)) := by
      rw [List.nil_append]
      exact hnew
    have hproperty :=
      readProperty?_line hline.skipLineEnds hbare ⟨':', [], rfl, .inr rfl⟩ hparameters
    rw [List.nil_append] at hproperty
    exact ⟨_, _, .atLine hline parameters hcontent, hp, hline.step hnew hproperty⟩
  · have hstep := hruns
    obtain ⟨name, parameters, lead, hlead, hstep⟩ := hstep
    exact ⟨_, _, .within hgap hruns name parameters hlead old, hstep old hold, hstep _ hnew⟩

/-- What has been read up to the line and what is read behind it are the same when the line is
another one: the two components differ in the one property that takes up the line. -/
theorem exists_exchange (hreading : reading.WholeLines) (hold : IsDescriptionLine old)
    (htail : StopsLine tail)
    (hbody : (reading.followedBy (old ++ tail)).body = some (component, []))
    (hclosed : (reading.followedBy (old ++ tail)).ClosedUpTo (old ++ tail))
    (hnew : IsDescriptionLine (descriptionName ++ ':' :: value)) :
    ∃ (next : Reading) (p q : Property) (added : List Item) (adds : List (List Item)),
      (reading.followedBy (old ++ tail)).Reaches (next.followedBy (old ++ tail)) ∧
      next.Exchange tail value p q ∧ tail ≠ [] ∧
      component = rebuild next.outer (next.frame.push (.property p)) added adds ∧
      (reading.followedBy (descriptionName ++ ':' :: value ++ tail)).body =
        some (rebuild next.outer (next.frame.push (.property q)) added adds, []) := by
  obtain ⟨next, hreach, hmeets⟩ := exists_reaches hreading hold hbody hclosed
  have hnext := (hreach old hold).body_eq.symm.trans hbody
  obtain ⟨p, q, hexchange, hp, hq⟩ := exists_exchange_step hmeets hold htail hnext
    (hclosed.of_reaches (hreach old hold)) hnew
  let behind := Scan.skipLineEnds (skipLineEnd (readValue tail).2)
  have hbehind : readBody next.outer (next.frame.push (.property p)) behind =
      some (component, []) := hp.body_eq.symm.trans hnext
  have hne : tail ≠ [] := by
    intro hnil
    have hempty : behind = [] := by simp only [behind, hnil]; rfl
    rw [hempty, readBody_nil] at hbehind
    exact absurd hbehind (by simp)
  obtain ⟨added, adds, hcomponent, hother⟩ := exists_rebuild_push hbehind (.property q)
  refine ⟨next, p, q, added, adds, hreach old hold, hexchange, hne, hcomponent, ?_⟩
  calc
    (reading.followedBy (descriptionName ++ ':' :: value ++ tail)).body =
        (next.followedBy (descriptionName ++ ':' :: value ++ tail)).body :=
      (hreach _ hnew).body_eq
    _ = readBody next.outer (next.frame.push (.property q)) behind := hq.body_eq
    _ = some (rebuild next.outer (next.frame.push (.property q)) added adds, []) := hother

/-- A text that begins with a mark in front of the line is read from the same start whatever the
line is. -/
theorem exists_start {front : List Char} (hfront : EndsLine front) (hold : IsDescriptionLine old)
    (h : start? (front ++ (old ++ tail)) ≠ none) :
    ∃ start : Reading, start.WholeLines ∧ ∀ line, IsDescriptionLine line →
      start? (front ++ (line ++ tail)) = some (start.followedBy (line ++ tail)) := by
  let text := Scan.skipLineEnds front
  have hends : EndsLine text := hfront.of_suffix (skipLineEnds_suffix front)
  have hlf : '\n' ∈ text := by
    apply hends.mem_of_ne_nil
    intro hnil
    have hnil : Scan.skipLineEnds front = [] := hnil
    rw [start?, skipLineEnds_front hold, hnil] at h
    obtain ⟨back, rfl⟩ := hold.exists_cons
    exact h rfl
  have hbegin (line : List Char) (hline : IsDescriptionLine line) :
      dropKeyword? "BEGIN:" (Scan.skipLineEnds (front ++ (line ++ tail))) =
        (dropKeyword? "BEGIN:" text).map (· ++ (line ++ tail)) := by
    rw [skipLineEnds_front hline]
    exact (dropKeyword?_front begin_ne_lf hlf _).1
  cases hbehind : dropKeyword? "BEGIN:" text with
  | none =>
    rw [start?, hbegin old hold, hbehind] at h
    exact absurd rfl h
  | some behind =>
    have hbehindLf : '\n' ∈ behind := (dropKeyword?_front begin_ne_lf hlf []).2 behind hbehind
    have hno : isNameChar '\n' = false := by decide
    refine ⟨⟨[], Frame.new (behind.takeWhile isNameChar), behind.dropWhile isNameChar⟩,
      ⟨?_, lf_notMem_takeWhile behind,
        fun parent hparent ↦ absurd hparent List.not_mem_nil⟩, fun line hline ↦ ?_⟩
    · exact hends.of_suffix
        ((List.dropWhile_suffix isNameChar).trans (suffix_of_dropMatching? hbehind))
    · obtain ⟨htake, hdrop⟩ := cut_append_of_mem hbehindLf hno (line ++ tail)
      rw [start?, hbegin line hline, hbehind]
      simp only [Option.map_some, htake, hdrop]
      rfl

end Reading

end CalendarCommand
