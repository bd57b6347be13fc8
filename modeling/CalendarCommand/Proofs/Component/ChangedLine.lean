import CalendarCommand.Proofs.Component.ReadingPlace
import CalendarCommand.Proofs.Component.Rebuilding
import CalendarCommand.Proofs.ContentLine.DescriptionFrame

/-!
# Reading around a changed line

Two texts that differ in one DESCRIPTION line are read in the same steps until the reader comes to
that line.  It can come to it in two ways: the line is where the next step begins, or the value of a
property in front of it runs on over the line.  In both cases the same text is left behind the line.
-/

namespace CalendarCommand

open Scan ContentLine

/-- A line that opens a DESCRIPTION, without its terminator. -/
def IsDescriptionLine (line : List Char) : Prop :=
  BreakFree line ∧ OpensDescription line

variable {text rest front old tail : List Char} {outer : List Frame} {frame : Frame}

theorem IsDescriptionLine.exists_cons {line : List Char} (h : IsDescriptionLine line) :
    ∃ back, line = 'D' :: back := by
  rcases h.2 with ⟨back, rfl⟩ | ⟨back, rfl⟩
  · exact ⟨_, rfl⟩
  · exact ⟨_, rfl⟩

theorem IsDescriptionLine.exists_mark {line : List Char} (h : IsDescriptionLine line) :
    ∃ mark more, (mark = ';' ∨ mark = ':') ∧ line = descriptionName ++ mark :: more := by
  rcases h.2 with ⟨more, hmore⟩ | ⟨more, hmore⟩
  · exact ⟨':', more, .inr rfl, by rw [← hmore, List.append_assoc]; rfl⟩
  · exact ⟨';', more, .inl rfl, by rw [← hmore, List.append_assoc]; rfl⟩

theorem IsDescriptionLine.breakFree_value {lead value : List Char}
    (h : IsDescriptionLine (descriptionName ++ (lead ++ ':' :: value))) : BreakFree value := by
  have hline := h.1
  simp only [BreakFree, List.mem_append, List.mem_cons, not_or] at hline
  exact ⟨hline.1.2.2.2, hline.2.2.2.2⟩

/-! ## What the text in front decides -/

theorem skipLineEnds_front {line : List Char} (hline : IsDescriptionLine line)
    (front tail : List Char) :
    skipLineEnds (front ++ (line ++ tail)) = skipLineEnds front ++ (line ++ tail) := by
  obtain ⟨back, rfl⟩ := hline.exists_cons
  exact skipLineEnds_append (by simp) (by simp) front

theorem dropKeyword?_front {keyword : String}
    (hkeyword : ∀ c ∈ keyword.toList, c.toLower ≠ '\n') (hlf : '\n' ∈ front) (more : List Char) :
    dropKeyword? keyword (front ++ more) = (dropKeyword? keyword front).map (· ++ more) ∧
      ∀ rest, dropKeyword? keyword front = some rest → '\n' ∈ rest := by
  apply dropMatching?_append_of_mem _ _ hlf
  intro c hc
  rw [beq_eq_false_iff_ne]
  exact hkeyword c hc

theorem dropLiteral?_front {word : List Char} (hword : '\n' ∉ word) (hlf : '\n' ∈ front)
    (more : List Char) :
    dropLiteral? word (front ++ more) = (dropLiteral? word front).map (· ++ more) ∧
      ∀ rest, dropLiteral? word front = some rest → '\n' ∈ rest := by
  apply dropMatching?_append_of_mem _ _ hlf
  intro c hc
  rw [beq_eq_false_iff_ne]
  rintro rfl
  exact hword hc

theorem isMark_front (hlf : '\n' ∈ front) (more : List Char) :
    isMark (front ++ more) = isMark front := by
  rw [Bool.eq_iff_iff, isMark, isMark, List.any_eq_true, List.any_eq_true]
  apply exists_congr
  intro keyword
  apply and_congr_right
  intro hkeyword
  have hno : ∀ c ∈ keyword.toList, c.toLower ≠ '\n' := by
    rcases List.mem_pair.1 hkeyword with rfl | rfl <;> decide
  obtain ⟨heq, hmem⟩ := dropKeyword?_front hno hlf more
  rw [heq]
  cases hdrop : dropKeyword? keyword front with
  | none => exact Iff.rfl
  | some rest =>
    cases rest with
    | nil => exact absurd (hmem [] hdrop) (by simp)
    | cons c rest => exact Iff.rfl

/-! ## Properties in front of more text -/

/-- The start of a property, cut off in front of the parameters, when text follows. -/
theorem cut_property (hfront : EndsLine front) (hgap : ∃ c ∈ front, isGap c = false)
    (more : List Char) :
    let start := front.dropWhile isGap
    '\n' ∈ start.dropWhile isNameChar ∧
      isMark ((front ++ more).dropWhile isGap) = isMark start ∧
      ((front ++ more).dropWhile isGap).takeWhile isNameChar = start.takeWhile isNameChar ∧
      ((front ++ more).dropWhile isGap).dropWhile isNameChar =
        start.dropWhile isNameChar ++ more := by
  intro start
  obtain ⟨c, hc, hgap⟩ := hgap
  obtain ⟨d, back, hstart, -⟩ := exists_cons_dropWhile hc hgap
  have hlf : '\n' ∈ start := by
    refine (hfront.of_suffix (List.dropWhile_suffix isGap)).mem_of_ne_nil ?_
    rw [hstart]
    exact List.cons_ne_nil d back
  have hno : isNameChar '\n' = false := by decide
  obtain ⟨e, behind, hbehind, -⟩ := exists_cons_dropWhile hlf hno
  have hends : EndsLine (start.dropWhile isNameChar) :=
    hfront.of_suffix ((List.dropWhile_suffix isNameChar).trans (List.dropWhile_suffix isGap))
  have hdrop := (cut_append_of_mem hc hgap more).2
  obtain ⟨htake, hback⟩ := cut_append_of_mem hlf hno more
  rw [hdrop]
  refine ⟨hends.mem_of_ne_nil ?_, isMark_front hlf more, htake, hback⟩
  rw [hbehind]
  exact List.cons_ne_nil e behind

/-- A cut in front of which no line feed stands lies inside a text that holds one. -/
theorem exists_back_of_append_eq {lead text more rest : List Char} (hlead : '\n' ∉ lead)
    (htext : '\n' ∈ text) (h : text ++ more = lead ++ rest) :
    ∃ back, text = lead ++ back ∧ rest = back ++ more := by
  rcases List.append_eq_append_iff.1 h with ⟨back, rfl, -⟩ | ⟨back, rfl, rfl⟩
  · exact absurd (List.mem_append_left back htext) hlead
  · exact ⟨back, rfl, rfl⟩

/-- A property with a value that begins in the text in front ends there, or its value runs on over
whatever line follows. -/
theorem readProperty?_value_front (hfront : EndsLine front) (hgap : ∃ c ∈ front, isGap c = false)
    {parameters : List Parameter}
    (hmark : isMark ((front ++ (old ++ tail)).dropWhile isGap) = false)
    (hread : readParameters (((front ++ (old ++ tail)).dropWhile isGap).dropWhile isNameChar) =
      (parameters, ':' :: rest)) (hclosed : ∀ parameter ∈ parameters, parameter.Closed) :
    (∃ property back, back <:+ front ∧ back.length < front.length ∧
      ∀ line, IsDescriptionLine line →
        readProperty? (front ++ (line ++ tail)) = some (property, back ++ (line ++ tail))) ∨
    ∃ name lead, '\n' ∈ lead ∧ ∀ line, IsDescriptionLine line →
      readProperty? (front ++ (line ++ tail)) = some
        ({ name, parameters, value := lead ++ (line ++ (readValue tail).1) },
          skipLineEnd (readValue tail).2) := by
  obtain ⟨hlf, hmarkFront, -, hback⟩ := cut_property hfront hgap (old ++ tail)
  rw [hmarkFront] at hmark
  rw [hback] at hread
  let start := front.dropWhile isGap
  obtain ⟨lead, hlead, hcut, hparameters⟩ := readParameters_local hread hclosed
  obtain ⟨value, hvalue, hrest⟩ : ∃ value, start.dropWhile isNameChar = lead ++ [':'] ++ value ∧
      rest = value ++ (old ++ tail) := by
    refine exists_back_of_append_eq (by simp [hlead]) hlf ?_
    rw [hcut, List.append_assoc]
    rfl
  have hsuffix : ':' :: value <:+ front := by
    refine List.IsSuffix.trans ⟨lead, ?_⟩
      ((List.dropWhile_suffix isNameChar).trans (List.dropWhile_suffix isGap))
    rw [hvalue, List.append_assoc]
    rfl
  have hvalueLf : '\n' ∈ value := by
    rw [hvalue] at hlf
    simpa [hlead] using hlf
  have hvalueEnds : EndsLine value := (hfront.of_suffix hsuffix).tail
  have hproperty (line : List Char) : readProperty? (front ++ (line ++ tail)) = some
      ({ name := start.takeWhile isNameChar, parameters,
         value := (readValue (value ++ (line ++ tail))).1 },
        skipLineEnd (readValue (value ++ (line ++ tail))).2) := by
    obtain ⟨-, hmarkLine, hname, hbackLine⟩ := cut_property hfront hgap (line ++ tail)
    rw [← hname]
    refine readProperty?_value (hmarkLine.trans hmark) ?_
    rw [hbackLine, hvalue, List.append_assoc, List.append_assoc]
    exact hparameters _
  rcases readValue_local_or_runs hvalueEnds (List.ne_nil_of_mem hvalueLf) tail with
    ⟨content, back, hbackSuffix, hbackLf, hlocal⟩ | hruns
  · refine .inl ⟨{ name := start.takeWhile isNameChar, parameters, value := content },
      skipLineEnd back, ?_, ?_, fun line hline ↦ ?_⟩
    · exact (skipLineEnd_suffix back).trans
        (hbackSuffix.trans ((List.suffix_cons ':' value).trans hsuffix))
    · have hskip := (skipLineEnd_suffix back).length_le
      have hlength := hbackSuffix.length_le
      have hwhole := hsuffix.length_le
      rw [List.length_cons] at hwhole
      omega
    · rw [hproperty, hlocal line hline.1, skipLineEnd_append hbackLf]
  · refine .inr ⟨start.takeWhile isNameChar, value, hvalueLf, fun line hline ↦ ?_⟩
    rw [hproperty, hruns line hline.1]

theorem isGap_of_isNameChar {c : Char} (h : isNameChar c = true) : isGap c = false := by
  rw [← Bool.not_eq_true]
  intro hgap
  simp only [isGap, Bool.or_eq_true, beq_iff_eq] at hgap
  rcases hgap with ((rfl | rfl) | rfl) | rfl <;> exact absurd h (by decide)

/-- Parameters without a colon behind them end the reading. -/
theorem readBody_semicolon {more : List Char}
    (h : (readParameters (';' :: more)).2.head? ≠ some ':') :
    readBody outer frame (';' :: more) = none := by
  have hskip : skipLineEnds (';' :: more) = ';' :: more :=
    skipLineEnds_of_ne (by decide) (by decide) more
  have hend : dropKeyword? "END:" (';' :: more) = none := rfl
  have hbegin : dropKeyword? "BEGIN:" (';' :: more) = none := rfl
  have hmark : isMark ((';' :: more).dropWhile isGap) = false := rfl
  have hname : (';' :: more).dropWhile isNameChar = ';' :: more :=
    List.dropWhile_cons_of_neg (by decide)
  have hproperty := readProperty?_bare hmark (by
    rw [List.dropWhile_cons_of_neg (by decide), hname]
    exact h)
  rw [hname, skipLineEnd_eq_self hskip] at hproperty
  rw [readBody_eq, hskip, hend, hbegin, hproperty]
  simp [hskip]

/-- A name without a value that begins in the text in front ends there. -/
theorem readProperty?_bare_front (hfront : EndsLine front) (hskip : skipLineEnds front = front)
    (hgap : ∃ c ∈ front, isGap c = false) (hold : IsDescriptionLine old)
    (hmark : isMark ((front ++ (old ++ tail)).dropWhile isGap) = false)
    (hbare : (readParameters
      (((front ++ (old ++ tail)).dropWhile isGap).dropWhile isNameChar)).2.head? ≠ some ':')
    {behind : List Char}
    (hbehind : skipLineEnds (skipLineEnd ((front ++ (old ++ tail)).dropWhile isNameChar)) = behind)
    (hshorter : behind.length < (front ++ (old ++ tail)).length)
    (hlive : readBody outer frame behind ≠ none) :
    ∃ property back, back <:+ front ∧ back.length < front.length ∧
      ∀ line, IsDescriptionLine line →
        readProperty? (front ++ (line ++ tail)) = some (property, back ++ (line ++ tail)) := by
  have hlf : '\n' ∈ front := by
    obtain ⟨c, hc, -⟩ := hgap
    exact hfront.mem_of_ne_nil (List.ne_nil_of_mem hc)
  have hno : isNameChar '\n' = false := by decide
  have hcut (more : List Char) := cut_append_of_mem hlf hno more
  obtain ⟨c, text, rfl⟩ := List.exists_cons_of_ne_nil (List.ne_nil_of_mem hlf)
  -- Without a first character that belongs to the name nothing would be taken from the text.
  have hc : isNameChar c = true := by
    by_contra hc
    have hdrop : (c :: text).dropWhile isNameChar = c :: text := List.dropWhile_cons_of_neg hc
    rw [(hcut _).2, hdrop, skipLineEnd_append hlf, skipLineEnd_eq_self hskip,
      skipLineEnds_front hold, hskip] at hbehind
    rw [hbehind] at hshorter
    exact Nat.lt_irrefl _ hshorter
  have hstart : (c :: text).dropWhile isGap = c :: text :=
    List.dropWhile_cons_of_neg (by simp [isGap_of_isNameChar hc])
  obtain ⟨d, back, hback, -⟩ := exists_cons_dropWhile hlf hno
  have hline (line : List Char) := cut_property hfront hgap (line ++ tail)
  simp only [hstart, hback] at hline
  have hlength : (d :: back).length < (c :: text).length := by
    have hdrop : (c :: text).dropWhile isNameChar = text.dropWhile isNameChar :=
      List.dropWhile_cons_of_pos hc
    rw [← hback, hdrop, List.length_cons]
    exact Nat.lt_succ_of_le (length_dropWhile_le isNameChar text)
  have hsuffix : d :: back <:+ c :: text := hback ▸ List.dropWhile_suffix isNameChar
  have hbackLf : '\n' ∈ d :: back := (hline old).1
  rw [(hline old).2.2.2, List.cons_append] at hbare
  rw [(hcut _).2, hback, skipLineEnd_append hbackLf] at hbehind
  by_cases hd : d = ';'
  · rw [hd] at hbare hbehind
    have hsame : ';' :: (back ++ (old ++ tail)) = behind := by
      rw [← hbehind]
      exact (skipLineEnds_of_ne (by decide) (by decide) _).symm
    rw [← hsame] at hlive
    exact absurd (readBody_semicolon hbare) hlive
  · refine ⟨{ name := (c :: text).takeWhile isNameChar, parameters := [], value := [] },
      skipLineEnd (d :: back), (skipLineEnd_suffix _).trans hsuffix, ?_, fun line _ ↦ ?_⟩
    · exact Nat.lt_of_le_of_lt (skipLineEnd_suffix (d :: back)).length_le hlength
    · rw [readParameters_of_ne hd] at hbare
      rw [readProperty?_bare ((hline line).2.1.trans ((hline old).2.1.symm.trans hmark)),
        (hcut _).1, (hcut _).2, hback, skipLineEnd_append hbackLf]
      rw [(hline line).2.2.2, List.cons_append, readParameters_of_ne hd]
      exact hbare

/-! ## Steps in front of the line -/

namespace Reading

variable {reading : Reading} {component : Component}

def followedBy (reading : Reading) (more : List Char) : Reading :=
  { reading with text := reading.text ++ more }

/-- The text that is left ends a line, and the names of the open components hold no line feed. -/
structure WholeLines (reading : Reading) : Prop where
  text_ends : EndsLine reading.text
  name_free : '\n' ∉ reading.frame.name
  outer_free : ∀ frame ∈ reading.outer, '\n' ∉ frame.name

/-- The properties that a run from the reading begins in front of `rest`, or with it, have closed
parameters. -/
def ClosedUpTo (reading : Reading) (rest : List Char) : Prop :=
  ∀ later property behind, reading.Reaches later → rest <:+ later.text →
    Step later ⟨later.outer, later.frame.push (.property property), behind⟩ → property.Closed

theorem ClosedUpTo.of_reaches {later : Reading} (h : reading.ClosedUpTo rest)
    (hreach : reading.Reaches later) : later.ClosedUpTo rest :=
  fun last property behind hlast hrest hstep ↦
    h last property behind (Relation.ReflTransGen.trans hreach hlast) hrest hstep

theorem ClosedUpTo.closed {more behind : List Char} {property : Property}
    (h : (reading.followedBy more).ClosedUpTo more)
    (hstep : Step (reading.followedBy more)
      ⟨reading.outer, reading.frame.push (.property property), behind⟩) : property.Closed :=
  h _ property behind .refl (List.suffix_append reading.text more) hstep

/-- Without semicolons a text holds no parameters. -/
theorem readProperty?_of_notMem (hsemicolon : ';' ∉ text) {property : Property}
    (h : readProperty? text = some (property, rest)) : property.parameters = [] := by
  obtain ⟨hmark, hcases⟩ := readProperty?_cases (by rw [h]; simp)
  let back := (text.dropWhile isGap).dropWhile isNameChar
  have hback : back <:+ text := (List.dropWhile_suffix _).trans (List.dropWhile_suffix _)
  have hnone : readParameters back = ([], back) := by
    cases hcons : back with
    | nil => rw [readParameters]; simp
    | cons c more =>
      apply readParameters_of_ne
      rintro rfl
      exact hsemicolon (hback.subset (hcons ▸ List.mem_cons_self))
  rcases hcases with ⟨parameters, value, hvalue⟩ | hbare
  · obtain ⟨rfl, -⟩ := Prod.mk.inj (hnone.symm.trans hvalue)
    obtain ⟨rfl, -⟩ := Prod.mk.inj
      (Option.some.inj ((readProperty?_value hmark hvalue).symm.trans h))
    rfl
  · obtain ⟨rfl, -⟩ := Prod.mk.inj
      (Option.some.inj ((readProperty?_bare hmark hbare).symm.trans h))
    rfl

theorem Step.exists_read {property : Property} {behind : List Char}
    (h : Step reading ⟨reading.outer, reading.frame.push (.property property), behind⟩) :
    ∃ rest, readProperty? (skipLineEnds reading.text) = some (property, rest) := by
  obtain ⟨outer, frame, text⟩ := reading
  generalize hnext : (⟨outer, frame.push (.property property), behind⟩ : Reading) = next at h
  cases h with
  | close hend hname => exact absurd (congrArg (List.length ∘ Reading.outer) hnext) (by simp)
  | «begin» hend hbegin => exact absurd (congrArg (List.length ∘ Reading.outer) hnext) (by simp)
  | property hend hbegin hread hshorter =>
    have hpushed := congrArg (Frame.reversed ∘ Reading.frame) hnext
    obtain rfl := Item.property.inj (List.cons.inj hpushed).1
    exact ⟨_, hread⟩

/-- All parameters are closed where there are none. -/
theorem ClosedUpTo.of_notMem (h : ';' ∉ reading.text) (rest : List Char) :
    reading.ClosedUpTo rest := by
  intro later property behind hreach _ hstep parameter hparameter
  obtain ⟨back, hread⟩ := hstep.exists_read
  have hskip : ';' ∉ skipLineEnds later.text :=
    fun hmem ↦ h (hreach.suffix.subset ((skipLineEnds_suffix later.text).subset hmem))
  rw [readProperty?_of_notMem hskip hread] at hparameter
  exact absurd hparameter List.not_mem_nil

/-- The next step reads a property whose value runs on over whatever line follows. -/
def RunsOver (reading : Reading) (tail : List Char) : Prop :=
  ∃ name parameters lead, '\n' ∈ lead ∧ ∀ line, IsDescriptionLine line →
    Step (reading.followedBy (line ++ tail))
      ⟨reading.outer, reading.frame.push (.property
        { name, parameters, value := lead ++ (line ++ (readValue tail).1) }),
        skipLineEnds (skipLineEnd (readValue tail).2)⟩

theorem lf_notMem_takeWhile (text : List Char) : '\n' ∉ text.takeWhile isNameChar := by
  intro hlf
  exact absurd (List.mem_takeWhile_imp hlf) (by decide)

theorem mem_skipLineEnds {c : Char} (hc : c ∈ text) (hgap : isGap c = false) :
    c ∈ skipLineEnds text := by
  have hcr : c ≠ '\r' := ne_of_apply_ne isGap (by rw [hgap]; decide)
  have hlf : c ≠ '\n' := ne_of_apply_ne isGap (by rw [hgap]; decide)
  fun_induction skipLineEnds text with
  | case1 rest ih => exact ih ((List.mem_cons.1 hc).resolve_left hlf)
  | case2 rest ih =>
    exact ih ((List.mem_cons.1 ((List.mem_cons.1 hc).resolve_left hcr)).resolve_left hlf)
  | case3 => exact hc

/-- The text in front without the line ends it begins with. -/
theorem WholeLines.skipLineEnds (hreading : reading.WholeLines)
    (hgap : ∃ c ∈ reading.text, isGap c = false) :
    EndsLine (skipLineEnds reading.text) ∧ (∃ c ∈ Scan.skipLineEnds reading.text, isGap c = false) ∧
      '\n' ∈ Scan.skipLineEnds reading.text := by
  obtain ⟨c, hc, hcgap⟩ := hgap
  have hmem := mem_skipLineEnds hc hcgap
  have hends := hreading.text_ends.of_suffix (skipLineEnds_suffix reading.text)
  exact ⟨hends, ⟨c, hmem, hcgap⟩, hends.mem_of_ne_nil (List.ne_nil_of_mem hmem)⟩

/-- What a step of a reading is where the line stands behind whole lines. -/
def StepsTo (reading next : Reading) (tail : List Char) : Prop :=
  next.WholeLines ∧ next.text.length < reading.text.length ∧ ∀ line, IsDescriptionLine line →
    Step (reading.followedBy (line ++ tail)) (next.followedBy (line ++ tail))

theorem exists_stepsTo_close (hreading : reading.WholeLines)
    (hgap : ∃ c ∈ reading.text, isGap c = false) (hold : IsDescriptionLine old)
    (hbody : (reading.followedBy (old ++ tail)).body = some (component, [])) {behind : List Char}
    (hend : dropKeyword? "END:" (skipLineEnds reading.text) = some behind) :
    ∃ next : Reading, reading.StepsTo next tail := by
  obtain ⟨hends, -, hlf⟩ := hreading.skipLineEnds hgap
  have hendLine (line : List Char) (hline : IsDescriptionLine line) :
      dropKeyword? "END:" (skipLineEnds (reading.text ++ (line ++ tail))) =
        some (behind ++ (line ++ tail)) := by
    rw [skipLineEnds_front hline, (dropKeyword?_front (by decide) hlf _).1, hend]
    rfl
  have hbehindLf : '\n' ∈ behind := (dropKeyword?_front (by decide) hlf []).2 behind hend
  have hname (more : List Char) := dropLiteral?_front hreading.name_free hbehindLf more
  rw [body, readBody_eq] at hbody
  simp only [followedBy, hendLine old hold, (hname _).1] at hbody
  cases hrest : dropLiteral? reading.frame.name behind with
  | none => simp [hrest] at hbody
  | some rest =>
    have hsuffix : rest <:+ skipLineEnds reading.text :=
      (suffix_of_dropMatching? hrest).trans (suffix_of_dropMatching? hend)
    obtain ⟨outer, frame, text⟩ := reading
    cases outer with
    | nil =>
      -- Behind the last mark of the component there would be the line.
      simp only [hrest, Option.map_some, Option.some.injEq, Prod.mk.injEq] at hbody
      obtain ⟨back, rfl⟩ := hold.exists_cons
      rw [skipLineEnds_front hold] at hbody
      simp at hbody
    | cons parent outer =>
      refine ⟨⟨outer, parent.push (.component frame.close.name frame.close.items), rest⟩,
        ⟨hends.of_suffix hsuffix, hreading.outer_free parent List.mem_cons_self,
          fun other hother ↦ hreading.outer_free other (List.mem_cons_of_mem parent hother)⟩, ?_,
        fun line hline ↦ ?_⟩
      · have hlength := length_of_dropMatching? hend
        have hrestLength := length_of_dropMatching? hrest
        have hskip := length_skipLineEnds_le text
        have hword : "END:".toList.length = 4 := rfl
        change rest.length < text.length
        dsimp only at hlength
        omega
      · have hrestLine : dropLiteral? frame.name (behind ++ (line ++ tail)) =
            some (rest ++ (line ++ tail)) := by
          rw [(hname _).1, hrest]
          rfl
        exact .close (hendLine line hline) hrestLine

theorem dropKeyword?_line {keyword : String} (hkeyword : ∀ c ∈ keyword.toList, c.toLower ≠ '\n')
    (hreading : reading.WholeLines) (hgap : ∃ c ∈ reading.text, isGap c = false)
    {line : List Char} (hline : IsDescriptionLine line) (tail : List Char) :
    dropKeyword? keyword (skipLineEnds (reading.text ++ (line ++ tail))) =
      (dropKeyword? keyword (skipLineEnds reading.text)).map (· ++ (line ++ tail)) := by
  obtain ⟨-, -, hlf⟩ := hreading.skipLineEnds hgap
  rw [skipLineEnds_front hline, (dropKeyword?_front hkeyword hlf _).1]

theorem end_ne_lf : ∀ c ∈ "END:".toList, c.toLower ≠ '\n' := by decide

theorem begin_ne_lf : ∀ c ∈ "BEGIN:".toList, c.toLower ≠ '\n' := by decide

theorem exists_stepsTo_begin (hreading : reading.WholeLines)
    (hgap : ∃ c ∈ reading.text, isGap c = false) {behind : List Char}
    (hend : dropKeyword? "END:" (skipLineEnds reading.text) = none)
    (hbegin : dropKeyword? "BEGIN:" (skipLineEnds reading.text) = some behind) (tail : List Char) :
    ∃ next : Reading, reading.StepsTo next tail := by
  obtain ⟨hends, -, hlf⟩ := hreading.skipLineEnds hgap
  have hbehindLf : '\n' ∈ behind := (dropKeyword?_front (by decide) hlf []).2 behind hbegin
  have hcut (more : List Char) :=
    cut_append_of_mem (p := isNameChar) hbehindLf (by decide) more
  refine ⟨⟨reading.frame :: reading.outer, Frame.new (behind.takeWhile isNameChar),
    behind.dropWhile isNameChar⟩, ⟨?_, lf_notMem_takeWhile behind, fun other hother ↦ ?_⟩, ?_,
    fun line hline ↦ ?_⟩
  · exact hends.of_suffix ((List.dropWhile_suffix isNameChar).trans (suffix_of_dropMatching? hbegin))
  · rcases List.mem_cons.1 hother with rfl | hother
    · exact hreading.name_free
    · exact hreading.outer_free other hother
  · have hlength := length_of_dropMatching? hbegin
    have hdrop := length_dropWhile_le isNameChar behind
    have hskip := length_skipLineEnds_le reading.text
    have hword : "BEGIN:".toList.length = 6 := rfl
    change (behind.dropWhile isNameChar).length < reading.text.length
    omega
  · have hendLine := dropKeyword?_line end_ne_lf hreading hgap hline tail
    have hbeginLine := dropKeyword?_line begin_ne_lf hreading hgap hline tail
    rw [hend] at hendLine
    rw [hbegin] at hbeginLine
    have hstep := @Step.begin reading.outer reading.frame _ _ hendLine hbeginLine
    rw [(hcut _).1, (hcut _).2] at hstep
    exact hstep

section Property

variable (hreading : reading.WholeLines) (hgap : ∃ c ∈ reading.text, isGap c = false)
  (hend : dropKeyword? "END:" (skipLineEnds reading.text) = none)
  (hbegin : dropKeyword? "BEGIN:" (skipLineEnds reading.text) = none)

include hreading hgap hend hbegin

theorem dropKeyword?_line_eq_none {line : List Char} (hline : IsDescriptionLine line)
    (tail : List Char) :
    dropKeyword? "END:" (skipLineEnds (reading.text ++ (line ++ tail))) = none ∧
      dropKeyword? "BEGIN:" (skipLineEnds (reading.text ++ (line ++ tail))) = none := by
  rw [dropKeyword?_line end_ne_lf hreading hgap hline, hend,
    dropKeyword?_line begin_ne_lf hreading hgap hline, hbegin]
  exact ⟨rfl, rfl⟩

theorem step_property {line : List Char} (hline : IsDescriptionLine line) {property : Property}
    (hread : readProperty? (skipLineEnds reading.text ++ (line ++ tail)) = some (property, rest))
    (hshorter : (skipLineEnds rest).length <
      (skipLineEnds reading.text).length + (line.length + tail.length)) :
    Step (reading.followedBy (line ++ tail))
      ⟨reading.outer, reading.frame.push (.property property), skipLineEnds rest⟩ := by
  obtain ⟨hendLine, hbeginLine⟩ :=
    dropKeyword?_line_eq_none hreading hgap hend hbegin hline tail
  rw [← List.length_append, ← List.length_append] at hshorter
  rw [← skipLineEnds_front hline] at hread hshorter
  exact .property hendLine hbeginLine hread hshorter

theorem stepsTo_property {property : Property} {back : List Char}
    (hsuffix : back <:+ skipLineEnds reading.text)
    (hlength : back.length < (skipLineEnds reading.text).length)
    (hread : ∀ line, IsDescriptionLine line →
      readProperty? (skipLineEnds reading.text ++ (line ++ tail)) =
        some (property, back ++ (line ++ tail))) :
    reading.StepsTo
      ⟨reading.outer, reading.frame.push (.property property), skipLineEnds back⟩ tail := by
  obtain ⟨hends, -, -⟩ := hreading.skipLineEnds hgap
  have hback := hends.of_suffix hsuffix
  have hskip := length_skipLineEnds_le back
  have hfront := length_skipLineEnds_le reading.text
  refine ⟨⟨hback.of_suffix (skipLineEnds_suffix back), hreading.name_free, hreading.outer_free⟩,
    ?_, fun line hline ↦ ?_⟩
  · change (skipLineEnds back).length < reading.text.length
    omega
  · have hshorter : (skipLineEnds (back ++ (line ++ tail))).length <
        (skipLineEnds reading.text).length + (line.length + tail.length) := by
      rw [skipLineEnds_front hline, List.length_append, List.length_append]
      omega
    have hstep := step_property hreading hgap hend hbegin hline (hread line hline) hshorter
    rw [skipLineEnds_front hline] at hstep
    exact hstep

theorem runsOver_property {name lead : List Char} {parameters : List Parameter}
    (hlead : '\n' ∈ lead)
    (hread : ∀ line, IsDescriptionLine line →
      readProperty? (skipLineEnds reading.text ++ (line ++ tail)) = some
        ({ name, parameters, value := lead ++ (line ++ (readValue tail).1) },
          skipLineEnd (readValue tail).2)) : reading.RunsOver tail := by
  obtain ⟨-, -, hlf⟩ := hreading.skipLineEnds hgap
  have hskip := length_skipLineEnds_le (skipLineEnd (readValue tail).2)
  have hone := (skipLineEnd_suffix (readValue tail).2).length_le
  have hvalue := (readValue_suffix tail).length_le
  have hfront := List.length_pos_of_mem hlf
  refine ⟨name, parameters, lead, hlead, fun line hline ↦ ?_⟩
  exact step_property hreading hgap hend hbegin hline (hread line hline) (by omega)

/-- A property that begins in front of the line ends there or runs over the line. -/
theorem exists_stepsTo_property (hold : IsDescriptionLine old)
    (hbody : (reading.followedBy (old ++ tail)).body = some (component, []))
    (hclosed : (reading.followedBy (old ++ tail)).ClosedUpTo (old ++ tail)) :
    (∃ next : Reading, reading.StepsTo next tail) ∨ reading.RunsOver tail := by
  obtain ⟨hends, hfrontGap, -⟩ := hreading.skipLineEnds hgap
  have hskip := skipLineEnds_front hold reading.text tail
  obtain ⟨hendOld, hbeginOld⟩ := dropKeyword?_line_eq_none hreading hgap hend hbegin hold tail
  obtain ⟨property, rest, hread, hshorter, hnext⟩ := exists_property hbody hendOld hbeginOld
  have hproperty := hclosed.closed (.property hendOld hbeginOld hread hshorter)
  have hread := (congrArg readProperty? hskip).symm.trans hread
  have hshorter := hshorter.trans_eq (congrArg List.length hskip)
  obtain ⟨hmark, ⟨parameters, back, hparameters⟩ | hbare⟩ :=
    readProperty?_cases (by rw [hread]; simp)
  · have hvalue := (readProperty?_value hmark hparameters).symm.trans hread
    rw [← (Prod.mk.inj (Option.some.inj hvalue)).1] at hproperty
    rcases readProperty?_value_front hends hfrontGap hmark hparameters hproperty with
      ⟨other, behind, hsuffix, hlength, hlocal⟩ | ⟨name, lead, hlead, hruns⟩
    · exact .inl ⟨_, stepsTo_property hreading hgap hend hbegin hsuffix hlength hlocal⟩
    · exact .inr (runsOver_property hreading hgap hend hbegin hlead hruns)
  · have hname := (readProperty?_bare hmark hbare).symm.trans hread
    have hrest := (Prod.mk.inj (Option.some.inj hname)).2
    obtain ⟨other, behind, hsuffix, hlength, hlocal⟩ := readProperty?_bare_front hends
      (skipLineEnds_skipLineEnds reading.text) hfrontGap hold hmark hbare
      (congrArg skipLineEnds hrest) hshorter (by rw [hnext]; simp)
    exact .inl ⟨_, stepsTo_property hreading hgap hend hbegin hsuffix hlength hlocal⟩

end Property

theorem exists_stepsTo (hreading : reading.WholeLines) (hgap : ∃ c ∈ reading.text, isGap c = false)
    (hold : IsDescriptionLine old)
    (hbody : (reading.followedBy (old ++ tail)).body = some (component, []))
    (hclosed : (reading.followedBy (old ++ tail)).ClosedUpTo (old ++ tail)) :
    (∃ next : Reading, reading.StepsTo next tail) ∨ reading.RunsOver tail := by
  cases hend : dropKeyword? "END:" (skipLineEnds reading.text) with
  | some behind => exact .inl (exists_stepsTo_close hreading hgap hold hbody hend)
  | none =>
    cases hbegin : dropKeyword? "BEGIN:" (skipLineEnds reading.text) with
    | some behind => exact .inl (exists_stepsTo_begin hreading hgap hend hbegin tail)
    | none => exact exists_stepsTo_property hreading hgap hend hbegin hold hbody hclosed

end Reading

end CalendarCommand
