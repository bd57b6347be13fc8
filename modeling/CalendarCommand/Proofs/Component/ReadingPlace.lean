import CalendarCommand.Proofs.Component.ClosedParameters
import CalendarCommand.Proofs.Component.Reading

/-!
# The place of a reading in its text

The reader works off its text from the left and never puts anything back, so what is left of the text is
always the end of it.  Where a property is read, its name stands there behind gaps only: the reader skips
line ends, spaces and tabs in front of a name, wherever they come from.
-/

namespace CalendarCommand

open Scan ContentLine

variable {text rest : List Char}

/-- Ends of ends of a text are chained with `calc`. -/
instance isSuffixTrans :
    @Trans (List Char) (List Char) (List Char) List.IsSuffix List.IsSuffix List.IsSuffix where
  trans := List.IsSuffix.trans

/-! ## Parameters -/

theorem readQuoted?_suffix {body : List Char} (h : readQuoted? text = some (body, rest)) :
    rest <:+ text := by
  rw [(readQuoted?_eq_some_iff.1 h).1]
  exact ((List.suffix_cons '"' rest).trans (List.suffix_append body _)).trans (List.suffix_cons '"' _)

theorem readMoreQuoted_suffix (text : List Char) : (readMoreQuoted text).2 <:+ text := by
  fun_induction readMoreQuoted text with
  | case1 text body rest h more ih =>
    exact (ih.trans (readQuoted?_suffix h)).trans (List.suffix_cons ',' text)
  | case2 => exact List.suffix_rfl
  | case3 => exact List.suffix_rfl

theorem readParameterValue_suffix (text : List Char) : (readParameterValue text).2 <:+ text := by
  unfold readParameterValue
  split
  · rename_i body rest h
    have hmore := (readMoreQuoted_suffix rest).trans (readQuoted?_suffix h)
    split
    · rename_i hcut
      rwa [hcut] at hmore
    · rename_i hcut
      rwa [hcut] at hmore
  · split
    · exact List.suffix_rfl
    · exact List.dropWhile_suffix _

theorem readParameter_suffix (text : List Char) : (readParameter text).2 <:+ text := by
  have hname := (List.dropWhile_suffix isNameChar).trans
    (List.dropWhile_suffix (l := text) fun c ↦ c == ' ' || c == '\t')
  unfold readParameter
  dsimp only
  split
  · rename_i rest hrest
    rw [hrest] at hname
    exact (readParameterValue_suffix rest).trans ((List.suffix_cons '=' rest).trans hname)
  · exact hname

theorem readParameters_suffix (text : List Char) : (readParameters text).2 <:+ text := by
  fun_induction readParameters text with
  | case1 text next more ih =>
    exact (ih.trans (readParameter_suffix text)).trans (List.suffix_cons ';' text)
  | case2 => exact List.suffix_rfl

/-! ## Properties with and without a value -/

theorem readProperty?_value {parameters : List Parameter}
    (hmark : isMark (text.dropWhile isGap) = false)
    (h : readParameters ((text.dropWhile isGap).dropWhile isNameChar) = (parameters, ':' :: rest)) :
    readProperty? text = some ({ name := (text.dropWhile isGap).takeWhile isNameChar
                                 parameters, value := (readValue rest).1 },
      skipLineEnd (readValue rest).2) := by
  rw [readProperty?]
  simp only [hmark, Bool.false_eq_true, if_false, h]

theorem readProperty?_bare (hmark : isMark (text.dropWhile isGap) = false)
    (h : (readParameters ((text.dropWhile isGap).dropWhile isNameChar)).2.head? ≠ some ':') :
    readProperty? text = some ({ name := text.takeWhile isNameChar, parameters := [], value := [] },
      skipLineEnd (text.dropWhile isNameChar)) := by
  rw [readProperty?]
  simp only [hmark, Bool.false_eq_true, if_false]
  split
  · rename_i rest hrest
    rw [hrest] at h
    exact absurd rfl h
  · rfl

/-- A property has a value, or it is a name without one. -/
theorem readProperty?_cases (h : readProperty? text ≠ none) :
    isMark (text.dropWhile isGap) = false ∧
      ((∃ parameters rest, readParameters ((text.dropWhile isGap).dropWhile isNameChar) =
          (parameters, ':' :: rest)) ∨
        (readParameters ((text.dropWhile isGap).dropWhile isNameChar)).2.head? ≠ some ':') := by
  constructor
  · rw [← Bool.not_eq_true]
    intro hmark
    rw [readProperty?] at h
    simp [hmark] at h
  · by_cases hcolon :
        (readParameters ((text.dropWhile isGap).dropWhile isNameChar)).2.head? = some ':'
    · obtain ⟨rest, hrest⟩ := List.head?_eq_some_iff.1 hcolon
      exact .inl ⟨_, rest, Prod.ext rfl hrest⟩
    · exact .inr hcolon

/-- A property is taken from the front of a text, and its name stands there behind gaps only. -/
theorem readProperty?_place {property : Property}
    (h : readProperty? text = some (property, rest)) :
    rest <:+ text ∧ ∃ gap more, (∀ c ∈ gap, isGap c = true) ∧ text = gap ++ (property.name ++ more) := by
  let start := text.dropWhile isGap
  have hstart : text = text.takeWhile isGap ++ start := List.takeWhile_append_dropWhile.symm
  have hgap : ∀ c ∈ text.takeWhile isGap, isGap c = true := fun _ ↦ List.mem_takeWhile_imp
  obtain ⟨hmark, ⟨parameters, value, hvalue⟩ | hbare⟩ := readProperty?_cases (by rw [h]; simp)
  · obtain ⟨rfl, rfl⟩ := Prod.mk.inj
      (Option.some.inj ((readProperty?_value hmark hvalue).symm.trans h))
    have hparameters := readParameters_suffix (start.dropWhile isNameChar)
    rw [hvalue] at hparameters
    refine ⟨?_, text.takeWhile isGap, start.dropWhile isNameChar, hgap, ?_⟩
    · calc
        skipLineEnd (readValue value).2 <:+ (readValue value).2 := skipLineEnd_suffix _
        _ <:+ ':' :: value := (readValue_suffix value).trans (List.suffix_cons ':' value)
        _ <:+ start.dropWhile isNameChar := hparameters
        _ <:+ text := (List.dropWhile_suffix _).trans (List.dropWhile_suffix _)
    · rw [List.takeWhile_append_dropWhile]
      exact hstart
  · obtain ⟨rfl, rfl⟩ := Prod.mk.inj
      (Option.some.inj ((readProperty?_bare hmark hbare).symm.trans h))
    exact ⟨(skipLineEnd_suffix _).trans (List.dropWhile_suffix _), [], text.dropWhile isNameChar,
      by simp, List.takeWhile_append_dropWhile.symm⟩

/-! ## Steps -/

theorem forall_isGap_of_skipLineEnds (text : List Char) :
    ∃ ends, (∀ c ∈ ends, isGap c = true) ∧ text = ends ++ skipLineEnds text := by
  fun_induction skipLineEnds text with
  | case1 rest ih =>
    obtain ⟨ends, hends, hrest⟩ := ih
    exact ⟨'\n' :: ends, List.forall_mem_cons.2 ⟨rfl, hends⟩, congrArg ('\n' :: ·) hrest⟩
  | case2 rest ih =>
    obtain ⟨ends, hends, hrest⟩ := ih
    exact ⟨'\r' :: '\n' :: ends,
      List.forall_mem_cons.2 ⟨rfl, List.forall_mem_cons.2 ⟨rfl, hends⟩⟩,
      congrArg ('\r' :: '\n' :: ·) hrest⟩
  | case3 => exact ⟨[], by simp, rfl⟩

namespace Reading

variable {reading next later : Reading}

theorem Step.suffix (h : Step reading next) : next.text <:+ reading.text := by
  cases h with
  | @close parent outer frame text tail rest hend hname =>
    calc
      rest <:+ tail := suffix_of_dropMatching? hname
      _ <:+ skipLineEnds text := suffix_of_dropMatching? hend
      _ <:+ text := skipLineEnds_suffix text
  | @«begin» outer frame text tail hend hbegin =>
    calc
      tail.dropWhile isNameChar <:+ tail := List.dropWhile_suffix _
      _ <:+ skipLineEnds text := suffix_of_dropMatching? hbegin
      _ <:+ text := skipLineEnds_suffix text
  | @property outer frame text rest property hend hbegin hread hshorter =>
    calc
      skipLineEnds rest <:+ rest := skipLineEnds_suffix rest
      _ <:+ skipLineEnds text := (readProperty?_place hread).1
      _ <:+ text := skipLineEnds_suffix text

theorem Reaches.suffix (h : reading.Reaches later) : later.text <:+ reading.text := by
  induction h with
  | refl => exact List.suffix_rfl
  | tail _ hstep ih => exact hstep.suffix.trans ih

/-- What is left of a text when the reader comes to a reading is the end of the text. -/
theorem ComesFrom.suffix {text : List Char} (h : reading.ComesFrom text) : reading.text <:+ text := by
  obtain ⟨start, hstart, hreach⟩ := h
  obtain ⟨tail, hbegin, rfl⟩ := Option.map_eq_some_iff.1 hstart
  calc
    reading.text <:+ tail.dropWhile isNameChar := hreach.suffix
    _ <:+ tail := List.dropWhile_suffix _
    _ <:+ skipLineEnds text := suffix_of_dropMatching? hbegin
    _ <:+ text := skipLineEnds_suffix text

end Reading

end CalendarCommand
