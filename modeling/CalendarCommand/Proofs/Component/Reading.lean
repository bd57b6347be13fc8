import CalendarCommand.Component.Reader
import CalendarCommand.ContentLine.Physical
import Mathlib.Data.List.Basic
import Mathlib.Logic.Relation

/-!
# The reader step by step

Between two of its steps the reader is described by the frames that are open and by the text that
is left.  A step closes the innermost frame, opens a new one, or reads a property into the
innermost frame.  `readBody` has the same answer before and after a step, and where it has an
answer either a step is possible or the outermost frame is closed.

The last part of this module reads content lines of the plain form: a name, a colon and a value
without line breaks.
-/

namespace CalendarCommand

open Scan ContentLine

namespace Frame

/-- The frame with further items behind the ones read so far. -/
def extend (frame : Frame) (items : List Item) : Frame :=
  { frame with reversed := items.reverse ++ frame.reversed }

@[simp] theorem push_name (frame : Frame) (item : Item) : (frame.push item).name = frame.name := rfl

theorem extend_push (frame : Frame) (item : Item) (items : List Item) :
    (frame.push item).extend items = frame.extend (item :: items) := by
  simp [extend, push]

theorem items_close_push (frame : Frame) (item : Item) :
    (frame.push item).close.items = frame.close.items ++ [item] :=
  List.reverse_cons

theorem items_close_extend (frame : Frame) (items : List Item) :
    (frame.extend items).close.items = frame.close.items ++ items := by
  simp [extend, close]

end Frame

/-- The equation of the reader without the proofs that it carries for its termination. -/
theorem readBody_eq (outer : List Frame) (frame : Frame) (text : List Char) :
    readBody outer frame text =
      match dropKeyword? "END:" (skipLineEnds text) with
      | some tail =>
        match dropLiteral? frame.name tail with
        | none => none
        | some rest =>
          match outer with
          | [] => some (frame.close, skipLineEnds rest)
          | parent :: outer =>
            readBody outer (parent.push (.component frame.close.name frame.close.items)) rest
      | none =>
        match dropKeyword? "BEGIN:" (skipLineEnds text) with
        | some tail =>
          readBody (frame :: outer) (Frame.new (tail.takeWhile isNameChar))
            (tail.dropWhile isNameChar)
        | none =>
          match readProperty? (skipLineEnds text) with
          | none => none
          | some (property, rest) =>
            if (skipLineEnds rest).length < (skipLineEnds text).length then
              readBody outer (frame.push (.property property)) (skipLineEnds rest)
            else none := by
  rw [readBody]
  split
  · rename_i tail hend
    rw [hend]
    dsimp only
    split
    · rename_i hname
      rw [hname]
    · rename_i rest hname
      cases outer <;> simp only [hname]
  · rename_i hend
    rw [hend]
    dsimp only
    split
    · rename_i tail hbegin
      rw [hbegin]
    · rename_i hbegin
      rw [hbegin]
      rfl

/-- The reader between two steps. -/
structure Reading where
  outer : List Frame
  frame : Frame
  text : List Char

namespace Reading

/-- What reading on yields. -/
def body (reading : Reading) : Option (Component × List Char) :=
  readBody reading.outer reading.frame reading.text

inductive Step : Reading → Reading → Prop
  | close {parent : Frame} {outer : List Frame} {frame : Frame} {text tail rest : List Char}
      (hend : dropKeyword? "END:" (skipLineEnds text) = some tail)
      (hname : dropLiteral? frame.name tail = some rest) :
      Step ⟨parent :: outer, frame, text⟩
        ⟨outer, parent.push (.component frame.close.name frame.close.items), rest⟩
  | begin {outer : List Frame} {frame : Frame} {text tail : List Char}
      (hend : dropKeyword? "END:" (skipLineEnds text) = none)
      (hbegin : dropKeyword? "BEGIN:" (skipLineEnds text) = some tail) :
      Step ⟨outer, frame, text⟩
        ⟨frame :: outer, Frame.new (tail.takeWhile isNameChar), tail.dropWhile isNameChar⟩
  | property {outer : List Frame} {frame : Frame} {text rest : List Char} {property : Property}
      (hend : dropKeyword? "END:" (skipLineEnds text) = none)
      (hbegin : dropKeyword? "BEGIN:" (skipLineEnds text) = none)
      (hread : readProperty? (skipLineEnds text) = some (property, rest))
      (hshorter : (skipLineEnds rest).length < (skipLineEnds text).length) :
      Step ⟨outer, frame, text⟩ ⟨outer, frame.push (.property property), skipLineEnds rest⟩

/-- The mark that closes the outermost frame stands at the start of the text, in front of `rest`. -/
def Closes (reading : Reading) (rest : List Char) : Prop :=
  reading.outer = [] ∧ ∃ tail, dropKeyword? "END:" (skipLineEnds reading.text) = some tail ∧
    dropLiteral? reading.frame.name tail = some rest

theorem Step.body_eq {reading next : Reading} (h : Step reading next) :
    reading.body = next.body := by
  unfold body
  rw [readBody_eq]
  cases h with
  | close hend hname => simp only [hend, hname]
  | begin hend hbegin => simp only [hend, hbegin]
  | property hend hbegin hread hshorter => simp only [hend, hbegin, hread, if_pos hshorter]

theorem Closes.body_eq {reading : Reading} {rest : List Char} (h : reading.Closes rest) :
    reading.body = some (reading.frame.close, skipLineEnds rest) := by
  obtain ⟨houter, tail, hend, hname⟩ := h
  rw [body, readBody_eq]
  simp only [houter, hend, hname]

/-- A step takes something from the text. -/
theorem Step.length_lt {reading next : Reading} (h : Step reading next) :
    next.text.length < reading.text.length := by
  cases h with
  | @close parent outer frame text tail rest hend hname =>
    have hskip := length_skipLineEnds_le text
    have htail := length_of_dropMatching? hend
    have hrest := length_of_dropMatching? hname
    have hword : "END:".toList.length = 4 := rfl
    change rest.length < text.length
    omega
  | @begin outer frame text tail hend hbegin =>
    have hskip := length_skipLineEnds_le text
    have htail := length_of_dropMatching? hbegin
    have hdrop := length_dropWhile_le isNameChar tail
    have hword : "BEGIN:".toList.length = 6 := rfl
    change (tail.dropWhile isNameChar).length < text.length
    omega
  | @property outer frame text rest property hend hbegin hread hshorter =>
    have hskip := length_skipLineEnds_le text
    exact Nat.lt_of_lt_of_le hshorter hskip

/-- Where reading on yields a component, a step is possible or the outermost frame is closed. -/
theorem step_or_closes {reading : Reading} (h : reading.body ≠ none) :
    (∃ next, Step reading next) ∨ ∃ rest, reading.Closes rest := by
  obtain ⟨outer, frame, text⟩ := reading
  rw [body, readBody_eq] at h
  cases hend : dropKeyword? "END:" (skipLineEnds text) with
  | some tail =>
    cases hname : dropLiteral? frame.name tail with
    | none => simp [hend, hname] at h
    | some rest =>
      cases outer with
      | nil => exact .inr ⟨rest, rfl, tail, hend, hname⟩
      | cons parent outer => exact .inl ⟨_, .close hend hname⟩
  | none =>
    cases hbegin : dropKeyword? "BEGIN:" (skipLineEnds text) with
    | some tail => exact .inl ⟨_, .begin hend hbegin⟩
    | none =>
      cases hread : readProperty? (skipLineEnds text) with
      | none => simp [hend, hbegin, hread] at h
      | some cut =>
        obtain ⟨property, rest⟩ := cut
        by_cases hshorter : (skipLineEnds rest).length < (skipLineEnds text).length
        · exact .inl ⟨_, .property hend hbegin hread hshorter⟩
        · simp [hend, hbegin, hread, hshorter] at h

/-- Where no mark stands the next step reads a property. -/
theorem exists_property {reading : Reading} {answer : Component × List Char}
    (h : reading.body = some answer)
    (hend : dropKeyword? "END:" (skipLineEnds reading.text) = none)
    (hbegin : dropKeyword? "BEGIN:" (skipLineEnds reading.text) = none) :
    ∃ property rest, readProperty? (skipLineEnds reading.text) = some (property, rest) ∧
      (skipLineEnds rest).length < (skipLineEnds reading.text).length ∧
      readBody reading.outer (reading.frame.push (.property property)) (skipLineEnds rest) =
        some answer := by
  rw [body, readBody_eq, hend, hbegin] at h
  dsimp only at h
  cases hread : readProperty? (skipLineEnds reading.text) with
  | none => simp [hread] at h
  | some cut =>
    obtain ⟨property, rest⟩ := cut
    by_cases hshorter : (skipLineEnds rest).length < (skipLineEnds reading.text).length
    · simp only [hread, if_pos hshorter] at h
      exact ⟨property, rest, rfl, hshorter, h⟩
    · simp [hread, hshorter] at h

/-! ## Runs -/

/-- A sequence of steps leads from one reading to the other. -/
def Reaches (reading later : Reading) : Prop :=
  Relation.ReflTransGen Step reading later

variable {reading next other : Reading}

theorem Step.unique (h : Step reading next) (h' : Step reading other) : next = other := by
  cases h with
  | close hend hname =>
    cases h' with
    | close hend' hname' =>
      rw [hend] at hend'
      obtain rfl := Option.some.inj hend'
      rw [hname] at hname'
      rw [Option.some.inj hname']
    | begin hend' => rw [hend] at hend'; exact absurd hend' (by simp)
    | property hend' => rw [hend] at hend'; exact absurd hend' (by simp)
  | begin hend hbegin =>
    cases h' with
    | close hend' => rw [hend] at hend'; exact absurd hend' (by simp)
    | begin hend' hbegin' =>
      rw [hbegin] at hbegin'
      rw [Option.some.inj hbegin']
    | property hend' hbegin' => rw [hbegin] at hbegin'; exact absurd hbegin' (by simp)
  | property hend hbegin hread =>
    cases h' with
    | close hend' => rw [hend] at hend'; exact absurd hend' (by simp)
    | begin hend' hbegin' => rw [hbegin] at hbegin'; exact absurd hbegin' (by simp)
    | property hend' hbegin' hread' =>
      rw [hread] at hread'
      obtain ⟨rfl, rfl⟩ := Prod.mk.inj (Option.some.inj hread')
      rfl

theorem Reaches.body_eq (h : reading.Reaches next) : reading.body = next.body := by
  induction h with
  | refl => rfl
  | tail _ hstep ih => exact ih.trans hstep.body_eq

theorem Reaches.length_le (h : reading.Reaches next) : next.text.length ≤ reading.text.length := by
  induction h with
  | refl => exact Nat.le_refl _
  | tail _ hstep ih => exact Nat.le_trans (Nat.le_of_lt hstep.length_lt) ih

/-- Two readings that are reached from a third one, where a step from either takes more than the
other one has lost, are the same. -/
theorem Reaches.eq_of_length (h : reading.Reaches next) (h' : reading.Reaches other)
    (hnext : ∀ later, Step next later → later.text.length < other.text.length)
    (hother : ∀ later, Step other later → later.text.length < next.text.length) :
    next = other := by
  have hunique : Relator.RightUnique Step := fun _ _ _ hfirst hsecond ↦ hfirst.unique hsecond
  rcases Relation.ReflTransGen.total_of_right_unique hunique h h' with hreach | hreach
  · rcases Relation.ReflTransGen.cases_head hreach with heq | ⟨later, hstep, hrest⟩
    · exact heq
    · exact absurd (hnext later hstep) (Nat.not_lt.2 (Reaches.length_le hrest))
  · rcases Relation.ReflTransGen.cases_head hreach with heq | ⟨later, hstep, hrest⟩
    · exact heq.symm
    · exact absurd (hother later hstep) (Nat.not_lt.2 (Reaches.length_le hrest))

/-! ## The start -/

/-- The reader behind the mark that a text begins with. -/
def start? (text : List Char) : Option Reading :=
  (dropKeyword? "BEGIN:" (skipLineEnds text)).map fun tail ↦
    ⟨[], Frame.new (tail.takeWhile isNameChar), tail.dropWhile isNameChar⟩

/-- The reader of the text comes to the reading. -/
def ComesFrom (reading : Reading) (text : List Char) : Prop :=
  ∃ start, start? text = some start ∧ start.Reaches reading

theorem read?_eq (text : List Char) : Component.read? text = (start? text).bind body := by
  rw [Component.read?, start?]
  cases dropKeyword? "BEGIN:" (skipLineEnds text) <;> rfl

/-- A text holds a component where reading on from its start takes up the whole text. -/
theorem ofText?_eq_some_iff {text : List Char} {component : Component} :
    Component.ofText? text = some component ↔
      ∃ start, start? text = some start ∧ start.body = some (component, []) := by
  have hread : Component.ofText? text = some component ↔
      Component.read? text = some (component, []) := by
    rw [Component.ofText?]
    split
    · rename_i found hfound
      simp [hfound]
    · rename_i hother
      constructor
      · intro h
        exact absurd h (by simp)
      · intro h
        exact absurd h (hother component)
  rw [hread, read?_eq, Option.bind_eq_some_iff]

end Reading

end CalendarCommand
