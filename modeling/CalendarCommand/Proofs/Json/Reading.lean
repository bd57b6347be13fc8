import CalendarCommand.Json.Reader

/-!
# Reading inside open frames

The reader keeps the arrays and objects that are open on a stack.  What it reads on top of a stack is
what it reads by itself, after which the stack goes on: a stack can be taken apart wherever that is
convenient.  So a member of an object holds what is read from the text behind its name alone, and an
object comes out with the members that were read before and at least one more.
-/

namespace CalendarCommand

namespace Json

variable {reading : Reading} {frames : List Frame} {text rest tail : List Char} {value : Json}

/-! ## Steps of the reader -/

theorem readValue?_eq (reading : Reading) (frames : List Frame) (text : List Char) :
    readValue? reading frames text =
      match skipSpace text with
      | '[' :: rest =>
        match skipSpace rest with
        | ']' :: tail => resume? reading frames (.array []) tail
        | _ => readValue? reading (.array [] :: frames) rest
      | '\x7b' :: rest =>
        match skipSpace rest with
        | '\x7d' :: tail => resume? reading frames (.object []) tail
        | _ => (readName? reading rest).bind fun read ↦
            readValue? reading (.object [] read.1 :: frames) read.2
      | text => (readScalar? reading text).bind fun read ↦ resume? reading frames read.1 read.2 := by
  rw [readValue?.eq_def]
  split
  · simp only [*]
    split <;> simp_all
  · simp only [*]
    split
    · simp_all
    · simp_all
      split <;> simp_all
  · split <;> simp_all

theorem resume?_eq (reading : Reading) (frames : List Frame) (value : Json) (text : List Char) :
    resume? reading frames value text =
      match frames with
      | [] => some (value, text)
      | .array reversed :: frames =>
        match skipSpace text with
        | ',' :: rest => readValue? reading (.array (value :: reversed) :: frames) rest
        | ']' :: rest => resume? reading frames (.array (value :: reversed).reverse) rest
        | _ => none
      | .object reversed name :: frames =>
        match skipSpace text with
        | ',' :: rest => (readName? reading rest).bind fun read ↦
            readValue? reading (.object ((name, value) :: reversed) read.1 :: frames) read.2
        | '\x7d' :: rest => resume? reading frames (.object ((name, value) :: reversed).reverse) rest
        | _ => none := by
  rw [resume?.eq_def]
  rcases frames with _ | ⟨reversed | ⟨reversed, name⟩, frames⟩
  · rfl
  · dsimp only
    split <;> simp_all
  · dsimp only
    split
    · simp_all
      split <;> simp_all
    · simp_all
    · simp_all

theorem readValue?_emptyArray (htext : skipSpace text = '[' :: rest)
    (hrest : skipSpace rest = ']' :: tail) :
    readValue? reading frames text = resume? reading frames (.array []) tail := by
  rw [readValue?_eq]
  simp only [htext, hrest]

theorem readValue?_array (htext : skipSpace text = '[' :: rest)
    (hrest : ∀ tail, skipSpace rest ≠ ']' :: tail) :
    readValue? reading frames text = readValue? reading (.array [] :: frames) rest := by
  rw [readValue?_eq]
  simp only [htext]

theorem readValue?_emptyObject (htext : skipSpace text = '\x7b' :: rest)
    (hrest : skipSpace rest = '\x7d' :: tail) :
    readValue? reading frames text = resume? reading frames (.object []) tail := by
  rw [readValue?_eq]
  simp only [htext, hrest]

theorem readValue?_object (htext : skipSpace text = '\x7b' :: rest)
    (hrest : ∀ tail, skipSpace rest ≠ '\x7d' :: tail) :
    readValue? reading frames text = (readName? reading rest).bind fun read ↦
      readValue? reading (.object [] read.1 :: frames) read.2 := by
  rw [readValue?_eq]
  simp only [htext]

theorem readValue?_scalar (harray : ∀ rest, skipSpace text ≠ '[' :: rest)
    (hobject : ∀ rest, skipSpace text ≠ '\x7b' :: rest) :
    readValue? reading frames text =
      (readScalar? reading (skipSpace text)).bind fun read ↦
        resume? reading frames read.1 read.2 := by
  rw [readValue?_eq]
  split <;> simp_all

theorem resume?_nil : resume? reading [] value text = some (value, text) := by
  rw [resume?_eq]

theorem resume?_item {reversed : List Json} (htext : skipSpace text = ',' :: rest) :
    resume? reading (.array reversed :: frames) value text =
      readValue? reading (.array (value :: reversed) :: frames) rest := by
  rw [resume?_eq]
  simp only [htext]

theorem resume?_endArray {reversed : List Json} (htext : skipSpace text = ']' :: rest) :
    resume? reading (.array reversed :: frames) value text =
      resume? reading frames (.array (value :: reversed).reverse) rest := by
  rw [resume?_eq]
  simp only [htext]

theorem resume?_array_eq_none {reversed : List Json} (hitem : ∀ rest, skipSpace text ≠ ',' :: rest)
    (hend : ∀ rest, skipSpace text ≠ ']' :: rest) :
    resume? reading (.array reversed :: frames) value text = none := by
  rw [resume?_eq]
  split <;> simp_all

theorem resume?_member {reversed : List (String × Json)} {name : String}
    (htext : skipSpace text = ',' :: rest) :
    resume? reading (.object reversed name :: frames) value text =
      (readName? reading rest).bind fun read ↦
        readValue? reading (.object ((name, value) :: reversed) read.1 :: frames) read.2 := by
  rw [resume?_eq]
  simp only [htext]

theorem resume?_endObject {reversed : List (String × Json)} {name : String}
    (htext : skipSpace text = '\x7d' :: rest) :
    resume? reading (.object reversed name :: frames) value text =
      resume? reading frames (.object ((name, value) :: reversed).reverse) rest := by
  rw [resume?_eq]
  simp only [htext]

theorem resume?_object_eq_none {reversed : List (String × Json)} {name : String}
    (hmember : ∀ rest, skipSpace text ≠ ',' :: rest)
    (hend : ∀ rest, skipSpace text ≠ '\x7d' :: rest) :
    resume? reading (.object reversed name :: frames) value text = none := by
  rw [resume?_eq]
  split <;> simp_all

/-! ## Taking a stack apart -/

/-- What is done with a value that was read on top of frames. -/
def onward? (reading : Reading) (frames : List Frame) (read : Option (Json × List Char)) :
    Option (Json × List Char) :=
  read.bind fun read ↦ resume? reading frames read.1 read.2

/-- What is read on top of a stack is read by itself, and the stack goes on behind it. -/
theorem readValue?_and_resume?_append (reading : Reading) (below : List Frame) :
    (∀ frames text, readValue? reading (frames ++ below) text =
      onward? reading below (readValue? reading frames text)) ∧
    ∀ frames value text, resume? reading (frames ++ below) value text =
      onward? reading below (resume? reading frames value text) := by
  -- One case for each step of the reader.  No step looks below the uppermost frame; only the end of
  -- an empty stack hands the value on.
  apply readValue?.mutual_induct
  case case1 =>
    intro frames text rest htext tail hrest ih
    rw [readValue?_emptyArray htext hrest, readValue?_emptyArray htext hrest, ih]
  case case2 =>
    intro frames text rest htext hrest ih
    rw [readValue?_array htext hrest, readValue?_array htext hrest, ← ih]
    rfl
  case case3 =>
    intro frames text rest htext tail hrest ih
    rw [readValue?_emptyObject htext hrest, readValue?_emptyObject htext hrest, ih]
  case case4 =>
    intro frames text rest htext hname hrest
    rw [readValue?_object htext hrest, readValue?_object htext hrest, hname]
    rfl
  case case5 =>
    intro frames text rest htext name behind hname hrest ih
    rw [readValue?_object htext hrest, readValue?_object htext hrest, hname, Option.bind_some,
      Option.bind_some, ← ih]
    rfl
  case case6 =>
    intro frames text hscalar harray hobject
    rw [readValue?_scalar harray hobject, readValue?_scalar harray hobject, hscalar]
    rfl
  case case7 =>
    intro frames text value rest hscalar harray hobject ih
    rw [readValue?_scalar harray hobject, readValue?_scalar harray hobject, hscalar,
      Option.bind_some, Option.bind_some, ih]
  case case8 =>
    intro value text
    rw [resume?_nil]
    rfl
  case case9 =>
    intro value text reversed frames rest htext ih
    rw [List.cons_append, resume?_item htext, resume?_item htext, ← ih]
    rfl
  case case10 =>
    intro value text reversed frames rest htext ih
    rw [List.cons_append, resume?_endArray htext, resume?_endArray htext, ih]
  case case11 =>
    intro value text reversed frames hitem hend
    rw [List.cons_append, resume?_array_eq_none hitem hend, resume?_array_eq_none hitem hend]
    rfl
  case case12 =>
    intro value text reversed name frames rest htext hname
    rw [List.cons_append, resume?_member htext, resume?_member htext, hname]
    rfl
  case case13 =>
    intro value text reversed name frames rest htext next behind hname ih
    rw [List.cons_append, resume?_member htext, resume?_member htext, hname, Option.bind_some,
      Option.bind_some, ← ih]
    rfl
  case case14 =>
    intro value text reversed name frames rest htext ih
    rw [List.cons_append, resume?_endObject htext, resume?_endObject htext, ih]
  case case15 =>
    intro value text reversed name frames hmember hend
    rw [List.cons_append, resume?_object_eq_none hmember hend, resume?_object_eq_none hmember hend]
    rfl

/-! ## The bottom of a stack -/

namespace Frame

/-- The value may come of a stack with the frame at its bottom. -/
def Yields : Frame → Json → Prop
  | .array reversed, value => ∃ items, value = .array (reversed.reverse ++ items)
  | .object reversed name, value =>
    ∃ held members, value = .object (reversed.reverse ++ (name, held) :: members)

variable {whole held : Json}

theorem Yields.of_item {reversed : List Json} (h : (array (held :: reversed)).Yields whole) :
    (array reversed).Yields whole := by
  obtain ⟨items, rfl⟩ := h
  exact ⟨held :: items, by rw [List.reverse_cons, List.append_assoc, List.singleton_append]⟩

theorem Yields.of_member {reversed : List (String × Json)} {name next : String}
    (h : (object ((name, held) :: reversed) next).Yields whole) :
    (object reversed name).Yields whole := by
  obtain ⟨later, members, rfl⟩ := h
  exact ⟨held, (next, later) :: members,
    by rw [List.reverse_cons, List.append_assoc, List.singleton_append]⟩

theorem yields_endArray (reversed : List Json) :
    (array reversed).Yields (.array (held :: reversed).reverse) :=
  ⟨[held], by rw [List.reverse_cons]⟩

theorem yields_endObject (reversed : List (String × Json)) (name : String) :
    (object reversed name).Yields (.object ((name, held) :: reversed).reverse) :=
  ⟨held, [], by rw [List.reverse_cons]⟩

end Frame

/-- The value comes of the stack, as far as its bottom says. -/
def ComesOf (frames : List Frame) (value : Json) : Prop :=
  ∀ bottom, frames.getLast? = some bottom → bottom.Yields value

theorem ComesOf.of_cons {frame : Frame} {value : Json} (h : ComesOf (frame :: frames) value) :
    ComesOf frames value := by
  intro bottom hbottom
  refine h bottom ?_
  rw [List.getLast?_cons, hbottom]
  rfl

/-- A change of the uppermost frame does not matter where the frame yields no more for it. -/
theorem ComesOf.of_top {top changed : Frame} {value : Json} (h : ComesOf (changed :: frames) value)
    (htop : changed.Yields value → top.Yields value) : ComesOf (top :: frames) value := by
  intro bottom hbottom
  cases frames with
  | nil =>
    obtain rfl := Option.some.inj hbottom
    exact htop (h changed rfl)
  | cons frame frames => exact h bottom hbottom

/-- The uppermost frame is closed; if it was the only one, the value is what it came out as. -/
theorem ComesOf.of_closed {top : Frame} {closed : Json} {read : Json × List Char}
    (h : ComesOf frames read.1) (hread : resume? reading frames closed rest = some read)
    (htop : top.Yields closed) : ComesOf (top :: frames) read.1 := by
  intro bottom hbottom
  cases frames with
  | nil =>
    obtain rfl := Option.some.inj hbottom
    rw [resume?_nil] at hread
    rwa [← Option.some.inj hread]
  | cons frame frames => exact h bottom hbottom

/-- A reading comes out as what lies at the bottom of its stack. -/
theorem readValue?_and_resume?_comesOf (reading : Reading) (read : Json × List Char) :
    (∀ frames text, readValue? reading frames text = some read → ComesOf frames read.1) ∧
    ∀ frames value text, resume? reading frames value text = some read →
      ComesOf frames read.1 := by
  -- Opening a frame hides the bottom, a comma keeps what the uppermost frame yields, and closing a
  -- frame settles it.
  apply readValue?.mutual_induct
  case case1 =>
    intro frames text rest htext tail hrest ih h
    rw [readValue?_emptyArray htext hrest] at h
    exact ih h
  case case2 =>
    intro frames text rest htext hrest ih h
    rw [readValue?_array htext hrest] at h
    exact (ih h).of_cons
  case case3 =>
    intro frames text rest htext tail hrest ih h
    rw [readValue?_emptyObject htext hrest] at h
    exact ih h
  case case4 =>
    intro frames text rest htext hname hrest h
    rw [readValue?_object htext hrest, hname] at h
    cases h
  case case5 =>
    intro frames text rest htext name behind hname hrest ih h
    rw [readValue?_object htext hrest, hname] at h
    exact (ih h).of_cons
  case case6 =>
    intro frames text hscalar harray hobject h
    rw [readValue?_scalar harray hobject, hscalar] at h
    cases h
  case case7 =>
    intro frames text value rest hscalar harray hobject ih h
    rw [readValue?_scalar harray hobject, hscalar] at h
    exact ih h
  case case8 =>
    nofun
  case case9 =>
    intro value text reversed frames rest htext ih h
    rw [resume?_item htext] at h
    exact (ih h).of_top Frame.Yields.of_item
  case case10 =>
    intro value text reversed frames rest htext ih h
    rw [resume?_endArray htext] at h
    exact (ih h).of_closed h (Frame.yields_endArray reversed)
  case case11 =>
    intro value text reversed frames hitem hend h
    rw [resume?_array_eq_none hitem hend] at h
    cases h
  case case12 =>
    intro value text reversed name frames rest htext hname h
    rw [resume?_member htext, hname] at h
    cases h
  case case13 =>
    intro value text reversed name frames rest htext next behind hname ih h
    rw [resume?_member htext, hname] at h
    exact (ih h).of_top Frame.Yields.of_member
  case case14 =>
    intro value text reversed name frames rest htext ih h
    rw [resume?_endObject htext] at h
    exact (ih h).of_closed h (Frame.yields_endObject reversed name)
  case case15 =>
    intro value text reversed name frames hmember hend h
    rw [resume?_object_eq_none hmember hend] at h
    cases h

/-! ## What a value was read from -/

theorem toJson_eq (literal : Literal) :
    (∃ value, literal.toJson = .integer value) ∨ ∃ text, literal.toJson = .decimal text := by
  rw [Literal.toJson]
  split
  · exact .inl ⟨_, rfl⟩
  · exact .inr ⟨_, rfl⟩

/-- What a scalar may be: a text comes with its quotes, and no scalar holds other values. -/
theorem readScalar?_inversion (h : readScalar? reading text = some (value, rest)) :
    (∃ quoted held, text = '"' :: quoted ∧ readText? reading quoted = some (held, rest) ∧
      value = .string held) ∨
    ((∀ held, value ≠ .string held) ∧ ∀ members, value ≠ .object members) := by
  rw [readScalar?.eq_def] at h
  split at h
  · obtain ⟨rfl, -⟩ := Prod.mk.inj (Option.some.inj h)
    exact .inr ⟨nofun, nofun⟩
  · obtain ⟨rfl, -⟩ := Prod.mk.inj (Option.some.inj h)
    exact .inr ⟨nofun, nofun⟩
  · obtain ⟨rfl, -⟩ := Prod.mk.inj (Option.some.inj h)
    exact .inr ⟨nofun, nofun⟩
  · rename_i quoted
    obtain ⟨read, hread, heq⟩ := Option.map_eq_some_iff.1 h
    obtain ⟨rfl, rfl⟩ := Prod.mk.inj heq
    exact .inl ⟨quoted, read.1, rfl, hread, rfl⟩
  · obtain ⟨read, -, hread⟩ := Option.bind_eq_some_iff.1 h
    obtain ⟨number, hnumber, heq⟩ := Option.map_eq_some_iff.1 hread
    obtain ⟨rfl, -⟩ := Prod.mk.inj heq
    rw [numberOfLiteral?] at hnumber
    split at hnumber
    · cases hnumber
    · rw [← Option.some.inj hnumber]
      rcases toJson_eq read.1 with ⟨value, hvalue⟩ | ⟨text, htext⟩
      · rw [hvalue]
        exact .inr ⟨nofun, nofun⟩
      · rw [htext]
        exact .inr ⟨nofun, nofun⟩

/-- A reading with one frame at the bottom, taken apart. -/
theorem exists_read_below {frame : Frame}
    (h : readValue? reading [frame] text = some (value, rest)) :
    frame.Yields value ∧ ∃ held behind, readValue? reading [] text = some (held, behind) ∧
      resume? reading [frame] held behind = some (value, rest) := by
  refine ⟨(readValue?_and_resume?_comesOf reading _).1 _ _ h frame rfl, ?_⟩
  have hparts := (readValue?_and_resume?_append reading [frame]).1 [] text
  rw [List.nil_append, h, onward?] at hparts
  obtain ⟨⟨held, behind⟩, hheld, hrest⟩ := Option.bind_eq_some_iff.1 hparts.symm
  exact ⟨held, behind, hheld, hrest⟩

/-- What a value may have been read from. -/
theorem readValue?_inversion (h : readValue? reading [] text = some (value, rest)) :
    (∃ items, value = .array items) ∨
    (value = .object []) ∨
    (∃ opened name named held valued, skipSpace text = '\x7b' :: opened ∧
      readName? reading opened = some (name, named) ∧
      readValue? reading [] named = some (held, valued) ∧
      resume? reading [.object [] name] held valued = some (value, rest)) ∨
    readScalar? reading (skipSpace text) = some (value, rest) := by
  rw [readValue?_eq] at h
  split at h
  · split at h
    · rw [resume?_nil] at h
      obtain ⟨rfl, -⟩ := Prod.mk.inj (Option.some.inj h)
      exact .inl ⟨[], rfl⟩
    · obtain ⟨items, hitems⟩ := (exists_read_below h).1
      exact .inl ⟨_, hitems⟩
  · split at h
    · rw [resume?_nil] at h
      obtain ⟨rfl, -⟩ := Prod.mk.inj (Option.some.inj h)
      exact .inr (.inl rfl)
    · rename_i htext _ _
      obtain ⟨⟨name, named⟩, hname, hread⟩ := Option.bind_eq_some_iff.1 h
      obtain ⟨-, held, valued, hheld, hrest⟩ := exists_read_below hread
      exact .inr (.inr (.inl ⟨_, name, named, held, valued, htext, hname, hheld, hrest⟩))
  · obtain ⟨⟨held, behind⟩, hheld, hrest⟩ := Option.bind_eq_some_iff.1 h
    rw [resume?_nil] at hrest
    rw [hheld, hrest]
    exact .inr (.inr (.inr rfl))

/-- An object comes out with the member that was read and all that follow. -/
theorem resume?_object_inversion {name : String} {held : Json}
    (h : resume? reading [.object [] name] held text = some (value, rest)) :
    (value = .object [(name, held)] ∧ skipSpace text = '\x7d' :: rest) ∨
    ∃ next later members, value = .object ((name, held) :: (next, later) :: members) := by
  rw [resume?_eq] at h
  dsimp only at h
  split at h
  · obtain ⟨⟨next, behind⟩, -, hread⟩ := Option.bind_eq_some_iff.1 h
    obtain ⟨later, members, hvalue⟩ := (exists_read_below hread).1
    exact .inr ⟨next, later, members, hvalue⟩
  · rename_i htext
    rw [resume?_nil] at h
    obtain ⟨rfl, rfl⟩ := Prod.mk.inj (Option.some.inj h)
    exact .inl ⟨rfl, htext⟩
  · cases h

/-- A value that is a text was read from between quotes. -/
theorem quoted_of_readValue? {held : String}
    (h : readValue? reading [] text = some (.string held, rest)) :
    ∃ quoted, skipSpace text = '"' :: quoted ∧ readText? reading quoted = some (held, rest) := by
  obtain ⟨items, hvalue⟩ | hvalue |
    ⟨opened, name, named, value, valued, -, -, -, hobject⟩ | hscalar :=
    readValue?_inversion h
  · cases hvalue
  · cases hvalue
  · obtain ⟨hvalue, -⟩ | ⟨next, later, members, hvalue⟩ := resume?_object_inversion hobject
    · cases hvalue
    · cases hvalue
  · obtain ⟨quoted, text, htext, hread, hheld⟩ | ⟨hheld, -⟩ := readScalar?_inversion hscalar
    · obtain rfl := string.inj hheld
      exact ⟨quoted, htext, hread⟩
    · exact absurd rfl (hheld held)

/-- An object with one member was read from between braces, with a name and a value in them. -/
theorem braced_of_readValue? {name : String} {held : Json}
    (h : readValue? reading [] text = some (.object [(name, held)], rest)) :
    ∃ opened named valued, skipSpace text = '\x7b' :: opened ∧
      readName? reading opened = some (name, named) ∧
      readValue? reading [] named = some (held, valued) ∧ skipSpace valued = '\x7d' :: rest := by
  obtain ⟨items, hvalue⟩ | hvalue |
    ⟨opened, first, named, value, valued, htext, hname, hheld, hobject⟩ | hscalar :=
    readValue?_inversion h
  · cases hvalue
  · cases hvalue
  · obtain ⟨hvalue, hend⟩ | ⟨next, later, members, hvalue⟩ := resume?_object_inversion hobject
    · cases hvalue
      exact ⟨opened, named, valued, htext, hname, hheld, hend⟩
    · cases hvalue
  · obtain ⟨quoted, text, -, -, hvalue⟩ | ⟨-, hvalue⟩ := readScalar?_inversion hscalar
    · cases hvalue
    · exact absurd rfl (hvalue _)

end Json

end CalendarCommand
