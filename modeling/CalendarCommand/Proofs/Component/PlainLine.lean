import CalendarCommand.Proofs.Component.Reading
import CalendarCommand.Proofs.Component.Scanning
import CalendarCommand.Proofs.ContentLine.WrittenLines

/-!
# Plain content lines

A plain name consists of capital letters, digits and hyphens.  No keyword of the reader matches
inside a line that begins with a plain name and a colon, unless the name is that keyword.  A value
without line breaks is read up to its terminator: CRLF ends a value wherever it stands, and LF ends
it where no CRLF follows in the text.
-/

namespace CalendarCommand

open Scan ContentLine

/-- The character is a capital letter, a digit or a hyphen. -/
def isPlainNameChar (c : Char) : Bool :=
  ('A' ≤ c && c ≤ 'Z') || ('0' ≤ c && c ≤ '9') || c == '-'

/-- A nonempty run of capital letters, digits and hyphens. -/
def IsPlainName (name : List Char) : Prop :=
  name ≠ [] ∧ ∀ c ∈ name, isPlainNameChar c = true

instance (name : List Char) : Decidable (IsPlainName name) :=
  inferInstanceAs (Decidable (_ ∧ _))

/-! ## Characters of plain names -/

theorem lt_of_isPlainNameChar {c : Char} (h : isPlainNameChar c = true) : c.toNat < 128 := by
  simp only [isPlainNameChar, Bool.or_eq_true, Bool.and_eq_true, decide_eq_true_eq, Char.le_def,
    UInt32.le_iff_toNat_le, beq_iff_eq] at h
  change c.val.toNat < 128
  have h9 : ('9' : Char).val.toNat = 57 := rfl
  have hZ : ('Z' : Char).val.toNat = 90 := rfl
  rcases h with (h | h) | rfl
  · omega
  · omega
  · decide

/-- What holds of all plain characters is seen by going through the characters of ASCII. -/
theorem forall_isPlainNameChar {p : Char → Prop}
    (h : ∀ n : Fin 128, isPlainNameChar (Char.ofNat n) = true → p (Char.ofNat n)) {c : Char}
    (hc : isPlainNameChar c = true) : p c := by
  have hn := h ⟨c.toNat, lt_of_isPlainNameChar hc⟩
  simp only [Char.ofNat_toNat] at hn
  exact hn hc

theorem isNameChar_of_isPlainNameChar {c : Char} (h : isPlainNameChar c = true) :
    isNameChar c = true := by
  simp only [isPlainNameChar, Bool.or_eq_true] at h
  simp only [isNameChar, Bool.or_eq_true]
  rcases h with (h | h) | h
  · have halpha := Text.isAlphanumeric_of_ascii (c := c) (by simp [Text.isAsciiAlphanumeric, h])
    simp [halpha]
  · have halpha := Text.isAlphanumeric_of_ascii (c := c) (by simp [Text.isAsciiAlphanumeric, h])
    simp [halpha]
  · simp [h]

theorem isGap_of_isPlainNameChar {c : Char} (h : isPlainNameChar c = true) : isGap c = false :=
  forall_isPlainNameChar (p := fun c ↦ isGap c = false) (by decide) h

/-- Plain characters and the colon have no second spelling. -/
theorem eq_of_toLower_eq {a b : Char} (ha : isPlainNameChar a = true) (hb : isPlainNameChar b = true)
    (h : a.toLower = b.toLower) : a = b := by
  have hback {c : Char} (hc : isPlainNameChar c = true) : c.toLower.toUpper = c :=
    forall_isPlainNameChar (p := fun c ↦ c.toLower.toUpper = c) (by decide) hc
  rw [← hback ha, h, hback hb]

theorem toLower_ne_colon {c : Char} (h : isPlainNameChar c = true) :
    c.toLower ≠ ':' :=
  forall_isPlainNameChar (p := fun c ↦ c.toLower ≠ ':') (by decide) h

theorem IsPlainName.breakFree {name : List Char} (h : IsPlainName name) : BreakFree name := by
  have hplain {c : Char} (hc : c ∈ name) : isPlainNameChar c = true := h.2 c hc
  exact ⟨fun hcr ↦ absurd (hplain hcr) (by decide), fun hlf ↦ absurd (hplain hlf) (by decide)⟩

/-- The line holds a plain name and a value. -/
def IsNamedLine (line : List Char) : Prop :=
  ∃ name value, IsPlainName name ∧ BreakFree value ∧ line = name ++ ':' :: value

theorem IsNamedLine.isLogical {line : List Char} (h : IsNamedLine line) : IsLogical line := by
  obtain ⟨name, value, hname, hvalue, rfl⟩ := h
  obtain ⟨c, front, rfl⟩ := List.exists_cons_of_ne_nil hname.1
  refine ⟨hname.breakFree.append ⟨by simp [hvalue.1], by simp [hvalue.2]⟩,
    List.cons_ne_nil _ _, fun d hd ↦ ?_⟩
  have hc := hname.2 c List.mem_cons_self
  rw [← Option.some.inj hd]
  exact forall_isPlainNameChar (p := fun c ↦ isFoldMark c = false) (by decide) hc

/-! ## Keywords in front of a plain line -/

theorem dropMatching?_append (agree : Char → Char → Bool) (a b text : List Char) :
    dropMatching? agree (a ++ b) text = (dropMatching? agree a text).bind (dropMatching? agree b) := by
  fun_induction dropMatching? agree a text with
  | case1 => rfl
  | case2 => rfl
  | case3 e a c text hagree ih => rw [List.cons_append, dropMatching?, if_pos hagree, ih]
  | case4 e a c text hagree => rw [List.cons_append, dropMatching?, if_neg hagree]; rfl

/-- A word of capital letters is found in front of a colon only where the name begins with it. -/
theorem eq_append_of_dropMatching? {word name rest tail : List Char}
    (hword : ∀ c ∈ word, isPlainNameChar c = true) (hname : ∀ c ∈ name, isPlainNameChar c = true)
    (h : dropMatching? (fun a b ↦ a.toLower == b.toLower) word (name ++ ':' :: rest) = some tail) :
    ∃ more, name = word ++ more ∧ tail = more ++ ':' :: rest := by
  induction word generalizing name with
  | nil => exact ⟨name, rfl, (Option.some.inj h).symm⟩
  | cons e word ih =>
    have he := hword e List.mem_cons_self
    cases name with
    | nil =>
      rw [List.nil_append, dropMatching?, if_neg] at h
      · exact absurd h (by simp)
      · rw [beq_iff_eq]
        exact toLower_ne_colon he
    | cons c name =>
      have hc := hname c List.mem_cons_self
      rw [List.cons_append, dropMatching?] at h
      split at h
      · rename_i hagree
        have heq : e = c := eq_of_toLower_eq he hc (by simpa using hagree)
        obtain ⟨more, rfl, htail⟩ := ih (fun d hd ↦ hword d (List.mem_cons_of_mem _ hd))
          (fun d hd ↦ hname d (List.mem_cons_of_mem _ hd)) h
        exact ⟨more, by rw [heq]; rfl, htail⟩
      · exact absurd h (by simp)

theorem dropKeyword?_plain {keyword : String} (word : List Char) {name : List Char}
    (hkeyword : keyword.toList = word ++ [':']) (hword : ∀ c ∈ word, isPlainNameChar c = true)
    (hname : IsPlainName name) (hne : name ≠ word) (rest : List Char) :
    dropKeyword? keyword (name ++ ':' :: rest) = none := by
  rw [dropKeyword?, hkeyword, dropMatching?_append, Option.bind_eq_none_iff]
  intro tail htail
  obtain ⟨more, rfl, rfl⟩ := eq_append_of_dropMatching? hword hname.2 htail
  cases more with
  | nil => exact absurd (List.append_nil word) hne
  | cons c more =>
    have hc : isPlainNameChar c = true := hname.2 c (by simp)
    rw [List.cons_append, dropMatching?, if_neg]
    rw [beq_iff_eq]
    exact fun h ↦ toLower_ne_colon hc h.symm

theorem isMark_plain {name : List Char} (hname : IsPlainName name) (hbegin : name ≠ "BEGIN".toList)
    (hend : name ≠ "END".toList) (rest : List Char) : isMark (name ++ ':' :: rest) = false := by
  rw [isMark, List.any_eq_false]
  intro keyword hkeyword
  have hword : (∀ c ∈ keyword.toList, isPlainNameChar c = true) ∧ name ≠ keyword.toList := by
    rcases List.mem_pair.1 hkeyword with rfl | rfl
    · exact ⟨by decide, hbegin⟩
    · exact ⟨by decide, hend⟩
  split
  · simp
  · rename_i hdrop
    obtain ⟨more, -, htail⟩ := eq_append_of_dropMatching? hword.1 hname.2 hdrop
    simp at htail
  · rename_i c tail hdrop
    obtain ⟨more, rfl, htail⟩ := eq_append_of_dropMatching? hword.1 hname.2 hdrop
    cases more with
    | nil => exact absurd (List.append_nil _) hword.2
    | cons d more =>
      obtain ⟨rfl, -⟩ := List.cons.inj htail
      exact forall_isPlainNameChar (p := fun c ↦ ¬ (c == ':' || c == ';') = true) (by decide)
        (hname.2 c (by simp))

/-! ## Reading a plain line -/

theorem skipLineEnds_terminator (terminator : Terminator) (rest : List Char) :
    skipLineEnds (terminator.text ++ rest) = skipLineEnds rest := by
  cases terminator <;> rfl

/-- The reader does not see the line ends at the start of its text. -/
theorem readBody_congr {outer : List Frame} {frame : Frame} {text other : List Char}
    (h : skipLineEnds text = skipLineEnds other) :
    readBody outer frame text = readBody outer frame other := by
  rw [readBody_eq, readBody_eq, h]

theorem IsPlainName.skipLineEnds_append {name : List Char} (h : IsPlainName name)
    (rest : List Char) : skipLineEnds (name ++ rest) = name ++ rest := by
  obtain ⟨c, name, rfl⟩ := List.exists_cons_of_ne_nil h.1
  have hc := h.2 c List.mem_cons_self
  refine skipLineEnds_of_ne ?_ ?_ _ <;>
    · rintro rfl
      exact absurd hc (by decide)

theorem IsPlainName.cut {name : List Char} (h : IsPlainName name) (rest : List Char)
    (hrest : ∀ c, rest.head? = some c → isNameChar c = false) :
    (name ++ rest).takeWhile isNameChar = name ∧ (name ++ rest).dropWhile isNameChar = rest := by
  have hall : ∀ c ∈ name, isNameChar c = true :=
    fun c hc ↦ isNameChar_of_isPlainNameChar (h.2 c hc)
  exact cut_append hall hrest

theorem readProperty?_plain {name value rest : List Char} {terminator : Terminator}
    (hname : IsPlainName name) (hbegin : name ≠ "BEGIN".toList) (hend : name ≠ "END".toList)
    (hcr : '\r' ∉ value) (hlf : '\n' ∉ value) (hterminator : EndsValue terminator rest) :
    readProperty? (name ++ ':' :: (value ++ terminator.text ++ rest)) =
      some ({ name, parameters := [], value }, rest) := by
  have hgap (more : List Char) : (name ++ more).dropWhile isGap = name ++ more := by
    obtain ⟨c, tail, rfl⟩ := List.exists_cons_of_ne_nil hname.1
    exact List.dropWhile_cons_of_neg
      (by simp [isGap_of_isPlainNameChar (hname.2 c List.mem_cons_self)])
  have hcut := hname.cut (':' :: (value ++ terminator.text ++ rest))
    (by simp [show isNameChar ':' = false by decide])
  have hskip : skipLineEnd (terminator.text ++ rest) = rest := by
    rcases hterminator with rfl | ⟨rfl, -⟩ <;> rfl
  have hvalue : readValue (value ++ terminator.text ++ rest) = (value, terminator.text ++ rest) := by
    rw [List.append_assoc, readValue_append ⟨hcr, hlf⟩, hterminator.readValue, List.append_nil]
  rw [readProperty?, hgap]
  simp only [isMark_plain hname hbegin hend, Bool.false_eq_true, if_false, hcut.1, hcut.2]
  rw [readParameters]
  · simp only [hvalue, hskip]
  · simp

theorem endsValue_of_notMem {terminator : Terminator} {rest : List Char}
    (hterminator : terminator ≠ .absent) (hrest : terminator = .lf → '\r' ∉ rest) :
    EndsValue terminator rest := by
  cases terminator with
  | absent => exact absurd rfl hterminator
  | crlf => exact .inl rfl
  | lf => exact .inr ⟨rfl, hasCrlf_eq_false (.inl (hrest rfl))⟩

/-- A plain property line is read into the innermost frame. -/
theorem readBody_plain {outer : List Frame} {frame : Frame} {name value rest : List Char}
    {terminator : Terminator} (hname : IsPlainName name) (hbegin : name ≠ "BEGIN".toList)
    (hend : name ≠ "END".toList) (hcr : '\r' ∉ value) (hlf : '\n' ∉ value)
    (hterminator : EndsValue terminator rest) :
    readBody outer frame (name ++ ':' :: (value ++ terminator.text ++ rest)) =
      readBody outer (frame.push (.property { name, parameters := [], value })) rest := by
  have hread := readProperty?_plain hname hbegin hend hcr hlf hterminator
  have hskip := hname.skipLineEnds_append (':' :: (value ++ terminator.text ++ rest))
  rw [← hskip] at hread
  have hshorter : (skipLineEnds rest).length <
      (skipLineEnds (name ++ ':' :: (value ++ terminator.text ++ rest))).length := by
    have hle := length_skipLineEnds_le rest
    rw [hskip]
    simp only [List.length_append, List.length_cons]
    omega
  have hnoEnd : dropKeyword? "END:"
      (skipLineEnds (name ++ ':' :: (value ++ terminator.text ++ rest))) = none := by
    rw [hskip]
    exact dropKeyword?_plain "END".toList rfl (by decide) hname hend _
  have hnoBegin : dropKeyword? "BEGIN:"
      (skipLineEnds (name ++ ':' :: (value ++ terminator.text ++ rest))) = none := by
    rw [hskip]
    exact dropKeyword?_plain "BEGIN".toList rfl (by decide) hname hbegin _
  calc
    readBody outer frame (name ++ ':' :: (value ++ terminator.text ++ rest)) =
        readBody outer (frame.push (.property { name, parameters := [], value }))
          (skipLineEnds rest) :=
      (Reading.Step.property hnoEnd hnoBegin hread hshorter).body_eq
    _ = readBody outer (frame.push (.property { name, parameters := [], value })) rest :=
      readBody_congr (skipLineEnds_skipLineEnds rest)

/-! ## Reading plain marks -/

theorem dropMatching?_self {agree : Char → Char → Bool} (hagree : ∀ c, agree c c = true)
    (word rest : List Char) : dropMatching? agree word (word ++ rest) = some rest := by
  induction word with
  | nil => rfl
  | cons c word ih => rw [List.cons_append, dropMatching?, if_pos (hagree c), ih]

theorem dropKeyword?_self (keyword : String) (rest : List Char) :
    dropKeyword? keyword (keyword.toList ++ rest) = some rest :=
  dropMatching?_self (fun c ↦ by simp) keyword.toList rest

theorem dropLiteral?_self (word rest : List Char) :
    dropLiteral? word (word ++ rest) = some rest :=
  dropMatching?_self (fun c ↦ by simp) word rest

theorem skipLineEnds_begin (rest : List Char) :
    skipLineEnds ("BEGIN:".toList ++ rest) = "BEGIN:".toList ++ rest :=
  skipLineEnds_of_ne (by decide) (by decide) _

theorem skipLineEnds_end (rest : List Char) :
    skipLineEnds ("END:".toList ++ rest) = "END:".toList ++ rest :=
  skipLineEnds_of_ne (by decide) (by decide) _

theorem IsPlainName.cut_terminator {name : List Char} (h : IsPlainName name)
    {terminator : Terminator} (hterminator : terminator ≠ .absent) (rest : List Char) :
    (name ++ (terminator.text ++ rest)).takeWhile isNameChar = name ∧
      (name ++ (terminator.text ++ rest)).dropWhile isNameChar = terminator.text ++ rest := by
  refine h.cut _ fun c hc ↦ ?_
  cases terminator with
  | absent => exact absurd rfl hterminator
  | crlf => rw [← Option.some.inj hc]; decide
  | lf => rw [← Option.some.inj hc]; decide

/-- A mark opens a component of its name. -/
theorem readBody_begin {outer : List Frame} {frame : Frame} {name : List Char}
    (hname : IsPlainName name) {terminator : Terminator} (hterminator : terminator ≠ .absent)
    (rest : List Char) :
    readBody outer frame ("BEGIN:".toList ++ (name ++ (terminator.text ++ rest))) =
      readBody (frame :: outer) (Frame.new name) rest := by
  have hcut := hname.cut_terminator hterminator rest
  have hbegin := dropKeyword?_self "BEGIN:" (name ++ (terminator.text ++ rest))
  rw [← skipLineEnds_begin] at hbegin
  have hend : dropKeyword? "END:"
      (skipLineEnds ("BEGIN:".toList ++ (name ++ (terminator.text ++ rest)))) = none := by
    rw [skipLineEnds_begin]
    rfl
  have hstep := (@Reading.Step.begin outer frame _ _ hend hbegin).body_eq
  rw [hcut.1, hcut.2] at hstep
  exact hstep.trans (readBody_congr (skipLineEnds_terminator terminator rest))

/-- A text that opens with a mark is read inside a component of its name. -/
theorem read?_begin {name : List Char} (hname : IsPlainName name) {terminator : Terminator}
    (hterminator : terminator ≠ .absent) (rest : List Char) :
    Component.read? ("BEGIN:".toList ++ (name ++ (terminator.text ++ rest))) =
      readBody [] (Frame.new name) rest := by
  have hcut := hname.cut_terminator hterminator rest
  have hbegin := dropKeyword?_self "BEGIN:" (name ++ (terminator.text ++ rest))
  rw [Component.read?, skipLineEnds_begin, hbegin]
  simp only [hcut.1, hcut.2]
  exact readBody_congr (skipLineEnds_terminator terminator rest)

/-- A mark closes the innermost component into the one around it. -/
theorem readBody_end {parent : Frame} {outer : List Frame} {frame : Frame}
    (terminator : Terminator) (rest : List Char) :
    readBody (parent :: outer) frame
        ("END:".toList ++ (frame.name ++ (terminator.text ++ rest))) =
      readBody outer (parent.push (.component frame.close.name frame.close.items)) rest := by
  have hend := dropKeyword?_self "END:" (frame.name ++ (terminator.text ++ rest))
  rw [← skipLineEnds_end] at hend
  have hname := dropLiteral?_self frame.name (terminator.text ++ rest)
  exact (Reading.Step.close hend hname).body_eq.trans
    (readBody_congr (skipLineEnds_terminator terminator rest))

theorem readBody_last_end {frame : Frame} (terminator : Terminator) (rest : List Char) :
    readBody [] frame ("END:".toList ++ (frame.name ++ (terminator.text ++ rest))) =
      some (frame.close, skipLineEnds rest) := by
  have hend := dropKeyword?_self "END:" (frame.name ++ (terminator.text ++ rest))
  rw [← skipLineEnds_end] at hend
  have hname := dropLiteral?_self frame.name (terminator.text ++ rest)
  have hcloses : Reading.Closes
      ⟨[], frame, "END:".toList ++ (frame.name ++ (terminator.text ++ rest))⟩
      (terminator.text ++ rest) := ⟨rfl, _, hend, hname⟩
  exact hcloses.body_eq.trans (by rw [skipLineEnds_terminator])

end CalendarCommand
