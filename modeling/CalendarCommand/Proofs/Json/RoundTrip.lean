import Mathlib.Tactic.SplitIfs
import CalendarCommand.Json.Printer
import CalendarCommand.Proofs.Json.Reading

/-!
# Reading what was written

A value without numbers is read back from the lines it is written in.  Inside a text each character
is written so that its code point is read again: the quote, the backslash and the control characters
behind a backslash, all others as they stand.  No character is a surrogate, so none of the codes is
joined to another one.

The value of an array or object is read back in whatever frames are open around it, with any text
behind it.
-/

namespace CalendarCommand

namespace Json

variable {frames : List Frame} {text rest : List Char} {value : Json}

/-! ## Blank space -/

theorem skipSpace_append {blank : List Char} (h : ∀ c ∈ blank, isSpace c = true) (text : List Char) :
    skipSpace (blank ++ text) = skipSpace text :=
  List.dropWhile_append_of_pos h

theorem skipSpace_cons {c : Char} (h : isSpace c = false) (text : List Char) :
    skipSpace (c :: text) = c :: text := by
  rw [skipSpace, List.dropWhile_cons, h]
  rfl

theorem isSpace_of_mem_newLine {depth : Nat} : ∀ c ∈ newLine depth, isSpace c = true := by
  intro c hc
  rcases List.mem_cons.1 hc with rfl | hc
  · rfl
  · rw [List.eq_of_mem_replicate hc]
    rfl

theorem skipSpace_newLine (depth : Nat) (text : List Char) :
    skipSpace (newLine depth ++ text) = skipSpace text :=
  skipSpace_append isSpace_of_mem_newLine text

/-- Blank space in front of a value does not count. -/
theorem readValue?_append_space {reading : Reading} {blank : List Char}
    (h : ∀ c ∈ blank, isSpace c = true) (text : List Char) :
    readValue? reading frames (blank ++ text) = readValue? reading frames text := by
  rw [readValue?_eq, skipSpace_append h, ← readValue?_eq]

/-! ## Texts -/

theorem hexValue?_hexDigit : ∀ n < 16, hexValue? (hexDigit n) = some n := by
  decide

theorem hexUnit?_hexDigit {n : Nat} (h : n < 32) :
    hexUnit? '0' '0' (hexDigit (n / 16)) (hexDigit (n % 16)) = some n := by
  have hzero := hexValue?_hexDigit 0 (by decide)
  have hhigh := hexValue?_hexDigit (n / 16) (by omega)
  have hlow := hexValue?_hexDigit (n % 16) (by omega)
  have hsum : ((0 * 16 + 0) * 16 + n / 16) * 16 + n % 16 = n := by omega
  calc hexUnit? '0' '0' (hexDigit (n / 16)) (hexDigit (n % 16))
    _ = some (((0 * 16 + 0) * 16 + n / 16) * 16 + n % 16) := by
      rw [hexUnit?, show '0' = hexDigit 0 from rfl, hzero, hhigh, hlow]
      rfl
    _ = some n := by rw [hsum]

theorem readCodes?_plain {c : Char} (hquote : c ≠ '"') (hbackslash : c ≠ '\\')
    (hcontrol : ¬ c.toNat < 32) (rest : List Char) :
    readCodes? (c :: rest) = (readCodes? rest).map (consCode c.toNat) := by
  rw [readCodes?.eq_def]
  split
  · simp_all
  · simp_all
  · simp_all
  · simp_all
  · rename_i heq
    obtain ⟨rfl, rfl⟩ := List.cons.inj heq
    rw [if_neg hcontrol]

theorem readCodes?_writeChar (c : Char) (rest : List Char) :
    readCodes? (writeChar c ++ rest) = (readCodes? rest).map (consCode c.toNat) := by
  rw [writeChar]
  split_ifs with hquote hbackslash hnewline hreturn htab hbackspace hfeed hcontrol
  · subst hquote
    rfl
  · subst hbackslash
    rfl
  · subst hnewline
    rfl
  · subst hreturn
    rfl
  · subst htab
    rfl
  · rw [hbackspace]
    rfl
  · rw [hfeed]
    rfl
  · rw [List.cons_append, List.cons_append, readCodes?.eq_def]
    exact congrArg (Option.bind · _) (hexUnit?_hexDigit hcontrol)
  · exact readCodes?_plain hquote hbackslash hcontrol rest

theorem readCodes?_writeText (text rest : List Char) :
    readCodes? (text.flatMap writeChar ++ '"' :: rest) = some (text.map Char.toNat, rest) := by
  induction text with
  | nil => rfl
  | cons c text ih =>
    rw [List.flatMap_cons, List.append_assoc, readCodes?_writeChar, ih]
    rfl

/-- No character is a surrogate. -/
theorem not_isSurrogate (c : Char) : isLeading c.toNat = false ∧ isTrailing c.toNat = false := by
  have hvalid : c.toNat < 0xD800 ∨ 0xDFFF < c.toNat ∧ c.toNat < 0x110000 := c.valid
  simp only [isLeading, isTrailing, Bool.and_eq_false_iff, decide_eq_false_iff_not]
  omega

theorem joinCodes?_map_toNat (text : List Char) : joinCodes? (text.map Char.toNat) = some text := by
  induction text with
  | nil => rfl
  | cons c text ih =>
    cases text with
    | nil => simp [joinCodes?, not_isSurrogate]
    | cons next text =>
      rw [List.map_cons] at ih
      simp [joinCodes?, not_isSurrogate, ih]

theorem readText?_writeText (text rest : List Char) :
    readText? .complete (text.flatMap writeChar ++ '"' :: rest) =
      some (String.ofList text, rest) := by
  rw [readText?, readCodes?_writeText, Option.bind_some, textOfCodes?, joinCodes?_map_toNat]
  rfl

theorem writeText_append (text rest : List Char) :
    writeText text ++ rest = '"' :: (text.flatMap writeChar ++ '"' :: rest) := by
  simp only [writeText, List.cons_append, List.append_assoc, List.nil_append]

theorem readScalar?_writeText (text rest : List Char) :
    readScalar? .complete (writeText text ++ rest) = some (.string (String.ofList text), rest) := by
  have hread := readText?_writeText text rest
  rw [writeText_append]
  exact congrArg (Option.map fun read ↦ (Json.string read.1, read.2)) hread

/-- The name of a member is read back on a new line, with its colon. -/
theorem readName?_writeText (depth : Nat) (name rest : List Char) :
    readName? .complete (newLine depth ++ writeText name ++ ':' :: rest) =
      some (String.ofList name, rest) := by
  have hread := readText?_writeText name (':' :: rest)
  have hskip : skipSpace (newLine depth ++ writeText name ++ ':' :: rest) =
      '"' :: (name.flatMap writeChar ++ '"' :: ':' :: rest) := by
    rw [List.append_assoc, skipSpace_newLine, writeText_append, skipSpace_cons rfl]
  rw [readName?, hskip]
  simp only [hread, Option.bind_some]
  rfl

/-! ## Values -/

inductive NumberFree : Json → Prop
  | null : NumberFree .null
  | boolean (value : Bool) : NumberFree (.boolean value)
  | string (value : String) : NumberFree (.string value)
  | array {items : List Json} (h : ∀ item ∈ items, NumberFree item) : NumberFree (.array items)
  | object {members : List (String × Json)} (h : ∀ member ∈ members, NumberFree member.2) :
      NumberFree (.object members)

/-- What a value is written as starts neither with blank space nor with a bracket that closes. -/
theorem NumberFree.exists_cons_writeLines (h : value.NumberFree) (depth : Nat) :
    ∃ c text, value.writeLines depth = c :: text ∧ isSpace c = false ∧ c ≠ ']' := by
  cases h with
  | null => exact ⟨_, _, rfl, rfl, by decide⟩
  | boolean value => cases value <;> exact ⟨_, _, rfl, rfl, by decide⟩
  | string value => exact ⟨_, _, rfl, rfl, by decide⟩
  | @array items h => cases items <;> exact ⟨_, _, rfl, rfl, by decide⟩
  | @object members h => cases members <;> exact ⟨_, _, rfl, rfl, by decide⟩

/-- The value is read back from its lines in all frames and with any text behind it. -/
def ReadsBack (value : Json) : Prop :=
  ∀ depth frames rest, readValue? .complete frames (value.writeLines depth ++ rest) =
    resume? .complete frames value rest

theorem readsBack_of_scalar (hwrite : ∀ depth, ∃ c text, value.writeLines depth = c :: text ∧
      isSpace c = false ∧ c ≠ '[' ∧ c ≠ '\x7b')
    (hread : ∀ depth rest, readScalar? .complete (value.writeLines depth ++ rest) =
      some (value, rest)) : value.ReadsBack := by
  intro depth frames rest
  obtain ⟨c, text, hcons, hspace, harray, hobject⟩ := hwrite depth
  have hskip : skipSpace (value.writeLines depth ++ rest) = value.writeLines depth ++ rest := by
    rw [hcons]
    exact skipSpace_cons hspace _
  rw [readValue?_scalar, hskip, hread]
  · rfl
  · intro tail htail
    rw [hskip, hcons] at htail
    exact harray (List.cons.inj htail).1
  · intro tail htail
    rw [hskip, hcons] at htail
    exact hobject (List.cons.inj htail).1

/-- An item that was read inside an open array is followed by the others up to the closing bracket. -/
theorem resume?_writeItemLines {items : List Json} (h : ∀ item ∈ items, item.ReadsBack)
    (depth : Nat) (reversed : List Json) (value : Json) (rest : List Char) :
    resume? .complete (.array reversed :: frames) value
        (writeItemLines depth items ++ newLine depth ++ ']' :: rest) =
      resume? .complete frames (.array (reversed.reverse ++ value :: items)) rest := by
  induction items generalizing reversed value with
  | nil =>
    rw [writeItemLines, List.nil_append,
      resume?_endArray ((skipSpace_newLine depth _).trans (skipSpace_cons rfl rest)),
      List.reverse_cons]
  | cons item items ih =>
    obtain ⟨hitem, hitems⟩ := List.forall_mem_cons.1 h
    have htext : writeItemLines depth (item :: items) ++ newLine depth ++ ']' :: rest =
        ',' :: (newLine (depth + 1) ++ (item.writeLines (depth + 1) ++
          (writeItemLines depth items ++ newLine depth ++ ']' :: rest))) := by
      simp only [writeItemLines, List.append_assoc, List.cons_append]
    rw [htext, resume?_item (skipSpace_cons rfl _), readValue?_append_space isSpace_of_mem_newLine,
      hitem, ih hitems, List.reverse_cons, List.append_assoc, List.singleton_append]

theorem readsBack_array {items : List Json} (hfree : ∀ item ∈ items, item.NumberFree)
    (h : ∀ item ∈ items, item.ReadsBack) : (Json.array items).ReadsBack := by
  intro depth frames rest
  cases items with
  | nil => exact readValue?_emptyArray (skipSpace_cons rfl _) (skipSpace_cons rfl rest)
  | cons item items =>
    obtain ⟨hitem, hitems⟩ := List.forall_mem_cons.1 h
    have htext : (Json.array (item :: items)).writeLines depth ++ rest =
        '[' :: (newLine (depth + 1) ++ (item.writeLines (depth + 1) ++
          (writeItemLines depth items ++ newLine depth ++ ']' :: rest))) := by
      simp only [writeLines, List.append_assoc, List.cons_append, List.nil_append]
    rw [htext, readValue?_array (skipSpace_cons rfl _),
      readValue?_append_space isSpace_of_mem_newLine, hitem, resume?_writeItemLines hitems]
    · rfl
    · -- The first item does not look like the end of an empty array.
      obtain ⟨c, text, hcons, hspace, hbracket⟩ :=
        (hfree item List.mem_cons_self).exists_cons_writeLines (depth + 1)
      intro tail htail
      rw [skipSpace_newLine, hcons, List.cons_append, skipSpace_cons hspace] at htail
      exact hbracket (List.cons.inj htail).1

/-- A member that was read inside an open object is followed by the others up to the closing brace. -/
theorem resume?_writeMemberLines {members : List (String × Json)}
    (h : ∀ member ∈ members, member.2.ReadsBack) (depth : Nat) (reversed : List (String × Json))
    (name : String) (value : Json) (rest : List Char) :
    resume? .complete (.object reversed name :: frames) value
        (writeMemberLines depth members ++ newLine depth ++ '\x7d' :: rest) =
      resume? .complete frames (.object (reversed.reverse ++ (name, value) :: members)) rest := by
  induction members generalizing reversed name value with
  | nil =>
    rw [writeMemberLines, List.nil_append,
      resume?_endObject ((skipSpace_newLine depth _).trans (skipSpace_cons rfl rest)),
      List.reverse_cons]
  | cons member members ih =>
    obtain ⟨hmember, hmembers⟩ := List.forall_mem_cons.1 h
    obtain ⟨next, held⟩ := member
    have htext : writeMemberLines depth ((next, held) :: members) ++ newLine depth ++ '\x7d' :: rest =
        ',' :: (newLine (depth + 1) ++ writeText next.toList ++ ':' :: ([' '] ++
          (held.writeLines (depth + 1) ++
            (writeMemberLines depth members ++ newLine depth ++ '\x7d' :: rest)))) := by
      simp only [writeMemberLines, List.append_assoc, List.cons_append, List.nil_append]
    rw [htext, resume?_member (skipSpace_cons rfl _), readName?_writeText, Option.bind_some,
      readValue?_append_space (by decide), hmember, ih hmembers, String.ofList_toList,
      List.reverse_cons, List.append_assoc, List.singleton_append]

theorem readsBack_object {members : List (String × Json)}
    (h : ∀ member ∈ members, member.2.ReadsBack) : (Json.object members).ReadsBack := by
  intro depth frames rest
  cases members with
  | nil => exact readValue?_emptyObject (skipSpace_cons rfl _) (skipSpace_cons rfl rest)
  | cons member members =>
    obtain ⟨hmember, hmembers⟩ := List.forall_mem_cons.1 h
    obtain ⟨name, held⟩ := member
    have htext : (Json.object ((name, held) :: members)).writeLines depth ++ rest =
        '\x7b' :: (newLine (depth + 1) ++ writeText name.toList ++ ':' :: ([' '] ++
          (held.writeLines (depth + 1) ++
            (writeMemberLines depth members ++ newLine depth ++ '\x7d' :: rest)))) := by
      simp only [writeLines, List.append_assoc, List.cons_append, List.nil_append]
    rw [htext, readValue?_object (skipSpace_cons rfl _), readName?_writeText, Option.bind_some,
      readValue?_append_space (by decide), hmember, resume?_writeMemberLines hmembers,
      String.ofList_toList]
    · rfl
    · -- Neither does the name of the first member look like the end of an empty object.
      intro tail htail
      rw [List.append_assoc, skipSpace_newLine, writeText_append, skipSpace_cons rfl] at htail
      exact absurd (List.cons.inj htail).1 (by decide)

/-- A value without numbers is read back from its lines. -/
theorem NumberFree.readsBack (h : value.NumberFree) : value.ReadsBack := by
  induction h with
  | null => exact readsBack_of_scalar (fun _ ↦ ⟨_, _, rfl, rfl, by decide, by decide⟩) fun _ _ ↦ rfl
  | boolean value =>
    cases value
    · exact readsBack_of_scalar (fun _ ↦ ⟨_, _, rfl, rfl, by decide, by decide⟩) fun _ _ ↦ rfl
    · exact readsBack_of_scalar (fun _ ↦ ⟨_, _, rfl, rfl, by decide, by decide⟩) fun _ _ ↦ rfl
  | string value =>
    refine readsBack_of_scalar (fun _ ↦ ⟨_, _, rfl, rfl, by decide, by decide⟩) fun depth rest ↦ ?_
    rw [writeLines, readScalar?_writeText, String.ofList_toList]
  | array h ih => exact readsBack_array h ih
  | object _ ih => exact readsBack_object ih

/-- A value without numbers is the one that its lines hold. -/
theorem ofText?_pretty (h : value.NumberFree) {blank : List Char}
    (hblank : ∀ c ∈ blank, isSpace c = true) :
    ofText? (value.pretty.toList ++ blank) = some value := by
  have hread := h.readsBack 0 [] blank
  rw [resume?_nil] at hread
  have hend := skipSpace_append hblank []
  rw [List.append_nil] at hend
  rw [ofText?, pretty, String.toList_ofList, hread]
  simp only [hend]
  rfl

end Json

end CalendarCommand
