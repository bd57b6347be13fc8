import CalendarCommand.Proofs.ContentLine.Folding

/-!
# Greedy folding

The cut of a line is a loop: as long as more characters are left than the room admits, a chunk that
takes all the room is cut off, and from the second chunk on the room is one character smaller, for the
added space.  `CutInto` is a run of this loop that has come to its end.

A line is folded by no other full lines, and by no fewer: whoever fills each line before starting the
next one gets these lines, and lines that are no longer than the width leave so much less room that
there are at least as many of them.  Later pieces of a text with line breaks are cut as the first one
is, although their first chunk gets an added space too: this is the one place where a folded line can
exceed the width, and it does so by one character.
-/

namespace CalendarCommand.ContentLine

/-! ## The loop of the cut -/

/-- A run of the cut with `room` characters for the first chunk and `later` for each one behind it. -/
inductive CutInto (later : Nat) : Nat → List Char → List (List Char) → Prop where
  /-- The rest of the line fits. -/
  | stop {room : Nat} {line : List Char} (fits : line.length ≤ room) : CutInto later room line [line]
  /-- A character stands behind the room. -/
  | cut {room : Nat} {line : List Char} {more : List (List Char)} (exceeds : room < line.length)
      (rest : CutInto later later (line.drop room) more) :
      CutInto later room line (line.take room :: more)

/-- The cut comes to its end, since every chunk takes a character. -/
theorem cutInto_chunks (later room : Nat) (line : List Char) :
    CutInto (later + 1) (room + 1) line (chunks later (room + 1) line) := by
  by_cases h : line.length ≤ room + 1
  · rw [chunks_of_le h]
    exact .stop h
  · have hexceeds : room + 1 < line.length := Nat.lt_of_not_le h
    rw [chunks_of_lt hexceeds]
    exact .cut hexceeds (cutInto_chunks later later (line.drop (room + 1)))
termination_by line.length
decreasing_by
  rw [List.length_drop]
  omega

theorem length_flatten_le {later : Nat} {more : List (List Char)}
    (h : ∀ chunk ∈ more, chunk.length ≤ later) : more.flatten.length ≤ later * more.length := by
  induction more with
  | nil => exact Nat.zero_le _
  | cons chunk more ih =>
    have hchunk := h chunk List.mem_cons_self
    have hmore := ih fun other hother ↦ h other (List.mem_cons_of_mem _ hother)
    rw [List.flatten_cons, List.length_append, List.length_cons, Nat.mul_succ]
    omega

namespace CutInto

variable {later room : Nat} {line : List Char} {lines : List (List Char)}

/-- A line is cut in one way only. -/
theorem unique (h : CutInto later room line lines) {lines' : List (List Char)}
    (h' : CutInto later room line lines') : lines = lines' := by
  induction h generalizing lines' with
  | stop fits =>
    cases h' with
    | stop => rfl
    | cut exceeds => exact absurd fits (Nat.not_le_of_lt exceeds)
  | cut exceeds rest ih =>
    cases h' with
    | stop fits => exact absurd fits (Nat.not_le_of_lt exceeds)
    | cut _ rest' => rw [ih rest']

/-- The first chunk takes all the room, and no later chunk is longer than it may be. -/
theorem exists_first (h : CutInto later room line lines) :
    ∃ more, lines = line.take room :: more ∧ ∀ chunk ∈ more, chunk.length ≤ later := by
  induction h with
  | stop fits => exact ⟨[], by rw [List.take_of_length_le fits], nofun⟩
  | cut exceeds rest ih =>
    obtain ⟨more, rfl, hmore⟩ := ih
    refine ⟨_, rfl, fun chunk hchunk ↦ ?_⟩
    rcases List.mem_cons.1 hchunk with rfl | hchunk
    · exact List.length_take_le later _
    · exact hmore chunk hchunk

/-- All chunks in front of the last one are full, and a character is left for the last one. -/
theorem full_lt_length (h : CutInto later room line lines) {count : Nat}
    (hcount : lines.length = count + 2) : room + later * count < line.length := by
  induction h generalizing count with
  | stop fits => simp at hcount
  | cut exceeds rest ih =>
    cases count with
    | zero => simpa using exceeds
    | succ count =>
      have hrest := ih (Nat.succ.inj hcount)
      rw [List.length_drop] at hrest
      rw [Nat.mul_succ]
      omega

/-- No cut with the same room has fewer chunks. -/
theorem length_le (h : CutInto later room line lines) {first : List Char} {more : List (List Char)}
    (hfirst : first.length ≤ room) (hmore : ∀ chunk ∈ more, chunk.length ≤ later)
    (hline : first ++ more.flatten = line) : lines.length ≤ more.length + 1 := by
  by_contra hlonger
  obtain ⟨count, hcount⟩ : ∃ count, lines.length = more.length + count + 2 :=
    ⟨lines.length - more.length - 2, by omega⟩
  have hfull := h.full_lt_length hcount
  have hline : line.length ≤ room + later * more.length := by
    rw [← hline, List.length_append]
    exact Nat.add_le_add hfirst (length_flatten_le hmore)
  rw [Nat.mul_add] at hfull
  omega

end CutInto

/-! ## Lines that are filled -/

/-- The text of lines without the space that each line after the first one begins with. -/
def withoutMarks : List (List Char) → List Char
  | [] => []
  | first :: more => first ++ more.flatMap List.tail

/-- The lines fold the text: every line after the first begins with one added space, and without
these spaces the lines are the text. -/
structure IsFolding (text : List Char) (lines : List (List Char)) : Prop where
  marked : ∀ line ∈ lines.tail, line.head? = some ' '
  joined : withoutMarks lines = text

/-- Every line but the last has all the characters that the width admits, and the last one has no more
and, unless it is the only line, at least one beside its space. -/
structure IsGreedy (width : Nat) (lines : List (List Char)) : Prop where
  full : ∀ line ∈ lines.dropLast, line.length = width
  last_le : ∀ line ∈ lines.getLast?, line.length ≤ width
  two_le_last : lines.length ≠ 1 → ∀ line ∈ lines.getLast?, 2 ≤ line.length

/-- Chunks with `room` characters for the first one and `later` for the others, all of them full but the
last one, which holds a character unless it is the first one too. -/
structure Fills (later room : Nat) (first : List Char) (more : List (List Char)) : Prop where
  first_le : first.length ≤ room
  first_full : more ≠ [] → first.length = room
  full : ∀ chunk ∈ more.dropLast, chunk.length = later
  last : ∀ chunk ∈ more.getLast?, 0 < chunk.length ∧ chunk.length ≤ later

theorem withoutMarks_markContinuations (chunks : List (List Char)) :
    withoutMarks (markContinuations chunks) = chunks.flatten := by
  cases chunks with
  | nil => rfl
  | cons first more =>
    rw [markContinuations, withoutMarks, List.flatMap_map, List.flatten_cons]
    simp

theorem isFolding_markContinuations (chunks : List (List Char)) :
    IsFolding chunks.flatten (markContinuations chunks) := by
  refine ⟨?_, withoutMarks_markContinuations chunks⟩
  cases chunks with
  | nil => exact nofun
  | cons first more =>
    intro line hline
    obtain ⟨chunk, -, rfl⟩ := List.mem_map.1 hline
    rfl

theorem IsFolding.exists_chunks {text : List Char} {lines : List (List Char)}
    (h : IsFolding text lines) (hne : lines ≠ []) :
    ∃ first more, lines = markContinuations (first :: more) ∧ first ++ more.flatten = text := by
  obtain ⟨first, rest, rfl⟩ := List.exists_cons_of_ne_nil hne
  have hrest : rest = (rest.map List.tail).map fun chunk ↦ ' ' :: chunk := by
    rw [List.map_map]
    refine (List.map_id rest).symm.trans (List.map_congr_left fun line hline ↦ ?_)
    obtain ⟨chunk, rfl⟩ := List.head?_eq_some_iff.1 (h.marked line hline)
    rfl
  refine ⟨first, rest.map List.tail, by rw [markContinuations, ← hrest], ?_⟩
  rw [← h.joined, withoutMarks, List.flatMap_def]

section Fills

variable {later room : Nat} {first second line : List Char} {more : List (List Char)}

theorem fills_nil : Fills later room first [] ↔ first.length ≤ room :=
  ⟨Fills.first_le, fun h ↦ ⟨h, fun hne ↦ absurd rfl hne, nofun, nofun⟩⟩

/-- Chunks are filled from the first one on. -/
theorem fills_cons (hlater : 0 < later) : Fills later room first (second :: more) ↔
    first.length = room ∧ 0 < second.length ∧ Fills later later second more := by
  cases more with
  | nil =>
    rw [fills_nil]
    constructor
    · intro h
      obtain ⟨hpos, hle⟩ := h.last second rfl
      exact ⟨h.first_full (List.cons_ne_nil _ _), hpos, hle⟩
    · rintro ⟨hfirst, hpos, hle⟩
      refine ⟨Nat.le_of_eq hfirst, fun _ ↦ hfirst, nofun, fun chunk hchunk ↦ ?_⟩
      exact Option.some.inj hchunk ▸ ⟨hpos, hle⟩
  | cons third more =>
    constructor
    · intro h
      have hsecond : second.length = later := h.full second List.mem_cons_self
      exact ⟨h.first_full (List.cons_ne_nil _ _), hsecond ▸ hlater, Nat.le_of_eq hsecond,
        fun _ ↦ hsecond, fun chunk hchunk ↦ h.full chunk (List.mem_cons_of_mem _ hchunk), h.last⟩
    · rintro ⟨hfirst, -, h⟩
      refine ⟨Nat.le_of_eq hfirst, fun _ ↦ hfirst, fun chunk hchunk ↦ ?_, h.last⟩
      rcases List.mem_cons.1 hchunk with rfl | hchunk
      · exact h.first_full (List.cons_ne_nil _ _)
      · exact h.full chunk hchunk

/-- The loop fills its chunks. -/
theorem CutInto.fills (hlater : 0 < later) (h : CutInto later room line (first :: more)) :
    Fills later room first more := by
  induction more generalizing room line first with
  | nil =>
    rw [fills_nil]
    cases h with
    | stop fits => exact fits
    | cut exceeds rest => cases rest
  | cons second more ih =>
    rw [fills_cons hlater]
    cases h with
    | cut exceeds rest =>
      obtain ⟨others, heq, -⟩ := rest.exists_first
      refine ⟨List.length_take_of_le (Nat.le_of_lt exceeds), ?_, ih rest⟩
      rw [(List.cons.inj heq).1, List.length_take, List.length_drop]
      omega

/-- Chunks that are filled come from the loop. -/
theorem Fills.cutInto (hlater : 0 < later) (h : Fills later room first more) :
    CutInto later room (first ++ more.flatten) (first :: more) := by
  induction more generalizing room first with
  | nil =>
    rw [List.flatten_nil, List.append_nil]
    exact .stop h.first_le
  | cons second more ih =>
    obtain ⟨rfl, hpos, hmore⟩ := (fills_cons hlater).1 h
    have hexceeds : first.length < (first ++ (second :: more).flatten).length := by
      rw [List.length_append, List.flatten_cons, List.length_append]
      omega
    have hrest : CutInto later later ((first ++ (second :: more).flatten).drop first.length)
        (second :: more) := by
      rw [List.drop_left]
      exact ih hmore
    have hcut := CutInto.cut hexceeds hrest
    rwa [List.take_left] at hcut

theorem getLast?_markContinuations :
    (markContinuations (first :: second :: more)).getLast? =
      (second :: more).getLast?.map fun chunk ↦ ' ' :: chunk := by
  rw [← List.getLast?_map]
  rfl

theorem dropLast_markContinuations :
    (markContinuations (first :: second :: more)).dropLast =
      first :: (second :: more).dropLast.map fun chunk ↦ ' ' :: chunk := by
  rw [markContinuations, List.dropLast_cons_of_ne_nil (by simp), List.map_dropLast]

/-- A line is filled when its chunk is, since the added space is counted. -/
theorem isGreedy_markContinuations_iff :
    IsGreedy (later + 1) (markContinuations (first :: more)) ↔ Fills later (later + 1) first more := by
  cases more with
  | nil =>
    rw [fills_nil]
    constructor
    · exact fun h ↦ h.last_le first rfl
    · intro h
      refine ⟨nofun, fun line hline ↦ ?_, fun hne ↦ absurd rfl hne⟩
      exact Option.some.inj hline ▸ h
  | cons second more =>
    have hlead : (∀ line ∈ (markContinuations (first :: second :: more)).dropLast,
          line.length = later + 1) ↔
        first.length = later + 1 ∧ ∀ chunk ∈ (second :: more).dropLast, chunk.length = later := by
      rw [dropLast_markContinuations, List.forall_mem_cons, List.forall_mem_map]
      simp only [List.length_cons, Nat.add_right_cancel_iff]
    have hlast (p : Nat → Prop) :
        (∀ line ∈ (markContinuations (first :: second :: more)).getLast?, p line.length) ↔
          ∀ chunk ∈ (second :: more).getLast?, p (chunk.length + 1) := by
      rw [getLast?_markContinuations]
      simp only [Option.mem_def, Option.map_eq_some_iff, forall_exists_index, and_imp,
        forall_apply_eq_imp_iff₂, List.length_cons]
    have hseveral : (markContinuations (first :: second :: more)).length ≠ 1 := by
      simp [markContinuations]
    constructor
    · intro h
      obtain ⟨hfirst, hfull⟩ := hlead.1 h.full
      refine ⟨Nat.le_of_eq hfirst, fun _ ↦ hfirst, hfull, fun chunk hchunk ↦ ⟨?_, ?_⟩⟩
      · exact Nat.le_of_succ_le_succ ((hlast (2 ≤ ·)).1 (h.two_le_last hseveral) chunk hchunk)
      · exact Nat.le_of_succ_le_succ ((hlast (· ≤ later + 1)).1 h.last_le chunk hchunk)
    · intro h
      refine ⟨hlead.2 ⟨h.first_full (List.cons_ne_nil _ _), h.full⟩,
        (hlast (· ≤ later + 1)).2 fun chunk hchunk ↦ ?_,
        fun _ ↦ (hlast (2 ≤ ·)).2 fun chunk hchunk ↦ ?_⟩
      · exact Nat.succ_le_succ (h.last chunk hchunk).2
      · exact Nat.succ_le_succ (h.last chunk hchunk).1

end Fills

/-- A text of a single piece is folded by a cut that comes to its end.  The folded lines are the only
ones that are not none, fold the text and are filled, and no lines that fold the text within the width
are fewer; only of the empty text there are no lines at all. -/
theorem fold_unique_and_shortest {text : List Char} (hlf : '\n' ∉ text)
    (hend : text.getLast? ≠ some '\r') (width : Nat) :
    (∃ parts, CutInto (effectiveWidth width - 1) (effectiveWidth width) text parts ∧
      fold text width = markContinuations parts) ∧
    (fold text width ≠ [] ∧ IsFolding text (fold text width) ∧
      IsGreedy (effectiveWidth width) (fold text width)) ∧
    (∀ lines, lines ≠ [] → IsFolding text lines → IsGreedy (effectiveWidth width) lines →
      lines = fold text width) ∧
    ∀ lines, (text = [] → lines ≠ []) → IsFolding text lines →
      (∀ line ∈ lines, line.length ≤ effectiveWidth width) →
      (fold text width).length ≤ lines.length := by
  obtain ⟨later, hwidth⟩ := Nat.exists_eq_add_of_le' (two_le_effectiveWidth width)
  have hcut : CutInto (later + 1) (later + 2) text (chunks later (later + 2) text) :=
    cutInto_chunks later (later + 1) text
  have hfold : fold text width = markContinuations (chunks later (later + 2) text) := by
    rw [fold_eq_chunks hlf hend, hwidth]
    rfl
  obtain ⟨others, hothers, -⟩ := hcut.exists_first
  rw [hfold, hwidth]
  refine ⟨⟨_, hcut, rfl⟩, ⟨?_, ?_, ?_⟩, fun lines hne hfolding hgreedy ↦ ?_,
    fun lines hne hfolding hle ↦ ?_⟩
  · rw [hothers]
    exact List.cons_ne_nil _ _
  · have hfolding := isFolding_markContinuations (chunks later (later + 2) text)
    rwa [flatten_chunks] at hfolding
  · rw [hothers] at hcut ⊢
    exact isGreedy_markContinuations_iff.2 (hcut.fills later.succ_pos)
  · -- Lines that are filled come from the loop, and the loop has one result.
    obtain ⟨first, more, rfl, rfl⟩ := hfolding.exists_chunks hne
    have hfills := isGreedy_markContinuations_iff.1 hgreedy
    rw [(hfills.cutInto later.succ_pos).unique hcut]
  · have hne : lines ≠ [] := by
      intro hnil
      refine hne ?_ hnil
      rw [← hfolding.joined, hnil]
      rfl
    obtain ⟨first, more, rfl, hjoined⟩ := hfolding.exists_chunks hne
    have hfirst : first.length ≤ later + 2 := hle first List.mem_cons_self
    have hmore (chunk : List Char) (hchunk : chunk ∈ more) : chunk.length ≤ later + 1 :=
      Nat.le_of_succ_le_succ
        (hle (' ' :: chunk) (List.mem_cons_of_mem _ (List.mem_map_of_mem hchunk)))
    have hlength := hcut.length_le hfirst hmore hjoined
    rw [hothers] at hlength ⊢
    simpa [markContinuations] using hlength

/-- A line with a carriage return at a cut and a blank behind it, at a small width. -/
theorem fold_unique_and_shortest_blank :
    '\n' ∉ "ab\r cde".toList ∧ "ab\r cde".toList.getLast? ≠ some '\r' ∧
    fold "ab\r cde".toList 3 = ["ab\r".toList, "  c".toList, " de".toList] ∧
    (∀ lines, lines ≠ [] → IsFolding "ab\r cde".toList lines → IsGreedy 3 lines →
      lines = ["ab\r".toList, "  c".toList, " de".toList]) ∧
    ∀ lines, IsFolding "ab\r cde".toList lines → (∀ line ∈ lines, line.length ≤ 3) →
      3 ≤ lines.length := by
  have hlf : '\n' ∉ "ab\r cde".toList := by decide
  have hend : "ab\r cde".toList.getLast? ≠ some '\r' := by decide
  have hfold : fold "ab\r cde".toList 3 = ["ab\r".toList, "  c".toList, " de".toList] := by decide
  obtain ⟨-, -, hunique, hshortest⟩ := fold_unique_and_shortest hlf hend 3
  rw [hfold] at hunique hshortest
  exact ⟨hlf, hend, hfold, hunique, fun lines ↦ hshortest lines nofun⟩

/-! ## Lines and the width -/

/-- No folded line of the text is longer than the width. -/
def FitsWidth (text : List Char) (width : Nat) : Prop :=
  ∀ line ∈ fold text width, line.length ≤ effectiveWidth width

/-- A folded line is the first line, a chunk within the room that the added space leaves, or the first
chunk of a later piece. -/
theorem mem_fold {text line : List Char} {width : Nat} (hline : line ∈ fold text width) :
    line.length ≤ effectiveWidth width ∨
      ∃ piece ∈ (pieces text).tail, line = ' ' :: piece.take (effectiveWidth width) := by
  obtain ⟨later, hwidth⟩ := Nat.exists_eq_add_of_le' (two_le_effectiveWidth width)
  obtain ⟨first, others, hpieces⟩ := List.exists_cons_of_ne_nil (pieces_ne_nil text)
  have hcut (piece : List Char) : ∃ more, chunks later (later + 2) piece =
      piece.take (later + 2) :: more ∧ ∀ chunk ∈ more, chunk.length ≤ later + 1 :=
    (cutInto_chunks later (later + 1) piece).exists_first
  obtain ⟨more, hchunks, hmore⟩ := hcut first
  rw [fold, hpieces, hwidth, Nat.add_sub_cancel, List.flatMap_cons, hchunks, List.cons_append,
    markContinuations, List.mem_cons] at hline
  rw [hpieces, hwidth, List.tail_cons]
  rcases hline with rfl | hline
  · exact .inl (List.length_take_le _ first)
  · obtain ⟨chunk, hchunk, rfl⟩ := List.mem_map.1 hline
    rcases List.mem_append.1 hchunk with hchunk | hchunk
    · exact .inl (Nat.succ_le_succ (hmore chunk hchunk))
    · obtain ⟨piece, hpiece, hchunk⟩ := List.mem_flatMap.1 hchunk
      obtain ⟨rest, hchunks, hrest⟩ := hcut piece
      rw [hchunks, List.mem_cons] at hchunk
      rcases hchunk with rfl | hchunk
      · exact .inr ⟨piece, hpiece, rfl⟩
      · exact .inl (Nat.succ_le_succ (hrest chunk hchunk))

/-- The first chunk of a later piece, behind an added space, is a folded line. -/
theorem mem_fold_of_mem_pieces {text piece : List Char} (hpiece : piece ∈ (pieces text).tail)
    (width : Nat) : ' ' :: piece.take (effectiveWidth width) ∈ fold text width := by
  obtain ⟨first, others, hpieces⟩ := List.exists_cons_of_ne_nil (pieces_ne_nil text)
  rw [hpieces, List.tail_cons] at hpiece
  obtain ⟨more, hmore⟩ :=
    exists_chunks_eq (effectiveWidth width - 2) (effectiveWidth width) first
  obtain ⟨rest, hrest⟩ :=
    exists_chunks_eq (effectiveWidth width - 2) (effectiveWidth width) piece
  rw [fold, hpieces, List.flatMap_cons, hmore, List.cons_append, markContinuations]
  refine List.mem_cons_of_mem _ (List.mem_map_of_mem (List.mem_append_right _ ?_))
  exact List.mem_flatMap.2 ⟨piece, hpiece, by rw [hrest]; exact List.mem_cons_self⟩

/-- The folded lines of a text keep to the width exactly when each piece behind its first line break is
shorter than the width.  A line that does not keep to it is one character too long: it is the first
chunk of such a piece, which takes the whole width, behind an added space. -/
theorem fitsWidth_iff (text : List Char) (width : Nat) :
    (FitsWidth text width ↔ ∀ piece ∈ (pieces text).tail, piece.length < effectiveWidth width) ∧
    ∀ line ∈ fold text width, line.length ≤ effectiveWidth width ∨
      line.length = effectiveWidth width + 1 ∧
        ∃ piece ∈ (pieces text).tail, line = ' ' :: piece.take (effectiveWidth width) := by
  refine ⟨⟨fun hfits piece hpiece ↦ ?_, fun hshort line hline ↦ ?_⟩, fun line hline ↦ ?_⟩
  · have hle := hfits _ (mem_fold_of_mem_pieces hpiece width)
    rw [List.length_cons, List.length_take] at hle
    omega
  · rcases mem_fold hline with hle | ⟨piece, hpiece, rfl⟩
    · exact hle
    · have hlt := hshort piece hpiece
      rw [List.length_cons, List.length_take]
      omega
  · rcases mem_fold hline with hle | ⟨piece, hpiece, rfl⟩
    · exact .inl hle
    · by_cases hlt : piece.length < effectiveWidth width
      · left
        rw [List.length_cons, List.length_take]
        omega
      · right
        refine ⟨?_, piece, hpiece, rfl⟩
        rw [List.length_cons, List.length_take]
        omega

/-- Two characters behind a line break do not fit into a width of two. -/
theorem not_fitsWidth_secondPiece :
    fold "a\nbc".toList 2 = ["a".toList, " bc".toList] ∧ ¬ FitsWidth "a\nbc".toList 2 := by
  have hfold : fold "a\nbc".toList 2 = ["a".toList, " bc".toList] := by decide
  refine ⟨hfold, fun hfits ↦ ?_⟩
  have hle := hfits " bc".toList (by rw [hfold]; decide)
  exact absurd hle (by decide)

end CalendarCommand.ContentLine
