import CalendarCommand.Proofs.ContentLine.Folding
import CalendarCommand.Proofs.ContentLine.Unfolding

/-!
# Folded text and its unfolding

Joined by CRLF, folded lines unfold to the pieces of the text, whatever characters the chunks hold: no
chunk holds a line feed, so a carriage return that a cut leaves at the end of a chunk stands in front of
the one of the separator and is no part of a fold, and of the blanks behind a separator only the added
one goes.  Joined by LF alone, a carriage return at the end of a chunk would be taken for a part of the
separator.  What unfolding cannot bring back are the line breaks that the text was cut at.
-/

namespace CalendarCommand.ContentLine

theorem lf_notMem_of_mem_splitOn {text : List Char} :
    ∀ piece ∈ text.splitOn '\n', '\n' ∉ piece := by
  induction text using line_induction with
  | last line hline =>
    rw [List.splitOn_eq_singleton hline]
    simpa using hline
  | line line rest hline ih =>
    rw [List.splitOn_append_cons_self_of_not_mem hline, List.forall_mem_cons]
    exact ⟨hline, ih⟩

theorem lf_notMem_of_mem_pieces {text piece : List Char} (hpiece : piece ∈ pieces text) :
    '\n' ∉ piece := by
  obtain ⟨whole, hwhole, rfl⟩ := List.mem_map.1 hpiece
  have hlf := lf_notMem_of_mem_splitOn whole hwhole
  split
  · exact fun hmem ↦ hlf ((List.dropLast_sublist whole).subset hmem)
  · exact hlf

/-- Folded lines are chunks without line feeds, and the chunks are the pieces of the text. -/
theorem exists_fold_eq (text : List Char) (width : Nat) : ∃ first more,
    fold text width = markContinuations (first :: more) ∧
      (first :: more).flatten = (pieces text).flatten ∧ ∀ chunk ∈ first :: more, '\n' ∉ chunk := by
  let cut := chunks (effectiveWidth width - 2) (effectiveWidth width)
  obtain ⟨first, more, hchunks⟩ : ∃ first more, (pieces text).flatMap cut = first :: more := by
    refine List.exists_cons_of_ne_nil fun hnil ↦ ?_
    obtain ⟨piece, others, hpieces⟩ := List.exists_cons_of_ne_nil (pieces_ne_nil text)
    rw [hpieces, List.flatMap_cons, List.append_eq_nil_iff] at hnil
    exact chunks_ne_nil _ _ piece hnil.1
  refine ⟨first, more, by rw [← hchunks]; rfl, ?_, ?_⟩
  · rw [← hchunks]
    simp only [cut, List.flatMap_def, List.flatten_flatten, List.map_map, Function.comp_def,
      flatten_chunks, List.map_id']
  · rw [← hchunks]
    intro chunk hchunk hlf
    obtain ⟨piece, hpiece, hmem⟩ := List.mem_flatMap.1 hchunk
    refine lf_notMem_of_mem_pieces hpiece ?_
    rw [← flatten_chunks (effectiveWidth width - 2) (effectiveWidth width) piece]
    exact List.mem_flatten.2 ⟨chunk, hmem, hlf⟩

/-- Folded lines, joined by a line break, unfold to the pieces of the text. -/
theorem unfold_joined_fold {separator : Terminator} (hseparator : separator ≠ .absent)
    {text rest : List Char} (width : Nat)
    (hcr : '\r' ∉ (pieces text).flatten ∨ separator = .crlf ∧ rest.head? ≠ some '\n') :
    unfold (separator.text.intercalate (fold text width) ++ rest) =
      (pieces text).flatten ++ unfold rest := by
  obtain ⟨first, more, hfold, hflat, hlf⟩ := exists_fold_eq text width
  let marked : List (Char × List Char) := more.map fun chunk ↦ (' ', chunk)
  have hmarked : marked.map Prod.snd = more := by
    rw [List.map_map]
    exact List.map_id' more
  have hjoined : separator.text.intercalate (fold text width) =
      first ++ marked.flatMap fun line ↦ separator.text ++ line.1 :: line.2 := by
    rw [hfold, intercalate_markContinuations, List.flatMap_map]
  have hmark : ∀ line ∈ marked, isFoldMark line.1 = true := by
    intro line hline
    obtain ⟨chunk, -, rfl⟩ := List.mem_map.1 hline
    rfl
  have hchunk : '\r' ∉ (pieces text).flatten → ∀ chunk ∈ first :: more, '\r' ∉ chunk := by
    intro hfree chunk hmem hchunk
    rw [← hflat] at hfree
    exact hfree (List.mem_flatten.2 ⟨chunk, hmem, hchunk⟩)
  rw [hjoined, List.append_assoc,
    unfold_chunks hseparator hmark (by rwa [hmarked]) (hcr.imp_left (by rwa [hmarked])), hmarked, hflat]

/-- Unfolding undoes folding up to the line breaks of the text: the folded lines, joined by CRLF, unfold
to the pieces of the text, and joined by LF they do so unless a piece holds a carriage return.  A text
without line breaks comes back as it was, at every width and with either line break. -/
theorem unfold_fold (text : List Char) (width : Nat) :
    unfold (Terminator.crlf.text.intercalate (fold text width)) = (pieces text).flatten ∧
    ('\r' ∉ (pieces text).flatten →
      unfold (Terminator.lf.text.intercalate (fold text width)) = (pieces text).flatten) ∧
    ('\r' ∉ text → '\n' ∉ text →
      unfold (Terminator.crlf.text.intercalate (fold text width)) = text ∧
      unfold (Terminator.lf.text.intercalate (fold text width)) = text) := by
  have hcrlfNe : Terminator.crlf ≠ .absent := nofun
  have hlfNe : Terminator.lf ≠ .absent := nofun
  have hcrlf : unfold (Terminator.crlf.text.intercalate (fold text width) ++ []) =
      (pieces text).flatten ++ unfold [] := unfold_joined_fold hcrlfNe width (.inr ⟨rfl, nofun⟩)
  have hlf (hcr : '\r' ∉ (pieces text).flatten) :
      unfold (Terminator.lf.text.intercalate (fold text width) ++ []) =
        (pieces text).flatten ++ unfold [] := unfold_joined_fold hlfNe width (.inl hcr)
  simp only [List.append_nil, unfold] at hcrlf hlf
  refine ⟨hcrlf, hlf, fun hcrFree hlfFree ↦ ?_⟩
  have hbody : (pieces text).flatten = text := by
    rw [pieces_eq_singleton hlfFree fun h ↦ hcrFree (List.mem_of_getLast? h), List.flatten_singleton]
  rw [hbody] at hcrlf hlf
  exact ⟨hcrlf, hlf hcrFree⟩

end CalendarCommand.ContentLine
