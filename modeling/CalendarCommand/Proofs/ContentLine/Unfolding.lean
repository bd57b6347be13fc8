import CalendarCommand.ContentLine.Unfold
import CalendarCommand.Proofs.ContentLine.Lines

/-!
# Unfolding and line ends

Unfolding acts on each fold by itself.  A text can therefore be cut wherever no fold is cut apart,
that is behind a line end in front of a character that marks no continuation, and its parts unfold
on their own.  Characters that are no line breaks pass unchanged, and a chunk behind a fold joins
the text in front of the fold.
-/

namespace CalendarCommand.ContentLine

/-- The text begins with a fold: a line break and a space or a tab. -/
def StartsFold (text : List Char) : Prop :=
  ∃ mark rest, isFoldMark mark = true ∧
    (text = '\r' :: '\n' :: mark :: rest ∨ text = '\n' :: mark :: rest)

/-- The text does not begin with a space or a tab. -/
def StartsApart (text : List Char) : Prop :=
  ∀ c, text.head? = some c → isFoldMark c = false

theorem isFoldMark_iff {c : Char} : isFoldMark c = true ↔ c = ' ' ∨ c = '\t' := by
  simp [isFoldMark]

theorem StartsFold.append {text : List Char} (h : StartsFold text) (more : List Char) :
    StartsFold (text ++ more) := by
  obtain ⟨mark, rest, hmark, rfl | rfl⟩ := h
  · exact ⟨mark, rest ++ more, hmark, .inl rfl⟩
  · exact ⟨mark, rest ++ more, hmark, .inr rfl⟩

/-! ## The single pass -/

theorem unfold_crlf_mark {mark : Char} (h : isFoldMark mark = true) (rest : List Char) :
    unfold ('\r' :: '\n' :: mark :: rest) = unfold rest := by
  rcases isFoldMark_iff.1 h with rfl | rfl <;> rfl

theorem unfold_lf_mark {mark : Char} (h : isFoldMark mark = true) (rest : List Char) :
    unfold ('\n' :: mark :: rest) = unfold rest := by
  rcases isFoldMark_iff.1 h with rfl | rfl <;> rfl

theorem unfold_cons {c : Char} {rest : List Char} (h : ¬ StartsFold (c :: rest)) :
    unfold (c :: rest) = c :: unfold rest := by
  rw [unfold]
  · rintro more rfl rfl
    exact h ⟨' ', more, rfl, .inl rfl⟩
  · rintro more rfl rfl
    exact h ⟨'\t', more, rfl, .inl rfl⟩
  · rintro more rfl rfl
    exact h ⟨' ', more, rfl, .inr rfl⟩
  · rintro more rfl rfl
    exact h ⟨'\t', more, rfl, .inr rfl⟩

theorem head?_of_unfold {text back : List Char} {c : Char} (h : unfold text = c :: back)
    (hfold : ¬ StartsFold text) : text.head? = some c := by
  cases text with
  | nil => exact absurd h (by simp [unfold])
  | cons d rest =>
    rw [unfold_cons hfold] at h
    exact congrArg some (List.cons.inj h).1

/-- A text is unfolded by taking off a fold or a character that begins none. -/
theorem unfold_induction {motive : List Char → Prop} (nil : motive [])
    (crlf : ∀ mark rest, isFoldMark mark = true → motive rest →
      motive ('\r' :: '\n' :: mark :: rest))
    (lf : ∀ mark rest, isFoldMark mark = true → motive rest → motive ('\n' :: mark :: rest))
    (cons : ∀ c rest, ¬ StartsFold (c :: rest) → motive rest → motive (c :: rest))
    (text : List Char) : motive text := by
  by_cases hfold : StartsFold text
  · obtain ⟨mark, rest, hmark, htext | htext⟩ := hfold
    · exact htext ▸ crlf mark rest hmark (unfold_induction nil crlf lf cons rest)
    · exact htext ▸ lf mark rest hmark (unfold_induction nil crlf lf cons rest)
  · cases htext : text with
    | nil => exact nil
    | cons c rest => exact cons c rest (htext ▸ hfold) (unfold_induction nil crlf lf cons rest)
termination_by text.length
decreasing_by
  all_goals simp only [htext, List.length_cons]
  all_goals omega

theorem not_startsFold_of_ne {c : Char} (hcr : c ≠ '\r') (hlf : c ≠ '\n') (rest : List Char) :
    ¬ StartsFold (c :: rest) := by
  rintro ⟨mark, more, -, h | h⟩
  · exact hcr (List.cons.inj h).1
  · exact hlf (List.cons.inj h).1

/-- A cut behind a line end that no space or tab follows cuts no fold apart. -/
theorem startsFold_of_append {before after : List Char} (hne : before ≠ [])
    (hbefore : EndsLine before) (hafter : StartsApart after) (h : StartsFold (before ++ after)) :
    StartsFold before := by
  obtain ⟨mark, more, hmark, h⟩ := h
  have hapart (tail : List Char) : after ≠ mark :: tail := fun hcut ↦ by
    rw [hafter mark (by rw [hcut]; rfl)] at hmark
    exact absurd hmark (by decide)
  rcases before with - | ⟨a, - | ⟨b, - | ⟨c, rest⟩⟩⟩
  · exact absurd rfl hne
  · rcases h with h | h
    · obtain ⟨rfl, -⟩ := List.cons.inj h
      exact absurd hbefore (by simp [EndsLine])
    · exact absurd (List.cons.inj h).2 (hapart more)
  · rcases h with h | h
    · exact absurd (List.cons.inj (List.cons.inj h).2).2 (hapart more)
    · simp only [List.cons_append, List.cons.injEq] at h
      obtain ⟨rfl, rfl, -⟩ := h
      exact ⟨b, [], hmark, .inr rfl⟩
  · simp only [List.cons_append, List.cons.injEq] at h
    rcases h with ⟨rfl, rfl, rfl, -⟩ | ⟨rfl, rfl, -⟩
    · exact ⟨c, rest, hmark, .inl rfl⟩
    · exact ⟨b, c :: rest, hmark, .inr rfl⟩

/-- Characters other than line feeds pass unchanged, unless a carriage return among them could meet a
line feed behind them. -/
theorem unfold_append_of_lf_notMem {text rest : List Char} (hlf : '\n' ∉ text)
    (hcut : '\r' ∉ text ∨ rest.head? ≠ some '\n') : unfold (text ++ rest) = text ++ unfold rest := by
  induction text with
  | nil => rfl
  | cons c text ih =>
    simp only [List.mem_cons, not_or] at hlf hcut
    have hfold : ¬ StartsFold (c :: (text ++ rest)) := by
      rintro ⟨mark, more, -, h | h⟩
      · obtain ⟨rfl, htail⟩ := List.cons.inj h
        cases text with
        | nil =>
          rcases hcut with hcr | hrest
          · exact hcr.1 rfl
          · exact hrest (congrArg List.head? htail)
        | cons d text => exact hlf.2 ((List.cons.inj htail).1 ▸ List.mem_cons_self)
      · exact hlf.1 (List.cons.inj h).1.symm
    rw [List.cons_append, unfold_cons hfold, ih hlf.2 (hcut.imp_left And.right), List.cons_append]

/-- Characters that are no line breaks pass unchanged. -/
theorem unfold_append_of_notMem {text : List Char} (hcr : '\r' ∉ text) (hlf : '\n' ∉ text)
    (rest : List Char) : unfold (text ++ rest) = text ++ unfold rest :=
  unfold_append_of_lf_notMem hlf (.inl hcr)

/-- Behind a line end a text is cut apart without a change to its unfolding, unless a space or a
tab follows. -/
theorem unfold_append {before after : List Char} (hbefore : EndsLine before)
    (hafter : StartsApart after) : unfold (before ++ after) = unfold before ++ unfold after := by
  induction before using unfold_induction with
  | nil => rfl
  | crlf mark rest hmark ih =>
    rw [List.cons_append, List.cons_append, List.cons_append, unfold_crlf_mark hmark,
      unfold_crlf_mark hmark, ih hbefore.tail.tail.tail]
  | lf mark rest hmark ih =>
    rw [List.cons_append, List.cons_append, unfold_lf_mark hmark, unfold_lf_mark hmark,
      ih hbefore.tail.tail]
  | cons c rest hfold ih =>
    have hwhole : ¬ StartsFold (c :: rest ++ after) :=
      fun h ↦ hfold (startsFold_of_append (List.cons_ne_nil c rest) hbefore hafter h)
    rw [List.cons_append] at hwhole ⊢
    rw [unfold_cons hwhole, unfold_cons hfold, ih hbefore.tail, List.cons_append]

/-- Where its unfolding is cut, the text itself can be cut, and its second part begins with no fold. -/
theorem exists_cut_of_unfold {text front back : List Char} (h : unfold text = front ++ back) :
    ∃ before rest, text = before ++ rest ∧ unfold before = front ∧ unfold rest = back ∧
      ¬ StartsFold rest := by
  induction text using unfold_induction generalizing front with
  | nil =>
    obtain ⟨rfl, rfl⟩ := List.append_eq_nil_iff.1 h.symm
    exact ⟨[], [], rfl, rfl, rfl, by simp [StartsFold]⟩
  | crlf mark rest hmark ih =>
    rw [unfold_crlf_mark hmark] at h
    obtain ⟨before, tail, rfl, hbefore, hcut⟩ := ih h
    exact ⟨'\r' :: '\n' :: mark :: before, tail, rfl, by rw [unfold_crlf_mark hmark, hbefore], hcut⟩
  | lf mark rest hmark ih =>
    rw [unfold_lf_mark hmark] at h
    obtain ⟨before, tail, rfl, hbefore, hcut⟩ := ih h
    exact ⟨'\n' :: mark :: before, tail, rfl, by rw [unfold_lf_mark hmark, hbefore], hcut⟩
  | cons c rest hfold ih =>
    cases front with
    | nil => exact ⟨[], c :: rest, rfl, rfl, h, hfold⟩
    | cons d front =>
      rw [unfold_cons hfold] at h
      obtain ⟨rfl, hrest⟩ := List.cons.inj h
      obtain ⟨before, tail, rfl, hbefore, hcut⟩ := ih hrest
      have hstart : ¬ StartsFold (c :: before) := fun hstart ↦ hfold (hstart.append tail)
      exact ⟨c :: before, tail, rfl, by rw [unfold_cons hstart, hbefore], hcut⟩

theorem Terminator.endsLine_text (terminator : Terminator) : EndsLine terminator.text := by
  cases terminator <;> simp [Terminator.text, EndsLine]

theorem unfold_terminator (terminator : Terminator) :
    unfold terminator.text = terminator.text := by
  cases terminator <;> rfl

/-- A line break and a fold mark are a fold, whichever of the two line breaks it is. -/
theorem unfold_separator_mark {separator : Terminator} (hseparator : separator ≠ .absent)
    {mark : Char} (hmark : isFoldMark mark = true) (rest : List Char) :
    unfold (separator.text ++ mark :: rest) = unfold rest := by
  cases separator with
  | crlf => exact unfold_crlf_mark hmark rest
  | lf => exact unfold_lf_mark hmark rest
  | absent => exact absurd rfl hseparator

/-- Chunks without line feeds that stand behind folds join what stands in front of them.  Carriage
returns among their characters are harmless where each fold brings its own. -/
theorem unfold_chunks {separator : Terminator} (hseparator : separator ≠ .absent)
    {first rest : List Char} {more : List (Char × List Char)}
    (hmark : ∀ line ∈ more, isFoldMark line.1 = true)
    (hlf : ∀ chunk ∈ first :: more.map Prod.snd, '\n' ∉ chunk)
    (hcr : (∀ chunk ∈ first :: more.map Prod.snd, '\r' ∉ chunk) ∨
      separator = .crlf ∧ rest.head? ≠ some '\n') :
    unfold (first ++ ((more.flatMap fun line ↦ separator.text ++ line.1 :: line.2) ++ rest)) =
      (first :: more.map Prod.snd).flatten ++ unfold rest := by
  rw [List.forall_mem_cons] at hlf hcr
  induction more generalizing first with
  | nil =>
    rw [List.flatMap_nil, List.nil_append, List.map_nil, List.flatten_singleton]
    exact unfold_append_of_lf_notMem hlf.1 (hcr.imp And.left And.right)
  | cons line more ih =>
    obtain ⟨hline, hmark⟩ := List.forall_mem_cons.1 hmark
    rw [List.map_cons, List.forall_mem_cons] at hlf hcr
    have hcut : '\r' ∉ first ∨ (separator.text ++ (line.1 :: (line.2 ++
        ((more.flatMap fun line ↦ separator.text ++ line.1 :: line.2) ++ rest)))).head? ≠
          some '\n' := by
      rcases hcr with hcr | ⟨rfl, -⟩
      · exact .inl hcr.1
      · exact .inr (by simp [Terminator.text])
    have hrest := ih hmark hlf.2 (hcr.imp_left And.right)
    calc
      _ = unfold (first ++ (separator.text ++ (line.1 :: (line.2 ++
            ((more.flatMap fun line ↦ separator.text ++ line.1 :: line.2) ++ rest))))) := by
        rw [List.flatMap_cons, List.append_assoc, List.append_assoc, List.cons_append]
      _ = first ++ unfold (line.2 ++
            ((more.flatMap fun line ↦ separator.text ++ line.1 :: line.2) ++ rest)) := by
        rw [unfold_append_of_lf_notMem hlf.1 hcut, unfold_separator_mark hseparator hline]
      _ = _ := by
        rw [hrest, List.map_cons]
        simp only [List.flatten_cons, List.append_assoc]

/-- Chunks behind folds join what stands in front of them and what stands behind. -/
theorem unfold_continuations {separator : Terminator} (hseparator : separator ≠ .absent)
    {more : List (Char × List Char)}
    (hmore : ∀ line ∈ more, isFoldMark line.1 = true ∧ '\r' ∉ line.2 ∧ '\n' ∉ line.2)
    (rest : List Char) :
    unfold ((more.flatMap fun line ↦ separator.text ++ line.1 :: line.2) ++ rest) =
      (more.map Prod.snd).flatten ++ unfold rest := by
  change unfold ([] ++ (_ ++ rest)) = ([] :: more.map Prod.snd).flatten ++ unfold rest
  refine unfold_chunks hseparator (fun line hline ↦ (hmore line hline).1) ?_ (.inl ?_)
  · simpa using fun chunk mark hmem ↦ (hmore (mark, chunk) hmem).2.2
  · simpa using fun chunk mark hmem ↦ (hmore (mark, chunk) hmem).2.1

theorem getLast?_unfold {text : List Char} (h : text.getLast? = some '\n') :
    (unfold text).getLast? = some '\n' := by
  induction text using unfold_induction with
  | nil => simp at h
  | crlf mark rest hmark ih =>
    rw [unfold_crlf_mark hmark]
    cases rest with
    | nil =>
      have hlf : mark = '\n' := by simpa using h
      simp [hlf, isFoldMark] at hmark
    | cons d rest => exact ih (by simpa [List.getLast?_cons_cons] using h)
  | lf mark rest hmark ih =>
    rw [unfold_lf_mark hmark]
    cases rest with
    | nil =>
      have hlf : mark = '\n' := by simpa using h
      simp [hlf, isFoldMark] at hmark
    | cons d rest => exact ih (by simpa [List.getLast?_cons_cons] using h)
  | cons c rest hfold ih =>
    rw [unfold_cons hfold]
    cases rest with
    | nil => simpa [unfold] using h
    | cons d rest =>
      have hrest := ih (by simpa [List.getLast?_cons_cons] using h)
      rw [List.getLast?_cons, hrest]
      rfl

/-- Unfolding keeps a line end at the end of a text. -/
theorem EndsLine.unfold {text : List Char} (h : EndsLine text) :
    EndsLine (ContentLine.unfold text) := by
  rcases h with rfl | h
  · exact endsLine_nil
  · exact .inr (getLast?_unfold h)

end CalendarCommand.ContentLine
