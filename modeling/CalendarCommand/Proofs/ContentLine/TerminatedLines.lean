import CalendarCommand.Proofs.ContentLine.Unfolding

/-!
# Texts with one terminator

Lines without line breaks that are all ended by one terminator are the physical lines of their
text.  Where no line begins with a space or a tab, they are its logical lines too.
-/

namespace CalendarCommand.ContentLine

variable {terminator : Terminator} {lines : List (List Char)}

/-- The text holds no line break. -/
def BreakFree (text : List Char) : Prop :=
  '\r' ∉ text ∧ '\n' ∉ text

instance (text : List Char) : Decidable (BreakFree text) :=
  inferInstanceAs (Decidable (_ ∧ _))

/-- The text of lines that all end with one terminator. -/
def terminated (terminator : Terminator) (lines : List (List Char)) : List Char :=
  lines.flatMap fun line ↦ line ++ terminator.text

theorem terminated_cons (line : List Char) :
    terminated terminator (line :: lines) =
      line ++ (terminator.text ++ terminated terminator lines) := by
  rw [terminated, List.flatMap_cons, List.append_assoc]
  rfl

theorem terminated_append (more : List (List Char)) :
    terminated terminator (lines ++ more) =
      terminated terminator lines ++ terminated terminator more :=
  List.flatMap_append

theorem BreakFree.append {a b : List Char} (ha : BreakFree a) (hb : BreakFree b) :
    BreakFree (a ++ b) := by
  simp [BreakFree, ha.1, ha.2, hb.1, hb.2]

theorem BreakFree.getLast?_ne_cr {line : List Char} (h : BreakFree line) :
    line.getLast? ≠ some '\r' :=
  fun hlast ↦ h.1 (List.mem_of_getLast? hlast)

/-- A line with its terminator is one physical line. -/
theorem physicalLines_terminator (hterminator : terminator ≠ .absent) {line : List Char}
    (hline : '\n' ∉ line) (rest : List Char) :
    physicalLines (line ++ (terminator.text ++ rest)) =
      (line ++ terminator.text) :: physicalLines rest := by
  cases terminator with
  | absent => exact absurd rfl hterminator
  | lf => exact physicalLines_line hline rest
  | crlf =>
    have hcr : '\n' ∉ line ++ ['\r'] := by simp [hline]
    have hlines := physicalLines_line hcr rest
    rw [List.append_assoc, List.append_assoc] at hlines
    exact hlines

/-- A line that is not empty is one physical line, whether a terminator follows or none. -/
theorem physicalLines_line_terminator {line : List Char} (hline : '\n' ∉ line) (hne : line ≠ []) :
    physicalLines (line ++ terminator.text) = [line ++ terminator.text] := by
  by_cases hterminator : terminator = .absent
  · rw [hterminator, Terminator.text, List.append_nil]
    exact physicalLines_unterminated hline hne
  · have hlines := physicalLines_terminator hterminator hline []
    rw [List.append_nil] at hlines
    exact hlines

theorem physicalLines_terminated (hterminator : terminator ≠ .absent)
    (hlines : ∀ line ∈ lines, BreakFree line) :
    physicalLines (terminated terminator lines) = lines.map fun line ↦ line ++ terminator.text := by
  induction lines with
  | nil => rfl
  | cons line lines ih =>
    have hline := hlines line List.mem_cons_self
    rw [terminated_cons, physicalLines_terminator hterminator hline.2,
      ih fun other hother ↦ hlines other (List.mem_cons_of_mem _ hother), List.map_cons]

theorem endsLine_terminator {line : List Char} (hterminator : terminator ≠ .absent) :
    EndsLine (line ++ terminator.text) := by
  cases terminator with
  | absent => exact absurd rfl hterminator
  | lf => exact endsLine_append_lf line
  | crlf => exact .inr (by simp [Terminator.text])

theorem endsLine_terminated (hterminator : terminator ≠ .absent) :
    EndsLine (terminated terminator lines) := by
  induction lines with
  | nil => exact endsLine_nil
  | cons line lines ih =>
    rw [terminated_cons, ← List.append_assoc]
    exact (endsLine_terminator hterminator).append ih

theorem cr_notMem_terminated (hlines : ∀ line ∈ lines, BreakFree line) :
    '\r' ∉ terminated .lf lines := by
  rw [terminated, List.mem_flatMap]
  rintro ⟨line, hline, hcr⟩
  have hfree := hlines line hline
  simp [Terminator.text, hfree.1] at hcr

theorem terminator_line {line : List Char} (hline : BreakFree line) :
    ContentLine.terminator (line ++ terminator.text) = terminator := by
  cases terminator with
  | absent =>
    rw [Terminator.text, List.append_nil]
    exact terminator_eq_absent fun h ↦ hline.2 (List.mem_of_getLast? h)
  | crlf => exact terminator_crlf line
  | lf => exact terminator_lf hline.getLast?_ne_cr

/-- A line with its terminator passes unchanged, unless a continuation follows. -/
theorem unfold_line {line rest : List Char} (hline : BreakFree line) (hrest : StartsApart rest) :
    unfold (line ++ (terminator.text ++ rest)) = line ++ (terminator.text ++ unfold rest) := by
  rw [unfold_append_of_notMem hline.1 hline.2,
    unfold_append (Terminator.endsLine_text terminator) hrest, unfold_terminator]

/-- Lines that begin with other characters than a space and a tab pass unchanged. -/
theorem unfold_terminated {rest : List Char} (hlines : ∀ line ∈ lines, BreakFree line)
    (hapart : ∀ line ∈ lines, line ≠ [] ∧ StartsApart line) (hrest : StartsApart rest) :
    unfold (terminated terminator lines ++ rest) =
        terminated terminator lines ++ unfold rest ∧
      StartsApart (terminated terminator lines ++ rest) := by
  induction lines with
  | nil => exact ⟨rfl, hrest⟩
  | cons line lines ih =>
    have hmore := ih (fun other hother ↦ hlines other (List.mem_cons_of_mem _ hother))
      (fun other hother ↦ hapart other (List.mem_cons_of_mem _ hother))
    have hline := hapart line List.mem_cons_self
    rw [terminated_cons, List.append_assoc, List.append_assoc]
    constructor
    · rw [unfold_line (hlines line List.mem_cons_self) hmore.2, hmore.1, List.append_assoc,
        List.append_assoc]
    · obtain ⟨c, front, rfl⟩ := List.exists_cons_of_ne_nil hline.1
      intro d hd
      exact hline.2 d hd

end CalendarCommand.ContentLine
