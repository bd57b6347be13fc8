import Mathlib.Data.List.TakeWhile
import CalendarCommand.Text.Blank

/-!
# What trimming takes away

Trimming is told by what it leaves.  Here it is told by what it takes away: the text is what trimming
leaves with nothing but blanks around it, and two texts that have the same core between blanks are trimmed
to the same.  So no character that is not blank gets lost, and a change of characters that keeps the blanks
may come before trimming or after it.
-/

namespace CalendarCommand.Text

variable {text core : List Char}

/-- The text has the core in it and nothing but blanks around the core. -/
def Encloses (text core : List Char) : Prop :=
  ∃ before after, AllBlank before ∧ AllBlank after ∧ text = before ++ core ++ after

theorem exists_trimEnd_append (text : List Char) :
    ∃ after, AllBlank after ∧ text = trimEnd text ++ after := by
  induction text with
  | nil => exact ⟨[], nofun, rfl⟩
  | cons c rest ih =>
    obtain ⟨after, hafter, hrest⟩ := ih
    cases hkept : trimEnd rest with
    | nil =>
      have hblank : AllBlank rest := (trimEnd_eq_nil_iff rest).1 hkept
      by_cases hc : isBlank c = true
      · refine ⟨c :: rest, List.forall_mem_cons.2 ⟨hc, hblank⟩, ?_⟩
        rw [trimEnd, hkept]
        simp [hc]
      · refine ⟨rest, hblank, ?_⟩
        rw [trimEnd, hkept]
        simp [hc]
    | cons d kept =>
      refine ⟨after, hafter, ?_⟩
      rw [trimEnd, hkept]
      rw [hkept] at hrest
      exact congrArg (c :: ·) hrest

/-- What trimming takes away are blanks around what it leaves. -/
theorem encloses_trim (text : List Char) : Encloses text (trim text) := by
  obtain ⟨after, hafter, hkept⟩ := exists_trimEnd_append (trimStart text)
  refine ⟨text.takeWhile isBlank, after, fun c hc ↦ List.mem_takeWhile_imp hc, hafter, ?_⟩
  calc
    text = text.takeWhile isBlank ++ trimStart text := List.takeWhile_append_dropWhile.symm
    _ = text.takeWhile isBlank ++ (trim text ++ after) := congrArg _ hkept
    _ = text.takeWhile isBlank ++ trim text ++ after := (List.append_assoc ..).symm

theorem Encloses.trim_eq (h : Encloses text core) : trim text = trim core := by
  obtain ⟨before, after, hbefore, hafter, rfl⟩ := h
  exact trim_between hbefore hafter core

/-- Trimming takes no character away that is not blank. -/
theorem count_trim {c : Char} (hc : isBlank c = false) (text : List Char) :
    (trim text).count c = text.count c := by
  have hnone {blanks : List Char} (h : AllBlank blanks) : blanks.count c = 0 :=
    List.count_eq_zero.2 fun hmem ↦ Bool.eq_false_iff.1 hc (h c hmem)
  obtain ⟨before, after, hbefore, hafter, htext⟩ := encloses_trim text
  calc
    (trim text).count c = (before ++ trim text ++ after).count c := by
      rw [List.count_append, List.count_append, hnone hbefore, hnone hafter, Nat.zero_add, Nat.add_zero]
    _ = text.count c := by rw [← htext]

/-! ## Changes of characters -/

variable {change : Char → Char}

theorem trimEnd_map (h : ∀ c, isBlank (change c) = isBlank c) (text : List Char) :
    trimEnd (text.map change) = (trimEnd text).map change := by
  induction text with
  | nil => rfl
  | cons c rest ih =>
    rw [List.map_cons, trimEnd, trimEnd, ih]
    cases trimEnd rest with
    | nil =>
      rw [List.map_nil, h]
      exact (apply_ite (List.map change) (isBlank c = true) [] [c]).symm
    | cons d kept => rfl

/-- A change of characters that keeps the blanks may come before trimming or after it. -/
theorem trim_map (h : ∀ c, isBlank (change c) = isBlank c) (text : List Char) :
    trim (text.map change) = (trim text).map change := by
  have hblank : isBlank ∘ change = isBlank := funext h
  rw [trim, trim, trimStart, List.dropWhile_map, hblank, trimEnd_map h, ← trimStart]

end CalendarCommand.Text
