import CalendarCommand.Component.Reader
import CalendarCommand.Proofs.ContentLine.TerminatedLines
import Mathlib.Data.List.TakeWhile

/-!
# Scanning whole lines in front of another text

What the reader takes from a text that ends a line does not depend on the text behind it, as long as
it stops inside that text.  Names, keywords and gaps stop in front of a line feed or behind it.  The
value of a property may run on: where the text in front holds no CRLF, the first CRLF of the text
behind ends the value.
-/

namespace CalendarCommand

open Scan ContentLine

variable {text rest : List Char}

/-! ## Runs of characters -/

/-- A run is cut off exactly where the first character stands that does not belong to it. -/
theorem cut_append {p : Char → Bool} {front back : List Char} (hfront : ∀ c ∈ front, p c = true)
    (hback : ∀ c, back.head? = some c → p c = false) :
    (front ++ back).takeWhile p = front ∧ (front ++ back).dropWhile p = back := by
  rw [List.takeWhile_append_of_pos hfront, List.dropWhile_append_of_pos hfront]
  cases back with
  | nil => simp
  | cons c back => simp [hback c rfl]

theorem exists_cons_dropWhile {p : Char → Bool} {c : Char} (hc : c ∈ text) (hp : p c = false) :
    ∃ d back, text.dropWhile p = d :: back ∧ p d = false := by
  have hne : text.dropWhile p ≠ [] := by
    intro hnil
    exact absurd (List.dropWhile_eq_nil_iff.1 hnil c hc) (by simp [hp])
  refine ⟨_, _, (List.cons_head_tail hne).symm, List.head_dropWhile_not p hne⟩

/-- A run that stops inside a text is the same with more text behind. -/
theorem cut_append_of_mem {p : Char → Bool} {c : Char} (hc : c ∈ text) (hp : p c = false)
    (more : List Char) :
    (text ++ more).takeWhile p = text.takeWhile p ∧
      (text ++ more).dropWhile p = text.dropWhile p ++ more := by
  obtain ⟨d, back, hback, hd⟩ := exists_cons_dropWhile hc hp
  have hfront : ∀ e ∈ text.takeWhile p, p e = true := fun e he ↦ List.mem_takeWhile_imp he
  have hstop : ∀ e, (d :: (back ++ more)).head? = some e → p e = false :=
    fun e he ↦ Option.some.inj he ▸ hd
  have hcut := cut_append hfront hstop
  have hwhole : text.takeWhile p ++ d :: (back ++ more) = text ++ more := by
    calc
      text.takeWhile p ++ d :: (back ++ more) = text.takeWhile p ++ text.dropWhile p ++ more := by
        rw [hback, List.append_assoc, List.cons_append]
      _ = text ++ more := by rw [List.takeWhile_append_dropWhile]
  rw [hwhole] at hcut
  rw [hback]
  exact hcut

/-! ## Keywords -/

theorem suffix_of_dropMatching? {agree : Char → Char → Bool} {expected : List Char}
    (h : dropMatching? agree expected text = some rest) : rest <:+ text := by
  fun_induction dropMatching? agree expected text with
  | case1 => exact Option.some.inj h ▸ List.suffix_rfl
  | case2 => exact absurd h (by simp)
  | case3 e expected c text _ ih => exact (ih h).trans (List.suffix_cons c text)
  | case4 => exact absurd h (by simp)

/-- A keyword is found in a text, or is not found there, before a line feed is reached. -/
theorem dropMatching?_append_of_mem (agree : Char → Char → Bool) {expected : List Char}
    (hagree : ∀ e ∈ expected, agree e '\n' = false) (hlf : '\n' ∈ text) (more : List Char) :
    dropMatching? agree expected (text ++ more) =
        (dropMatching? agree expected text).map (· ++ more) ∧
      ∀ rest, dropMatching? agree expected text = some rest → '\n' ∈ rest := by
  fun_induction dropMatching? agree expected text with
  | case1 text => exact ⟨rfl, fun rest h ↦ Option.some.inj h ▸ hlf⟩
  | case2 => exact absurd hlf (by simp)
  | case3 e expected c text hc ih =>
    have htext : '\n' ∈ text := by
      rcases List.mem_cons.1 hlf with rfl | htext
      · rw [hagree e List.mem_cons_self] at hc
        exact absurd hc (by simp)
      · exact htext
    rw [List.cons_append, dropMatching?, if_pos hc]
    exact ih (fun d hd ↦ hagree d (List.mem_cons_of_mem e hd)) htext
  | case4 e expected c text hc =>
    rw [List.cons_append, dropMatching?, if_neg hc]
    exact ⟨rfl, nofun⟩

/-! ## Line ends -/

theorem skipLineEnds_suffix (text : List Char) : skipLineEnds text <:+ text := by
  fun_induction skipLineEnds text with
  | case1 rest ih => exact ih.trans (List.suffix_cons '\n' rest)
  | case2 rest ih => exact ih.trans (List.suffix_append ['\r', '\n'] rest)
  | case3 => exact List.suffix_rfl

theorem skipLineEnd_suffix (text : List Char) : skipLineEnd text <:+ text := by
  unfold skipLineEnd
  split
  · exact List.suffix_cons _ _
  · exact List.suffix_append ['\r', '\n'] _
  · exact List.suffix_rfl

theorem skipLineEnds_of_ne {c : Char} (hcr : c ≠ '\r') (hlf : c ≠ '\n') (rest : List Char) :
    skipLineEnds (c :: rest) = c :: rest := by
  rw [skipLineEnds]
  · intro more h
    exact hlf (List.cons.inj h).1
  · intro more h
    exact hcr (List.cons.inj h).1

theorem skipLineEnds_skipLineEnds (text : List Char) :
    skipLineEnds (skipLineEnds text) = skipLineEnds text := by
  fun_induction skipLineEnds text with
  | case1 rest ih => exact ih
  | case2 rest ih => exact ih
  | case3 text hlf hcrlf =>
    rw [skipLineEnds]
    · exact hlf
    · exact hcrlf

theorem skipLineEnd_eq_self (h : skipLineEnds text = text) : skipLineEnd text = text := by
  unfold skipLineEnd
  split
  · rename_i rest
    have hlength := congrArg List.length h
    have hskip := length_skipLineEnds_le rest
    rw [skipLineEnds, List.length_cons] at hlength
    omega
  · rename_i rest
    have hlength := congrArg List.length h
    have hskip := length_skipLineEnds_le rest
    rw [skipLineEnds, List.length_cons, List.length_cons] at hlength
    omega
  · rfl

theorem skipLineEnds_append {more : List Char} (hcr : more.head? ≠ some '\r')
    (hlf : more.head? ≠ some '\n') (text : List Char) :
    skipLineEnds (text ++ more) = skipLineEnds text ++ more := by
  fun_induction skipLineEnds text with
  | case1 rest ih => exact ih
  | case2 rest ih => exact ih
  | case3 text hno hnocr =>
    have hstart (rest : List Char) : text ++ more ≠ '\n' :: rest := by
      intro heq
      cases text with
      | nil => exact hlf (by rw [← List.nil_append more, heq]; rfl)
      | cons c text => exact hno text (congrArg (· :: text) (List.cons.inj heq).1)
    have hstartCr (rest : List Char) : text ++ more ≠ '\r' :: '\n' :: rest := by
      intro heq
      rcases text with - | ⟨c, - | ⟨d, text⟩⟩
      · exact hcr (by rw [← List.nil_append more, heq]; rfl)
      · have hmore : more = '\n' :: rest := (List.cons.inj heq).2
        exact hlf (by rw [hmore]; rfl)
      · simp only [List.cons_append, List.cons.injEq] at heq
        exact hnocr text (by rw [heq.1, heq.2.1])
    rw [skipLineEnds]
    · exact hstart
    · exact hstartCr

theorem skipLineEnd_append (hlf : '\n' ∈ text) (more : List Char) :
    skipLineEnd (text ++ more) = skipLineEnd text ++ more := by
  rcases text with - | ⟨c, - | ⟨d, text⟩⟩
  · exact absurd hlf (by simp)
  · obtain rfl := List.mem_singleton.1 hlf
    rfl
  · simp only [List.cons_append]
    unfold skipLineEnd
    split <;> simp_all

/-! ## Values -/

theorem splitAtCrlf?_append_of_some {cut : List Char × List Char} (h : splitAtCrlf? text = some cut)
    (more : List Char) : splitAtCrlf? (text ++ more) = some (cut.1, cut.2 ++ more) := by
  fun_induction splitAtCrlf? text generalizing cut with
  | case1 => exact absurd h (by simp)
  | case2 rest =>
    rw [← Option.some.inj h]
    rfl
  | case3 c rest hcrlf ih =>
    obtain ⟨tail, htail, rfl⟩ := Option.map_eq_some_iff.1 h
    rw [List.cons_append, splitAtCrlf?, ih htail]
    · rfl
    · rintro back rfl hback
      rcases rest with - | ⟨d, rest⟩
      · exact absurd htail (by simp [splitAtCrlf?])
      · exact hcrlf rest rfl (by rw [(List.cons.inj hback).1])

/-- Where a text holds no CRLF and does not end in the middle of one, the first CRLF is that of the
text behind. -/
theorem splitAtCrlf?_append_of_none (h : splitAtCrlf? text = none)
    (hlast : text.getLast? ≠ some '\r') (more : List Char) :
    splitAtCrlf? (text ++ more) =
      (splitAtCrlf? more).map fun cut ↦ (text ++ cut.1, cut.2) := by
  fun_induction splitAtCrlf? text with
  | case1 => simp
  | case2 => exact absurd h (by simp)
  | case3 c rest hcrlf ih =>
    have hrest : rest.getLast? ≠ some '\r' := by
      intro hrest
      rw [List.getLast?_cons, hrest] at hlast
      exact hlast rfl
    rw [List.cons_append, splitAtCrlf?, ih (Option.map_eq_none_iff.1 h) hrest, Option.map_map]
    · rfl
    · rintro back rfl hback
      cases rest with
      | nil => exact hlast rfl
      | cons d rest => exact hcrlf rest rfl (by rw [(List.cons.inj hback).1])

theorem splitAtCrlf?_eq_some {value : List Char} (h : splitAtCrlf? text = some (value, rest)) :
    text = value ++ rest ∧ '\n' ∈ rest := by
  fun_induction splitAtCrlf? text generalizing value with
  | case1 => exact absurd h (by simp)
  | case2 tail =>
    obtain ⟨rfl, rfl⟩ := Prod.mk.inj (Option.some.inj h)
    simp
  | case3 c tail hcrlf ih =>
    obtain ⟨cut, hcut, heq⟩ := Option.map_eq_some_iff.1 h
    obtain ⟨rfl, rfl⟩ := Prod.mk.inj heq
    obtain ⟨htail, hlf⟩ := ih hcut
    exact ⟨by rw [htail, List.cons_append], hlf⟩

theorem readValue_suffix (text : List Char) : (readValue text).2 <:+ text := by
  unfold readValue
  split
  · rename_i cut hcut
    exact ⟨cut.1, (splitAtCrlf?_eq_some hcut).1.symm⟩
  · exact List.dropWhile_suffix _

theorem splitAtCrlf?_append_of_breakFree {line : List Char} (hline : BreakFree line)
    (more : List Char) :
    splitAtCrlf? (line ++ more) = (splitAtCrlf? more).map fun cut ↦ (line ++ cut.1, cut.2) := by
  have hnone : splitAtCrlf? line = none := by
    cases hcut : splitAtCrlf? line with
    | none => rfl
    | some cut =>
      obtain ⟨heq, hlf⟩ := splitAtCrlf?_eq_some hcut
      rw [heq] at hline
      exact absurd (List.mem_append_right cut.1 hlf) hline.2
  exact splitAtCrlf?_append_of_none hnone hline.getLast?_ne_cr more

/-- Characters that are no line breaks are part of the value that they begin. -/
theorem readValue_append {line : List Char} (hline : BreakFree line) (more : List Char) :
    readValue (line ++ more) = (line ++ (readValue more).1, (readValue more).2) := by
  have hall : ∀ c ∈ line, (c != '\n') = true := by
    intro c hc
    rw [bne_iff_ne]
    exact fun h ↦ hline.2 (h ▸ hc)
  rw [readValue, readValue, splitAtCrlf?_append_of_breakFree hline]
  cases splitAtCrlf? more with
  | some cut => rfl
  | none =>
    simp only [Option.map_none]
    rw [List.takeWhile_append_of_pos hall, List.dropWhile_append_of_pos hall]

/-- A terminator ends the value in front of it, whatever of the text comes behind. -/
def EndsValue (terminator : Terminator) (rest : List Char) : Prop :=
  terminator = .crlf ∨ terminator = .lf ∧ hasCrlf rest = false

theorem splitAtCrlf?_eq_none_iff : splitAtCrlf? text = none ↔ hasCrlf text = false := by
  fun_induction splitAtCrlf? text with
  | case1 => simp [hasCrlf]
  | case2 => simp [hasCrlf]
  | case3 c rest hcrlf ih =>
    rw [hasCrlf, Option.map_eq_none_iff, ih]
    exact hcrlf

theorem EndsValue.readValue {terminator : Terminator} (h : EndsValue terminator rest) :
    readValue (terminator.text ++ rest) = ([], terminator.text ++ rest) := by
  rcases h with rfl | ⟨rfl, hrest⟩
  · rfl
  · have hnone : splitAtCrlf? ('\n' :: rest) = none := by
      rw [splitAtCrlf?_eq_none_iff, hasCrlf, hrest]
      simp
    rw [CalendarCommand.readValue, Terminator.text, List.singleton_append, hnone]
    rfl

/-- A value that its terminator does not end runs on over it. -/
theorem lf_mem_readValue {terminator : Terminator} (hterminator : terminator ≠ .absent)
    (h : ¬ EndsValue terminator rest) : '\n' ∈ (readValue (terminator.text ++ rest)).1 := by
  cases terminator with
  | absent => exact absurd rfl hterminator
  | crlf => exact absurd (.inl rfl) h
  | lf =>
    cases hcut : splitAtCrlf? rest with
    | none => exact absurd (.inr ⟨rfl, splitAtCrlf?_eq_none_iff.1 hcut⟩) h
    | some cut =>
      have hwhole : splitAtCrlf? ('\n' :: rest) = some ('\n' :: cut.1, cut.2) := by
        rw [splitAtCrlf?, hcut]
        · rfl
        · simp
      rw [readValue, Terminator.text, List.singleton_append, hwhole]
      exact List.mem_cons_self

/-- A value that begins in a text of whole lines ends there, whatever line stands behind, or it runs
on over any such line to the same place. -/
theorem readValue_local_or_runs (h : EndsLine text) (hne : text ≠ []) (tail : List Char) :
    (∃ value rest, rest <:+ text ∧ '\n' ∈ rest ∧ ∀ line, BreakFree line →
      readValue (text ++ (line ++ tail)) = (value, rest ++ (line ++ tail))) ∨
    ∀ line, BreakFree line → readValue (text ++ (line ++ tail)) =
      (text ++ (line ++ (readValue tail).1), (readValue tail).2) := by
  have hlf := h.mem_of_ne_nil hne
  cases hcut : splitAtCrlf? text with
  | some cut =>
    obtain ⟨heq, hrest⟩ := splitAtCrlf?_eq_some hcut
    refine .inl ⟨cut.1, cut.2, ⟨cut.1, heq.symm⟩, hrest, fun line _ ↦ ?_⟩
    rw [readValue, splitAtCrlf?_append_of_some hcut]
  | none =>
    have hlast : text.getLast? ≠ some '\r' := by
      rw [h.resolve_left hne]
      decide
    have hwhole (line : List Char) (hline : BreakFree line) :
        splitAtCrlf? (text ++ (line ++ tail)) =
          (splitAtCrlf? tail).map fun cut ↦ (text ++ (line ++ cut.1), cut.2) := by
      rw [splitAtCrlf?_append_of_none hcut hlast, splitAtCrlf?_append_of_breakFree hline,
        Option.map_map]
      rfl
    cases htail : splitAtCrlf? tail with
    | some cut =>
      refine .inr fun line hline ↦ ?_
      have hread : readValue tail = cut := by rw [readValue, htail]
      rw [readValue, hwhole line hline, htail, hread]
      rfl
    | none =>
      have hstop : ('\n' != '\n') = false := rfl
      obtain ⟨d, back, hback, hd⟩ := exists_cons_dropWhile (p := (· != '\n')) hlf hstop
      refine .inl ⟨text.takeWhile (· != '\n'), text.dropWhile (· != '\n'),
        List.dropWhile_suffix _, ?_, fun line hline ↦ ?_⟩
      · rw [hback]
        exact (by simpa using hd : d = '\n') ▸ List.mem_cons_self
      · obtain ⟨htake, hdrop⟩ := cut_append_of_mem (p := (· != '\n')) hlf hstop (line ++ tail)
        rw [readValue, hwhole line hline, htail]
        simp only [Option.map_none]
        rw [htake, hdrop]

end CalendarCommand
