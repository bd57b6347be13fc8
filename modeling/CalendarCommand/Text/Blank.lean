/-!
# Blank characters and trimming

A character is blank when it carries the Unicode property `White_Space`.  Trimming removes the
longest runs of blank characters at the two ends of a text and keeps everything between them.

The main statements say that trimming leaves a text whose ends are not blank, that trimming twice
is trimming once, and that blank text around another text does not change what is left of it.
-/

namespace CalendarCommand.Text

/-- The character carries the Unicode property `White_Space`. -/
def isBlank (c : Char) : Bool :=
  let n := c.toNat
  (9 ≤ n && n ≤ 13) || n == 0x20 || n == 0x85 || n == 0xA0 || n == 0x1680 ||
    (0x2000 ≤ n && n ≤ 0x200A) || n == 0x2028 || n == 0x2029 || n == 0x202F || n == 0x205F ||
    n == 0x3000

def trimStart (text : List Char) : List Char :=
  text.dropWhile isBlank

def trimEnd : List Char → List Char
  | [] => []
  | c :: rest =>
    match trimEnd rest with
    | [] => if isBlank c then [] else [c]
    | kept => c :: kept

/-- The text without the blank characters at its two ends. -/
def trim (text : List Char) : List Char :=
  trimEnd (trimStart text)

def trimString (text : String) : String :=
  String.ofList (trim text.toList)

def AllBlank (text : List Char) : Prop :=
  ∀ c ∈ text, isBlank c = true

/-- Neither end of the text is blank. -/
def Trimmed (text : List Char) : Prop :=
  (∀ c, text.head? = some c → isBlank c = false) ∧
    (∀ c, text.getLast? = some c → isBlank c = false)

/-! ## Laws of trimming -/

theorem trimStart_eq_self {text : List Char}
    (h : ∀ c, text.head? = some c → isBlank c = false) : trimStart text = text := by
  cases text with
  | nil => rfl
  | cons c rest => simp [trimStart, h c rfl]

theorem head_trimStart (text : List Char) (c : Char) (h : (trimStart text).head? = some c) :
    isBlank c = false := by
  have hnot := List.head?_dropWhile_not isBlank text
  unfold trimStart at h
  rw [h] at hnot
  simpa using hnot

theorem trimEnd_eq_nil_iff (text : List Char) : trimEnd text = [] ↔ AllBlank text := by
  induction text with
  | nil => simp [trimEnd, AllBlank]
  | cons c rest ih =>
    have hstep : trimEnd (c :: rest) =
        match trimEnd rest with
        | [] => if isBlank c then [] else [c]
        | kept => c :: kept := rfl
    rw [hstep]
    cases hrest : trimEnd rest with
    | nil =>
      have hblank : AllBlank rest := ih.1 hrest
      by_cases hc : isBlank c = true
      · simp only [hc, if_true, true_iff]
        intro d hd
        rcases List.mem_cons.1 hd with rfl | hd
        · exact hc
        · exact hblank d hd
      · rw [if_neg hc]
        simp only [List.cons_ne_nil, false_iff]
        intro hall
        exact hc (hall c List.mem_cons_self)
    | cons d kept =>
      simp only [reduceCtorEq, false_iff]
      intro hall
      have : trimEnd rest = [] := ih.2 fun e he => hall e (List.mem_cons_of_mem _ he)
      rw [hrest] at this
      cases this

theorem trimEnd_append_of_allBlank (text : List Char) {blanks : List Char}
    (h : AllBlank blanks) : trimEnd (text ++ blanks) = trimEnd text := by
  induction text with
  | nil => simpa [trimEnd] using (trimEnd_eq_nil_iff blanks).2 h
  | cons c rest ih => simp only [List.cons_append, trimEnd, ih]

theorem trimEnd_eq_self {text : List Char}
    (h : ∀ c, text.getLast? = some c → isBlank c = false) : trimEnd text = text := by
  induction text with
  | nil => rfl
  | cons c rest ih =>
    cases rest with
    | nil => simp [trimEnd, h c rfl]
    | cons d more =>
      have hrest : trimEnd (d :: more) = d :: more :=
        ih fun e he => h e (by simpa [List.getLast?_cons_cons] using he)
      have hstep : trimEnd (c :: d :: more) =
          match trimEnd (d :: more) with
          | [] => if isBlank c then [] else [c]
          | kept => c :: kept := rfl
      rw [hstep, hrest]

theorem getLast_trimEnd (text : List Char) (c : Char) (h : (trimEnd text).getLast? = some c) :
    isBlank c = false := by
  induction text with
  | nil => simp [trimEnd] at h
  | cons d rest ih =>
    have hstep : trimEnd (d :: rest) =
        match trimEnd rest with
        | [] => if isBlank d then [] else [d]
        | kept => d :: kept := rfl
    rw [hstep] at h
    cases hrest : trimEnd rest with
    | nil =>
      rw [hrest] at h
      by_cases hd : isBlank d = true
      · simp [hd] at h
      · simp only [hd] at h
        have hcd : d = c := by simpa using h
        rw [← hcd]
        simpa using hd
    | cons e kept =>
      rw [hrest] at h ih
      exact ih (by simpa [List.getLast?_cons_cons] using h)

theorem head_trimEnd (text : List Char) (c : Char) (h : (trimEnd text).head? = some c) :
    text.head? = some c := by
  cases text with
  | nil => simp [trimEnd] at h
  | cons d rest =>
    have hstep : trimEnd (d :: rest) =
        match trimEnd rest with
        | [] => if isBlank d then [] else [d]
        | kept => d :: kept := rfl
    rw [hstep] at h
    cases hrest : trimEnd rest with
    | nil =>
      rw [hrest] at h
      by_cases hd : isBlank d = true
      · simp [hd] at h
      · simpa [hd] using h
    | cons e kept =>
      rw [hrest] at h
      simpa using h

/-- What trimming leaves has no blank end. -/
theorem trimmed_trim (text : List Char) : Trimmed (trim text) := by
  constructor
  · intro c hc
    exact head_trimStart text c (head_trimEnd _ c hc)
  · intro c hc
    exact getLast_trimEnd _ c hc

/-- A text whose ends are not blank is left as it is. -/
theorem trim_eq_self {text : List Char} (h : Trimmed text) : trim text = text := by
  rw [trim, trimStart_eq_self h.1, trimEnd_eq_self h.2]

/-- Trimming twice is trimming once. -/
theorem trim_trim (text : List Char) : trim (trim text) = trim text :=
  trim_eq_self (trimmed_trim text)

theorem trimStart_append_of_allBlank {blanks : List Char} (h : AllBlank blanks)
    (text : List Char) : trimStart (blanks ++ text) = trimStart text := by
  induction blanks with
  | nil => rfl
  | cons c rest ih =>
    have hc : isBlank c = true := h c List.mem_cons_self
    have hrest : AllBlank rest := fun d hd => h d (List.mem_cons_of_mem _ hd)
    simpa [trimStart, hc] using ih hrest

/-- Blank text behind another text does not change what is left of it. -/
theorem trim_append_of_allBlank (text : List Char) {blanks : List Char} (h : AllBlank blanks) :
    trim (text ++ blanks) = trim text := by
  cases hstart : trimStart text with
  | nil =>
    have hblanks : trimEnd (trimStart blanks) = [] :=
      (trimEnd_eq_nil_iff _).2 fun c hc ↦ h c ((List.dropWhile_sublist isBlank).mem hc)
    have hwhole : trimStart (text ++ blanks) = trimStart blanks := by
      rw [trimStart, List.dropWhile_append, ← trimStart, hstart]
      rfl
    rw [trim, trim, hwhole, hblanks, hstart, trimEnd]
  | cons c kept =>
    have hwhole : trimStart (text ++ blanks) = trimStart text ++ blanks := by
      rw [trimStart, List.dropWhile_append, ← trimStart, hstart]
      rfl
    rw [trim, hwhole, trimEnd_append_of_allBlank _ h, trim]

/-- Blank text around another text does not change what is left of it. -/
theorem trim_between {before after : List Char} (hbefore : AllBlank before)
    (hafter : AllBlank after) (text : List Char) : trim (before ++ text ++ after) = trim text := by
  rw [List.append_assoc, trim, trimStart_append_of_allBlank hbefore, ← trim,
    trim_append_of_allBlank text hafter]

end CalendarCommand.Text
