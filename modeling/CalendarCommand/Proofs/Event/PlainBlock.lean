import CalendarCommand.Event.Reader
import CalendarCommand.Proofs.Component.WrittenTree
import CalendarCommand.Proofs.ContentLine.PiecewiseUnfolding
import CalendarCommand.Proofs.ContentLine.SpliceUnfolding
import CalendarCommand.Proofs.ContentLine.TerminatedLines

/-!
# Plain blocks

A plain block is a calendar text of the simplest shape that a command can be stored in: one event
with one DESCRIPTION, plain property lines around it, and one terminator throughout.  Only the
DESCRIPTION may be folded.

Reading a plain block cannot fail.  A splice of a plain block, wide enough for the name of the
property, is a plain block again; only its DESCRIPTION is another one.
-/

namespace CalendarCommand

open Scan ContentLine

/-- A plain property line; its name is neither a mark nor the name of the DESCRIPTION. -/
structure PlainLine where
  name : List Char
  value : List Char
  name_plain : IsPlainName name
  name_free : name ≠ "BEGIN".toList ∧ name ≠ "END".toList ∧ name ≠ descriptionName
  value_free : BreakFree value

def PlainLine.property (line : PlainLine) : Property :=
  { name := line.name, parameters := [], value := line.value }

/-- A calendar with one event and one DESCRIPTION in it, whose value is cut into a first chunk and
further ones, each behind a fold mark of its own. -/
structure PlainBlock where
  terminator : Terminator
  calendar : List PlainLine
  before : List PlainLine
  first : List Char
  more : List (Char × List Char)
  after : List PlainLine
  terminator_ne : terminator ≠ .absent
  first_free : BreakFree first
  more_free : ∀ line ∈ more, isFoldMark line.1 = true ∧ BreakFree line.2

def plainLines (lines : List PlainLine) : List (List Char) :=
  lines.map fun line ↦ line.property.logicalLine

namespace PlainBlock

def value (block : PlainBlock) : List Char :=
  block.first ++ (block.more.map Prod.snd).flatten

/-- The lines in front of the DESCRIPTION. -/
def opening (block : PlainBlock) : List (List Char) :=
  "BEGIN:VCALENDAR".toList :: (plainLines block.calendar ++
    "BEGIN:VEVENT".toList :: plainLines block.before)

def folded (block : PlainBlock) : List (List Char) :=
  (descriptionName ++ ':' :: block.first) :: block.more.map fun line ↦ line.1 :: line.2

/-- The lines behind the DESCRIPTION. -/
def closing (block : PlainBlock) : List (List Char) :=
  plainLines block.after ++ ["END:VEVENT".toList, "END:VCALENDAR".toList]

def text (block : PlainBlock) : List Char :=
  terminated block.terminator block.opening ++ terminated block.terminator block.folded ++
    terminated block.terminator block.closing

/-- The two blocks differ in their DESCRIPTION only. -/
def SameAround (block other : PlainBlock) : Prop :=
  other.terminator = block.terminator ∧ other.calendar = block.calendar ∧
    other.before = block.before ∧ other.after = block.after

end PlainBlock

/-! ## Plain lines and the DESCRIPTION -/

/-- The line holds a plain name, which is not that of the DESCRIPTION, and a value. -/
def IsPlainLine (line : List Char) : Prop :=
  ∃ name value, IsPlainName name ∧ name ≠ descriptionName ∧ BreakFree value ∧
    line = name ++ ':' :: value

theorem IsPlainLine.isLogical {line : List Char} (h : IsPlainLine line) : IsLogical line := by
  obtain ⟨name, value, hname, -, hvalue, hline⟩ := h
  exact IsNamedLine.isLogical ⟨name, value, hname, hvalue, hline⟩

theorem startsApart_nil : StartsApart [] := nofun

/-- Plain lines with their terminators pass unchanged. -/
theorem unfold_plain (terminator : Terminator) {lines : List (List Char)} {rest : List Char}
    (hlines : ∀ line ∈ lines, IsPlainLine line) (hrest : StartsApart rest) :
    unfold (terminated terminator lines ++ rest) = terminated terminator lines ++ unfold rest ∧
      StartsApart (terminated terminator lines ++ rest) :=
  unfold_terminated (fun line hline ↦ (hlines line hline).isLogical.breakFree)
    (fun line hline ↦
      ⟨(hlines line hline).isLogical.ne_nil, (hlines line hline).isLogical.startsApart⟩) hrest

/-- Two plain names with a delimiter behind them agree as soon as one text is a start of the
other. -/
theorem eq_of_prefix_plain {word name rest : List Char} {mark : Char}
    (hword : ∀ c ∈ word, isPlainNameChar c = true) (hname : ∀ c ∈ name, isPlainNameChar c = true)
    (hmark : isPlainNameChar mark = false) (h : (word ++ [mark]) <+: (name ++ ':' :: rest)) :
    name = word := by
  induction word generalizing name with
  | nil =>
    cases name with
    | nil => rfl
    | cons c name =>
      obtain ⟨rfl, -⟩ := List.cons_prefix_cons.1 h
      exact absurd (hname mark List.mem_cons_self) (by simp [hmark])
  | cons d word ih =>
    cases name with
    | nil =>
      obtain ⟨rfl, -⟩ := List.cons_prefix_cons.1 h
      exact absurd (hword ':' List.mem_cons_self) (by decide)
    | cons c name =>
      obtain ⟨rfl, htail⟩ := List.cons_prefix_cons.1 h
      rw [ih (fun a ha ↦ hword a (List.mem_cons_of_mem _ ha))
        (fun a ha ↦ hname a (List.mem_cons_of_mem _ ha)) htail]

theorem IsPlainLine.not_opens {line : List Char} (h : IsPlainLine line) (rest : List Char) :
    opensProperty descriptionName (line ++ rest) = false := by
  obtain ⟨name, value, hname, hne, -, rfl⟩ := h
  rw [← Bool.not_eq_true, ← opensDescription_iff, List.append_assoc, List.cons_append]
  rintro (h | h)
  · exact hne (eq_of_prefix_plain (by decide) hname.2 (by decide) h)
  · exact hne (eq_of_prefix_plain (by decide) hname.2 (by decide) h)

theorem isPlainLine_plainLines {lines : List PlainLine} :
    ∀ line ∈ plainLines lines, IsPlainLine line := by
  intro line hline
  obtain ⟨plain, -, rfl⟩ := List.mem_map.1 hline
  exact ⟨plain.name, plain.value, plain.name_plain, plain.name_free.2.2, plain.value_free, rfl⟩

/-- Chunks on lines of their own, the first one behind `lead`. -/
theorem terminated_folded (terminator : Terminator) (lead : List Char)
    (more : List (Char × List Char)) :
    terminated terminator (lead :: more.map fun line ↦ line.1 :: line.2) =
      lead ++ ((more.flatMap fun line ↦ terminator.text ++ line.1 :: line.2) ++
        terminator.text) := by
  induction more generalizing lead with
  | nil => simp [terminated]
  | cons line more ih =>
    rw [List.map_cons, terminated_cons, ih, List.flatMap_cons]
    simp

/-! ## Reading plain lines -/

def plainItems (lines : List PlainLine) : List Item :=
  lines.map fun line ↦ .property line.property

theorem isPlain_plainItems {lines : List PlainLine} : ∀ item ∈ plainItems lines, item.IsPlain := by
  intro item hitem
  obtain ⟨line, -, rfl⟩ := List.mem_map.1 hitem
  exact .property ⟨line.name_plain, ⟨line.name_free.1, line.name_free.2.1⟩, rfl, line.value_free⟩

theorem logicalLinesOf_plainItems (lines : List PlainLine) :
    logicalLinesOf (plainItems lines) = plainLines lines := by
  rw [logicalLinesOf_eq, plainItems, plainLines, List.flatMap_map, List.map_eq_flatMap]
  rfl

namespace PlainBlock

variable (block : PlainBlock)

theorem isPlainLine_opening : ∀ line ∈ block.opening, IsPlainLine line := by
  have hmark (name : String) (hname : BreakFree name.toList) :
      IsPlainLine ("BEGIN:".toList ++ name.toList) :=
    ⟨"BEGIN".toList, name.toList, by decide, by decide, hname, rfl⟩
  intro line hline
  simp only [opening, List.mem_cons, List.mem_append] at hline
  rcases hline with rfl | hline | rfl | hline
  · exact hmark "VCALENDAR" (by decide)
  · exact isPlainLine_plainLines line hline
  · exact hmark "VEVENT" (by decide)
  · exact isPlainLine_plainLines line hline

theorem isPlainLine_closing : ∀ line ∈ block.closing, IsPlainLine line := by
  have hmark (name : String) (hname : BreakFree name.toList) :
      IsPlainLine ("END:".toList ++ name.toList) :=
    ⟨"END".toList, name.toList, by decide, by decide, hname, rfl⟩
  intro line hline
  simp only [closing, List.mem_cons, List.mem_append, List.not_mem_nil, or_false] at hline
  rcases hline with hline | rfl | rfl
  · exact isPlainLine_plainLines line hline
  · exact hmark "VEVENT" (by decide)
  · exact hmark "VCALENDAR" (by decide)

theorem breakFree_folded : ∀ line ∈ block.folded, BreakFree line := by
  intro line hline
  rcases List.mem_cons.1 hline with rfl | hline
  · have hname : BreakFree (descriptionName ++ [':']) := by decide
    have hfirst := hname.append block.first_free
    rwa [List.append_assoc] at hfirst
  · obtain ⟨chunk, hchunk, rfl⟩ := List.mem_map.1 hline
    obtain ⟨hmark, hfree⟩ := block.more_free chunk hchunk
    have hbreak : BreakFree [chunk.1] := by
      rcases isFoldMark_iff.1 hmark with h | h <;>
        · rw [h]
          decide
    exact hbreak.append hfree

theorem breakFree_value : BreakFree block.value := by
  have hmore : BreakFree (block.more.map Prod.snd).flatten := by
    constructor <;>
      · simp only [List.mem_flatten, List.mem_map, not_exists, not_and]
        rintro - ⟨chunk, hchunk, rfl⟩
        first
        | exact (block.more_free chunk hchunk).2.1
        | exact (block.more_free chunk hchunk).2.2
  exact block.first_free.append hmore

theorem startsApart_closing : StartsApart (terminated block.terminator block.closing) := by
  have h := (unfold_plain block.terminator block.isPlainLine_closing startsApart_nil).2
  rwa [List.append_nil] at h

/-- The lines of a plain block in front of its DESCRIPTION, the DESCRIPTION and the lines behind it
are the frame of a splice. -/
theorem frame : DescriptionFrame block.text (terminated block.terminator block.opening)
    (terminated block.terminator block.folded) (terminated block.terminator block.closing) := by
  have hopening : ∀ line ∈ block.opening, BreakFree line :=
    fun line hline ↦ (block.isPlainLine_opening line hline).isLogical.breakFree
  refine ⟨rfl, endsLine_terminated block.terminator_ne, ?_, ?_, ?_, .inr ⟨?_, ?_⟩⟩
  · rw [hasDescriptionLine_iff, physicalLines_terminated block.terminator_ne hopening]
    rintro ⟨line, hline, hopens⟩
    obtain ⟨logical, hlogical, rfl⟩ := List.mem_map.1 hline
    rw [(block.isPlainLine_opening logical hlogical).not_opens] at hopens
    exact absurd hopens (by decide)
  · have hopens : OpensDescription (descriptionName ++ ':' :: block.first) :=
      .inl ⟨block.first, by simp⟩
    rw [folded, terminated_folded]
    exact hopens.append _
  · refine folded_of_tail_isContinuation ?_
    rw [physicalLines_terminated block.terminator_ne block.breakFree_folded, folded, List.map_cons,
      List.tail_cons, List.map_map]
    intro line hline
    obtain ⟨chunk, hchunk, rfl⟩ := List.mem_map.1 hline
    exact (block.more_free chunk hchunk).1
  · rw [folded, terminated_folded, ← List.append_assoc]
    exact (endsLine_terminator block.terminator_ne).resolve_left (by simp)
  · cases hclosing : terminated block.terminator block.closing with
    | nil => simp [closing, terminated_append, terminated_cons] at hclosing
    | cons c more => exact ⟨c, more, rfl, block.startsApart_closing c (by rw [hclosing]; rfl)⟩

/-- A plain block unfolds to its lines with the DESCRIPTION on one line. -/
theorem unfold_text : unfold block.text = terminated block.terminator
    (block.opening ++ (descriptionName ++ ':' :: block.value) :: block.closing) := by
  have hopening := (unfold_plain block.terminator block.isPlainLine_opening startsApart_nil).1
  have hclosing := (unfold_plain block.terminator block.isPlainLine_closing startsApart_nil).1
  have hfirst : BreakFree (descriptionName ++ ':' :: block.first) :=
    block.breakFree_folded _ List.mem_cons_self
  have hfolded : unfold (terminated block.terminator block.folded) =
      descriptionName ++ ':' :: block.value ++ block.terminator.text := by
    rw [folded, terminated_folded, unfold_append_of_notMem hfirst.1 hfirst.2,
      unfold_continuations block.terminator_ne block.more_free, unfold_terminator, value]
    simp
  simp only [List.append_nil, unfold] at hopening hclosing
  rw [block.frame.unfold_text, hopening, hclosing, hfolded, terminated_append, terminated_cons]
  simp

/-! ## Reading a plain block -/

def description : Property :=
  { name := descriptionName, parameters := [], value := block.value }

def items : List Item :=
  plainItems block.before ++ .property block.description :: plainItems block.after

def component : Component :=
  { name := "VCALENDAR".toList
    items := plainItems block.calendar ++ [.component "VEVENT".toList block.items] }

theorem isPlain_description : block.description.IsPlain where
  name_plain := show IsPlainName descriptionName by decide
  name_free := show descriptionName ≠ "BEGIN".toList ∧ descriptionName ≠ "END".toList by decide
  parameters_eq := rfl
  value_free := block.breakFree_value

theorem isPlain_items : ∀ item ∈ block.items, item.IsPlain := by
  intro item hitem
  rw [items, List.mem_append, List.mem_cons] at hitem
  rcases hitem with hitem | rfl | hitem
  · exact isPlain_plainItems item hitem
  · exact .property block.isPlain_description
  · exact isPlain_plainItems item hitem

theorem isPlain_component : block.component.toItem.IsPlain := by
  have hroot : IsPlainName "VCALENDAR".toList := by decide
  have hevent : IsPlainName "VEVENT".toList := by decide
  refine Item.IsPlain.component hroot fun item hitem ↦ ?_
  rcases List.mem_append.1 hitem with hitem | hitem
  · exact isPlain_plainItems item hitem
  · rw [List.mem_singleton.1 hitem]
    exact .component hevent block.isPlain_items

theorem logicalLinesOf_items : logicalLinesOf block.items = plainLines block.before ++
    (descriptionName ++ ':' :: block.value) :: plainLines block.after := by
  rw [items, logicalLinesOf_append, logicalLinesOf, logicalLinesOf_plainItems,
    logicalLinesOf_plainItems]
  rfl

theorem logicalLines_event : (Item.component "VEVENT".toList block.items).logicalLines =
    "BEGIN:VEVENT".toList :: plainLines block.before ++
      (descriptionName ++ ':' :: block.value) :: plainLines block.after ++
        ["END:VEVENT".toList] := by
  have hmarks : "BEGIN:".toList ++ "VEVENT".toList = "BEGIN:VEVENT".toList ∧
      "END:".toList ++ "VEVENT".toList = "END:VEVENT".toList := ⟨rfl, rfl⟩
  rw [Item.logicalLines, logicalLinesOf_items, hmarks.1, hmarks.2]
  simp only [List.cons_append, List.append_assoc]

/-- The logical lines of a plain block are those of its component. -/
theorem logicalLines_component : block.component.logicalLines =
    block.opening ++ (descriptionName ++ ':' :: block.value) :: block.closing := by
  have hmarks : "BEGIN:".toList ++ "VCALENDAR".toList = "BEGIN:VCALENDAR".toList ∧
      "END:".toList ++ "VCALENDAR".toList = "END:VCALENDAR".toList := ⟨rfl, rfl⟩
  have hitems : logicalLinesOf block.component.items = plainLines block.calendar ++
      (Item.component "VEVENT".toList block.items).logicalLines := by
    have hcomponent : block.component.items =
        plainItems block.calendar ++ [.component "VEVENT".toList block.items] := rfl
    rw [hcomponent, logicalLinesOf_append, logicalLinesOf_plainItems, logicalLinesOf_eq [_],
      List.flatMap_singleton]
  have hname : block.component.name = "VCALENDAR".toList := rfl
  rw [Component.logicalLines, Component.toItem, Item.logicalLines, hitems, hname, hmarks.1,
    hmarks.2, block.logicalLines_event, opening, closing]
  simp only [List.cons_append, List.append_assoc, List.nil_append]

/-- Reading a plain block yields its component. -/
theorem ofText?_unfold : Component.ofText? (unfold block.text) = some block.component := by
  rw [block.unfold_text, ← block.logicalLines_component]
  exact Component.ofText?_terminated block.terminator_ne block.isPlain_component

/-! ## The event of a plain block -/

def event : Event :=
  Event.ofComponent { name := "VEVENT".toList, items := block.items }

theorem children_plainItems (lines : List PlainLine) (items : List Item) (name : List Char) :
    Component.children { name, items := plainItems lines ++ items } =
      Component.children { name, items } := by
  induction lines with
  | nil => rfl
  | cons line lines ih => exact ih

theorem properties_plainItems (lines : List PlainLine) (items : List Item) (name : List Char) :
    Component.properties { name, items := plainItems lines ++ items } =
      lines.map PlainLine.property ++ Component.properties { name, items } := by
  induction lines with
  | nil => rfl
  | cons line lines ih =>
    rw [List.map_cons, List.cons_append, ← ih]
    rfl

theorem properties_items : Component.properties { name := "VEVENT".toList, items := block.items } =
    block.before.map PlainLine.property ++ block.description ::
      block.after.map PlainLine.property := by
  have hafter := properties_plainItems block.after [] "VEVENT".toList
  rw [List.append_nil] at hafter
  rw [items, properties_plainItems]
  refine congrArg (_ ++ block.description :: ·) ?_
  rw [← List.append_nil (block.after.map PlainLine.property)]
  exact hafter

/-- Reading a plain block cannot fail. -/
theorem ofText_text : Event.ofText (String.ofList block.text) = .ok block.event := by
  have hevent : block.component.event? =
      some { name := "VEVENT".toList, items := block.items } := by
    have hname : block.component.name = "VCALENDAR".toList := rfl
    have hchildren : block.component.children =
        [{ name := "VEVENT".toList, items := block.items }] :=
      children_plainItems block.calendar _ "VCALENDAR".toList
    rw [Component.event?, Component.candidates, if_pos hname, hchildren]
    exact List.find?_cons_of_pos (beq_self_eq_true "VEVENT".toList)
  rw [Event.ofText, String.toList_ofList, unfoldPiecewise_eq_unfold, block.ofText?_unfold]
  dsimp only
  rw [hevent]
  rfl

theorem event_narrative : block.event.narrative =
    some (String.ofList (unescape (unescapeWith Property.isValueMark block.value))) := by
  have hbefore : (block.before.map PlainLine.property).find?
      (fun property ↦ property.name == "DESCRIPTION".toList) = none := by
    rw [List.find?_eq_none]
    intro property hproperty
    obtain ⟨line, -, rfl⟩ := List.mem_map.1 hproperty
    rw [beq_iff_eq]
    exact line.name_free.2.2
  have hproperty : Component.property? { name := "VEVENT".toList, items := block.items }
      "DESCRIPTION" = some block.description := by
    rw [Component.property?, properties_items, List.find?_append, hbefore, Option.none_or]
    exact List.find?_cons_of_pos (by rfl)
  rw [event, Event.ofComponent]
  simp only [hproperty, Option.map_some]
  rfl

/-- The class and the summary of an event stand around its DESCRIPTION. -/
theorem event_of_sameAround {other : PlainBlock} (h : block.SameAround other) :
    other.event = { block.event with narrative := other.event.narrative } := by
  obtain ⟨-, -, hbefore, hafter⟩ := h
  have hproperty (name : String) (hname : name.toList ≠ descriptionName) :
      Component.property? { name := "VEVENT".toList, items := other.items } name =
        Component.property? { name := "VEVENT".toList, items := block.items } name := by
    have hskip (block : PlainBlock) : (block.description.name == name.toList) = false := by
      simpa [description] using hname.symm
    simp only [Component.property?, properties_items, List.find?_append, hbefore, hafter]
    rw [List.find?_cons_of_neg (by simp [hskip]), List.find?_cons_of_neg (by simp [hskip])]
  simp only [event, Event.ofComponent, hproperty "CLASS" (by decide),
    hproperty "SUMMARY" (by decide)]

/-! ## The splice of a plain block -/

theorem openingTerminator_folded :
    openingTerminator (terminated block.terminator block.folded) = block.terminator := by
  have hfirst := block.breakFree_folded _ List.mem_cons_self
  rw [openingTerminator, physicalLines_terminated block.terminator_ne block.breakFree_folded]
  exact terminator_line hfirst

theorem closingTerminator_folded :
    closingTerminator (terminated block.terminator block.folded) = block.terminator := by
  obtain ⟨lead, last, hlines⟩ : ∃ lead last, block.folded = lead ++ [last] :=
    ⟨_, _, (List.dropLast_append_getLast (List.cons_ne_nil _ _)).symm⟩
  have hlast := block.breakFree_folded last (by simp [hlines])
  rw [closingTerminator, physicalLines_terminated block.terminator_ne block.breakFree_folded,
    hlines, List.map_append, List.map_singleton, List.getLastD_concat]
  exact terminator_line hlast

/-- A splice that has room for the name of the DESCRIPTION leaves a plain block, which holds the
escaped narrative. -/
theorem exists_spliceDescription {width : Nat} (hwidth : 12 ≤ width) (narrative : List Char) :
    ∃ other, block.SameAround other ∧ other.value = escape narrative ∧
      spliceDescription block.text narrative width = some other.text := by
  obtain ⟨hlf, hcr⟩ := break_notMem_descriptionLine narrative
  obtain ⟨hlfEscape, hcrEscape⟩ := break_notMem_escape narrative
  obtain ⟨chunks, hchunks, hjoin⟩ := intercalate_fold hlf hcr width
  obtain ⟨room, hroom⟩ : ∃ room, effectiveWidth width = room + 12 :=
    Nat.exists_eq_add_of_le' (Nat.le_trans hwidth (Nat.le_max_left width leastWidth))
  have htake : (descriptionLine narrative).take (effectiveWidth width) =
      descriptionName ++ ':' :: (escape narrative).take room := by
    rw [hroom]
    rfl
  have hdrop : (descriptionLine narrative).drop (effectiveWidth width) =
      (escape narrative).drop room := by
    rw [hroom]
    rfl
  rw [hdrop] at hchunks
  have hfree {part : List Char} (hpart : part ⊆ escape narrative) : BreakFree part :=
    ⟨fun h ↦ hcrEscape (hpart h), fun h ↦ hlfEscape (hpart h)⟩
  let other : PlainBlock :=
    { block with
      first := (escape narrative).take room
      more := chunks.map fun chunk ↦ (' ', chunk)
      first_free := hfree (List.take_subset room _)
      more_free := by
        intro line hline
        obtain ⟨chunk, hchunk, rfl⟩ := List.mem_map.1 hline
        refine ⟨rfl, hfree fun c hc ↦ List.drop_subset room _ ?_⟩
        rw [← hchunks]
        exact List.mem_flatten.2 ⟨chunk, hchunk, hc⟩ }
  have hvalue : other.value = escape narrative := by
    have hmore : (other.more.map Prod.snd).flatten = (escape narrative).drop room := by
      rw [← hchunks]
      simp [other, Function.comp_def]
    rw [value, hmore]
    exact List.take_append_drop room _
  have hfolded : replacementText narrative width block.terminator block.terminator
      (hasCrlf block.text) = terminated block.terminator other.folded := by
    rw [replacementText, innerTerminator_of_ne_absent block.terminator_ne, hjoin, htake, folded, terminated_folded]
    simp [other, List.flatMap_map]
  refine ⟨other, ⟨rfl, rfl, rfl, rfl⟩, hvalue, ?_⟩
  rw [block.frame.spliceDescription_eq narrative width, block.openingTerminator_folded,
    block.closingTerminator_folded, hfolded]
  rfl

end PlainBlock

end CalendarCommand
