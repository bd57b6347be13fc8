import CalendarCommand.Proofs.Component.PlainLine

/-!
# Reading a written component

A component whose names are plain and whose values hold no line break is written as plain lines: a mark
for its start, the lines of its items, and a mark for its end.  Reading these lines puts the items into
the innermost frame one after the other, a component inside another one by way of a frame of its own.
The induction is over the tree.  What it carries from one item to the next is that the text behind an
item holds no carriage return where lines end with LF: one CRLF further on would draw the value of a
property over the lines in front of it.
-/

namespace CalendarCommand

open Scan ContentLine

/-- A property with a plain name, which is that of no mark, and a value on one line. -/
structure Property.IsPlain (property : Property) : Prop where
  name_plain : IsPlainName property.name
  name_free : property.name ≠ "BEGIN".toList ∧ property.name ≠ "END".toList
  parameters_eq : property.parameters = []
  value_free : BreakFree property.value

/-- An item with plain names and values on one line throughout. -/
inductive Item.IsPlain : Item → Prop
  | property {property : Property} (h : property.IsPlain) : IsPlain (.property property)
  | component {name : List Char} {items : List Item} (hname : IsPlainName name)
      (hitems : ∀ item ∈ items, IsPlain item) : IsPlain (.component name items)

/-! ## The lines of a plain item -/

theorem logicalLinesOf_eq (items : List Item) :
    logicalLinesOf items = items.flatMap Item.logicalLines := by
  induction items with
  | nil => rw [logicalLinesOf, List.flatMap_nil]
  | cons item items ih => rw [logicalLinesOf, ih, List.flatMap_cons]

theorem logicalLinesOf_append (items more : List Item) :
    logicalLinesOf (items ++ more) = logicalLinesOf items ++ logicalLinesOf more := by
  rw [logicalLinesOf_eq, logicalLinesOf_eq, logicalLinesOf_eq, List.flatMap_append]

theorem isNamedLine_begin {name : List Char} (hname : IsPlainName name) :
    IsNamedLine ("BEGIN:".toList ++ name) :=
  ⟨"BEGIN".toList, name, by decide, hname.breakFree, rfl⟩

theorem isNamedLine_end {name : List Char} (hname : IsPlainName name) :
    IsNamedLine ("END:".toList ++ name) :=
  ⟨"END".toList, name, by decide, hname.breakFree, rfl⟩

theorem Item.IsPlain.isNamedLine {item : Item} (h : item.IsPlain) :
    ∀ line ∈ item.logicalLines, IsNamedLine line := by
  induction h with
  | @property property hplain =>
    intro line hline
    rw [Item.logicalLines, List.mem_singleton] at hline
    exact ⟨property.name, property.value, hplain.name_plain, hplain.value_free, hline⟩
  | component hname hitems ih =>
    intro line hline
    rw [Item.logicalLines, logicalLinesOf_eq, List.mem_append, List.mem_cons, List.mem_flatMap,
      List.mem_singleton] at hline
    rcases hline with (rfl | ⟨item, hitem, hline⟩) | rfl
    · exact isNamedLine_begin hname
    · exact ih item hitem line hline
    · exact isNamedLine_end hname

theorem isNamedLine_logicalLinesOf {items : List Item} (hitems : ∀ item ∈ items, item.IsPlain) :
    ∀ line ∈ logicalLinesOf items, IsNamedLine line := by
  intro line hline
  rw [logicalLinesOf_eq, List.mem_flatMap] at hline
  obtain ⟨item, hitem, hline⟩ := hline
  exact (hitems item hitem).isNamedLine line hline

/-! ## Reading the lines of an item -/

variable {terminator : Terminator} {items : List Item} {rest : List Char}

theorem cr_notMem_items (hitems : ∀ item ∈ items, item.IsPlain)
    (hrest : terminator = .lf → '\r' ∉ rest) (h : terminator = .lf) :
    '\r' ∉ terminated terminator (logicalLinesOf items) ++ rest := by
  rw [List.mem_append, not_or]
  refine ⟨?_, hrest h⟩
  rw [h]
  exact cr_notMem_terminated fun line hline ↦
    (isNamedLine_logicalLinesOf hitems line hline).isLogical.breakFree

/-- The lines of the item are read into the innermost frame, whatever is read behind them. -/
def Item.ReadsBack (terminator : Terminator) (item : Item) : Prop :=
  ∀ outer frame rest, (terminator = .lf → '\r' ∉ rest) →
    readBody outer frame (terminated terminator item.logicalLines ++ rest) =
      readBody outer (frame.push item) rest

/-- Items that are each read back are read back one after the other. -/
theorem readBody_items (hplain : ∀ item ∈ items, item.IsPlain)
    (hreads : ∀ item ∈ items, item.ReadsBack terminator) {outer : List Frame} {frame : Frame}
    (hrest : terminator = .lf → '\r' ∉ rest) :
    readBody outer frame (terminated terminator (logicalLinesOf items) ++ rest) =
      readBody outer (frame.extend items) rest := by
  induction items generalizing frame with
  | nil => rfl
  | cons item items ih =>
    have hmore : ∀ other ∈ items, other.IsPlain :=
      fun other hother ↦ hplain other (List.mem_cons_of_mem _ hother)
    have hmoreReads : ∀ other ∈ items, other.ReadsBack terminator :=
      fun other hother ↦ hreads other (List.mem_cons_of_mem _ hother)
    calc
      readBody outer frame (terminated terminator (logicalLinesOf (item :: items)) ++ rest) =
          readBody outer frame (terminated terminator item.logicalLines ++
            (terminated terminator (logicalLinesOf items) ++ rest)) := by
        rw [logicalLinesOf, terminated_append, List.append_assoc]
      _ = readBody outer (frame.push item)
            (terminated terminator (logicalLinesOf items) ++ rest) :=
        hreads item List.mem_cons_self outer frame _ (cr_notMem_items hmore hrest)
      _ = readBody outer ((frame.push item).extend items) rest := ih hmore hmoreReads
      _ = readBody outer (frame.extend (item :: items)) rest := by rw [Frame.extend_push]

theorem close_extend_new (name : List Char) (items : List Item) :
    ((Frame.new name).extend items).close = { name, items } := by
  simp [Frame.new, Frame.extend, Frame.close]

/-- The lines of a component with their marks told apart. -/
theorem terminated_component (name : List Char) (items : List Item) (rest : List Char) :
    terminated terminator (Item.component name items).logicalLines ++ rest =
      "BEGIN:".toList ++ (name ++ (terminator.text ++
        (terminated terminator (logicalLinesOf items) ++
          ("END:".toList ++ (name ++ (terminator.text ++ rest)))))) := by
  simp [Item.logicalLines, terminated]

/-- The mark that closes a component holds no carriage return of its own. -/
theorem cr_notMem_end {name : List Char} (hname : IsPlainName name)
    (hrest : terminator = .lf → '\r' ∉ rest) (h : terminator = .lf) :
    '\r' ∉ "END:".toList ++ (name ++ (terminator.text ++ rest)) := by
  have hterminator : '\r' ∉ terminator.text := by rw [h]; decide
  simp only [List.mem_append, not_or]
  exact ⟨by decide, hname.breakFree.1, hterminator, hrest h⟩

/-- A plain item is read back from its lines. -/
theorem Item.IsPlain.readsBack (hterminator : terminator ≠ .absent) {item : Item}
    (h : item.IsPlain) : item.ReadsBack terminator := by
  induction h with
  | @property property hplain =>
    intro outer frame rest hrest
    have hproperty : property = { name := property.name, parameters := [], value := property.value } :=
      hplain.parameters_eq ▸ rfl
    calc
      readBody outer frame (terminated terminator (Item.property property).logicalLines ++ rest) =
          readBody outer frame
            (property.name ++ ':' :: (property.value ++ terminator.text ++ rest)) := by
        simp [Item.logicalLines, Property.logicalLine, terminated]
      _ = readBody outer (frame.push (.property
            { name := property.name, parameters := [], value := property.value })) rest :=
        readBody_plain hplain.name_plain hplain.name_free.1 hplain.name_free.2
          hplain.value_free.1 hplain.value_free.2 (endsValue_of_notMem hterminator hrest)
      _ = readBody outer (frame.push (.property property)) rest := by rw [← hproperty]
  | @component name items hname hitems ih =>
    intro outer frame rest hrest
    let tail := "END:".toList ++ (name ++ (terminator.text ++ rest))
    calc
      readBody outer frame (terminated terminator (Item.component name items).logicalLines ++ rest) =
          readBody (frame :: outer) (Frame.new name)
            (terminated terminator (logicalLinesOf items) ++ tail) := by
        rw [terminated_component]
        exact readBody_begin hname hterminator _
      _ = readBody (frame :: outer) ((Frame.new name).extend items) tail :=
        readBody_items hitems ih (cr_notMem_end hname hrest)
      _ = readBody outer (frame.push (.component ((Frame.new name).extend items).close.name
            ((Frame.new name).extend items).close.items)) rest := readBody_end terminator rest
      _ = readBody outer (frame.push (.component name items)) rest := by rw [close_extend_new]

/-- A plain component is read back from its lines. -/
theorem Component.ofText?_terminated (hterminator : terminator ≠ .absent) {component : Component}
    (h : component.toItem.IsPlain) :
    Component.ofText? (terminated terminator component.logicalLines) = some component := by
  cases h with
  | component hname hitems =>
    have hread : Component.read? (terminated terminator component.logicalLines) =
        some (component, []) := by
      calc
        Component.read? (terminated terminator component.logicalLines) =
            readBody [] (Frame.new component.name)
              (terminated terminator (logicalLinesOf component.items) ++
                ("END:".toList ++ (component.name ++ (terminator.text ++ [])))) := by
          rw [logicalLines, ← List.append_nil (terminated _ _), toItem, terminated_component]
          exact read?_begin hname hterminator _
        _ = readBody [] ((Frame.new component.name).extend component.items)
              ("END:".toList ++ (component.name ++ (terminator.text ++ []))) :=
          readBody_items hitems (fun item hitem ↦ (hitems item hitem).readsBack hterminator)
            (cr_notMem_end hname fun _ ↦ List.not_mem_nil)
        _ = some (((Frame.new component.name).extend component.items).close, []) :=
          readBody_last_end terminator []
        _ = some (component, []) := by rw [close_extend_new]
    rw [Component.ofText?, hread]

end CalendarCommand
