import CalendarCommand.Proofs.Component.Reading

/-!
# What the reader adds to its frames

The reader looks at the open frames through their names only.  What it reads from a text it adds to
the frames that are open at that point: a list of items for each of them, which closes the frame
below as the first of these items.  The component in the end is rebuilt from the frames and from
those lists, so two readings of one text that start from frames of the same names differ in nothing
but what the frames already hold.
-/

namespace CalendarCommand

open Scan

/-- The component that the frames become when `added` is read into the innermost one and the lists
of `adds` into the ones around it. -/
def rebuild : List Frame → Frame → List Item → List (List Item) → Component
  | [], frame, added, _ => (frame.extend added).close
  | parent :: outer, frame, added, adds =>
    rebuild outer (parent.push (.component frame.name (frame.extend added).close.items))
      (adds.headD []) adds.tail

theorem rebuild_push (outer : List Frame) (frame : Frame) (item : Item) (added : List Item)
    (adds : List (List Item)) :
    rebuild outer (frame.push item) added adds = rebuild outer frame (item :: added) adds := by
  cases outer with
  | nil => rw [rebuild, rebuild, Frame.extend_push]
  | cons parent outer => rw [rebuild, rebuild, Frame.extend_push, Frame.push_name]

def SameNames (outer other : List Frame) : Prop :=
  outer.map Frame.name = other.map Frame.name

theorem SameNames.cons {frame frame' : Frame} {outer outer' : List Frame}
    (h : SameNames (frame :: outer) (frame' :: outer')) :
    frame.name = frame'.name ∧ SameNames outer outer' :=
  List.cons.inj h

theorem sameNames_cons_iff {frame frame' : Frame} {outer outer' : List Frame} :
    SameNames (frame :: outer) (frame' :: outer') ↔
      frame.name = frame'.name ∧ SameNames outer outer' := by
  simp [SameNames]

/-- Reading a text yields the frames, whatever they hold, with the same items added. -/
theorem exists_rebuild {outer : List Frame} {frame : Frame} {text rest : List Char}
    {component : Component} (h : readBody outer frame text = some (component, rest)) :
    ∃ added adds, ∀ outer' frame', SameNames (frame :: outer) (frame' :: outer') →
      readBody outer' frame' text = some (rebuild outer' frame' added adds, rest) := by
  have hbody : Reading.body ⟨outer, frame, text⟩ = some (component, rest) := h
  rcases Reading.step_or_closes (by rw [hbody]; simp) with ⟨next, hstep⟩ | ⟨tail, hcloses⟩
  · have hnext := hstep.body_eq.symm.trans hbody
    have hshorter := hstep.length_lt
    cases hstep with
    | @close parent outer frame text tail after hend hname =>
      obtain ⟨added, adds, hread⟩ := exists_rebuild hnext
      refine ⟨[], added :: adds, fun others frame' hnames ↦ ?_⟩
      cases others with
      | nil => exact absurd (congrArg List.length hnames) (by simp)
      | cons parent' outer' =>
        obtain ⟨hframe, houter⟩ := hnames.cons
        rw [hframe] at hname
        calc
          readBody (parent' :: outer') frame' text = readBody outer'
              (parent'.push (.component frame'.close.name frame'.close.items)) after :=
            (Reading.Step.close hend hname).body_eq
          _ = some (rebuild (parent' :: outer') frame' [] (added :: adds), rest) :=
            hread outer' _ (sameNames_cons_iff.2 (houter.cons))
    | @begin outer frame text tail hend hbegin =>
      obtain ⟨added, adds, hread⟩ := exists_rebuild hnext
      let name := tail.takeWhile isNameChar
      refine ⟨.component name ((Frame.new name).extend added).close.items :: adds.headD [],
        adds.tail, fun outer' frame' hnames ↦ ?_⟩
      calc
        readBody outer' frame' text =
            readBody (frame' :: outer') (Frame.new name) (tail.dropWhile isNameChar) :=
          (Reading.Step.begin hend hbegin).body_eq
        _ = some (rebuild (frame' :: outer') (Frame.new name) added adds, rest) :=
          hread (frame' :: outer') (Frame.new name) (sameNames_cons_iff.2 ⟨rfl, hnames⟩)
        _ = some (rebuild outer' frame' (.component name
              ((Frame.new name).extend added).close.items :: adds.headD []) adds.tail, rest) := by
          rw [← rebuild_push]
          rfl
    | @property outer frame text after property hend hbegin hproperty hless =>
      obtain ⟨added, adds, hread⟩ := exists_rebuild hnext
      refine ⟨.property property :: added, adds, fun outer' frame' hnames ↦ ?_⟩
      calc
        readBody outer' frame' text =
            readBody outer' (frame'.push (.property property)) (skipLineEnds after) :=
          (Reading.Step.property hend hbegin hproperty hless).body_eq
        _ = some (rebuild outer' (frame'.push (.property property)) added adds, rest) :=
          hread outer' _ hnames
        _ = some (rebuild outer' frame' (.property property :: added) adds, rest) := by
          rw [rebuild_push]
  · have hclosed := hcloses.body_eq.symm.trans hbody
    obtain ⟨houter, after, hend, hname⟩ := hcloses
    refine ⟨[], [], fun outer' frame' hnames ↦ ?_⟩
    obtain ⟨hframe, hothers⟩ := hnames.cons
    obtain rfl : outer' = [] := by
      have houter : outer = [] := houter
      rw [houter] at hothers
      exact List.map_eq_nil_iff.1 hothers.symm
    have hname' : dropLiteral? frame'.name after = some tail := hframe ▸ hname
    have hcloses : Reading.Closes ⟨[], frame', text⟩ tail := ⟨rfl, after, hend, hname'⟩
    have hrest : skipLineEnds tail = rest := (Prod.mk.inj (Option.some.inj hclosed)).2
    rw [← hrest]
    exact hcloses.body_eq
termination_by text.length

/-- The same items are added behind another item. -/
theorem exists_rebuild_push {outer : List Frame} {frame : Frame} {item : Item} {text : List Char}
    {component : Component} (h : readBody outer (frame.push item) text = some (component, []))
    (other : Item) :
    ∃ added adds, component = rebuild outer (frame.push item) added adds ∧
      readBody outer (frame.push other) text =
        some (rebuild outer (frame.push other) added adds, []) := by
  obtain ⟨added, adds, hread⟩ := exists_rebuild h
  have hsame := hread outer (frame.push item) rfl
  rw [h] at hsame
  have hother := hread outer (frame.push other) rfl
  exact ⟨added, adds, (Prod.mk.inj (Option.some.inj hsame)).1, hother⟩

end CalendarCommand
