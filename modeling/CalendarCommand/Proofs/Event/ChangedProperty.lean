import CalendarCommand.ContentLine.Splice
import CalendarCommand.Event.Reader
import CalendarCommand.Proofs.Component.Rebuilding
import CalendarCommand.Proofs.ContentLine.Escaping
import CalendarCommand.Proofs.ContentLine.PiecewiseUnfolding

/-!
# The event when one property is another one

Two readings that add the same items to their frames, but for one property that is `p` in the one
and `q` in the other, yield the same event unless that property stands directly inside the event
that is looked for.  There the event is the same too, except where the property is the first of its
name and one of the three that an event shows.
-/

namespace CalendarCommand

open ContentLine

/-- The frames are open directly inside the event of the component that they will become: in a
component that is an event itself, or in the first event of a calendar. -/
def InEvent (outer : List Frame) (frame : Frame) : Prop :=
  frame.name = "VEVENT".toList ∧ (outer = [] ∨ ∃ root, outer = [root] ∧
    root.name = "VCALENDAR".toList ∧ ∀ child ∈ root.close.children, child.name ≠ "VEVENT".toList)

/-- A property of the given name is among the items read into the frame so far. -/
def Frame.HasProperty (frame : Frame) (name : List Char) : Prop :=
  ∃ property ∈ frame.close.properties, property.name = name

namespace Component

/-- The name of a component and the properties directly inside it. -/
def face (component : Component) : List Char × List Property :=
  (component.name, component.properties)

/-- All of a component that its event depends on. -/
def view (component : Component) : (List Char × List Property) × List (List Char × List Property) :=
  (component.face, component.children.map face)

theorem find?_face (components : List Component) :
    (components.find? fun component ↦ component.name == "VEVENT".toList).map face =
      (components.map face).find? fun pair ↦ pair.1 == "VEVENT".toList := by
  rw [List.find?_map]
  rfl

/-- The event of a component depends on its view. -/
theorem event?_of_view {component other : Component} (h : component.view = other.view) :
    component.event?.map face = other.event?.map face := by
  obtain ⟨hface, hchildren⟩ := Prod.mk.inj h
  have hname : component.name = other.name := congrArg Prod.fst hface
  have hcandidates : component.candidates.map face = other.candidates.map face := by
    rw [candidates, candidates, hname]
    split_ifs
    · exact hchildren
    · exact congrArg (fun pair ↦ [pair]) hface
  rw [event?, event?, find?_face, find?_face, hcandidates]

theorem properties_append (component : Component) (more : List Item) :
    properties { component with items := component.items ++ more } =
      component.properties ++ properties { component with items := more } :=
  List.filterMap_append

theorem children_append (component : Component) (more : List Item) :
    children { component with items := component.items ++ more } =
      component.children ++ children { component with items := more } :=
  List.filterMap_append

theorem event?_of_name {component : Component} (h : component.name = "VEVENT".toList) :
    component.event? = some component := by
  have hcalendar : component.name ≠ "VCALENDAR".toList := by
    rw [h]
    decide
  rw [event?, candidates, if_neg hcalendar]
  exact List.find?_cons_of_pos (beq_iff_eq.2 h)

theorem event?_of_calendar {component : Component} (h : component.name = "VCALENDAR".toList) :
    component.event? = component.children.find? fun child ↦ child.name == "VEVENT".toList := by
  rw [event?, candidates, if_pos h]

theorem event?_of_other {component : Component} (hevent : component.name ≠ "VEVENT".toList)
    (hcalendar : component.name ≠ "VCALENDAR".toList) : component.event? = none := by
  rw [event?, candidates, if_neg hcalendar, List.find?_eq_none]
  intro child hchild
  rw [List.mem_singleton.1 hchild, beq_iff_eq]
  exact hevent

/-- The event of a component is the component itself or the first event of a calendar. -/
theorem event?_eq_some {component event : Component} (h : component.event? = some event) :
    component.name = "VEVENT".toList ∧ event = component ∨
      component.name = "VCALENDAR".toList ∧
        component.children.find? (fun child ↦ child.name == "VEVENT".toList) = some event := by
  by_cases hname : component.name = "VEVENT".toList
  · exact .inl ⟨hname, Option.some.inj (h.symm.trans (event?_of_name hname))⟩
  · by_cases hcalendar : component.name = "VCALENDAR".toList
    · exact .inr ⟨hcalendar, (event?_of_calendar hcalendar).symm.trans h⟩
    · rw [event?_of_other hname hcalendar] at h
      exact absurd h (by simp)

theorem view_append (component : Component) (more : List Item) :
    view { component with items := component.items ++ more } =
      ((component.name, component.properties ++ properties { component with items := more }),
        component.children.map face ++ (children { component with items := more }).map face) := by
  simp only [view, face, properties_append, children_append, List.map_append]

end Component

/-! ## Rebuilding around a change -/

theorem close_extend (frame : Frame) (added : List Item) : (frame.extend added).close =
    { frame.close with items := frame.close.items ++ added } :=
  congrArg (Component.mk frame.name) (Frame.items_close_extend frame added)

theorem close_push (frame : Frame) (item : Item) : (frame.push item).close =
    { frame.close with items := frame.close.items ++ [item] } :=
  congrArg (Component.mk frame.name) (Frame.items_close_push frame item)

theorem view_extend {frame other : Frame} (h : frame.close.view = other.close.view)
    (added : List Item) : (frame.extend added).close.view = (other.extend added).close.view := by
  have hname : frame.close.name = other.close.name := congrArg (fun view ↦ view.1.1) h
  have hproperties : frame.close.properties = other.close.properties :=
    congrArg (fun view ↦ view.1.2) h
  have hchildren : frame.close.children.map Component.face =
      other.close.children.map Component.face := congrArg Prod.snd h
  rw [close_extend, close_extend, Component.view_append, Component.view_append, hname, hproperties,
    hchildren]

/-- A component inside a frame is seen through its face. -/
theorem view_push_component (parent : Frame) {component other : Component}
    (h : component.face = other.face) :
    (parent.push (.component component.name component.items)).close.view =
      (parent.push (.component other.name other.items)).close.view := by
  rw [close_push, close_push, Component.view_append, Component.view_append]
  exact congrArg (fun face ↦ ((parent.close.name, parent.close.properties ++ []),
    parent.close.children.map Component.face ++ [face])) h

theorem view_rebuild {outer : List Frame} {frame other : Frame}
    (h : frame.close.view = other.close.view) (added : List Item) (adds : List (List Item)) :
    (rebuild outer frame added adds).view = (rebuild outer other added adds).view := by
  induction outer generalizing frame other added adds with
  | nil => exact view_extend h added
  | cons parent outer ih =>
    have hface : (frame.extend added).close.face = (other.extend added).close.face :=
      congrArg Prod.fst (view_extend h added)
    exact ih (view_push_component parent hface) (adds.headD []) adds.tail

/-- The children of a calendar whose innermost open frame is a child of it. -/
theorem children_close_extend_push (root : Frame) (child : Component) (added : List Item) :
    ((root.push (.component child.name child.items)).extend added).close.children =
      root.close.children ++ child :: Component.children ⟨root.name, added⟩ := by
  rw [close_extend, Component.children_append, close_push, Component.children_append,
    List.append_assoc]
  rfl

/-- What becomes of the event where the property stands directly inside it. -/
theorem event?_rebuild_of_inEvent {outer : List Frame} {frame : Frame} (h : InEvent outer frame)
    (added : List Item) (adds : List (List Item)) :
    (rebuild outer frame added adds).event? = some (frame.extend added).close := by
  obtain ⟨hname, rfl | ⟨root, rfl, hroot, hbefore⟩⟩ := h
  · exact Component.event?_of_name hname
  · have hfind : root.close.children.find? (fun child ↦ child.name == "VEVENT".toList) = none := by
      rw [List.find?_eq_none]
      intro child hchild
      rw [beq_iff_eq]
      exact hbefore child hchild
    have hchildren := children_close_extend_push root (frame.extend added).close (adds.headD [])
    have hcalendar : (rebuild [root] frame added adds).name = "VCALENDAR".toList := hroot
    calc
      (rebuild [root] frame added adds).event? = (rebuild [root] frame added adds).children.find?
          (fun child ↦ child.name == "VEVENT".toList) := Component.event?_of_calendar hcalendar
      _ = (root.close.children ++ (frame.extend added).close ::
            Component.children ⟨root.name, adds.headD []⟩).find?
          (fun child ↦ child.name == "VEVENT".toList) := congrArg (List.find? _) hchildren
      _ = some (frame.extend added).close := by
        rw [List.find?_append, hfind, Option.none_or]
        exact List.find?_cons_of_pos (beq_iff_eq.2 hname)

theorem children_push_property (frame : Frame) (property : Property) (added : List Item) :
    ((frame.push (.property property)).extend added).close.children =
      (frame.extend added).close.children := by
  rw [close_extend, close_extend, Component.children_append, Component.children_append, close_push,
    Component.children_append]
  exact congrArg (· ++ _) (List.append_nil _)

/-- The face of a component says nothing about the components inside it. -/
theorem face_push_component (parent : Frame) (component : Component) (added : List Item) :
    ((parent.push (.component component.name component.items)).extend added).close.face =
      (parent.extend added).close.face := by
  refine congrArg (Prod.mk parent.name) ?_
  rw [close_extend, close_extend, Component.properties_append, Component.properties_append,
    close_push, Component.properties_append]
  exact congrArg (· ++ _) (List.append_nil _)

/-- A property of the component itself, which is no event. -/
theorem event?_rebuild_of_root {frame : Frame} (hname : frame.name ≠ "VEVENT".toList)
    (p q : Property) (added : List Item) (adds : List (List Item)) :
    (rebuild [] (frame.push (.property p)) added adds).event? =
      (rebuild [] (frame.push (.property q)) added adds).event? := by
  by_cases hcalendar : frame.name = "VCALENDAR".toList
  · have hevent (property : Property) :
        (rebuild [] (frame.push (.property property)) added adds).event? =
          (frame.extend added).close.children.find? fun child ↦
            child.name == "VEVENT".toList := by
      rw [← children_push_property frame property added]
      exact Component.event?_of_calendar hcalendar
    rw [hevent, hevent]
  · have hevent (property : Property) :
        (rebuild [] (frame.push (.property property)) added adds).event? = none :=
      Component.event?_of_other hname hcalendar
    rw [hevent, hevent]

/-- A property of a child of the calendar, which is not the first event there. -/
theorem event?_rebuild_of_child {parent frame : Frame} (h : ¬ InEvent [parent] frame)
    (hcalendar : parent.name = "VCALENDAR".toList) (p q : Property) (added : List Item)
    (adds : List (List Item)) :
    (rebuild [parent] (frame.push (.property p)) added adds).event? =
      (rebuild [parent] (frame.push (.property q)) added adds).event? := by
  have hevent (property : Property) :
      (rebuild [parent] (frame.push (.property property)) added adds).event? =
        (parent.close.children ++ ((frame.push (.property property)).extend added).close ::
          Component.children ⟨parent.name, adds.headD []⟩).find? fun child ↦
            child.name == "VEVENT".toList := by
    rw [← children_close_extend_push]
    exact Component.event?_of_calendar hcalendar
  rw [hevent, hevent, List.find?_append, List.find?_append]
  cases hfind : parent.close.children.find? fun child ↦ child.name == "VEVENT".toList with
  | some child => rfl
  | none =>
    have hbefore : ∀ child ∈ parent.close.children, child.name ≠ "VEVENT".toList := by
      intro child hchild
      simpa only [beq_iff_eq] using List.find?_eq_none.1 hfind child hchild
    have hname (property : Property) : ¬ (((frame.push (.property property)).extend
        added).close.name == "VEVENT".toList) = true := by
      rw [beq_iff_eq]
      exact fun hname ↦ h ⟨hname, .inr ⟨parent, rfl, hcalendar, hbefore⟩⟩
    have hskip (property : Property) (more : List Component) :
        (((frame.push (.property property)).extend added).close :: more).find?
            (fun child ↦ child.name == "VEVENT".toList) =
          more.find? fun child ↦ child.name == "VEVENT".toList :=
      List.find?_cons_of_neg (hname property)
    rw [hskip, hskip]

/-- A property of a component inside another one that is no calendar. -/
theorem face_event?_rebuild_of_inside {parent : Frame} (hcalendar : parent.name ≠ "VCALENDAR".toList)
    (frame : Frame) (p q : Property) (added : List Item) (adds : List (List Item)) :
    (rebuild [parent] (frame.push (.property p)) added adds).event?.map Component.face =
      (rebuild [parent] (frame.push (.property q)) added adds).event?.map Component.face := by
  by_cases hname : parent.name = "VEVENT".toList
  · have hevent (property : Property) :
        (rebuild [parent] (frame.push (.property property)) added adds).event?.map
            Component.face = some (parent.extend (adds.headD [])).close.face := by
      rw [← face_push_component parent ((frame.push (.property property)).extend added).close]
      exact congrArg (Option.map Component.face) (Component.event?_of_name hname)
    rw [hevent, hevent]
  · have hevent (property : Property) :
        (rebuild [parent] (frame.push (.property property)) added adds).event? = none :=
      Component.event?_of_other hname hcalendar
    rw [hevent, hevent]

/-- A property that stands deeper than the event looks. -/
theorem view_rebuild_of_deep (grand parent frame : Frame) (outer : List Frame) (p q : Property)
    (added : List Item) (adds : List (List Item)) :
    (rebuild (parent :: grand :: outer) (frame.push (.property p)) added adds).view =
      (rebuild (parent :: grand :: outer) (frame.push (.property q)) added adds).view := by
  have hface (property : Property) : ((parent.push (.component frame.name ((frame.push
      (.property property)).extend added).close.items)).extend (adds.headD [])).close.face =
        (parent.extend (adds.headD [])).close.face :=
    face_push_component parent ((frame.push (.property property)).extend added).close _
  exact view_rebuild (view_push_component grand ((hface p).trans (hface q).symm)) _ _

/-- A property that stands elsewhere has no part in the face of the event. -/
theorem face_event?_rebuild {outer : List Frame} {frame : Frame} (h : ¬ InEvent outer frame)
    (p q : Property) (added : List Item) (adds : List (List Item)) :
    (rebuild outer (frame.push (.property p)) added adds).event?.map Component.face =
      (rebuild outer (frame.push (.property q)) added adds).event?.map Component.face := by
  rcases outer with - | ⟨parent, - | ⟨grand, outer⟩⟩
  · have hname : frame.name ≠ "VEVENT".toList := fun hname ↦ h ⟨hname, .inl rfl⟩
    rw [event?_rebuild_of_root hname p q]
  · by_cases hcalendar : parent.name = "VCALENDAR".toList
    · rw [event?_rebuild_of_child h hcalendar p q]
    · exact face_event?_rebuild_of_inside hcalendar frame p q added adds
  · exact Component.event?_of_view (view_rebuild_of_deep grand parent frame outer p q added adds)

/-! ## The event of a component -/

namespace Component

def heldEvent? (component : Component) : Option Event :=
  component.event?.map Event.ofComponent

theorem ofComponent_congr {component other : Component}
    (h : component.properties = other.properties) :
    Event.ofComponent component = Event.ofComponent other := by
  simp only [Event.ofComponent, property?, h]

theorem heldEvent?_congr {component other : Component}
    (h : component.event?.map face = other.event?.map face) :
    component.heldEvent? = other.heldEvent? := by
  rw [heldEvent?, heldEvent?]
  cases hevent : component.event? with
  | none =>
    cases hother : other.event? with
    | none => rfl
    | some child => simp [hevent, hother] at h
  | some event =>
    cases hother : other.event? with
    | none => simp [hevent, hother] at h
    | some child =>
      rw [hevent, hother] at h
      have hface := Option.some.inj h
      exact congrArg some (ofComponent_congr (congrArg Prod.snd hface))

end Component

/-- The event of a text is the one that the component of its unfolded text holds. -/
theorem Event.ofText_eq_ok_iff {text : String} {event : Event} : Event.ofText text = .ok event ↔
    ∃ component, Component.ofText? (ContentLine.unfold text.toList) = some component ∧
      component.heldEvent? = some event := by
  rw [Event.ofText, unfoldPiecewise_eq_unfold]
  cases hcomponent : Component.ofText? (ContentLine.unfold text.toList) with
  | none => simp
  | some component =>
    cases hevent : component.event? with
    | none => simp [Component.heldEvent?, hevent]
    | some found => simp [Component.heldEvent?, hevent]

/-- What an event shows of a text value. -/
def Property.reading (property : Property) : String :=
  String.ofList (unescape property.content)

theorem narrative_ofComponent (component : Component) : (Event.ofComponent component).narrative =
    (component.property? "DESCRIPTION").map Property.reading := by
  simp only [Event.ofComponent, Option.map_map]
  rfl

theorem properties_close_extend_push (frame : Frame) (property : Property) (added : List Item) :
    ((frame.push (.property property)).extend added).close.properties =
      frame.close.properties ++ property :: Component.properties ⟨frame.name, added⟩ := by
  rw [close_extend, Component.properties_append, close_push, Component.properties_append,
    List.append_assoc]
  rfl

/-- Changing the value of a property leaves the narrative alone, unless the property is the first
DESCRIPTION directly inside the event. -/
theorem narrative_heldEvent?_rebuild {outer : List Frame} {frame : Frame} {p q : Property}
    (hname : q.name = p.name)
    (h : ¬ (InEvent outer frame ∧ ¬ frame.HasProperty descriptionName ∧
      p.name = descriptionName))
    (added : List Item) (adds : List (List Item)) :
    (rebuild outer (frame.push (.property p)) added adds).heldEvent?.map Event.narrative =
      (rebuild outer (frame.push (.property q)) added adds).heldEvent?.map Event.narrative := by
  by_cases hin : InEvent outer frame
  · have hevent (property : Property) :
        (rebuild outer (frame.push (.property property)) added adds).heldEvent?.map
            Event.narrative =
          some (((frame.close.properties ++ property :: Component.properties
            ⟨frame.name, added⟩).find? fun property ↦ property.name == descriptionName).map
              Property.reading) := by
      have hpushed : InEvent outer (frame.push (.property property)) := hin
      rw [Component.heldEvent?, event?_rebuild_of_inEvent hpushed, Option.map_some, Option.map_some,
        narrative_ofComponent, Component.property?, properties_close_extend_push]
      rfl
    rw [hevent, hevent, List.find?_append, List.find?_append]
    by_cases hfirst : frame.HasProperty descriptionName
    · obtain ⟨property, hproperty, hdescription⟩ := hfirst
      have hsome : (frame.close.properties.find? fun property ↦
          property.name == descriptionName).isSome :=
        List.find?_isSome.2 ⟨property, hproperty, by rw [beq_iff_eq]; exact hdescription⟩
      obtain ⟨found, hfound⟩ := Option.isSome_iff_exists.1 hsome
      rw [hfound, Option.some_or, Option.some_or]
    · have hp : p.name ≠ descriptionName := fun hp ↦ h ⟨hin, hfirst, hp⟩
      rw [List.find?_cons_of_neg (by rw [beq_iff_eq]; exact hp),
        List.find?_cons_of_neg (by rw [beq_iff_eq, hname]; exact hp)]
  · exact congrArg (Option.map Event.narrative)
      (Component.heldEvent?_congr (face_event?_rebuild hin p q added adds))

/-- Where it is the first DESCRIPTION directly inside the event, the event shows its value and is
otherwise the same. -/
theorem heldEvent?_rebuild {outer : List Frame} {frame : Frame} (hin : InEvent outer frame)
    (hfirst : ¬ frame.HasProperty descriptionName) (added : List Item) (adds : List (List Item)) :
    ∃ event : Event, ∀ property : Property, property.name = descriptionName →
      (rebuild outer (frame.push (.property property)) added adds).heldEvent? =
        some { event with narrative := some property.reading } := by
  have hproperties (property : Property) :=
    properties_close_extend_push frame property added
  refine ⟨Event.ofComponent (frame.extend added).close, fun property hdescription ↦ ?_⟩
  have hpushed : InEvent outer (frame.push (.property property)) := hin
  rw [Component.heldEvent?, event?_rebuild_of_inEvent hpushed, Option.map_some]
  have hnarrative : (Event.ofComponent ((frame.push (.property property)).extend
      added).close).narrative = some property.reading := by
    have hnone : (frame.close.properties.find? fun property ↦
        property.name == descriptionName) = none := by
      rw [List.find?_eq_none]
      intro other hother
      rw [beq_iff_eq]
      exact fun hname ↦ hfirst ⟨other, hother, hname⟩
    have hfind : (frame.close.properties ++ property :: Component.properties
        ⟨frame.name, added⟩).find? (fun property ↦ property.name == descriptionName) =
          some property := by
      rw [List.find?_append, hnone, Option.none_or]
      exact List.find?_cons_of_pos (by rw [beq_iff_eq]; exact hdescription)
    rw [narrative_ofComponent, Component.property?, hproperties]
    exact congrArg (Option.map Property.reading) hfind
  have hother (name : String) (hname : name.toList ≠ descriptionName) :
      ((frame.push (.property property)).extend added).close.property? name =
        (frame.extend added).close.property? name := by
    have hskip : ¬ (property.name == name.toList) = true := by
      rw [beq_iff_eq, hdescription]
      exact hname.symm
    rw [Component.property?, Component.property?, hproperties, close_extend,
      Component.properties_append, List.find?_append, List.find?_append]
    exact congrArg (Option.or _) (List.find?_cons_of_neg hskip)
  refine congrArg some ?_
  rw [← hnarrative]
  simp only [Event.ofComponent, hother "CLASS" (by decide), hother "SUMMARY" (by decide)]

theorem narrative_eq_reading {outer : List Frame} {frame : Frame} {p : Property}
    (hin : InEvent outer frame) (hfirst : ¬ frame.HasProperty descriptionName)
    (hp : p.name = descriptionName) {added : List Item} {adds : List (List Item)} {event : Event}
    (hevent : (rebuild outer (frame.push (.property p)) added adds).heldEvent? = some event) :
    event.narrative = some p.reading := by
  obtain ⟨around, haround⟩ := heldEvent?_rebuild hin hfirst added adds
  rw [← Option.some.inj ((haround p hp).symm.trans hevent)]

/-- A changed property gives the event another narrative exactly where it is the first DESCRIPTION
directly inside the event and reads as that narrative. -/
theorem heldEvent?_rebuild_iff {outer : List Frame} {frame : Frame} {p q : Property}
    (hname : q.name = p.name) {added : List Item} {adds : List (List Item)} {event : Event}
    (hevent : (rebuild outer (frame.push (.property p)) added adds).heldEvent? = some event)
    {narrative : String} (hother : event.narrative ≠ some narrative) :
    (rebuild outer (frame.push (.property q)) added adds).heldEvent? =
        some { event with narrative := some narrative } ↔
      (InEvent outer frame ∧ ¬ frame.HasProperty descriptionName ∧ p.name = descriptionName) ∧
        q.reading = narrative := by
  by_cases hfirst :
      InEvent outer frame ∧ ¬ frame.HasProperty descriptionName ∧ p.name = descriptionName
  · obtain ⟨hin, hno, hp⟩ := hfirst
    obtain ⟨around, haround⟩ := heldEvent?_rebuild hin hno added adds
    have hsame := Option.some.inj ((haround p hp).symm.trans hevent)
    rw [haround q (hname.trans hp), ← hsame]
    simp [hin, hno, hp]
  · have hnarrative := narrative_heldEvent?_rebuild hname hfirst added adds
    rw [hevent] at hnarrative
    refine ⟨fun h ↦ ?_, fun h ↦ absurd h.1 hfirst⟩
    rw [h] at hnarrative
    exact absurd (Option.some.inj hnarrative) hother

/-! ## How a property with an escaped text reads -/

namespace Property

theorem reading_escape {narrative : String} (hcr : '\r' ∉ narrative.toList)
    (hfree : PairFree narrative.toList) (name : List Char) :
    reading { name, parameters := [], value := escape narrative.toList } = narrative := by
  rw [reading, content_of_parameters rfl, unescapeWith_escape isValueMark_of_isTextMark,
    normalizeBreaks_eq_self hcr, unescape_eq_self hfree, String.ofList_toList]

theorem cr_notMem_reading {property : Property} (h : '\r' ∉ property.value) :
    '\r' ∉ property.reading.toList := by
  have hcontent : '\r' ∉ property.content := by
    rw [content]
    split_ifs
    · exact h
    · exact fun hcr ↦ h ((mem_of_mem_unescapeWith hcr).resolve_left (by decide))
  rw [reading, String.toList_ofList]
  exact fun hcr ↦ hcontent ((mem_of_mem_unescapeWith hcr).resolve_left (by decide))

/-- A value that holds an escaped text between further line feeds reads as another text. -/
theorem reading_ne {property : Property} {lead extra : List Char} {narrative : String}
    (hvalue : property.value = lead ++ (escape narrative.toList ++ extra))
    (hlead : lead = [] ∨ ∃ before, lead = before ++ [':']) (hlf : '\n' ∈ lead ∨ '\n' ∈ extra) :
    property.reading ≠ narrative := by
  have hmore : 0 < lead.count '\n' + extra.count '\n' := by
    rcases hlf with hlf | hlf
    · have hpos := List.count_pos_iff.2 hlf
      omega
    · have hpos := List.count_pos_iff.2 hlf
      omega
  have hcount : lead.count '\n' + (narrative.toList.count '\n' + extra.count '\n') ≤
      (unescape property.content).count '\n' := by
    rw [content, hvalue]
    split_ifs
    · exact count_lf_unescapeWith_escape (fun _ h ↦ h) hlead narrative.toList extra
    · apply Nat.le_trans _ (count_lf_le_unescapeWith _)
      exact count_lf_unescapeWith_escape isValueMark_of_isTextMark hlead narrative.toList extra
  intro h
  rw [← h, reading, String.toList_ofList] at hcount
  omega

end Property

end CalendarCommand
