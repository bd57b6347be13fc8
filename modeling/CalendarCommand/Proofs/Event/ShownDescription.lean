import CalendarCommand.Proofs.Component.ReadingPlace
import CalendarCommand.Proofs.Event.ChangedProperty

/-!
# Where a shown description was read

An event that has a narrative has it from a property that the reader met at some point of the text: the
first DESCRIPTION directly inside the event.  `Described` tells of the open frames whether that point
lies behind.  A step that makes it true is the step that reads the property, so going through a run from
its start, where nothing has been read, to its end finds the point.

The point is one of the unfolded text, and from there one of the text as it was stored.
-/

namespace CalendarCommand

open Scan ContentLine

def Component.IsDescribed (component : Component) : Prop :=
  ∃ event, component.event? = some event ∧
    ∃ property ∈ event.properties, property.name = descriptionName

/-- A DESCRIPTION has been read directly inside the event of the component that the frames will
become.  Frames that are open deeper than the event do not matter. -/
def Described : List Frame → Frame → Prop
  | [], frame => frame.close.IsDescribed
  | [root], frame => root.close.IsDescribed ∨ InEvent [root] frame ∧ frame.HasProperty descriptionName
  | parent :: grand :: outer, _ => Described (grand :: outer) parent

/-! ## What one item changes -/

theorem properties_close_push_property (frame : Frame) (property : Property) :
    (frame.push (.property property)).close.properties = frame.close.properties ++ [property] := by
  rw [close_push, Component.properties_append]
  rfl

theorem hasProperty_push_property {frame : Frame} {property : Property} {name : List Char} :
    (frame.push (.property property)).HasProperty name ↔
      frame.HasProperty name ∨ property.name = name := by
  rw [Frame.HasProperty, Frame.HasProperty, properties_close_push_property]
  simp only [List.mem_append, List.mem_singleton, or_and_right, exists_or, exists_eq_left]

theorem hasProperty_push_component {frame : Frame} {name kind : List Char} {items : List Item} :
    (frame.push (.component kind items)).HasProperty name ↔ frame.HasProperty name := by
  rw [Frame.HasProperty, Frame.HasProperty, close_push, Component.properties_append]
  exact iff_of_eq (by rw [show Component.properties { frame.close with
    items := [.component kind items] } = [] from rfl, List.append_nil])

/-- The root itself gets a description only as an event, from a first property of that name. -/
theorem isDescribed_push_property {frame : Frame} {property : Property}
    (h : (frame.push (.property property)).close.IsDescribed) :
    frame.close.IsDescribed ∨
      InEvent [] frame ∧ ¬ frame.HasProperty descriptionName ∧ property.name = descriptionName := by
  obtain ⟨event, hevent, hdescription⟩ := h
  rcases Component.event?_eq_some hevent with ⟨hname, rfl⟩ | ⟨hcalendar, hfind⟩
  · by_cases hfirst : frame.HasProperty descriptionName
    · exact .inl ⟨frame.close, Component.event?_of_name hname, hfirst⟩
    · exact .inr ⟨⟨hname, .inl rfl⟩, hfirst,
        (hasProperty_push_property.1 hdescription).resolve_left hfirst⟩
  · have hchildren : (frame.push (.property property)).close.children = frame.close.children :=
      children_push_property frame property []
    rw [hchildren] at hfind
    have hroot : frame.close.name = "VCALENDAR".toList := hcalendar
    exact .inl ⟨event, (Component.event?_of_calendar hroot).trans hfind, hdescription⟩

/-- The root gets a description with a component only as a calendar, from its first event. -/
theorem isDescribed_push_component {parent frame : Frame}
    (h : (parent.push (.component frame.close.name frame.close.items)).close.IsDescribed) :
    parent.close.IsDescribed ∨ InEvent [parent] frame ∧ frame.HasProperty descriptionName := by
  obtain ⟨event, hevent, hdescription⟩ := h
  rcases Component.event?_eq_some hevent with ⟨hname, rfl⟩ | ⟨hcalendar, hfind⟩
  · exact .inl ⟨parent.close, Component.event?_of_name hname,
      hasProperty_push_component.1 hdescription⟩
  · have hchildren : (parent.push (.component frame.close.name frame.close.items)).close.children =
        parent.close.children ++ [frame.close] :=
      children_close_extend_push parent frame.close []
    rw [hchildren, List.find?_append] at hfind
    cases hbefore : parent.close.children.find? fun child ↦ child.name == "VEVENT".toList with
    | some child =>
      rw [hbefore, Option.some_or] at hfind
      obtain rfl := Option.some.inj hfind
      have hroot : parent.close.name = "VCALENDAR".toList := hcalendar
      exact .inl ⟨child, (Component.event?_of_calendar hroot).trans hbefore, hdescription⟩
    | none =>
      rw [hbefore, Option.none_or] at hfind
      have hkind := List.find?_some hfind
      obtain rfl := List.mem_singleton.1 (List.mem_of_find?_eq_some hfind)
      have hframe : frame.close.name = "VEVENT".toList := beq_iff_eq.1 hkind
      have hothers : ∀ child ∈ parent.close.children, child.name ≠ "VEVENT".toList := by
        intro child hchild
        simpa only [beq_iff_eq] using List.find?_eq_none.1 hbefore child hchild
      exact .inr ⟨⟨hframe, .inr ⟨parent, rfl, hcalendar, hothers⟩⟩, hdescription⟩

theorem not_isDescribed_new (name : List Char) : ¬ (Frame.new name).close.IsDescribed := by
  rintro ⟨event, hevent, property, hproperty, -⟩
  rcases Component.event?_eq_some hevent with ⟨-, rfl⟩ | ⟨-, hfind⟩
  · exact absurd hproperty List.not_mem_nil
  · exact absurd (List.mem_of_find?_eq_some hfind) List.not_mem_nil

/-! ## Runs -/

namespace Reading

variable {reading next later : Reading}

/-- The next step reads the property, which is the first DESCRIPTION directly inside the event. -/
def MeetsDescription (reading : Reading) (property : Property) : Prop :=
  InEvent reading.outer reading.frame ∧ ¬ reading.frame.HasProperty descriptionName ∧
    property.name = descriptionName ∧
    ∃ behind, Step reading ⟨reading.outer, reading.frame.push (.property property), behind⟩

/-- A description that has been read after a step had been read before it, or is read in it. -/
theorem Step.described (h : Step reading next) (hnext : Described next.outer next.frame) :
    Described reading.outer reading.frame ∨ ∃ property, reading.MeetsDescription property := by
  cases h with
  | @close parent outer frame text tail rest hend hname =>
    rcases outer with - | ⟨grand, - | ⟨root, outer⟩⟩
    · exact .inl (isDescribed_push_component hnext)
    · exact .inl (hnext.imp_right fun h ↦ ⟨h.1, hasProperty_push_component.1 h.2⟩)
    · exact .inl hnext
  | @«begin» outer frame text tail hend hbegin =>
    rcases outer with - | ⟨parent, outer⟩
    · refine .inl (hnext.resolve_right ?_)
      rintro ⟨-, property, hproperty, -⟩
      exact absurd hproperty List.not_mem_nil
    · exact .inl hnext
  | @property outer frame text rest property hend hbegin hread hshorter =>
    have hstep : Step ⟨outer, frame, text⟩ ⟨outer, frame.push (.property property), _⟩ :=
      .property hend hbegin hread hshorter
    rcases outer with - | ⟨parent, - | ⟨grand, outer⟩⟩
    · exact (isDescribed_push_property hnext).imp_right fun h ↦
        ⟨property, h.1, h.2.1, h.2.2, _, hstep⟩
    · rcases hnext with hroot | ⟨hin, hdescription⟩
      · exact .inl (.inl hroot)
      · by_cases hfirst : frame.HasProperty descriptionName
        · exact .inl (.inr ⟨hin, hfirst⟩)
        · exact .inr ⟨property, hin, hfirst,
            (hasProperty_push_property.1 hdescription).resolve_left hfirst, _, hstep⟩
    · exact .inl hnext

/-- A description that has been read at the end of a run had been read at its start, or is read on the
way. -/
theorem Reaches.described (h : reading.Reaches later) (hlater : Described later.outer later.frame) :
    Described reading.outer reading.frame ∨ ∃ meeting property, reading.Reaches meeting ∧
      meeting.Reaches later ∧ meeting.MeetsDescription property := by
  induction h with
  | refl => exact .inl hlater
  | tail hreach hstep ih =>
    rcases hstep.described hlater with hbefore | ⟨property, hmeets⟩
    · refine (ih hbefore).imp_right ?_
      rintro ⟨meeting, property, hfirst, hsecond, hmeets⟩
      exact ⟨meeting, property, hfirst, hsecond.tail hstep, hmeets⟩
    · exact .inr ⟨_, property, hreach, .single hstep, hmeets⟩

/-- A run that yields a component ends where the outermost frame is closed into it. -/
theorem exists_closes {reading : Reading} {answer : Component × List Char}
    (h : reading.body = some answer) : ∃ (last : Reading) (rest : List Char),
      reading.Reaches last ∧ last.Closes rest ∧ last.frame.close = answer.1 := by
  rcases step_or_closes (by rw [h]; simp) with ⟨next, hstep⟩ | ⟨rest, hcloses⟩
  · have hshorter := hstep.length_lt
    obtain ⟨last, rest, hreach, hcloses, hlast⟩ := exists_closes (hstep.body_eq.symm.trans h)
    exact ⟨last, rest, .head hstep hreach, hcloses, hlast⟩
  · have hanswer := Option.some.inj (hcloses.body_eq.symm.trans h)
    exact ⟨reading, rest, .refl, hcloses, congrArg Prod.fst hanswer⟩
termination_by reading.text.length

/-- What the event of a text shows as its narrative is the property that the reader meets. -/
theorem exists_meetsDescription {text : List Char} {component : Component} {event : Event}
    {narrative : String} (hcomponent : Component.ofText? text = some component)
    (hevent : component.heldEvent? = some event) (hnarrative : event.narrative = some narrative) :
    ∃ (meeting : Reading) (property : Property), meeting.ComesFrom text ∧
      meeting.MeetsDescription property ∧ property.reading = narrative := by
  obtain ⟨found, hfound, rfl⟩ := Option.map_eq_some_iff.1 hevent
  obtain ⟨start, hstart, hbody⟩ := ofText?_eq_some_iff.1 hcomponent
  obtain ⟨last, rest, hreach, ⟨houter, -⟩, rfl⟩ := exists_closes hbody
  have hlast : Described last.outer last.frame := by
    rw [narrative_ofComponent] at hnarrative
    obtain ⟨property, hproperty, -⟩ := Option.map_eq_some_iff.1 hnarrative
    have hkind := List.find?_some hproperty
    have hname : property.name = descriptionName := beq_iff_eq.1 hkind
    rw [houter]
    exact ⟨found, hfound, property, List.mem_of_find?_eq_some hproperty, hname⟩
  have hnone : ¬ Described start.outer start.frame := by
    obtain ⟨tail, -, rfl⟩ := Option.map_eq_some_iff.1 hstart
    exact not_isDescribed_new _
  obtain ⟨meeting, property, hcomes, -, hmeets⟩ := (hreach.described hlast).resolve_left hnone
  refine ⟨meeting, property, ⟨start, hstart, hcomes⟩, hmeets, ?_⟩
  obtain ⟨hin, hfirst, hname, behind, hstep⟩ := hmeets
  have hpushed : readBody meeting.outer (meeting.frame.push (.property property)) behind =
      some (last.frame.close, []) := (hcomes.body_eq.trans hstep.body_eq).symm.trans hbody
  obtain ⟨added, adds, hrebuild, -⟩ := exists_rebuild_push hpushed (.property property)
  rw [hrebuild] at hevent
  exact Option.some.inj ((narrative_eq_reading hin hfirst hname hevent).symm.trans hnarrative)

end Reading

end CalendarCommand
