import CalendarCommand.Exchange.Event
import CalendarCommand.Proofs.Exchange.Management

/-!
# Values and their spellings

Every value that is exchanged is written in one way and may be spelled in many.  A record may carry
members of other names, in any order, may leave out what may be absent or give `null` for it, and may
stand as an array; a choice may stand as an object.  Whatever the spelling, decoding a value and writing
it again gives its one written form, which is decoded to the same value.

A response tells an outcome in other parts than the outcome has.  It still tells all of it: outcomes that
are printed alike are the same.
-/

namespace CalendarCommand

namespace Json

variable {α : Type} {toJson : α → Json} {ofJson? : Json → Option α}
variable {members other : List (String × Json)} {name : String}

/-! ## The fields of an object -/

/-- What a member gives for a field that may be absent, where `null` is as good as nothing. -/
def unlessNull (value : Option Json) : Option Json :=
  value.filter fun json ↦ !json.isNull

/-- What members give for a field that may be absent; `none` where they give it more than once. -/
def given? (members : List (String × Json)) (name : String) : Option (Option Json) :=
  (onlyMember? members name).map unlessNull

theorem optional?_unlessNull {β : Type} (decode : Json → Option β) (value : Option Json) :
    optional? decode (unlessNull value) = optional? decode value := by
  rcases value with _ | json
  · rfl
  · cases json <;> rfl

/-- The order of members has no effect on what there is for a name. -/
theorem onlyMember?_eq_of_perm (h : members.Perm other) (name : String) :
    onlyMember? members name = onlyMember? other name := by
  have hnamed := h.filter fun member ↦ member.1 == name
  have hlength := hnamed.length_eq
  rw [onlyMember?, onlyMember?]
  generalize members.filter (fun member ↦ member.1 == name) = named at hnamed hlength ⊢
  generalize other.filter (fun member ↦ member.1 == name) = renamed at hnamed hlength ⊢
  rcases named with _ | ⟨first, _ | ⟨second, rest⟩⟩
  · rw [List.nil_perm.1 hnamed]
  · rw [List.singleton_perm.1 hnamed]
  · rcases renamed with _ | ⟨_, _ | ⟨_, _⟩⟩
    · cases hlength
    · cases hlength
    · rfl

theorem filter_name_eq_nil (h : name ∉ members.map Prod.fst) :
    members.filter (fun member ↦ member.1 == name) = [] := by
  refine List.filter_eq_nil_iff.2 fun member hmember hname ↦ h ?_
  exact eq_of_beq hname ▸ List.mem_map_of_mem hmember

theorem onlyMember?_cons_of_ne {field : String} (h : field ≠ name) (value : Json) :
    onlyMember? ((field, value) :: members) name = onlyMember? members name := by
  rw [onlyMember?, onlyMember?, List.filter_cons_of_neg (by simpa using h)]

/-- An explicit `null` gives no more than an absent member. -/
theorem given?_null_cons (h : name ∉ members.map Prod.fst) (field : String) :
    given? ((name, .null) :: members) field = given? members field := by
  by_cases hfield : name = field
  · subst hfield
    have hnone := filter_name_eq_nil h
    have hone : ((name, Json.null) :: members).filter (fun member ↦ member.1 == name) =
        [(name, .null)] := by
      rw [List.filter_cons_of_pos (by simp), hnone]
    rw [given?, given?, onlyMember?, onlyMember?, hone, hnone]
    rfl
  · rw [given?, given?, onlyMember?_cons_of_ne hfield]

/-- Decoding goes on alike with a field for which two lists of members give the same. -/
theorem bind_onlyMember?_eq {β : Type} {decode redecode : Option Json → Option β}
    (h : given? members name = given? other name)
    (hdecode : ∀ value again, unlessNull value = unlessNull again → decode value = redecode again) :
    (onlyMember? members name).bind decode = (onlyMember? other name).bind redecode := by
  rw [given?, given?] at h
  cases hvalue : onlyMember? members name with
  | none =>
    rw [hvalue, Option.map_none, eq_comm, Option.map_eq_none_iff] at h
    rw [h]
    rfl
  | some value =>
    rw [hvalue, Option.map_some, eq_comm, Option.map_eq_some_iff] at h
    obtain ⟨again, hagain, heq⟩ := h
    rw [hagain]
    exact hdecode value again heq.symm

/-! ## Laws of decoding -/

/-- Decoding a value and writing it again. -/
def recode? (toJson : α → Json) (ofJson? : Json → Option α) (json : Json) : Option Json :=
  (ofJson? json).map toJson

/-- Writing a value loses nothing of it: it is decoded to itself, and of all that it can be decoded from
there is one form that it is written in. -/
structure Lossless (toJson : α → Json) (ofJson? : Json → Option α) : Prop where
  ofJson?_toJson : ∀ value, ofJson? (toJson value) = some value
  recode?_recode? : ∀ json,
    (recode? toJson ofJson? json).bind (recode? toJson ofJson?) = recode? toJson ofJson? json

theorem Lossless.of_ofJson?_toJson (h : ∀ value, ofJson? (toJson value) = some value) :
    Lossless toJson ofJson? := by
  refine ⟨h, fun json ↦ ?_⟩
  rw [recode?]
  cases ofJson? json with
  | none => rfl
  | some value => rw [Option.map_some, Option.bind_some, recode?, h, Option.map_some]

/-- An object is decoded by what its members give for the fields; for a field that may be absent `null` is
as good as nothing. -/
def ReadsGiven (required optional : List String) (ofJson? : Json → Option α) : Prop :=
  ∀ members other, (∀ name ∈ required, onlyMember? members name = onlyMember? other name) →
    (∀ name ∈ optional, given? members name = given? other name) →
    ofJson? (.object members) = ofJson? (.object other)

/-- The spellings of a record as an object: its members may come in any order, members of other names may
stand among them, and `null` may stand for what is absent. -/
structure ReadsObjects (required optional : List String) (ofJson? : Json → Option α) : Prop where
  order : ∀ members other, members.Perm other → ofJson? (.object members) = ofJson? (.object other)
  unknown : ∀ name value members, name ∉ required → name ∉ optional →
    ofJson? (.object ((name, value) :: members)) = ofJson? (.object members)
  absent : ∀ name members, name ∈ optional → name ∉ members.map Prod.fst →
    ofJson? (.object ((name, .null) :: members)) = ofJson? (.object members)

theorem ReadsGiven.readsObjects {required optional : List String}
    (h : ReadsGiven required optional ofJson?) (hdisjoint : ∀ name ∈ optional, name ∉ required) :
    ReadsObjects required optional ofJson? := by
  constructor
  · intro members other hperm
    refine h members other (fun name _ ↦ onlyMember?_eq_of_perm hperm name) fun name _ ↦ ?_
    rw [given?, given?, onlyMember?_eq_of_perm hperm]
  · intro name value members hrequired hoptional
    refine h _ members (fun field hfield ↦ ?_) fun field hfield ↦ ?_
    · exact onlyMember?_cons_of_ne (ne_of_mem_of_not_mem hfield hrequired).symm value
    · rw [given?, given?, onlyMember?_cons_of_ne (ne_of_mem_of_not_mem hfield hoptional).symm]
  · intro name members hname hmembers
    refine h _ members (fun field hfield ↦ ?_) fun field _ ↦ given?_null_cons hmembers field
    exact onlyMember?_cons_of_ne (ne_of_mem_of_not_mem hfield (hdisjoint name hname)).symm .null

/-- A record is also decoded from the array of its fields, with `null` for what is absent. -/
def ReadsArrays (fields : α → List String) (toJson : α → Json) (ofJson? : Json → Option α) : Prop :=
  ∀ value, ofJson? (.array ((fields value).map (toJson value).get)) = some value

/-- A choice is also decoded from the object whose only member has its name. -/
def ReadsChoices (ofJson? : Json → Option α) : Prop :=
  ∀ name, ofJson? (.object [(name, .null)]) = ofJson? (.string name)

/-- A choice is exchanged without loss, in either of its spellings. -/
structure ExchangesChoice (toJson : α → Json) (ofJson? : Json → Option α) : Prop
    extends Lossless toJson ofJson? where
  choices : ReadsChoices ofJson?

/-- A record is exchanged without loss, in all of its spellings. -/
structure ExchangesRecord (required optional : List String) (fields : α → List String)
    (toJson : α → Json) (ofJson? : Json → Option α) : Prop
    extends Lossless toJson ofJson?, ReadsObjects required optional ofJson? where
  arrays : ReadsArrays fields toJson ofJson?

/-! ## Fields -/

/-- A text that may be absent is decoded from its own form. -/
theorem optional?_ofOptionalText (text : Option String) :
    optional? string? (some (ofOptionalText text)) = some text := by
  cases text <;> rfl

theorem word?_toNat (word : UInt64) : word? (.integer word.toNat) = some word := by
  have hword : (0 : Int) ≤ word.toNat ∧ (word.toNat : Int).toNat < UInt64.size :=
    ⟨Int.natCast_nonneg _, word.toNat_lt_size⟩
  rw [word?, integer?, Option.bind_some, if_pos hword, Int.toNat_natCast, UInt64.ofNat_toNat]

end Json

namespace Classification

theorem ofJson?_toJson (value : Classification) : ofJson? value.toJson = some value := by
  cases value <;> rfl

theorem readsChoices : Json.ReadsChoices ofJson? := fun name ↦ by
  rw [ofJson?, ofJson?]
  all_goals simp [Json.choiceName?]

end Classification

namespace BlockStatus

theorem ofJson?_toJson (status : BlockStatus) : ofJson? status.toJson = some status := by
  cases status <;> rfl

theorem readsChoices : Json.ReadsChoices ofJson? := fun _ ↦ rfl

end BlockStatus

namespace Event

def fieldNames : List String :=
  ["classification", "summary", "narrative"]

theorem ofFields?_toJson (event : Event) :
    ofFields? (some ((event.classification.map Classification.toJson).getD .null))
      (some (Json.ofOptionalText event.summary)) (some (Json.ofOptionalText event.narrative)) =
      some event := by
  have hclassification : Json.optional? Classification.ofJson?
      (some ((event.classification.map Classification.toJson).getD .null)) =
        some event.classification := by
    rcases event.classification with _ | _ | _ | _ | label <;> rfl
  rw [ofFields?, hclassification, Json.optional?_ofOptionalText, Json.optional?_ofOptionalText]
  rfl

theorem ofJson?_toJson (event : Event) : ofJson? event.toJson = some event :=
  event.ofFields?_toJson

theorem readsArrays : Json.ReadsArrays (fun _ ↦ fieldNames) toJson ofJson? :=
  ofFields?_toJson

theorem readsGiven : Json.ReadsGiven [] fieldNames ofJson? := by
  intro members other _ hgiven
  rw [ofJson?, ofJson?]
  refine Json.bind_onlyMember?_eq (hgiven _ (by decide)) fun classification classification' hone ↦ ?_
  refine Json.bind_onlyMember?_eq (hgiven _ (by decide)) fun summary summary' htwo ↦ ?_
  refine Json.bind_onlyMember?_eq (hgiven _ (by decide)) fun narrative narrative' hthree ↦ ?_
  rw [ofFields?, ofFields?, ← Json.optional?_unlessNull _ classification, hone,
    ← Json.optional?_unlessNull _ summary, htwo, ← Json.optional?_unlessNull _ narrative, hthree]
  simp only [Json.optional?_unlessNull]

end Event

namespace Settings

def fieldNames : List String :=
  ["fold_width", "timestamp_format", "command_prefix"]

theorem ofFields?_toJson (settings : Settings) {field : Option Json}
    (h : Json.optional? Json.string? field = some settings.commandPrefix) :
    ofFields? (some (.integer settings.foldWidth.toNat)) (some (.string settings.timestampFormat))
      field = some settings := by
  have hwidth : Json.withDefault? default.foldWidth Json.word?
      (some (.integer settings.foldWidth.toNat)) = some settings.foldWidth :=
    Json.word?_toNat settings.foldWidth
  have hformat : Json.withDefault? default.timestampFormat Json.string?
      (some (.string settings.timestampFormat)) = some settings.timestampFormat := rfl
  rw [ofFields?, hwidth, hformat, h]
  rfl

theorem ofJson?_toJson (settings : Settings) : ofJson? settings.toJson = some settings := by
  obtain ⟨width, format, _ | text⟩ := settings
  · exact ofFields?_toJson ⟨width, format, none⟩ rfl
  · exact ofFields?_toJson ⟨width, format, some text⟩ rfl

theorem readsArrays : Json.ReadsArrays (fun _ ↦ fieldNames) toJson ofJson? := by
  rintro ⟨width, format, _ | text⟩
  · exact ofFields?_toJson ⟨width, format, none⟩ rfl
  · exact ofFields?_toJson ⟨width, format, some text⟩ rfl

theorem readsGiven :
    Json.ReadsGiven ["fold_width", "timestamp_format"] ["command_prefix"] ofJson? := by
  intro members other honly hgiven
  rw [ofJson?, ofJson?, honly _ (by decide), honly "timestamp_format" (by decide)]
  refine Option.bind_congr fun width _ ↦ Option.bind_congr fun format _ ↦ ?_
  refine Json.bind_onlyMember?_eq (hgiven _ (by decide)) fun text text' htext ↦ ?_
  rw [ofFields?, ofFields?, ← Json.optional?_unlessNull _ text, htext]
  simp only [Json.optional?_unlessNull]

end Settings

namespace ManagementRequest

theorem ofJson?_toJson (request : ManagementRequest) : ofJson? request.toJson = some request := rfl

theorem readsArrays : Json.ReadsArrays (fun _ ↦ ["ics"]) toJson ofJson? := fun _ ↦ rfl

theorem readsGiven : Json.ReadsGiven ["ics"] [] ofJson? := by
  intro members other honly _
  rw [ofJson?, ofJson?, honly _ (by decide)]

end ManagementRequest

/-- The status and the text that are told of a block make up what happened to it. -/
theorem BlockEffect.eq_of_status_of_text {block other : BlockEffect}
    (hstatus : block.status = other.status) (htext : block.text? = other.text?) : block = other := by
  cases block <;> cases other <;> simp_all [status, text?]

namespace ManagementResponse

def fieldNames : ManagementResponse → List String
  | .notCommand => ["outcome"]
  | .applied .. => ["outcome", "command", "narrative", "rewrite", "ics"]

theorem readsArrays : Json.ReadsArrays fieldNames toJson ofJson? := by
  rintro (_ | ⟨command, narrative, status, text⟩)
  · rfl
  · cases narrative <;> cases status <;> cases text <;> rfl

theorem readsGiven :
    Json.ReadsGiven ["outcome", "command", "rewrite"] ["narrative", "ics"] ofJson? := by
  intro members other honly hgiven
  have hmembers : ofMembers? members = ofMembers? other := by
    rw [ofMembers?, ofMembers?, honly "command" (by decide), honly "rewrite" (by decide)]
    refine Option.bind_congr fun command _ ↦ ?_
    refine Json.bind_onlyMember?_eq (hgiven _ (by decide)) fun narrative narrative' hone ↦ ?_
    refine Option.bind_congr fun status _ ↦ ?_
    refine Json.bind_onlyMember?_eq (hgiven _ (by decide)) fun text text' htwo ↦ ?_
    rw [ofFields?, ofFields?, ← Json.optional?_unlessNull _ narrative, hone,
      ← Json.optional?_unlessNull _ text, htwo]
    simp only [Json.optional?_unlessNull]
  rw [ofJson?, ofJson?, honly "outcome" (by decide), hmembers]

/-- A response tells all of the outcome that it is made for. -/
theorem ofOutcome_injective : Function.Injective ofOutcome := by
  rintro (_ | ⟨command, shown, block⟩) (_ | ⟨command', shown', block'⟩) h
  · rfl
  · cases h
  · cases h
  · obtain ⟨hcommand, hshown, hstatus, htext⟩ := ManagementResponse.applied.inj h
    rw [hcommand, hshown, BlockEffect.eq_of_status_of_text hstatus htext]

/-- Responses that are printed alike are the same. -/
theorem pretty_toJson_injective : Function.Injective fun response ↦ (toJson response).pretty := by
  intro first second h
  have hread (response : ManagementResponse) :
      (Json.ofText? (toJson response).pretty.toList).bind ofJson? = some response := by
    have htext : Json.ofText? ((toJson response).pretty.toList ++ []) = some (toJson response) :=
      Json.ofText?_pretty response.numberFree_toJson nofun
    rw [List.append_nil] at htext
    rw [htext, Option.bind_some, ofJson?_toJson]
  have hboth := hread first
  dsimp only at h
  rw [h, hread second] at hboth
  exact (Option.some.inj hboth).symm

/-- The text of a block is told exactly when the block is replaced. -/
theorem ics_mem_toJson_iff (outcome : Outcome) : ∃ members,
    (ofOutcome outcome).toJson = .object members ∧
      ("ics" ∈ members.map Prod.fst ↔ ("rewrite", .string "rewritten") ∈ members) := by
  obtain _ | ⟨command, shown, block⟩ := outcome
  · exact ⟨_, rfl, by simp⟩
  · refine ⟨_, rfl, ?_⟩
    cases shown <;> cases block <;>
      simp [BlockEffect.status, BlockEffect.text?, BlockStatus.toJson, BlockStatus.name, Json.textMember]

end ManagementResponse

/-- All values that are exchanged are exchanged without loss and may come in all of their spellings.
Outcomes whose responses are printed alike are the same, and a response holds a text exactly when it says
that the stored one is replaced. -/
theorem exchange_loses_nothing :
    Json.ExchangesChoice Classification.toJson Classification.ofJson? ∧
    Json.ExchangesChoice BlockStatus.toJson BlockStatus.ofJson? ∧
    Json.ExchangesRecord [] Event.fieldNames (fun _ ↦ Event.fieldNames) Event.toJson
      Event.ofJson? ∧
    Json.ExchangesRecord ["fold_width", "timestamp_format"] ["command_prefix"]
      (fun _ ↦ Settings.fieldNames) Settings.toJson Settings.ofJson? ∧
    Json.ExchangesRecord ["ics"] [] (fun _ ↦ ["ics"]) ManagementRequest.toJson
      ManagementRequest.ofJson? ∧
    Json.ExchangesRecord ["outcome", "command", "rewrite"] ["narrative", "ics"]
      ManagementResponse.fieldNames ManagementResponse.toJson ManagementResponse.ofJson? ∧
    (∀ first second : Outcome, (ManagementResponse.ofOutcome first).toJson.pretty =
        (ManagementResponse.ofOutcome second).toJson.pretty → first = second) ∧
    ∀ outcome, ∃ members, (ManagementResponse.ofOutcome outcome).toJson = .object members ∧
      ("ics" ∈ members.map Prod.fst ↔ ("rewrite", .string "rewritten") ∈ members) := by
  refine ⟨⟨.of_ofJson?_toJson Classification.ofJson?_toJson, Classification.readsChoices⟩,
    ⟨.of_ofJson?_toJson BlockStatus.ofJson?_toJson, BlockStatus.readsChoices⟩,
    ⟨.of_ofJson?_toJson Event.ofJson?_toJson, Event.readsGiven.readsObjects (by decide),
      Event.readsArrays⟩,
    ⟨.of_ofJson?_toJson Settings.ofJson?_toJson, Settings.readsGiven.readsObjects (by decide),
      Settings.readsArrays⟩,
    ⟨.of_ofJson?_toJson ManagementRequest.ofJson?_toJson,
      ManagementRequest.readsGiven.readsObjects (by decide), ManagementRequest.readsArrays⟩,
    ⟨.of_ofJson?_toJson ManagementResponse.ofJson?_toJson,
      ManagementResponse.readsGiven.readsObjects (by decide), ManagementResponse.readsArrays⟩,
    fun first second h ↦ ?_, ManagementResponse.ics_mem_toJson_iff⟩
  exact ManagementResponse.ofOutcome_injective (ManagementResponse.pretty_toJson_injective h)

end CalendarCommand
