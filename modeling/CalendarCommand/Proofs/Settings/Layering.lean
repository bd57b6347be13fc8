import CalendarCommand.Command.Engine
import CalendarCommand.Proofs.Settings.SettingsFile

/-!
# Settings field by field

The value of each field comes from the uppermost layer that has one for it: the variable of the field, the
document, or the default.  Only then is it converted, and only settings that are made up of converted
values are checked.  So loading comes down to three winning values.  It succeeds exactly when each of them
can be converted and the settings that they make up are valid; a value that does not win need not even
be one that the field can hold.

A key of the document need not be the name of a field to give it a value: it may also lead into the
field.  What it gives to the field is then a table or an array, which cannot be converted.
-/

namespace CalendarCommand

/-- The value, where it does not consist of other values. -/
def Toml.single? : Toml → Option Toml
  | .array _ => none
  | .table _ _ => none
  | .tables _ _ => none
  | value => some value

inductive SettingsField where
  | foldWidth
  | timestampFormat
  | commandPrefix
deriving DecidableEq, Repr

namespace SettingsField

def key : SettingsField → String
  | .foldWidth => "fold_width"
  | .timestampFormat => "timestamp_format"
  | .commandPrefix => "command_prefix"

def variableName : SettingsField → String
  | .foldWidth => "CALMANAGE_FOLD_WIDTH"
  | .timestampFormat => "CALMANAGE_TIMESTAMP_FORMAT"
  | .commandPrefix => "CALMANAGE_COMMAND_PREFIX"

theorem key_injective {field other : SettingsField} (h : field.key = other.key) : field = other := by
  cases field <;> cases other <;> first | rfl | exact absurd h (by decide)

theorem settingKey?_variableName (field : SettingsField) :
    Environment.settingKey? field.variableName = some field.key := by
  cases field <;> decide

theorem keyPath_key (field : SettingsField) :
    KeyPath.ofText field.key = { name := field.key, steps := [] } := by
  cases field <;> decide +kernel

end SettingsField

namespace Settings

variable {environment : Environment} {overrides : SettingsField → Option String}
variable {members : List (String × Toml)} {values : SettingsField → Option Toml}
variable {layer : List (String × Toml)} {key : String}

/-! ## One layer -/

theorem layerValue?_eq_none (h : ∀ entry ∈ layer, (KeyPath.ofText entry.1).name ≠ key) :
    layerValue? layer key = none := by
  rw [layerValue?, List.findSome?_eq_none_iff]
  intro entry hentry
  exact if_neg (h entry (List.mem_reverse.1 hentry))

/-- A layer that has entries for a key has the value of one of them. -/
theorem exists_layerValue?_eq_some {entry : String × Toml} (hentry : entry ∈ layer)
    (hname : (KeyPath.ofText entry.1).name = key) :
    ∃ other ∈ layer, (KeyPath.ofText other.1).name = key ∧
      layerValue? layer key = some (Toml.enclose (KeyPath.ofText other.1).steps other.2) := by
  rw [layerValue?]
  cases hfound : layer.reverse.findSome? fun entry ↦
      if (KeyPath.ofText entry.1).name = key then
        some (Toml.enclose (KeyPath.ofText entry.1).steps entry.2) else none with
  | none =>
    have hnone := List.findSome?_eq_none_iff.1 hfound entry (List.mem_reverse.2 hentry)
    rw [if_pos hname] at hnone
    cases hnone
  | some found =>
    obtain ⟨other, hother, hsome⟩ := List.exists_of_findSome?_eq_some hfound
    split_ifs at hsome with hkey
    exact ⟨other, List.mem_reverse.1 hother, hkey, hsome.symm⟩

/-! ## The layers of a run -/

/-- The variables assign texts to fields, and no other variable is one for settings. -/
structure Assigns (environment : Environment) (overrides : SettingsField → Option String) :
    Prop where
  sets : ∀ field text, overrides field = some text → (field.variableName, text) ∈ environment
  only : ∀ name text, (name, text) ∈ environment → Environment.settingKey? name ≠ none →
    ∃ field, name = field.variableName ∧ overrides field = some text

/-- The value that the members of a document give to a field.  It is that of the member with the key of
the field, where no other key leads into the field.  Keys that lead into it make it some table or
array. -/
inductive Gives (members : List (String × Toml)) (field : SettingsField) : Option Toml → Prop
  | absent (h : ∀ member ∈ members, (KeyPath.ofText member.1).name ≠ field.key) :
      Gives members field none
  | own {value : Toml} (hmember : (field.key, value) ∈ members)
      (honly : ∀ member ∈ members, (KeyPath.ofText member.1).name = field.key →
        member = (field.key, value)) :
      Gives members field (some value)
  | compound {member : String × Toml} {given : Toml} (hmember : member ∈ members)
      (hname : (KeyPath.ofText member.1).name = field.key)
      (hcompound : ∀ member ∈ members, (KeyPath.ofText member.1).name = field.key →
        (Toml.enclose (KeyPath.ofText member.1).steps member.2).single? = none)
      (hgiven : given.single? = none) :
      Gives members field (some given)

/-- The value that wins for a field where a layer has one: that of the variable, or else that of the
document. -/
def winner (overrides : SettingsField → Option String) (values : SettingsField → Option Toml)
    (field : SettingsField) : Option Toml :=
  ((overrides field).map Toml.string).or (values field)

/-- What the variables have for a field is the text that they assign to it. -/
theorem Assigns.exists_text (h : Assigns environment overrides) {field : SettingsField}
    {entry : String × Toml} (hentry : entry ∈ environment.settings)
    (hname : (KeyPath.ofText entry.1).name = field.key) :
    ∃ text, overrides field = some text ∧ entry = (field.key, .string text) := by
  obtain ⟨⟨name, text⟩, hvariable, hnamed⟩ := List.mem_filterMap.1 hentry
  obtain ⟨key, hkey, rfl⟩ := Option.map_eq_some_iff.1 hnamed
  have hmarked : Environment.settingKey? name ≠ none := Option.ne_none_iff_exists'.2 ⟨key, hkey⟩
  obtain ⟨other, rfl, htext⟩ := h.only name text hvariable hmarked
  obtain rfl := Option.some.inj (other.settingKey?_variableName.symm.trans hkey)
  rw [SettingsField.keyPath_key] at hname
  obtain rfl := SettingsField.key_injective hname
  exact ⟨text, htext, rfl⟩

theorem layerValue?_environment (h : Assigns environment overrides) (field : SettingsField) :
    layerValue? environment.settings field.key = (overrides field).map Toml.string := by
  cases htext : overrides field with
  | none =>
    refine layerValue?_eq_none fun entry hmem hname ↦ ?_
    obtain ⟨text, hsome, -⟩ := h.exists_text hmem hname
    rw [htext] at hsome
    cases hsome
  | some text =>
    have hset : (field.key, Toml.string text) ∈ environment.settings := by
      refine List.mem_filterMap.2 ⟨_, h.sets field text htext, ?_⟩
      rw [SettingsField.settingKey?_variableName]
      rfl
    obtain ⟨entry, hmem, hname, hvalue⟩ :=
      exists_layerValue?_eq_some hset (by rw [SettingsField.keyPath_key])
    obtain ⟨other, hsome, rfl⟩ := h.exists_text hmem hname
    rw [htext] at hsome
    obtain rfl := Option.some.inj hsome
    rw [hvalue, SettingsField.keyPath_key]
    rfl

/-- Up to what stands in a table or an array, a document has the value for a field that it gives to the
field. -/
theorem map_single?_layerValue?_members {field : SettingsField} {value : Option Toml}
    (h : Gives members field value) :
    (layerValue? members field.key).map Toml.single? = value.map Toml.single? := by
  cases h with
  | absent h => rw [layerValue?_eq_none h]
  | own hmember honly =>
    obtain ⟨other, hmem, hname, hvalue⟩ :=
      exists_layerValue?_eq_some hmember (by rw [SettingsField.keyPath_key])
    rw [hvalue, honly other hmem hname, SettingsField.keyPath_key]
    rfl
  | compound hmember hname hcompound hgiven =>
    obtain ⟨other, hmem, hname, hvalue⟩ := exists_layerValue?_eq_some hmember hname
    rw [hvalue, Option.map_some, Option.map_some, hcompound other hmem hname, hgiven]

/-- The winning value of a field; what the document gives to a field with a variable does not count. -/
theorem map_single?_layered? (henvironment : Assigns environment overrides)
    (hvalues : ∀ field, overrides field = none → Gives members field (values field))
    (field : SettingsField) : (layered? members environment field.key).map Toml.single? =
      (winner overrides values field).map Toml.single? := by
  rw [layered?, layerValue?_environment henvironment, winner]
  cases htext : overrides field with
  | none => exact map_single?_layerValue?_members (hvalues field htext)
  | some text => rfl

/-! ## Winning values -/

/-- The value that a field takes: the winning one as it is converted, or the default. -/
def Takes {α : Type} (convert? : Toml → Option α) (default : α) (winning : Option Toml) (value : α) :
    Prop :=
  match winning with
  | none => value = default
  | some winning => convert? winning = some value

instance {α : Type} [DecidableEq α] {convert? : Toml → Option α} {default value : α} :
    (winning : Option Toml) → Decidable (Takes convert? default winning value)
  | none => inferInstanceAs (Decidable (value = default))
  | some winning => inferInstanceAs (Decidable (convert? winning = some value))

/-- The settings are made up of the winning values. -/
structure Wins (winning : SettingsField → Option Toml) (settings : Settings) : Prop where
  foldWidth : Takes widthOf? default.foldWidth (winning .foldWidth) settings.foldWidth
  timestampFormat :
    Takes textOf? default.timestampFormat (winning .timestampFormat) settings.timestampFormat
  commandPrefix : Takes (fun value ↦ (textOf? value).map some) default.commandPrefix
    (winning .commandPrefix) settings.commandPrefix

theorem field?_eq_some_iff {α : Type} {convert? : Toml → Option α} {default value : α} :
    field? members environment key convert? default = some value ↔
      Takes convert? default (layered? members environment key) value := by
  rw [field?]
  cases layered? members environment key with
  | none => simp [Takes, eq_comm]
  | some winning => rfl

theorem ofLayers?_eq_some_iff {settings : Settings} :
    ofLayers? members environment = some settings ↔
      Wins (fun field ↦ layered? members environment field.key) settings := by
  obtain ⟨width, format, commandPrefix⟩ := settings
  simp only [ofLayers?, Option.bind_eq_bind, Option.bind_eq_some_iff, Option.pure_def,
    Option.some.injEq, field?_eq_some_iff, Settings.mk.injEq]
  constructor
  · rintro ⟨_, hwidth, _, hformat, _, hprefix, rfl, rfl, rfl⟩
    exact ⟨hwidth, hformat, hprefix⟩
  · rintro ⟨hwidth, hformat, hprefix⟩
    exact ⟨width, hwidth, format, hformat, commandPrefix, hprefix, rfl, rfl, rfl⟩

/-! ## What a table or an array holds -/

theorem widthOf?_eq_bind (value : Toml) : widthOf? value = value.single?.bind widthOf? := by
  cases value <;> rfl

theorem textOf?_eq_bind (value : Toml) : textOf? value = value.single?.bind textOf? := by
  cases value <;> rfl

theorem some_textOf?_eq_bind (value : Toml) :
    (textOf? value).map some = value.single?.bind fun value ↦ (textOf? value).map some := by
  cases value <;> rfl

/-- A conversion that refuses tables and arrays does not look into them. -/
theorem convert?_congr {α : Type} {convert? : Toml → Option α} {value other : Toml}
    (hconvert : ∀ value, convert? value = value.single?.bind convert?)
    (h : value.single? = other.single?) : convert? value = convert? other := by
  rw [hconvert value, h, ← hconvert other]

theorem Takes.congr {α : Type} {convert? : Toml → Option α} {default value : α}
    {winning other : Option Toml} (htakes : Takes convert? default winning value)
    (hconvert : ∀ value, convert? value = value.single?.bind convert?)
    (h : winning.map Toml.single? = other.map Toml.single?) :
    Takes convert? default other value := by
  cases winning with
  | none => rwa [Option.map_eq_none_iff.1 h.symm]
  | some winning =>
    obtain ⟨other, rfl, hother⟩ := Option.map_eq_some_iff.1 h.symm
    rwa [Takes, convert?_congr hconvert hother]

theorem Wins.congr {winning other : SettingsField → Option Toml} {settings : Settings}
    (hwins : Wins winning settings)
    (h : ∀ field, (winning field).map Toml.single? = (other field).map Toml.single?) :
    Wins other settings where
  foldWidth := hwins.foldWidth.congr widthOf?_eq_bind (h .foldWidth)
  timestampFormat := hwins.timestampFormat.congr textOf?_eq_bind (h .timestampFormat)
  commandPrefix := hwins.commandPrefix.congr some_textOf?_eq_bind (h .commandPrefix)

/-! ## Loading -/

section

variable [SettingsLibrary] {tree : FileTree} {directory : Place} {path : String}

theorem load_eq_ok_iff {settings : Settings} :
    load tree directory environment path = .ok settings ↔
      read? (file? tree directory (Path.expandHome (environment.value? "HOME") path)) environment =
          some settings ∧ settings.validate = .ok () := by
  rw [load]
  cases read? (file? tree directory (Path.expandHome (environment.value? "HOME") path))
      environment with
  | none => simp
  | some found =>
    dsimp only
    rw [Option.some.injEq]
    cases hvalid : found.validate with
    | error fault =>
      refine iff_of_false nofun ?_
      rintro ⟨rfl, hok⟩
      rw [hvalid] at hok
      cases hok
    | ok checked =>
      rw [Except.ok.injEq]
      exact ⟨fun heq ↦ ⟨heq, heq ▸ hvalid⟩, And.left⟩

/-- Loading settings succeeds exactly when the winning value of each field can be converted and the
settings that they make up are valid; these are the settings loaded, and there is an engine for them. -/
theorem load_takes_winning_values (hpath : Path.EndsInToml path)
    (hsupplies : Supplies tree directory (Path.expandHome (environment.value? "HOME") path) members)
    (hvalues : ∀ field, overrides field = none → Gives members field (values field))
    (henvironment : Assigns environment overrides) :
    (∀ settings, load tree directory environment path = .ok settings ↔
      Wins (winner overrides values) settings ∧ settings.validate = .ok ()) ∧
    ∀ settings, load tree directory environment path = .ok settings →
      ∃ engine, Engine.ofSettings settings = .ok engine := by
  have hwinner := map_single?_layered? henvironment hvalues
  have hread := hsupplies.read?_eq (hpath.expandHome _) environment
  constructor
  · intro settings
    rw [load_eq_ok_iff, hread, ofLayers?_eq_some_iff]
    exact and_congr_left fun _ ↦
      ⟨fun hwins ↦ hwins.congr hwinner, fun hwins ↦ hwins.congr fun field ↦ (hwinner field).symm⟩
  · intro settings h
    rw [Engine.ofSettings, (load_eq_ok_iff.1 h).2]
    exact ⟨_, rfl⟩

end

/-! ### A hidden value -/

/-- A choice for the prefix, and a key that leads into the width. -/
def hiddenText : String :=
  "command_prefix = true\n\"fold_width.x\" = \"wide\"\n"

def hiddenMembers : List (String × Toml) :=
  [("command_prefix", .boolean true), ("fold_width.x", .string "wide")]

/-- What the members give to the other fields. -/
def hiddenValues : SettingsField → Option Toml
  | .commandPrefix => some (.boolean true)
  | _ => none

def hiddenTree : FileTree :=
  .ofEntries [(["home", "settings.toml"], .file (.text hiddenText))]

def hidingTexts : SettingsField → Option String
  | .foldWidth => some "+064"
  | _ => none

def hidingEnvironment : Environment :=
  [("HOME", "/home"), ("CALMANAGE_FOLD_WIDTH", "+064")]

theorem hiddenTree_supplies : Supplies hiddenTree []
    (Path.expandHome (hidingEnvironment.value? "HOME") "~/settings.toml") hiddenMembers := by
  have hfile : hiddenTree.content? []
      (Path.expandHome (hidingEnvironment.value? "HOME") "~/settings.toml") =
        some (.text hiddenText) := by
    decide +kernel
  have hmark : withoutMark (Content.text hiddenText).lossyText = hiddenText := by
    decide +kernel
  refine .own hfile ?_ ?_
  · rw [Path.IsBare]
    decide +kernel
  · rw [Holds, hmark]
    with_unfolding_all rfl

theorem gives_hiddenMembers (field : SettingsField) (h : hidingTexts field = none) :
    Gives hiddenMembers field (hiddenValues field) := by
  cases field with
  | foldWidth => cases h
  | timestampFormat =>
    refine .absent (List.forall_mem_cons.2 ⟨?_, List.forall_mem_singleton.2 ?_⟩)
    · decide +kernel
    · decide +kernel
  | commandPrefix =>
    refine .own (.head _) (List.forall_mem_cons.2 ⟨fun _ ↦ rfl,
      List.forall_mem_singleton.2 fun hname ↦ ?_⟩)
    exact absurd hname (by decide +kernel)

theorem assigns_hidingEnvironment : Assigns hidingEnvironment hidingTexts where
  sets field text htext := by
    cases field <;> cases htext
    decide
  only name text hvariable hmarked := by
    rcases List.mem_cons.1 hvariable with hhome | hwidth
    · cases hhome
      exact absurd (by decide) hmarked
    · cases List.mem_singleton.1 hwidth
      exact ⟨.foldWidth, rfl, rfl⟩

theorem load_takes_winning_values_hidden :
    Path.EndsInToml "~/settings.toml" ∧
    Supplies hiddenTree [] (Path.expandHome (hidingEnvironment.value? "HOME") "~/settings.toml")
      hiddenMembers ∧
    (∀ field, hidingTexts field = none → Gives hiddenMembers field (hiddenValues field)) ∧
    Assigns hidingEnvironment hidingTexts ∧
    load hiddenTree [] hidingEnvironment "~/settings.toml" =
      .ok { default with foldWidth := 64, commandPrefix := some "true" } := by
  have hpath : Path.EndsInToml "~/settings.toml" := by
    rw [Path.EndsInToml]
    decide
  have hload := (load_takes_winning_values hpath hiddenTree_supplies gives_hiddenMembers
    assigns_hidingEnvironment).1
  refine ⟨hpath, hiddenTree_supplies, gives_hiddenMembers, assigns_hidingEnvironment,
    (hload _).2 ⟨⟨?_, ?_, ?_⟩, ?_⟩⟩
  · decide +kernel
  · decide +kernel
  · decide +kernel
  · decide +kernel

/-! ## The plain layers -/

/-- The value that the member with the key of a field gives to it. -/
def ownValue? (members : List (String × Toml)) (field : SettingsField) : Option Toml :=
  (members.find? fun member ↦ member.1 == field.key).map Prod.snd

/-- Settings are loaded from a path that ends in `.toml` as if only those keys of a document counted that
are the keys of fields. -/
def LayersPlainly (tree : FileTree) (directory : Place) (environment : Environment) (path : String) :
    Prop :=
  ∀ members overrides, Path.EndsInToml path →
    Supplies tree directory (Path.expandHome (environment.value? "HOME") path) members →
    Assigns environment overrides → ∀ settings, load tree directory environment path = .ok settings ↔
      Wins (winner overrides (ownValue? members)) settings ∧ settings.validate = .ok ()

theorem assigns_nil : Assigns [] fun _ ↦ none where
  sets _ _ htext := nomatch htext
  only _ _ hvariable := absurd hvariable List.not_mem_nil

/-- A key that leads into a field is no key of its own. -/
def keyPathTree : FileTree :=
  .ofEntries [(["settings.toml"], .file (.text "\"fold_width.x\" = true\n"))]

/-- The layers are not plain: a key that is the key of no field may lead into one. -/
theorem not_layersPlainly : ¬ LayersPlainly keyPathTree [] [] "settings.toml" := by
  intro h
  have hpath : Path.EndsInToml "settings.toml" := by
    rw [Path.EndsInToml]
    decide
  have hfile : keyPathTree.content? [] (Path.expandHome none "settings.toml") =
      some (.text "\"fold_width.x\" = true\n") := by
    decide +kernel
  have hbare : ¬ Path.IsBare "settings.toml" := by
    rw [Path.IsBare]
    decide +kernel
  have hholds : Holds (.text "\"fold_width.x\" = true\n") [("fold_width.x", .boolean true)] := by
    rw [Holds]
    with_unfolding_all rfl
  -- The default settings would be loaded.
  have hload := (h _ _ hpath (.own hfile hbare hholds) assigns_nil default).2
    ⟨⟨by decide +kernel, by decide +kernel, by decide +kernel⟩, by decide +kernel⟩
  exact absurd hload (by decide +kernel)

end Settings

end CalendarCommand
