import HostedSearch.Proofs.Number.WordText
import HostedSearch.Settings.File

/-!
# Layers of settings

A file and the environment each provide some of the settings. Layers that lie one over the other
give every setting the value of the highest layer that provides it, whatever they say about the
other settings. The settings of a file are those of its one layer over the initial ones, and the
environment lays its own layer over whatever settings it finds; a second time it changes nothing.
-/

namespace HostedSearch

/-- The mode that a text names in any case. -/
theorem Mode.ofText?_eq_some_iff {text : String} {mode : Mode} :
    ofText? text = some mode ↔ sameWord text mode.word := by
  constructor
  · intro h
    simpa using List.find?_some h
  · intro h
    cases mode with
    | sandbox => exact List.find?_cons_of_pos h
    | live =>
      -- The two words differ, so a text that names the second does not name the first.
      have hother : sameWord text sandbox.word = false := by
        refine Bool.eq_false_iff.mpr fun hsandbox => ?_
        exact absurd ((beq_iff_eq.mp hsandbox).symm.trans (beq_iff_eq.mp h)) (by decide)
      simp [ofText?, hother, h]

namespace Settings

/-- What one source of settings provides. -/
structure Layer where
  searchDomain : Option String := none
  region : Option String := none
  apiVersion : Option String := none
  mode : Option Mode := none
  timeoutSeconds : Option UInt64 := none
  searchEndpoint : Option String := none
  documentEndpoint : Option String := none

/-- The settings that layers give, the highest first: each setting has the value of the first layer
that provides it, and else its initial value. -/
def ofLayers (layers : List Layer) : Settings where
  searchDomain := layers.findSome? Layer.searchDomain
  region := (layers.findSome? Layer.region).getD initial.region
  apiVersion := (layers.findSome? Layer.apiVersion).getD initial.apiVersion
  mode := (layers.findSome? Layer.mode).getD initial.mode
  timeoutSeconds := (layers.findSome? Layer.timeoutSeconds).getD initial.timeoutSeconds
  searchEndpoint := layers.findSome? Layer.searchEndpoint
  documentEndpoint := layers.findSome? Layer.documentEndpoint

namespace Layer

/-- The settings with those that the layer provides in their place. -/
def onto (layer : Layer) (settings : Settings) : Settings where
  searchDomain := layer.searchDomain.or settings.searchDomain
  region := layer.region.getD settings.region
  apiVersion := layer.apiVersion.getD settings.apiVersion
  mode := layer.mode.getD settings.mode
  timeoutSeconds := layer.timeoutSeconds.getD settings.timeoutSeconds
  searchEndpoint := layer.searchEndpoint.or settings.searchEndpoint
  documentEndpoint := layer.documentEndpoint.or settings.documentEndpoint

/-- What `read` makes of the value of a key, if the key is there. -/
def provided {α : Type} (entries : Toml.Entries) (name : String) (read : Toml.Value → Option α) :
    Option α :=
  (entries.lookup name).bind fun item => read item.toValue

/-- What the root table of a file provides. -/
def ofEntries (entries : Toml.Entries) : Layer where
  searchDomain := provided entries "search_domain" textOf?
  region := provided entries "aws_region" textOf?
  apiVersion := provided entries "api_version" textOf?
  mode := provided entries "mode" modeOf?
  timeoutSeconds := provided entries "timeout_seconds" secondsOf?
  searchEndpoint := provided entries "search_endpoint" textOf?
  documentEndpoint := provided entries "document_endpoint" textOf?

/-- What the variables of the environment provide, as far as they are set and not empty. -/
def ofEnvironment (environment : Environment) : Layer where
  searchDomain := environment.value? "CLOUDSEARCH_DOMAIN"
  region := environment.value? "CLOUDSEARCH_REGION"
  apiVersion := environment.value? "CLOUDSEARCH_API_VERSION"
  mode := (environment.value? "CLOUDSEARCH_MODE").bind Mode.ofText?
  timeoutSeconds := (environment.value? "CLOUDSEARCH_TIMEOUT_SECONDS").bind fun text =>
    (readUInt64 text.toList).toOption
  searchEndpoint := environment.value? "CLOUDSEARCH_SEARCH_ENDPOINT"
  documentEndpoint := environment.value? "CLOUDSEARCH_DOCUMENT_ENDPOINT"

/-- One more layer lies over all the others. -/
theorem ofLayers_cons (layer : Layer) (layers : List Layer) :
    ofLayers (layer :: layers) = layer.onto (ofLayers layers) := by
  have hfirst {α : Type} (setting : Layer → Option α) :
      (layer :: layers).findSome? setting = (setting layer).or (layers.findSome? setting) := by
    rw [List.findSome?_cons]
    cases setting layer <;> rfl
  simp only [ofLayers, onto, hfirst, Option.getD_or]

/-- A layer changes nothing when it lies below itself already. -/
theorem onto_onto (layer : Layer) (settings : Settings) :
    layer.onto (layer.onto settings) = layer.onto settings := by
  have hoption {α : Type} (given present : Option α) :
      given.or (given.or present) = given.or present := by
    cases given <;> rfl
  have hvalue {α : Type} (given : Option α) (present : α) :
      given.getD (given.getD present) = given.getD present := by
    cases given <;> rfl
  simp only [onto, hoption, hvalue]

end Layer

/-! ## Files -/

/-- Every key of a setting that a root table has holds a value of the kind that is taken there. -/
structure WellKinded (entries : Toml.Entries) : Prop where
  texts : ∀ name ∈ ["search_domain", "aws_region", "api_version", "search_endpoint",
    "document_endpoint"], ∀ item, entries.lookup name = some item → (textOf? item.toValue).isSome
  mode : ∀ item, entries.lookup "mode" = some item → (modeOf? item.toValue).isSome
  timeout : ∀ item, entries.lookup "timeout_seconds" = some item → (secondsOf? item.toValue).isSome

/-- A key is read unless it holds a value of the wrong kind. -/
theorem entry?_eq_some_iff {α : Type} {entries : Toml.Entries} {name : String}
    {read : Toml.Value → Option α} {absent value : α} :
    entry? entries name read absent = some value ↔
      (∀ item, entries.lookup name = some item → (read item.toValue).isSome) ∧
        (Layer.provided entries name read).getD absent = value := by
  unfold entry? Layer.provided
  cases entries.lookup name with
  | none => simp
  | some item => cases h : read item.toValue <;> simp [h]

/-- A text that may be missing is provided as it is. -/
theorem Layer.getD_provided_map_some (entries : Toml.Entries) (name : String) :
    (provided entries name fun value => (textOf? value).map some).getD none =
      provided entries name textOf? := by
  unfold provided
  cases entries.lookup name with
  | none => rfl
  | some item =>
    change ((textOf? item.toValue).map some).getD none = textOf? item.toValue
    cases textOf? item.toValue <;> rfl

/-- A root table gives settings exactly when its values are of the right kinds, and then those of
its layer. -/
theorem ofEntries?_eq_some_iff {entries : Toml.Entries} {settings : Settings} :
    ofEntries? entries = some settings ↔
      WellKinded entries ∧ ofLayers [.ofEntries entries] = settings := by
  simp only [ofEntries?, Option.bind_eq_bind, Option.bind_eq_some_iff, entry?_eq_some_iff,
    Layer.getD_provided_map_some, Option.isSome_map, and_assoc, exists_and_left, exists_eq_left',
    ofLayers, List.findSome?_singleton]
  constructor
  · rintro ⟨hdomain, hregion, hversion, hmode, htimeout, hsearch, hdocument, hsettings⟩
    refine ⟨⟨?_, hmode, htimeout⟩, Option.some.inj hsettings⟩
    simp only [List.forall_mem_cons, List.not_mem_nil, false_implies, implies_true, and_true]
    exact ⟨hdomain, hregion, hversion, hsearch, hdocument⟩
  · rintro ⟨⟨htexts, hmode, htimeout⟩, rfl⟩
    simp only [List.forall_mem_cons] at htexts
    obtain ⟨hdomain, hregion, hversion, hsearch, hdocument, -⟩ := htexts
    exact ⟨hdomain, hregion, hversion, hmode, htimeout, hsearch, hdocument, rfl⟩

/-! ## The environment -/

/-- What the variables of an environment come to: the layer that they are, or what is wrong with
one of them. -/
inductive ReadsEnvironment (environment : Environment) : Except Fault Layer → Prop where
  /-- The mode is looked at first. -/
  | badMode {text : String} (hvalue : environment.value? "CLOUDSEARCH_MODE" = some text)
      (hmode : ∀ mode : Mode, ¬ sameWord text mode.word) :
      ReadsEnvironment environment (.error (.badMode text))
  | badTimeout {text : String} {cause : IntegerFault}
      (hmode : ∀ text, environment.value? "CLOUDSEARCH_MODE" = some text →
        ∃ mode : Mode, sameWord text mode.word)
      (hvalue : environment.value? "CLOUDSEARCH_TIMEOUT_SECONDS" = some text)
      (htimeout : ∀ seconds : UInt64, ¬ IsNatural text.toList seconds.toNat)
      (hcause : readUInt64 text.toList = .error cause) :
      ReadsEnvironment environment (.error (.badTimeout text cause))
  | layer
      (hmode : ∀ text, environment.value? "CLOUDSEARCH_MODE" = some text →
        ∃ mode : Mode, sameWord text mode.word)
      (htimeout : ∀ text, environment.value? "CLOUDSEARCH_TIMEOUT_SECONDS" = some text →
        ∃ seconds : UInt64, IsNatural text.toList seconds.toNat) :
      ReadsEnvironment environment (.ok (.ofEnvironment environment))

/-- A text names no mode exactly when it is not read as one. -/
theorem ofText?_eq_none_iff {text : String} :
    Mode.ofText? text = none ↔ ∀ mode : Mode, ¬ sameWord text mode.word := by
  simp only [Option.eq_none_iff_forall_ne_some, ne_eq, Mode.ofText?_eq_some_iff]

/-- Every environment is read to something. -/
theorem exists_readsEnvironment (environment : Environment) :
    ∃ result, ReadsEnvironment environment result := by
  by_cases hbad : ∃ text, environment.value? "CLOUDSEARCH_MODE" = some text ∧
      ∀ mode : Mode, ¬ sameWord text mode.word
  · obtain ⟨text, hvalue, hmode⟩ := hbad
    exact ⟨_, .badMode hvalue hmode⟩
  · have hmode : ∀ text, environment.value? "CLOUDSEARCH_MODE" = some text →
        ∃ mode : Mode, sameWord text mode.word := fun text hvalue =>
      Classical.not_forall_not.mp fun hnone => hbad ⟨text, hvalue, hnone⟩
    cases hvalue : environment.value? "CLOUDSEARCH_TIMEOUT_SECONDS" with
    | none => exact ⟨_, .layer hmode (by simp [hvalue])⟩
    | some text =>
      cases hread : readUInt64 text.toList with
      | error cause =>
        refine ⟨_, .badTimeout hmode hvalue (fun seconds hseconds => ?_) hread⟩
        rw [readUInt64_eq_ok_iff.mpr hseconds] at hread
        cases hread
      | ok seconds =>
        refine ⟨_, .layer hmode fun other hother => ?_⟩
        obtain rfl := Option.some.inj (hvalue.symm.trans hother)
        exact ⟨seconds, readUInt64_eq_ok_iff.mp hread⟩

/-- The mode that a variable gives, when it names one or is not there. -/
theorem overriding_readMode {given : Option String}
    (hmode : ∀ text, given = some text → ∃ mode : Mode, sameWord text mode.word) (present : Mode) :
    overriding given readMode present = .ok ((given.bind Mode.ofText?).getD present) := by
  cases given with
  | none => rfl
  | some text =>
    obtain ⟨mode, h⟩ := hmode text rfl
    simp [overriding, readMode, Mode.ofText?_eq_some_iff.mpr h]

/-- The timeout that a variable gives, when it is a number of seconds or is not there. -/
theorem overriding_readTimeout {given : Option String}
    (htimeout : ∀ text, given = some text → ∃ seconds : UInt64, IsNatural text.toList seconds.toNat)
    (present : UInt64) :
    overriding given readTimeout present =
      .ok ((given.bind fun text => (readUInt64 text.toList).toOption).getD present) := by
  cases given with
  | none => rfl
  | some text =>
    obtain ⟨seconds, h⟩ := htimeout text rfl
    simp [overriding, readTimeout, readUInt64_eq_ok_iff.mpr h, Except.toOption]

/-- The environment lays its layer over the settings, unless something is wrong with it. -/
theorem withEnvironment_of_readsEnvironment {environment : Environment}
    {result : Except Fault Layer} (h : ReadsEnvironment environment result) (settings : Settings) :
    settings.withEnvironment environment = result.map fun layer => layer.onto settings := by
  cases h with
  | badMode hvalue hmode =>
    simp [withEnvironment, hvalue, overriding, readMode, ofText?_eq_none_iff.mpr hmode, bind,
      Except.bind, Except.map]
  | badTimeout hmode hvalue htimeout hcause =>
    rw [withEnvironment, overriding_readMode hmode]
    simp [hvalue, overriding, readTimeout, hcause, bind, Except.bind, Except.map]
  | layer hmode htimeout =>
    simp only [withEnvironment, overriding_readMode hmode, overriding_readTimeout htimeout, bind,
      Except.bind, Except.map]
    rfl

/-- A second time the environment changes nothing. -/
theorem withEnvironment_of_withEnvironment {environment : Environment} {settings first : Settings}
    (h : settings.withEnvironment environment = .ok first) :
    first.withEnvironment environment = .ok first := by
  obtain ⟨result, hresult⟩ := exists_readsEnvironment environment
  rw [withEnvironment_of_readsEnvironment hresult] at h ⊢
  cases result with
  | error fault => cases h
  | ok layer =>
    obtain rfl : layer.onto settings = first := Except.ok.inj h
    exact congrArg Except.ok (layer.onto_onto settings)

end Settings

end HostedSearch
