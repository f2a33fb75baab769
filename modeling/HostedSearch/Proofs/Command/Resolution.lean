import HostedSearch.Command.Run
import HostedSearch.Proofs.Settings.Layer

/-!
# Which settings a command line has

A command line, the environment and a settings file are three layers of settings, in this order,
and each setting comes from the highest layer that provides it. Which layers there are does not
depend on what they say, so a fault of the file or of a variable counts even where an option of the
line would have hidden the value.
-/

namespace HostedSearch

namespace Settings

/-- What the options of a command line provide: a domain, and the mode in which requests reach the
service. -/
def Layer.ofOptions (invocation : Invocation) : Layer where
  searchDomain := invocation.domain
  mode := if invocation.live then some .live else none

end Settings

namespace Command

open Settings (Layer ReadsEnvironment)

variable {surroundings : Surroundings} {invocation : Invocation}

/-- What the settings file at a path comes to, if there is one: the layer that it is, or why it is
of no use. -/
inductive ReadsFile (surroundings : Surroundings) :
    Option String → Except Failure Layer → Prop where
  | noFile : ReadsFile surroundings none (.ok {})
  | unreadable {path : String} (hcontent : surroundings.file path = none) :
      ReadsFile surroundings (some path) (.error (.settingsFile path (.unreadable path)))
  | notSettings {path text : String} (hcontent : surroundings.file path = some text)
      (hentries : ∀ entries, Toml.parse? text = some entries → ¬ Settings.WellKinded entries) :
      ReadsFile surroundings (some path) (.error (.settingsFile path (.notSettings path)))
  | layer {path text : String} {entries : Toml.Entries}
      (hcontent : surroundings.file path = some text) (hparse : Toml.parse? text = some entries)
      (hkinds : Settings.WellKinded entries) :
      ReadsFile surroundings (some path) (.ok (.ofEntries entries))

/-- The settings of a command line, or the first fault: the file is looked at before the
environment, and the options of the line come last. -/
inductive Resolves (surroundings : Surroundings) (invocation : Invocation) :
    Except Failure Settings → Prop where
  | badFile {failure : Failure}
      (hfile : ReadsFile surroundings (invocation.settingsFile.or surroundings.defaultFile)
        (.error failure)) :
      Resolves surroundings invocation (.error failure)
  | badEnvironment {file : Layer} {fault : Settings.Fault}
      (hfile : ReadsFile surroundings (invocation.settingsFile.or surroundings.defaultFile)
        (.ok file))
      (henvironment : ReadsEnvironment surroundings.environment (.error fault)) :
      Resolves surroundings invocation (.error (.environment fault))
  | layered {file environment : Layer}
      (hfile : ReadsFile surroundings (invocation.settingsFile.or surroundings.defaultFile)
        (.ok file))
      (henvironment : ReadsEnvironment surroundings.environment (.ok environment)) :
      Resolves surroundings invocation
        (.ok (.ofLayers [.ofOptions invocation, environment, file]))

/-- Every path comes to something. -/
theorem exists_readsFile (surroundings : Surroundings) (path? : Option String) :
    ∃ result, ReadsFile surroundings path? result := by
  cases path? with
  | none => exact ⟨_, .noFile⟩
  | some path =>
    cases hcontent : surroundings.file path with
    | none => exact ⟨_, .unreadable hcontent⟩
    | some text =>
      by_cases hlayer : ∃ entries, Toml.parse? text = some entries ∧ Settings.WellKinded entries
      · obtain ⟨entries, hparse, hkinds⟩ := hlayer
        exact ⟨_, .layer hcontent hparse hkinds⟩
      · exact ⟨_, .notSettings hcontent fun entries hparse hkinds =>
          hlayer ⟨entries, hparse, hkinds⟩⟩

/-- The settings of a file are those of its layer alone. -/
theorem fileSettings_of_readsFile {named : Option String} {result : Except Failure Layer}
    (h : ReadsFile surroundings (named.or surroundings.defaultFile) result) :
    fileSettings surroundings named = result.map fun layer => .ofLayers [layer] := by
  unfold fileSettings
  generalize named.or surroundings.defaultFile = path? at h
  cases h with
  | noFile => rfl
  | unreadable hcontent => simp only [hcontent, Settings.ofFile]; rfl
  | @notSettings path text hcontent hentries =>
    have hsettings : (Toml.parse? text).bind Settings.ofEntries? = none := by
      refine Option.eq_none_iff_forall_ne_some.mpr fun settings hsettings => ?_
      obtain ⟨entries, hparse, hread⟩ := Option.bind_eq_some_iff.mp hsettings
      exact hentries entries hparse (Settings.ofEntries?_eq_some_iff.mp hread).1
    simp only [hcontent, Settings.ofFile, hsettings]
    rfl
  | @layer path text entries hcontent hparse hkinds =>
    have hread := Settings.ofEntries?_eq_some_iff.mpr ⟨hkinds, rfl⟩
    simp only [hcontent, Settings.ofFile, hparse, Option.bind_some, hread]
    rfl

/-- The options of a command line are one more layer. -/
theorem withOptions_eq_onto (invocation : Invocation) (settings : Settings) :
    withOptions invocation settings = (Layer.ofOptions invocation).onto settings := by
  unfold withOptions Layer.ofOptions Layer.onto
  cases invocation.live <;> rfl

/-- What a command line resolves to are its settings. -/
theorem settings_of_resolves {result : Except Failure Settings}
    (h : Resolves surroundings invocation result) :
    settings surroundings invocation = result := by
  unfold settings
  cases h with
  | badFile hfile =>
    rw [fileSettings_of_readsFile hfile]
    rfl
  | @badEnvironment file fault hfile henvironment =>
    rw [fileSettings_of_readsFile hfile]
    change (((Settings.ofLayers [file]).withEnvironment surroundings.environment).mapError
      Failure.environment >>= _) = _
    rw [Settings.withEnvironment_of_readsEnvironment henvironment]
    rfl
  | @layered file environment hfile henvironment =>
    rw [fileSettings_of_readsFile hfile]
    change (((Settings.ofLayers [file]).withEnvironment surroundings.environment).mapError
      Failure.environment >>= _) = _
    rw [Settings.withEnvironment_of_readsEnvironment henvironment]
    change Except.ok (withOptions invocation (environment.onto (.ofLayers [file]))) = _
    rw [withOptions_eq_onto, ← Layer.ofLayers_cons, ← Layer.ofLayers_cons]

/-- Every command line resolves to something. -/
theorem exists_resolves (surroundings : Surroundings) (invocation : Invocation) :
    ∃ result, Resolves surroundings invocation result := by
  obtain ⟨file, hfile⟩ :=
    exists_readsFile surroundings (invocation.settingsFile.or surroundings.defaultFile)
  obtain ⟨environment, henvironment⟩ := Settings.exists_readsEnvironment surroundings.environment
  cases file with
  | error failure => exact ⟨_, .badFile hfile⟩
  | ok file =>
    cases environment with
    | error fault => exact ⟨_, .badEnvironment hfile henvironment⟩
    | ok environment => exact ⟨_, .layered hfile henvironment⟩

end Command

end HostedSearch
