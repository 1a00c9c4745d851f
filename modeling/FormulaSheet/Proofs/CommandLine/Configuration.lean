import Mathlib
import FormulaSheet.Proofs.CommandLine.Arguments
import FormulaSheet.Proofs.CommandLine.Outcome
import FormulaSheet.Proofs.Settings.Load

/-!
# What a run works under

A run takes its limit on nested formulas and its layout from its arguments and from the settings
that it loads. Settings are loaded as a whole or not at all. The limit of the arguments comes before
that of the settings, and the output is pretty if either wants it so. A limit of zero is refused on
both sides, so a run never has one.

* `CommandOptions.IsConfiguredBy`: what arguments and settings make of a run.
* `configuration_exact`: what is loaded, and how the arguments change it.
-/

namespace FormulaSheet

/-- The options of a run are those that its arguments give, with the loaded settings behind them. -/
structure CommandOptions.IsConfiguredBy (options : CommandOptions) (arguments : List String)
    (surroundings : Surroundings) : Prop where
  config : ∀ path, options.config = some path ↔ ValueOption.config.GivenIn arguments path
  maxDepth : ∀ text, ValueOption.maxDepth.GivenIn arguments text →
    ∃ limit, IsDepth text limit ∧
      (options.limits (options.settings surroundings)).maxDepth = some limit
  loadedMaxDepth : (∀ text, ¬ ValueOption.maxDepth.GivenIn arguments text) →
    (options.limits (options.settings surroundings)).maxDepth =
      (options.settings surroundings).maxDepth
  maxDepth_ne : (options.limits (options.settings surroundings)).maxDepth ≠ some 0
  pretty : options.prettyWith (options.settings surroundings) = true ↔
    FlagOption.pretty.SetIn arguments ∨ (options.settings surroundings).pretty = true

section Options

variable {options : CommandOptions} {arguments : List String} {α : Type} {option : ValueOption}
variable {place : CommandOptions → Option α} {read : String → Option α}

/-- An option without a letter holds the one value that is given to it, or none. -/
theorem place_of_ofArguments (hkept : option.KeptIn place read)
    (hoption : CommandOption.IsNamedOnly (.value option)) (hempty : place {} = none)
    (h : CommandRequest.ofArguments arguments = .ok (.evaluate options)) :
    ((∀ value, ¬ option.GivenIn arguments value) ∧ place options = none) ∨
      ∃ value a, (∀ other, option.GivenIn arguments other ↔ other = value) ∧
        read value = some a ∧ place options = some a := by
  obtain ⟨actions, hspells, hleads⟩ := exists_spells h
  have hmem : ∀ value, .assign option value ∈ actions ↔ option.GivenIn arguments value := fun _ =>
    assign_mem_iff_givenIn hoption hspells
  obtain ⟨hnever, hplace⟩ | ⟨value, a, honly, -, hread, hplace⟩ := place_of_leads hkept hleads
  · exact Or.inl ⟨fun value => (hmem value).not.mp (hnever value), hplace.trans hempty⟩
  · exact Or.inr ⟨value, a, fun other => (hmem other).symm.trans (honly other), hread, hplace⟩

theorem config_eq_some_iff (h : CommandRequest.ofArguments arguments = .ok (.evaluate options))
    (path : String) : options.config = some path ↔ ValueOption.config.GivenIn arguments path := by
  obtain ⟨hnever, hconfig⟩ | ⟨value, read, honly, hread, hconfig⟩ :=
    place_of_ofArguments keptIn_config CommandOption.isNamedOnly_of_settings.2.1 rfl h
  · rw [hconfig]
    exact iff_of_false nofun (hnever path)
  · obtain ⟨-, rfl⟩ : ¬ value.isEmpty = true ∧ value = read := by
      simpa [CommandOptions.path?] using hread
    rw [hconfig, honly, Option.some_inj, eq_comm]

theorem pretty_iff (h : CommandRequest.ofArguments arguments = .ok (.evaluate options)) :
    options.pretty = true ↔ FlagOption.pretty.SetIn arguments := by
  obtain ⟨actions, hspells, hleads⟩ := exists_spells h
  rw [pretty_of_leads hleads, set_mem_iff_setIn CommandOption.isNamedOnly_of_settings.2.2 hspells]
  exact or_iff_left nofun

/-- The limit that arguments give, before that of the settings. -/
theorem limits_cases (settings : Settings)
    (h : CommandRequest.ofArguments arguments = .ok (.evaluate options)) :
    ((∀ text, ¬ ValueOption.maxDepth.GivenIn arguments text) ∧
        (options.limits settings).maxDepth = settings.maxDepth) ∨
      ∃ text limit, (∀ other, ValueOption.maxDepth.GivenIn arguments other ↔ other = text) ∧
        IsDepth text limit ∧ (options.limits settings).maxDepth = some limit := by
  obtain ⟨hnever, hdepth⟩ | ⟨text, limit, honly, hread, hdepth⟩ :=
    place_of_ofArguments keptIn_maxDepth CommandOption.isNamedOnly_of_settings.1 rfl h
  · refine Or.inl ⟨hnever, ?_⟩
    rw [CommandOptions.limits, hdepth]
    rfl
  · refine Or.inr ⟨text, limit, honly, depthOfText?_eq_some_iff.mp hread, ?_⟩
    rw [CommandOptions.limits, hdepth]
    rfl

end Options

/-- What is loaded follows the rules of loading, whatever there is at the path of the settings.
The arguments of a run come before what it has loaded. -/
theorem configuration_exact (surroundings : Surroundings) :
    (∀ given result, Settings.load surroundings.store surroundings.directories given = result ↔
      Settings.LoadsTo surroundings.store surroundings.directories given result) ∧
    ∀ arguments options, CommandRequest.ofArguments arguments = .ok (.evaluate options) →
      options.IsConfiguredBy arguments surroundings := by
  refine ⟨fun given result => Settings.load_eq_iff, fun arguments options h => ?_⟩
  have hloaded : (options.settings surroundings).maxDepth ≠ some 0 :=
    Settings.maxDepth_ne_zero_of_loadsTo (Settings.load_eq_iff.mp rfl)
  have hpretty : options.prettyWith (options.settings surroundings) = true ↔
      FlagOption.pretty.SetIn arguments ∨ (options.settings surroundings).pretty = true := by
    rw [CommandOptions.prettyWith, Bool.or_eq_true, pretty_iff h]
  obtain ⟨hnever, hlimits⟩ | ⟨text, limit, honly, hdepth, hlimits⟩ :=
    limits_cases (options.settings surroundings) h
  · exact {
      config := config_eq_some_iff h
      maxDepth := fun text hgiven => absurd hgiven (hnever text)
      loadedMaxDepth := fun _ => hlimits
      maxDepth_ne := hlimits ▸ hloaded
      pretty := hpretty }
  · exact {
      config := config_eq_some_iff h
      maxDepth := fun other hgiven => ⟨limit, (honly other).mp hgiven ▸ hdepth, hlimits⟩
      loadedMaxDepth := fun hnever => absurd ((honly text).mpr rfl) (hnever text)
      maxDepth_ne := hlimits ▸ fun hzero => hdepth.limit_ne (Option.some.inj hzero)
      pretty := hpretty }

/-- A file of settings with a limit of its own and pretty output. -/
def settingsText : String :=
  "[eval]\nmax_depth = 7\n[output]\npretty = true\n"

def settingsSurroundings : Surroundings where
  stdin := .zeros 0
  store := { files := [(["settings.toml"], .ofText settingsText)] }
  directories := { home := "/" }

def limitedOptions : CommandOptions where
  maxDepth := some 3
  config := some "settings.toml"

def limitedArguments : List String :=
  ["--config", "settings.toml", "--max-depth", "+3"]

theorem ofArguments_limitedOptions :
    CommandRequest.ofArguments limitedArguments = .ok (.evaluate limitedOptions) := by
  have hread : readOption {} "--config" = .ok (.awaits .config {}) ∧
      readOption { config := some "settings.toml" } "--max-depth" =
        .ok (.awaits .maxDepth { config := some "settings.toml" }) := by
    constructor <;> cbv
  have hconfig : CommandOptions.assign {} .config "settings.toml" =
      .ok { config := some "settings.toml" } := by
    cbv
  have hdepth : CommandOptions.assign { config := some "settings.toml" } .maxDepth "+3" =
      .ok limitedOptions := by
    have hthree : depthOfText? "+3" = some 3 := by decide +kernel
    simp [CommandOptions.assign, CommandOptions.once, hthree, limitedOptions, Except.map]
  have hoptions : looksLikeOption "--config" = true ∧ looksLikeOption "settings.toml" = false ∧
      looksLikeOption "--max-depth" = true ∧ looksLikeOption "+3" = false := by
    decide +kernel
  simp [limitedArguments, CommandRequest.ofArguments, CommandRequest.ofArgumentsAfter, hread,
    hconfig, hdepth, hoptions, bind, Except.bind, CommandOptions.check, limitedOptions]

theorem configuration_exact_limited :
    Settings.LoadsTo settingsSurroundings.store settingsSurroundings.directories
      (some "settings.toml") ({ maxDepth := some 7, pretty := true }, []) ∧
    CommandRequest.ofArguments limitedArguments = .ok (.evaluate limitedOptions) ∧
    (limitedOptions.limits (limitedOptions.settings settingsSurroundings)).maxDepth = some 3 ∧
    limitedOptions.prettyWith (limitedOptions.settings settingsSurroundings) = true := by
  obtain ⟨hload, hoptions⟩ := configuration_exact settingsSurroundings
  have hloaded : Settings.load settingsSurroundings.store settingsSurroundings.directories
      (some "settings.toml") = ({ maxDepth := some 7, pretty := true }, []) := by
    decide +kernel
  have hconfigured := hoptions _ _ ofArguments_limitedOptions
  have hgiven : ValueOption.maxDepth.GivenIn limitedArguments "+3" :=
    Or.inr ⟨["--config", "settings.toml"], [], by decide +kernel⟩
  obtain ⟨limit, hdepth, hlimits⟩ := hconfigured.maxDepth "+3" hgiven
  obtain rfl : limit = 3 := by
    have hthree : depthOfText? "+3" = some 3 := by decide +kernel
    exact Option.some.inj ((depthOfText?_eq_some_iff.mpr hdepth).symm.trans hthree)
  have hpretty : (limitedOptions.settings settingsSurroundings).pretty = true := by
    rw [CommandOptions.settings, limitedOptions, hloaded]
  exact ⟨(hload _ _).mp hloaded, ofArguments_limitedOptions, hlimits,
    hconfigured.pretty.mpr (Or.inr hpretty)⟩

end FormulaSheet
