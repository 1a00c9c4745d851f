import Mathlib
import FormulaSheet.CommandLine.Options
import FormulaSheet.Proofs.Address.Text

/-!
# What a command line asks for

A command line asks for actions, one after another: to give an option a value, to set a switch, to
take an input path. Which options it has in the end is what these make of the options before them.
An option that may be given once has a place of its own, which keeps the value that was read.

* `CommandAction.Changes`, `CommandAction.Leads`: what actions make of options.
* `CommandAction.Effect`: the options that settings have a say in, action by action.
* `ValueOption.KeptIn`, `place_of_leads`: an option is held as it was given.
* `pretty_of_leads`: a switch is set if some action sets it.
* `IsDepth`: the texts that are read as a limit on nested formulas.
-/

namespace FormulaSheet

/-- What a part of a command line asks for. -/
inductive CommandAction
  | assign (option : ValueOption) (value : String)
  | set (option : FlagOption)
  | input (argument : String)

/-- The action is accepted for the options, and leaves them changed. -/
def CommandAction.Changes : CommandAction → CommandOptions → CommandOptions → Prop
  | assign option value, options, changed => options.assign option value = .ok changed
  | set option, options, changed => options.set option = .ok (.options changed)
  | input argument, options, changed => options.takeInput argument = .ok changed

/-- The actions are accepted one after another. -/
inductive CommandAction.Leads : List CommandAction → CommandOptions → CommandOptions → Prop
  | done (options : CommandOptions) : Leads [] options options
  | more {action : CommandAction} {actions : List CommandAction}
      {options changed final : CommandOptions} (hchanges : action.Changes options changed)
      (hrest : Leads actions changed final) :
      Leads (action :: actions) options final

theorem CommandAction.Leads.append {first second : List CommandAction}
    {options changed final : CommandOptions} (hfirst : Leads first options changed)
    (hsecond : Leads second changed final) : Leads (first ++ second) options final := by
  induction hfirst with
  | done options => exact hsecond
  | more hchanges hrest ih => exact .more hchanges (ih hsecond)

open CommandAction (Leads)

section Keeping

variable {options changed final : CommandOptions} {action : CommandAction}

theorem exists_of_once {α : Type} {option : ValueOption} {given : Option α} {value : String}
    {read : String → Option α} {put : Option α → CommandOptions}
    (h : (CommandOptions.once option given value read).map put = .ok changed) :
    given = none ∧ ∃ a, read value = some a ∧ changed = put (some a) := by
  unfold CommandOptions.once at h
  split at h
  · cases h
  · cases h
  · next a hread => exact ⟨rfl, a, hread, (Except.ok.inj h).symm⟩

theorem eq_of_switch {option : FlagOption} {given : Bool} {put : CommandOptions}
    (h : CommandOptions.switch option given put = .ok (.options changed)) :
    given = false ∧ changed = put := by
  unfold CommandOptions.switch at h
  split at h
  · cases h
  · next hgiven =>
      obtain rfl := OptionStep.options.inj (Except.ok.inj h)
      exact ⟨Bool.eq_false_iff.mpr hgiven, rfl⟩

theorem exists_of_takeInput {argument : String} (h : options.takeInput argument = .ok changed) :
    ∃ path, changed = { options with input := some path } := by
  unfold CommandOptions.takeInput at h
  split at h
  · cases h
  · cases h
  · next path _ _ => exact ⟨path, (Except.ok.inj h).symm⟩

/-- What an action makes of the options that settings have a say in. -/
inductive CommandAction.Effect (options : CommandOptions) : CommandAction → CommandOptions → Prop
  | maxDepth {value : String} {limit : Nat} (hnone : options.maxDepth = none)
      (hread : depthOfText? value = some limit) :
      Effect options (.assign .maxDepth value) { options with maxDepth := some limit }
  | config {value path : String} (hnone : options.config = none)
      (hread : CommandOptions.path? value = some path) :
      Effect options (.assign .config value) { options with config := some path }
  | pretty (hunset : options.pretty = false) :
      Effect options (.set .pretty) { options with pretty := true }
  | other {action : CommandAction} {changed : CommandOptions}
      (hmaxDepth : ∀ value, action ≠ .assign .maxDepth value)
      (hconfig : ∀ value, action ≠ .assign .config value) (hpretty : action ≠ .set .pretty)
      (maxDepth_eq : changed.maxDepth = options.maxDepth)
      (config_eq : changed.config = options.config)
      (pretty_eq : changed.pretty = options.pretty) : Effect options action changed

theorem effect_of_changes (h : action.Changes options changed) : action.Effect options changed := by
  cases action with
  | assign option value =>
      cases option with
      | maxDepth =>
          obtain ⟨hnone, limit, hread, rfl⟩ := exists_of_once h
          exact .maxDepth hnone hread
      | config =>
          obtain ⟨hnone, path, hread, rfl⟩ := exists_of_once h
          exact .config hnone hread
      | _ =>
          obtain ⟨-, a, -, rfl⟩ := exists_of_once h
          exact .other nofun nofun nofun rfl rfl rfl
  | set option =>
      cases option with
      | version | help => cases h
      | verbose =>
          obtain rfl := OptionStep.options.inj (Except.ok.inj h)
          exact .other nofun nofun nofun rfl rfl rfl
      | pretty =>
          obtain ⟨hunset, rfl⟩ := eq_of_switch h
          exact .pretty hunset
      | _ =>
          obtain ⟨-, rfl⟩ := eq_of_switch h
          exact .other nofun nofun nofun rfl rfl rfl
  | input argument =>
      obtain ⟨path, rfl⟩ := exists_of_takeInput h
      exact .other nofun nofun nofun rfl rfl rfl

/-- The options hold the value of an option in a place of their own. It is read when it is assigned,
which can happen once, and no other action changes it. -/
def ValueOption.KeptIn {α : Type} (option : ValueOption) (place : CommandOptions → Option α)
    (read : String → Option α) : Prop :=
  ∀ {action options changed}, CommandAction.Changes action options changed →
    (∃ value a, action = .assign option value ∧ place options = none ∧ read value = some a ∧
        place changed = some a) ∨
      ((∀ value, action ≠ .assign option value) ∧ place changed = place options)

theorem keptIn_maxDepth : ValueOption.maxDepth.KeptIn CommandOptions.maxDepth depthOfText? := by
  intro action options changed h
  cases effect_of_changes h with
  | maxDepth hnone hread => exact Or.inl ⟨_, _, rfl, hnone, hread, rfl⟩
  | other hmaxDepth hconfig hpretty maxDepth_eq config_eq pretty_eq =>
      exact Or.inr ⟨hmaxDepth, maxDepth_eq⟩
  | _ => exact Or.inr ⟨nofun, rfl⟩

theorem keptIn_config : ValueOption.config.KeptIn CommandOptions.config CommandOptions.path? := by
  intro action options changed h
  cases effect_of_changes h with
  | config hnone hread => exact Or.inl ⟨_, _, rfl, hnone, hread, rfl⟩
  | other hmaxDepth hconfig hpretty maxDepth_eq config_eq pretty_eq =>
      exact Or.inr ⟨hconfig, config_eq⟩
  | _ => exact Or.inr ⟨nofun, rfl⟩

/-- What actions leave in the place of an option: what was there, or the one value that they give
it. -/
theorem place_of_leads {α : Type} {option : ValueOption} {place : CommandOptions → Option α}
    {read : String → Option α} {actions : List CommandAction} (hkept : option.KeptIn place read)
    (h : Leads actions options final) :
    ((∀ value, .assign option value ∉ actions) ∧ place final = place options) ∨
      ∃ value a, (∀ other, .assign option other ∈ actions ↔ other = value) ∧
        place options = none ∧ read value = some a ∧ place final = some a := by
  induction h with
  | done options => exact Or.inl ⟨fun _ => List.not_mem_nil, rfl⟩
  | @more action actions options changed final hchanges hrest ih =>
      obtain ⟨value, a, rfl, hnone, hread, hplace⟩ | ⟨hne, hplace⟩ := hkept hchanges
      · obtain ⟨hnever, hfinal⟩ | ⟨value', a', -, habsent, -⟩ := ih
        · refine Or.inr ⟨value, a, fun other => ?_, hnone, hread, hfinal.trans hplace⟩
          simp [hnever]
        · rw [hplace] at habsent
          cases habsent
      · have hmem : ∀ value, .assign option value ∈ action :: actions ↔
            .assign option value ∈ actions := by
          intro value
          rw [List.mem_cons, or_iff_right (hne value).symm]
        rw [← hplace]
        simp only [hmem]
        exact ih

theorem pretty_of_changes (h : action.Changes options changed) :
    changed.pretty = true ↔ .set .pretty = action ∨ options.pretty = true := by
  cases effect_of_changes h with
  | pretty hunset => simp
  | other hmaxDepth hconfig hpretty maxDepth_eq config_eq pretty_eq =>
      rw [or_iff_right hpretty.symm, pretty_eq]
  | _ => simp

theorem pretty_of_leads {actions : List CommandAction} (h : Leads actions options final) :
    final.pretty = true ↔ .set .pretty ∈ actions ∨ options.pretty = true := by
  induction h with
  | done options => simp
  | more hchanges hrest ih =>
      rw [ih, pretty_of_changes hchanges, List.mem_cons]
      tauto

end Keeping

section Depths

variable {text : String} {limit : Nat}

/-- The text is a run of digits, perhaps behind a plus, and stands for a number of 64 bits that is
not zero. -/
structure IsDepth (text : String) (limit : Nat) : Prop where
  numeral : ∃ digits, (text.toList = digits ∨ text.toList = '+' :: digits) ∧
    Text.IsRun Char.isDigit digits ∧ Text.numeralValue digits = limit
  limit_ne : limit ≠ 0
  limit_lt : limit < Text.wordLimit

theorem depthOfText?_eq_some_iff : depthOfText? text = some limit ↔ IsDepth text limit := by
  have hread : ∀ digits, ((Text.word64? digits).filter (· ≠ 0) = some limit) ↔
      Text.IsRun Char.isDigit digits ∧ Text.numeralValue digits = limit ∧
        limit < Text.wordLimit ∧ limit ≠ 0 := by
    intro digits
    rw [Option.filter_eq_some_iff, Address.word64?_eq_some_iff, decide_eq_true_eq, and_assoc,
      and_assoc]
  unfold depthOfText?
  rw [hread]
  constructor
  · rintro ⟨hrun, hvalue, hlt, hne⟩
    refine ⟨⟨_, ?_, hrun, hvalue⟩, hne, hlt⟩
    split
    · next htext => exact Or.inr htext
    · exact Or.inl rfl
  · rintro ⟨⟨digits, hdigits | hplus, hrun, hvalue⟩, hne, hlt⟩
    · split
      · next rest hplus =>
          have hplus := hrun.mem '+' (by simp [← hdigits, hplus])
          cases hplus
      · exact ⟨hdigits ▸ hrun, hdigits ▸ hvalue, hlt, hne⟩
    · rw [hplus]
      exact ⟨hrun, hvalue, hlt, hne⟩

end Depths

end FormulaSheet
