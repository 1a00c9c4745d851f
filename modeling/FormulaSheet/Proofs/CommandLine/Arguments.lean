import Mathlib
import FormulaSheet.Proofs.CommandLine.Actions
import FormulaSheet.Proofs.Except
import FormulaSheet.Proofs.Text.Run

/-!
# What arguments say

The arguments of a command line spell out actions. One argument may spell several of them, or none
and leave the value of an option to the next argument. An option without a letter is spelled by its
name alone, so whether it was given can be told from the arguments themselves, without reading them
from left to right.

* `SpellsLetters`, `SpellsOption`, `Spells`: the arguments that spell actions.
* `exists_spells`: arguments that are accepted spell the actions that lead to their options.
* `ValueOption.GivenIn`, `FlagOption.SetIn`: what is found in the arguments.
* `assign_mem_iff_givenIn`, `set_mem_iff_setIn`: what they spell of options without a letter.
-/

namespace FormulaSheet

namespace CommandOption

def long (option : CommandOption) : String :=
  "--" ++ option.name

theorem name_of_ofName? {long : String} {option : CommandOption}
    (h : ofName? long = some option) : option.name = long := by
  simpa using List.find?_some h

theorem ofName?_name (option : CommandOption) :
    ofName? option.name = some option := by
  cases option with
  | value option => cases option <;> rfl
  | flag option => cases option <;> rfl

theorem not_mem_name (option : CommandOption) : '=' ∉ option.name.toList := by
  cases option with
  | value option => cases option <;> decide
  | flag option => cases option <;> decide

theorem toList_name_ne_nil (option : CommandOption) : option.name.toList ≠ [] := by
  cases option with
  | value option => cases option <;> decide
  | flag option => cases option <;> decide

theorem name_injective : Function.Injective name := by
  intro a b h
  exact Option.some.inj (by rw [← ofName?_name a, h, ofName?_name b])

theorem toList_long (option : CommandOption) :
    option.long.toList = '-' :: '-' :: option.name.toList := by
  simp [long]

theorem toList_assignment (option : CommandOption) (value : String) :
    (option.long ++ "=" ++ value).toList =
      '-' :: '-' :: (option.name.toList ++ '=' :: value.toList) := by
  simp [long]

/-- The name of an option ends at the first equals sign. -/
theorem assignment_eq_iff {a b : CommandOption} {value value' : String} :
    a.long ++ "=" ++ value = b.long ++ "=" ++ value' ↔ a = b ∧ value = value' := by
  refine ⟨fun h => ?_, by rintro ⟨rfl, rfl⟩; rfl⟩
  have hkind : ∀ option : CommandOption, ∀ c ∈ option.name.toList, decide (c ≠ '=') = true :=
    fun option c hc => decide_eq_true fun heq => not_mem_name option (heq ▸ hc)
  have htext := congrArg String.toList h
  rw [toList_assignment, toList_assignment, List.cons_inj_right, List.cons_inj_right] at htext
  obtain ⟨hname, hvalue⟩ :=
    Text.run_append_inj (hkind a) (by simp) (hkind b) (by simp) htext
  exact ⟨name_injective (String.toList_injective hname),
    String.toList_injective (List.cons.inj hvalue).2⟩

theorem long_eq_iff {a b : CommandOption} : a.long = b.long ↔ a = b := by
  rw [long, long, String.append_right_inj, name_injective.eq_iff]

theorem long_ne_assignment (a b : CommandOption) (value : String) :
    a.long ≠ b.long ++ "=" ++ value := by
  intro h
  have hmem : '=' ∈ a.long.toList := by
    rw [h, toList_assignment]
    simp
  simp [long, not_mem_name a] at hmem

/-- The option has no letter. -/
def IsNamedOnly (option : CommandOption) : Prop :=
  ∀ c, ofLetter? c ≠ some option

/-- The options that settings have a say in have no letters. -/
theorem isNamedOnly_of_settings : IsNamedOnly (.value .maxDepth) ∧ IsNamedOnly (.value .config) ∧
    IsNamedOnly (.flag .pretty) := by
  have hletters : ∀ {c option}, ofLetter? c = some option →
      option ∉ [.value .maxDepth, .value .config, .flag .pretty] := by
    intro c option h
    unfold ofLetter? at h
    split at h <;> cases h <;> simp
  exact ⟨fun c h => hletters h (by simp), fun c h => hletters h (by simp),
    fun c h => hletters h (by simp)⟩

end CommandOption

section Spelling

/-- Letters spell actions, and perhaps an option that awaits its value. -/
inductive CommandAction.SpellsLetters : List Char → List CommandAction → Option ValueOption → Prop
  | done : SpellsLetters [] [] none
  | flag {c : Char} {option : FlagOption} {letters : List Char} {actions : List CommandAction}
      {awaiting : Option ValueOption} (hletter : CommandOption.ofLetter? c = some (.flag option))
      (hrest : SpellsLetters letters actions awaiting) :
      SpellsLetters (c :: letters) (.set option :: actions) awaiting
  | attached {c : Char} {option : ValueOption} {value : List Char}
      (hletter : CommandOption.ofLetter? c = some (.value option)) (hvalue : value ≠ []) :
      SpellsLetters (c :: value) [.assign option (attachedValue value)] none
  | awaiting {c : Char} {option : ValueOption}
      (hletter : CommandOption.ofLetter? c = some (.value option)) :
      SpellsLetters [c] [] (some option)

/-- An argument spells actions, and perhaps an option that awaits its value. -/
inductive CommandAction.SpellsOption : String → List CommandAction → Option ValueOption → Prop
  | assignment (option : ValueOption) (value : String) :
      SpellsOption ((CommandOption.value option).long ++ "=" ++ value) [.assign option value] none
  | awaiting (option : ValueOption) :
      SpellsOption (CommandOption.value option).long [] (some option)
  | flag (option : FlagOption) : SpellsOption (CommandOption.flag option).long [.set option] none
  | letters {letters : List Char} {actions : List CommandAction} {awaiting : Option ValueOption}
      (hne : letters ≠ []) (hletters : SpellsLetters letters actions awaiting) :
      SpellsOption (String.ofList ('-' :: letters)) actions awaiting

/-- Arguments spell actions. Two dashes alone end the options. -/
inductive CommandAction.Spells : List String → List CommandAction → Prop
  | done : Spells [] []
  | inputs (arguments : List String) : Spells ("--" :: arguments) (arguments.map .input)
  | input {argument : String} {rest : List String} {actions : List CommandAction}
      (hargument : looksLikeOption argument = false) (hrest : Spells rest actions) :
      Spells (argument :: rest) (.input argument :: actions)
  | option {argument : String} {rest : List String} {first actions : List CommandAction}
      (hoption : SpellsOption argument first none) (hrest : Spells rest actions) :
      Spells (argument :: rest) (first ++ actions)
  | optionValue {argument value : String} {rest : List String} {option : ValueOption}
      {first actions : List CommandAction}
      (hoption : SpellsOption argument first (some option))
      (hvalue : looksLikeOption value = false) (hrest : Spells rest actions) :
      Spells (argument :: value :: rest) (first ++ .assign option value :: actions)

end Spelling

open CommandAction (Leads Spells SpellsLetters SpellsOption)

section Reading

variable {options changed final : CommandOptions}

/-- Where the reader stands behind an option, if what it has read spells actions in this way. -/
def ArgumentEnd.Follows (spells : List CommandAction → Option ValueOption → Prop)
    (options : CommandOptions) : ArgumentEnd → Prop
  | .complete (.options changed) => ∃ actions, spells actions none ∧ Leads actions options changed
  | .complete (.answer request) => ∀ options, request ≠ .evaluate options
  | .awaits option changed =>
      ∃ actions, spells actions (some option) ∧ Leads actions options changed

theorem ArgumentEnd.Follows.prepend {before : List CommandAction}
    {spells spells' : List CommandAction → Option ValueOption → Prop} {reached : ArgumentEnd}
    (hbefore : Leads before options changed)
    (hspells : ∀ {actions awaiting}, spells actions awaiting → spells' (before ++ actions) awaiting)
    (h : reached.Follows spells changed) : reached.Follows spells' options := by
  match reached, h with
  | .complete (.options _), ⟨actions, hactions, hleads⟩ =>
      exact ⟨_, hspells hactions, hbefore.append hleads⟩
  | .complete (.answer _), h => exact h
  | .awaits _ _, ⟨actions, hactions, hleads⟩ =>
      exact ⟨_, hspells hactions, hbefore.append hleads⟩

/-- The requests that are answered at once ask for no evaluation. -/
theorem ne_evaluate_of_set {option : FlagOption} {request : CommandRequest}
    (h : options.set option = .ok (.answer request)) : ∀ options, request ≠ .evaluate options := by
  have hswitch : ∀ {option given changed},
      CommandOptions.switch option given changed ≠ .ok (.answer request) := by
    intro option given changed h
    unfold CommandOptions.switch at h
    split at h <;> cases h
  cases option with
  | version | help =>
      cases h
      intro options heq
      cases heq
  | verbose => cases h
  | _ => cases hswitch h

theorem follows_of_set {option : FlagOption} {step : OptionStep}
    {spells : List CommandAction → Option ValueOption → Prop} (hspells : spells [.set option] none)
    (h : options.set option = .ok step) : (ArgumentEnd.complete step).Follows spells options := by
  cases step with
  | answer request => exact ne_evaluate_of_set h
  | options changed => exact ⟨_, hspells, .more h (.done changed)⟩

theorem follows_of_readLetters {letters : List Char} {reached : ArgumentEnd}
    (h : readLetters options letters = .ok reached) :
    reached.Follows (SpellsLetters letters) options := by
  induction letters generalizing options with
  | nil =>
      obtain rfl := Except.ok.inj h
      exact ⟨[], .done, .done options⟩
  | cons c rest ih =>
      unfold readLetters at h
      split at h
      · cases h
      · next option hletter =>
          split at h
          · next hrest =>
              obtain rfl := Except.ok.inj h
              subst hrest
              exact ⟨[], .awaiting hletter, .done options⟩
          · next hrest =>
              obtain ⟨changed, hassign, h⟩ := exists_of_bind_eq_ok h
              obtain rfl := Except.ok.inj h
              exact ⟨_, .attached hletter hrest, .more hassign (.done changed)⟩
      · next option hletter =>
          obtain ⟨step, hset, h⟩ := exists_of_bind_eq_ok h
          cases step with
          | answer request =>
              obtain rfl := Except.ok.inj h
              exact ne_evaluate_of_set hset
          | options changed =>
              have hbefore : Leads [.set option] options changed := .more hset (.done changed)
              exact (ih h).prepend hbefore (.flag hletter)

/-- The name of a long option, and a value behind an equals sign, are what it is made of. -/
theorem body_cases (body : List Char) :
    (body.dropWhile (· ≠ '=') = [] ∧ body = body.takeWhile (· ≠ '=')) ∨
      ∃ value, body.dropWhile (· ≠ '=') = '=' :: value ∧
        body = body.takeWhile (· ≠ '=') ++ '=' :: value := by
  have hsplit : body.takeWhile (· ≠ '=') ++ body.dropWhile (· ≠ '=') = body :=
    List.takeWhile_append_dropWhile
  have hhead := Text.head?_dropWhile (· ≠ '=') body
  cases hrest : body.dropWhile (· ≠ '=') with
  | nil =>
      rw [hrest, List.append_nil] at hsplit
      exact Or.inl ⟨rfl, hsplit.symm⟩
  | cons c value =>
      rw [hrest] at hsplit hhead
      obtain rfl : c = '=' := by simpa using hhead c rfl
      exact Or.inr ⟨value, rfl, hsplit.symm⟩

theorem follows_of_readLong {body : List Char} {reached : ArgumentEnd}
    (h : readLong options body = .ok reached) :
    reached.Follows (SpellsOption ("--" ++ String.ofList body)) options := by
  unfold readLong at h
  obtain ⟨hrest, hbody⟩ | ⟨value, hrest, hbody⟩ := body_cases body
  · rw [hbody]
    simp only [hrest] at h
    split at h
    · cases h
    · next option hname _ =>
        obtain rfl := Except.ok.inj h
        rw [← CommandOption.name_of_ofName? hname]
        exact ⟨[], .awaiting option, .done options⟩
    · next hvalue => cases hvalue
    · next option hname _ =>
        obtain ⟨step, hset, h⟩ := exists_of_bind_eq_ok h
        obtain rfl := Except.ok.inj h
        rw [← CommandOption.name_of_ofName? hname]
        exact follows_of_set (.flag option) hset
    · cases h
  · simp only [hrest] at h
    split at h
    · cases h
    · next hvalue => cases hvalue
    · next option given hname hvalue =>
        obtain rfl := Option.some.inj hvalue
        obtain ⟨changed, hassign, h⟩ := exists_of_bind_eq_ok h
        obtain rfl := Except.ok.inj h
        have hargument : "--" ++ String.ofList body =
            (CommandOption.value option).long ++ "=" ++ String.ofList value := by
          apply String.toList_injective
          simp only [CommandOption.long, CommandOption.name_of_ofName? hname, String.toList_append,
            String.toList_ofList]
          rw [List.append_assoc, List.append_assoc]
          exact congrArg _ hbody
        rw [hargument]
        exact ⟨_, .assignment option _, .more hassign (.done changed)⟩
    · next hvalue => cases hvalue
    · cases h

theorem looksLikeOption_iff {argument : String} :
    looksLikeOption argument = true ↔ ∃ c letters, argument.toList = '-' :: c :: letters := by
  unfold looksLikeOption
  split
  · next c letters htext => exact iff_of_true rfl ⟨c, letters, htext⟩
  · next hnot => exact iff_of_false nofun fun ⟨c, letters, htext⟩ => hnot c letters htext

theorem follows_of_readOption {argument : String} {reached : ArgumentEnd}
    (hargument : looksLikeOption argument = true)
    (h : readOption options argument = .ok reached) :
    reached.Follows (SpellsOption argument) options := by
  obtain ⟨c, letters, htext⟩ := looksLikeOption_iff.mp hargument
  obtain rfl : String.ofList ('-' :: c :: letters) = argument := by
    rw [← htext, String.ofList_toList]
  unfold readOption at h
  rw [htext] at h
  split at h
  · next body hbody =>
      obtain ⟨rfl, rfl⟩ : c = '-' ∧ letters = body := by simpa using hbody
      have hdashes : String.ofList ('-' :: '-' :: letters) = "--" ++ String.ofList letters :=
        String.toList_injective (by simp)
      rw [hdashes]
      exact follows_of_readLong h
  · next _ hletters =>
      obtain ⟨-, rfl⟩ := List.cons.inj hletters
      exact (follows_of_readLetters h).prepend (.done options)
        (.letters (List.cons_ne_nil c letters))
  · next hnil => cases hnil

theorem leads_of_takeInputs {arguments : List String}
    (h : options.takeInputs arguments = .ok final) :
    Leads (arguments.map .input) options final := by
  induction arguments generalizing options with
  | nil =>
      obtain rfl := Except.ok.inj h
      exact .done options
  | cons argument rest ih =>
      obtain ⟨changed, htake, h⟩ := exists_of_bind_eq_ok h
      exact .more htake (ih h)

theorem eq_of_check (h : options.check = .ok (.evaluate final)) : options = final := by
  unfold CommandOptions.check at h
  split at h
  · cases h
  · exact CommandRequest.evaluate.inj (Except.ok.inj h)

theorem exists_spells {arguments : List String}
    (h : CommandRequest.ofArgumentsAfter options arguments = .ok (.evaluate final)) :
    ∃ actions, Spells arguments actions ∧ Leads actions options final := by
  -- An option may take the next argument with it, so the induction is on how many there are.
  induction hlength : arguments.length using Nat.strong_induction_on
    generalizing arguments options with
  | _ n ih =>
  cases arguments with
  | nil =>
      obtain rfl := eq_of_check h
      exact ⟨[], .done, .done options⟩
  | cons argument rest =>
      unfold CommandRequest.ofArgumentsAfter at h
      split at h
      · next hdashes =>
          subst hdashes
          obtain ⟨changed, htake, h⟩ := exists_of_bind_eq_ok h
          obtain rfl := eq_of_check h
          exact ⟨_, .inputs rest, leads_of_takeInputs htake⟩
      · split at h
        · next hoption =>
            obtain ⟨reached, hread, h⟩ := exists_of_bind_eq_ok h
            have hfollows := follows_of_readOption hoption hread
            split at h
            · obtain rfl := Except.ok.inj h
              exact absurd rfl (hfollows final)
            · obtain ⟨first, hfirst, hchanged⟩ := hfollows
              obtain ⟨actions, hspells, hleads⟩ := ih _ (by simp [← hlength]) h rfl
              exact ⟨_, .option hfirst hspells, hchanged.append hleads⟩
            · next option changed =>
                obtain ⟨first, hfirst, hchanged⟩ := hfollows
                cases rest with
                | nil => cases h
                | cons value rest =>
                    simp only at h
                    split at h
                    · cases h
                    · next hvalue =>
                        obtain ⟨assigned, hassign, h⟩ := exists_of_bind_eq_ok h
                        obtain ⟨actions, hspells, hleads⟩ := ih _ (by simp [← hlength]) h rfl
                        exact ⟨_, .optionValue hfirst (Bool.eq_false_iff.mpr hvalue) hspells,
                          hchanged.append (.more hassign hleads)⟩
        · next hargument =>
            obtain ⟨changed, htake, h⟩ := exists_of_bind_eq_ok h
            obtain ⟨actions, hspells, hleads⟩ := ih _ (by simp [← hlength]) h rfl
            exact ⟨_, .input (Bool.eq_false_iff.mpr hargument) hspells, .more htake hleads⟩

end Reading

section Finding

variable {arguments rest : List String} {actions : List CommandAction}
variable {option : ValueOption} {flag : FlagOption} {argument value : String}

/-- The arguments among which options are looked for. -/
def optionArguments (arguments : List String) : List String :=
  arguments.takeWhile (· ≠ "--")

/-- The arguments give an option this value by its name. -/
def ValueOption.GivenIn (option : ValueOption) (arguments : List String) (value : String) : Prop :=
  (CommandOption.value option).long ++ "=" ++ value ∈ optionArguments arguments ∨
    [(CommandOption.value option).long, value] <:+: optionArguments arguments

/-- The arguments set a switch by its name. -/
def FlagOption.SetIn (flag : FlagOption) (arguments : List String) : Prop :=
  (CommandOption.flag flag).long ∈ optionArguments arguments

/-- No option has a dash for its letter, so letters do not spell out a name. -/
theorem letters_ne_of_toList {letters rest : List Char} {awaiting : Option ValueOption}
    (h : SpellsLetters letters actions awaiting) (hne : letters ≠ [])
    (hdashes : argument.toList = '-' :: '-' :: rest) :
    String.ofList ('-' :: letters) ≠ argument := by
  rintro rfl
  obtain rfl : letters = '-' :: rest := by simpa using hdashes
  have hnone : CommandOption.ofLetter? '-' = none := rfl
  cases h <;> simp_all

/-- The option that an action is about. -/
def CommandAction.option? : CommandAction → Option CommandOption
  | assign option _ => some (.value option)
  | set option => some (.flag option)
  | input _ => none

/-- Letters do not spell an option that has none. -/
theorem not_mem_of_isNamedOnly {letters : List Char} {awaiting : Option ValueOption}
    {option : CommandOption} (hoption : option.IsNamedOnly)
    (h : SpellsLetters letters actions awaiting) :
    (∀ action ∈ actions, action.option? ≠ some option) ∧
      ∀ value ∈ awaiting, CommandOption.value value ≠ option := by
  induction h with
  | done => exact ⟨nofun, nofun⟩
  | flag hletter hrest ih =>
      refine ⟨fun action haction => ?_, ih.2⟩
      obtain rfl | haction := List.mem_cons.mp haction
      · rintro ⟨⟩
        exact hoption _ hletter
      · exact ih.1 action haction
  | attached hletter hvalue =>
      refine ⟨fun action haction => ?_, nofun⟩
      obtain rfl := List.mem_singleton.mp haction
      rintro ⟨⟩
      exact hoption _ hletter
  | awaiting hletter =>
      refine ⟨nofun, ?_⟩
      rintro value ⟨⟩ rfl
      exact hoption _ hletter

variable {awaiting : Option ValueOption}

/-- An option without a letter is given a value in one argument. -/
theorem assign_mem_iff (hoption : CommandOption.IsNamedOnly (.value option))
    (h : SpellsOption argument actions awaiting) :
    .assign option value ∈ actions ↔
      argument = (CommandOption.value option).long ++ "=" ++ value := by
  cases h with
  | assignment other given =>
      rw [List.mem_singleton, CommandAction.assign.injEq, CommandOption.assignment_eq_iff,
        CommandOption.value.injEq, eq_comm, @eq_comm _ value]
  | awaiting other => exact iff_of_false nofun (CommandOption.long_ne_assignment _ _ value)
  | flag flag =>
      exact iff_of_false (by simp) (CommandOption.long_ne_assignment _ _ value)
  | letters hne hletters =>
      exact iff_of_false (fun hmem => (not_mem_of_isNamedOnly hoption hletters).1 _ hmem rfl)
        (letters_ne_of_toList hletters hne (CommandOption.toList_assignment _ value))

theorem awaiting_iff (hoption : CommandOption.IsNamedOnly (.value option))
    (h : SpellsOption argument actions awaiting) :
    awaiting = some option ↔ argument = (CommandOption.value option).long := by
  cases h with
  | assignment other given =>
      exact iff_of_false nofun (CommandOption.long_ne_assignment _ _ given).symm
  | awaiting other => rw [CommandOption.long_eq_iff, Option.some_inj, CommandOption.value.injEq]
  | flag flag => exact iff_of_false nofun fun h => nomatch CommandOption.long_eq_iff.mp h
  | letters hne hletters =>
      exact iff_of_false
        (fun hawaiting => (not_mem_of_isNamedOnly hoption hletters).2 option hawaiting rfl)
        (letters_ne_of_toList hletters hne (CommandOption.toList_long _))

theorem set_mem_iff (hoption : CommandOption.IsNamedOnly (.flag flag))
    (h : SpellsOption argument actions awaiting) :
    .set flag ∈ actions ↔ argument = (CommandOption.flag flag).long := by
  cases h with
  | assignment other given =>
      exact iff_of_false (by simp) (CommandOption.long_ne_assignment _ _ given).symm
  | awaiting other => exact iff_of_false nofun fun h => nomatch CommandOption.long_eq_iff.mp h
  | flag other =>
      rw [CommandOption.long_eq_iff, List.mem_singleton, CommandAction.set.injEq,
        CommandOption.flag.injEq, eq_comm]
  | letters hne hletters =>
      exact iff_of_false (fun hmem => (not_mem_of_isNamedOnly hoption hletters).1 _ hmem rfl)
        (letters_ne_of_toList hletters hne (CommandOption.toList_long _))

theorem toList_dashes : "--".toList = ['-', '-'] :=
  rfl

theorem ne_dashes_of_spellsOption (h : SpellsOption argument actions awaiting) :
    argument ≠ "--" := by
  have hlong : ∀ option : CommandOption, option.long ≠ "--" := by
    intro option heq
    have htext := congrArg String.toList heq
    rw [CommandOption.toList_long] at htext
    exact CommandOption.toList_name_ne_nil option (by simpa using htext)
  cases h with
  | assignment option value =>
      intro heq
      have htext := congrArg String.toList heq
      rw [CommandOption.toList_assignment] at htext
      simp at htext
  | awaiting option => exact hlong _
  | flag option => exact hlong _
  | letters hne hletters => exact letters_ne_of_toList hletters hne toList_dashes

theorem optionArguments_cons (hne : argument ≠ "--") :
    optionArguments (argument :: rest) = argument :: optionArguments rest :=
  List.takeWhile_cons_of_pos (decide_eq_true hne)

theorem givenIn_cons (hne : argument ≠ "--") : option.GivenIn (argument :: rest) value ↔
    argument = (CommandOption.value option).long ++ "=" ++ value ∨
      (argument = (CommandOption.value option).long ∧
        (optionArguments rest).head? = some value) ∨ option.GivenIn rest value := by
  have hhead : [value] <+: optionArguments rest ↔ (optionArguments rest).head? = some value := by
    cases optionArguments rest <;> simp [eq_comm]
  rw [ValueOption.GivenIn, ValueOption.GivenIn, optionArguments_cons hne, List.mem_cons,
    List.infix_cons_iff, List.cons_prefix_cons, hhead, eq_comm, @eq_comm _ argument]
  tauto

theorem setIn_cons (hne : argument ≠ "--") : flag.SetIn (argument :: rest) ↔
    argument = (CommandOption.flag flag).long ∨ flag.SetIn rest := by
  rw [FlagOption.SetIn, FlagOption.SetIn, optionArguments_cons hne, List.mem_cons, eq_comm]

/-- What does not look like an option spells none. -/
theorem ne_of_looksLikeOption_eq_false (h : looksLikeOption argument = false) :
    argument ≠ "--" ∧ (∀ option : CommandOption, argument ≠ option.long) ∧
      ∀ (option : CommandOption) (value : String), argument ≠ option.long ++ "=" ++ value := by
  have hnot : ∀ {c letters}, argument.toList ≠ '-' :: c :: letters := fun htext =>
    Bool.eq_false_iff.mp h (looksLikeOption_iff.mpr ⟨_, _, htext⟩)
  refine ⟨?_, fun option => ?_, fun option value => ?_⟩
  · rintro rfl
    exact hnot toList_dashes
  · rintro rfl
    exact hnot (CommandOption.toList_long option)
  · rintro rfl
    exact hnot (CommandOption.toList_assignment option value)

theorem givenIn_cons_of_not_option (h : looksLikeOption argument = false) :
    option.GivenIn (argument :: rest) value ↔ option.GivenIn rest value := by
  obtain ⟨hne, hlong, hassignment⟩ := ne_of_looksLikeOption_eq_false h
  rw [givenIn_cons hne, or_iff_right (hassignment _ _), or_iff_right fun hgiven => hlong _ hgiven.1]

/-- An option without a letter is given the values that are found for it in the arguments. -/
theorem assign_mem_iff_givenIn (hoption : CommandOption.IsNamedOnly (.value option))
    (h : Spells arguments actions) :
    .assign option value ∈ actions ↔ option.GivenIn arguments value := by
  induction h with
  | done => simp [ValueOption.GivenIn, optionArguments]
  | inputs arguments => simp [ValueOption.GivenIn, optionArguments]
  | input hargument hrest ih =>
      rw [givenIn_cons_of_not_option hargument, List.mem_cons, or_iff_right nofun, ih]
  | option hfirst hrest ih =>
      rw [givenIn_cons (ne_dashes_of_spellsOption hfirst), ← assign_mem_iff hoption hfirst,
        ← awaiting_iff hoption hfirst, List.mem_append, ih,
        or_iff_right (a := none = some option ∧ _) nofun]
  | @optionValue argument given rest awaited first actions hfirst hvalue hrest ih =>
      rw [givenIn_cons (ne_dashes_of_spellsOption hfirst), ← assign_mem_iff hoption hfirst,
        ← awaiting_iff hoption hfirst, givenIn_cons_of_not_option hvalue,
        optionArguments_cons (ne_of_looksLikeOption_eq_false hvalue).1, List.head?_cons,
        List.mem_append, List.mem_cons, ih, CommandAction.assign.injEq, Option.some_inj,
        Option.some_inj, @eq_comm _ option, @eq_comm _ value]

/-- A switch without a letter is set if it is found in the arguments. -/
theorem set_mem_iff_setIn (hflag : CommandOption.IsNamedOnly (.flag flag))
    (h : Spells arguments actions) : .set flag ∈ actions ↔ flag.SetIn arguments := by
  induction h with
  | done => simp [FlagOption.SetIn, optionArguments]
  | inputs arguments => simp [FlagOption.SetIn, optionArguments]
  | input hargument hrest ih =>
      obtain ⟨hne, hlong, -⟩ := ne_of_looksLikeOption_eq_false hargument
      rw [setIn_cons hne, or_iff_right (hlong _), List.mem_cons, or_iff_right nofun, ih]
  | option hfirst hrest ih =>
      rw [setIn_cons (ne_dashes_of_spellsOption hfirst), ← set_mem_iff hflag hfirst,
        List.mem_append, ih]
  | @optionValue argument given rest awaited first actions hfirst hvalue hrest ih =>
      obtain ⟨hne, hlong, -⟩ := ne_of_looksLikeOption_eq_false hvalue
      have hother : CommandAction.set flag ≠ .assign awaited given := nofun
      rw [setIn_cons (ne_dashes_of_spellsOption hfirst), ← set_mem_iff hflag hfirst, setIn_cons hne,
        or_iff_right (hlong _), List.mem_append, List.mem_cons, ih, or_iff_right hother]

end Finding

end FormulaSheet
