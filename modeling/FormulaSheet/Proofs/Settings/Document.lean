import Mathlib
import FormulaSheet.Proofs.Toml.Reader
import FormulaSheet.Settings.Basic

/-!
# What a settings document says

A document gives values to keys, one by one or a whole table at once. It fits the settings if its
headers name the two tables, it defines nothing twice, and it gives a value to known keys only, of
the right kind. Then it says of each key what the settings are, and keys that it does not mention
keep their defaults. The reader takes exactly the documents that fit, apart from those with a limit
of zero.

* `keyValues`: the values that a document gives to keys, however they are written.
* `Fits`: the documents that fit the settings.
* `Describes`: what a document that fits says.
* `parse_of_describes`, `parse_of_not_describes`: what becomes of a text.
-/

namespace FormulaSheet
namespace Settings

open Toml (Path Value Statement)

def maxDepthPath : Path := [evalName, maxDepthName]

def prettyPath : Path := [outputName, prettyName]

/-- The path leads to one of the two tables. -/
abbrev IsTable (path : Path) : Prop :=
  path = [evalName] ∨ path = [outputName]

section Contents

/-- The values of keys that an assignment gives. A table may be given as a whole: by an inline
table, or by an array whose first item is the value of its one key. -/
def valuesOf (path : Path) (value : Value) : List (Path × Value) :=
  if IsTable path then
    match value with
    | .table entries => entries.map fun entry => (path ++ entry.1, entry.2)
    | .array (item :: _) => [(if path = [evalName] then maxDepthPath else prettyPath, item)]
    | .array [] => if path = [outputName] then [] else [(path, value)]
    | _ => [(path, value)]
  else [(path, value)]

/-- The values of keys that statements give, behind the header of a table. -/
def keyValues (table : Path) : List Statement → List (Path × Value)
  | [] => []
  | .header path :: rest => keyValues path rest
  | .arrayHeader path :: rest => keyValues path rest
  | .assignment key value :: rest => valuesOf (table ++ key) value ++ keyValues table rest

/-- The paths that statements define, each with the table in which it is written. -/
def places (table : Path) : List Statement → List (Path × Path)
  | [] => []
  | .header path :: rest => ([], path) :: places path rest
  | .arrayHeader path :: rest => ([], path) :: places path rest
  | .assignment key _ :: rest => (table, table ++ key) :: places table rest

/-- A path can be defined at a place behind another: it is written in the table of that path, or
neither path leads to or through the other. -/
def Admits (defined : Path) (place : Path × Path) : Prop :=
  defined ≠ place.1 → Path.compatible place.2 defined = true

/-- The key is known, and the value is of its kind. -/
def IsKnown (path : Path) (value : Value) : Prop :=
  (path = maxDepthPath ∧ ∃ limit : Nat, value = .integer limit) ∨
    (path = prettyPath ∧ ∃ pretty, value = .boolean pretty)

/-- The statements fit the settings. -/
structure Fits (statements : List Statement) : Prop where
  headers : ∀ path, .header path ∈ statements → IsTable path
  arrayHeaders : ∀ path, .arrayHeader path ∉ statements
  /-- Nothing is defined twice. -/
  distinct : (places [] statements).Pairwise fun earlier later => Admits earlier.2 later
  known : ∀ path value, (path, value) ∈ keyValues [] statements → IsKnown path value

/-- What statements that fit say of the settings. -/
structure Describes (statements : List Statement) (settings : Settings) : Prop where
  fits : Fits statements
  maxDepth : ∀ limit : Nat, settings.maxDepth = some limit ↔
    (maxDepthPath, .integer limit) ∈ keyValues [] statements
  pretty : settings.pretty = true ↔ (prettyPath, .boolean true) ∈ keyValues [] statements

theorem Describes.eq {statements : List Statement} {settings other : Settings}
    (h : Describes statements settings) (hother : Describes statements other) :
    settings = other := by
  obtain ⟨maxDepth, pretty⟩ := settings
  obtain ⟨maxDepth', pretty'⟩ := other
  have hdepth : maxDepth = maxDepth' :=
    Option.ext fun limit => (h.maxDepth limit).trans (hother.maxDepth limit).symm
  have hpretty : pretty = pretty' :=
    Bool.eq_iff_iff.mpr (h.pretty.trans hother.pretty.symm)
  rw [hdepth, hpretty]

end Contents

section Assignments

variable {settings result : Settings} {path : Path} {value : Value}

theorem maxDepth?_eq_some_iff {limit : Nat} :
    maxDepth? value = some limit ↔ value = .integer limit := by
  constructor
  · intro h
    unfold maxDepth? at h
    split at h
    · next number =>
        split at h
        · next hnonneg =>
            obtain rfl := Option.some.inj h
            rw [Int.toNat_of_nonneg hnonneg]
        · cases h
    · cases h
  · rintro rfl
    simp [maxDepth?]

theorem pretty?_eq_some_iff {pretty : Bool} :
    pretty? value = some pretty ↔ value = .boolean pretty := by
  cases value <;> simp [pretty?]

theorem prettyPath_ne_maxDepthPath : prettyPath ≠ maxDepthPath := by
  decide

theorem assignKey?_eq_some_iff :
    settings.assignKey? path value = some result ↔
      (path = maxDepthPath ∧ ∃ limit : Nat, value = .integer limit ∧
        result = { settings with maxDepth := some limit }) ∨
      (path = prettyPath ∧ ∃ pretty, value = .boolean pretty ∧
        result = { settings with pretty := pretty }) := by
  unfold assignKey?
  split
  · next hpath =>
      obtain rfl : path = maxDepthPath := hpath
      rw [Option.map_eq_some_iff]
      constructor
      · rintro ⟨limit, hlimit, rfl⟩
        exact Or.inl ⟨rfl, limit, maxDepth?_eq_some_iff.mp hlimit, rfl⟩
      · rintro (⟨-, limit, hvalue, rfl⟩ | ⟨hpath, -⟩)
        · exact ⟨limit, maxDepth?_eq_some_iff.mpr hvalue, rfl⟩
        · exact absurd hpath.symm prettyPath_ne_maxDepthPath
  · next hdepth =>
      split
      · next hpath =>
          obtain rfl : path = prettyPath := hpath
          rw [Option.map_eq_some_iff]
          constructor
          · rintro ⟨pretty, hpretty, rfl⟩
            exact Or.inr ⟨rfl, pretty, pretty?_eq_some_iff.mp hpretty, rfl⟩
          · rintro (⟨hpath, -⟩ | ⟨-, pretty, hvalue, rfl⟩)
            · exact absurd hpath prettyPath_ne_maxDepthPath
            · exact ⟨pretty, pretty?_eq_some_iff.mpr hvalue, rfl⟩
      · next hpretty =>
          refine iff_of_false nofun ?_
          rintro (⟨hpath, -⟩ | ⟨hpath, -⟩)
          · exact hdepth hpath
          · exact hpretty hpath

theorem isKnown_of_assignKey? (h : settings.assignKey? path value = some result) :
    IsKnown path value := by
  rcases assignKey?_eq_some_iff.mp h with ⟨hpath, limit, hvalue, -⟩ | ⟨hpath, pretty, hvalue, -⟩
  · exact Or.inl ⟨hpath, limit, hvalue⟩
  · exact Or.inr ⟨hpath, pretty, hvalue⟩

theorem exists_assignKey? (settings : Settings) (h : IsKnown path value) :
    ∃ result, settings.assignKey? path value = some result := by
  rcases h with ⟨hpath, limit, hvalue⟩ | ⟨hpath, pretty, hvalue⟩
  · exact ⟨_, assignKey?_eq_some_iff.mpr (Or.inl ⟨hpath, limit, hvalue, rfl⟩)⟩
  · exact ⟨_, assignKey?_eq_some_iff.mpr (Or.inr ⟨hpath, pretty, hvalue, rfl⟩)⟩

/-- The settings with keys changed one after the other. -/
def assignAll? (settings : Settings) : List (Path × Value) → Option Settings
  | [] => some settings
  | (path, value) :: rest => do assignAll? (← settings.assignKey? path value) rest

theorem assignAll?_append (settings : Settings) (before behind : List (Path × Value)) :
    settings.assignAll? (before ++ behind) =
      (settings.assignAll? before).bind (assignAll? · behind) := by
  induction before generalizing settings with
  | nil => rfl
  | cons entry rest ih =>
      obtain ⟨path, value⟩ := entry
      simp only [List.cons_append, assignAll?, ih, Option.bind_eq_bind, Option.bind_assoc]

theorem assignAll?_singleton (settings : Settings) (path : Path) (value : Value) :
    settings.assignAll? [(path, value)] = settings.assignKey? path value := by
  simp [assignAll?]

theorem assignEntries?_eq (table : List Char) (settings : Settings)
    (entries : List (Path × Value)) :
    assignEntries? table settings entries =
      settings.assignAll? (entries.map fun entry => ([table] ++ entry.1, entry.2)) := by
  induction entries generalizing settings with
  | nil => rfl
  | cons entry rest ih =>
      simp only [assignEntries?, List.map_cons, assignAll?, ih]
      rfl

/-- A table itself is no key. -/
theorem assignKey?_of_isTable (h : IsTable path) : settings.assignKey? path value = none := by
  rcases h with rfl | rfl <;> rfl

theorem assign?_eq (settings : Settings) (path : Path) (value : Value) :
    settings.assign? path value = settings.assignAll? (valuesOf path value) := by
  unfold assign? valuesOf
  by_cases h : IsTable path
  · rw [if_pos h, if_pos h]
    cases value with
    | table entries =>
        rcases h with rfl | rfl
        · exact assignEntries?_eq _ _ _
        · exact assignEntries?_eq _ _ _
    | array items =>
        rcases items with - | ⟨item, rest⟩
        · rcases h with rfl | rfl <;> rfl
        · rw [assignAll?_singleton]
          rcases h with rfl | rfl <;> rfl
    | integer number => rw [assignAll?_singleton, assignKey?_of_isTable h]
    | boolean pretty => rw [assignAll?_singleton, assignKey?_of_isTable h]
    | other => rw [assignAll?_singleton, assignKey?_of_isTable h]
  · rw [if_neg h, if_neg h, assignAll?_singleton]

/-- Keys can be changed one after the other if each is known and has a value of its kind. -/
theorem exists_assignAll?_iff {entries : List (Path × Value)} :
    (∃ result, settings.assignAll? entries = some result) ↔
      ∀ path value, (path, value) ∈ entries → IsKnown path value := by
  induction entries generalizing settings with
  | nil => exact iff_of_true ⟨_, rfl⟩ (by simp)
  | cons entry rest ih =>
      obtain ⟨path, value⟩ := entry
      constructor
      · rintro ⟨result, hresult⟩ key given hmem
        obtain ⟨middle, hmiddle, hrest⟩ := Option.bind_eq_some_iff.mp hresult
        rcases List.mem_cons.mp hmem with heq | hmem
        · cases heq
          exact isKnown_of_assignKey? hmiddle
        · exact ih.mp ⟨result, hrest⟩ key given hmem
      · intro hknown
        obtain ⟨middle, hmiddle⟩ :=
          exists_assignKey? settings (hknown path value List.mem_cons_self)
        have hrest : ∃ result, middle.assignAll? rest = some result :=
          ih.mpr fun key given hmem => hknown key given (List.mem_cons_of_mem _ hmem)
        obtain ⟨result, hresult⟩ := hrest
        exact ⟨result, Option.bind_eq_some_iff.mpr ⟨middle, hmiddle, hresult⟩⟩

/-- Where no key has two values, each key has the value that is given to it, and keys that are not
mentioned stay as they are. -/
theorem assignAll?_eq_some {entries : List (Path × Value)} (hnodup : (entries.map Prod.fst).Nodup)
    (h : settings.assignAll? entries = some result) :
    (∀ limit : Nat, result.maxDepth = some limit ↔ (maxDepthPath, .integer limit) ∈ entries ∨
      settings.maxDepth = some limit ∧ maxDepthPath ∉ entries.map Prod.fst) ∧
    (result.pretty = true ↔ (prettyPath, .boolean true) ∈ entries ∨
      settings.pretty = true ∧ prettyPath ∉ entries.map Prod.fst) := by
  induction entries generalizing settings with
  | nil =>
      cases h
      simp
  | cons entry rest ih =>
      obtain ⟨path, value⟩ := entry
      obtain ⟨middle, hmiddle, hrest⟩ := Option.bind_eq_some_iff.mp h
      rw [List.map_cons, List.nodup_cons] at hnodup
      obtain ⟨hfresh, hnodup⟩ := hnodup
      obtain ⟨hdepth, hpretty⟩ := ih hnodup hrest
      have hnone : ∀ value, (path, value) ∉ rest := fun value hmem =>
        hfresh (List.mem_map.mpr ⟨_, hmem, rfl⟩)
      rcases assignKey?_eq_some_iff.mp hmiddle with ⟨rfl, limit, rfl, rfl⟩ | ⟨rfl, pretty, rfl, rfl⟩
      · refine ⟨fun other => ?_, ?_⟩
        · rw [hdepth]
          simpa [hnone, hfresh] using eq_comm
        · rw [hpretty]
          simp [prettyPath_ne_maxDepthPath]
      · refine ⟨fun other => ?_, ?_⟩
        · rw [hdepth]
          simp [prettyPath_ne_maxDepthPath.symm]
        · rw [hpretty]
          simp [hnone, hfresh]

end Assignments

section Places

variable {table : Path} {defined : List Path} {statements rest : List Statement}

/-- The places admit each other, in their order, and paths that are defined before them. -/
def Free (defined : List Path) : List (Path × Path) → Prop
  | [] => True
  | place :: rest => (∀ path ∈ defined, Admits path place) ∧ Free (place.2 :: defined) rest

theorem free_iff {free : List (Path × Path)} :
    Free defined free ↔ (∀ path ∈ defined, ∀ place ∈ free, Admits path place) ∧
      free.Pairwise fun earlier later => Admits earlier.2 later := by
  induction free generalizing defined with
  | nil => simp [Free]
  | cons place rest ih =>
      simp only [Free, ih, List.forall_mem_cons, List.pairwise_cons, forall_and]
      exact ⟨fun h => ⟨⟨h.1, h.2.1.2⟩, h.2.1.1, h.2.2⟩, fun h => ⟨h.1.1, ⟨h.2.1, h.1.2⟩, h.2.2⟩⟩

/-- The statements can follow others that have defined some paths, behind the header of a table. -/
structure Follows (table : Path) (defined : List Path) (statements : List Statement) : Prop where
  headers : ∀ path, .header path ∈ statements → IsTable path
  arrayHeaders : ∀ path, .arrayHeader path ∉ statements
  free : Free defined (places table statements)

theorem follows_nil : Follows table defined [] :=
  ⟨by simp, by simp, trivial⟩

theorem follows_header_iff {path : Path} (hdefined : [] ∉ defined) :
    Follows table defined (.header path :: rest) ↔
      (IsTable path ∧ defined.all (Path.compatible path) = true) ∧
        Follows path (path :: defined) rest := by
  have hadmits : (∀ earlier ∈ defined, Admits earlier ([], path)) ↔
      defined.all (Path.compatible path) = true := by
    rw [List.all_eq_true]
    exact ⟨fun h earlier hmem => h earlier hmem (ne_of_mem_of_not_mem hmem hdefined),
      fun h earlier hmem _ => h earlier hmem⟩
  constructor
  · rintro ⟨hheaders, harrays, hplace, hfree⟩
    exact ⟨⟨hheaders path List.mem_cons_self, hadmits.mp hplace⟩,
      fun path hmem => hheaders path (List.mem_cons_of_mem _ hmem),
      fun path hmem => harrays path (List.mem_cons_of_mem _ hmem), hfree⟩
  · rintro ⟨⟨htable, hplace⟩, hheaders, harrays, hfree⟩
    refine ⟨fun other hmem => ?_, fun other hmem => ?_, hadmits.mpr hplace, hfree⟩
    · rcases List.mem_cons.mp hmem with heq | hmem
      · exact Statement.header.inj heq ▸ htable
      · exact hheaders other hmem
    · rcases List.mem_cons.mp hmem with heq | hmem
      · cases heq
      · exact harrays other hmem

theorem follows_assignment_iff {key : Path} {value : Value} :
    Follows table defined (.assignment key value :: rest) ↔
      (defined.filter (· ≠ table)).all (Path.compatible (table ++ key)) = true ∧
        Follows table ((table ++ key) :: defined) rest := by
  have hadmits : (∀ earlier ∈ defined, Admits earlier (table, table ++ key)) ↔
      (defined.filter (· ≠ table)).all (Path.compatible (table ++ key)) = true := by
    simp [Admits, List.all_eq_true, or_iff_not_imp_left]
  constructor
  · rintro ⟨hheaders, harrays, hplace, hfree⟩
    exact ⟨hadmits.mp hplace, fun path hmem => hheaders path (List.mem_cons_of_mem _ hmem),
      fun path hmem => harrays path (List.mem_cons_of_mem _ hmem), hfree⟩
  · rintro ⟨hplace, hheaders, harrays, hfree⟩
    refine ⟨fun other hmem => ?_, fun other hmem => ?_, hadmits.mpr hplace, hfree⟩
    · rcases List.mem_cons.mp hmem with heq | hmem
      · cases heq
      · exact hheaders other hmem
    · rcases List.mem_cons.mp hmem with heq | hmem
      · cases heq
      · exact harrays other hmem

/-- The reader takes the statements whose places are free, and changes their keys in order. -/
theorem ofStatements?_eq_some_iff {settings result : Settings} (hdefined : [] ∉ defined)
    (hkeys : ∀ key value, .assignment key value ∈ statements → key ≠ []) :
    ofStatements? table defined settings statements = some result ↔
      Follows table defined statements ∧
        settings.assignAll? (keyValues table statements) = some result := by
  induction statements generalizing table defined settings with
  | nil => exact (and_iff_right follows_nil).symm
  | cons statement rest ih =>
      have hrest : ∀ key value, .assignment key value ∈ rest → key ≠ [] := fun key value hmem =>
        hkeys key value (List.mem_cons_of_mem _ hmem)
      cases statement with
      | header path =>
          rw [ofStatements?, follows_header_iff hdefined, keyValues]
          split
          · next h =>
              have hnext : [] ∉ path :: defined := by
                rw [List.mem_cons, not_or]
                refine ⟨?_, hdefined⟩
                rcases h.1 with rfl | rfl <;> nofun
              rw [ih hnext hrest, and_iff_right h]
          · next h => exact iff_of_false nofun fun hfollows => h hfollows.1.1
      | arrayHeader path =>
          exact iff_of_false nofun fun h => h.1.arrayHeaders path List.mem_cons_self
      | assignment key value =>
          have hnext : [] ∉ (table ++ key) :: defined := by
            have hne := hkeys key value List.mem_cons_self
            simp [hdefined, hne]
          rw [ofStatements?, follows_assignment_iff, keyValues, assignAll?_append, ← assign?_eq]
          split
          · next h =>
              rw [and_iff_right h, Option.bind_eq_bind, Option.bind_eq_some_iff,
                Option.bind_eq_some_iff]
              simp only [ih hnext hrest]
              constructor
              · rintro ⟨middle, hmiddle, hfollows, hresult⟩
                exact ⟨hfollows, middle, hmiddle, hresult⟩
              · rintro ⟨hfollows, middle, hmiddle, hresult⟩
                exact ⟨middle, hmiddle, hfollows, hresult⟩
          · next h => exact iff_of_false nofun fun hfollows => h hfollows.1.1

end Places

section Keys

variable {table path key : Path} {value given : Value} {statements : List Statement}

/-- The keys of a table that is given as a whole lie in it. -/
theorem prefix_of_mem_valuesOf (h : (key, value) ∈ valuesOf path given) : path <+: key := by
  have hself : (key, value) ∈ [(path, given)] → path <+: key := fun hmem => by
    obtain rfl : key = path := congrArg Prod.fst (List.mem_singleton.mp hmem)
    exact List.prefix_refl _
  unfold valuesOf at h
  split at h
  · next htable =>
      split at h
      · obtain ⟨entry, -, heq⟩ := List.mem_map.mp h
        obtain rfl : path ++ entry.1 = key := congrArg Prod.fst heq
        exact List.prefix_append _ _
      · obtain rfl := congrArg Prod.fst (List.mem_singleton.mp h)
        rcases htable with rfl | rfl
        · exact ⟨[maxDepthName], rfl⟩
        · exact ⟨[prettyName], rfl⟩
      · split at h
        · cases h
        · exact hself h
      · exact hself h
  · exact hself h

theorem nodup_valuesOf (path : Path)
    (h : ∀ entries, value = .table entries → Toml.compatiblePaths (entries.map Prod.fst) = true) :
    ((valuesOf path value).map Prod.fst).Nodup := by
  unfold valuesOf
  split
  · split
    · next entries =>
        have hnodup := Toml.nodup_of_compatiblePaths (h entries rfl)
        have hmap := hnodup.map (List.append_right_injective path)
        simpa [List.map_map, Function.comp_def] using hmap
    · exact List.nodup_singleton _
    · split
      · exact .nil
      · exact List.nodup_singleton _
    · exact List.nodup_singleton _
  · exact List.nodup_singleton _

/-- A key has its value from a statement whose path leads to it. -/
theorem exists_place_of_mem_keyValues (h : (key, value) ∈ keyValues table statements) :
    ∃ place ∈ places table statements, place.2 <+: key ∧
      (place.1 = table ∨ ([], place.1) ∈ places table statements) := by
  induction statements generalizing table with
  | nil => cases h
  | cons statement rest ih =>
      -- Behind a header, the table is that of the header.
      have hheader : ∀ path, (key, value) ∈ keyValues path rest →
          ∃ place ∈ ([], path) :: places path rest, place.2 <+: key ∧
            (place.1 = table ∨ ([], place.1) ∈ ([], path) :: places path rest) := by
        intro path hmem
        obtain ⟨place, hplace, hprefix, horigin⟩ := ih hmem
        refine ⟨place, List.mem_cons_of_mem _ hplace, hprefix, Or.inr ?_⟩
        rcases horigin with heq | hdefined
        · rw [heq]
          exact List.mem_cons_self
        · exact List.mem_cons_of_mem _ hdefined
      cases statement with
      | header path => exact hheader path h
      | arrayHeader path => exact hheader path h
      | assignment name given =>
          rcases List.mem_append.mp h with hmem | hmem
          · exact ⟨_, List.mem_cons_self, prefix_of_mem_valuesOf hmem, Or.inl rfl⟩
          · obtain ⟨place, hplace, hprefix, horigin⟩ := ih hmem
            exact ⟨place, List.mem_cons_of_mem _ hplace, hprefix,
              horigin.imp_right (List.mem_cons_of_mem _)⟩

/-- A path and what is defined at a later place give no value to one key. -/
theorem ne_of_admits {name : Path} (hname : name ≠ [])
    (hadmits : ∀ place ∈ places table statements, Admits (table ++ name) place)
    (h : (key, value) ∈ keyValues table statements) : ¬ table ++ name <+: key := by
  intro hprefix
  obtain ⟨place, hplace, hlater, horigin⟩ := exists_place_of_mem_keyValues h
  have hne : table ++ name ≠ place.1 := by
    intro heq
    rcases horigin with htable | hdefined
    · exact hname (List.append_right_eq_self.mp (heq.trans htable))
    · have hcompatible := hadmits _ hdefined (by simp [hname])
      rw [← heq] at hcompatible
      exact Toml.Path.not_compatible_self _ hcompatible
  exact Toml.Path.not_compatible_of_prefix hlater hprefix (hadmits place hplace hne)

/-- No key has two values. -/
theorem nodup_keyValues (hwell : ∀ statement ∈ statements, statement.IsWellFormed)
    (h : (places table statements).Pairwise fun earlier later => Admits earlier.2 later) :
    ((keyValues table statements).map Prod.fst).Nodup := by
  induction statements generalizing table with
  | nil => exact .nil
  | cons statement rest ih =>
      rw [List.forall_mem_cons] at hwell
      cases statement with
      | header path => exact ih hwell.2 (List.pairwise_cons.mp h).2
      | arrayHeader path => exact ih hwell.2 (List.pairwise_cons.mp h).2
      | assignment name value =>
          obtain ⟨hname, htable⟩ := hwell.1
          obtain ⟨hadmits, hrest⟩ := List.pairwise_cons.mp h
          rw [keyValues, List.map_append, List.nodup_append]
          refine ⟨nodup_valuesOf _ htable, ih hwell.2 hrest, ?_⟩
          rintro key hkey _ hother rfl
          obtain ⟨⟨_, given⟩, hmem, rfl⟩ := List.mem_map.mp hkey
          obtain ⟨⟨_, later⟩, hlater, heq⟩ := List.mem_map.mp hother
          obtain rfl := heq
          exact ne_of_admits hname hadmits hlater (prefix_of_mem_valuesOf hmem)

end Keys

section Texts

variable {statements : List Statement} {text : String} {settings : Settings}

theorem describes_of_follows (hwell : ∀ statement ∈ statements, statement.IsWellFormed)
    (hfollows : Follows [] [] statements)
    (hresult : assignAll? {} (keyValues [] statements) = some settings) :
    Describes statements settings := by
  have hdistinct := (free_iff.mp hfollows.free).2
  obtain ⟨hdepth, hpretty⟩ := assignAll?_eq_some (nodup_keyValues hwell hdistinct) hresult
  exact
    { fits :=
        { headers := hfollows.headers
          arrayHeaders := hfollows.arrayHeaders
          distinct := hdistinct
          known := exists_assignAll?_iff.mp ⟨settings, hresult⟩ }
      maxDepth := fun limit => by simpa using hdepth limit
      pretty := by simpa using hpretty }

/-- The reader gives what the statements say, if they fit. -/
theorem ofStatements?_eq_some_iff_describes
    (hwell : ∀ statement ∈ statements, statement.IsWellFormed) :
    ofStatements? [] [] {} statements = some settings ↔ Describes statements settings := by
  have hkeys : ∀ key value, .assignment key value ∈ statements → key ≠ [] :=
    fun key value hmem => (hwell _ hmem).1
  rw [ofStatements?_eq_some_iff (by simp) hkeys]
  constructor
  · rintro ⟨hfollows, hresult⟩
    exact describes_of_follows hwell hfollows hresult
  · intro h
    have hfollows : Follows [] [] statements :=
      ⟨h.fits.headers, h.fits.arrayHeaders, free_iff.mpr ⟨by simp, h.fits.distinct⟩⟩
    obtain ⟨result, hresult⟩ := exists_assignAll?_iff.mpr h.fits.known
    rw [h.eq (describes_of_follows hwell hfollows hresult)]
    exact ⟨hfollows, hresult⟩

/-- The text is a document that fits, and this is what it says of the settings. -/
def TextDescribes (text : String) (settings : Settings) : Prop :=
  ∃ statements, Toml.read? text.toList = some statements ∧ Describes statements settings

theorem read?_eq_some_iff :
    (Toml.read? text.toList).bind (ofStatements? [] [] {}) = some settings ↔
      TextDescribes text settings := by
  rw [Option.bind_eq_some_iff]
  exact exists_congr fun statements => and_congr_right fun hread =>
    ofStatements?_eq_some_iff_describes (Toml.isWellFormed_of_read? hread)

theorem parse_of_describes (h : TextDescribes text settings) :
    parse text = if settings.maxDepth = some 0 then .error .zeroDepth else .ok settings := by
  rw [parse, read?_eq_some_iff.mpr h]

theorem parse_of_not_describes (h : ∀ settings, ¬ TextDescribes text settings) :
    parse text = .error .unfit := by
  have hnone : (Toml.read? text.toList).bind (ofStatements? [] [] {}) = none :=
    Option.eq_none_iff_forall_ne_some.mpr fun settings hsome =>
      h settings (read?_eq_some_iff.mp hsome)
  rw [parse, hnone]

end Texts

end Settings
end FormulaSheet
