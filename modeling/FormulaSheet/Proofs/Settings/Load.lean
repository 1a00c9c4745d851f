import Mathlib
import FormulaSheet.Proofs.Except
import FormulaSheet.Proofs.Settings.Document
import FormulaSheet.Settings.Load

/-!
# What is loaded

Whatever there is at the path of the settings, a document is taken as a whole or not at all. A
document that is rejected leaves the defaults and one warning, which names the path and the fault.
If there is nothing at the path, that is worth a warning only if somebody named it.

* `Rejected`: the states of a path for which its file is not used, each with its fault.
* `LoadsTo`: what is loaded, state by state.
* `load_eq_iff`: loading follows these rules.
-/

namespace FormulaSheet

theorem Content.text?_eq {content : Content} {text : String} (h : content.toBytes = text.toUTF8) :
    content.text? = .ok text := by
  have hdecoded : String.fromUTF8? text.toUTF8 = some text := dif_pos text.isValidUTF8
  rw [text?, h, hdecoded]

theorem Content.text?_eq_error {content : Content}
    (h : ∀ text : String, content.toBytes ≠ text.toUTF8) : content.text? = .error .notUtf8 := by
  have hinvalid : ¬ content.toBytes.IsValidUTF8 := fun hvalid =>
    h (String.fromUTF8 content.toBytes hvalid) rfl
  have hdecoded : String.fromUTF8? content.toBytes = none := dif_neg hinvalid
  rw [text?, hdecoded]

namespace Settings

section States

variable (store : Store) (path : String)

/-- The file at the path is one that is read, and holds this text. -/
def HoldsText (text : String) : Prop :=
  ∃ content, store.find path = .ok (.file content) ∧ content.size ≤ maxSettingsBytes ∧
    content.toBytes = text.toUTF8

/-- What there is at the path is not used. -/
inductive Rejected : StorageError → Prop
  | directory (hfind : store.find path = .ok .directory) : Rejected (.file .isADirectory)
  | tooLarge {content : Content} (hfind : store.find path = .ok (.file content))
      (hsize : maxSettingsBytes < content.size) :
      Rejected (.fileTooLarge path content.size maxSettingsBytes)
  | notText {content : Content} (hfind : store.find path = .ok (.file content))
      (hsize : content.size ≤ maxSettingsBytes)
      (htext : ∀ text : String, content.toBytes ≠ text.toUTF8) : Rejected (.file .notUtf8)
  | unfit {text : String} (htext : HoldsText store path text)
      (hunfit : ∀ settings, ¬ TextDescribes text settings) : Rejected (.settings path .unfit)
  | zeroDepth {text : String} {settings : Settings} (htext : HoldsText store path text)
      (hdescribes : TextDescribes text settings) (hzero : settings.maxDepth = some 0) :
      Rejected (.settings path .zeroDepth)

/-- What is loaded from a path that somebody named, or else from that of the user's settings. -/
inductive LoadsTo (directories : UserDirectories) (given : Option String) :
    Settings × List Warning → Prop
  /-- The document is taken as a whole. -/
  | taken {text : String} {settings : Settings}
      (htext : HoldsText store (given.getD (userPath directories)) text)
      (hdescribes : TextDescribes text settings) (hlimit : settings.maxDepth ≠ some 0) :
      LoadsTo directories given (settings, [])
  | rejected {error : StorageError}
      (hrejected : Rejected store (given.getD (userPath directories)) error) :
      LoadsTo directories given ({}, [.ignored (given.getD (userPath directories)) error])
  | notFound {path : String} {fault : FileFault} (hgiven : given = some path)
      (hfind : store.find path = .error fault) : LoadsTo directories given ({}, [.notFound path])
  /-- Nobody named a path, and there are no settings of the user. -/
  | absent {fault : FileFault} (hgiven : given = none)
      (hfind : store.find (userPath directories) = .error fault) :
      LoadsTo directories given ({}, [])

end States

section Reading

variable {store : Store} {path text : String} {settings : Settings} {content : Content}

theorem find_ne_missing (store : Store) (path : String) : store.find path ≠ .ok .missing := by
  intro h
  obtain ⟨place, hlocate, h⟩ := exists_of_bind_eq_ok h
  split at h
  · cases h
  · cases h
  · split at h <;> cases h

theorem readFile_of_directory (hfind : store.find path = .ok .directory) :
    readFile store path = .error (.file .isADirectory) := by
  have hsize : store.size path = .ok 0 := by
    rw [Store.size, hfind]
    rfl
  have hread : store.read path = .error .isADirectory := by
    rw [Store.read, hfind]
    rfl
  rw [readFile, hsize, hread]
  rfl

theorem readFile_of_file (hfind : store.find path = .ok (.file content)) :
    readFile store path =
      if maxSettingsBytes < content.size then
        .error (.fileTooLarge path content.size maxSettingsBytes)
      else content.text?.mapError .file >>= fun text =>
        (parse text).mapError (.settings path) := by
  have hsize : store.size path = .ok content.size := by
    rw [Store.size, hfind]
    rfl
  have hread : store.read path = .ok content := by
    rw [Store.read, hfind]
    rfl
  rw [readFile, hsize, hread]
  rfl

theorem readFile_of_holdsText (h : HoldsText store path text) :
    readFile store path = (parse text).mapError (.settings path) := by
  obtain ⟨content, hfind, hsize, htext⟩ := h
  rw [readFile_of_file hfind, if_neg (not_lt.mpr hsize), Content.text?_eq htext]
  rfl

theorem readFile_of_rejected {error : StorageError} (h : Rejected store path error) :
    readFile store path = .error error := by
  cases h with
  | directory hfind => exact readFile_of_directory hfind
  | tooLarge hfind hsize => rw [readFile_of_file hfind, if_pos hsize]
  | notText hfind hsize htext =>
      rw [readFile_of_file hfind, if_neg (not_lt.mpr hsize), Content.text?_eq_error htext]
      rfl
  | unfit htext hunfit =>
      rw [readFile_of_holdsText htext, parse_of_not_describes hunfit]
      rfl
  | zeroDepth htext hdescribes hzero =>
      rw [readFile_of_holdsText htext, parse_of_describes hdescribes, if_pos hzero]
      rfl

theorem readFile_of_describes (htext : HoldsText store path text)
    (hdescribes : TextDescribes text settings) (hlimit : settings.maxDepth ≠ some 0) :
    readFile store path = .ok settings := by
  rw [readFile_of_holdsText htext, parse_of_describes hdescribes, if_neg hlimit]
  rfl

theorem HoldsText.exists? (h : HoldsText store path text) : store.exists? path = true := by
  obtain ⟨content, hfind, -, -⟩ := h
  rw [Store.exists?, hfind]
  rfl

theorem Rejected.exists? {error : StorageError} (h : Rejected store path error) :
    store.exists? path = true := by
  cases h with
  | unfit htext hunfit => exact htext.exists?
  | zeroDepth htext hdescribes hzero => exact htext.exists?
  | _ hfind =>
      rw [Store.exists?, hfind]
      rfl

/-- What is at a path is rejected, or it is a document that is taken as a whole. -/
theorem rejected_or_describes {kind : Store.Kind} (hfind : store.find path = .ok kind) :
    (∃ error, Rejected store path error) ∨
      ∃ text settings, HoldsText store path text ∧ TextDescribes text settings ∧
        settings.maxDepth ≠ some 0 := by
  cases kind with
  | missing => exact absurd hfind (find_ne_missing store path)
  | directory => exact Or.inl ⟨_, .directory hfind⟩
  | file content =>
      by_cases hsize : maxSettingsBytes < content.size
      · exact Or.inl ⟨_, .tooLarge hfind hsize⟩
      · by_cases htext : ∃ text : String, content.toBytes = text.toUTF8
        · obtain ⟨text, htext⟩ := htext
          have hholds : HoldsText store path text := ⟨content, hfind, not_lt.mp hsize, htext⟩
          by_cases hdescribes : ∃ settings, TextDescribes text settings
          · obtain ⟨settings, hdescribes⟩ := hdescribes
            by_cases hzero : settings.maxDepth = some 0
            · exact Or.inl ⟨_, .zeroDepth hholds hdescribes hzero⟩
            · exact Or.inr ⟨text, settings, hholds, hdescribes, hzero⟩
          · exact Or.inl ⟨_, .unfit hholds (not_exists.mp hdescribes)⟩
        · exact Or.inl ⟨_, .notText hfind (not_lt.mp hsize) (not_exists.mp htext)⟩

end Reading

section Loading

variable {store : Store} {directories : UserDirectories} {given : Option String}
variable {result : Settings × List Warning}

theorem load_of_rejected {error : StorageError}
    (h : Rejected store (given.getD (userPath directories)) error) :
    load store directories given =
      ({}, [.ignored (given.getD (userPath directories)) error]) := by
  rw [load, if_pos h.exists?, readFile_of_rejected h]

/-- At a path at which nothing is, only a path that somebody named is worth a warning. -/
theorem load_of_find_eq_error {fault : FileFault}
    (hfind : store.find (given.getD (userPath directories)) = .error fault) :
    load store directories given =
      ({}, if given.isSome then [.notFound (given.getD (userPath directories))] else []) := by
  have hexists : store.exists? (given.getD (userPath directories)) = false := by
    rw [Store.exists?, hfind]
    rfl
  rw [load, if_neg (Bool.not_eq_true _ ▸ hexists)]

theorem load_of_loadsTo (h : LoadsTo store directories given result) :
    load store directories given = result := by
  cases h with
  | taken htext hdescribes hlimit =>
      rw [load, if_pos htext.exists?, readFile_of_describes htext hdescribes hlimit]
  | rejected hrejected => exact load_of_rejected hrejected
  | notFound hgiven hfind =>
      subst hgiven
      exact load_of_find_eq_error hfind
  | absent hgiven hfind =>
      subst hgiven
      exact load_of_find_eq_error hfind

/-- The rules leave out no state of a path. -/
theorem exists_loadsTo (store : Store) (directories : UserDirectories) (given : Option String) :
    ∃ result, LoadsTo store directories given result := by
  cases hfind : store.find (given.getD (userPath directories)) with
  | ok kind =>
      obtain ⟨error, hrejected⟩ | ⟨text, settings, htext, hdescribes, hlimit⟩ :=
        rejected_or_describes hfind
      · exact ⟨_, .rejected hrejected⟩
      · exact ⟨_, .taken htext hdescribes hlimit⟩
  | error fault =>
      cases given with
      | none => exact ⟨_, .absent rfl hfind⟩
      | some path => exact ⟨_, .notFound rfl hfind⟩

theorem load_eq_iff : load store directories given = result ↔
    LoadsTo store directories given result := by
  constructor
  · rintro rfl
    obtain ⟨result, hresult⟩ := exists_loadsTo store directories given
    rwa [load_of_loadsTo hresult]
  · exact load_of_loadsTo

/-- A limit that is loaded is never zero. -/
theorem maxDepth_ne_zero_of_loadsTo (h : LoadsTo store directories given result) :
    result.1.maxDepth ≠ some 0 := by
  cases h with
  | taken htext hdescribes hlimit => exact hlimit
  | rejected hrejected => nofun
  | notFound hgiven hfind => nofun
  | absent hgiven hfind => nofun

end Loading

end Settings
end FormulaSheet
