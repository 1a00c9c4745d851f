import Mathlib
import FormulaSheet.Toml.Reader

/-!
# What the reader of documents gives

The keys of the statements that are read from a text are never empty, and an inline table gives no
value twice.

* `compatible_iff`: compatible paths do not overlap.
* `isWellFormed_of_read?`: the statements of a text.
-/

namespace FormulaSheet
namespace Toml

theorem Path.compatible_iff {a b : Path} : a.compatible b = true ↔ ¬ a <+: b ∧ ¬ b <+: a := by
  rw [compatible, Bool.not_eq_true', Bool.or_eq_false_iff, ← Bool.not_eq_true, ← Bool.not_eq_true,
    List.isPrefixOf_iff_prefix, List.isPrefixOf_iff_prefix]

theorem Path.not_compatible_self (path : Path) : ¬ path.compatible path = true := fun h =>
  (compatible_iff.mp h).1 (List.prefix_refl path)

/-- Paths that lead through one key overlap. -/
theorem Path.not_compatible_of_prefix {a b path : Path} (ha : a <+: path) (hb : b <+: path) :
    ¬ a.compatible b = true := by
  rw [compatible_iff, ← not_or, not_not]
  exact List.prefix_or_prefix_of_prefix ha hb

theorem nodup_of_compatiblePaths {paths : List Path} (h : compatiblePaths paths = true) :
    paths.Nodup := by
  induction paths with
  | nil => exact .nil
  | cons path rest ih =>
      rw [compatiblePaths, Bool.and_eq_true, List.all_eq_true] at h
      exact List.nodup_cons.mpr ⟨fun hmem => path.not_compatible_self (h.1 path hmem), ih h.2⟩

/-- A key is at least one name, and an inline table has no key twice. -/
def Statement.IsWellFormed : Statement → Prop
  | .assignment key value =>
      key ≠ [] ∧ ∀ entries, value = .table entries → compatiblePaths (entries.map Prod.fst) = true
  | _ => True

section Readers

variable {cs rest : List Char}

theorem ne_nil_of_path? {turns : Nat} {path : Path} (h : path? turns cs = some (path, rest)) :
    path ≠ [] := by
  cases turns with
  | zero => cases h
  | succ turns =>
      obtain ⟨⟨name, behind⟩, -, h⟩ := Option.bind_eq_some_iff.mp h
      simp only at h
      split at h
      · obtain ⟨⟨names, rest⟩, -, h⟩ := Option.bind_eq_some_iff.mp h
        cases h
        exact List.cons_ne_nil _ _
      · cases h
        exact List.cons_ne_nil _ _

theorem ne_nil_of_key? {path : Path} (h : key? cs = some (path, rest)) : path ≠ [] := by
  obtain ⟨⟨found, behind⟩, hpath, h⟩ := Option.bind_eq_some_iff.mp h
  simp only at h
  split at h
  · obtain ⟨behind, -, h⟩ := Option.bind_eq_some_iff.mp h
    cases h
    exact ne_nil_of_path? hpath
  · cases h

theorem quantity?_ne_table {entries : List (Path × Value)} :
    quantity? cs ≠ some (.table entries, rest) := by
  intro h
  unfold quantity? at h
  split at h
  · cases h
  · split at h
    · cases h
    · obtain ⟨⟨value, behind⟩, -, h⟩ := Option.map_eq_some_iff.mp h
      cases h

theorem scalar?_ne_table {entries : List (Path × Value)} :
    scalar? cs ≠ some (.table entries, rest) := by
  intro h
  unfold scalar? at h
  split at h
  · cases h
  · split at h
    · obtain ⟨behind, -, h⟩ := Option.map_eq_some_iff.mp h
      cases h
    · split at h
      · obtain ⟨behind, -, h⟩ := Option.map_eq_some_iff.mp h
        cases h
      · split at h
        · obtain ⟨behind, -, h⟩ := Option.map_eq_some_iff.mp h
          cases h
        · exact quantity?_ne_table h

theorem compatiblePaths_of_value? {turns level : Nat} {entries : List (Path × Value)}
    (h : value? turns level cs = some (.table entries, rest)) :
    compatiblePaths (entries.map Prod.fst) = true := by
  have hclosed : ∀ {found : List (Path × Value)} {behind : List Char},
      (if compatiblePaths (found.map Prod.fst) = true then some (Value.table found, behind)
        else none) = some (.table entries, rest) →
      compatiblePaths (entries.map Prod.fst) = true := by
    intro found behind h
    split at h
    · cases h
      assumption
    · cases h
  cases turns with
  | zero => cases h
  | succ turns =>
      unfold value? at h
      split at h
      · split at h
        · obtain ⟨⟨items, behind⟩, -, h⟩ := Option.bind_eq_some_iff.mp h
          cases h
        · cases h
      · split at h
        · dsimp only at h
          split at h
          · exact @hclosed [] _ h
          · obtain ⟨⟨found, behind⟩, -, h⟩ := Option.bind_eq_some_iff.mp h
            exact hclosed h
        · cases h
      · exact absurd h scalar?_ne_table

theorem isWellFormed_of_assignment? {statement : Statement}
    (h : assignment? cs = some (statement, rest)) : statement.IsWellFormed := by
  obtain ⟨⟨path, behind⟩, hkey, h⟩ := Option.bind_eq_some_iff.mp h
  obtain ⟨⟨value, behind⟩, hvalue, h⟩ := Option.bind_eq_some_iff.mp h
  obtain ⟨behind, -, h⟩ := Option.bind_eq_some_iff.mp h
  cases h
  refine ⟨ne_nil_of_key? hkey, fun entries hentries => ?_⟩
  subst hentries
  exact compatiblePaths_of_value? hvalue

theorem isWellFormed_of_header? {statement : Statement}
    (h : header? cs = some (statement, rest)) : statement.IsWellFormed := by
  unfold header? at h
  split at h
  · obtain ⟨⟨path, behind⟩, -, h⟩ := Option.bind_eq_some_iff.mp h
    obtain ⟨behind, -, h⟩ := Option.bind_eq_some_iff.mp h
    obtain ⟨behind, -, h⟩ := Option.bind_eq_some_iff.mp h
    obtain ⟨behind, -, h⟩ := Option.bind_eq_some_iff.mp h
    cases h
    trivial
  · obtain ⟨⟨path, behind⟩, -, h⟩ := Option.bind_eq_some_iff.mp h
    obtain ⟨behind, -, h⟩ := Option.bind_eq_some_iff.mp h
    obtain ⟨behind, -, h⟩ := Option.bind_eq_some_iff.mp h
    cases h
    trivial

theorem isWellFormed_of_statements? {turns : Nat} {before statements : List Statement}
    (hbefore : ∀ statement ∈ before, statement.IsWellFormed)
    (h : statements? turns before cs = some statements) :
    ∀ statement ∈ statements, statement.IsWellFormed := by
  induction turns generalizing before cs with
  | zero => cases h
  | succ turns ih =>
      have hmore : ∀ {statement}, statement.IsWellFormed →
          ∀ other ∈ statement :: before, other.IsWellFormed := fun hstatement =>
        List.forall_mem_cons.mpr ⟨hstatement, hbefore⟩
      unfold statements? at h
      split at h
      · cases h
        simpa using hbefore
      · split at h
        · obtain ⟨behind, -, h⟩ := Option.bind_eq_some_iff.mp h
          exact ih hbefore h
        · dsimp only at h
          split at h
          · obtain ⟨⟨statement, behind⟩, hstatement, h⟩ := Option.bind_eq_some_iff.mp h
            exact ih (hmore (isWellFormed_of_header? hstatement)) h
          · obtain ⟨⟨statement, behind⟩, hstatement, h⟩ := Option.bind_eq_some_iff.mp h
            exact ih (hmore (isWellFormed_of_assignment? hstatement)) h

theorem isWellFormed_of_read? {statements : List Statement} (h : read? cs = some statements) :
    ∀ statement ∈ statements, statement.IsWellFormed :=
  isWellFormed_of_statements? (by simp) h

end Readers

end Toml
end FormulaSheet
