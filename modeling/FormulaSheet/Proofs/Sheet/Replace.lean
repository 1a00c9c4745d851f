import Mathlib.Data.List.Basic
import FormulaSheet.Sheet.Basic

/-!
# Replacing texts of a sheet

What stands where after a text is put into a cell, and how that goes together with a change of
all texts.

* `Row.get?_insert`, `Sheet.get?_set`: the texts after a cell is set.
* `Sheet.set_get?`: setting a cell to the text that it holds changes nothing.
* `Sheet.mapText_set`: a change of all texts reaches the text that was put into a cell.
-/

namespace FormulaSheet

namespace Row

theorem lookup_cons (column : Nat) (cell : Cell) (rest : List Cell) :
    (cell :: rest).lookup column = if column = cell.1 then some cell.2 else rest.lookup column := by
  by_cases h : column = cell.1
  · rw [List.lookup_cons, if_pos h, beq_iff_eq.mpr h]
  · rw [List.lookup_cons, if_neg h, beq_eq_false_iff_ne.mpr h]

/-- In sorted cells each column stands once, so no cell hides another. -/
theorem lookup_eq_some_iff {column : Nat} {text : String} {cells : List Cell}
    (hsorted : cells.Pairwise fun a b => a.1 < b.1) :
    cells.lookup column = some text ↔ (column, text) ∈ cells := by
  induction cells with
  | nil => simp
  | cons cell rest ih =>
      obtain ⟨hfirst, hrest⟩ := List.pairwise_cons.mp hsorted
      rw [lookup_cons, List.mem_cons]
      by_cases h : column = cell.1
      · have hlater : (cell.1, text) ∉ rest := fun hmem =>
          Nat.lt_irrefl cell.1 (hfirst (cell.1, text) hmem)
        simp [h, hlater, Prod.ext_iff, eq_comm]
      · simp [h, ih hrest, Prod.ext_iff]

theorem get?_eq_some_iff {row : Row} {column : Nat} {text : String} :
    row.get? column = some text ↔ (column, text) ∈ row.cells :=
  lookup_eq_some_iff row.sorted

theorem lookup_insertCell (column other : Nat) (text : String) (cells : List Cell) :
    (insertCell column text cells).lookup other =
      if other = column then some text else cells.lookup other := by
  induction cells with
  | nil => exact lookup_cons other (column, text) []
  | cons cell rest ih =>
      unfold insertCell
      split
      · rw [lookup_cons]
      · split
        · next heq =>
            -- The cell that is replaced has the same column.
            rw [lookup_cons, lookup_cons, ← heq]
            by_cases h : other = column
            · simp [h]
            · simp [h]
        · next hne =>
            rw [lookup_cons, ih, lookup_cons]
            by_cases h : other = cell.1
            · simp [h, Ne.symm hne]
            · simp [h]

theorem get?_insert (row : Row) (column other : Nat) (text : String) :
    (row.insert column text).get? other = if other = column then some text else row.get? other :=
  lookup_insertCell column other text row.cells

theorem insertCell_of_lookup {column : Nat} {text : String} {cells : List Cell}
    (hsorted : cells.Pairwise fun a b => a.1 < b.1) (h : cells.lookup column = some text) :
    insertCell column text cells = cells := by
  induction cells with
  | nil => cases h
  | cons cell rest ih =>
      obtain ⟨hfirst, hrest⟩ := List.pairwise_cons.mp hsorted
      rw [lookup_cons] at h
      unfold insertCell
      by_cases heq : column = cell.1
      · rw [if_pos heq] at h
        cases h
        simp [heq]
      · rw [if_neg heq] at h
        have hlt : cell.1 < column := by
          exact hfirst (column, text) ((lookup_eq_some_iff hrest).mp h)
        rw [if_neg (by omega), if_neg heq, ih hrest h]

theorem insert_get? {row : Row} {column : Nat} {text : String}
    (h : row.get? column = some text) : row.insert column text = row := by
  simp only [insert, insertCell_of_lookup row.sorted h]

/-- A text at a column behind all others comes last. -/
theorem insertCell_eq_append {column : Nat} {text : String} {cells : List Cell}
    (h : ∀ cell ∈ cells, cell.1 < column) :
    insertCell column text cells = cells ++ [(column, text)] := by
  induction cells with
  | nil => rfl
  | cons cell rest ih =>
      have hlt := h cell List.mem_cons_self
      rw [insertCell, if_neg (by omega), if_neg (by omega),
        ih fun later hlater => h later (List.mem_cons_of_mem _ hlater), List.cons_append]

theorem map_insertCell (f : String → String) (column : Nat) (text : String)
    (cells : List Cell) :
    (insertCell column text cells).map (fun cell => (cell.1, f cell.2)) =
      insertCell column (f text) (cells.map fun cell => (cell.1, f cell.2)) := by
  induction cells with
  | nil => rfl
  | cons cell rest ih =>
      simp only [insertCell, List.map_cons]
      split
      · rfl
      · split
        · rfl
        · rw [List.map_cons, ih]

theorem mapText_insert (f : String → String) (row : Row) (column : Nat) (text : String) :
    (row.insert column text).mapText f = (row.mapText f).insert column (f text) := by
  simp only [mapText, insert, map_insertCell]

theorem get?_mapText (f : String → String) (row : Row) (column : Nat) :
    (row.mapText f).get? column = (row.get? column).map f := by
  simp only [get?, mapText]
  induction row.cells with
  | nil => rfl
  | cons cell rest ih =>
      rw [List.map_cons, lookup_cons, lookup_cons, ih]
      split <;> rfl

end Row

namespace Sheet

variable {sheet : Sheet} {row column : Nat} {text : String}

theorem row?_set (sheet : Sheet) (row column other : Nat) (text : String) :
    (sheet.set row column text).row? other =
      ((sheet.rows ++ List.replicate (row + 1 - sheet.length) Row.empty)[other]?).map
        fun cells => if row = other then cells.insert column text else cells :=
  List.getElem?_modify _ _ _ _

theorem get?_set (sheet : Sheet) (row column : Nat) (text : String) (row' column' : Nat) :
    (sheet.set row column text).get? row' column' =
      if row' = row ∧ column' = column then some text else sheet.get? row' column' := by
  have hpadded : ((sheet.rows ++ List.replicate (row + 1 - sheet.length) Row.empty)[row']?).bind
      (fun cells => cells.get? column') = sheet.get? row' column' := by
    rw [List.getElem?_append]
    split
    · rfl
    · next hle =>
        have hnone : sheet.rows[row']? = none := List.getElem?_eq_none (by omega)
        rw [get?, row?, hnone, List.getElem?_replicate]
        split <;> rfl
  rw [get?, row?_set]
  by_cases hrow : row' = row
  · subst hrow
    have hlt :
        row' < (sheet.rows ++ List.replicate (row' + 1 - sheet.length) Row.empty).length := by
      rw [List.length_append, List.length_replicate]
      unfold length
      omega
    rw [List.getElem?_eq_getElem hlt] at hpadded ⊢
    simp only [Option.map_some, Option.bind_some, if_true, true_and] at hpadded ⊢
    rw [Row.get?_insert, hpadded]
  · have hne : ¬ row = row' := Ne.symm hrow
    simp only [hne, if_false, hrow, false_and, Option.map_id']
    exact hpadded

theorem set_get? (h : sheet.get? row column = some text) : sheet.set row column text = sheet := by
  obtain ⟨cells, hcells, hcell⟩ := Option.bind_eq_some_iff.mp h
  obtain ⟨hlt, hrow⟩ := List.getElem?_eq_some_iff.mp hcells
  have hrows : row + 1 - sheet.length = 0 := by
    unfold length
    omega
  simp only [set, hrows, List.replicate_zero, List.append_nil]
  congr 1
  refine List.ext_getElem? fun other => ?_
  rw [List.getElem?_modify]
  by_cases hother : row = other
  · subst hother
    have hheld : sheet.rows[row]? = some cells := hcells
    simp [hheld, Row.insert_get? hcell]
  · simp [hother]

theorem mapText_set (f : String → String) (sheet : Sheet) (row column : Nat) (text : String) :
    (sheet.set row column text).mapText f = (sheet.mapText f).set row column (f text) := by
  have hpadded : sheet.rows.map (Row.mapText f) ++
      List.replicate (row + 1 - sheet.rows.length) Row.empty =
        (sheet.rows ++ List.replicate (row + 1 - sheet.rows.length) Row.empty).map
          (Row.mapText f) := by
    rw [List.map_append, List.map_replicate]
    rfl
  simp only [set, mapText, length, List.length_map, hpadded]
  congr 1
  refine List.ext_getElem? fun other => ?_
  rw [List.getElem?_map, List.getElem?_modify, List.getElem?_modify, List.getElem?_map]
  by_cases hother : row = other
  · simp [hother, Row.mapText_insert, Function.comp_def]
  · simp [hother]

theorem get?_mapText (f : String → String) (sheet : Sheet) (row column : Nat) :
    (sheet.mapText f).get? row column = (sheet.get? row column).map f := by
  simp only [get?, row?, mapText, List.getElem?_map]
  cases sheet.rows[row]? with
  | none => rfl
  | some cells => exact Row.get?_mapText f cells column

end Sheet

end FormulaSheet
