import FormulaSheet.Csv.Reader

/-!
# Sheets without what a text of comma separated values cannot hold

Such a text has no place for column zero, and it does not tell an empty field from a missing
one. The portable part of a sheet leaves both out and keeps every other cell where it is.

* `Sheet.portable`: the part of a sheet that a text of comma separated values can hold.
* `Sheet.get?_portable`: the texts that are kept.
* `portable_of_read`: the sheet of a text is portable as it stands.
-/

namespace FormulaSheet

section Lookup

variable {cells : List Cell}

/-- In sorted cells each column stands once, so leaving cells out does not uncover others. -/
theorem lookup_filter
    (p : Cell → Bool)
    (hsorted : cells.Pairwise fun a b => a.1 < b.1)
    (column : Nat) :
    (cells.filter p).lookup column =
      (cells.lookup column).filter fun text => p (column, text) := by
  induction cells with
  | nil => rfl
  | cons cell rest ih =>
      obtain ⟨first, text⟩ := cell
      obtain ⟨hfirst, hrest⟩ := List.pairwise_cons.1 hsorted
      by_cases hcolumn : column = first
      · subst hcolumn
        by_cases hp : p (column, text) = true
        · simp [Option.filter_some, hp]
        · have hnone : (rest.filter p).lookup column = none := by
            refine List.lookup_eq_none_iff.2 fun later hlater => ?_
            have hlt := hfirst later (List.mem_filter.1 hlater).1
            have hne : column ≠ later.1 := Nat.ne_of_lt hlt
            simp [hne]
          simp [Option.filter_some, hp, hnone]
      · have hbeq : (column == first) = false := by simp [hcolumn]
        by_cases hp : p (first, text) = true
        · simp [hp, List.lookup_cons, hbeq, ih hrest]
        · simp [hp, List.lookup_cons, hbeq, ih hrest]

end Lookup

/-- The cell has a place of its own in a line of fields. -/
def Cell.isPortable (cell : Cell) : Bool :=
  cell.1 ≠ 0 && cell.2 ≠ ""

namespace Row

/-- The row without column zero and without empty texts. -/
def portable (row : Row) : Row where
  cells := row.cells.filter Cell.isPortable
  sorted := row.sorted.filter _

theorem get?_portable (row : Row) (column : Nat) :
    row.portable.get? column =
      if column = 0 then none else (row.get? column).filter fun text => text ≠ "" := by
  unfold get?
  rw [portable, lookup_filter _ row.sorted]
  by_cases h : column = 0
  · simp [Cell.isPortable, h]
  · simp [Cell.isPortable, h]

theorem portable_eq_self
    {row : Row}
    (h : ∀ cell ∈ row.cells, cell.isPortable = true) :
    row.portable = row := by
  simp only [portable, List.filter_eq_self.2 h]

end Row

namespace Sheet

/-- The sheet without column zero and without empty texts. -/
def portable (sheet : Sheet) : Sheet where
  rows := sheet.rows.map Row.portable

theorem length_portable (sheet : Sheet) :
    sheet.portable.length = sheet.length := by
  simp [portable, length]

theorem get?_portable (sheet : Sheet) (row column : Nat) :
    sheet.portable.get? row column =
      if column = 0 then none else (sheet.get? row column).filter fun text => text ≠ "" := by
  simp only [get?, row?, portable, List.getElem?_map]
  cases sheet.rows[row]? with
  | none => simp
  | some cells => simp [Row.get?_portable]

theorem portable_eq_self
    {sheet : Sheet}
    (h : ∀ row ∈ sheet.rows, ∀ cell ∈ row.cells, cell.isPortable = true) :
    sheet.portable = sheet := by
  have hrows : sheet.rows.map Row.portable = sheet.rows := by
    have hcongr : sheet.rows.map Row.portable = sheet.rows.map id :=
      List.map_congr_left fun row hrow => Row.portable_eq_self (h row hrow)
    rw [hcongr, List.map_id]
  simp only [portable, hrows]

end Sheet

namespace Csv

theorem isPortable_of_mem_fieldCells
    {column : Nat} {fields : List String} {cell : Cell}
    (hcolumn : 0 < column)
    (h : cell ∈ fieldCells column fields) :
    cell.isPortable = true := by
  have hne : ∀ {column}, cell ∈ fieldCells column fields → cell.2 ≠ "" := by
    clear h
    induction fields with
    | nil => simp [fieldCells]
    | cons field rest ih =>
        intro column h
        rw [fieldCells] at h
        split at h
        · exact ih h
        · next hfield =>
            rcases List.mem_cons.1 h with rfl | h
            · exact hfield
            · exact ih h
  have hle := le_of_mem_fieldCells h
  have hzero : cell.1 ≠ 0 := by omega
  simp [Cell.isPortable, hzero, hne h]

/-- The sheet of a text is portable as it stands. -/
theorem portable_of_read
    {content : String} {sheet : Sheet}
    (h : read content = .ok sheet) :
    sheet.portable = sheet := by
  unfold read at h
  cases hrecords : records content with
  | error e =>
      rw [hrecords] at h
      cases h
  | ok list =>
      rw [hrecords] at h
      cases h
      refine Sheet.portable_eq_self ?_
      intro row hrow cell hcell
      obtain ⟨fields, _, rfl⟩ := List.mem_map.1 hrow
      exact isPortable_of_mem_fieldCells Nat.one_pos hcell

end Csv

end FormulaSheet
