import Mathlib
import FormulaSheet.Proofs.Csv.Portable
import FormulaSheet.Proofs.Csv.Rendering

/-!
# Reading back a written sheet

A written text is one of the renderings of its records: fields are in quotes where they have to
be, there is no white space around them, and each line ends in a line feed. So the reader gives
back each line as one record. What comes back is the portable part of the sheet.

* `rendersField_fieldText`: a field is written as one of its texts, whatever its characters are.
* `rendersTable_write`: a written sheet is a text of the records of its rows.
* `read_write`: the sheet that is read back, and the sheets that come back unchanged.
-/

namespace FormulaSheet
namespace Csv

open Text

section Fields

@[simp] theorem fieldText_empty : fieldText "" = "" := by
  decide

/-- A text that needs no quotes is written bare. -/
theorem isBare_of_not_needsQuotes {text : String} (h : needsQuotes text = false) :
    IsBare text.toList := by
  obtain ⟨hany, hends⟩ := Bool.or_eq_false_iff.1 h
  have hplain : ∀ c ∈ text.toList, isSpecial c = false := by
    simpa using List.any_eq_false.1 hany
  obtain ⟨hfront, hback⟩ := blank_ends_of_not_hasBlankEnd hends
  exact {
    comma := fun hmem => absurd (hplain _ hmem) (by decide)
    lineFeed := fun hmem => absurd (hplain _ hmem) (by decide)
    quote := fun hhead => absurd (hplain _ (List.mem_of_head? hhead)) (by decide)
    front := hfront
    back := hback }

/-- The writer's text of a field is one of its texts. -/
theorem rendersField_fieldText (text : String) : RendersField text (fieldText text).toList := by
  have hnone : IsPadding [] := by decide
  by_cases hquotes : needsQuotes text = true
  · rw [fieldText, if_pos hquotes, String.toList_ofList]
    exact .quoted hnone hnone
  · have hbare := isBare_of_not_needsQuotes (by simpa using hquotes)
    have hrenders : RendersField text ([] ++ (text.toList ++ [])) := .bare hnone hnone hbare
    rw [fieldText, if_neg hquotes]
    simpa using hrenders

theorem rendersRecord_intercalate (text : String) (rest : List String) :
    RendersRecord (text :: rest)
      (String.intercalate "," ((text :: rest).map fieldText)).toList := by
  induction rest generalizing text with
  | nil => simpa using RendersRecord.last (rendersField_fieldText text)
  | cons next rest ih =>
      have hsplit : (String.intercalate "," ((text :: next :: rest).map fieldText)).toList =
          (fieldText text).toList ++
            ',' :: (String.intercalate "," ((next :: rest).map fieldText)).toList := by
        simp [String.intercalate_cons_cons]
      rw [hsplit]
      exact .next (rendersField_fieldText text) (ih next)

end Fields

section Lines

/-- The texts of cells from a column on, with an empty text for each missing one. -/
def textsFrom (column : Nat) : List Cell → List String
  | [] => []
  | cell :: rest =>
      List.replicate (cell.1 - column) "" ++ cell.2 :: textsFrom (cell.1 + 1) rest

theorem fieldsFrom_eq (column : Nat) (cells : List Cell) :
    fieldsFrom column cells = (textsFrom column cells).map fieldText := by
  induction cells generalizing column with
  | nil => rfl
  | cons cell rest ih =>
      simp [fieldsFrom, textsFrom, ih]

theorem fieldCells_replicate_append (column count : Nat) (texts : List String) :
    fieldCells column (List.replicate count "" ++ texts) = fieldCells (column + count) texts := by
  induction count generalizing column with
  | zero => rfl
  | succ count ih =>
      rw [List.replicate_succ, List.cons_append, fieldCells, if_pos rfl, ih, Nat.add_assoc,
        Nat.add_comm 1 count]

/-- Sorted cells from a column on come back without the empty ones. -/
theorem fieldCells_textsFrom
    {column : Nat} {cells : List Cell}
    (hcolumn : ∀ cell ∈ cells, column ≤ cell.1)
    (hsorted : cells.Pairwise fun a b => a.1 < b.1) :
    fieldCells column (textsFrom column cells) = cells.filter fun cell => cell.2 ≠ "" := by
  induction cells generalizing column with
  | nil => rfl
  | cons cell rest ih =>
      obtain ⟨hfirst, hrest⟩ := List.pairwise_cons.1 hsorted
      have hle := hcolumn cell List.mem_cons_self
      have hplace : column + (cell.1 - column) = cell.1 := by omega
      have hcells : fieldCells (cell.1 + 1) (textsFrom (cell.1 + 1) rest) =
          rest.filter fun cell => cell.2 ≠ "" :=
        ih (fun later hlater => hfirst later hlater) hrest
      rw [textsFrom, fieldCells_replicate_append, hplace, fieldCells, hcells]
      by_cases htext : cell.2 = ""
      · simp [htext]
      · simp [htext]

/-- The cells of a row that have a place in a line. -/
def placedCells (row : Row) : List Cell :=
  row.cells.filter fun cell => cell.1 ≠ 0

/-- The record of a row's line; a line without fields is read as one empty field. -/
def recordOfRow (row : Row) : List String :=
  match textsFrom 1 (placedCells row) with
  | [] => [""]
  | text :: rest => text :: rest

theorem recordOfRow_cases (row : Row) :
    (textsFrom 1 (placedCells row) = [] ∧ recordOfRow row = [""]) ∨
      ∃ text rest, textsFrom 1 (placedCells row) = text :: rest ∧
        recordOfRow row = text :: rest := by
  cases h : textsFrom 1 (placedCells row) with
  | nil => exact Or.inl ⟨rfl, by simp only [recordOfRow, h]⟩
  | cons text rest => exact Or.inr ⟨text, rest, rfl, by simp only [recordOfRow, h]⟩

theorem exists_recordOfRow (row : Row) :
    ∃ text rest, recordOfRow row = text :: rest := by
  rcases recordOfRow_cases row with ⟨-, hrecord⟩ | ⟨text, rest, -, hrecord⟩
  · exact ⟨"", [], hrecord⟩
  · exact ⟨text, rest, hrecord⟩

theorem lineOfRow_eq (row : Row) :
    lineOfRow row = String.intercalate "," ((recordOfRow row).map fieldText) ++ "\n" := by
  have hfields : lineOfRow row =
      String.intercalate "," ((textsFrom 1 (placedCells row)).map fieldText) ++ "\n" := by
    rw [← fieldsFrom_eq]
    rfl
  rw [hfields]
  rcases recordOfRow_cases row with ⟨htexts, hrecord⟩ | ⟨text, rest, htexts, hrecord⟩
  · rw [htexts, hrecord]
    simp
  · rw [htexts, hrecord]

theorem rowOfRecord_recordOfRow (row : Row) :
    rowOfRecord (recordOfRow row) = row.portable := by
  have hsorted : (placedCells row).Pairwise fun a b => a.1 < b.1 := row.sorted.filter _
  have hcolumn : ∀ cell ∈ placedCells row, 1 ≤ cell.1 := by
    intro cell hcell
    have hzero : cell.1 ≠ 0 := by simpa using (List.mem_filter.1 hcell).2
    omega
  have hrecord : fieldCells 1 (recordOfRow row) = fieldCells 1 (textsFrom 1 (placedCells row)) := by
    rcases recordOfRow_cases row with ⟨htexts, hrecord⟩ | ⟨text, rest, htexts, hrecord⟩
    · rw [htexts, hrecord]
      rfl
    · rw [htexts, hrecord]
  have hcells : fieldCells 1 (recordOfRow row) = row.cells.filter Cell.isPortable := by
    rw [hrecord, fieldCells_textsFrom hcolumn hsorted, placedCells, List.filter_filter]
    refine List.filter_congr fun cell _ => ?_
    simp [Cell.isPortable, Bool.and_comm]
  simp only [rowOfRecord, Row.portable, hcells]

/-- A written sheet is a text of the records of its rows. -/
theorem rendersTable_write (sheet : Sheet) :
    RendersTable (sheet.rows.map recordOfRow) (write sheet).toList := by
  unfold write
  induction sheet.rows with
  | nil => exact .nil
  | cons row rest ih =>
      obtain ⟨text, texts, hrecord⟩ := exists_recordOfRow row
      have hsplit : (String.join ((row :: rest).map lineOfRow)).toList =
          (String.intercalate "," ((recordOfRow row).map fieldText)).toList ++
            (['\n'] ++ (String.join (rest.map lineOfRow)).toList) := by
        rw [List.map_cons, String.join_cons, String.toList_append, lineOfRow_eq,
          String.toList_append, List.append_assoc]
        rfl
      rw [hsplit, List.map_cons, hrecord]
      exact .cons (rendersRecord_intercalate text texts) .lineFeed ih

/-- The records of a written sheet, row by row. -/
theorem records_write (sheet : Sheet) :
    records (write sheet) = .ok (sheet.rows.map recordOfRow) :=
  records_of_renders (rendersTable_write sheet)

theorem read_write_eq (sheet : Sheet) :
    read (write sheet) = .ok sheet.portable := by
  have hrows : rowOfRecord ∘ recordOfRow = Row.portable := funext rowOfRecord_recordOfRow
  simp only [read, records_write, Except.map, Sheet.portable, List.map_map, hrows]

end Lines

/-- Writing a sheet and reading it back loses column zero and the empty texts and nothing else,
and a sheet that was read from any text loses nothing. -/
theorem read_write :
    (∀ sheet, read (write sheet) = .ok sheet.portable ∧
      sheet.portable.length = sheet.length ∧
      ∀ row column, sheet.portable.get? row column =
        if column = 0 then none else (sheet.get? row column).filter fun text => text ≠ "") ∧
    ∀ content sheet, read content = .ok sheet →
      (∀ row column text, sheet.get? row column = some text → column ≠ 0 ∧ text ≠ "") ∧
      read (write sheet) = .ok sheet := by
  refine ⟨fun sheet => ⟨read_write_eq sheet, sheet.length_portable, sheet.get?_portable⟩, ?_⟩
  intro content sheet hread
  have hportable := portable_of_read hread
  constructor
  · intro row column text htext
    rw [← hportable, Sheet.get?_portable] at htext
    split at htext
    · cases htext
    · next hcolumn =>
        have hfilter := (Option.filter_eq_some_iff.1 htext).2
        exact ⟨hcolumn, by simpa using hfilter⟩
  · rw [read_write_eq, hportable]

/-- Fields with quotes, gaps, white space and line ends of either kind. -/
def mixedText : String :=
  "Notes, \"say \"\"hi\"\"\" ,,b\r\n\n,\" \nx\""

/-- The sheet of `mixedText`. -/
def mixedSheet : Sheet where
  rows := [Row.ofList [(1, "Notes"), (2, "say \"hi\""), (4, "b")], Row.empty,
    Row.ofList [(2, " \nx")]]

theorem read_write_mixed :
    read mixedText = .ok mixedSheet ∧ read (write mixedSheet) = .ok mixedSheet := by
  have hread : read mixedText = .ok mixedSheet := by cbv
  exact ⟨hread, (read_write.2 mixedText mixedSheet hread).2⟩

end Csv
end FormulaSheet
