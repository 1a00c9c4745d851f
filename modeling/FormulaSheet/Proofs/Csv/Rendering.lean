import Mathlib
import FormulaSheet.Proofs.Csv.Scan

/-!
# Renderings of records

The same records can be written in many ways: a field in quotes or, if its text allows it, without
them, with white space around it that does not count, and each record with a line feed at its end
or with a carriage return and a line feed. The reader understands all of them.

* `RendersField`, `RendersRecord`, `RendersTable`: the texts of a field, a record and a table.
* `Scan.run_field`: the scan of a field's text.
* `records_of_renders`: the records of every text of a table.
* `get?_rowOfRecord`: where the fields of a record stand in the row.
* `read_of_renders`: the sheet of every text of a table.
-/

namespace FormulaSheet
namespace Csv

open Text

section Renderings

/-- White space that does not end a record. -/
def IsPadding (cs : List Char) : Prop :=
  ∀ c ∈ cs, isBlank c = true ∧ c ≠ '\n'

instance (cs : List Char) : Decidable (IsPadding cs) :=
  decidable_of_iff (cs.all fun c => isBlank c && c ≠ '\n') (by simp [IsPadding])

/-- The text can stand without quotes, with white space around it. -/
structure IsBare (text : List Char) : Prop where
  comma : ',' ∉ text
  lineFeed : '\n' ∉ text
  quote : text.head? ≠ some '"'
  front : ∀ c ∈ text.head?, isBlank c = false
  back : ∀ c ∈ text.getLast?, isBlank c = false

instance (text : List Char) : Decidable (IsBare text) :=
  decidable_of_iff
    ((',' ∉ text ∧ '\n' ∉ text ∧ text.head? ≠ some '"') ∧
      text.head?.any isBlank = false ∧ text.getLast?.any isBlank = false)
    (by
      rw [Option.any_eq_false, Option.any_eq_false]
      exact ⟨fun ⟨⟨hcomma, hfeed, hquote⟩, hfront, hback⟩ => ⟨hcomma, hfeed, hquote, hfront, hback⟩,
        fun h => ⟨⟨h.comma, h.lineFeed, h.quote⟩, h.front, h.back⟩⟩)

/-- The texts of a field: in quotes, with each of its own quotes written twice, or bare. -/
inductive RendersField (field : String) : List Char → Prop
  | quoted {before after : List Char} (hbefore : IsPadding before) (hafter : IsPadding after) :
      RendersField field (before ++ '"' :: (doubleQuotes field.toList ++ '"' :: after))
  | bare {before after : List Char} (hbefore : IsPadding before) (hafter : IsPadding after)
      (hfield : IsBare field.toList) :
      RendersField field (before ++ (field.toList ++ after))

/-- The texts of a record: those of its fields, with a comma between two of them. -/
inductive RendersRecord : List String → List Char → Prop
  | last {field : String} {text : List Char} (h : RendersField field text) :
      RendersRecord [field] text
  | next {field : String} {rest : List String} {text behind : List Char}
      (h : RendersField field text) (hrest : RendersRecord rest behind) :
      RendersRecord (field :: rest) (text ++ ',' :: behind)

/-- The two ends of a line. -/
inductive IsLineEnd : List Char → Prop
  | lineFeed : IsLineEnd ['\n']
  | returnLineFeed : IsLineEnd ['\r', '\n']

/-- The texts of records that each hold at least one field. The last record needs no end of its
own, if there is any text of it. -/
inductive RendersTable : List (List String) → List Char → Prop
  | nil : RendersTable [] []
  | unended {record : List String} {text : List Char} (h : RendersRecord record text)
      (hne : text ≠ []) : RendersTable [record] text
  | cons {record : List String} {rest : List (List String)} {text ending behind : List Char}
      (h : RendersRecord record text) (hending : IsLineEnd ending)
      (hrest : RendersTable rest behind) :
      RendersTable (record :: rest) (text ++ (ending ++ behind))

end Renderings

namespace Scan

/-- Nothing of the current field is read yet. -/
structure AtField (s : Scan) : Prop where
  current : s.current = ""
  quoting : s.quoting = .unquoted

/-- The second state has read a field since the first. -/
structure ReadsField (s : Scan) (field : String) (t : Scan) : Prop where
  records : t.records = s.records
  fields : t.fields = s.fields
  field : t.field = field
  quoting : t.quoting ≠ .inside

section Fields

variable {s t : Scan} {field : String} {text before after : List Char}

/-- White space at the beginning of a field. -/
theorem run_front (h : s.AtField) (hbefore : IsPadding before) :
    ∃ line start, s.run before =
      { s with current := String.ofList before, line := line, start := start } := by
  have hplain : ∀ c ∈ before, c ≠ ',' ∧ c ≠ '\n' := fun c hc =>
    ⟨(ne_of_isBlank (hbefore c hc).1).2, (hbefore c hc).2⟩
  have hquote : '"' ∉ before := fun hmem => (ne_of_isBlank (hbefore _ hmem).1).1 rfl
  obtain ⟨line, start, hrun⟩ := run_plain h.quoting hplain (Or.inl hquote)
  exact ⟨line, start, by simp [hrun, h.current]⟩

theorem ReadsField.pads (h : ReadsField s field t) {u : Scan} (hpads : Pads t u) :
    ReadsField s field u where
  records := hpads.records.trans h.records
  fields := hpads.fields.trans h.fields
  field := hpads.field.trans h.field
  quoting := hpads.quoting

theorem run_quoted (h : s.AtField) (hbefore : IsPadding before) :
    ReadsField s field
      (s.run (before ++ '"' :: (doubleQuotes field.toList ++ ['"']))) := by
  obtain ⟨line, start, hfront⟩ := run_front h hbefore
  have hopen := step_open (s := s.run before) (by rw [hfront]; exact h.quoting) fun c hc =>
    (hbefore c (by simpa [hfront] using hc)).1
  obtain ⟨line', start', hrun⟩ :=
    run_doubleQuotes (s := (s.run before).step '"') (by rw [hopen]) field.toList
  have hclose := step_inside_quote
    (s := ((s.run before).step '"').run (doubleQuotes field.toList)) (by rw [hrun, hopen])
  rw [run_append, run_cons, run_append, run_cons, run_nil, hclose, hrun, hopen, hfront]
  exact ⟨rfl, rfl, by simp [Scan.field, advance], by simp⟩

/-- A text without quotes around it: the first character is no white space, so that a quote behind
it opens nothing. -/
theorem run_bareText (h : s.quoting = .unquoted) (htext : IsBare text) :
    ∃ line start, s.run text =
      { s with current := s.current ++ String.ofList text, line := line, start := start } := by
  cases text with
  | nil => exact ⟨s.line, s.start, by simp⟩
  | cons c rest =>
      have hplain : ∀ d ∈ c :: rest, d ≠ ',' ∧ d ≠ '\n' := fun d hd =>
        ⟨fun heq => htext.comma (heq ▸ hd), fun heq => htext.lineFeed (heq ▸ hd)⟩
      have hblank : isBlank c = false := htext.front c rfl
      have hquote : c ≠ '"' := fun heq => htext.quote (congrArg some heq)
      obtain ⟨hcomma, hfeed⟩ := hplain c List.mem_cons_self
      have hstep := step_plain h hcomma hfeed (Or.inl hquote)
      obtain ⟨line, start, hrun⟩ := run_plain (s := s.step c) (by rw [hstep]; exact h)
        (fun d hd => hplain d (List.mem_cons_of_mem _ hd))
        (Or.inr ⟨c, by simp [hstep, push], hblank⟩)
      refine ⟨line, start, ?_⟩
      rw [run_cons, hrun, hstep, ← push_append_ofList]
      rfl

theorem run_bare (h : s.AtField) (hbefore : IsPadding before) (hfield : IsBare field.toList) :
    ReadsField s field (s.run (before ++ field.toList)) := by
  obtain ⟨line, start, hfront⟩ := run_front h hbefore
  obtain ⟨line', start', hrun⟩ :=
    run_bareText (s := s.run before) (by rw [hfront]; exact h.quoting) hfield
  rw [run_append, hrun, hfront]
  refine ⟨rfl, rfl, ?_, by simp [h.quoting]⟩
  have htrim : trim (before ++ (field.toList ++ [])) = trim field.toList :=
    trim_padded (fun c hc => (hbefore c hc).1) (by simp) _
  rw [List.append_nil, trim_eq_self_of_ends hfield.front hfield.back] at htrim
  rw [← String.toList_inj]
  simpa [Scan.field, h.quoting, toList_trimmed] using htrim

/-- From the beginning of a field, every text of it is read, and no quotes stay open. -/
theorem run_field (h : s.AtField) (htext : RendersField field text) :
    ReadsField s field (s.run text) := by
  cases htext with
  | @quoted before after hbefore hafter =>
      have hread : ReadsField s field _ := run_quoted h hbefore
      have hsplit : before ++ '"' :: (doubleQuotes field.toList ++ '"' :: after) =
          (before ++ '"' :: (doubleQuotes field.toList ++ ['"'])) ++ after := by simp
      rw [hsplit, run_append]
      exact hread.pads (run_padding hread.quoting hafter)
  | bare hbefore hafter hfield =>
      have hread := run_bare h hbefore hfield
      rw [← List.append_assoc, run_append]
      exact hread.pads (run_padding hread.quoting hafter)

end Fields

/-- The second state has read a record since the first, up to the end of its last field. -/
structure ReadsRecord (s : Scan) (record : List String) (t : Scan) : Prop where
  records : t.records = s.records
  fields : (t.field :: t.fields).reverse = s.fields.reverse ++ record
  quoting : t.quoting ≠ .inside

section Records

variable {s t : Scan} {record : List String} {text ending : List Char}

/-- From the beginning of a field, every text of the fields that are left of a record is read. -/
theorem run_record (h : s.AtField) (htext : RendersRecord record text) :
    ReadsRecord s record (s.run text) := by
  induction htext generalizing s with
  | last hfield =>
      have hread := run_field h hfield
      exact ⟨hread.records, by simp [hread.field, hread.fields], hread.quoting⟩
  | @next field rest text behind hfield _ ih =>
      have hread := run_field h hfield
      have hnext := ih (s := ((s.run text).advance ',').endField) ⟨rfl, rfl⟩
      rw [run_append, run_cons, step_comma hread.quoting]
      exact {
        records := hnext.records.trans hread.records
        fields := by
          rw [hnext.fields]
          simp [endField, hread.field, hread.fields]
        quoting := hnext.quoting }

/-- Both ends of a line leave the same behind. -/
theorem run_ending (h : t.quoting ≠ .inside) (hending : IsLineEnd ending) :
    t.run ending = t.step '\n' := by
  cases hending with
  | lineFeed => rfl
  | returnLineFeed => exact (step_blank h (c := '\r') (by decide) (by decide)).step_lineFeed h

theorem run_line (h : s.AtField) (hfields : s.fields = []) (htext : RendersRecord record text)
    (hending : IsLineEnd ending) :
    ∃ line, s.run (text ++ ending) = { records := record :: s.records, line := line } := by
  have hread := run_record h htext
  have hrecord : ((s.run text).field :: (s.run text).fields).reverse = record := by
    rw [hread.fields, hfields]
    rfl
  refine ⟨(s.run text).line + 1, ?_⟩
  rw [run_append, run_ending hread.quoting hending, step_lineFeed_eq hread.quoting, hrecord,
    hread.records]

/-- Between two records, every text of the records that are left is read. -/
theorem finish_run_table {table : List (List String)} (h : s.AtField) (hfields : s.fields = [])
    (hstart : s.start = none) (htext : RendersTable table text) :
    (s.run text).finish = .ok (s.records.reverse ++ table) := by
  induction htext generalizing s with
  | nil => simp [finish, h.quoting, hstart]
  | @unended record text hrecord hne =>
      have hread := run_record h hrecord
      rw [finish, if_neg hread.quoting, start_run_of_records hne hread.records]
      simp only [endRecord, hread.records, List.reverse_cons, hread.fields, hfields]
      rfl
  | @cons record rest text ending behind hrecord hending _ ih =>
      obtain ⟨line, hline⟩ := run_line h hfields hrecord hending
      rw [← List.append_assoc, run_append, hline,
        ih (s := { records := record :: s.records, line := line }) ⟨rfl, rfl⟩ rfl rfl]
      simp

end Records

end Scan

/-- Every text of a table is read as its records. -/
theorem records_of_renders {table : List (List String)} {content : String}
    (h : RendersTable table content.toList) : records content = .ok table := by
  rw [Scan.records_eq, Scan.finish_run_table (s := {}) ⟨rfl, rfl⟩ rfl rfl h]
  rfl

section Rows

theorem lookup_fieldCells_of_lt {first column : Nat} (h : column < first)
    (fields : List String) : (fieldCells first fields).lookup column = none := by
  refine List.lookup_eq_none_iff.mpr fun cell hcell => ?_
  have hne : column ≠ cell.1 := (Nat.lt_of_lt_of_le h (le_of_mem_fieldCells hcell)).ne
  simp [hne]

/-- Each field that is not empty stands at its own column. -/
theorem lookup_fieldCells (first : Nat) (fields : List String) (index : Nat) :
    (fieldCells first fields).lookup (first + index) =
      fields[index]?.filter fun text => text ≠ "" := by
  induction fields generalizing first index with
  | nil => rfl
  | cons field rest ih =>
      cases index with
      | zero =>
          rw [Nat.add_zero, List.getElem?_cons_zero, fieldCells]
          split
          · next hfield =>
              rw [lookup_fieldCells_of_lt (Nat.lt_succ_self first), hfield]
              rfl
          · next hfield => simp [Option.filter_some, hfield]
      | succ index =>
          have hcolumn : first + (index + 1) = first + 1 + index := by omega
          have hbeq : (first + (index + 1) == first) = false := by simp
          rw [List.getElem?_cons_succ, ← ih (first + 1) index, ← hcolumn, fieldCells]
          split
          · rfl
          · rw [List.lookup_cons, hbeq]

/-- The cells of the sheet of a table. -/
theorem get?_sheet (table : List (List String)) (row column : Nat) :
    (⟨table.map rowOfRecord⟩ : Sheet).get? row 0 = none ∧
      (⟨table.map rowOfRecord⟩ : Sheet).get? row (column + 1) =
        (table[row]?.bind fun fields => fields[column]?).filter fun text => text ≠ "" := by
  simp only [Sheet.get?, Sheet.row?, List.getElem?_map, Row.get?]
  cases table[row]? with
  | none => exact ⟨rfl, rfl⟩
  | some fields =>
      have hfields := lookup_fieldCells 1 fields column
      rw [Nat.add_comm] at hfields
      exact ⟨lookup_fieldCells_of_lt Nat.one_pos fields, hfields⟩

end Rows

/-- Every regular text of a table is read as the table: its records come back field by field, and
each field that is not empty has its place in the sheet. -/
theorem read_of_renders {table : List (List String)} {content : String}
    (h : RendersTable table content.toList) :
    records content = .ok table ∧
      ∃ sheet, read content = .ok sheet ∧ sheet.length = table.length ∧
        ∀ row column, sheet.get? row 0 = none ∧
          sheet.get? row (column + 1) =
            (table[row]?.bind fun fields => fields[column]?).filter fun text => text ≠ "" := by
  have hrecords := records_of_renders h
  refine ⟨hrecords, ⟨table.map rowOfRecord⟩, ?_, List.length_map _, get?_sheet table⟩
  rw [read, hrecords]
  rfl

/-- White space, quotes within and around fields, and line ends of both kinds. -/
def paddedText : String :=
  " a\t,\"b, \"\"c\"\"\r\n\" ,x\"y\r\r\n\n\"\""

/-- The records of `paddedText`. -/
def paddedTable : List (List String) :=
  [["a", "b, \"c\"\r\n", "x\"y"], [""], [""]]

theorem rendersTable_padded : RendersTable paddedTable paddedText.toList := by
  have hnone : IsPadding [] := by decide
  have hspace : IsPadding [' '] := by decide
  have htab : IsPadding ['\t'] := by decide
  have hreturn : IsPadding ['\r'] := by decide
  have hfirst : RendersRecord ["a", "b, \"c\"\r\n", "x\"y"]
      " a\t,\"b, \"\"c\"\"\r\n\" ,x\"y\r".toList :=
    .next (.bare hspace htab (by decide))
      (.next (.quoted hnone hspace) (.last (.bare hnone hreturn (by decide))))
  exact .cons hfirst .returnLineFeed (.cons (.last (.bare hnone hnone (by decide))) .lineFeed
    (.unended (.last (.quoted hnone hnone)) (by decide)))

theorem read_of_renders_padded :
    RendersTable paddedTable paddedText.toList ∧ records paddedText = .ok paddedTable ∧
      ∃ sheet, read paddedText = .ok sheet ∧ sheet.length = 3 ∧
        sheet.get? 0 2 = some "b, \"c\"\r\n" ∧ sheet.get? 1 1 = none := by
  obtain ⟨hrecords, sheet, hread, hlength, hcells⟩ := read_of_renders rendersTable_padded
  refine ⟨rendersTable_padded, hrecords, sheet, hread, hlength, ?_, ?_⟩
  · exact (hcells 0 1).2
  · exact (hcells 1 0).2

end Csv
end FormulaSheet
