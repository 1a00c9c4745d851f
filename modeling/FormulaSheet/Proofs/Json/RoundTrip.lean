import FormulaSheet.Json.Writer
import FormulaSheet.Proofs.Json.Number
import FormulaSheet.Proofs.Json.Quoted
import FormulaSheet.Proofs.Sheet.Replace
import FormulaSheet.Proofs.Text.Encoded

/-!
# Sheets read back

The reader undoes the writer, with and without white space, and takes `null` for a row without
texts. An array or object is read from its opening bracket on: the first item directly behind it,
every other one behind a comma, and the closing bracket at the end.

* `WritesRow`, `WritesSheet`: the texts of a sheet, with `null` in place of any of its empty rows.
* `readMember_memberText`: one cell is read back.
* `readMembers_afterFirst`, `readRow_of_writesRow`: a row is read back, by induction on its cells.
* `readRows_afterFirst`, `read_of_writesRows`: a sheet is read back, by induction on its rows.
-/

namespace FormulaSheet
namespace Json

open Text

/-- A text of a row: an object, or `null` if the row is empty. -/
inductive WritesRow (pretty : Bool) : Row → List Char → Prop
  | object (row : Row) : WritesRow pretty row (rowText pretty row)
  | null : WritesRow pretty Row.empty "null".toList

/-- A text of a sheet, with `null` in place of any of its empty rows. -/
inductive WritesSheet (pretty : Bool) (sheet : Sheet) : String → Prop
  | array {texts : List (List Char)} (h : List.Forall₂ (WritesRow pretty) sheet.rows texts) :
      WritesSheet pretty sheet (String.ofList (enclosed pretty 0 '[' ']' texts ++ ['\n']))

theorem writesSheet_write (pretty : Bool) (sheet : Sheet) :
    WritesSheet pretty sheet (write pretty sheet) := by
  refine WritesSheet.array ?_
  rw [List.forall₂_map_right_iff, List.forall₂_same]
  exact fun row _ => WritesRow.object row

section Layout

variable {pretty : Bool} {level : Nat} {closing : Char} {rest : Input}

/-- What stands behind the first of the items between brackets. -/
def afterFirst (pretty : Bool) (level : Nat) (closing : Char) (items : List (List Char)) :
    List Char :=
  items.flatMap (fun item => ',' :: (lineBreak pretty (level + 1) ++ item)) ++
    (lineBreak pretty level ++ [closing])

theorem intercalate_cons (separator item : List Char) (items : List (List Char)) :
    List.intercalate separator (item :: items) =
      item ++ items.flatMap fun item => separator ++ item := by
  induction items generalizing item with
  | nil => simp
  | cons next items ih => simp [List.intercalate_cons_cons, ih]

theorem map_enclosed_cons (opening : Char) (item : List Char) (items : List (List Char)) :
    (enclosed pretty level opening closing (item :: items)).map some ++ rest =
      some opening :: ((lineBreak pretty (level + 1)).map some ++
        (item.map some ++ ((afterFirst pretty level closing items).map some ++ rest))) := by
  simp [enclosed, intercalate_cons, afterFirst]

theorem map_afterFirst_nil :
    (afterFirst pretty level closing []).map some ++ rest =
      (lineBreak pretty level).map some ++ (some closing :: rest) := by
  simp [afterFirst]

theorem map_afterFirst_cons (item : List Char) (items : List (List Char)) :
    (afterFirst pretty level closing (item :: items)).map some ++ rest =
      some ',' :: ((lineBreak pretty (level + 1)).map some ++
        (item.map some ++ ((afterFirst pretty level closing items).map some ++ rest))) := by
  simp [afterFirst]

theorem length_afterFirst_cons (pretty : Bool) (level : Nat) (closing : Char) (item : List Char)
    (items : List (List Char)) :
    item.length + (afterFirst pretty level closing items).length <
      (afterFirst pretty level closing (item :: items)).length := by
  simp only [afterFirst, List.flatMap_cons, List.length_cons, List.length_append]
  omega

theorem length_lt_afterFirst (pretty : Bool) (level : Nat) (closing : Char)
    (items : List (List Char)) :
    items.length < (afterFirst pretty level closing items).length := by
  induction items with
  | nil => simp [afterFirst]
  | cons item items ih =>
      have hcons := length_afterFirst_cons pretty level closing item items
      exact Nat.lt_of_le_of_lt (Nat.le_trans ih (Nat.le_add_left _ _)) hcons

theorem length_enclosed_cons (pretty : Bool) (level : Nat) (opening closing : Char)
    (item : List Char) (items : List (List Char)) :
    item.length + (afterFirst pretty level closing items).length <
      (enclosed pretty level opening closing (item :: items)).length := by
  simp only [enclosed, intercalate_cons, afterFirst, List.length_cons, List.length_append,
    List.cons_append]
  omega

theorem length_lt_enclosed (pretty : Bool) (level : Nat) (opening closing : Char)
    (items : List (List Char)) :
    items.length < (enclosed pretty level opening closing items).length := by
  cases items with
  | nil => exact Nat.zero_lt_succ _
  | cons item items =>
      have hitems := length_lt_afterFirst pretty level closing items
      have hcons := length_enclosed_cons pretty level opening closing item items
      exact Nat.lt_of_le_of_lt (Nat.le_trans hitems (Nat.le_add_left _ _)) hcons

theorem skipGaps_lineBreak :
    skipGaps ((lineBreak pretty level).map some ++ rest) = skipGaps rest := by
  refine List.dropWhile_append_of_pos fun c hc => ?_
  cases pretty with
  | false => cases hc
  | true =>
      have hgap : ∀ d ∈ lineBreak true level, d = '\n' ∨ d = ' ' := by
        intro d hd
        exact (List.mem_cons.mp hd).imp id List.eq_of_mem_replicate
      obtain ⟨d, hd, rfl⟩ := List.mem_map.mp hc
      rcases hgap d hd with rfl | rfl
      · rfl
      · rfl

theorem skipGaps_cons {c : Option Char} (h : isGap c = false) :
    skipGaps (c :: rest) = c :: rest := by
  simp [skipGaps, h]

end Layout

section Members

variable {pretty : Bool} {cell : Cell} {rest : Input}

theorem readText_quoted (text : String) (rest : Input) :
    readText ((quoted text.toList).map some ++ rest) = .ok (text, rest) := by
  rw [readText, quoted, List.map_cons, List.cons_append, skipGaps_cons rfl]
  simp only
  rw [readString_quoted]
  simp [Except.map]

/-- A cell is read back behind the opening quote of its key. -/
theorem readMember_memberText (h : cell.1 < wordLimit) (rest : Input) :
    readMember ((memberText pretty cell).tail.map some ++ rest) = .ok (cell, rest) := by
  have htext : readText
      ((if pretty then [' '] else []).map some ++ ((quoted cell.2.toList).map some ++ rest)) =
        .ok (cell.2, rest) := by
    rw [← readText_quoted cell.2 rest]
    cases pretty with
    | false => rfl
    | true => rfl
  have hmember : (memberText pretty cell).tail.map some ++ rest =
      (numeral cell.1).map some ++ some '"' :: some ':' ::
        ((if pretty then [' '] else []).map some ++ ((quoted cell.2.toList).map some ++ rest)) := by
    simp [memberText]
  rw [hmember, readMember, readKey_numeral h]
  simp only [bind, Except.bind]
  have hcolon : ∀ input : Input, skipColon (some ':' :: input) = .ok input := fun _ => rfl
  rw [hcolon]
  simp only [htext]

theorem nextMember_close (first : Bool) :
    nextMember first ((lineBreak pretty 1).map some ++ some '}' :: rest) = .ok (false, rest) := by
  rw [nextMember, skipGaps_lineBreak]
  rfl

theorem nextMember_first :
    nextMember true ((lineBreak pretty 2).map some ++ ((memberText pretty cell).map some ++ rest)) =
      .ok (true, (memberText pretty cell).tail.map some ++ rest) := by
  rw [nextMember, skipGaps_lineBreak]
  rfl

theorem nextMember_next :
    nextMember false (some ',' ::
        ((lineBreak pretty 2).map some ++ ((memberText pretty cell).map some ++ rest))) =
      .ok (true, (memberText pretty cell).tail.map some ++ rest) := by
  rw [nextMember, skipGaps_cons rfl]
  simp only [reduceCtorEq, if_false, if_true, Option.some.injEq, Char.reduceEq]
  rw [skipGaps_lineBreak]
  rfl

/-- The members behind the first one are added to the row in their order. -/
theorem readMembers_afterFirst {turns : Nat} {row final : Row} {cells : List Cell}
    (hturns : cells.length < turns) (hword : ∀ cell ∈ cells, cell.1 < wordLimit)
    (hfinal : final.cells = row.cells ++ cells) :
    readMembers turns false row
        ((afterFirst pretty 1 '}' (cells.map (memberText pretty))).map some ++ rest) =
      .ok (final, rest) := by
  induction cells generalizing turns row with
  | nil =>
      obtain ⟨turns, rfl⟩ := Nat.exists_eq_add_one.mpr hturns
      have hrow : row = final := by
        cases row
        cases final
        simpa using hfinal.symm
      rw [List.map_nil, map_afterFirst_nil, readMembers, nextMember_close, hrow]
      rfl
  | cons cell cells ih =>
      obtain ⟨turns, rfl⟩ := Nat.exists_eq_add_one.mpr (Nat.zero_lt_of_lt hturns)
      -- The cells of a row are sorted, so each is put behind those that were read before it.
      have hlast : ∀ earlier ∈ row.cells, earlier.1 < cell.1 := by
        have hsorted := final.sorted
        rw [hfinal, List.pairwise_append] at hsorted
        exact fun earlier hearlier => hsorted.2.2 earlier hearlier cell List.mem_cons_self
      have hinsert : (row.insert cell.1 cell.2).cells = row.cells ++ [cell] :=
        Row.insertCell_eq_append hlast
      rw [List.map_cons, map_afterFirst_cons, readMembers, nextMember_next]
      simp only [bind, Except.bind]
      rw [readMember_memberText (hword cell List.mem_cons_self)]
      refine ih (Nat.lt_of_succ_lt_succ hturns)
        (fun later hlater => hword later (List.mem_cons_of_mem _ hlater)) ?_
      rw [hinsert, hfinal, List.append_assoc, List.singleton_append]

end Members

section Rows

variable {pretty : Bool} {row : Row} {text : List Char} {rest : Input}

theorem exists_cons_of_writesRow (h : WritesRow pretty row text) :
    ∃ c cs, text = c :: cs ∧ (c = '{' ∨ c = 'n') := by
  cases h with
  | null => exact ⟨'n', "ull".toList, rfl, Or.inr rfl⟩
  | object =>
      unfold rowText
      cases row.cells with
      | nil => exact ⟨_, _, rfl, Or.inl rfl⟩
      | cons cell cells => exact ⟨_, _, rfl, Or.inl rfl⟩

/-- A row is read back in as many turns as its text has characters. -/
theorem readRow_of_writesRow {turns : Nat} (h : WritesRow pretty row text)
    (hword : ∀ cell ∈ row.cells, cell.1 < wordLimit) (hturns : text.length ≤ turns) :
    readRow turns (text.map some ++ rest) = .ok (row, rest) := by
  cases h with
  | null => rfl
  | object =>
      have hlong : row.cells.length < turns := by
        have hitems := length_lt_enclosed pretty 1 '{' '}' (row.cells.map (memberText pretty))
        rw [List.length_map] at hitems
        exact Nat.lt_of_lt_of_le hitems hturns
      obtain ⟨turns, rfl⟩ := Nat.exists_eq_add_one.mpr (Nat.zero_lt_of_lt hlong)
      cases hcells : row.cells with
      | nil =>
          have hrow : Row.empty = row := by
            cases row
            cases hcells
            rfl
          rw [rowText, hcells, ← hrow]
          rfl
      | cons cell cells =>
          have hinsert : row.cells = (Row.empty.insert cell.1 cell.2).cells ++ cells := hcells
          rw [hcells] at hword hlong
          rw [rowText, hcells, List.map_cons, map_enclosed_cons, readRow, skipGaps_cons rfl]
          simp only
          rw [readMembers, nextMember_first]
          simp only [bind, Except.bind]
          rw [readMember_memberText (hword cell List.mem_cons_self)]
          exact readMembers_afterFirst (Nat.lt_of_succ_lt_succ hlong)
            (fun later hlater => hword later (List.mem_cons_of_mem _ hlater)) hinsert

theorem nextRow_close (first : Bool) :
    nextRow first ((lineBreak pretty 0).map some ++ some ']' :: rest) = .ok (false, rest) := by
  rw [nextRow, skipGaps_lineBreak]
  rfl

theorem nextRow_first (h : WritesRow pretty row text) :
    nextRow true ((lineBreak pretty 1).map some ++ (text.map some ++ rest)) =
      .ok (true, text.map some ++ rest) := by
  rw [nextRow, skipGaps_lineBreak]
  obtain ⟨c, cs, rfl, rfl | rfl⟩ := exists_cons_of_writesRow h
  · rfl
  · rfl

theorem nextRow_next (h : WritesRow pretty row text) :
    nextRow false (some ',' :: ((lineBreak pretty 1).map some ++ (text.map some ++ rest))) =
      .ok (true, text.map some ++ rest) := by
  rw [nextRow, skipGaps_cons rfl]
  simp only [reduceCtorEq, if_false, if_true, Option.some.injEq, Char.reduceEq]
  rw [skipGaps_lineBreak]
  obtain ⟨c, cs, rfl, rfl | rfl⟩ := exists_cons_of_writesRow h
  · rfl
  · rfl

end Rows

section Sheets

variable {pretty : Bool} {rows : List Row} {texts : List (List Char)} {rest : Input}

/-- The rows behind the first one are read in their order. -/
theorem readRows_afterFirst {turns : Nat} {before : List Row}
    (h : List.Forall₂ (WritesRow pretty) rows texts)
    (hword : ∀ row ∈ rows, ∀ cell ∈ row.cells, cell.1 < wordLimit)
    (hturns : (afterFirst pretty 0 ']' texts).length ≤ turns) :
    readRows turns false before ((afterFirst pretty 0 ']' texts).map some ++ rest) =
      .ok (before.reverse ++ rows, rest) := by
  -- A row takes one turn of this loop, and its text pays for that and for the turns of its members.
  have hpos := Nat.lt_of_lt_of_le (length_lt_afterFirst pretty 0 ']' texts) hturns
  obtain ⟨turns, rfl⟩ := Nat.exists_eq_add_one.mpr (Nat.zero_lt_of_lt hpos)
  induction h generalizing turns before with
  | nil =>
      rw [map_afterFirst_nil, readRows, nextRow_close, List.append_nil]
      rfl
  | @cons row text rows texts hrow hrows ih =>
      have hcons := length_afterFirst_cons pretty 0 ']' text texts
      have hlater := length_lt_afterFirst pretty 0 ']' texts
      rw [map_afterFirst_cons, readRows, nextRow_next hrow]
      simp only [bind, Except.bind]
      rw [readRow_of_writesRow hrow (hword row List.mem_cons_self) (by omega)]
      obtain ⟨turns, rfl⟩ := Nat.exists_eq_add_one.mpr (show 0 < turns by omega)
      simp only
      rw [ih (fun later hmem => hword later (List.mem_cons_of_mem _ hmem)) turns (by omega)
        (by omega)]
      simp

/-- A written sheet is read back. -/
theorem read_of_writesRows {sheet : Sheet} (h : List.Forall₂ (WritesRow pretty) sheet.rows texts)
    (hword : ∀ row ∈ sheet.rows, ∀ cell ∈ row.cells, cell.1 < wordLimit) :
    read ((enclosed pretty 0 '[' ']' texts ++ ['\n']).map some) = .ok sheet := by
  obtain ⟨rows⟩ := sheet
  rw [List.map_append]
  cases h with
  | nil => rfl
  | @cons row text rows texts hrow hrows =>
      rw [map_enclosed_cons, read, skipGaps_cons rfl]
      simp only
      rw [readRows, nextRow_first hrow]
      simp only [bind, Except.bind]
      rw [readRow_of_writesRow hrow (hword row List.mem_cons_self) (by simp; omega)]
      simp only
      rw [readRows_afterFirst hrows (fun later hmem => hword later (List.mem_cons_of_mem _ hmem))
        (by simp; omega)]
      rfl

/-- A text that begins with an opening bracket is not refused at its first byte. -/
theorem isRefusedAtOnce_toUTF8 (cs : List Char) :
    isRefusedAtOnce (String.ofList ('[' :: cs)).toUTF8 = false := by
  have hbytes : (String.ofList ('[' :: cs)).toUTF8 = ['['].utf8Encode ++ cs.utf8Encode := by
    rw [String.toUTF8_eq_toByteArray, String.toByteArray_ofList, List.utf8Encode_cons]
  have hfirst : (['['].utf8Encode ++ cs.utf8Encode).data[0]? = some 0x5B := by
    have hbracket : ['['].utf8Encode.data = #[0x5B] := by
      rw [List.utf8Encode_singleton]
      rfl
    simp [hbracket]
  rw [isRefusedAtOnce, hbytes, hfirst]
  decide

/-- Every text of a sheet is read as that sheet. -/
theorem readBytes_of_writesSheet {sheet : Sheet} {text : String}
    (h : WritesSheet pretty sheet text)
    (hword : ∀ row ∈ sheet.rows, ∀ cell ∈ row.cells, cell.1 < wordLimit) :
    readBytes text.toUTF8 = .ok sheet := by
  cases h with
  | @array texts h =>
      have hbracket : ∃ cs, enclosed pretty 0 '[' ']' texts ++ ['\n'] = '[' :: cs := by
        cases texts with
        | nil => exact ⟨_, rfl⟩
        | cons text texts => exact ⟨_, rfl⟩
      obtain ⟨cs, hcs⟩ := hbracket
      have hread := read_of_writesRows h hword
      rw [hcs] at hread ⊢
      rw [readBytes, isRefusedAtOnce_toUTF8, if_neg (by decide), decode_toUTF8,
        String.toList_ofList]
      exact hread

/-- A sheet whose columns fit into 64 bits is read back as it was, whether or not its text is
pretty, and also if `null` stands in place of rows without texts. -/
theorem readBytes_write (pretty : Bool) (sheet : Sheet)
    (hword : ∀ row ∈ sheet.rows, ∀ cell ∈ row.cells, cell.1 < wordLimit) :
    readBytes (write pretty sheet).toUTF8 = .ok sheet ∧
      ∀ text, WritesSheet pretty sheet text → readBytes text.toUTF8 = .ok sheet :=
  ⟨readBytes_of_writesSheet (writesSheet_write pretty sheet) hword,
    fun _ h => readBytes_of_writesSheet h hword⟩

/-- A sheet with the first and the last column, an empty row, and a text of characters that are
written in four ways. -/
def escapedSheet : Sheet where
  rows :=
    [Row.ofList [(0, ""), (18446744073709551615, "\"\\\n\x01é😀")], Row.empty,
      Row.ofList [(1, "=A1")]]

theorem readBytes_write_escaped :
    readBytes (write true escapedSheet).toUTF8 = .ok escapedSheet ∧
      readBytes
        ("[\x7b\"0\":\"\",\"18446744073709551615\":\"\\\"\\\\\\n\\u0001é😀\"\x7d,null," ++
          "\x7b\"1\":\"=A1\"\x7d]\n").toUTF8 = .ok escapedSheet := by
  have hword : ∀ row ∈ escapedSheet.rows, ∀ cell ∈ row.cells, cell.1 < wordLimit := by decide
  refine ⟨(readBytes_write true escapedSheet hword).1,
    (readBytes_write false escapedSheet hword).2 _ ?_⟩
  have hrows : List.Forall₂ (WritesRow false) escapedSheet.rows
      [rowText false (Row.ofList [(0, ""), (18446744073709551615, "\"\\\n\x01é😀")]),
        "null".toList, rowText false (Row.ofList [(1, "=A1")])] :=
    .cons (.object _) (.cons .null (.cons (.object _) .nil))
  have htext := WritesSheet.array hrows
  have hspelt : "[\x7b\"0\":\"\",\"18446744073709551615\":\"\\\"\\\\\\n\\u0001é😀\"\x7d,null," ++
      "\x7b\"1\":\"=A1\"\x7d]\n" = String.ofList (enclosed false 0 '[' ']'
        [rowText false (Row.ofList [(0, ""), (18446744073709551615, "\"\\\n\x01é😀")]),
          "null".toList, rowText false (Row.ofList [(1, "=A1")])] ++ ['\n']) := by
    decide +kernel
  rwa [hspelt]

end Sheets

end Json
end FormulaSheet
