import Mathlib
import FormulaSheet.Proofs.Csv.Scan

/-!
# Independent records

Once a record has ended, nothing is left of it but its fields and the number of its lines. So a text
that can be read, a line feed, and any other text are read as the two texts apart, and where the
second one fails the line that is named is that of the second one, counted on. The line of a failure
is that on which the failing record begins.

* `Scan.shift`: a state with records and lines in front of it.
* `Scan.run_shift`, `Scan.finish_shift`: what stands in front makes no difference.
* `records_append`: the records of two texts with a line feed between them.
* `FirstRecordOnly`: no record ends within a text.
* `exists_failing_record`: where the record begins in which a text fails.
* `read_append_lineFeed`: the same of sheets.
-/

namespace FormulaSheet
namespace Csv

namespace Scan

/-- The state with records and lines in front of it. -/
def shift (before : List (List String)) (lines : Nat) (s : Scan) : Scan :=
  { s with
    records := s.records ++ before
    line := s.line + lines
    start := s.start.map (· + lines) }

section Shift

variable (before : List (List String)) (lines : Nat)

theorem shift_outside (s : Scan) (c : Char) :
    (s.outside c).shift before lines = (s.shift before lines).outside c := by
  unfold outside
  simp only [apply_ite (shift before lines)]
  rfl

theorem shift_accept (s : Scan) (c : Char) :
    (s.accept c).shift before lines = (s.shift before lines).accept c := by
  have hquoting : (s.shift before lines).quoting = s.quoting := rfl
  unfold accept
  rw [hquoting]
  split
  · exact shift_outside before lines s c
  · exact shift_outside before lines s c
  · rw [apply_ite (shift before lines)]
    rfl
  · rw [apply_ite (shift before lines), shift_outside]
    rfl

theorem shift_advance (s : Scan) (c : Char) :
    (s.advance c).shift before lines = (s.shift before lines).advance c := by
  have hline : (if c = '\n' then s.line + 1 else s.line) + lines =
      if c = '\n' then s.line + lines + 1 else s.line + lines := by
    split <;> omega
  have hstart : s.start.getD s.line + lines =
      (s.start.map (· + lines)).getD (s.line + lines) := by
    cases s.start <;> rfl
  simp only [advance, shift, hline, Option.map_some, hstart]

/-- What stands in front has no part in a step. -/
theorem step_shift (s : Scan) (c : Char) :
    (s.shift before lines).step c = (s.step c).shift before lines := by
  rw [step, step, shift_accept, shift_advance]

theorem run_shift (s : Scan) (cs : List Char) :
    (s.shift before lines).run cs = (s.run cs).shift before lines := by
  induction cs generalizing s with
  | nil => rfl
  | cons c cs ih => rw [run_cons, step_shift, ih, run_cons]

end Shift

end Scan

/-- The result of a text that stands behind records and lines. -/
def behind (before : List (List String)) (lines : Nat) :
    Except Unterminated (List (List String)) → Except Unterminated (List (List String))
  | .ok list => .ok (before ++ list)
  | .error fault => .error ⟨fault.line + lines⟩

theorem behind_eq_error_iff {before : List (List String)} {lines : Nat}
    {result : Except Unterminated (List (List String))} {fault : Unterminated} :
    behind before lines result = .error fault ↔
      ∃ line, result = .error ⟨line⟩ ∧ fault = ⟨line + lines⟩ := by
  cases result with
  | ok list => simp [behind]
  | error found =>
      obtain ⟨line⟩ := found
      simp [behind, eq_comm]

theorem Scan.finish_shift (before : List (List String)) (lines : Nat) (s : Scan) :
    (s.shift before lines).finish = behind before.reverse lines s.finish := by
  by_cases hquoting : s.quoting = .inside
  · rw [finish_of_inside hquoting, finish_of_inside (s := s.shift before lines) hquoting]
    simp only [shift, behind]
    cases s.start <;> rfl
  · have hshift : (s.shift before lines).quoting ≠ .inside := hquoting
    rw [finish, finish, if_neg hquoting, if_neg hshift]
    simp only [shift]
    cases s.start with
    | none => simp [behind]
    | some line => simp [behind, endRecord, field]

/-- Behind a line feed outside quotes, the reader stands as at the beginning of a text. -/
theorem Scan.exists_run_lineFeed {cs : List Char} (h : (run {} cs).quoting ≠ .inside) :
    ∃ before, run {} (cs ++ ['\n']) = shift before (cs.count '\n' + 1) {} := by
  refine ⟨((run {} cs).field :: (run {} cs).fields).reverse :: (run {} cs).records, ?_⟩
  rw [run_append, run_cons, run_nil, step_lineFeed_eq h, line_run]
  simp [shift, Nat.add_comm]

theorem records_empty : records "" = .ok [] := by
  rw [Scan.records_eq]
  rfl

/-- The records of two texts with a line feed between them, if the first one can be read. -/
theorem records_append {first : String} (h : ∃ list, records first = .ok list) :
    ∃ before, ∀ second, records (first ++ "\n" ++ second) =
      behind before (first.toList.count '\n' + 1) (records second) := by
  rw [Scan.records_eq, Scan.exists_finish_iff] at h
  obtain ⟨before, hrun⟩ := Scan.exists_run_lineFeed h
  refine ⟨before.reverse, fun second => ?_⟩
  have hsplit : (first ++ "\n" ++ second).toList = (first.toList ++ ['\n']) ++ second.toList := by
    simp
  rw [Scan.records_eq, hsplit, Scan.run_append, hrun, Scan.run_shift, Scan.finish_shift,
    Scan.records_eq]

section Sheets

theorem read_eq_ok_iff {content : String} {sheet : Sheet} :
    read content = .ok sheet ↔
      ∃ list, records content = .ok list ∧ sheet = ⟨list.map rowOfRecord⟩ := by
  unfold read
  cases records content with
  | ok list => simp [Except.map, eq_comm]
  | error fault => simp [Except.map]

theorem read_eq_error_iff {content : String} {fault : Unterminated} :
    read content = .error fault ↔ records content = .error fault := by
  unfold read
  cases records content <;> simp [Except.map]

theorem exists_read_iff {content : String} :
    (∃ sheet, read content = .ok sheet) ↔ ∃ list, records content = .ok list := by
  simp only [read_eq_ok_iff]
  exact ⟨fun ⟨_, list, hlist, _⟩ => ⟨list, hlist⟩, fun ⟨list, hlist⟩ => ⟨_, list, hlist, rfl⟩⟩

end Sheets

section Failures

/-- No record ends within the text: what stands in front of a line feed ends inside quotes. -/
def FirstRecordOnly (content : String) : Prop :=
  ∀ before after, content = before ++ "\n" ++ after → ¬ ∃ sheet, read before = .ok sheet

/-- Nothing, or a text that can be read and the line feed behind it. -/
def WholeRecords (content : String) : Prop :=
  content = "" ∨ ∃ whole, content = whole ++ "\n" ∧ ∃ sheet, read whole = .ok sheet

theorem quoting_of_read {content : String} (h : ∃ sheet, read content = .ok sheet) :
    (Scan.run {} content.toList).quoting ≠ .inside := by
  rwa [exists_read_iff, Scan.records_eq, Scan.exists_finish_iff] at h

theorem records_run_of_firstRecordOnly {cs : List Char} (h : FirstRecordOnly (String.ofList cs)) :
    (Scan.run {} cs).records = [] := by
  induction cs using List.reverseRecOn with
  | nil => rfl
  | append_singleton cs c ih =>
      have hinside : c = '\n' → (Scan.run {} cs).quoting = .inside := by
        rintro rfl
        by_contra hquoting
        refine h (String.ofList cs) "" (by simp) (exists_read_iff.mpr ?_)
        rw [Scan.records_eq, Scan.exists_finish_iff, String.toList_ofList]
        exact hquoting
      rw [Scan.run_append, Scan.run_cons, Scan.run_nil, (Scan.step_of_not_ends hinside).1]
      refine ih fun before after hsplit => h before (after ++ String.singleton c) ?_
      rw [String.ofList_append, hsplit, String.append_assoc]
      rfl

theorem firstRecordOnly_iff {content : String} :
    FirstRecordOnly content ↔ (Scan.run {} content.toList).records = [] := by
  constructor
  · intro h
    exact records_run_of_firstRecordOnly (by rwa [String.ofList_toList])
  · rintro h before after rfl hread
    have hrecords : (Scan.run {} (before.toList ++ ['\n'])).records ≠ [] := by
      rw [Scan.run_append, Scan.run_cons, Scan.run_nil,
        Scan.step_lineFeed_eq (quoting_of_read hread)]
      exact List.cons_ne_nil _ _
    have hsplit : (before ++ "\n" ++ after).toList =
        (before.toList ++ ['\n']) ++ after.toList := by simp
    have hsuffix := Scan.records_suffix_run (Scan.run {} (before.toList ++ ['\n'])) after.toList
    rw [← Scan.run_append, ← hsplit, h] at hsuffix
    exact hrecords (List.suffix_nil.mp hsuffix)

instance (content : String) : Decidable (FirstRecordOnly content) :=
  decidable_of_iff _ firstRecordOnly_iff.symm

/-- A text that fails before a record ends names its first line. -/
theorem line_of_firstRecordOnly {content : String} {fault : Unterminated}
    (h : read content = .error fault) (hfirst : FirstRecordOnly content) : fault.line = 1 := by
  rw [read_eq_error_iff, Scan.records_eq] at h
  have hquoting : (Scan.run {} content.toList).quoting = .inside := by
    by_contra hquoting
    obtain ⟨list, hlist⟩ := Scan.exists_finish_iff.mpr hquoting
    rw [hlist] at h
    cases h
  have hne : content.toList ≠ [] := by
    intro hnil
    rw [hnil] at hquoting
    cases hquoting
  rw [Scan.finish_of_inside hquoting,
    Scan.start_run_of_records hne (firstRecordOnly_iff.mp hfirst)] at h
  cases h
  rfl

theorem WholeRecords.append {whole before : String} (hwhole : ∃ sheet, read whole = .ok sheet)
    (h : WholeRecords before) : WholeRecords (whole ++ "\n" ++ before) := by
  rcases h with rfl | ⟨last, rfl, hlast⟩
  · exact Or.inr ⟨whole, by simp, hwhole⟩
  · obtain ⟨list, happend⟩ := records_append (exists_read_iff.mp hwhole)
    obtain ⟨rest, hrest⟩ := exists_read_iff.mp hlast
    refine Or.inr ⟨whole ++ "\n" ++ last, by simp [String.append_assoc], ?_⟩
    exact exists_read_iff.mpr ⟨list ++ rest, by rw [happend, hrest, behind]⟩

theorem not_firstRecordOnly_iff {content : String} :
    ¬ FirstRecordOnly content ↔ ∃ before after, content = before ++ "\n" ++ after ∧
      ∃ sheet, read before = .ok sheet := by
  simp [FirstRecordOnly]

/-- A text that fails consists of whole records and a record that fails. The line that is named is
the first one behind the whole records. -/
theorem exists_failing_record {content : String} {fault : Unterminated}
    (h : read content = .error fault) :
    ∃ before after, content = before ++ after ∧ WholeRecords before ∧ FirstRecordOnly after ∧
      read after = .error ⟨1⟩ ∧ fault.line = before.toList.count '\n' + 1 := by
  induction hlength : content.length using Nat.strongRecOn generalizing content fault with
  | ind length ih =>
      by_cases hfirst : FirstRecordOnly content
      · have hline := line_of_firstRecordOnly h hfirst
        exact ⟨"", content, by simp, Or.inl rfl, hfirst, by rw [h, ← hline], by simpa using hline⟩
      · obtain ⟨whole, rest, rfl, hwhole⟩ := not_firstRecordOnly_iff.mp hfirst
        obtain ⟨list, happend⟩ := records_append (exists_read_iff.mp hwhole)
        rw [read_eq_error_iff, happend] at h
        obtain ⟨line, hrest, rfl⟩ := behind_eq_error_iff.mp h
        have hshorter : rest.length < length := by
          rw [← hlength, String.length_append, String.length_append, show "\n".length = 1 from rfl]
          omega
        obtain ⟨before, after, rfl, hbefore, hafter, hread, hline⟩ :=
          ih rest.length hshorter (read_eq_error_iff.mpr hrest) rfl
        refine ⟨whole ++ "\n" ++ before, after, by simp [String.append_assoc],
          hbefore.append hwhole, hafter, hread, ?_⟩
        have hfeed : "\n".toList.count '\n' = 1 := rfl
        simp only [String.toList_append, List.count_append, hfeed] at hline ⊢
        omega

end Failures

/-- A text that can be read, a line feed and any other text are read as the two texts apart, with
the lines of the second counted on. A text that fails in its first record names its first line, and
so every failure names the line on which the failing record begins. -/
theorem read_append_lineFeed :
    (∀ first second sheet, read first = .ok sheet →
      ∃ rows, read (first ++ "\n") = .ok rows ∧
        (∀ rest, read second = .ok rest →
          read (first ++ "\n" ++ second) = .ok ⟨rows.rows ++ rest.rows⟩) ∧
        ∀ line, read second = .error ⟨line⟩ →
          read (first ++ "\n" ++ second) = .error ⟨line + 1 + first.toList.count '\n'⟩) ∧
    (∀ content line, read content = .error ⟨line⟩ → FirstRecordOnly content → line = 1) ∧
    ∀ content line, read content = .error ⟨line⟩ →
      ∃ before after, content = before ++ after ∧ WholeRecords before ∧ FirstRecordOnly after ∧
        read after = .error ⟨1⟩ ∧ line = before.toList.count '\n' + 1 := by
  refine ⟨fun first second sheet hfirst => ?_, fun _ _ h => line_of_firstRecordOnly h,
    fun _ _ h => exists_failing_record h⟩
  obtain ⟨list, happend⟩ := records_append (exists_read_iff.mp ⟨sheet, hfirst⟩)
  have hlist : records (first ++ "\n") = .ok list := by
    have hempty := happend ""
    rwa [String.append_empty, records_empty, behind, List.append_nil] at hempty
  refine ⟨⟨list.map rowOfRecord⟩, read_eq_ok_iff.mpr ⟨list, hlist, rfl⟩, fun rest hrest => ?_,
    fun line hline => ?_⟩
  · obtain ⟨others, hothers, rfl⟩ := read_eq_ok_iff.mp hrest
    refine read_eq_ok_iff.mpr ⟨list ++ others, by rw [happend, hothers, behind], ?_⟩
    rw [List.map_append]
  · rw [read_eq_error_iff] at hline ⊢
    have hsum : line + (first.toList.count '\n' + 1) = line + 1 + first.toList.count '\n' := by
      omega
    rw [happend, hline, behind, hsum]

/-- A text with a quote behind a quoted field and a line feed inside quotes. -/
def irregularText : String := "a,\"x\ny\"z"

/-- The row of `irregularText`. -/
def irregularRow : Row :=
  Row.ofList [(1, "a"), (2, "x\nyz")]

theorem read_append_lineFeed_irregular :
    (read irregularText = .ok ⟨[irregularRow]⟩ ∧ read "b" = .ok ⟨[Row.ofList [(1, "b")]]⟩ ∧
      read (irregularText ++ "\n" ++ "b") = .ok ⟨[irregularRow, Row.ofList [(1, "b")]]⟩) ∧
    (read "b\n\"c\n" = .error ⟨2⟩ ∧
      read (irregularText ++ "\n" ++ "b\n\"c\n") = .error ⟨4⟩) ∧
    (read "\"c\n" = .error ⟨1⟩ ∧ FirstRecordOnly "\"c\n" ∧
      ∀ line, read "\"c\n" = .error ⟨line⟩ → line = 1) ∧
    ∃ before after, irregularText ++ "\n" ++ "b\n\"c\n" = before ++ after ∧
      WholeRecords before ∧ FirstRecordOnly after ∧ before.toList.count '\n' = 3 := by
  obtain ⟨happend, hfirst, hfailing⟩ := read_append_lineFeed
  have hirregular : read irregularText = .ok ⟨[irregularRow]⟩ := by cbv
  have hone : read (irregularText ++ "\n") = .ok ⟨[irregularRow]⟩ := by cbv
  have hrest : read "b" = .ok ⟨[Row.ofList [(1, "b")]]⟩ := by cbv
  have hfault : read "b\n\"c\n" = .error ⟨2⟩ := by cbv
  have hopen : read "\"c\n" = .error ⟨1⟩ := by cbv
  have honly : FirstRecordOnly "\"c\n" := by decide +kernel
  obtain ⟨rows, hrows, hsheets, -⟩ := happend irregularText "b" _ hirregular
  obtain ⟨-, -, -, hlines⟩ := happend irregularText "b\n\"c\n" _ hirregular
  obtain rfl := Except.ok.inj (hone.symm.trans hrows)
  have hcount : irregularText.toList.count '\n' = 1 := by decide
  have hwhole := hlines 2 hfault
  rw [hcount] at hwhole
  obtain ⟨before, after, hsplit, hbefore, hafter, -, hline⟩ := hfailing _ _ hwhole
  exact ⟨⟨hirregular, hrest, hsheets _ hrest⟩, ⟨hfault, hwhole⟩,
    ⟨hopen, honly, fun line hline => hfirst _ line hline honly⟩,
    before, after, hsplit, hbefore, hafter, by omega⟩

end Csv
end FormulaSheet
