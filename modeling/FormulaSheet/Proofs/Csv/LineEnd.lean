import Mathlib
import FormulaSheet.Proofs.Csv.Scan

/-!
# Line ends

A carriage return in front of the line feed that ends a record is white space at the end of the
record's last field, whatever the field looks like, so it leaves no trace. A text and the same text
with carriage returns in front of some of these line feeds are therefore read alike, also if neither
can be read. Inside quotes carriage returns count.

A reader can as well look one character ahead and drop such a carriage return before it comes to
the field. That gives the same states at every other character.

* `Scan.step_return`: a carriage return and a line feed outside quotes do what the line feed does.
* `AddsReturns`: a text with more carriage returns at the ends of its records.
* `Scan.runAhead`, `records_eq_runAhead`: a scan that looks ahead.
* `read_of_addsReturns`: both texts are read alike.
-/

namespace FormulaSheet
namespace Csv

namespace Scan

/-- Outside quotes, a line feed leaves no trace of a carriage return in front of it. -/
theorem step_return {s : Scan} (h : s.quoting ≠ .inside) : (s.step '\r').step '\n' = s.step '\n' :=
  (step_blank h (by decide) (by decide)).step_lineFeed h

/-- The states of a reader that drops a carriage return outside quotes if a line feed follows. -/
def runAhead (s : Scan) : List Char → Scan
  | [] => s
  | '\r' :: '\n' :: rest =>
      if s.quoting = .inside then ((s.step '\r').step '\n').runAhead rest
      else (s.step '\n').runAhead rest
  | c :: rest => (s.step c).runAhead rest

theorem runAhead_eq_run (s : Scan) (cs : List Char) : s.runAhead cs = s.run cs := by
  fun_induction runAhead s cs with
  | case1 s => rfl
  | case2 s rest hquoting ih => exact ih
  | case3 s rest hquoting ih => rw [ih, run_cons, run_cons, step_return hquoting]
  | case4 s c rest _ ih => exact ih

end Scan

/-- A reader that looks ahead for line feeds gives the same records, and fails on the same lines. -/
theorem records_eq_runAhead (content : String) :
    records content = (Scan.runAhead {} content.toList).finish := by
  rw [Scan.records_eq, Scan.runAhead_eq_run]

/-- The second text is the first one with a carriage return in front of some of the line feeds that
a scan meets outside quotes. -/
inductive AddsReturns : Scan → List Char → List Char → Prop
  | nil (s : Scan) : AddsReturns s [] []
  | keep {s : Scan} {c : Char} {rest others : List Char} (h : AddsReturns (s.step c) rest others) :
      AddsReturns s (c :: rest) (c :: others)
  | add {s : Scan} {rest others : List Char} (hquoting : s.quoting ≠ .inside)
      (h : AddsReturns (s.step '\n') rest others) :
      AddsReturns s ('\n' :: rest) ('\r' :: '\n' :: others)

theorem run_of_addsReturns {s : Scan} {cs others : List Char} (h : AddsReturns s cs others) :
    s.run others = s.run cs := by
  induction h with
  | nil s => rfl
  | keep _ ih => exact ih
  | add hquoting _ ih =>
      rw [Scan.run_cons, Scan.run_cons, Scan.step_return hquoting, ih, Scan.run_cons]

/-- A text and the same text with carriage returns in front of line feeds outside quotes are read
alike: as the same sheet, or with the same line that cannot be read. -/
theorem read_of_addsReturns {content other : String}
    (h : AddsReturns {} content.toList other.toList) : read other = read content := by
  have hrecords : records other = records content := by
    rw [Scan.records_eq, Scan.records_eq, run_of_addsReturns h]
  rw [read, read, hrecords]

/-- Behind a quoted field, behind a carriage return, and in front of a record that is not closed;
the line feed inside quotes stays as it is. -/
theorem read_of_addsReturns_quoted :
    (AddsReturns {} "\"b\n\"\n,\r\nc".toList "\"b\n\"\r\n,\r\r\nc".toList ∧
      read "\"b\n\"\n,\r\nc" = .ok ⟨[Row.ofList [(1, "b\n")], Row.empty, Row.ofList [(1, "c")]]⟩ ∧
      read "\"b\n\"\r\n,\r\r\nc" = read "\"b\n\"\n,\r\nc") ∧
    AddsReturns {} "a\n\"c\n".toList "a\r\n\"c\n".toList ∧
      read "a\n\"c\n" = .error ⟨2⟩ ∧ read "a\r\n\"c\n" = read "a\n\"c\n" := by
  have hquoted : AddsReturns {} "\"b\n\"\n,\r\nc".toList "\"b\n\"\r\n,\r\r\nc".toList :=
    .keep (.keep (.keep (.keep (.add (by decide)
      (.keep (.keep (.add (by decide) (.keep (.nil _)))))))))
  have hopen : AddsReturns {} "a\n\"c\n".toList "a\r\n\"c\n".toList :=
    .keep (.add (by decide) (.keep (.keep (.keep (.nil _)))))
  exact ⟨⟨hquoted, by cbv, read_of_addsReturns hquoted⟩, hopen, by cbv, read_of_addsReturns hopen⟩

end Csv
end FormulaSheet
