import FormulaSheet.Csv.Reader
import FormulaSheet.Csv.Writer
import FormulaSheet.Proofs.Text.Trim

/-!
# Scans of characters

How the state of the reader changes over runs of characters: over text outside quotes, over text
inside quotes in which each quote is written twice, and at the ends of fields and records.

* `Scan.run`: the state after some characters.
* `Scan.run_plain`, `Scan.run_doubleQuotes`: runs within one field.
* `Scan.step_comma`, `Scan.step_lineFeed`: the two ends of a field outside quotes.
* `Scan.run_padding`: white space behind a field changes nothing of it.
* `Scan.line_run`: every line feed counts as a line.
-/

namespace FormulaSheet
namespace Csv

open Text

theorem push_append_ofList (text : String) (c : Char) (cs : List Char) :
    text.push c ++ String.ofList cs = text ++ String.ofList (c :: cs) := by
  rw [← String.toList_inj]
  simp

@[simp] theorem doubleQuotes_nil : doubleQuotes [] = [] := rfl

theorem doubleQuotes_cons_quote (cs : List Char) :
    doubleQuotes ('"' :: cs) = '"' :: '"' :: doubleQuotes cs := rfl

theorem doubleQuotes_cons {c : Char} (hc : c ≠ '"') (cs : List Char) :
    doubleQuotes (c :: cs) = c :: doubleQuotes cs := by
  simp [doubleQuotes, hc]

namespace Scan

/-- The state after some characters. -/
def run (s : Scan) (cs : List Char) : Scan :=
  cs.foldl step s

@[simp] theorem run_nil (s : Scan) : s.run [] = s := rfl

@[simp] theorem run_cons (s : Scan) (c : Char) (cs : List Char) :
    s.run (c :: cs) = (s.step c).run cs := rfl

@[simp] theorem run_append (s : Scan) (cs ds : List Char) :
    s.run (cs ++ ds) = (s.run cs).run ds :=
  List.foldl_append

theorem records_eq (content : String) :
    Csv.records content = (run {} content.toList).finish := by
  simp [Csv.records, run]

theorem finish_of_inside {s : Scan} (h : s.quoting = .inside) :
    s.finish = .error ⟨s.start.getD s.line⟩ := by
  rw [finish, if_pos h]

/-- A text can be read unless it ends inside quotes. -/
theorem exists_finish_iff {s : Scan} : (∃ list, s.finish = .ok list) ↔ s.quoting ≠ .inside := by
  constructor
  · rintro ⟨list, hlist⟩ hquoting
    rw [finish_of_inside hquoting] at hlist
    cases hlist
  · intro hquoting
    rw [finish, if_neg hquoting]
    cases s.start with
    | none => exact ⟨_, rfl⟩
    | some line => exact ⟨_, rfl⟩

section Advance

variable (s : Scan) (c : Char)

@[simp] theorem records_advance : (s.advance c).records = s.records := rfl

@[simp] theorem fields_advance : (s.advance c).fields = s.fields := rfl

@[simp] theorem field_advance : (s.advance c).field = s.field := rfl

end Advance

/-- Outside quotes, a comma ends the field. -/
theorem step_comma {s : Scan} (h : s.quoting ≠ .inside) :
    s.step ',' = (s.advance ',').endField := by
  cases hq : s.quoting with
  | inside => exact absurd hq h
  | unquoted => simp [step, accept, outside, advance, hq]
  | afterQuote => simp [step, accept, outside, advance, endField, field, hq]
  | closed => simp [step, accept, outside, advance, hq]

/-- Outside quotes, a line feed ends the record. -/
theorem step_lineFeed {s : Scan} (h : s.quoting ≠ .inside) :
    s.step '\n' = (s.advance '\n').endRecord := by
  cases hq : s.quoting with
  | inside => exact absurd hq h
  | unquoted => simp [step, accept, outside, advance, hq]
  | afterQuote => simp [step, accept, outside, advance, endRecord, field, hq]
  | closed => simp [step, accept, outside, advance, hq]

/-- Behind a line feed outside quotes nothing is left of the record but its fields. -/
theorem step_lineFeed_eq {s : Scan} (h : s.quoting ≠ .inside) :
    s.step '\n' =
      { records := (s.field :: s.fields).reverse :: s.records, line := s.line + 1 } := by
  rw [step_lineFeed h]
  rfl

/-- A quote at the beginning of a field, or behind white space, opens quotes. -/
theorem step_open {s : Scan} (hquoting : s.quoting = .unquoted)
    (hblank : ∀ c ∈ s.current.toList, isBlank c = true) :
    s.step '"' = { s.advance '"' with current := "", quoting := .inside } := by
  have hall : s.current.toList.all isBlank = true := List.all_eq_true.mpr hblank
  simp [step, accept, outside, advance, hquoting, hall]

theorem step_inside {s : Scan} (h : s.quoting = .inside) {c : Char} (hc : c ≠ '"') :
    s.step c = (s.advance c).push c := by
  simp [step, accept, advance, h, hc]

theorem step_inside_quote {s : Scan} (h : s.quoting = .inside) :
    s.step '"' = { s.advance '"' with quoting := .afterQuote } := by
  simp [step, accept, advance, h]

/-- A quote right behind a quote belongs to the field. -/
theorem step_afterQuote_quote {s : Scan} (h : s.quoting = .afterQuote) :
    s.step '"' = { (s.advance '"').push '"' with quoting := .inside } := by
  simp [step, accept, advance, push, h]

/-- Outside quotes a character without a meaning of its own is added to the field, and so is a
quote behind other text. -/
theorem step_plain {s : Scan} (h : s.quoting = .unquoted) {c : Char} (hcomma : c ≠ ',')
    (hfeed : c ≠ '\n') (hquote : c ≠ '"' ∨ ∃ d ∈ s.current.toList, isBlank d = false) :
    s.step c = (s.advance c).push c := by
  have hopen : ¬ (c = '"' ∧ (s.advance c).current.toList.all isBlank = true) := by
    rintro ⟨hc, hall⟩
    obtain ⟨d, hd, hblank⟩ := hquote.resolve_left (not_not_intro hc)
    rw [List.all_eq_true.mp hall d hd] at hblank
    cases hblank
  have houtside : s.step c = (s.advance c).outside c := by simp [step, accept, advance, h]
  rw [houtside, outside, if_neg hopen, if_neg hcomma, if_neg hfeed, if_neg]
  simp [advance, h]

theorem run_plain {s : Scan} (h : s.quoting = .unquoted) {cs : List Char}
    (hplain : ∀ c ∈ cs, c ≠ ',' ∧ c ≠ '\n')
    (hquote : '"' ∉ cs ∨ ∃ d ∈ s.current.toList, isBlank d = false) :
    ∃ line start, s.run cs =
      { s with current := s.current ++ String.ofList cs, line := line, start := start } := by
  induction cs generalizing s with
  | nil => exact ⟨s.line, s.start, by simp⟩
  | cons c cs ih =>
      obtain ⟨hcomma, hfeed⟩ := hplain c List.mem_cons_self
      have hstep : s.step c = (s.advance c).push c := step_plain h hcomma hfeed
        (hquote.imp_left fun hnone => (List.ne_of_not_mem_cons hnone).symm)
      have hquoting : (s.step c).quoting = .unquoted := by rw [hstep]; exact h
      have hnext : '"' ∉ cs ∨ ∃ d ∈ (s.step c).current.toList, isBlank d = false := by
        refine hquote.imp (mt (List.mem_cons_of_mem c)) ?_
        rintro ⟨d, hd, hblank⟩
        exact ⟨d, by simp [hstep, push, advance, hd], hblank⟩
      obtain ⟨line, start, hrun⟩ := ih hquoting
        (fun d hd => hplain d (List.mem_cons_of_mem _ hd)) hnext
      refine ⟨line, start, ?_⟩
      rw [run_cons, hrun, hstep, ← push_append_ofList]
      rfl

/-- Inside quotes, a text in which each quote is written twice is added to the field. -/
theorem run_doubleQuotes {s : Scan} (h : s.quoting = .inside) (cs : List Char) :
    ∃ line start, s.run (doubleQuotes cs) =
      { s with current := s.current ++ String.ofList cs, line := line, start := start } := by
  induction cs generalizing s with
  | nil => exact ⟨s.line, s.start, by simp⟩
  | cons c cs ih =>
      by_cases hc : c = '"'
      · subst hc
        have hafter : (s.step '"').quoting = .afterQuote := by rw [step_inside_quote h]
        have hstep : (s.step '"').step '"' = { s.advance '"' with
            current := s.current.push '"', quoting := .inside } := by
          rw [step_afterQuote_quote hafter, step_inside_quote h]
          rfl
        obtain ⟨line, start, hrun⟩ := ih (by rw [hstep] : ((s.step '"').step '"').quoting = .inside)
        refine ⟨line, start, ?_⟩
        rw [doubleQuotes_cons_quote, run_cons, run_cons, hrun, hstep, ← push_append_ofList]
        simp [advance, h]
      · have hstep := step_inside h hc
        have hquoting : (s.step c).quoting = .inside := by rw [hstep]; exact h
        obtain ⟨line, start, hrun⟩ := ih hquoting
        refine ⟨line, start, ?_⟩
        rw [doubleQuotes_cons hc, run_cons, hrun, hstep, ← push_append_ofList]
        rfl

section Padding

theorem ne_of_isBlank {c : Char} (h : isBlank c = true) : c ≠ '"' ∧ c ≠ ',' := by
  constructor
  · rintro rfl
    exact absurd h (by decide)
  · rintro rfl
    exact absurd h (by decide)

/-- The second state is the first one behind some characters that change nothing of the field. -/
structure Pads (s t : Scan) : Prop where
  records : t.records = s.records
  fields : t.fields = s.fields
  field : t.field = s.field
  line : t.line = s.line
  quoting : t.quoting ≠ .inside

theorem Pads.trans {s t u : Scan} (h : Pads s t) (hnext : Pads t u) : Pads s u where
  records := hnext.records.trans h.records
  fields := hnext.fields.trans h.fields
  field := hnext.field.trans h.field
  line := hnext.line.trans h.line
  quoting := hnext.quoting

/-- White space outside quotes is trimmed with the field, or is dropped behind a quote. -/
theorem step_blank {s : Scan} (h : s.quoting ≠ .inside) {c : Char} (hblank : isBlank c = true)
    (hfeed : c ≠ '\n') : Pads s (s.step c) := by
  obtain ⟨hquote, hcomma⟩ := ne_of_isBlank hblank
  cases hq : s.quoting with
  | inside => exact absurd hq h
  | unquoted =>
      have htrim : (trimmed (s.current.push c)).toList = (trimmed s.current).toList := by
        have hpadded : trim ([] ++ (s.current.toList ++ [c])) = trim s.current.toList :=
          trim_padded (by simp) (by simpa using hblank) _
        rw [toList_trimmed, toList_trimmed, String.toList_push]
        exact hpadded
      rw [step_plain hq hcomma hfeed (Or.inl hquote)]
      exact {
        records := rfl
        fields := rfl
        field := by
          simp only [field, push, advance, hq]
          exact String.toList_inj.mp htrim
        line := if_neg hfeed
        quoting := h }
  | closed =>
      have hstep : s.step c = s.advance c := by
        simp [step, accept, outside, advance, hq, hquote, hcomma, hfeed, hblank]
      rw [hstep]
      exact ⟨rfl, rfl, rfl, if_neg hfeed, h⟩
  | afterQuote =>
      have hstep : s.step c = { s.advance c with quoting := .closed } := by
        simp [step, accept, outside, advance, hq, hquote, hcomma, hfeed, hblank]
      rw [hstep]
      exact ⟨rfl, rfl, by simp [field, advance, hq], if_neg hfeed, by simp⟩

/-- White space outside quotes changes nothing of the field in front of it. -/
theorem run_padding {s : Scan} (h : s.quoting ≠ .inside) {cs : List Char}
    (hpadding : ∀ c ∈ cs, isBlank c = true ∧ c ≠ '\n') : Pads s (s.run cs) := by
  induction cs generalizing s with
  | nil => exact ⟨rfl, rfl, rfl, rfl, h⟩
  | cons c cs ih =>
      obtain ⟨hblank, hfeed⟩ := hpadding c List.mem_cons_self
      have hstep := step_blank h hblank hfeed
      exact hstep.trans (ih hstep.quoting fun d hd => hpadding d (List.mem_cons_of_mem _ hd))

/-- A line feed outside quotes leaves no trace of white space in front of it. -/
theorem Pads.step_lineFeed {s t : Scan} (h : Pads s t) (hquoting : s.quoting ≠ .inside) :
    t.step '\n' = s.step '\n' := by
  rw [step_lineFeed_eq h.quoting, step_lineFeed_eq hquoting, h.records, h.fields, h.field, h.line]

end Padding

/-- Outside quotes a character either ends the record or leaves its begin and its line. -/
theorem outside_cases (s : Scan) (c : Char) :
    (c = '\n' ∧ s.outside c = s.endRecord) ∨
      ((s.outside c).records = s.records ∧ (s.outside c).start = s.start ∧
        (s.outside c).line = s.line) := by
  by_cases hfeed : c = '\n'
  · subst hfeed
    exact Or.inl ⟨rfl, by simp [outside]⟩
  · right
    by_cases hopen : c = '"' ∧ s.current.toList.all isBlank = true
    · rw [outside, if_pos hopen]
      exact ⟨rfl, rfl, rfl⟩
    · rw [outside, if_neg hopen, if_neg hfeed]
      split
      · exact ⟨rfl, rfl, rfl⟩
      · split <;> exact ⟨rfl, rfl, rfl⟩

/-- A record ends at a line feed outside quotes and nowhere else. -/
theorem accept_cases (s : Scan) (c : Char) :
    ((c = '\n' ∧ s.quoting ≠ .inside) ∧ s.accept c = s.endRecord) ∨
      ((s.accept c).records = s.records ∧ (s.accept c).start = s.start ∧
        (s.accept c).line = s.line) := by
  cases hq : s.quoting with
  | inside =>
      right
      simp only [accept, hq]
      split <;> exact ⟨rfl, rfl, rfl⟩
  | unquoted =>
      simp only [accept, hq]
      exact (outside_cases s c).imp_left fun h => ⟨⟨h.1, by simp⟩, h.2⟩
  | closed =>
      simp only [accept, hq]
      exact (outside_cases s c).imp_left fun h => ⟨⟨h.1, by simp⟩, h.2⟩
  | afterQuote =>
      simp only [accept, hq]
      split
      · exact Or.inr ⟨rfl, rfl, rfl⟩
      · refine (outside_cases _ c).imp_left fun h => ⟨⟨h.1, by simp⟩, h.2.trans ?_⟩
        simp [endRecord, field, hq]

section Lines

theorem line_accept (s : Scan) (c : Char) : (s.accept c).line = s.line := by
  rcases accept_cases s c with ⟨-, hend⟩ | ⟨-, -, hline⟩
  · rw [hend, endRecord]
  · exact hline

/-- Every line feed counts as a line, inside quotes as well. -/
theorem line_run (s : Scan) (cs : List Char) : (s.run cs).line = s.line + cs.count '\n' := by
  induction cs generalizing s with
  | nil => rfl
  | cons c cs ih =>
      have hstep : (s.step c).line = s.line + if c = '\n' then 1 else 0 := by
        rw [step, line_accept, advance]
        split <;> rfl
      rw [run_cons, ih, hstep, List.count_cons]
      simp only [beq_iff_eq]
      omega

end Lines

section Records

variable {s : Scan} {c : Char}

/-- Only a line feed outside quotes ends a record, and every other character begins one. -/
theorem step_of_not_ends (h : c = '\n' → s.quoting = .inside) :
    (s.step c).records = s.records ∧ (s.step c).start = some (s.start.getD s.line) := by
  rcases accept_cases (s.advance c) c with ⟨⟨hfeed, hquoting⟩, -⟩ | ⟨hrecords, hstart, -⟩
  · exact absurd (h hfeed) hquoting
  · exact ⟨hrecords, hstart⟩

/-- Records that are read stay as they are. -/
theorem records_suffix_run (s : Scan) (cs : List Char) : s.records <:+ (s.run cs).records := by
  induction cs generalizing s with
  | nil => exact List.suffix_rfl
  | cons c cs ih =>
      refine List.IsSuffix.trans ?_ (ih (s.step c))
      by_cases hends : c = '\n' ∧ s.quoting ≠ .inside
      · obtain ⟨rfl, hquoting⟩ := hends
        rw [step_lineFeed_eq hquoting]
        exact List.suffix_cons _ _
      · have hrecords := (step_of_not_ends (s := s) (c := c) (by simpa using hends)).1
        exact hrecords ▸ List.suffix_rfl

/-- As long as no record ends, the current one is that with which the run began. -/
theorem start_run_of_records {cs : List Char} (hne : cs ≠ [])
    (h : (s.run cs).records = s.records) :
    (s.run cs).start = some (s.start.getD s.line) := by
  induction cs generalizing s with
  | nil => exact absurd rfl hne
  | cons c cs ih =>
      by_cases hends : c = '\n' ∧ s.quoting ≠ .inside
      · obtain ⟨rfl, hquoting⟩ := hends
        have hsuffix := records_suffix_run (s.step '\n') cs
        rw [← run_cons, h, step_lineFeed_eq hquoting] at hsuffix
        exact absurd hsuffix.length_le (by simp)
      · obtain ⟨hrecords, hstart⟩ := step_of_not_ends (s := s) (c := c) (by simpa using hends)
        rcases List.eq_nil_or_concat cs with rfl | ⟨ds, d, rfl⟩
        · exact hstart
        · rw [run_cons, ih (by simp) (h.trans hrecords.symm), hstart]
          rfl

end Records

end Scan

end Csv
end FormulaSheet
