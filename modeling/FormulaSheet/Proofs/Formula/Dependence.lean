import Mathlib
import FormulaSheet.Proofs.Formula.Agreement

/-!
# What a formula depends on

A formula depends on a sheet only through the readings of the addresses that chains of references
lead to. Such an address need not hold anything: a row that is not there, a missing column, a
blank text and a text that is no number all read as zero. So two sheets of any shapes that read
the same at these addresses give the formula the same value or the same error.

* `Sheet.ReachesAddress`: a chain of references leads from a formula to an address.
* `agreeOn_of_reachesAddress`: the chains of calls that an evaluation follows stay among these.
* `evaluateFormula_eq_of_reading`: the dependence, and the changes of a sheet that it allows.
-/

namespace FormulaSheet

open Text Relation

namespace Sheet

/-- A chain of references leads from a formula to an address. Every cell on the way holds a
formula; the last may hold anything, or not be there. -/
inductive ReachesAddress (sheet : Sheet) (formula : List Char) : Address → Prop
  | named {cell : Address}
      (hnamed : NamesAddress formula cell) :
      ReachesAddress sheet formula cell
  | followed {cell next : Address} {text : List Char}
      (hcell : ReachesAddress sheet formula cell)
      (htext : sheet.formulaAt? cell = some text)
      (hnamed : NamesAddress text next) :
      ReachesAddress sheet formula next

section Chains

variable {sheet other : Sheet} {formula : List Char}

/-- A text that a chain of calls leads to is the formula itself or stands at an address that it
reaches. -/
theorem reachesAddress_of_calls {text : List Char}
    (h : ReflTransGen sheet.Calls formula text) :
    text = formula ∨
      ∃ cell, sheet.ReachesAddress formula cell ∧ sheet.formulaAt? cell = some text := by
  induction h with
  | refl => exact Or.inl rfl
  | tail _ hcall ih =>
      obtain ⟨cell, hrefers, hcell⟩ := exists_refersTo_of_calls hcall
      refine Or.inr ⟨cell, ?_, hcell⟩
      rcases ih with rfl | ⟨before, hbefore, htext⟩
      · exact .named hrefers.1
      · exact .followed hbefore htext hrefers.1

theorem agreeOn_of_reachesAddress
    (h : ∀ cell, sheet.ReachesAddress formula cell → sheet.reading cell = other.reading cell)
    {text : List Char} (hchain : ReflTransGen sheet.Calls formula text) :
    sheet.AgreeOn other text := by
  intro cell hnamed
  rcases reachesAddress_of_calls hchain with rfl | ⟨before, hbefore, htext⟩
  · exact h cell (.named hnamed)
  · exact h cell (.followed hbefore htext hnamed)

/-- Only addresses from column one and row one on are reached. -/
theorem ReachesAddress.pos {cell : Address} (h : sheet.ReachesAddress formula cell) :
    0 < cell.column ∧ 0 < cell.row := by
  cases h with
  | named hnamed => exact hnamed.pos
  | followed _ _ hnamed => exact hnamed.pos

theorem reading_pushRow_empty (sheet : Sheet) (cell : Address) :
    (sheet.pushRow Row.empty).reading cell = sheet.reading cell := by
  have hget : (sheet.pushRow Row.empty).get? cell.row cell.column =
      sheet.get? cell.row cell.column := by
    simp only [get?, row?, pushRow, List.getElem?_append]
    split
    · rfl
    · next hle =>
        have hnone : sheet.rows[cell.row]? = none := List.getElem?_eq_none (by omega)
        rw [hnone, List.getElem?_singleton]
        split <;> rfl
  simp only [reading, textAt?, hget]

end Chains

end Sheet

/-- A formula sees a sheet only through the readings of the addresses that it reaches, all of which
lie in columns and rows from one on. Sheets that read the same there give it the same value or
the same error. So it makes no difference to put into a cell what reads the same, to put anything
into a cell that is not reached, or to add an empty row. -/
theorem evaluateFormula_eq_of_reading (sheet : Sheet) (options : EvalOptions) (formula : String) :
    (∀ other,
      (∀ cell, sheet.ReachesAddress formula.toList cell →
        sheet.reading cell = other.reading cell) →
      evaluateFormula sheet options formula = evaluateFormula other options formula) ∧
    (∀ cell, sheet.ReachesAddress formula.toList cell → 0 < cell.column ∧ 0 < cell.row) ∧
    (∀ row column text,
      (sheet.ReachesAddress formula.toList ⟨column, row⟩ →
        Reading.ofText (trim text.toList) = sheet.reading ⟨column, row⟩) →
      evaluateFormula (sheet.set row column text) options formula =
        evaluateFormula sheet options formula) ∧
    evaluateFormula (sheet.pushRow Row.empty) options formula =
      evaluateFormula sheet options formula := by
  have hsame : ∀ other,
      (∀ cell, sheet.ReachesAddress formula.toList cell →
        sheet.reading cell = other.reading cell) →
      evaluateFormula sheet options formula = evaluateFormula other options formula := by
    intro other h
    exact evaluate_result_of_agreeOn formula.toList [] fun text hchain =>
      Sheet.agreeOn_of_reachesAddress h hchain
  refine ⟨hsame, fun cell hcell => hcell.pos, fun row column text h => ?_, ?_⟩
  · refine (hsame _ fun cell hcell => ?_).symm
    rw [reading_set]
    split
    · next heq =>
        subst heq
        exact (h hcell).symm
    · rfl
  · exact (hsame _ fun cell _ => (sheet.reading_pushRow_empty cell).symm).symm

/-- A1 doubles B1, and C1 is no number. -/
def doublingSheet : Sheet :=
  ⟨[Row.ofList [(1, "5")], Row.ofList [(0, "=A1"), (1, " =B1*2"), (2, "2.50"), (3, "x")]]⟩

/-- The same to a formula on A1, C1 and Z9: B1 is written in another way, C1 is not there, and
what else there is has changed. -/
def respeltSheet : Sheet :=
  ⟨[Row.empty, Row.ofList [(1, "=B1*2 "), (2, " 2.5"), (4, "=D1")], Row.empty]⟩

theorem evaluateFormula_eq_of_reading_respelt :
    (∀ cell, doublingSheet.ReachesAddress "=A1+C1+Z9".toList cell →
      doublingSheet.reading cell = respeltSheet.reading cell) ∧
    evaluateFormula doublingSheet {} "=A1+C1+Z9" = evaluateFormula respeltSheet {} "=A1+C1+Z9" := by
  have hnamed : namedAddresses "=A1+C1+Z9".toList = [⟨1, 1⟩, ⟨3, 1⟩, ⟨26, 9⟩] := by decide
  have hfollowed : ∀ cell ∈ ([⟨1, 1⟩, ⟨3, 1⟩, ⟨26, 9⟩, ⟨2, 1⟩] : List Address),
      ((doublingSheet.formulaAt? cell).map namedAddresses).getD [] ⊆ [⟨2, 1⟩] := by decide +kernel
  have hreached : ∀ cell, doublingSheet.ReachesAddress "=A1+C1+Z9".toList cell →
      cell ∈ ([⟨1, 1⟩, ⟨3, 1⟩, ⟨26, 9⟩, ⟨2, 1⟩] : List Address) := by
    intro cell hcell
    induction hcell with
    | named h =>
        rw [← mem_namedAddresses_iff, hnamed] at h
        exact List.mem_append_left [⟨2, 1⟩] h
    | followed _ htext h ih =>
        have hnext := hfollowed _ ih
        rw [htext] at hnext
        rw [← mem_namedAddresses_iff] at h
        exact List.mem_append_right [⟨1, 1⟩, ⟨3, 1⟩, ⟨26, 9⟩] (hnext h)
  have hreading : ∀ cell, doublingSheet.ReachesAddress "=A1+C1+Z9".toList cell →
      doublingSheet.reading cell = respeltSheet.reading cell := by
    intro cell hcell
    have hall : ∀ cell ∈ ([⟨1, 1⟩, ⟨3, 1⟩, ⟨26, 9⟩, ⟨2, 1⟩] : List Address),
        doublingSheet.reading cell = respeltSheet.reading cell := by decide +kernel
    exact hall cell (hreached cell hcell)
  exact ⟨hreading, (evaluateFormula_eq_of_reading doublingSheet {} "=A1+C1+Z9").1 _ hreading⟩

end FormulaSheet
