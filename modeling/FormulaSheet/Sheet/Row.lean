/-!
# Rows

A row holds texts at some of its columns. Its cells are kept in the order of their columns, each
column once, so two rows with the same text at every column are equal.

* `Row.get?`, `Row.insert`: the text at a column.
* `Row.ofList`: the row of a list of cells, in which the last cell of a column counts.
* `Row.mapText`: the row with each text replaced.
-/

namespace FormulaSheet

abbrev Cell : Type := Nat × String

/-- Texts at some columns, in the order of the columns. -/
structure Row where
  cells : List Cell
  sorted : cells.Pairwise (fun a b => a.1 < b.1)
  deriving DecidableEq

namespace Row

def empty : Row where
  cells := []
  sorted := List.Pairwise.nil

def get? (row : Row) (column : Nat) : Option String :=
  row.cells.lookup column

/-- Put a text at a column of sorted cells, in place of one that is there. -/
def insertCell (column : Nat) (text : String) : List Cell → List Cell
  | [] => [(column, text)]
  | cell :: rest =>
      if column < cell.1 then (column, text) :: cell :: rest
      else if column = cell.1 then (column, text) :: rest
      else cell :: insertCell column text rest

theorem fst_of_mem_insertCell {column : Nat} {text : String} {cells : List Cell} {cell : Cell}
    (h : cell ∈ insertCell column text cells) : cell.1 = column ∨ cell ∈ cells := by
  induction cells with
  | nil =>
      simp only [insertCell, List.mem_singleton] at h
      exact Or.inl (congrArg Prod.fst h)
  | cons first rest ih =>
      unfold insertCell at h
      split at h
      · rcases List.mem_cons.1 h with h | h
        · exact Or.inl (congrArg Prod.fst h)
        · exact Or.inr h
      · split at h
        · rcases List.mem_cons.1 h with h | h
          · exact Or.inl (congrArg Prod.fst h)
          · exact Or.inr (List.mem_cons_of_mem _ h)
        · rcases List.mem_cons.1 h with h | h
          · exact Or.inr (h ▸ List.mem_cons_self)
          · exact (ih h).imp id (List.mem_cons_of_mem _)

theorem sorted_insertCell (column : Nat) (text : String) {cells : List Cell}
    (h : cells.Pairwise (fun a b => a.1 < b.1)) :
    (insertCell column text cells).Pairwise (fun a b => a.1 < b.1) := by
  induction cells with
  | nil => exact List.pairwise_singleton _ _
  | cons first rest ih =>
      have hfirst := (List.pairwise_cons.1 h).1
      have hrest := (List.pairwise_cons.1 h).2
      unfold insertCell
      split
      · next hlt =>
          refine List.pairwise_cons.2 ⟨fun cell hcell => ?_, h⟩
          rcases List.mem_cons.1 hcell with rfl | hcell
          · exact hlt
          · exact Nat.lt_trans hlt (hfirst cell hcell)
      · split
        · next heq =>
            exact List.pairwise_cons.2 ⟨fun cell hcell => heq ▸ hfirst cell hcell, hrest⟩
        · next hlt hne =>
            refine List.pairwise_cons.2 ⟨fun cell hcell => ?_, ih hrest⟩
            rcases fst_of_mem_insertCell hcell with hcell | hcell
            · show first.1 < cell.1
              omega
            · exact hfirst cell hcell

def insert (row : Row) (column : Nat) (text : String) : Row where
  cells := insertCell column text row.cells
  sorted := sorted_insertCell column text row.sorted

/-- The row of a list of cells; the last cell of a column counts. -/
def ofList (cells : List Cell) : Row :=
  cells.foldl (fun row cell => row.insert cell.1 cell.2) empty

def mapText (f : String → String) (row : Row) : Row where
  cells := row.cells.map fun cell => (cell.1, f cell.2)
  sorted := List.pairwise_map.2 row.sorted

end Row

end FormulaSheet
