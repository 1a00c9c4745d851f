import Mathlib
import FormulaSheet.Proofs.Address.Text
import FormulaSheet.Proofs.Formula.Reading

/-!
# References between formulas

A formula *names* the addresses that the whole matches in it stand for, and *refers to* the formula
cells among them. References are followed in two ways: from cell to cell, which is what a chain of
references means, and from text to text, which is what an evaluation sees.

* `NamesAddress`, `namesAddress_iff`: the addresses named, and how they are found among the pieces.
* `Sheet.RefersTo`, `Sheet.CellRefersTo`, `Sheet.Reaches`, `Sheet.ReachesCycle`: cell by cell.
* `Sheet.Calls`: text by text.
* `reachesCycle_iff_calls`: the two views agree on cycles, although distinct cells may hold the
  same text.
-/

namespace FormulaSheet

open Text Relation

/-- A formula names an address: a whole match in the text behind its marker consists of letters
and digits for it. -/
def NamesAddress (formula : List Char) (address : Address) : Prop :=
  ∃ body occurrence, formulaBody? formula = some body ∧ Occurrence.IsTokenOf occurrence body ∧
    Address.Names occurrence.letters occurrence.digits address

/-- The address that a piece names. -/
def Piece.address? : Piece → Option Address
  | .gap _ => none
  | .token letters digits => Address.ofParts? letters digits

/-- The addresses that a formula names, in the order of its tokens. -/
def namedAddresses (formula : List Char) : List Address :=
  (formulaPieces formula).filterMap Piece.address?

section Names

variable {formula : List Char} {address : Address}

/-- The pieces of a formula name what it names. -/
theorem namesAddress_iff :
    NamesAddress formula address ↔
      ∃ piece ∈ formulaPieces formula, piece.address? = some address := by
  constructor
  · rintro ⟨body, o, hbody, htoken, hnames⟩
    have hmem : .token o.letters o.digits ∈ Piece.split body :=
      Cut.token_mem_iff.mpr ⟨o, ((Cut.isExact_ofPieces_split body).tokens o).mpr htoken, rfl, rfl⟩
    rw [formulaPieces_of_body hbody]
    exact ⟨_, hmem, Address.ofParts?_eq_some_iff.mpr hnames⟩
  · rintro ⟨piece, hpiece, hnames⟩
    cases hbody : formulaBody? formula with
    | none => simp [formulaPieces, hbody] at hpiece
    | some body =>
        rw [formulaPieces_of_body hbody] at hpiece
        cases piece with
        | gap text => cases hnames
        | token letters digits =>
            obtain ⟨o, ho, rfl, rfl⟩ := Cut.token_mem_iff.mp hpiece
            exact ⟨body, o, hbody, ((Cut.isExact_ofPieces_split body).tokens o).mp ho,
              Address.ofParts?_eq_some_iff.mp hnames⟩

theorem mem_namedAddresses_iff :
    address ∈ namedAddresses formula ↔ NamesAddress formula address :=
  List.mem_filterMap.trans namesAddress_iff.symm

instance (formula : List Char) (address : Address) : Decidable (NamesAddress formula address) :=
  decidable_of_iff _ mem_namedAddresses_iff

/-- Only addresses from column one and row one on are named. -/
theorem NamesAddress.pos (h : NamesAddress formula address) :
    0 < address.column ∧ 0 < address.row := by
  obtain ⟨body, o, -, -, hnames⟩ := h
  exact ⟨hnames.column_pos, hnames.row_pos⟩

end Names

namespace Sheet

variable (sheet : Sheet)

/-- A formula refers to a cell: it names the address, and the cell holds a formula. -/
def RefersTo (formula : List Char) (cell : Address) : Prop :=
  NamesAddress formula cell ∧ (sheet.formulaAt? cell).isSome = true

instance (formula : List Char) (cell : Address) : Decidable (sheet.RefersTo formula cell) :=
  inferInstanceAs (Decidable (_ ∧ _))

/-- A formula cell refers to another. -/
def CellRefersTo (source target : Address) : Prop :=
  ∃ text, sheet.formulaAt? source = some text ∧ sheet.RefersTo text target

/-- A chain of references leads from a formula to a cell. -/
def Reaches (formula : List Char) (cell : Address) : Prop :=
  ∃ first, sheet.RefersTo formula first ∧ ReflTransGen sheet.CellRefersTo first cell

/-- A chain of references leads from a formula to a cell that transitively refers to itself. -/
def ReachesCycle (formula : List Char) : Prop :=
  ∃ cell, sheet.Reaches formula cell ∧ TransGen sheet.CellRefersTo cell cell

/-- A piece refers to a cell that holds a given formula. -/
def PieceCalls (piece : Piece) (callee : List Char) : Prop :=
  ∃ cell, piece.address? = some cell ∧ sheet.formulaAt? cell = some callee

/-- A formula refers to a cell that holds a given formula. -/
def Calls (formula callee : List Char) : Prop :=
  ∃ piece ∈ formulaPieces formula, sheet.PieceCalls piece callee

variable {sheet}

@[simp] theorem calls_trim (formula : List Char) :
    sheet.Calls (trim formula) = sheet.Calls formula := by
  funext callee
  simp [Calls]

theorem calls_of_refersTo {formula callee : List Char} {cell : Address}
    (h : sheet.RefersTo formula cell) (hcell : sheet.formulaAt? cell = some callee) :
    sheet.Calls formula callee := by
  obtain ⟨piece, hpiece, hnamed⟩ := namesAddress_iff.mp h.1
  exact ⟨piece, hpiece, cell, hnamed, hcell⟩

theorem exists_refersTo_of_calls {formula callee : List Char} (h : sheet.Calls formula callee) :
    ∃ cell, sheet.RefersTo formula cell ∧ sheet.formulaAt? cell = some callee := by
  obtain ⟨piece, hpiece, cell, hnamed, hcell⟩ := h
  exact ⟨cell, ⟨namesAddress_iff.mpr ⟨piece, hpiece, hnamed⟩, by simp [hcell]⟩, hcell⟩

theorem trim_of_calls {formula callee : List Char} (h : sheet.Calls formula callee) :
    trim callee = callee := by
  obtain ⟨_, -, _, -, hcell⟩ := h
  exact trim_of_formulaAt? hcell

theorem exists_body_of_calls {formula callee : List Char} (h : sheet.Calls formula callee) :
    ∃ body, formulaBody? callee = some body := by
  obtain ⟨_, -, _, -, hcell⟩ := h
  have hmarker := (formulaAt?_eq_some_iff.mp hcell).2
  rw [← trim_of_formulaAt? hcell] at hmarker
  exact Option.isSome_iff_exists.mp (isSome_formulaBody?_iff.mpr hmarker)

theorem exists_body_of_caller {formula callee : List Char} (h : sheet.Calls formula callee) :
    ∃ body, formulaBody? formula = some body := by
  obtain ⟨piece, hpiece, -⟩ := h
  cases hbody : formulaBody? formula with
  | none => simp [formulaPieces, hbody] at hpiece
  | some body => exact ⟨body, rfl⟩

/-- A chain of references between cells is a chain of calls between their texts. -/
theorem calls_of_cellRefersTo {source target : Address}
    (h : ReflTransGen sheet.CellRefersTo source target) {text : List Char}
    (hsource : sheet.formulaAt? source = some text) :
    ∃ text', sheet.formulaAt? target = some text' ∧ ReflTransGen sheet.Calls text text' := by
  induction h with
  | refl => exact ⟨text, hsource, ReflTransGen.refl⟩
  | @tail middle target _ hstep ih =>
      obtain ⟨text', hmiddle, hchain⟩ := ih
      obtain ⟨found, hfound, hrefers⟩ := hstep
      obtain rfl : text' = found := Option.some.inj (hmiddle.symm.trans hfound)
      obtain ⟨callee, hcallee⟩ := Option.isSome_iff_exists.mp hrefers.2
      exact ⟨callee, hcallee, hchain.tail (calls_of_refersTo hrefers hcallee)⟩

theorem calls_self_of_cellRefersTo {cell : Address} {text : List Char}
    (hcell : sheet.formulaAt? cell = some text) (h : TransGen sheet.CellRefersTo cell cell) :
    TransGen sheet.Calls text text := by
  obtain ⟨next, hstep, hrest⟩ := TransGen.head'_iff.mp h
  obtain ⟨found, hfound, hrefers⟩ := hstep
  obtain rfl : text = found := Option.some.inj (hcell.symm.trans hfound)
  obtain ⟨callee, hcallee⟩ := Option.isSome_iff_exists.mp hrefers.2
  obtain ⟨last, hlast, hchain⟩ := calls_of_cellRefersTo hrest hcallee
  obtain rfl : last = text := Option.some.inj (hlast.symm.trans hcell)
  exact TransGen.head' (calls_of_refersTo hrefers hcallee) hchain

theorem cellRefersTo_of_calls {text text' : List Char}
    (h : ReflTransGen sheet.Calls text text') {source : Address}
    (hsource : sheet.formulaAt? source = some text) :
    ∃ target, sheet.formulaAt? target = some text' ∧
      ReflTransGen sheet.CellRefersTo source target := by
  induction h with
  | refl => exact ⟨source, hsource, ReflTransGen.refl⟩
  | tail _ hcall ih =>
      obtain ⟨middle, hmiddle, hchain⟩ := ih
      obtain ⟨target, hrefers, htarget⟩ := exists_refersTo_of_calls hcall
      exact ⟨target, htarget, hchain.tail ⟨_, hmiddle, hrefers⟩⟩

/-- A text that transitively calls itself refers to a cell on a cycle. The chain may end in
another cell than it began in, but both have the same text and so the same first reference. -/
theorem exists_cycle_of_calls {text : List Char} (h : TransGen sheet.Calls text text) :
    ∃ next, sheet.RefersTo text next ∧ TransGen sheet.CellRefersTo next next := by
  obtain ⟨callee, hcall, hrest⟩ := TransGen.head'_iff.mp h
  obtain ⟨next, hrefers, hnext⟩ := exists_refersTo_of_calls hcall
  obtain ⟨last, hlast, hchain⟩ := cellRefersTo_of_calls hrest hnext
  exact ⟨next, hrefers, TransGen.tail' hchain ⟨text, hlast, hrefers⟩⟩

theorem exists_reaches_of_calls {formula callee : List Char}
    (h : TransGen sheet.Calls formula callee) :
    ∃ cell, sheet.Reaches formula cell ∧ sheet.formulaAt? cell = some callee := by
  obtain ⟨text, hcall, hrest⟩ := TransGen.head'_iff.mp h
  obtain ⟨first, hrefers, hfirst⟩ := exists_refersTo_of_calls hcall
  obtain ⟨cell, hcell, hchain⟩ := cellRefersTo_of_calls hrest hfirst
  exact ⟨cell, ⟨first, hrefers, hchain⟩, hcell⟩

theorem calls_of_reaches {formula : List Char} {cell : Address}
    (h : sheet.Reaches formula cell) :
    ∃ callee, sheet.formulaAt? cell = some callee ∧ TransGen sheet.Calls formula callee := by
  obtain ⟨first, hrefers, hchain⟩ := h
  obtain ⟨text, hfirst⟩ := Option.isSome_iff_exists.mp hrefers.2
  obtain ⟨callee, hcell, hrest⟩ := calls_of_cellRefersTo hchain hfirst
  exact ⟨callee, hcell, TransGen.head' (calls_of_refersTo hrefers hfirst) hrest⟩

theorem Reaches.tail {formula : List Char} {cell next : Address}
    (h : sheet.Reaches formula cell) (hnext : sheet.CellRefersTo cell next) :
    sheet.Reaches formula next := by
  obtain ⟨first, hrefers, hchain⟩ := h
  exact ⟨first, hrefers, hchain.tail hnext⟩

/-- Cycles of cells and cycles of texts are the same to a formula. -/
theorem reachesCycle_iff_calls {formula : List Char} :
    sheet.ReachesCycle formula ↔
      ∃ text, TransGen sheet.Calls formula text ∧ TransGen sheet.Calls text text := by
  constructor
  · rintro ⟨cell, hreaches, hcycle⟩
    obtain ⟨text, hcell, hchain⟩ := calls_of_reaches hreaches
    exact ⟨text, hchain, calls_self_of_cellRefersTo hcell hcycle⟩
  · rintro ⟨text, hchain, hcycle⟩
    obtain ⟨cell, hreaches, hcell⟩ := exists_reaches_of_calls hchain
    obtain ⟨next, hrefers, hnext⟩ := exists_cycle_of_calls hcycle
    exact ⟨next, hreaches.tail ⟨text, hcell, hrefers⟩, hnext⟩

end Sheet

end FormulaSheet
