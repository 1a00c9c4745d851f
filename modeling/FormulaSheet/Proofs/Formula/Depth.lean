import Mathlib
import FormulaSheet.Proofs.Formula.Cycle

/-!
# The limit on chains of references

A limit cuts exactly the formulas with a chain of references that is too long, and changes
nothing else. The length of a chain counts the formulas on it; a chain may pass through a cell
more than once, so the longest chain is infinite exactly if a cycle is reached.

* `Sheet.IsChain`, `Sheet.chainHeight`: chains, and the length of the longest.
* `chainHeight_eq_top_iff`: the height is infinite exactly if a cycle is reached.
* `evaluateFormula_maxDepth`: what a limit does to a formula.
-/

namespace FormulaSheet

open Text

namespace Sheet

/-- A chain of references from a formula, given by the cells that it passes through. -/
def IsChain (sheet : Sheet) : List Char → List Address → Prop
  | _, [] => True
  | formula, cell :: rest =>
      NamesAddress formula cell ∧
        ∃ callee, sheet.formulaAt? cell = some callee ∧ sheet.IsChain callee rest

/-- The number of formulas on the longest chain of references from a formula, which itself counts
one. -/
noncomputable def chainHeight (sheet : Sheet) (formula : List Char) : ℕ∞ :=
  ⨆ (chain : List Address) (_ : sheet.IsChain formula chain), ((chain.length + 1 : ℕ) : ℕ∞)

variable {sheet : Sheet} {formula callee : List Char}

theorem exists_calls_of_isChain {cell : Address} {rest : List Address}
    (h : sheet.IsChain formula (cell :: rest)) :
    ∃ callee, sheet.Calls formula callee ∧ sheet.IsChain callee rest := by
  obtain ⟨hnamed, callee, hcell, hrest⟩ := h
  exact ⟨callee, calls_of_refersTo ⟨hnamed, by simp [hcell]⟩ hcell, hrest⟩

theorem exists_isChain_of_calls (hcall : sheet.Calls formula callee) {rest : List Address}
    (h : sheet.IsChain callee rest) : ∃ cell, sheet.IsChain formula (cell :: rest) := by
  obtain ⟨cell, hrefers, hcell⟩ := exists_refersTo_of_calls hcall
  exact ⟨cell, hrefers.1, callee, hcell, h⟩

theorem chainHeight_le_iff {n : Nat} :
    sheet.chainHeight formula ≤ n ↔
      ∀ chain, sheet.IsChain formula chain → chain.length < n := by
  simp only [chainHeight, iSup_le_iff, Nat.cast_le, Nat.succ_le_iff]

theorem lt_chainHeight_iff {n : Nat} :
    n < sheet.chainHeight formula ↔
      ∃ chain, sheet.IsChain formula chain ∧ n ≤ chain.length := by
  rw [← not_le, chainHeight_le_iff]
  simp only [not_forall, not_lt, exists_prop]

theorem chainHeight_pos : 0 < sheet.chainHeight formula :=
  lt_chainHeight_iff.mpr ⟨[], trivial, Nat.le_refl _⟩

/-- A formula stands strictly above the formulas of finite height that it calls. -/
theorem chainHeight_lt_of_calls (hcall : sheet.Calls formula callee)
    (hfinite : sheet.chainHeight callee ≠ ⊤) :
    sheet.chainHeight callee < sheet.chainHeight formula := by
  obtain ⟨n, hn⟩ := ENat.ne_top_iff_exists.mp hfinite
  have hpos : 0 < n := by
    have h : 0 < sheet.chainHeight callee := chainHeight_pos
    rw [← hn] at h
    exact_mod_cast h
  have hlt : ((n - 1 : ℕ) : ℕ∞) < sheet.chainHeight callee := by
    rw [← hn]
    exact_mod_cast Nat.sub_lt hpos Nat.one_pos
  obtain ⟨rest, hrest, hlength⟩ := lt_chainHeight_iff.mp hlt
  obtain ⟨cell, hchain⟩ := exists_isChain_of_calls hcall hrest
  rw [← hn, lt_chainHeight_iff]
  refine ⟨cell :: rest, hchain, ?_⟩
  simp only [List.length_cons]
  omega

/-- Where no cycle is met, every step of a chain comes to a text that was not passed before. -/
theorem length_le_waiting {chain : List Address} {inFlight : List (List Char)}
    (hmeets : ¬ sheet.MeetsCycle formula inFlight) (hchain : sheet.IsChain formula chain) :
    chain.length ≤ sheet.waiting (trim formula :: inFlight) := by
  induction chain generalizing formula inFlight with
  | nil => exact Nat.zero_le _
  | cons cell rest ih =>
      obtain ⟨callee, hcall, hrest⟩ := exists_calls_of_isChain hchain
      have hcallee : ¬ sheet.MeetsCycle callee (trim formula :: inFlight) := fun h =>
        hmeets (meetsCycle_iff.mpr (Or.inr ⟨callee, hcall, h⟩))
      have hfresh : callee ∉ trim formula :: inFlight := fun h =>
        hcallee (meetsCycle_iff.mpr (Or.inl (by rwa [trim_of_calls hcall])))
      have hle := ih hcallee hrest
      have hlt := waiting_cons_lt (mem_formulaTexts_of_calls hcall) hfresh
      rw [trim_of_calls hcall] at hle
      simp only [List.length_cons]
      omega

theorem exists_isChain_of_reachesCycle (h : sheet.ReachesCycle formula) (n : Nat) :
    ∃ chain, sheet.IsChain formula chain ∧ chain.length = n := by
  induction n generalizing formula with
  | zero => exact ⟨[], trivial, rfl⟩
  | succ n ih =>
      obtain ⟨callee, hcall, hcycle⟩ := exists_calls_of_reachesCycle h
      obtain ⟨rest, hrest, hlength⟩ := ih hcycle
      obtain ⟨cell, hchain⟩ := exists_isChain_of_calls hcall hrest
      exact ⟨cell :: rest, hchain, by simp [hlength]⟩

/-- The height of a formula is infinite exactly if the formula reaches a cycle. -/
theorem chainHeight_eq_top_iff :
    sheet.chainHeight formula = ⊤ ↔ sheet.ReachesCycle formula := by
  constructor
  · intro htop
    by_contra hcycle
    have hle : sheet.chainHeight formula ≤ ((sheet.formulaCount + 1 : ℕ) : ℕ∞) := by
      rw [chainHeight_le_iff]
      intro chain hchain
      have hlength := length_le_waiting (fun h => hcycle (meetsCycle_nil_iff.mp h)) hchain
      have := sheet.waiting_le [trim formula]
      omega
    rw [htop, top_le_iff] at hle
    exact ENat.natCast_ne_top _ hle
  · intro hcycle
    rw [ENat.eq_top_iff_forall_gt]
    intro n
    obtain ⟨chain, hchain, hlength⟩ := exists_isChain_of_reachesCycle hcycle n
    exact lt_chainHeight_iff.mpr ⟨chain, hchain, hlength.ge⟩

end Sheet

section Limits

variable {sheet : Sheet} {limit : Nat}

theorem exceeded?_of_le {inFlight : List (List Char)} (h : limit ≤ inFlight.length) :
    (⟨some limit⟩ : EvalOptions).exceeded? inFlight = some limit := by
  simp [EvalOptions.exceeded?, h]

theorem exceeded?_of_lt {inFlight : List (List Char)} (h : inFlight.length < limit) :
    (⟨some limit⟩ : EvalOptions).exceeded? inFlight = none := by
  simp [EvalOptions.exceeded?, h]

/-- A limit that no chain exceeds, counting the formulas in flight, changes nothing. -/
theorem evaluate_limited_eq (formula : List Char) (inFlight : List (List Char))
    (h : ∀ chain, sheet.IsChain formula chain → inFlight.length + chain.length < limit) :
    (evaluate sheet ⟨some limit⟩ formula inFlight).result =
      (evaluate sheet {} formula inFlight).result := by
  induction formula, inFlight using nesting_induction sheet with
  | step formula inFlight ih =>
      have hlimit : (⟨some limit⟩ : EvalOptions).exceeded? inFlight =
          ({} : EvalOptions).exceeded? inFlight := exceeded?_of_lt (h [] trivial)
      refine evaluate_result_congr Iff.rfl hlimit fun hfresh piece hpiece =>
        Sheet.pieceText_congr fun callee hcall => ?_
      have hcalls : sheet.Calls formula callee := ⟨piece, hpiece, hcall⟩
      refine ih callee hcalls hfresh fun rest hrest => ?_
      obtain ⟨cell, hchain⟩ := Sheet.exists_isChain_of_calls hcalls hrest
      have := h _ hchain
      simp only [List.length_cons] at this ⊢
      omega

/-- A chain that exceeds the limit makes its formula fail. -/
theorem not_degradable_of_isChain {formula body : List Char} {chain : List Address}
    {inFlight : List (List Char)} (hbody : formulaBody? formula = some body)
    (hchain : sheet.IsChain formula chain) (h : limit ≤ inFlight.length + chain.length) :
    ¬ Degradable (evaluate sheet ⟨some limit⟩ formula inFlight).result := by
  induction chain generalizing formula body inFlight with
  | nil => exact not_degradable_of_exceeded hbody (exceeded?_of_le h)
  | cons cell rest ih =>
      obtain ⟨callee, hcall, hrest⟩ := Sheet.exists_calls_of_isChain hchain
      obtain ⟨body', hbody'⟩ := Sheet.exists_body_of_calls hcall
      refine not_degradable_of_calls hcall (ih hbody' hrest ?_)
      simp only [List.length_cons] at h ⊢
      omega

end Limits

section Heights

variable {sheet : Sheet} {formula : String} {limit : Nat}

theorem evaluateFormula_of_chainHeight_le
    (h : sheet.chainHeight formula.toList ≤ limit) :
    evaluateFormula sheet ⟨some limit⟩ formula = evaluateFormula sheet {} formula := by
  refine evaluate_limited_eq formula.toList [] fun chain hchain => ?_
  simpa using Sheet.chainHeight_le_iff.mp h chain hchain

theorem exists_structural_of_lt_chainHeight (hformula : isFormula formula = true)
    (h : limit < sheet.chainHeight formula.toList) :
    ∃ error, evaluateFormula sheet ⟨some limit⟩ formula = .error error ∧
      error.isStructural = true := by
  obtain ⟨body, hbody⟩ := isFormula_iff_body.mp hformula
  obtain ⟨chain, hchain, hlength⟩ := Sheet.lt_chainHeight_iff.mp h
  exact not_degradable_iff.mp (not_degradable_of_isChain hbody hchain (by simpa using hlength))

theorem maxDepthExceeded_of_structural {error : EvalError}
    (h : evaluateFormula sheet ⟨some limit⟩ formula = .error error)
    (hs : error.isStructural = true) (hcycle : ¬ sheet.ReachesCycle formula.toList) :
    error = .maxDepthExceeded limit := by
  rcases structural_error_cases formula.toList [] h hs with rfl | ⟨found, hfound, rfl⟩
  · exact absurd (meetsCycle_nil_iff.mp (meetsCycle_of_circular formula.toList [] h)) hcycle
  · cases hfound
    rfl

end Heights

/-- A limit cuts exactly the chains that are too long. Under a limit below its height, which is
infinite if it reaches a cycle, a formula fails with a structural error, and with that of the
limit if it reaches no cycle; under any other limit its outcome is the unlimited one. So an
answer that is no structural error stays the same under every higher limit and without one. -/
theorem evaluateFormula_maxDepth (sheet : Sheet) (formula : String)
    (hformula : isFormula formula = true) (limit : Nat) :
    (sheet.chainHeight formula.toList = ⊤ ↔ sheet.ReachesCycle formula.toList) ∧
      (sheet.chainHeight formula.toList ≤ limit →
        evaluateFormula sheet ⟨some limit⟩ formula = evaluateFormula sheet {} formula) ∧
      (limit < sheet.chainHeight formula.toList →
        (∃ error, evaluateFormula sheet ⟨some limit⟩ formula = .error error ∧
          error.isStructural = true) ∧
        (¬ sheet.ReachesCycle formula.toList →
          evaluateFormula sheet ⟨some limit⟩ formula = .error (.maxDepthExceeded limit))) ∧
      (Degradable (evaluateFormula sheet ⟨some limit⟩ formula) →
        evaluateFormula sheet {} formula = evaluateFormula sheet ⟨some limit⟩ formula ∧
        ∀ higher, limit ≤ higher →
          evaluateFormula sheet ⟨some higher⟩ formula =
            evaluateFormula sheet ⟨some limit⟩ formula) := by
  refine ⟨Sheet.chainHeight_eq_top_iff, evaluateFormula_of_chainHeight_le, fun h => ?_,
    fun hanswer => ?_⟩
  · obtain ⟨error, hresult, hs⟩ := exists_structural_of_lt_chainHeight hformula h
    refine ⟨⟨error, hresult, hs⟩, fun hcycle => ?_⟩
    rw [hresult, maxDepthExceeded_of_structural hresult hs hcycle]
  · have hle : sheet.chainHeight formula.toList ≤ limit := by
      by_contra hlt
      obtain ⟨error, hresult, hs⟩ :=
        exists_structural_of_lt_chainHeight hformula (not_le.mp hlt)
      rw [hanswer error hresult] at hs
      cases hs
    have hlimit := evaluateFormula_of_chainHeight_le hle
    refine ⟨hlimit.symm, fun higher hhigher => ?_⟩
    rw [hlimit]
    exact evaluateFormula_of_chainHeight_le (hle.trans (by exact_mod_cast hhigher))

/-- A chain of three formula cells: A1 refers to B1, and B1 to C1. -/
def chainedSheet : Sheet :=
  ⟨[Row.empty, Row.ofList [(1, "=B1+1"), (2, "=C1+1"), (3, "=1")]]⟩

/-- A reference to A1 makes four formulas: the limit three cuts it, and no higher one does. -/
theorem evaluateFormula_maxDepth_chained :
    isFormula "=A1" = true ∧
      ((3 : ℕ) : ℕ∞) < chainedSheet.chainHeight "=A1".toList ∧
      evaluateFormula chainedSheet ⟨some 3⟩ "=A1" = .error (.maxDepthExceeded 3) ∧
      ∀ higher, 4 ≤ higher →
        evaluateFormula chainedSheet ⟨some higher⟩ "=A1" =
          evaluateFormula chainedSheet {} "=A1" := by
  have hformula : isFormula "=A1" = true := by decide
  have hheight : ((3 : ℕ) : ℕ∞) < chainedSheet.chainHeight "=A1".toList := by
    rw [Sheet.lt_chainHeight_iff]
    refine ⟨[⟨1, 1⟩, ⟨2, 1⟩, ⟨3, 1⟩], ⟨by decide, "=B1+1".toList, by decide, ?_⟩, Nat.le_refl _⟩
    exact ⟨by decide, "=C1+1".toList, by decide, by decide, "=1".toList, by decide, trivial⟩
  have hcycle : ¬ chainedSheet.ReachesCycle "=A1".toList := by
    rw [← evaluate_circular_iff]
    decide +kernel
  have hanswer : Degradable (evaluateFormula chainedSheet ⟨some 4⟩ "=A1") := by
    have h : evaluateFormula chainedSheet ⟨some 4⟩ "=A1" =
        .ok (Binary64.ofBits 0x4008000000000000) := by decide +kernel
    rw [h]
    exact degradable_ok _
  obtain ⟨-, -, hcut, -⟩ := evaluateFormula_maxDepth chainedSheet "=A1" hformula 3
  obtain ⟨-, -, -, hkept⟩ := evaluateFormula_maxDepth chainedSheet "=A1" hformula 4
  obtain ⟨-, hexceeded⟩ := hcut hheight
  obtain ⟨hsame, hhigher⟩ := hkept hanswer
  refine ⟨hformula, hheight, hexceeded hcycle, fun higher hfour => ?_⟩
  rw [hhigher higher hfour, hsame]

end FormulaSheet
