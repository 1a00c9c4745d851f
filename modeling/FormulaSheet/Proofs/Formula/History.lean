import FormulaSheet.Proofs.Formula.Cycle

/-!
# What happens in the course of an evaluation

The history of an evaluation lists, among other events, the formulas that come in flight, each
with those that are in flight before it. Such a formula is the evaluated one or comes in flight
in the evaluation of a formula that it calls.

* `entered_resolve_cases`, `entered_cases`: the formulas that come in flight.
* `not_meetsCycle_of_entered`: away from cycles they all come in flight away from cycles.
-/

namespace FormulaSheet

open Text Resolving

theorem Resolving.mem_history_bind {α β : Type} {x : Resolving α} {f : α → Resolving β}
    (hx : Restores x) {inFlight : List (List Char)} {event : Event}
    (h : event ∈ ((x >>= f) inFlight).history) :
    event ∈ (x inFlight).history ∨ ∃ a, event ∈ (f a inFlight).history := by
  cases hresult : (x inFlight).result with
  | error error =>
      rw [bind_of_error hresult] at h
      exact Or.inl h
  | ok a =>
      rw [bind_of_ok hresult, hx inFlight] at h
      exact (List.mem_append.mp h).imp_right fun h => ⟨a, h⟩

section Events

variable {sheet : Sheet} {nested : List Char → Resolving Binary64}
variable {inFlight entered : List (List Char)}

theorem entered_calledValue (hn : ∀ text, Restores (nested text)) {token callee : List Char}
    (h : .entered entered ∈ (calledValue nested token callee inFlight).history) :
    .entered entered ∈ (nested callee inFlight).history := by
  rcases mem_history_bind (restores_attempt (hn callee)) h with h | ⟨result, h⟩
  · exact h
  · cases result with
    | ok number => simp [value] at h
    | error error =>
        cases hs : error.isStructural with
        | true => simp [hs, fail, Resolving.ofExcept] at h
        | false =>
            exact absurd (by simpa [hs] using h) ((settles_degrade _ _).not_entered _ _)

theorem entered_referenceValue (hn : ∀ text, Restores (nested text)) {letters digits : List Char}
    (h : .entered entered ∈ (referenceValue sheet nested letters digits inFlight).history) :
    ∃ callee, sheet.PieceCalls (.token letters digits) callee ∧
      .entered entered ∈ (nested callee inFlight).history := by
  rcases referenceValue_cases sheet letters digits with
    ⟨number, x, -, hsettles, hx⟩ | ⟨callee, -, hcall, hcalled⟩
  · rw [hx] at h
    exact absurd h (hsettles.not_entered _ _)
  · rw [hcalled] at h
    exact ⟨callee, hcall, entered_calledValue hn h⟩

theorem entered_substitute (hn : ∀ text, Restores (nested text)) {pieces : List Piece}
    (h : .entered entered ∈ (substitute sheet nested pieces inFlight).history) :
    ∃ piece ∈ pieces, ∃ callee, sheet.PieceCalls piece callee ∧
      .entered entered ∈ (nested callee inFlight).history := by
  induction pieces with
  | nil => simp [substitute, value] at h
  | cons piece rest ih =>
      have hrest : .entered entered ∈ (substitute sheet nested rest inFlight).history →
          ∃ other ∈ piece :: rest, ∃ callee, sheet.PieceCalls other callee ∧
            .entered entered ∈ (nested callee inFlight).history := by
        intro hentered
        obtain ⟨other, hother, hcall⟩ := ih hentered
        exact ⟨other, List.mem_cons_of_mem _ hother, hcall⟩
      cases piece with
      | gap text =>
          rcases mem_history_bind (restores_substitute hn rest) h with h | ⟨_, h⟩
          · exact hrest h
          · simp [value] at h
      | token letters digits =>
          rcases mem_history_bind (restores_referenceValue hn letters digits) h with h | ⟨_, h⟩
          · obtain ⟨callee, hcall, h⟩ := entered_referenceValue hn h
            exact ⟨_, List.mem_cons_self, callee, hcall, h⟩
          · rcases mem_history_bind (restores_substitute hn rest) h with h | ⟨_, h⟩
            · exact hrest h
            · simp [value] at h

theorem entered_bodyExpression (hn : ∀ text, Restores (nested text)) {formula : List Char}
    (h : .entered entered ∈ (bodyExpression sheet nested formula inFlight).history) :
    entered = trim formula :: inFlight ∨ ∃ callee, sheet.Calls formula callee ∧
      .entered entered ∈ (nested callee (trim formula :: inFlight)).history := by
  rcases mem_history_bind (restores_within _ (restores_substitute hn _)) h with h | ⟨_, h⟩
  · rcases List.mem_cons.mp h with h | h
    · exact Or.inl (Event.entered.inj h)
    · obtain ⟨piece, hpiece, callee, hcall, h⟩ := entered_substitute hn h
      exact Or.inr ⟨callee, ⟨piece, hpiece, hcall⟩, h⟩
  · rcases mem_history_bind (restores_report _) h with h | ⟨_, h⟩
    · simp [report] at h
    · simp [value] at h

/-- A formula that comes in flight in a resolution is the resolved one, which was not in flight
before, or comes in flight for a formula that it calls. -/
theorem entered_resolve_cases {options : EvalOptions} {formula : List Char}
    (h : .entered entered ∈ (resolve sheet options formula inFlight).history) :
    trim formula ∉ inFlight ∧ options.exceeded? inFlight = none ∧
      (entered = trim formula :: inFlight ∨ ∃ callee, sheet.Calls formula callee ∧
        .entered entered ∈
          (evaluate sheet options callee (trim formula :: inFlight)).history) := by
  unfold resolve at h
  rcases resolveWith_cases sheet options formula inFlight with
    ⟨error, herror⟩ | ⟨hfresh, hlimit, hbody⟩
  · simp [herror, fail, Resolving.ofExcept] at h
  · rw [hbody] at h
    exact ⟨hfresh, hlimit, entered_bodyExpression restores_evaluate h⟩

/-- The same for an evaluation, which lets no formula come in flight beside its resolution. -/
theorem entered_cases {options : EvalOptions} {formula : List Char}
    (h : .entered entered ∈ (evaluate sheet options formula inFlight).history) :
    trim formula ∉ inFlight ∧ options.exceeded? inFlight = none ∧
      (entered = trim formula :: inFlight ∨ ∃ callee, sheet.Calls formula callee ∧
        .entered entered ∈
          (evaluate sheet options callee (trim formula :: inFlight)).history) := by
  rw [evaluate_eq] at h
  rcases mem_history_bind (restores_resolveWith restores_evaluate formula) h with h | ⟨_, h⟩
  · exact entered_resolve_cases h
  · simp [Resolving.ofExcept] at h

/-- In the evaluation of a formula that meets no cycle, every formula that comes in flight meets
no cycle there. -/
theorem not_meetsCycle_of_entered {options : EvalOptions} (formula : List Char)
    (inFlight : List (List Char)) (hmeets : ¬ sheet.MeetsCycle formula inFlight)
    (h : .entered entered ∈ (evaluate sheet options formula inFlight).history) :
    ∃ text before, entered = text :: before ∧ ¬ sheet.MeetsCycle text before := by
  induction formula, inFlight using nesting_induction sheet with
  | step formula inFlight ih =>
      obtain ⟨hfresh, -, rfl | ⟨callee, hcall, h⟩⟩ := entered_cases h
      · refine ⟨trim formula, inFlight, rfl, ?_⟩
        rwa [meetsCycle_trim]
      · refine ih callee hcall hfresh (fun hcallee => hmeets ?_) h
        exact meetsCycle_iff.mpr (Or.inr ⟨callee, hcall, hcallee⟩)

end Events

end FormulaSheet
