import Mathlib

/-!
# Runs of characters

A run is a part of a text whose characters are all of one kind. Where the next character is of
another kind, the run ends, and so a text begins with one run of a kind only.

* `IsRun`: runs that are not empty.
* `takeWhile_run`, `dropWhile_run`: a run is split from what follows it.
* `run_append_inj`: it is determined by the whole text.
-/

namespace FormulaSheet
namespace Text

/-- Characters of one kind, at least one. -/
structure IsRun (kind : Char → Bool) (cs : List Char) : Prop where
  ne_nil : cs ≠ []
  mem : ∀ c ∈ cs, kind c = true

theorem isRun_iff {kind : Char → Bool} {cs : List Char} :
    IsRun kind cs ↔ cs ≠ [] ∧ ∀ c ∈ cs, kind c = true :=
  ⟨fun h => ⟨h.ne_nil, h.mem⟩, fun h => ⟨h.1, h.2⟩⟩

instance (kind : Char → Bool) (cs : List Char) : Decidable (IsRun kind cs) :=
  decidable_of_iff _ isRun_iff.symm

section Runs

variable {kind : Char → Bool} {run rest : List Char}

/-- What begins with a run begins with a character of its kind. -/
theorem IsRun.kind_head {c : Char} (h : IsRun kind run) (hc : c ∈ (run ++ rest).head?) :
    kind c = true := by
  rw [List.head?_append_of_ne_nil _ h.ne_nil] at hc
  exact h.mem c (List.mem_of_mem_head? hc)

theorem IsRun.reverse (h : IsRun kind run) : IsRun kind run.reverse :=
  ⟨by simpa using h.ne_nil, by simpa using h.mem⟩

end Runs

section Splitting

variable {α : Type} {kind : α → Bool} {run rest run' rest' : List α}

theorem takeWhile_run (hrun : ∀ c ∈ run, kind c = true)
    (hrest : ∀ c ∈ rest.head?, kind c = false) : (run ++ rest).takeWhile kind = run := by
  rw [List.takeWhile_append_of_pos hrun]
  cases rest with
  | nil => simp
  | cons c cs => simp [hrest c rfl]

theorem dropWhile_run (hrun : ∀ c ∈ run, kind c = true)
    (hrest : ∀ c ∈ rest.head?, kind c = false) : (run ++ rest).dropWhile kind = rest := by
  rw [List.dropWhile_append_of_pos hrun]
  cases rest with
  | nil => rfl
  | cons c cs => simp [hrest c rfl]

theorem head?_dropWhile (kind : α → Bool) (cs : List α) :
    ∀ c ∈ (cs.dropWhile kind).head?, kind c = false := by
  intro c hc
  have h := List.head?_dropWhile_not kind cs
  rw [Option.mem_def.mp hc] at h
  simpa using h

theorem run_append_inj (hrun : ∀ c ∈ run, kind c = true)
    (hrest : ∀ c ∈ rest.head?, kind c = false) (hrun' : ∀ c ∈ run', kind c = true)
    (hrest' : ∀ c ∈ rest'.head?, kind c = false) (h : run ++ rest = run' ++ rest') :
    run = run' ∧ rest = rest' := by
  constructor
  · rw [← takeWhile_run hrun hrest, h, takeWhile_run hrun' hrest']
  · rw [← dropWhile_run hrun hrest, h, dropWhile_run hrun' hrest']

end Splitting

theorem isUpper_of_isDigit {c : Char} (h : c.isDigit = true) : c.isUpper = false := by
  obtain ⟨-, hhigh⟩ := Char.isDigit_iff_toNat.mp h
  have hA : ¬ 'A'.toNat ≤ c.toNat := fun hle =>
    absurd (Nat.le_trans hle hhigh) (by decide)
  rw [Char.isUpper, decide_eq_false_iff_not]
  exact fun hupper => hA hupper.1

end Text
end FormulaSheet
