import Mathlib.Data.List.Induction
import Mathlib.Tactic.Ring
import FormulaSheet.Address
import FormulaSheet.Proofs.Text.Run

/-!
# Columns and their letters

Column letters are bijective base 26: a letter counts its place in the alphabet, from one, times a
power of 26, and there is no letter for zero. So every positive number is written in exactly one
way, and reading letters fails exactly where their value leaves 64 bits: the columns on the way to
it only grow.

* `lettersValue`: what letters stand for, place by place.
* `columnOfLetters?_eq_some_iff`: which letters are read, and as which column.
* `lettersValue_columnLetters`, `columnLetters_lettersValue`: writing and reading are inverse.
-/

namespace FormulaSheet
namespace Address

open Text

/-- The number that letters stand for: each counts its place in the alphabet times a power of 26
that grows from right to left. -/
def lettersValue : List Char → Nat
  | [] => 0
  | c :: rest => letterValue c * 26 ^ rest.length + lettersValue rest

section Letters

variable {c : Char} {letters : List Char}

theorem letterValue_pos (c : Char) : 0 < letterValue c :=
  Nat.succ_pos _

theorem toNat_of_isUpper (h : c.isUpper = true) : 65 ≤ c.toNat ∧ c.toNat ≤ 90 := by
  rw [Char.isUpper, decide_eq_true_eq] at h
  exact h

theorem letterValue_le (h : c.isUpper = true) : letterValue c ≤ 26 := by
  have hrange := toNat_of_isUpper h
  have hA : 'A'.toNat = 65 := rfl
  unfold letterValue
  omega

/-- The letter of a place in the alphabet, counted from zero. -/
def letter (place : Nat) : Char :=
  Char.ofNat ('A'.toNat + place)

theorem letter_cases : ∀ place < 26,
    (letter place).isUpper = true ∧ letterValue (letter place) = place + 1 := by
  decide

theorem letter_letterValue (h : c.isUpper = true) : letter (letterValue c - 1) = c := by
  have hrange := toNat_of_isUpper h
  have hA : 'A'.toNat = 65 := rfl
  have hsum : 'A'.toNat + (letterValue c - 1) = c.toNat := by
    unfold letterValue
    omega
  rw [letter, hsum, Char.ofNat_toNat]

@[simp] theorem lettersValue_nil : lettersValue [] = 0 := rfl

/-- One more letter behind others moves these one place to the left. -/
theorem lettersValue_concat (letters : List Char) (c : Char) :
    lettersValue (letters ++ [c]) = lettersValue letters * 26 + letterValue c := by
  induction letters with
  | nil => simp [lettersValue]
  | cons d rest ih =>
      rw [List.cons_append, lettersValue, ih, lettersValue, List.length_append,
        List.length_singleton, Nat.pow_succ]
      ring

theorem lettersValue_pos (h : letters ≠ []) : 0 < lettersValue letters := by
  cases letters with
  | nil => exact absurd rfl h
  | cons c rest =>
      have hfirst : 0 < letterValue c * 26 ^ rest.length :=
        Nat.mul_pos (letterValue_pos c) (Nat.pow_pos (by decide))
      exact Nat.lt_of_lt_of_le hfirst (Nat.le_add_right _ _)

end Letters

section Reading

variable {letters : List Char} {start column : Nat}

theorem extendColumn?_eq_some_iff {c : Char} {next : Nat} :
    extendColumn? start c = some next ↔
      c.isUpper = true ∧ start * 26 + letterValue c = next ∧ next < wordLimit := by
  unfold extendColumn?
  split
  · next h =>
      rw [Option.some_inj]
      constructor
      · rintro rfl
        exact ⟨h.1, rfl, h.2⟩
      · exact fun hnext => hnext.2.1
  · next h =>
      refine iff_of_false (by simp) ?_
      rintro ⟨hupper, rfl, hlt⟩
      exact h ⟨hupper, hlt⟩

/-- Reading on from a column gives the value of all the letters if that fits into 64 bits. The
columns on the way are no larger, so none of them stops the reading. -/
theorem foldlM_extendColumn?_eq_some_iff (hstart : start < wordLimit) :
    letters.foldlM extendColumn? start = some column ↔
      (∀ c ∈ letters, c.isUpper = true) ∧
        start * 26 ^ letters.length + lettersValue letters = column ∧ column < wordLimit := by
  induction letters generalizing start with
  | nil =>
      simp only [List.foldlM_nil, Option.pure_def, Option.some_inj, List.length_nil, Nat.pow_zero,
        Nat.mul_one, lettersValue_nil, Nat.add_zero]
      constructor
      · rintro rfl
        exact ⟨List.forall_mem_nil _, rfl, hstart⟩
      · exact fun h => h.2.1
  | cons c rest ih =>
      have hexpand : start * 26 ^ (c :: rest).length + lettersValue (c :: rest) =
          (start * 26 + letterValue c) * 26 ^ rest.length + lettersValue rest := by
        rw [List.length_cons, lettersValue, Nat.pow_succ]
        ring
      have hgrows : start * 26 + letterValue c ≤
          (start * 26 + letterValue c) * 26 ^ rest.length :=
        Nat.le_mul_of_pos_right _ (Nat.pow_pos (by decide))
      rw [List.foldlM_cons, hexpand, List.forall_mem_cons]
      constructor
      · intro h
        obtain ⟨next, hnext, hrest⟩ := Option.bind_eq_some_iff.mp h
        obtain ⟨hupper, rfl, hlt⟩ := extendColumn?_eq_some_iff.mp hnext
        obtain ⟨hall, hvalue⟩ := (ih hlt).mp hrest
        exact ⟨⟨hupper, hall⟩, hvalue⟩
      · rintro ⟨⟨hupper, hall⟩, hvalue, hlt⟩
        have hnext : start * 26 + letterValue c < wordLimit := by omega
        refine Option.bind_eq_some_iff.mpr ⟨_, extendColumn?_eq_some_iff.mpr
          ⟨hupper, rfl, hnext⟩, (ih hnext).mpr ⟨hall, hvalue, hlt⟩⟩

theorem wordLimit_pos : 0 < wordLimit := by decide

/-- Exactly the runs of letters whose value fits into 64 bits are read, as this value. -/
theorem columnOfLetters?_eq_some_iff :
    columnOfLetters? letters = some column ↔
      IsRun Char.isUpper letters ∧ lettersValue letters = column ∧ column < wordLimit := by
  cases letters with
  | nil => exact iff_of_false (by simp [columnOfLetters?]) (by simp [isRun_iff])
  | cons c rest =>
      have hread : columnOfLetters? (c :: rest) = (c :: rest).foldlM extendColumn? 0 := rfl
      rw [hread, foldlM_extendColumn?_eq_some_iff wordLimit_pos, Nat.zero_mul, Nat.zero_add,
        isRun_iff]
      simp

end Reading

section Writing

variable {column : Nat}

theorem columnLettersBefore_zero (letters : List Char) :
    columnLettersBefore 0 letters = letters := by
  rw [columnLettersBefore, if_pos rfl]

theorem columnLettersBefore_of_pos (h : 0 < column) (letters : List Char) :
    columnLettersBefore column letters =
      columnLettersBefore ((column - 1) / 26) (letter ((column - 1) % 26) :: letters) := by
  rw [columnLettersBefore, if_neg (Nat.ne_of_gt h)]
  rfl

theorem columnLettersBefore_eq (column : Nat) (letters : List Char) :
    columnLettersBefore column letters = columnLetters column ++ letters := by
  induction column using Nat.strongRecOn generalizing letters with
  | ind column ih =>
      unfold columnLetters
      rcases Nat.eq_zero_or_pos column with rfl | hpos
      · rw [columnLettersBefore_zero, columnLettersBefore_zero, List.nil_append]
      · rw [columnLettersBefore_of_pos hpos, columnLettersBefore_of_pos hpos, ih _ (by omega),
          ih _ (by omega) [_], List.append_assoc]
        rfl

@[simp] theorem columnLetters_zero : columnLetters 0 = [] :=
  columnLettersBefore_zero []

/-- The last letter of a column tells its place in a turn of 26, and those before it the turn. -/
theorem columnLetters_of_pos (h : 0 < column) :
    columnLetters column = columnLetters ((column - 1) / 26) ++ [letter ((column - 1) % 26)] := by
  rw [columnLetters, columnLettersBefore_of_pos h, columnLettersBefore_eq]

theorem isUpper_of_mem_columnLetters {c : Char} (h : c ∈ columnLetters column) :
    c.isUpper = true := by
  induction column using Nat.strongRecOn with
  | ind column ih =>
      rcases Nat.eq_zero_or_pos column with rfl | hpos
      · rw [columnLetters_zero] at h
        cases h
      · rw [columnLetters_of_pos hpos, List.mem_append, List.mem_singleton] at h
        rcases h with h | rfl
        · exact ih _ (by omega) h
        · exact (letter_cases _ (Nat.mod_lt _ (by decide))).1

theorem lettersValue_columnLetters (column : Nat) :
    lettersValue (columnLetters column) = column := by
  induction column using Nat.strongRecOn with
  | ind column ih =>
      rcases Nat.eq_zero_or_pos column with rfl | hpos
      · rw [columnLetters_zero, lettersValue_nil]
      · have hlast := (letter_cases _ (Nat.mod_lt (column - 1) (by decide : 26 > 0))).2
        rw [columnLetters_of_pos hpos, lettersValue_concat, ih _ (by omega), hlast]
        omega

theorem isRun_columnLetters (h : 0 < column) : IsRun Char.isUpper (columnLetters column) := by
  refine ⟨fun hempty => ?_, fun c hc => isUpper_of_mem_columnLetters hc⟩
  have hvalue := lettersValue_columnLetters column
  rw [hempty, lettersValue_nil] at hvalue
  omega

/-- Letters are written again as they were read. -/
theorem columnLetters_lettersValue {letters : List Char}
    (h : ∀ c ∈ letters, c.isUpper = true) : columnLetters (lettersValue letters) = letters := by
  induction letters using List.reverseRecOn with
  | nil => exact columnLetters_zero
  | append_singleton front c ih =>
      have hupper := h c (by simp)
      have hpos := letterValue_pos c
      have hle := letterValue_le hupper
      have hquotient : (lettersValue front * 26 + letterValue c - 1) / 26 = lettersValue front := by
        omega
      have hrest : (lettersValue front * 26 + letterValue c - 1) % 26 = letterValue c - 1 := by
        omega
      rw [lettersValue_concat, columnLetters_of_pos (by omega), hquotient, hrest,
        letter_letterValue hupper, ih fun d hd => h d (List.mem_append_left _ hd)]

end Writing

end Address
end FormulaSheet
