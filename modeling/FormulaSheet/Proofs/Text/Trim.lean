import Mathlib.Data.List.DropRight
import FormulaSheet.Text.Blank

/-!
# Trimmed texts

What is left of a text without the white space at its ends: trimming twice changes nothing more,
and a text that begins with a character other than white space keeps it.

* `trim_trim`: trimming is idempotent.
* `head?_trim`: the first character that is not blank is the first of the trimmed text.
* `trim_eq_self`: a text without white space at its ends is left as it is.
* `trim_padded`: white space around a text makes no difference.
* `toList_trimmed`: the same operation on strings.
-/

namespace FormulaSheet
namespace Text

theorem trimEnd_eq_rdropWhile (cs : List Char) :
    trimEnd cs = cs.rdropWhile isBlank := rfl

/-- A first character that is not blank survives trimming at the end. -/
theorem trimEnd_cons {c : Char} (h : isBlank c = false) (cs : List Char) :
    trimEnd (c :: cs) = c :: trimEnd cs := by
  simp only [trimEnd_eq_rdropWhile]
  induction cs using List.reverseRecOn with
  | nil =>
      simp [List.rdropWhile_singleton, h]
  | append_singleton cs d ih =>
      rw [← List.cons_append, List.rdropWhile_concat, List.rdropWhile_concat]
      split
      · exact ih
      · rfl

theorem trimStart_cases (cs : List Char) :
    trimStart cs = [] ∨
      ∃ c rest, isBlank c = false ∧ trimStart cs = c :: rest := by
  cases h : trimStart cs with
  | nil => exact Or.inl rfl
  | cons c rest =>
      have hc := List.head?_dropWhile_not isBlank cs
      have hd : cs.dropWhile isBlank = c :: rest := h
      rw [hd] at hc
      exact Or.inr ⟨c, rest, by simpa using hc, rfl⟩

theorem head?_trim (cs : List Char) :
    (trim cs).head? = (trimStart cs).head? := by
  unfold trim
  rcases trimStart_cases cs with h | ⟨c, rest, hc, h⟩
  · rw [h]
    rfl
  · rw [h, trimEnd_cons hc]
    rfl

theorem trimStart_cons {c : Char} (h : isBlank c = false) (cs : List Char) :
    trimStart (c :: cs) = c :: cs := by
  simp [trimStart, h]

@[simp] theorem trim_trim (cs : List Char) : trim (trim cs) = trim cs := by
  have hidem : ∀ ds, trimEnd (trimEnd ds) = trimEnd ds := by
    intro ds
    simp only [trimEnd_eq_rdropWhile, List.rdropWhile_idempotent]
  unfold trim
  rcases trimStart_cases cs with h | ⟨c, rest, hc, h⟩
  · rw [h]
    rfl
  · rw [h, trimEnd_cons hc, trimStart_cons hc, trimEnd_cons hc, hidem]

/-- A text without white space at its ends is left as it is. -/
theorem trim_eq_self_of_ends {cs : List Char} (hhead : ∀ c ∈ cs.head?, isBlank c = false)
    (hlast : ∀ c ∈ cs.getLast?, isBlank c = false) : trim cs = cs := by
  have hstart : trimStart cs = cs := by
    cases cs with
    | nil => rfl
    | cons c rest => exact trimStart_cons (hhead c rfl) rest
  rw [trim, hstart, trimEnd_eq_rdropWhile, List.rdropWhile_eq_self_iff]
  intro hne
  simp [hlast _ (List.getLast?_eq_some_getLast hne)]

theorem trim_eq_self {cs : List Char} (h : ∀ c ∈ cs, isBlank c = false) : trim cs = cs :=
  trim_eq_self_of_ends (fun c hc => h c (List.mem_of_mem_head? hc))
    fun c hc => h c (List.mem_of_getLast? hc)

section Padding

variable {before after : List Char}

theorem trimStart_append_of_blank (h : ∀ c ∈ before, isBlank c = true) (cs : List Char) :
    trimStart (before ++ cs) = trimStart cs :=
  List.dropWhile_append_of_pos h

theorem trimEnd_append_of_blank (h : ∀ c ∈ after, isBlank c = true) (cs : List Char) :
    trimEnd (cs ++ after) = trimEnd cs := by
  have hreverse : ∀ c ∈ after.reverse, isBlank c = true := by simpa using h
  rw [trimEnd, List.reverse_append, List.dropWhile_append_of_pos hreverse, trimEnd]

/-- White space around a text makes no difference. -/
theorem trim_padded (hbefore : ∀ c ∈ before, isBlank c = true)
    (hafter : ∀ c ∈ after, isBlank c = true) (cs : List Char) :
    trim (before ++ (cs ++ after)) = trim cs := by
  rw [trim, trimStart_append_of_blank hbefore, trim]
  rcases trimStart_cases cs with h | ⟨c, rest, hc, h⟩
  · have hblank : ∀ c ∈ cs, isBlank c = true := List.dropWhile_eq_nil_iff.mp h
    have hnone : trimStart after = [] := List.dropWhile_eq_nil_iff.mpr hafter
    rw [trimStart_append_of_blank hblank, hnone, h]
  · have happend : trimStart (cs ++ after) = trimStart cs ++ after := by
      have hne : (cs.dropWhile isBlank).isEmpty = false := by
        rw [show cs.dropWhile isBlank = c :: rest from h]
        rfl
      rw [trimStart, List.dropWhile_append, hne]
      rfl
    rw [happend, trimEnd_append_of_blank hafter]

end Padding

/-- A string that is kept as it is has no white space at either end. -/
theorem blank_ends_of_not_hasBlankEnd {s : String} (h : hasBlankEnd s = false) :
    (∀ c ∈ s.toList.head?, isBlank c = false) ∧ ∀ c ∈ s.toList.getLast?, isBlank c = false := by
  by_cases hempty : s = ""
  · subst hempty
    simp
  · have hne : s.isEmpty = false := by rwa [← Bool.not_eq_true, String.isEmpty_iff]
    rw [hasBlankEnd, hne, Bool.not_false, Bool.true_and, Bool.or_eq_false_iff, String.front_eq,
      String.front?_eq, String.back_eq, String.back?_eq] at h
    refine ⟨fun c hc => ?_, fun c hc => ?_⟩
    · simpa [Option.mem_def.mp hc] using h.1
    · simpa [Option.mem_def.mp hc] using h.2

theorem toList_trimmed (s : String) : (trimmed s).toList = trim s.toList := by
  unfold trimmed
  split
  · exact String.toList_ofList
  · next hends =>
      obtain ⟨hhead, hlast⟩ := blank_ends_of_not_hasBlankEnd (by simpa using hends)
      exact (trim_eq_self_of_ends hhead hlast).symm

end Text
end FormulaSheet
