import Mathlib
import FormulaSheet.Formula.Piece
import FormulaSheet.Proofs.Text.Run

/-!
# Where a text is cut

An address token is a run of letters with a run of digits behind it. Wherever such a match stands
in a text, it lies in a *whole* match: one that takes in all letters before its digits and all
digits after its letters. A cut of the text shows it as gaps with tokens between them; it is exact
if its tokens are the whole matches, each at its place. There is exactly one such cut, and it is
read off the pieces of the text.

* `Occurrence`, `Occurrence.IsWhole`: matches with the text around them, and the whole ones.
* `Cut`, `Cut.IsExact`: gaps and tokens, and the cut at the whole matches.
* `isExact_ofPieces_split`: the pieces of a text are its exact cut.
* `IsExact.eq`: there is no other.
-/

namespace FormulaSheet

open Text

/-- A text around a run of letters and a run of digits behind it. -/
@[ext] structure Occurrence where
  before : List Char
  letters : List Char
  digits : List Char
  after : List Char

namespace Occurrence

def text (o : Occurrence) : List Char :=
  o.before ++ (o.letters ++ (o.digits ++ o.after))

/-- There is at least one letter, and at least one digit behind the letters. -/
structure IsMatch (o : Occurrence) : Prop where
  letters : IsRun Char.isUpper o.letters
  digits : IsRun Char.isDigit o.digits

/-- No letter stands directly before the match, and no digit directly after it. -/
structure IsWhole (o : Occurrence) : Prop extends IsMatch o where
  before : ∀ c ∈ o.before.getLast?, c.isUpper = false
  after : ∀ c ∈ o.after.head?, c.isDigit = false

/-- A whole match in a text. -/
structure IsTokenOf (o : Occurrence) (body : List Char) : Prop where
  text : o.text = body
  whole : o.IsWhole

/-- One match lies in another. -/
structure LiesIn (o whole : Occurrence) : Prop where
  before : whole.before <+: o.before
  after : whole.after <:+ o.after

/-- The same match with more text in front of it. -/
def behind (front : List Char) (o : Occurrence) : Occurrence :=
  { o with before := front ++ o.before }

section Matches

variable {o : Occurrence} {body : List Char}

/-- A digit is no letter. -/
theorem IsMatch.isUpper_head? (h : o.IsMatch) (rest : List Char) :
    ∀ c ∈ (o.digits ++ rest).head?, c.isUpper = false :=
  fun _ hc => isUpper_of_isDigit (h.digits.kind_head hc)

/-- Every match lies in a whole match. -/
theorem exists_isTokenOf (h : o.IsMatch) : ∃ whole, whole.IsTokenOf o.text ∧ o.LiesIn whole := by
  have hfront : o.before = o.before.rdropWhile Char.isUpper ++ o.before.rtakeWhile Char.isUpper :=
    List.rdropWhile_append_rtakeWhile.symm
  have hback : o.after = o.after.takeWhile Char.isDigit ++ o.after.dropWhile Char.isDigit :=
    List.takeWhile_append_dropWhile.symm
  refine ⟨⟨o.before.rdropWhile Char.isUpper, o.before.rtakeWhile Char.isUpper ++ o.letters,
    o.digits ++ o.after.takeWhile Char.isDigit, o.after.dropWhile Char.isDigit⟩, ⟨?_, ⟨?_, ?_⟩, ?_,
    ?_⟩, ?_, ?_⟩
  · simp only [text, List.append_assoc]
    rw [← hback, ← List.append_assoc, ← hfront]
  · refine ⟨List.append_ne_nil_of_right_ne_nil _ h.letters.ne_nil, fun c hc => ?_⟩
    rcases List.mem_append.mp hc with hc | hc
    · exact List.mem_rtakeWhile_imp hc
    · exact h.letters.mem c hc
  · refine ⟨List.append_ne_nil_of_left_ne_nil h.digits.ne_nil _, fun c hc => ?_⟩
    rcases List.mem_append.mp hc with hc | hc
    · exact h.digits.mem c hc
    · exact List.mem_takeWhile_imp hc
  · intro c hc
    have hne := List.ne_nil_of_mem (List.mem_of_getLast? hc)
    have hlast := List.rdropWhile_last_not Char.isUpper o.before hne
    rw [List.getLast?_eq_some_getLast hne, Option.mem_some] at hc
    rw [hc] at hlast
    simpa using hlast
  · exact head?_dropWhile Char.isDigit o.after
  · exact List.rdropWhile_prefix _ _
  · exact List.dropWhile_suffix _

end Matches

section Positions

variable {o : Occurrence} {front letters digits body : List Char}

/-- Text in front of a match leaves it whole if it does not end in a letter. -/
theorem isTokenOf_behind_iff (hlast : ∀ c ∈ front.getLast?, c.isUpper = false) :
    (o.behind front).IsTokenOf (front ++ body) ↔ o.IsTokenOf body := by
  have htext : (o.behind front).text = front ++ body ↔ o.text = body := by
    simp [text, behind]
  constructor
  · intro h
    refine ⟨htext.mp h.text, ⟨h.whole.letters, h.whole.digits⟩, fun c hc => h.whole.before c ?_,
      h.whole.after⟩
    have hne := List.ne_nil_of_mem (List.mem_of_getLast? hc)
    rwa [behind, List.getLast?_append_of_ne_nil _ hne]
  · intro h
    refine ⟨htext.mpr h.text, ⟨h.whole.letters, h.whole.digits⟩, fun c hc => ?_, h.whole.after⟩
    by_cases hempty : o.before = []
    · rw [behind, hempty, List.append_nil] at hc
      exact hlast c hc
    · rw [behind, List.getLast?_append_of_ne_nil _ hempty] at hc
      exact h.whole.before c hc

/-- A match that begins behind a part of the text is a match of what follows this part. -/
theorem exists_behind (h : o.text = front ++ body) (hlength : front.length ≤ o.before.length) :
    ∃ inner : Occurrence, o = inner.behind front := by
  have hprefix : front <+: o.before :=
    List.prefix_of_prefix_length_le (h ▸ List.prefix_append front body)
      (List.prefix_append o.before _) hlength
  obtain ⟨before, hbefore⟩ := hprefix
  exact ⟨{ o with before := before }, by rw [behind, hbefore]⟩

/-- Letters at the front of a text are the letters of a token, if one begins among them. -/
theorem IsTokenOf.letters_eq (h : o.IsTokenOf (letters ++ body))
    (hletters : ∀ c ∈ letters, c.isUpper = true) (hbody : ∀ c ∈ body.head?, c.isUpper = false)
    (hlength : o.before.length < letters.length) :
    o.before = [] ∧ o.letters = letters ∧ o.digits ++ o.after = body := by
  have hbefore : o.before <+: letters := by
    have htext : o.before <+: letters ++ body := by
      rw [← h.text]
      exact List.prefix_append o.before _
    exact List.prefix_of_prefix_length_le htext (List.prefix_append letters body) hlength.le
  have hempty : o.before = [] := by
    by_contra hne
    have hlast := h.whole.before _ (List.getLast?_eq_some_getLast hne)
    rw [hletters _ (hbefore.subset (List.getLast_mem hne))] at hlast
    cases hlast
  have htext : o.letters ++ (o.digits ++ o.after) = letters ++ body := by
    rw [← h.text, Occurrence.text, hempty, List.nil_append]
  exact ⟨hempty, run_append_inj h.whole.letters.mem (h.whole.isUpper_head? _) hletters hbody htext⟩

/-- A token begins with a letter. -/
theorem IsTokenOf.isUpper_of_before {c : Char} (h : o.IsTokenOf (front ++ c :: body))
    (hbefore : o.before.length = front.length) : c.isUpper = true := by
  obtain ⟨inner, rfl⟩ := exists_behind h.text hbefore.ge
  have hempty : inner.before = [] := by simpa [behind] using hbefore
  have htext : inner.letters ++ (inner.digits ++ inner.after) = c :: body := by
    have hsame := h.text
    simp only [behind, hempty, List.append_nil] at hsame
    exact List.append_cancel_left hsame
  have hhead : c ∈ (inner.letters ++ (inner.digits ++ inner.after)).head? := by
    rw [htext]
    rfl
  exact h.whole.letters.kind_head hhead

/-- No token begins among characters that are no letters. -/
theorem IsTokenOf.length_le_before {run : List Char} (h : o.IsTokenOf (front ++ run ++ body))
    (hrun : ∀ c ∈ run, c.isUpper = false) (hlength : front.length ≤ o.before.length) :
    (front ++ run).length ≤ o.before.length := by
  induction run generalizing front with
  | nil => rwa [List.append_nil]
  | cons c run ih =>
      obtain ⟨hc, hrun⟩ := List.forall_mem_cons.mp hrun
      rw [List.append_cons] at h ⊢
      refine ih h hrun ?_
      rcases Nat.lt_or_eq_of_le hlength with hlt | heq
      · simpa using hlt
      · rw [List.append_assoc, List.append_assoc] at h
        rw [h.isUpper_of_before heq.symm] at hc
        cases hc

/-- No token begins among letters that no digit follows, nor at a character that is no letter. -/
theorem isTokenOf_gap_iff {c : Char} (hletters : ∀ d ∈ letters, d.isUpper = true)
    (hupper : c.isUpper = false) (hdigit : letters = [] ∨ c.isDigit = false) :
    o.IsTokenOf (letters ++ [c] ++ body) ↔
      ∃ inner : Occurrence, inner.IsTokenOf body ∧ o = inner.behind (letters ++ [c]) := by
  have hlast : ∀ d ∈ (letters ++ [c]).getLast?, d.isUpper = false := by simpa using hupper
  constructor
  · intro h
    have hlength : (letters ++ [c]).length ≤ o.before.length := by
      rcases Nat.lt_or_ge o.before.length letters.length with hlt | hge
      · have hcons : o.IsTokenOf (letters ++ c :: body) := by simpa using h
        obtain ⟨-, -, hrest⟩ := hcons.letters_eq hletters (by simpa using hupper) hlt
        have hnext : c ∈ (o.digits ++ o.after).head? := by
          rw [hrest]
          rfl
        have hnone : c.isDigit = false :=
          hdigit.resolve_left (List.ne_nil_of_length_pos (by omega))
        rw [h.whole.digits.kind_head hnext] at hnone
        cases hnone
      · exact h.length_le_before (by simpa using hupper) hge
    obtain ⟨inner, rfl⟩ := exists_behind h.text hlength
    exact ⟨inner, (isTokenOf_behind_iff hlast).mp h, rfl⟩
  · rintro ⟨inner, h, rfl⟩
    exact (isTokenOf_behind_iff hlast).mpr h

/-- Letters alone hold no token. -/
theorem not_isTokenOf_letters (hletters : ∀ c ∈ letters, c.isUpper = true) :
    ¬ o.IsTokenOf letters := by
  intro h
  obtain ⟨c, hc⟩ := List.exists_mem_of_ne_nil _ h.whole.digits.ne_nil
  have hmem : c ∈ letters := by
    rw [← h.text, text]
    simp [hc]
  have hupper := hletters c hmem
  rw [isUpper_of_isDigit (h.whole.digits.mem c hc)] at hupper
  cases hupper

/-- A run of letters with a run of digits behind it is a token, and the others begin behind it. -/
theorem isTokenOf_token_iff (hletters : IsRun Char.isUpper letters)
    (hdigits : IsRun Char.isDigit digits) (hbody : ∀ c ∈ body.head?, c.isDigit = false) :
    o.IsTokenOf (letters ++ digits ++ body) ↔
      o = ⟨[], letters, digits, body⟩ ∨
        ∃ inner : Occurrence, inner.IsTokenOf body ∧ o = inner.behind (letters ++ digits) := by
  have hupper : ∀ c ∈ digits, c.isUpper = false := fun c hc => isUpper_of_isDigit (hdigits.mem c hc)
  have hlast : ∀ c ∈ (letters ++ digits).getLast?, c.isUpper = false := by
    intro c hc
    rw [List.getLast?_append_of_ne_nil _ hdigits.ne_nil] at hc
    exact hupper c (List.mem_of_getLast? hc)
  constructor
  · intro h
    have hassoc : o.IsTokenOf (letters ++ (digits ++ body)) := by
      rwa [← List.append_assoc]
    rcases Nat.lt_or_ge o.before.length letters.length with hlt | hge
    · left
      obtain ⟨hempty, hsame, hrest⟩ := hassoc.letters_eq hletters.mem
        (fun c hc => isUpper_of_isDigit (hdigits.kind_head hc)) hlt
      obtain ⟨hrun, hafter⟩ :=
        run_append_inj h.whole.digits.mem h.whole.after hdigits.mem hbody hrest
      exact Occurrence.ext hempty hsame hrun hafter
    · right
      obtain ⟨inner, rfl⟩ := exists_behind h.text (h.length_le_before hupper hge)
      exact ⟨inner, (isTokenOf_behind_iff hlast).mp h, rfl⟩
  · rintro (rfl | ⟨inner, h, rfl⟩)
    · exact ⟨by simp [text], ⟨hletters, hdigits⟩, by simp, hbody⟩
    · exact (isTokenOf_behind_iff hlast).mpr h

end Positions

end Occurrence

/-- A text as gaps with tokens between them; it begins and ends with a gap, which may be empty. -/
inductive Cut
  | last (gap : List Char)
  | token (gap letters digits : List Char) (rest : Cut)
  deriving DecidableEq

namespace Cut

/-- The gaps as they are, and for each token the text that a function gives for it. -/
def fill (value : List Char → List Char → List Char) : Cut → List Char
  | last gap => gap
  | token gap letters digits rest => gap ++ (value letters digits ++ rest.fill value)

/-- The whole text, with the tokens as they are. -/
def text (cut : Cut) : List Char :=
  cut.fill (· ++ ·)

/-- The tokens with the text around them, in order. -/
def occurrences : Cut → List Occurrence
  | last _ => []
  | token gap letters digits rest =>
      ⟨gap, letters, digits, rest.text⟩ ::
        rest.occurrences.map (Occurrence.behind (gap ++ letters ++ digits))

/-- The tokens of a cut are all the whole matches in a text, each at its place. -/
structure IsExact (cut : Cut) (body : List Char) : Prop where
  text : cut.text = body
  tokens : ∀ o, o ∈ cut.occurrences ↔ o.IsTokenOf body

/-- More text in the first gap. -/
def extend (front : List Char) : Cut → Cut
  | last gap => last (front ++ gap)
  | token gap letters digits rest => token (front ++ gap) letters digits rest

/-- The pieces of a text as a cut: pieces that are gaps are put together. -/
def ofPieces : List Piece → Cut
  | [] => last []
  | .gap text :: rest => (ofPieces rest).extend text
  | .token letters digits :: rest => token [] letters digits (ofPieces rest)

@[simp] theorem text_token (gap letters digits : List Char) (rest : Cut) :
    (token gap letters digits rest).text = gap ++ (letters ++ digits ++ rest.text) := rfl

@[simp] theorem fill_extend (front : List Char) (value : List Char → List Char → List Char)
    (cut : Cut) : (cut.extend front).fill value = front ++ cut.fill value := by
  cases cut <;> simp [extend, fill]

@[simp] theorem text_extend (front : List Char) (cut : Cut) :
    (cut.extend front).text = front ++ cut.text :=
  fill_extend front _ cut

theorem extend_extend (front back : List Char) (cut : Cut) :
    (cut.extend back).extend front = cut.extend (front ++ back) := by
  cases cut <;> simp [extend]

theorem occurrences_extend (front : List Char) (cut : Cut) :
    (cut.extend front).occurrences = cut.occurrences.map (Occurrence.behind front) := by
  cases cut with
  | last gap => rfl
  | token gap letters digits rest =>
      simp [extend, occurrences, Occurrence.behind, Function.comp_def]

section Uniqueness

variable {cut other : Cut} {body : List Char}

/-- One match begins before another. -/
def Precedes (o other : Occurrence) : Prop :=
  o.before.length < other.before.length

instance : Std.Irrefl Precedes :=
  ⟨fun o => Nat.lt_irrefl o.before.length⟩

instance : Std.Antisymm Precedes :=
  ⟨fun _ _ h h' => absurd h (Nat.lt_asymm h')⟩

/-- The tokens of a cut are listed from left to right. -/
theorem pairwise_occurrences (h : ∀ o ∈ cut.occurrences, o.letters ≠ []) :
    cut.occurrences.Pairwise Precedes := by
  induction cut with
  | last gap => exact List.Pairwise.nil
  | token gap letters digits rest ih =>
      rw [occurrences, List.forall_mem_cons, List.forall_mem_map] at h
      have hletters : 0 < letters.length := List.length_pos_of_ne_nil h.1
      rw [occurrences, List.pairwise_cons, List.forall_mem_map, List.pairwise_map]
      refine ⟨fun o _ => ?_, (ih h.2).imp fun hlt => ?_⟩
      · simp only [Precedes, Occurrence.behind, List.length_append]
        omega
      · simp only [Precedes, Occurrence.behind, List.length_append] at hlt ⊢
        omega

/-- A cut is determined by its text and its tokens. -/
theorem eq_of_occurrences (htext : cut.text = other.text)
    (h : cut.occurrences = other.occurrences) : cut = other := by
  induction cut generalizing other with
  | last gap =>
      cases other with
      | last gap' => exact congrArg last htext
      | token gap' letters' digits' rest' => cases h
  | token gap letters digits rest ih =>
      cases other with
      | last gap' => cases h
      | token gap' letters' digits' rest' =>
          rw [occurrences, occurrences, List.cons.injEq, Occurrence.mk.injEq] at h
          obtain ⟨⟨rfl, rfl, rfl, hrest⟩, htokens⟩ := h
          have hinj : Function.Injective (Occurrence.behind (gap ++ letters ++ digits)) := by
            intro o o' heq
            rw [Occurrence.behind, Occurrence.behind, Occurrence.mk.injEq] at heq
            obtain ⟨hbefore, hletters, hdigits, hafter⟩ := heq
            exact Occurrence.ext (List.append_cancel_left hbefore) hletters hdigits hafter
          rw [ih hrest (List.map_injective_iff.mpr hinj htokens)]

/-- There is only one exact cut of a text. -/
theorem IsExact.eq (h : cut.IsExact body) (hother : other.IsExact body) : cut = other := by
  have hsorted : ∀ {cut : Cut}, cut.IsExact body → cut.occurrences.Pairwise Precedes :=
    fun h => pairwise_occurrences fun o ho => ((h.tokens o).mp ho).whole.letters.ne_nil
  refine eq_of_occurrences (h.text.trans hother.text.symm) ?_
  exact (hsorted h).eq_of_mem_iff (hsorted hother)
    fun o => (h.tokens o).trans (hother.tokens o).symm

end Uniqueness

section Pieces

variable {cut : Cut} {letters digits body : List Char}

/-- Letters that no digit follows, and a character behind them that is none, belong to a gap. -/
theorem IsExact.extend {c : Char} (h : cut.IsExact body)
    (hletters : ∀ d ∈ letters, d.isUpper = true) (hupper : c.isUpper = false)
    (hdigit : letters = [] ∨ c.isDigit = false) :
    (cut.extend (letters ++ [c])).IsExact (letters ++ [c] ++ body) where
  text := by rw [text_extend, h.text]
  tokens := by
    intro o
    rw [occurrences_extend, List.mem_map, Occurrence.isTokenOf_gap_iff hletters hupper hdigit]
    simp only [h.tokens, eq_comm (a := o)]

theorem isExact_last (hletters : ∀ c ∈ letters, c.isUpper = true) :
    (last letters).IsExact letters where
  text := rfl
  tokens := fun _ => iff_of_false List.not_mem_nil (Occurrence.not_isTokenOf_letters hletters)

theorem IsExact.token (h : cut.IsExact body) (hletters : IsRun Char.isUpper letters)
    (hdigits : IsRun Char.isDigit digits) (hbody : ∀ c ∈ body.head?, c.isDigit = false) :
    (Cut.token [] letters digits cut).IsExact (letters ++ digits ++ body) where
  text := by simp [h.text]
  tokens := by
    intro o
    rw [occurrences, List.mem_cons, List.mem_map, h.text,
      Occurrence.isTokenOf_token_iff hletters hdigits hbody]
    simp only [h.tokens, List.nil_append, eq_comm (a := o)]

/-- Letters that end without a digit are put into the gap that follows them. -/
theorem ofPieces_flush_nil (letters : List Char) (rest : List Piece) :
    ofPieces (Piece.flush letters [] rest) = (ofPieces rest).extend letters.reverse := by
  by_cases h : letters = []
  · rw [Piece.flush, if_pos h, h, List.reverse_nil]
    cases ofPieces rest <;> rfl
  · rw [Piece.flush, if_neg h, if_pos rfl]
    rfl

/-- Letters with digits behind them become a token. -/
theorem isExact_ofPieces_flush {rest : List Piece} (h : (ofPieces rest).IsExact body)
    (hletters : IsRun Char.isUpper letters) (hdigits : IsRun Char.isDigit digits)
    (hbody : ∀ c ∈ body.head?, c.isDigit = false) :
    (ofPieces (Piece.flush letters digits rest)).IsExact
      (letters.reverse ++ digits.reverse ++ body) := by
  rw [Piece.flush, if_neg hletters.ne_nil, if_neg hdigits.ne_nil]
  exact h.token hletters.reverse hdigits.reverse hbody

/-- A character that belongs to no token ends the runs in front of it. -/
theorem isExact_ofPieces_gap {rest : List Piece} {c : Char} (h : (ofPieces rest).IsExact body)
    (hletters : ∀ d ∈ letters, d.isUpper = true) (hdigits : ∀ d ∈ digits, d.isDigit = true)
    (hempty : digits ≠ [] → letters ≠ []) (hupper : c.isUpper = false)
    (hdigit : ¬ (c.isDigit = true ∧ letters ≠ [])) :
    (ofPieces (Piece.flush letters digits (.gap [c] :: rest))).IsExact
      (letters.reverse ++ digits.reverse ++ c :: body) := by
  by_cases hnone : digits = []
  · have hgap : letters.reverse = [] ∨ c.isDigit = false := by
      rwa [List.reverse_eq_nil_iff, ← Bool.not_eq_true, or_comm, ← not_not (a := letters = []),
        ← not_and_or]
    have hreverse : ∀ d ∈ letters.reverse, d.isUpper = true := by simpa using hletters
    rw [hnone, ofPieces_flush_nil, ofPieces, extend_extend]
    simpa using h.extend hreverse hupper hgap
  · have hgap : (ofPieces (.gap [c] :: rest)).IsExact (c :: body) :=
      h.extend (List.forall_mem_nil _) hupper (Or.inl rfl)
    refine isExact_ofPieces_flush hgap ⟨hempty hnone, hletters⟩ ⟨hnone, hdigits⟩ ?_
    simpa [hempty hnone] using hdigit

/-- The pieces that follow runs of letters and digits are an exact cut, together with the runs. -/
theorem isExact_ofPieces_splitAfter (cs : List Char)
    (hletters : ∀ c ∈ letters, c.isUpper = true) (hdigits : ∀ c ∈ digits, c.isDigit = true)
    (hempty : digits ≠ [] → letters ≠ []) :
    (ofPieces (Piece.splitAfter letters digits cs)).IsExact
      (letters.reverse ++ digits.reverse ++ cs) := by
  induction cs generalizing letters digits with
  | nil =>
      rw [Piece.splitAfter]
      by_cases hnone : digits = []
      · subst hnone
        have hreverse : ∀ c ∈ letters.reverse, c.isUpper = true := by simpa using hletters
        rw [ofPieces_flush_nil]
        simpa [ofPieces, Cut.extend] using isExact_last hreverse
      · exact isExact_ofPieces_flush (isExact_last (List.forall_mem_nil _))
          ⟨hempty hnone, hletters⟩ ⟨hnone, hdigits⟩ nofun
  | cons c cs ih =>
      unfold Piece.splitAfter
      split
      · next hc =>
          obtain ⟨hupper, rfl⟩ := hc
          have hmore : ∀ d ∈ c :: letters, d.isUpper = true := by simpa [hupper] using hletters
          simpa using ih hmore hdigits fun _ => List.cons_ne_nil _ _
      · next hletter =>
          split
          · next hc =>
              have hmore : ∀ d ∈ c :: digits, d.isDigit = true := by simpa [hc.1] using hdigits
              simpa using ih hletters hmore fun _ => hc.2
          · next hdigit =>
              split
              · next hupper =>
                  have hnone : digits ≠ [] := fun hnil => hletter ⟨hupper, hnil⟩
                  have hletter : ∀ d ∈ [c], d.isUpper = true := by simpa using hupper
                  have hrest : (ofPieces (Piece.splitAfter [c] [] cs)).IsExact (c :: cs) :=
                    ih hletter (List.forall_mem_nil _) (by simp)
                  refine isExact_ofPieces_flush hrest ⟨hempty hnone, hletters⟩ ⟨hnone, hdigits⟩ ?_
                  simpa [hempty hnone] using hdigit
              · next hupper =>
                  rw [Bool.not_eq_true] at hupper
                  have hrest : (ofPieces (Piece.splitAfter [] [] cs)).IsExact cs :=
                    ih (List.forall_mem_nil _) (List.forall_mem_nil _) id
                  exact isExact_ofPieces_gap hrest hletters hdigits hempty hupper hdigit

theorem isExact_ofPieces_split (body : List Char) :
    (ofPieces (Piece.split body)).IsExact body :=
  isExact_ofPieces_splitAfter body (List.forall_mem_nil _) (List.forall_mem_nil _) fun h => h

/-- The tokens of a cut are those among its pieces. -/
theorem token_mem_iff {pieces : List Piece} :
    .token letters digits ∈ pieces ↔
      ∃ o ∈ (ofPieces pieces).occurrences, o.letters = letters ∧ o.digits = digits := by
  induction pieces with
  | nil => simp [ofPieces, occurrences]
  | cons piece rest ih =>
      cases piece with
      | gap text => simp [ofPieces, occurrences_extend, ih, Occurrence.behind]
      | token letters' digits' =>
          simp [ofPieces, occurrences, ih, Occurrence.behind, eq_comm]

/-- The tokens among the pieces of a text are runs of letters with runs of digits. -/
theorem isRun_of_token_mem_split (h : .token letters digits ∈ Piece.split body) :
    IsRun Char.isUpper letters ∧ IsRun Char.isDigit digits := by
  obtain ⟨o, ho, rfl, rfl⟩ := token_mem_iff.mp h
  have hwhole := ((isExact_ofPieces_split body).tokens o).mp ho
  exact ⟨hwhole.whole.letters, hwhole.whole.digits⟩

end Pieces

end Cut

end FormulaSheet
