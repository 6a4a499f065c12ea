import Mathlib.Tactic
import Fern.Text.Blank
import Fern.Text.Lines

/-!
Places and the lines they lie in.

* `Location.advanceOver_eq`: going over a text from any place is going over it from the beginning of
  a text, except that its first line does not begin in the first column.
* `Text.StandsAt`: the rest of a text from a place on.
* `Text.StandsAt.exists_row`: the line and the column of a character are those that the text
  before it leads to, however the lines end.
-/

namespace Fern

/-- The lines of a text are counted from where it begins, and so are the columns of its first
line. -/
lemma Location.advanceOver_eq (l : Location) (cs : List Char) :
    l.advanceOver cs = ⟨l.line + (start.advanceOver cs).line,
      if (start.advanceOver cs).line = 0 then l.column + (start.advanceOver cs).column
      else (start.advanceOver cs).column⟩ := by
  induction cs generalizing l with
  | nil => simp [start]
  | cons c cs ih =>
      rw [advanceOver_cons, advanceOver_cons, ih (l.advance c), ih (start.advance c)]
      generalize start.advanceOver cs = p
      by_cases hc : c = '\n'
      · simp [advance, hc, start, add_assoc]
      · by_cases hline : p.line = 0
        · simp [advance, hc, start, hline, add_assoc]
        · simp [advance, hc, start, hline]

namespace Text

/-- From the place `l` on, the rest of the text is `rest`. -/
def StandsAt (source : List Char) (l : Location) (rest : List Char) : Prop :=
  ∃ before, source = before ++ rest ∧ l = Location.start.advanceOver before

variable {before rest source : List Char} {c : Char} {l : Location}

/-- A line that begins with a character that is not a part of its end. -/
lemma lines_cons (h : c ≠ '\n') (h' : ¬ (c = '\r' ∧ rest.head? = some '\n')) :
    lines (c :: rest) = (c :: (lines rest).head?.getD []) :: (lines rest).tail := by
  have hlines := lines.eq_4 c rest (by rintro rfl; exact h rfl)
    (by rintro cs rfl rfl; exact h' ⟨rfl, rfl⟩)
  rw [hlines]
  cases lines rest <;> rfl

/-- Lines hold no newlines. -/
lemma newline_notMem_of_mem_lines {row : List Char} (h : row ∈ lines source) : '\n' ∉ row := by
  induction source generalizing row with
  | nil => cases h
  | cons d rest ih =>
      by_cases hd : d = '\n'
      · subst hd
        rcases List.mem_cons.mp h with rfl | h
        · exact List.not_mem_nil
        · exact ih h
      by_cases hd' : d = '\r' ∧ rest.head? = some '\n'
      · obtain ⟨rfl, hhead⟩ := hd'
        obtain ⟨rest, rfl⟩ := List.head?_eq_some_iff.mp hhead
        exact ih h
      rw [lines_cons hd hd'] at h
      rcases List.mem_cons.mp h with rfl | h
      · rw [List.mem_cons, not_or]
        refine ⟨Ne.symm hd, ?_⟩
        cases hrest : (lines rest).head? with
        | none => exact List.not_mem_nil
        | some first => exact ih (List.mem_of_mem_head? hrest)
      · exact ih (List.mem_of_mem_tail h)

/-- **Places and lines.** A character that is no part of the end of a line is in the line and the
column that the text before it leads to. -/
lemma exists_row (before rest : List Char) (hnewline : c ≠ '\n') (hreturn : c ≠ '\r') :
    ∃ row, (lines (before ++ c :: rest))[(Location.start.advanceOver before).line]? = some row ∧
      row[(Location.start.advanceOver before).column]? = some c := by
  induction before with
  | nil =>
      rw [List.nil_append, lines_cons hnewline (by simp [hreturn])]
      exact ⟨_, rfl, rfl⟩
  | cons d before ih =>
      obtain ⟨row, hrow, hcolumn⟩ := ih
      rw [Location.advanceOver_cons, List.cons_append]
      by_cases hd : d = '\n'
      · -- the rest of the text begins in the next line
        subst hd
        rw [Location.advanceOver_eq]
        generalize Location.start.advanceOver before = p at hrow hcolumn ⊢
        refine ⟨row, ?_, ?_⟩
        · simpa [lines, Location.advance, Location.start, Nat.add_comm 1] using hrow
        · simpa [Location.advance, Location.start] using hcolumn
      by_cases hd' : d = '\r' ∧ (before ++ c :: rest).head? = some '\n'
      · -- the newline after it ends the line at the same place
        obtain ⟨rfl, hhead⟩ := hd'
        cases before with
        | nil => simp [hnewline] at hhead
        | cons e before =>
            obtain rfl : e = '\n' := by simpa using hhead
            exact ⟨row, hrow, hcolumn⟩
      · rw [lines_cons hd hd', Location.advanceOver_eq]
        generalize Location.start.advanceOver before = p at hrow hcolumn ⊢
        obtain ⟨k, column⟩ := p
        cases k with
        | zero =>
            have hhead : (lines (before ++ c :: rest)).head? = some row := by
              rw [List.head?_eq_getElem?]
              exact hrow
            refine ⟨d :: row, ?_, ?_⟩
            · simp [Location.advance, Location.start, hd, hhead]
            · simpa [Location.advance, Location.start, hd, Nat.add_comm 1] using hcolumn
        | succ k =>
            refine ⟨row, ?_, hcolumn⟩
            simpa [Location.advance, Location.start, hd] using hrow

/-- A character that is no blank is in the line and the column of its place. -/
lemma StandsAt.exists_row (h : StandsAt source l (c :: rest)) (hc : isBlank c = false) :
    ∃ row, lineAt source l = some row ∧ row[l.column]? = some c := by
  obtain ⟨before, rfl, rfl⟩ := h
  refine Text.exists_row before rest ?_ ?_
  · rintro rfl
    exact absurd hc (by decide)
  · rintro rfl
    exact absurd hc (by decide)

end Text

end Fern
