import Mathlib.Data.List.TakeWhile
import Mathlib.Tactic
import Fern.Diagnostic.Render
import Fern.Proofs.Text.Places

/-!
The excerpt in a report.

* `Diagnostic.CaretUnder`: a report quotes a line of the source, and the caret in the line below
  stands under a given character.
* `Text.getElem?_trimEnd`: trimming blanks off the end leaves every other character in its place.
* `Diagnostic.caretUnder_of_row`: the caret stands under the reported character, unless that is a
  blank.
-/

namespace Fern

namespace Text

variable {cs : List Char} {c : Char} {i : ℕ}

/-- What is trimmed off the end of a text is blank. -/
lemma exists_trimEnd (cs : List Char) :
    ∃ blanks, cs = trimEnd cs ++ blanks ∧ ∀ b ∈ blanks, isBlank b := by
  refine ⟨(cs.reverse.takeWhile isBlank).reverse, ?_, fun b hb => ?_⟩
  · rw [trimEnd, ← List.reverse_append, List.takeWhile_append_dropWhile, List.reverse_reverse]
  · exact List.mem_takeWhile_imp (List.mem_reverse.mp hb)

/-- A character that is no blank keeps its place when blanks are trimmed off the end. -/
lemma getElem?_trimEnd (h : cs[i]? = some c) (hc : isBlank c = false) :
    (trimEnd cs)[i]? = some c := by
  obtain ⟨blanks, hsplit, hblanks⟩ := exists_trimEnd cs
  by_cases hi : i < (trimEnd cs).length
  · rwa [hsplit, List.getElem?_append_left hi] at h
  · rw [hsplit, List.getElem?_append_right (Nat.le_of_not_lt hi)] at h
    have hblank := hblanks c (List.mem_of_getElem? h)
    simp [hc] at hblank

end Text

namespace Diagnostic

open Text

variable {d : Diagnostic} {source row : List Char} {c : Char}

/-- The report on `d` quotes the line `row` of the source, after its number and from some character
on, and in the line below there is one caret. It stands under the quoted character `c` that has the
number of the reported column in `row`. -/
def CaretUnder (d : Diagnostic) (source : List Char) (file : String) (row : List Char) (c : Char) :
    Prop :=
  ∃ (quoted shown marker : List Char) (removed offset : ℕ),
    (d.render source file).toList = (d.headline file ++ d.margin "|").toList ++ '\n' :: quoted
      ++ '\n' :: marker ++ '\n' :: d.remarks.toList ∧
    '\n' ∉ quoted ∧ '\n' ∉ marker ∧
    quoted = (d.lineNumber ++ " | ").toList ++ shown ∧ shown <+: row.drop removed ∧
    removed ≤ d.location.column ∧
    offset = d.lineNumber.length + 3 + (d.location.column - removed) ∧
    quoted[offset]? = some c ∧ marker[offset]? = some '^' ∧ marker.count '^' = 1

/-- Indentation is blank. -/
lemma isBlank_of_isIndent (h : isIndent c) : isBlank c := by
  simp only [isIndent, Bool.or_eq_true, decide_eq_true_eq] at h
  rcases h with rfl | rfl <;> decide

/-- A character that is no blank comes after the indentation of its line. -/
lemma getElem?_dropWhile_isIndent {column : ℕ} (h : row[column]? = some c)
    (hc : isBlank c = false) :
    (row.takeWhile isIndent).length ≤ column ∧
      (row.dropWhile isIndent)[column - (row.takeWhile isIndent).length]? = some c := by
  have hle : (row.takeWhile isIndent).length ≤ column := by
    by_contra hlt
    rw [← List.takeWhile_append_dropWhile (p := isIndent) (l := row),
      List.getElem?_append_left (Nat.lt_of_not_le hlt)] at h
    have hindent : isIndent c := List.mem_takeWhile_imp (List.mem_of_getElem? h)
    simp [isBlank_of_isIndent hindent] at hc
  refine ⟨hle, ?_⟩
  rw [← List.getElem?_append_right hle, List.takeWhile_append_dropWhile]
  exact h

/-- The number of a line has no newline in it. -/
lemma newline_notMem_lineNumber (d : Diagnostic) : '\n' ∉ d.lineNumber.toList := by
  intro h
  rw [lineNumber, Nat.toString_eq_repr, Nat.toList_repr] at h
  exact absurd (Nat.isDigit_of_mem_toDigits (by decide) (by decide) h) (by decide)

/-- The line that quotes a row of the source: its number, and the row without its indentation and
final blanks. -/
def quotation (d : Diagnostic) (row : List Char) : List Char :=
  (d.lineNumber ++ " | ").toList ++ trimEnd (row.dropWhile isIndent)

/-- The line with the caret, `column` characters after the margin. -/
def underline (d : Diagnostic) (column : ℕ) : List Char :=
  (d.margin "|").toList ++ [' '] ++ List.replicate column '-' ++ ['^']

lemma toList_render (file : String) (hrow : lineAt source d.location = some row) :
    (d.render source file).toList = (d.headline file ++ d.margin "|").toList
      ++ '\n' :: d.quotation row
      ++ '\n' :: d.underline (d.location.column - (row.takeWhile isIndent).length)
      ++ '\n' :: d.remarks.toList := by
  simp [render, excerpt, hrow, quotation, underline, caret]

/-- The characters of a row are quoted after its number. -/
lemma getElem?_quotation (d : Diagnostic) (row : List Char) (i : ℕ) :
    (d.quotation row)[d.lineNumber.length + 3 + i]? = (trimEnd (row.dropWhile isIndent))[i]? := by
  have hlength : (d.lineNumber ++ " | ").toList.length = d.lineNumber.length + 3 := by
    rw [String.length_toList, String.length_append]
    rfl
  rw [quotation, ← hlength, List.getElem?_append_right (Nat.le_add_right _ _),
    Nat.add_sub_cancel_left]

/-- The caret stands `column` characters after the margin. -/
lemma getElem?_underline (d : Diagnostic) (column : ℕ) :
    (d.underline column)[d.lineNumber.length + 3 + column]? = some '^' := by
  have hlength : ((d.margin "|").toList ++ [' '] ++ List.replicate column '-').length
      = d.lineNumber.length + 3 + column := by
    simp [margin]
    omega
  rw [underline, ← hlength, List.getElem?_concat_length]

lemma drop_length_takeWhile_isIndent (row : List Char) :
    row.drop (row.takeWhile isIndent).length = row.dropWhile isIndent := by
  have hsplit := List.takeWhile_append_dropWhile (p := isIndent) (l := row)
  rw [← congrArg (List.drop _) hsplit, List.drop_left]

/-- **The caret.** If the reported character is in a line of the source and no blank, the caret
stands under it. -/
lemma caretUnder_of_row (file : String) (hrow : lineAt source d.location = some row)
    (hc : row[d.location.column]? = some c) (hblank : isBlank c = false) :
    d.CaretUnder source file row c := by
  obtain ⟨hle, hafter⟩ := getElem?_dropWhile_isIndent hc hblank
  obtain ⟨blanks, htrim, -⟩ := exists_trimEnd (row.dropWhile isIndent)
  have hshown : trimEnd (row.dropWhile isIndent) <+: row.drop (row.takeWhile isIndent).length := by
    rw [drop_length_takeWhile_isIndent]
    exact ⟨blanks, htrim.symm⟩
  refine ⟨d.quotation row, _, d.underline (d.location.column - (row.takeWhile isIndent).length),
    _, _, toList_render file hrow, ?_, ?_, rfl, hshown, hle, rfl, ?_, d.getElem?_underline _, ?_⟩
  · have hnewline : '\n' ∉ row := newline_notMem_of_mem_lines (List.mem_of_getElem? hrow)
    have hrest : '\n' ∉ trimEnd (row.dropWhile isIndent) := fun h =>
      hnewline (List.mem_of_mem_drop (hshown.subset h))
    simp [quotation, d.newline_notMem_lineNumber, hrest]
  · simp [underline, margin]
  · rw [getElem?_quotation]
    exact getElem?_trimEnd hafter hblank
  · simp [underline, margin, List.count_append, List.count_replicate]

end Diagnostic

end Fern
