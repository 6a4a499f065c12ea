import Mathlib.Tactic
import Fern.Proofs.Diagnostic.Excerpt
import Fern.Proofs.Lexing.Beginnings
import Fern.Proofs.Typing.Findings
import Fern.Proofs.Typing.Table

/-!
Every report points at the text that it is about.

* `findings`: what the passes over a source text record, one after the other.
* `liesIn_findings`: all of it is about places where tokens begin, or the text that is no token.
* `findings_point_at_text`: **where findings point**.
-/

namespace Fern

open Text Token

/-- What is recorded about a source text by reading its tokens, then its program, and then checking
the types, each only if the pass before it has a result. A parsed program can always be checked. -/
def findings (source : String) : Log :=
  match tokenize source .empty with
  | (none, log) => log
  | (some tokens, log) =>
    match parse tokens log with
    | (none, log) => log
    | (some p, log) =>
      match typeCheck p log with
      | .ok (_, log) => log
      | .error _ => log

/-- A token of the text, or the text that is no token, begins at `l`, and not with a blank. -/
def IsBeginning (source : List Char) (l : Location) : Prop :=
  ∃ c, BeginsAt source l c ∧ isBlank c = false

lemma liesIn_empty (P : Location → Prop) : Log.empty.LiesIn P :=
  ⟨by simp [Log.empty], by simp [Log.empty]⟩

/-- Everything that is recorded is about a place where a token begins, or the text that is none. -/
lemma liesIn_findings (source : String) :
    (findings source).LiesIn (IsBeginning source.toList) := by
  unfold findings
  cases hfrom : tokensFrom .start source.toList with
  | error d =>
      simp only [tokenize, hfrom]
      exact (liesIn_empty _).record (exists_beginsAt_of_error hfrom)
  | ok tokens =>
      simp only [tokenize, hfrom]
      have htokens : ∀ t ∈ tokens, IsBeginning source.toList t.location :=
        fun t ht => exists_beginsAt_of_mem hfrom ht
      obtain ⟨hlog, hprogram⟩ := Parsing.liesIn_of_parse htokens (liesIn_empty _)
      cases hparse : parse tokens .empty with
      | mk result log =>
          rw [hparse] at hlog hprogram
          cases result with
          | none => exact hlog
          | some q =>
              obtain ⟨hstored, -⟩ := Parsing.stored_of_parse (congrArg Prod.fst hparse)
              obtain ⟨_, out, hcheck⟩ := exists_typeCheck_of_parse (congrArg Prod.fst hparse) log
              simp only [hcheck]
              exact liesIn_of_typeCheck (hprogram q rfl) hstored hcheck hlog

/-- **Where findings point.** Whatever is recorded about a source text is about a character of one
of its lines that is no blank and with which a token begins, or the text in which no token can be
found; and in the report the caret stands under this character. -/
theorem findings_point_at_text (source file : String) (d : Diagnostic)
    (hd : d ∈ (findings source).errors ∨ d ∈ (findings source).warnings) :
    ∃ row c, lineAt source.toList d.location = some row ∧ d.location.column < row.length ∧
      row[d.location.column]? = some c ∧ isBlank c = false ∧
      BeginsAt source.toList d.location c ∧ d.CaretUnder source.toList file row c := by
  have hplace : IsBeginning source.toList d.location :=
    hd.elim ((liesIn_findings source).errors d) ((liesIn_findings source).warnings d)
  obtain ⟨c, hbegins, hblank⟩ := hplace
  obtain ⟨rest, hstands⟩ := hbegins.exists_standsAt
  obtain ⟨row, hrow, hc⟩ := hstands.exists_row hblank
  exact ⟨row, c, hrow, (List.getElem?_eq_some_iff.mp hc).1, hc, hblank, hbegins,
    Diagnostic.caretUnder_of_row file hrow hc hblank⟩

/-- The finding that a program ends where the name of a function is expected. -/
def unnamedFunction : Diagnostic :=
  .error (.unexpectedToken "identifier" "end of file") ⟨1, 1⟩

/-- The end of a text is reported at its last token, here in an indented line. -/
theorem unnamedFunction_points_at_text :
    unnamedFunction ∈ (findings "extern\r\n\tfunc").errors ∧
      ∃ row c, lineAt "extern\r\n\tfunc".toList unnamedFunction.location = some row ∧
        unnamedFunction.location.column < row.length ∧
        row[unnamedFunction.location.column]? = some c ∧ isBlank c = false ∧
        BeginsAt "extern\r\n\tfunc".toList unnamedFunction.location c ∧
        unnamedFunction.CaretUnder "extern\r\n\tfunc".toList "a.fern" row c := by
  have htokens : tokenize "extern\r\n\tfunc" .empty =
      (some [⟨.externWord, "extern", ⟨0, 0⟩⟩, ⟨.funcWord, "func", ⟨1, 1⟩⟩], .empty) := by
    have hextern : scan 'e' ['x', 't', 'e', 'r', 'n', '\r', '\n', '\t', 'f', 'u', 'n', 'c'] =
        .ok (.plain .externWord 'e' ['x', 't', 'e', 'r', 'n']) :=
      rfl
    have hblanks : scan '\r' ['\n', '\t', 'f', 'u', 'n', 'c'] = .ok (.gap ['\n', '\t']) := rfl
    have hfunc : scan 'f' ['u', 'n', 'c'] = .ok (.plain .funcWord 'f' ['u', 'n', 'c']) := rfl
    simp [tokenize, tokensFrom, hextern, hblanks, hfunc, Piece.plain, Piece.gap, ofPiece,
      Location.start, Location.advance, Except.map]
  have hmem : unnamedFunction ∈ (findings "extern\r\n\tfunc").errors := by
    rw [findings, htokens]
    exact List.mem_singleton_self _
  exact ⟨hmem, findings_point_at_text "extern\r\n\tfunc" "a.fern" unnamedFunction (.inl hmem)⟩

end Fern
