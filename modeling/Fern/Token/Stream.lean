import Fern.Diagnostic.Log
import Fern.Token.Piece

/-!
The tokens of a source text.

* `tokensFrom`: the tokens of a text that begins at a given place, or the first problem in it.
* `tokenize`: the same for a whole text, with the problem recorded. `tokenize_of_ok` and
  `tokenize_of_error` say what it makes of the two outcomes.
-/

namespace Fern

/-- The token that a piece at `start` is, if it is no gap. -/
def Token.ofPiece (start : Location) (p : Token.Piece) : Option Token :=
  p.token.map fun (kind, lexeme) => ⟨kind, String.ofList lexeme, start⟩

/-- The tokens of a text that begins at `start`. The first problem ends the reading. -/
def tokensFrom (start : Location) : List Char → Except Diagnostic (List Token)
  | [] => .ok []
  | c :: cs =>
    match Token.scan c cs with
    | .error problem => .error (.error problem start)
    | .ok piece =>
      (tokensFrom (start.advanceOver (c :: piece.more)) (cs.drop piece.more.length)).map
        ((Token.ofPiece start piece).toList ++ ·)
termination_by cs => cs.length
decreasing_by simp only [List.length_cons, List.length_drop]; omega

/-- The tokens of a source text. A problem is recorded, and then there are none. -/
def tokenize (source : String) (log : Log) : Option (List Token) × Log :=
  match tokensFrom .start source.toList with
  | .ok tokens => (some tokens, log)
  | .error d => (none, log.record d)

section Outcomes

variable {source : String} {tokens : List Token} {d : Diagnostic}

theorem tokenize_of_ok (h : tokensFrom .start source.toList = .ok tokens) (log : Log) :
    tokenize source log = (some tokens, log) := by
  rw [tokenize, h]

theorem tokenize_of_error (h : tokensFrom .start source.toList = .error d) (log : Log) :
    tokenize source log = (none, log.record d) := by
  rw [tokenize, h]

/-- A text that has tokens is read from its beginning without a problem. -/
theorem tokensFrom_of_tokenize {log : Log} (h : (tokenize source log).1 = some tokens) :
    tokensFrom .start source.toList = .ok tokens := by
  cases hread : tokensFrom .start source.toList with
  | ok read =>
    rw [tokenize_of_ok hread] at h
    rw [Option.some.inj h]
  | error d =>
    rw [tokenize_of_error hread] at h
    cases h

/-- In a text that has no tokens a problem is met on reading it from its beginning. -/
theorem exists_of_tokenize_eq_none {log : Log} (h : (tokenize source log).1 = none) :
    ∃ d, tokensFrom .start source.toList = .error d := by
  cases hread : tokensFrom .start source.toList with
  | ok tokens =>
    rw [tokenize_of_ok hread] at h
    cases h
  | error d => exact ⟨d, rfl⟩

end Outcomes

end Fern
