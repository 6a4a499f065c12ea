import Mathlib.Tactic
import Fern.Proofs.Parsing.Legibility

/-!
The dumps of the programs of texts.

* `dump_loses_nothing`: **equal dumps are those of equal programs**, apart from numbers and places.
-/

namespace Fern

open Parsing

/-- **Dumps lose nothing.** The programs of two texts have dumps, and these are the same exactly if
the programs have the same declarations and functions in the same order, their heads being the same
apart from places, and their bodies apart from numbers and places. -/
theorem dump_loses_nothing {source source' : String} {log₀ log₀' log log' : Log}
    {tokens tokens' : List Token} {p q : Program}
    (hsource : (tokenize source log₀).1 = some tokens) (hp : (parse tokens log).1 = some p)
    (hsource' : (tokenize source' log₀').1 = some tokens')
    (hq : (parse tokens' log').1 = some q) :
    ∃ text text', p.dump = .ok text ∧ q.dump = .ok text' ∧
      (text = text' ↔ p.declarations.map Prototype.erase = q.declarations.map Prototype.erase ∧
        p.functions.map (fun f => (f.prototype.erase, (p.body f).erase))
          = q.functions.map fun f => (f.prototype.erase, (q.body f).erase)) := by
  have hlegible := legible_of_parse hsource hp
  have hlegible' := legible_of_parse hsource' hq
  have hiff := hlegible.dump_eq_iff hlegible'
  rw [hlegible.dump_eq, hlegible'.dump_eq, Except.ok.injEq] at hiff
  exact ⟨_, _, hlegible.dump_eq, hlegible'.dump_eq, hiff⟩

/-- A function on one line that returns a number with a fraction. -/
def terseSource : String := "func f()\x7breturn 1.5\x7d"

/-- The same function on three lines. -/
def roomySource : String := "func f()\n\x7b return\n1.5 \x7d"

/-- The tokens of `terseSource`. -/
def terseTokens : List Token :=
  [⟨.funcWord, "func", ⟨0, 0⟩⟩, ⟨.ident, "f", ⟨0, 5⟩⟩, ⟨.leftParen, "(", ⟨0, 6⟩⟩,
    ⟨.rightParen, ")", ⟨0, 7⟩⟩, ⟨.leftBrace, "\x7b", ⟨0, 8⟩⟩, ⟨.returnWord, "return", ⟨0, 9⟩⟩,
    ⟨.float, "1.5", ⟨0, 16⟩⟩, ⟨.rightBrace, "\x7d", ⟨0, 19⟩⟩]

/-- The tokens of `roomySource`. -/
def roomyTokens : List Token :=
  [⟨.funcWord, "func", ⟨0, 0⟩⟩, ⟨.ident, "f", ⟨0, 5⟩⟩, ⟨.leftParen, "(", ⟨0, 6⟩⟩,
    ⟨.rightParen, ")", ⟨0, 7⟩⟩, ⟨.leftBrace, "\x7b", ⟨1, 0⟩⟩, ⟨.returnWord, "return", ⟨1, 2⟩⟩,
    ⟨.float, "1.5", ⟨2, 0⟩⟩, ⟨.rightBrace, "\x7d", ⟨2, 4⟩⟩]

/-- A function that returns a number with a fraction, with the places of its parts. -/
def fractionProgram (brace word value : Location) : Program where
  arena := ((Arena.empty.add (.number "1.5" true) value).add (.jump .returnWord (some 0)) word).add
    (.block [1]) brace
  functions := [⟨⟨"f", [], .void, ⟨0, 5⟩⟩, 2⟩]

/-- The dump of the function. -/
def fractionDump : String :=
  "FunctionNode:\n  Prototype: 'f' (ret ty: void)\n  BlockNode:\n    SingleOpNode: 'Return'\n" ++
    "      NumberNode: '1.5'\n"

/-- The function has the dump that it has on one line. -/
theorem roomySource_dumped_alike :
    (tokenize terseSource .empty).1 = some terseTokens ∧
    (parse terseTokens .empty).1 = some (fractionProgram ⟨0, 8⟩ ⟨0, 9⟩ ⟨0, 16⟩) ∧
    (tokenize roomySource .empty).1 = some roomyTokens ∧
    (parse roomyTokens .empty).1 = some (fractionProgram ⟨1, 0⟩ ⟨1, 2⟩ ⟨2, 0⟩) ∧
    (fractionProgram ⟨0, 8⟩ ⟨0, 9⟩ ⟨0, 16⟩).dump = .ok fractionDump ∧
    (fractionProgram ⟨1, 0⟩ ⟨1, 2⟩ ⟨2, 0⟩).dump = .ok fractionDump := by
  have hsource : (tokenize terseSource .empty).1 = some terseTokens := by decide +kernel
  have hp : (parse terseTokens .empty).1 = some (fractionProgram ⟨0, 8⟩ ⟨0, 9⟩ ⟨0, 16⟩) := by
    decide +kernel
  have hsource' : (tokenize roomySource .empty).1 = some roomyTokens := by decide +kernel
  have hq : (parse roomyTokens .empty).1 = some (fractionProgram ⟨1, 0⟩ ⟨1, 2⟩ ⟨2, 0⟩) := by
    decide +kernel
  have hdump : (fractionProgram ⟨0, 8⟩ ⟨0, 9⟩ ⟨0, 16⟩).dump = .ok fractionDump := by
    decide +kernel
  obtain ⟨text, text', htext, htext', hiff⟩ := dump_loses_nothing hsource hp hsource' hq
  cases htext.symm.trans hdump
  rw [← hiff.mpr ⟨rfl, rfl⟩] at htext'
  exact ⟨hsource, hp, hsource', hq, hdump, htext'⟩

end Fern
