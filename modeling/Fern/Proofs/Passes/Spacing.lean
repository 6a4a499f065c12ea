import Fern.Proofs.Lexing.Order
import Fern.Proofs.Parsing.Printing
import Fern.Proofs.Parsing.Relocation
import Fern.Proofs.Typing.Table
import Fern.Proofs.Typing.Trace

/-!
Blanks, comments and line breaks between tokens matter for places only.

* `exists_relocation`: tokens at different places become others with the same kinds and lexemes when
  their places are changed.
* `spacing_changes_places`: **two texts with the same words make the same program, types, errors and
  warnings**, up to the places of their tokens.
-/

namespace Fern

open Typing Parsing

/-- A function that gives each key its value, if no key occurs twice. -/
lemma exists_map_eq {keys values : List Location} (h : keys.Nodup)
    (hlength : keys.length = values.length) : ∃ g : Location → Location, values = keys.map g := by
  induction keys generalizing values with
  | nil => exact ⟨fun l => l, List.eq_nil_of_length_eq_zero hlength.symm⟩
  | cons k keys ih =>
      cases values with
      | nil => cases hlength
      | cons v values =>
          obtain ⟨hk, hkeys⟩ := List.nodup_cons.mp h
          obtain ⟨g, rfl⟩ := ih hkeys (Nat.succ.inj hlength)
          refine ⟨Function.update g k v, ?_⟩
          have hothers : keys.map (Function.update g k v) = keys.map g :=
            List.map_congr_left fun l hl =>
              Function.update_of_ne (ne_of_mem_of_not_mem hl hk) v g
          rw [List.map_cons, Function.update_self, hothers]

/-- Tokens are determined by their words and their places. -/
lemma eq_relocate {ts us : List Token} {g : Location → Location}
    (hwords : ts.map Token.word = us.map Token.word)
    (hplaces : us.map Token.location = (ts.map Token.location).map g) :
    us = ts.map (Token.relocate g) := by
  induction ts generalizing us with
  | nil => exact List.map_eq_nil_iff.mp hwords.symm
  | cons t ts ih =>
      obtain ⟨u, us, rfl, hu, hus⟩ := List.map_eq_cons_iff.mp hwords.symm
      obtain ⟨hl, hls⟩ := List.cons.inj hplaces
      rw [List.map_cons, ← ih hus.symm hls]
      obtain ⟨kind, lexeme, l⟩ := t
      obtain ⟨kind', lexeme', l'⟩ := u
      obtain ⟨rfl, rfl⟩ := Prod.mk.inj hu
      exact congrArg (Token.mk kind' lexeme' · :: us) hl

/-- Tokens with the same words are relocated to each other, if no two of the first are at the same
place. -/
lemma exists_relocation {ts us : List Token} (h : (ts.map Token.location).Nodup)
    (hwords : ts.map Token.word = us.map Token.word) :
    ∃ g, us = ts.map (Token.relocate g) := by
  have hlength : (ts.map Token.location).length = (us.map Token.location).length := by
    simpa using congrArg List.length hwords
  obtain ⟨g, hg⟩ := exists_map_eq h hlength
  exact ⟨g, eq_relocate hwords hg⟩

/-- **Spacing and comments matter for places only.** The tokens of a text are at different places.
If another text has tokens with the same words, some change of places leads from the ones to the
others. Under any such change, and whatever was found before, the parser makes the same program of
them, or finds the same problem, and the checker finds the same types, errors and warnings; all the
places in these are changed like those of the tokens. -/
theorem spacing_changes_places {source source' : String} {log₀ log₀' : Log}
    {tokens tokens' : List Token} (h : (tokenize source log₀).1 = some tokens)
    (h' : (tokenize source' log₀').1 = some tokens')
    (hwords : tokens.map Token.word = tokens'.map Token.word) :
    (tokens.map Token.location).Nodup ∧ (tokens'.map Token.location).Nodup ∧
    (∃ g, tokens' = tokens.map (Token.relocate g)) ∧
    ∀ g, tokens' = tokens.map (Token.relocate g) → ∀ log log' : Log,
      (∃ found : Log, (parse tokens log).2 = log ++ found ∧
        parse tokens' log' = ((parse tokens log).1.map (Program.relocate g),
          log' ++ found.relocate g)) ∧
      ∀ program, (parse tokens log).1 = some program →
        ∃ (types : Array Ty) (found : Log), typeCheck program log = .ok (types, log ++ found) ∧
          typeCheck (program.relocate g) log' = .ok (types, log' ++ found.relocate g) := by
  have hnodup := nodup_location_of_tokenize h
  refine ⟨hnodup, nodup_location_of_tokenize h', exists_relocation hnodup hwords, ?_⟩
  rintro g rfl log log'
  refine ⟨⟨(parse tokens .empty).2, ?_, ?_⟩, fun program hprogram => ?_⟩
  · rw [parse_eq_append tokens log]
  · rw [parse_relocate, parse_eq_append tokens log]
  · obtain ⟨types, out, hrun⟩ := exists_typeCheck_of_parse hprogram log
    obtain ⟨found, rfl, -, hdone⟩ := exists_found_of_typeCheck hrun
    exact ⟨types, found, hrun, hdone g log'⟩

/-- A function on one line, with an unknown name in its body. -/
def closeSource : String := "func f()\x7bx\x7d"

/-- The same function on three lines, one of which is a comment. -/
def wideSource : String := "func f( )\n// a comment\n\x7b x \x7d"

/-- The tokens of `closeSource`. -/
def closeTokens : List Token :=
  [⟨.funcWord, "func", ⟨0, 0⟩⟩, ⟨.ident, "f", ⟨0, 5⟩⟩, ⟨.leftParen, "(", ⟨0, 6⟩⟩,
    ⟨.rightParen, ")", ⟨0, 7⟩⟩, ⟨.leftBrace, "\x7b", ⟨0, 8⟩⟩, ⟨.ident, "x", ⟨0, 9⟩⟩,
    ⟨.rightBrace, "\x7d", ⟨0, 10⟩⟩]

/-- The tokens of `wideSource`. -/
def wideTokens : List Token :=
  [⟨.funcWord, "func", ⟨0, 0⟩⟩, ⟨.ident, "f", ⟨0, 5⟩⟩, ⟨.leftParen, "(", ⟨0, 6⟩⟩,
    ⟨.rightParen, ")", ⟨0, 8⟩⟩, ⟨.leftBrace, "\x7b", ⟨2, 0⟩⟩, ⟨.ident, "x", ⟨2, 2⟩⟩,
    ⟨.rightBrace, "\x7d", ⟨2, 4⟩⟩]

/-- The program of `closeTokens`. -/
def closeProgram : Program where
  arena := (Arena.empty.add (.var "x") ⟨0, 9⟩).add (.block [0]) ⟨0, 8⟩
  functions := [⟨⟨"f", [], .void, ⟨0, 5⟩⟩, 1⟩]

/-- The unknown name is reported at its own place in either text. -/
theorem wide_source_checked_alike :
    (tokenize closeSource .empty).1 = some closeTokens ∧
    (tokenize wideSource .empty).1 = some wideTokens ∧ wideTokens ≠ closeTokens ∧
    (parse closeTokens .empty).1 = some closeProgram ∧
    ∃ g types found, (parse wideTokens .empty).1 = some (closeProgram.relocate g) ∧
      found.errors = [.error (.unknownVariable "x") ⟨0, 9⟩] ∧
      typeCheck closeProgram .empty = .ok (types, found) ∧
      typeCheck (closeProgram.relocate g) .empty = .ok (types, found.relocate g) ∧
      (found.relocate g).errors = [.error (.unknownVariable "x") ⟨2, 2⟩] := by
  have h : (tokenize closeSource .empty).1 = some closeTokens := by decide +kernel
  have h' : (tokenize wideSource .empty).1 = some wideTokens := by decide +kernel
  have hprogram : (parse closeTokens .empty).1 = some closeProgram := by decide +kernel
  obtain ⟨-, -, ⟨g, hg⟩, hpasses⟩ := spacing_changes_places h h' (by decide)
  obtain ⟨⟨_, -, hparse⟩, hcheck⟩ := hpasses g hg .empty .empty
  obtain ⟨types, found, hrun, hrun'⟩ := hcheck closeProgram hprogram
  obtain rfl : found = ⟨[.error (.unknownVariable "x") ⟨0, 9⟩], []⟩ := by
    have hlog : (typeCheck closeProgram .empty).map Prod.snd
        = .ok ⟨[.error (.unknownVariable "x") ⟨0, 9⟩], []⟩ := rfl
    rw [hrun] at hlog
    exact Except.ok.inj hlog
  have hplace : g ⟨0, 9⟩ = ⟨2, 2⟩ := by
    have htoken := congrArg (fun ts : List Token => ts[5]?.map Token.location) hg
    exact (Option.some.inj htoken).symm
  refine ⟨h, h', by decide, hprogram, g, types, _, ?_, rfl, hrun, hrun', ?_⟩
  · rw [hparse, hprogram]
    rfl
  · exact congrArg (fun l => [Diagnostic.error (.unknownVariable "x") l]) hplace

end Fern
