import Mathlib.Tactic
import Fern.Proofs.Lexing.Fitting
import Fern.Proofs.Text.Places

/-!
Where tokens begin.

* `Token.BeginsAt`: a token of a source text begins with a given character at a given place, or the
  text does that is no token.
* `Token.exists_beginsAt_of_mem`: the place of a token is where it begins.
* `Token.exists_beginsAt_of_error`: a problem with a text is where the text begins that is no token.
-/

namespace Fern.Token

open Text

/-- A token of the text begins at `l` with the character `c`, or the text does in which no token can
be found. -/
inductive BeginsAt (source : List Char) (l : Location) (c : Char) : Prop
  | token {tokens : List Token} {t : Token} {ds rest : List Char}
      (htokens : tokensFrom .start source = .ok tokens) (ht : t ∈ tokens) (hplace : t.location = l)
      (hwritten : written t.kind t.lexeme.toList = c :: ds)
      (hstands : StandsAt source l (c :: ds ++ rest))
  | failure {problem : Problem} {rest : List Char}
      (hfails : tokensFrom .start source = .error (.error problem l))
      (hscan : scan c rest = .error problem) (hstands : StandsAt source l (c :: rest))

variable {source before cs : List Char} {l : Location} {c : Char} {tokens : List Token} {t : Token}
  {d : Diagnostic}

/-- What begins at a place stands there. -/
lemma BeginsAt.exists_standsAt (h : BeginsAt source l c) :
    ∃ rest, StandsAt source l (c :: rest) := by
  cases h with
  | token _ _ _ _ hstands => exact ⟨_, hstands⟩
  | failure _ _ hstands => exact ⟨_, hstands⟩

/-- The text of a token begins with a character that is no blank. -/
lemma Spells.exists_written {kind : Kind} {lexeme : List Char} (h : Spells kind lexeme) :
    ∃ c ds, written kind lexeme = c :: ds ∧ isBlank c = false := by
  cases h with
  | reserved hmem =>
      obtain ⟨c, ds, hword, hstart, -⟩ := isWord_of_mem_reservedWords hmem
      rw [written_of_not_isQuoted (isQuoted_of_mem_reservedWords hmem)]
      exact ⟨c, ds, hword, isBlank_of_isWordPart (isWordPart_iff.mpr (.inl hstart))⟩
  | ident hstart => exact ⟨_, _, rfl, isBlank_of_isWordPart (isWordPart_iff.mpr (.inl hstart))⟩
  | integer hdigit => exact ⟨_, _, rfl, isBlank_of_isDigit hdigit⟩
  | float hdigit => exact ⟨_, _, rfl, isBlank_of_isDigit hdigit⟩
  | single hmem =>
      rw [written_of_not_isQuoted (isQuoted_of_mem_punctuation (.inl hmem))]
      exact ⟨_, _, rfl, (punctuation_class (.inl hmem)).1⟩
  | pair hmem =>
      rw [written_of_not_isQuoted (isQuoted_of_mem_punctuation (.inr ⟨_, hmem⟩))]
      exact ⟨_, _, rfl, (punctuation_class (.inr ⟨_, hmem⟩)).1⟩
  | string => exact ⟨'"', _, rfl, by decide⟩
  | char => exact ⟨'\'', _, rfl, by decide⟩

/-- A token of a sequence of segments stands in their text at its place. -/
lemma exists_of_mem_tokensAfter {ss : List Segment} (ht : t ∈ tokensAfter before ss) :
    ∃ b rest, before ++ ss.flatMap Segment.text = b ++ written t.kind t.lexeme.toList ++ rest ∧
      t.location = Location.start.advanceOver b := by
  induction ss generalizing before with
  | nil => cases ht
  | cons s ss ih =>
      rcases List.mem_append.mp ht with ht | ht
      · cases s with
        | token kind lexeme =>
            obtain rfl := List.mem_singleton.mp ht
            exact ⟨before, ss.flatMap Segment.text, by simp [Segment.text], rfl⟩
        | blanks => cases ht
        | lineComment => cases ht
        | blockComment => cases ht
      · obtain ⟨b, rest, htext, hplace⟩ := ih ht
        exact ⟨b, rest, by rw [← htext]; simp, hplace⟩

/-- A token begins at its place, and not with a blank. -/
lemma exists_beginsAt_of_mem (h : tokensFrom .start source = .ok tokens) (ht : t ∈ tokens) :
    ∃ c, BeginsAt source t.location c ∧ isBlank c = false := by
  obtain ⟨ss, rfl, rfl, hall⟩ := exists_segments_of_tokensFrom [] h
  obtain ⟨c, ds, hwritten, hblank⟩ := (spells_of_mem_tokensAfter hall ht).exists_written
  obtain ⟨b, rest, htext, hplace⟩ := exists_of_mem_tokensAfter ht
  rw [hwritten, List.nil_append, List.append_assoc] at htext
  exact ⟨c, .token h ht rfl hwritten ⟨b, htext, hplace⟩, hblank⟩

/-- A problem with a text is where the text begins that is no token, and that is not a blank. -/
lemma exists_beginsAt_of_error (h : tokensFrom .start source = .error d) :
    ∃ c, BeginsAt source d.location c ∧ isBlank c = false := by
  obtain ⟨before, c, rest, problem, _, rfl, hscan, rfl, _⟩ := exists_split_of_tokensFrom h
  exact ⟨c, .failure h hscan ⟨before, rfl, rfl⟩, isBlank_eq_false_of_scan hscan⟩

end Fern.Token
