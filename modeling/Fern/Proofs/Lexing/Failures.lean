import Mathlib.Tactic
import Fern.Proofs.Lexing.Fitting

/-!
Texts that cannot be read, and what is wrong with each.

* `StringFails`, `CharFails`: what comes after the first quote of a literal that does not end.
* `Offends`: a text has no piece at its front because of a problem.
* `scan_eq_error_iff`: the scanner finds the problem with which a text offends.
* `tokenize_first_failure`: a source text without tokens is a text that has tokens and a text that
  offends, and one error is recorded, at the place where the second begins.
-/

namespace Fern.Token

open Text

/-- What comes after the first quote of a string literal that has no last one. A backslash goes
together with the character after it, so neither is a quote or the end of a line on its own. -/
inductive StringFails : Problem → List Char → Prop
  | newline {body rest} (h : StringText body) :
      StringFails .newlineInString (body ++ '\n' :: rest)
  | escapedNewline {body rest} (h : StringText body) :
      StringFails .newlineInString (body ++ '\\' :: '\n' :: rest)
  | ends {body} (h : StringText body) : StringFails .unterminatedString body
  | endsInEscape {body} (h : StringText body) : StringFails .unterminatedString (body ++ ['\\'])

/-- What a character literal can hold before the quote, or another character in its place. -/
inductive CharFront : List Char → Prop
  | nothing : CharFront []
  | backslash : CharFront ['\\']
  | text {body} (h : CharText body) : CharFront body

/-- What comes after the first quote of a character literal that has no last one, or nothing between
the two. -/
inductive CharFails : Problem → List Char → Prop
  | empty {rest} : CharFails .emptyCharacterLiteral ('\'' :: rest)
  | newline {front rest} (h : CharFront front) :
      CharFails .newlineInCharacterLiteral (front ++ '\n' :: rest)
  | unclosed {cs} (hempty : cs.head? ≠ some '\'')
      (hnewline : ∀ front rest, CharFront front → cs ≠ front ++ '\n' :: rest)
      (hclosed : ∀ body rest, CharText body → cs ≠ body ++ '\'' :: rest) :
      CharFails .unterminatedCharacterLiteral cs

/-- A text has no piece at its front, and the problem says why. -/
inductive Offends : Problem → List Char → Prop
  | lineComment {cs} (h : '\n' ∉ cs) : Offends .unterminatedComment ('/' :: '/' :: cs)
  | blockComment {cs} (h : ¬ ['*', '/'] <:+: cs) :
      Offends .unterminatedBlockComment ('/' :: '*' :: cs)
  | string {problem cs} (h : StringFails problem cs) : Offends problem ('"' :: cs)
  | char {problem cs} (h : CharFails problem cs) : Offends problem ('\'' :: cs)
  | unexpected {c cs} (hblank : isBlank c = false)
      (htoken : ∀ kind lexeme, Spells kind lexeme → (written kind lexeme).head? ≠ some c) :
      Offends .unexpectedCharacter (c :: cs)

variable {c : Char} {cs body : List Char} {kind : Kind} {lexeme : List Char} {problem : Problem}

/-! ### Comments -/

lemma throughCommentEnd_eq_none_iff : throughCommentEnd cs = none ↔ ¬ ['*', '/'] <:+: cs := by
  induction cs with
  | nil => simp [throughCommentEnd]
  | cons c cs ih =>
      have hprefix : ['*', '/'] <+: c :: cs ↔ c = '*' ∧ cs.head? = some '/' := by
        cases cs with
        | nil => simp [eq_comm]
        | cons d cs => simp [eq_comm]
      rw [List.infix_cons_iff, hprefix, not_or]
      by_cases h : c = '*' ∧ cs.head? = some '/'
      · obtain ⟨rfl, hhead⟩ := h
        obtain ⟨rest, rfl⟩ := List.head?_eq_some_iff.mp hhead
        simp [throughCommentEnd]
      · rw [throughCommentEnd_cons h, Option.map_eq_none_iff, ih]
        exact ⟨fun hrest => ⟨h, hrest⟩, fun hboth => hboth.2⟩

/-! ### Literals -/

lemma map_eq_error_iff {α β ε : Type} {f : α → β} {x : Except ε α} {e : ε} :
    x.map f = .error e ↔ x = .error e := by
  cases x with
  | error e' => simp [Except.map]
  | ok a => simp [Except.map]

lemma StringFails.plain (h : StringFails problem cs) (hquote : c ≠ '"') (hnewline : c ≠ '\n')
    (hescape : c ≠ '\\') : StringFails problem (c :: cs) := by
  cases h with
  | newline h => exact .newline (.plain hquote hnewline hescape h)
  | escapedNewline h => exact .escapedNewline (.plain hquote hnewline hescape h)
  | ends h => exact .ends (.plain hquote hnewline hescape h)
  | endsInEscape h => exact .endsInEscape (.plain hquote hnewline hescape h)

lemma StringFails.escaped (h : StringFails problem cs) (hnewline : c ≠ '\n') :
    StringFails problem ('\\' :: c :: cs) := by
  cases h with
  | newline h => exact .newline (.escaped hnewline h)
  | escapedNewline h => exact .escapedNewline (.escaped hnewline h)
  | ends h => exact .ends (.escaped hnewline h)
  | endsInEscape h => exact .endsInEscape (.escaped hnewline h)

/-- A string literal ends too early at a newline, or does not end. -/
lemma stringBody_eq_error_iff : stringBody cs = .error problem ↔ StringFails problem cs := by
  constructor
  · intro h
    fun_induction stringBody cs with
    | case1 => cases h
    | case2 rest =>
        cases h
        exact .newline .nil
    | case3 rest =>
        cases h
        exact .escapedNewline .nil
    | case4 e cs hnewline ih => exact (ih (map_eq_error_iff.mp h)).escaped hnewline
    | case5 =>
        cases h
        exact .endsInEscape .nil
    | case6 c cs hquote hnewline _ hescape hlast ih =>
        exact (ih (map_eq_error_iff.mp h)).plain hquote hnewline (ne_backslash hlast hescape)
    | case7 =>
        cases h
        exact .ends .nil
  · intro h
    cases h with
    | newline h => rw [stringBody_append h]; rfl
    | escapedNewline h => rw [stringBody_append h]; rfl
    | @ends body h =>
        rw [← List.append_nil cs, stringBody_append h]
        rfl
    | endsInEscape h => rw [stringBody_append h]; rfl

lemma scanChar_newline {front rest : List Char} (h : CharFront front) :
    scanChar (front ++ '\n' :: rest) = .error .newlineInCharacterLiteral := by
  cases h with
  | nothing => rfl
  | backslash => rfl
  | text h =>
      cases h with
      | @plain c hquote hnewline hescape =>
          exact scanChar.eq_7 c _ hquote hnewline (by simp [hescape]) (by simp [hescape])
            (by simp [hescape])
      | @escaped c hnewline => exact scanChar.eq_6 c _ hnewline

lemma closeChar_eq_error (h : closeChar body cs = .error problem) :
    (problem = .newlineInCharacterLiteral ∧ cs.head? = some '\n') ∨
      problem = .unterminatedCharacterLiteral := by
  unfold closeChar at h
  split at h
  · cases h
  · cases h
    exact .inl ⟨rfl, rfl⟩
  · cases h
    exact .inr rfl

/-- The problems with a character literal, the last one being what is left. -/
lemma scanChar_eq_error (h : scanChar cs = .error problem) :
    (problem = .emptyCharacterLiteral ∧ cs.head? = some '\'') ∨
      (problem = .newlineInCharacterLiteral ∧ ∃ front rest, CharFront front ∧
        cs = front ++ '\n' :: rest) ∨
      problem = .unterminatedCharacterLiteral := by
  have hclose : ∀ {body cs}, CharText body → closeChar body cs = .error problem →
      (problem = .newlineInCharacterLiteral ∧ ∃ front rest, CharFront front ∧
        body ++ cs = front ++ '\n' :: rest) ∨ problem = .unterminatedCharacterLiteral := by
    intro body cs hbody hclose
    refine (closeChar_eq_error hclose).imp_left fun ⟨hproblem, hhead⟩ => ⟨hproblem, ?_⟩
    obtain ⟨rest, rfl⟩ := List.head?_eq_some_iff.mp hhead
    exact ⟨body, rest, .text hbody, rfl⟩
  unfold scanChar at h
  split at h
  · cases h
    exact .inr (.inr rfl)
  · cases h
    exact .inl ⟨rfl, rfl⟩
  · next rest =>
    cases h
    exact .inr (.inl ⟨rfl, [], rest, .nothing, rfl⟩)
  · cases h
    exact .inr (.inr rfl)
  · next rest =>
    cases h
    exact .inr (.inl ⟨rfl, ['\\'], rest, .backslash, rfl⟩)
  · next e cs hnewline => exact .inr (hclose (.escaped hnewline) h)
  · next c cs hquote hnewline hlast _ hescape =>
    exact .inr (hclose (.plain hquote hnewline (ne_backslash hlast hescape)) h)

/-- A character literal is empty, is cut by a newline, or does not end after one character. -/
lemma scanChar_eq_error_iff : scanChar cs = .error problem ↔ CharFails problem cs := by
  constructor
  · intro h
    rcases scanChar_eq_error h with ⟨rfl, hhead⟩ | ⟨rfl, front, rest, hfront, rfl⟩ | rfl
    · obtain ⟨rest, rfl⟩ := List.head?_eq_some_iff.mp hhead
      exact .empty
    · exact .newline hfront
    · -- each of the other ends would be found as such
      refine .unclosed ?_ ?_ ?_
      · intro hhead
        obtain ⟨rest, rfl⟩ := List.head?_eq_some_iff.mp hhead
        cases h
      · rintro front rest hfront rfl
        cases (scanChar_newline hfront).symm.trans h
      · rintro body rest hbody rfl
        cases (scanChar_eq_ok_iff.mpr ⟨body, rest, hbody, rfl, rfl⟩).symm.trans h
  · intro h
    cases h with
    | empty => rfl
    | newline hfront => exact scanChar_newline hfront
    | unclosed hempty hnewline hclosed =>
        cases hscan : scanChar cs with
        | ok p =>
            obtain ⟨body, rest, hbody, hcs, -⟩ := scanChar_eq_ok_iff.mp hscan
            exact absurd hcs (hclosed body rest hbody)
        | error found =>
            rcases scanChar_eq_error hscan with ⟨-, hhead⟩ | ⟨-, front, rest, hfront, hcs⟩ | rfl
            · exact absurd hhead hempty
            · exact absurd hcs (hnewline front rest hfront)
            · rfl

/-! ### The first character of a token -/

/-- A token begins with a letter, an underscore, a digit, a quote or punctuation. -/
lemma Spells.head_written (h : Spells kind lexeme) (hhead : (written kind lexeme).head? = some c) :
    isWordStart c ∨ c.isDigit ∨ c = '"' ∨ c = '\'' ∨ ∃ kind, (c, kind) ∈ punctuation := by
  by_cases hplain : kind.isQuoted = false
  · rw [written_of_not_isQuoted hplain] at hhead
    obtain ⟨cs, rfl⟩ := List.head?_eq_some_iff.mp hhead
    rcases h.cons_cases hplain with
      ⟨hstart, _⟩ | ⟨hdigit, _⟩ | ⟨hdigit, _⟩ | ⟨_, hmem⟩ | ⟨d, _, hmem⟩
    · exact .inl hstart
    · exact .inr (.inl hdigit)
    · exact .inr (.inl hdigit)
    · exact .inr (.inr (.inr (.inr ⟨kind, hmem⟩)))
    · exact .inr (.inr (.inr (.inr (exists_single_of_pair hmem))))
  · cases kind with
    | string => exact .inr (.inr (.inl (by simpa [written, eq_comm] using hhead)))
    | char => exact .inr (.inr (.inr (.inl (by simpa [written, eq_comm] using hhead))))
    | _ => exact absurd rfl hplain

/-- Punctuation of one character is what no other rule is for. -/
lemma scanPunctuation_eq_error_iff :
    scanPunctuation c cs = .error problem ↔
      problem = .unexpectedCharacter ∧ ∀ kind, (c, kind) ∉ punctuation := by
  unfold scanPunctuation
  split
  · next d kind hpair =>
    obtain ⟨kind', hmem⟩ := exists_single_of_pair (pairKind?_eq_some_iff.mp hpair).2
    simp only [reduceCtorEq, false_iff, not_and]
    exact fun _ hfree => hfree kind' hmem
  · split
    · next kind hlookup =>
      simp only [reduceCtorEq, false_iff, not_and]
      exact fun _ hfree => hfree kind (lookup_punctuation_eq_some_iff.mp hlookup)
    · next hlookup =>
      have hfree : ∀ kind, (c, kind) ∉ punctuation := fun kind hmem => by
        cases hlookup.symm.trans (lookup_punctuation_eq_some_iff.mpr hmem)
      simp [eq_comm, hfree]

/-! ### The front of any text -/

/-- **What is wrong with a text**: the scanner finds no piece at its front exactly if the text
offends, with the problem that it offends with. -/
theorem scan_eq_error_iff : scan c cs = .error problem ↔ Offends problem (c :: cs) := by
  constructor
  · intro h
    unfold scan at h
    split at h
    · cases h
    next hblank =>
    split at h
    · next hslash =>
      obtain ⟨rfl, hhead⟩ := hslash
      obtain ⟨cs, rfl⟩ := List.head?_eq_some_iff.mp hhead
      unfold scanLineComment at h
      split at h
      · cases h
      · next hmem =>
        cases h
        exact .lineComment fun hin => hmem (List.mem_cons_of_mem _ hin)
    split at h
    · next hslash =>
      obtain ⟨rfl, hhead⟩ := hslash
      obtain ⟨cs, rfl⟩ := List.head?_eq_some_iff.mp hhead
      unfold scanBlockComment at h
      split at h
      · cases h
      · next hnone =>
        cases h
        exact .blockComment (throughCommentEnd_eq_none_iff.mp hnone)
    split at h
    · next hquote =>
      subst hquote
      exact .string (stringBody_eq_error_iff.mp (map_eq_error_iff.mp h))
    split at h
    · next hquote =>
      subst hquote
      exact .char (scanChar_eq_error_iff.mp h)
    split at h
    · cases h
    split at h
    · cases h
    · next hquote hquote' hstart hdigit =>
      obtain ⟨rfl, hfree⟩ := scanPunctuation_eq_error_iff.mp h
      refine .unexpected (Bool.not_eq_true _ ▸ hblank) fun kind lexeme hspells hhead => ?_
      rcases hspells.head_written hhead with hc | hc | hc | hc | ⟨kind', hc⟩
      · exact hstart hc
      · exact hdigit hc
      · exact hquote hc
      · exact hquote' hc
      · exact hfree kind' hc
  · intro h
    cases h with
    | @lineComment cs h =>
        have hmem : '\n' ∉ '/' :: cs := by simpa using h
        simp [scan, isBlank, blankRanges, scanLineComment, hmem]
    | blockComment h =>
        simp [scan, isBlank, blankRanges, scanBlockComment, throughCommentEnd_eq_none_iff.mpr h]
    | string h =>
        have hbody := stringBody_eq_error_iff.mpr h
        simp [scan, isBlank, blankRanges, hbody, Except.map]
    | char h =>
        have hbody := scanChar_eq_error_iff.mpr h
        simp [scan, isBlank, blankRanges, hbody]
    | unexpected hblank htoken =>
        have hstart : ¬ isWordStart c := fun hstart =>
          htoken _ [c] (wordKind_spells ⟨c, [], rfl, hstart, by simp⟩).1 (by
            rw [written_of_not_isQuoted (wordKind_spells ⟨c, [], rfl, hstart, by simp⟩).2]
            rfl)
        have hdigit : ¬ c.isDigit :=
          fun hdigit => htoken .integer [c] (.integer hdigit (by simp)) rfl
        have hquote : c ≠ '"' := by
          rintro rfl
          exact htoken .string [] (.string .nil) rfl
        have hquote' : c ≠ '\'' := by
          rintro rfl
          exact htoken .char ['a'] (.char (.plain (by decide) (by decide) (by decide))) rfl
        have hfree : ∀ kind, (c, kind) ∉ punctuation := fun kind hmem =>
          htoken kind [c] (.single hmem) (by
            rw [written_of_not_isQuoted (isQuoted_of_mem_punctuation (.inl hmem))]
            rfl)
        have hslash : c ≠ '/' := by
          rintro rfl
          exact hfree .slash (by decide)
        have hpunctuation : scanPunctuation c cs = .error .unexpectedCharacter :=
          scanPunctuation_eq_error_iff.mpr ⟨rfl, hfree⟩
        simp [scan, hblank, hslash, hquote, hquote', hstart, hdigit, hpunctuation]

/-- A text offends in one way only. -/
lemma Offends.unique {other : Problem} (h : Offends problem cs) (h' : Offends other cs) :
    other = problem := by
  cases cs with
  | nil => cases h
  | cons c cs =>
      have heq := (scan_eq_error_iff.mpr h').symm.trans (scan_eq_error_iff.mpr h)
      exact Except.error.inj heq

end Token

/-! ### Whole texts -/

open Token

variable {source : String} {log : Log}

/-- **The first problem ends the reading**: a source text that has no tokens is a text that has some
and a text that offends. One error is recorded, of the only kind with which the second text offends,
at the place to which the characters of the first lead. -/
theorem tokenize_first_failure (h : (tokenize source log).1 = none) :
    ∃ problem good bad, source.toList = good ++ bad ∧
      (tokenize source log).2 = log.recordError problem (Location.start.advanceOver good) ∧
      (∃ tokens, ∀ log', tokenize (String.ofList good) log' = (some tokens, log')) ∧
      Offends problem bad ∧ ∀ other, Offends other bad → other = problem := by
  cases hfrom : tokensFrom .start source.toList with
  | ok tokens =>
      rw [tokenize, hfrom] at h
      cases h
  | error d =>
      obtain ⟨good, c, rest, problem, tokens, htext, hscan, rfl, htokens⟩ :=
        exists_split_of_tokensFrom hfrom
      have hoffends := scan_eq_error_iff.mp hscan
      refine ⟨problem, good, c :: rest, htext, ?_, ⟨tokens, fun log' => ?_⟩, hoffends,
        fun other => hoffends.unique⟩
      · rw [tokenize, hfrom]
        rfl
      · rw [tokenize, String.toList_ofList, htokens]

/-- An escaped quote does not end a string literal, and the newline after it does not either. -/
theorem tokenize_first_failure_in_string :
    (tokenize "a \"\\\"\n" .empty).1 = none ∧
    ∃ problem good bad, "a \"\\\"\n".toList = good ++ bad ∧
      (tokenize "a \"\\\"\n" .empty).2 =
        Log.empty.recordError problem (Location.start.advanceOver good) ∧
      (∃ tokens, ∀ log', tokenize (String.ofList good) log' = (some tokens, log')) ∧
      Offends problem bad ∧ ∀ other, Offends other bad → other = problem := by
  have hnone : (tokenize "a \"\\\"\n" .empty).1 = none := by
    have hword : scan 'a' [' ', '"', '\\', '"', '\n'] = .ok (.plain .ident 'a' []) := rfl
    have hblank : scan ' ' ['"', '\\', '"', '\n'] = .ok (.gap []) := rfl
    have hstring : scan '"' ['\\', '"', '\n'] = .error .newlineInString := rfl
    simp [tokenize, tokensFrom, hword, hblank, hstring, Piece.plain, Piece.gap, Except.map]
  exact ⟨hnone, tokenize_first_failure hnone⟩

end Fern
