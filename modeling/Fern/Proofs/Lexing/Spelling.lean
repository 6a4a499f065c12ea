import Mathlib.Tactic
import Fern.Token.Piece

/-!
How tokens are spelled, apart from the scanner.

* `StringText`, `CharText`: what can stand between the quotes of a literal.
* `Spells`: the lexemes of each kind of token.
* `written`: the text of a token, a literal standing in its quotes.
* `Spells.cons_cases`: what the lexeme of a word, a number or punctuation looks like.
-/

namespace Fern.Token

/-- The text of a string literal: no newline, with or without a backslash before it, and every quote
and every backslash after a backslash. -/
inductive StringText : List Char → Prop
  | nil : StringText []
  | plain {c cs} (hquote : c ≠ '"') (hnewline : c ≠ '\n') (hescape : c ≠ '\\')
      (others : StringText cs) : StringText (c :: cs)
  | escaped {c cs} (hnewline : c ≠ '\n') (others : StringText cs) : StringText ('\\' :: c :: cs)

/-- The text of a character literal: one character, or a backslash and one. -/
inductive CharText : List Char → Prop
  | plain {c} (hquote : c ≠ '\'') (hnewline : c ≠ '\n') (hescape : c ≠ '\\') : CharText [c]
  | escaped {c} (hnewline : c ≠ '\n') : CharText ['\\', c]

/-- The lexemes of each kind of token. -/
inductive Spells : Kind → List Char → Prop
  | reserved {word : String} {kind} (h : (word, kind) ∈ reservedWords) : Spells kind word.toList
  | ident {c cs} (hstart : isWordStart c) (hparts : ∀ d ∈ cs, isWordPart d)
      (hfree : ∀ kind, (String.ofList (c :: cs), kind) ∉ reservedWords) : Spells .ident (c :: cs)
  | integer {c cs} (hdigit : c.isDigit) (hdigits : ∀ d ∈ cs, d.isDigit) : Spells .integer (c :: cs)
  | float {c cs d ds} (hdigit : c.isDigit) (hdigits : ∀ d ∈ cs, d.isDigit) (hdigit' : d.isDigit)
      (hdigits' : ∀ e ∈ ds, e.isDigit) : Spells .float (c :: cs ++ '.' :: d :: ds)
  | single {c kind} (h : (c, kind) ∈ punctuation) : Spells kind [c]
  | pair {c d kind} (h : (c, d, kind) ∈ punctuationPairs) : Spells kind [c, d]
  | string {cs} (h : StringText cs) : Spells .string cs
  | char {cs} (h : CharText cs) : Spells .char cs

/-- Literals with quotes are all tokens but words, numbers and punctuation. -/
def Kind.isQuoted : Kind → Bool
  | .string | .char => true
  | _ => false

/-- The text of a token. -/
def written : Kind → List Char → List Char
  | .string, lexeme => '"' :: lexeme ++ ['"']
  | .char, lexeme => '\'' :: lexeme ++ ['\'']
  | _, lexeme => lexeme

lemma written_of_not_isQuoted {kind : Kind} (h : kind.isQuoted = false) (lexeme : List Char) :
    written kind lexeme = lexeme := by
  unfold written
  split <;> first | rfl | cases h

/-- No text is a comment, invalid or the end of the input. -/
lemma Spells.kind_ne {kind : Kind} {lexeme : List Char} (h : Spells kind lexeme) :
    kind ≠ .comment ∧ kind ≠ .invalid ∧ kind ≠ .endOfInput := by
  cases h with
  | @reserved word kind h =>
      have hall : ∀ p ∈ reservedWords, p.2 ≠ .comment ∧ p.2 ≠ .invalid ∧ p.2 ≠ .endOfInput := by
        decide
      exact hall _ h
  | @single c kind h =>
      have hall : ∀ p ∈ punctuation, p.2 ≠ .comment ∧ p.2 ≠ .invalid ∧ p.2 ≠ .endOfInput := by
        decide
      exact hall _ h
  | @pair c d kind h =>
      have hall : ∀ p ∈ punctuationPairs,
          p.2.2 ≠ .comment ∧ p.2.2 ≠ .invalid ∧ p.2.2 ≠ .endOfInput := by
        decide
      exact hall _ h
  | _ => decide

/-! ### Words, numbers and punctuation -/

/-- A word: a letter or an underscore, and then letters, digits and underscores. -/
def IsWord (cs : List Char) : Prop := ∃ c ds, cs = c :: ds ∧ isWordStart c ∧ ∀ d ∈ ds, isWordPart d

lemma isWord_of_mem_reservedWords {word : String} {kind : Kind} (h : (word, kind) ∈ reservedWords) :
    IsWord word.toList := by
  have hall : ∀ p ∈ reservedWords, (p.1.toList.head?.any isWordStart) = true ∧
      p.1.toList.tail.all isWordPart = true := by
    decide
  obtain ⟨hhead, htail⟩ := hall _ h
  cases hword : word.toList with
  | nil => simp [hword] at hhead
  | cons c ds =>
      simp only [hword, List.head?_cons, Option.any_some, List.tail_cons,
        List.all_eq_true] at hhead htail
      exact ⟨c, ds, rfl, hhead, htail⟩

lemma isQuoted_of_mem_reservedWords {word : String} {kind : Kind}
    (h : (word, kind) ∈ reservedWords) : kind.isQuoted = false := by
  have hall : ∀ p ∈ reservedWords, p.2.isQuoted = false := by decide
  exact hall _ h

lemma isQuoted_of_mem_punctuation {c : Char} {kind : Kind}
    (h : (c, kind) ∈ punctuation ∨ ∃ d, (c, d, kind) ∈ punctuationPairs) :
    kind.isQuoted = false := by
  have hall : ∀ k ∈ punctuation.map Prod.snd ++ punctuationPairs.map (·.2.2),
      k.isQuoted = false := by
    decide
  refine hall kind (List.mem_append.mpr ?_)
  rcases h with h | ⟨d, h⟩
  · exact .inl (List.mem_map_of_mem (f := Prod.snd) h)
  · exact .inr (List.mem_map_of_mem (f := (·.2.2)) h)

/-- What the lexeme of a word, a number or punctuation looks like. -/
lemma Spells.cons_cases {kind : Kind} {c : Char} {cs : List Char} (h : Spells kind (c :: cs))
    (hplain : kind.isQuoted = false) :
    (isWordStart c ∧ ∀ d ∈ cs, isWordPart d) ∨
      (c.isDigit ∧ ∀ d ∈ cs, d.isDigit) ∨
      (c.isDigit ∧ ∃ ds d es, cs = ds ++ '.' :: d :: es ∧ (∀ e ∈ ds, e.isDigit) ∧ d.isDigit ∧
        ∀ e ∈ es, e.isDigit) ∨
      (cs = [] ∧ (c, kind) ∈ punctuation) ∨
      ∃ d, cs = [d] ∧ (c, d, kind) ∈ punctuationPairs := by
  generalize hlexeme : c :: cs = lexeme at h
  cases h with
  | reserved h =>
      obtain ⟨d, ds, hword, hstart, hparts⟩ := isWord_of_mem_reservedWords h
      cases hlexeme.trans hword
      exact .inl ⟨hstart, hparts⟩
  | ident hstart hparts _ =>
      cases hlexeme
      exact .inl ⟨hstart, hparts⟩
  | integer hdigit hdigits =>
      cases hlexeme
      exact .inr (.inl ⟨hdigit, hdigits⟩)
  | float hdigit hdigits hdigit' hdigits' =>
      cases hlexeme
      exact .inr (.inr (.inl ⟨hdigit, _, _, _, rfl, hdigits, hdigit', hdigits'⟩))
  | single h =>
      cases hlexeme
      exact .inr (.inr (.inr (.inl ⟨rfl, h⟩)))
  | pair h =>
      cases hlexeme
      exact .inr (.inr (.inr (.inr ⟨_, rfl, h⟩)))
  | string => cases hplain
  | char => cases hplain

/-! ### Characters -/

variable {c : Char}

lemma isDigit_iff : c.isDigit ↔ 48 ≤ c.toNat ∧ c.toNat ≤ 57 := by
  simp [Char.isDigit, UInt32.le_iff_toNat_le]

lemma isAlpha_iff :
    c.isAlpha ↔ (65 ≤ c.toNat ∧ c.toNat ≤ 90) ∨ (97 ≤ c.toNat ∧ c.toNat ≤ 122) := by
  show (decide (65 ≤ c.val ∧ c.val ≤ 90) ||
    (decide (97 ≤ c.val) && decide (c.val ≤ 122))) = true ↔ _
  simp [UInt32.le_iff_toNat_le]

lemma eq_underscore_iff : c = '_' ↔ c.toNat = 95 :=
  ⟨fun h => h ▸ rfl, fun h => Char.toNat_inj.mp h⟩

lemma isWordStart_iff : isWordStart c ↔
    (65 ≤ c.toNat ∧ c.toNat ≤ 90) ∨ (97 ≤ c.toNat ∧ c.toNat ≤ 122) ∨ c.toNat = 95 := by
  simp [isWordStart, isAlpha_iff, eq_underscore_iff, or_assoc]

lemma isWordPart_iff : isWordPart c ↔ isWordStart c ∨ c.isDigit := by
  simp [isWordStart, isWordPart, Char.isAlphanum, or_right_comm]

lemma isDigit_of_isWordStart (h : isWordStart c) : c.isDigit = false := by
  rw [isWordStart_iff] at h
  rw [← Bool.not_eq_true, isDigit_iff]
  omega

lemma isBlank_of_isWordPart (h : isWordPart c) : Text.isBlank c = false := by
  rw [isWordPart_iff, isWordStart_iff, isDigit_iff] at h
  simp only [Text.isBlank, Text.blankRanges, List.any_cons, List.any_nil, Bool.or_false,
    Bool.or_eq_false_iff, Bool.and_eq_false_iff, decide_eq_false_iff_not]
  omega

lemma isBlank_of_isDigit (h : c.isDigit) : Text.isBlank c = false :=
  isBlank_of_isWordPart (isWordPart_iff.mpr (.inr h))

lemma isWordStart_of_isDigit (h : c.isDigit) : isWordStart c = false := by
  by_contra hstart
  simp [isDigit_of_isWordStart (Bool.not_eq_false _ ▸ hstart)] at h

/-- The first character of punctuation of two characters is punctuation, too. -/
lemma exists_single_of_pair {d : Char} {kind : Kind} (h : (c, d, kind) ∈ punctuationPairs) :
    ∃ kind', (c, kind') ∈ punctuation := by
  have hall : ∀ p ∈ punctuationPairs, ∃ q ∈ punctuation, q.1 = p.1 := by decide
  obtain ⟨⟨c', kind'⟩, hmem, rfl⟩ := hall _ h
  exact ⟨kind', hmem⟩

/-- Punctuation begins with no character of another class. -/
lemma punctuation_class {kind : Kind}
    (h : (c, kind) ∈ punctuation ∨ ∃ d, (c, d, kind) ∈ punctuationPairs) :
    Text.isBlank c = false ∧ isWordStart c = false ∧ c.isDigit = false ∧ c ≠ '"' ∧ c ≠ '\'' := by
  have hall : ∀ p ∈ punctuation, Text.isBlank p.1 = false ∧ isWordStart p.1 = false ∧
      p.1.isDigit = false ∧ p.1 ≠ '"' ∧ p.1 ≠ '\'' := by
    decide
  rcases h with h | ⟨d, h⟩
  · exact hall _ h
  · obtain ⟨kind', hmem⟩ := exists_single_of_pair h
    exact hall _ hmem

/-- Classes of characters that begin tokens exclude each other. -/
lemma ne_of_class {p : Char → Bool} {d : Char} (hc : p c = true) (hd : p d = false) : c ≠ d := by
  rintro rfl
  simp [hc] at hd

end Fern.Token
