import Fern.Problem
import Fern.Text.Blank
import Fern.Token

/-!
The pieces that a source text falls into: gaps, which are runs of blanks and comments, and tokens.

* `Piece`: the characters of a piece after its first one, and the kind and lexeme if it is a token.
* `scan`: the piece at the front of a text, or what is wrong with the text there.
* `scan_more_prefix`: a piece takes nothing but the text that follows.

The first rule that fits decides: blanks, comments, string and character literals, words, numbers,
punctuation of two characters, punctuation of one.
-/

namespace Fern.Token

open Text

/-- A piece of source text: what belongs to it after its first character, and the token it is, if it
is no gap. -/
structure Piece where
  more : List Char
  token : Option (Kind × List Char)
deriving Repr, DecidableEq

namespace Piece

/-- Blanks or a comment. -/
def gap (more : List Char) : Piece := ⟨more, none⟩

/-- A token that is written as its lexeme. -/
def plain (kind : Kind) (c : Char) (more : List Char) : Piece := ⟨more, some (kind, c :: more)⟩

/-- A literal that is written as its lexeme between two of the character `q`. -/
def quoted (kind : Kind) (q : Char) (body : List Char) : Piece := ⟨body ++ [q], some (kind, body)⟩

end Piece

/-! ### Words and numbers -/

/-- A word begins with a letter of ASCII or an underscore. -/
def isWordStart (c : Char) : Bool := c.isAlpha || c = '_'

/-- A word goes on with letters and digits of ASCII and underscores. -/
def isWordPart (c : Char) : Bool := c.isAlphanum || c = '_'

/-- Reserved words have a kind each, all others are identifiers. -/
def wordKind (word : List Char) : Kind :=
  (reservedWords.lookup (String.ofList word)).getD .ident

/-- A point with at least one digit after it, at the front of a text. -/
def fraction : List Char → List Char
  | '.' :: d :: cs => if d.isDigit then '.' :: d :: cs.takeWhile Char.isDigit else []
  | _ => []

/-- What belongs to a number after its first digit: digits, and a point if digits follow it. -/
def scanNumber (c : Char) (cs : List Char) : Piece :=
  let digits := cs.takeWhile Char.isDigit
  let part := fraction (cs.dropWhile Char.isDigit)
  .plain (if part.isEmpty then .integer else .float) c (digits ++ part)

/-! ### Comments -/

/-- A line comment goes up to the end of its line, which has to be there. -/
def scanLineComment (cs : List Char) : Except Problem Piece :=
  if '\n' ∈ cs then .ok (.gap (cs.takeWhile (· ≠ '\n'))) else .error .unterminatedComment

/-- The front of a text up to the first `*/`, which belongs to it. -/
def throughCommentEnd : List Char → Option (List Char)
  | '*' :: '/' :: _ => some ['*', '/']
  | c :: cs => (throughCommentEnd cs).map (c :: ·)
  | [] => none

/-- A block comment goes through the first `*/` after the two characters that open it. -/
def scanBlockComment (cs : List Char) : Except Problem Piece :=
  match throughCommentEnd cs with
  | some body => .ok (.gap ('*' :: body))
  | none => .error .unterminatedBlockComment

/-! ### Literals -/

/-- The text of a string literal, up to the first quote that no backslash precedes. A backslash goes
together with the character after it. -/
def stringBody : List Char → Except Problem (List Char)
  | '"' :: _ => .ok []
  | '\n' :: _ => .error .newlineInString
  | '\\' :: '\n' :: _ => .error .newlineInString
  | '\\' :: e :: cs => (stringBody cs).map fun body => '\\' :: e :: body
  | ['\\'] => .error .unterminatedString
  | c :: cs => (stringBody cs).map (c :: ·)
  | [] => .error .unterminatedString

/-- The closing quote of a character literal with text `body`. -/
def closeChar (body : List Char) : List Char → Except Problem Piece
  | '\'' :: _ => .ok (.quoted .char '\'' body)
  | '\n' :: _ => .error .newlineInCharacterLiteral
  | _ => .error .unterminatedCharacterLiteral

/-- A character literal holds one character, or a backslash and the character it escapes. -/
def scanChar : List Char → Except Problem Piece
  | [] => .error .unterminatedCharacterLiteral
  | '\'' :: _ => .error .emptyCharacterLiteral
  | '\n' :: _ => .error .newlineInCharacterLiteral
  | ['\\'] => .error .unterminatedCharacterLiteral
  | '\\' :: '\n' :: _ => .error .newlineInCharacterLiteral
  | '\\' :: e :: cs => closeChar ['\\', e] cs
  | c :: cs => closeChar [c] cs

/-! ### Punctuation -/

/-- The two-character punctuation that begins with `c` and goes on with `cs`. -/
def pairKind? (c : Char) (cs : List Char) : Option (Char × Kind) :=
  match cs with
  | [] => none
  | d :: _ => (punctuationPairs.find? fun p => p.1 = c && p.2.1 = d).map fun p => (d, p.2.2)

/-- Punctuation, the longer one where two fit. -/
def scanPunctuation (c : Char) (cs : List Char) : Except Problem Piece :=
  match pairKind? c cs with
  | some (d, kind) => .ok (.plain kind c [d])
  | none =>
    match punctuation.lookup c with
    | some kind => .ok (.plain kind c [])
    | none => .error .unexpectedCharacter

/-! ### The rule for all pieces -/

/-- The piece at the front of the text `c :: cs`. -/
def scan (c : Char) (cs : List Char) : Except Problem Piece :=
  if isBlank c then .ok (.gap (cs.takeWhile isBlank))
  else if c = '/' ∧ cs.head? = some '/' then scanLineComment cs
  else if c = '/' ∧ cs.head? = some '*' then scanBlockComment cs.tail
  else if c = '"' then (stringBody cs).map (.quoted .string '"')
  else if c = '\'' then scanChar cs
  else if isWordStart c then
    let more := cs.takeWhile isWordPart
    .ok (.plain (wordKind (c :: more)) c more)
  else if c.isDigit then .ok (scanNumber c cs)
  else scanPunctuation c cs

/-! ### What a piece takes -/

theorem fraction_prefix (cs : List Char) : fraction cs <+: cs := by
  unfold fraction
  split
  · split
    · simp [List.takeWhile_prefix]
    · exact List.nil_prefix
  · exact List.nil_prefix

theorem scanNumber_more_prefix (c : Char) (cs : List Char) : (scanNumber c cs).more <+: cs := by
  have h := fraction_prefix (cs.dropWhile Char.isDigit)
  have happ := (List.prefix_append_right_inj (cs.takeWhile Char.isDigit)).2 h
  rwa [List.takeWhile_append_dropWhile] at happ

theorem throughCommentEnd_prefix {cs body : List Char} (h : throughCommentEnd cs = some body) :
    body <+: cs := by
  fun_induction throughCommentEnd cs generalizing body with
  | case1 cs => cases h; simp
  | case2 c cs _ ih =>
    obtain ⟨b, hb, rfl⟩ := Option.map_eq_some_iff.1 h
    simpa using ih hb
  | case3 => simp at h

theorem stringBody_prefix {cs body : List Char} (h : stringBody cs = .ok body) :
    body ++ ['"'] <+: cs := by
  fun_induction stringBody cs generalizing body with
  | case1 cs => cases h; simp
  | case2 => cases h
  | case3 => cases h
  | case4 e cs _ ih =>
    cases hb : stringBody cs with
    | error p => rw [hb] at h; cases h
    | ok b => rw [hb] at h; cases h; simpa using ih hb
  | case5 => cases h
  | case6 c cs _ _ _ _ _ ih =>
    cases hb : stringBody cs with
    | error p => rw [hb] at h; cases h
    | ok b => rw [hb] at h; cases h; simpa using ih hb
  | case7 => cases h

theorem closeChar_more_prefix {body cs : List Char} {p : Piece} (h : closeChar body cs = .ok p) :
    p.more <+: body ++ cs := by
  unfold closeChar at h
  split at h
  · cases h; simp [Piece.quoted]
  · cases h
  · cases h

theorem scanChar_more_prefix {cs : List Char} {p : Piece} (h : scanChar cs = .ok p) :
    p.more <+: cs := by
  unfold scanChar at h
  split at h
  iterate 5 cases h
  · exact closeChar_more_prefix h
  · exact closeChar_more_prefix h

theorem scanPunctuation_more_prefix {c : Char} {cs : List Char} {p : Piece}
    (h : scanPunctuation c cs = .ok p) : p.more <+: cs := by
  unfold scanPunctuation at h
  split at h
  · next d kind hd =>
    cases h
    unfold pairKind? at hd
    split at hd
    · cases hd
    · simp only [Option.map_eq_some_iff] at hd
      obtain ⟨q, -, hq⟩ := hd
      cases hq
      simp [Piece.plain]
  · split at h
    · cases h; exact List.nil_prefix
    · cases h

/-- A piece takes nothing but the text that follows its first character. -/
theorem scan_more_prefix {c : Char} {cs : List Char} {p : Piece} (h : scan c cs = .ok p) :
    p.more <+: cs := by
  unfold scan at h
  split at h
  · cases h; exact List.takeWhile_prefix _
  split at h
  · unfold scanLineComment at h
    split at h
    · cases h; exact List.takeWhile_prefix _
    · cases h
  split at h
  · next hc =>
    unfold scanBlockComment at h
    split at h
    · next body hb =>
      cases h
      have := throughCommentEnd_prefix hb
      cases cs with
      | nil => simp at hc
      | cons d ds =>
        obtain ⟨-, hd⟩ := hc
        cases hd
        simpa [Piece.gap] using this
    · cases h
  split at h
  · cases hb : stringBody cs with
    | error q => rw [hb] at h; cases h
    | ok body => rw [hb] at h; cases h; exact stringBody_prefix hb
  split at h
  · exact scanChar_more_prefix h
  split at h
  · cases h; exact List.takeWhile_prefix _
  split at h
  · cases h; exact scanNumber_more_prefix c cs
  · exact scanPunctuation_more_prefix h

end Fern.Token
