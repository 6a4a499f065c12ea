import Mathlib.Tactic
import Fern.Proofs.Safety.Offsets
import Fern.Token.Stream

/-!
The tokens of a text, read by the byte.

* `Guarded.scan`: the piece at the front of a text, by offsets that are checked where they are used.
  `Guarded.scan_eq` says that it is the piece that `Token.scan` finds.
* `Guarded.tokensFrom`, `Guarded.tokenize`: the tokens from a reading position on, and those of a
  text.
* `Guarded.tokenize_eq`: **no fault is met on the way to the tokens**.
-/

namespace Fern

open Text Token

/-! ### Offsets of what a piece ends with -/

namespace Text

variable {cs body : List Char}

/-- The end of a line is found after the text of the line. -/
lemma offsetOf?_newline (cs : List Char) :
    offsetOf? ['\n'] cs
      = if '\n' ∈ cs then some (utf8Length (cs.takeWhile (· ≠ '\n'))) else none := by
  induction cs with
  | nil => rfl
  | cons c cs ih =>
      by_cases hc : c = '\n'
      · subst hc
        simp [offsetOf?]
      · have hmem : '\n' ∈ c :: cs ↔ '\n' ∈ cs := by simp [Ne.symm hc]
        simp only [offsetOf?, List.cons_prefix_cons, Ne.symm hc, false_and, if_false, ih, hmem]
        split <;> simp [hc]

/-- The end of a block comment is found two bytes before the end of the comment. -/
lemma offsetOf?_commentEnd (cs : List Char) :
    (offsetOf? ['*', '/'] cs).map (· + 2) = (throughCommentEnd cs).map utf8Length := by
  fun_induction throughCommentEnd cs with
  | case1 cs => simp [offsetOf?]; rfl
  | case2 c cs hne ih =>
      have hnone : ¬ ['*', '/'] <+: c :: cs := by
        rintro ⟨rest, heq⟩
        cases heq
        exact hne rest rfl rfl
      rw [offsetOf?, if_neg hnone, Option.map_map]
      have hmap := congrArg (Option.map (c.utf8Size + ·)) ih
      simpa [Option.map_map, Function.comp_def, Nat.add_assoc] using hmap
  | case3 => rfl

end Text

namespace Guarded

/-- What is at the front of a text: the token it is, if it is no gap, and how many bytes it takes. -/
structure Front where
  token : Option (Kind × List Char)
  length : ℕ
deriving Repr, DecidableEq

/-- A piece that begins with the character `c`. -/
def Front.ofPiece (c : Char) (p : Piece) : Front := ⟨p.token, utf8Length (c :: p.more)⟩

/-! ### Comments -/

/-- A line comment goes up to the end of the line. -/
def lineComment (text : List Char) : Except Fault (Except Problem Front) :=
  match offsetOf? ['\n'] text with
  | none => .ok (.error .unterminatedComment)
  | some stop => do
    let _ ← sliceUpTo stop text
    return .ok ⟨none, stop⟩

/-- A block comment goes through the first `*/` after the two bytes that open it. -/
def blockComment (text : List Char) : Except Fault (Except Problem Front) := do
  let inner ← sliceFrom 2 text
  match offsetOf? ['*', '/'] inner with
  | none => return .error .unterminatedBlockComment
  | some stop =>
    let _ ← sliceUpTo (stop + 4) text
    return .ok ⟨none, stop + 4⟩

/-! ### Literals -/

/-- Where the closing quote of a string literal stands in a text that begins at the offset `n`. -/
def closingQuote (n : ℕ) : List Char → Except Problem ℕ
  | '"' :: _ => .ok n
  | '\n' :: _ => .error .newlineInString
  | '\\' :: '\n' :: _ => .error .newlineInString
  | '\\' :: e :: cs => closingQuote (n + 1 + e.utf8Size) cs
  | ['\\'] => .error .unterminatedString
  | c :: cs => closingQuote (n + c.utf8Size) cs
  | [] => .error .unterminatedString

/-- A string literal. -/
def stringLiteral (text : List Char) : Except Fault (Except Problem Front) := do
  let body ← sliceFrom 1 text
  match closingQuote 0 body with
  | .error problem => return .error problem
  | .ok stop =>
    let lexeme ← sliceUpTo stop body
    return .ok ⟨some (.string, lexeme), stop + 2⟩

/-- The length of the character of a character literal, or of an escape, and the text after it. -/
def character : List Char → Except Problem (ℕ × List Char)
  | [] => .error .unterminatedCharacterLiteral
  | '\'' :: _ => .error .emptyCharacterLiteral
  | '\n' :: _ => .error .newlineInCharacterLiteral
  | ['\\'] => .error .unterminatedCharacterLiteral
  | '\\' :: '\n' :: _ => .error .newlineInCharacterLiteral
  | '\\' :: e :: cs => .ok (1 + e.utf8Size, cs)
  | c :: cs => .ok (c.utf8Size, cs)

/-- The closing quote of a character literal, with what follows its character at the offset `stop`
of `body`. -/
def closingApostrophe (body : List Char) (stop : ℕ) :
    List Char → Except Fault (Except Problem Front)
  | '\'' :: _ => do
    let lexeme ← sliceUpTo stop body
    return .ok ⟨some (.char, lexeme), stop + 2⟩
  | '\n' :: _ => return .error .newlineInCharacterLiteral
  | _ => return .error .unterminatedCharacterLiteral

/-- A character literal. -/
def charLiteral (text : List Char) : Except Fault (Except Problem Front) := do
  let body ← sliceFrom 1 text
  match character body with
  | .error problem => return .error problem
  | .ok (stop, rest) => closingApostrophe body stop rest

/-! ### All pieces -/

/-- The piece at the front of the text `c :: cs`. What a word, a number, punctuation or a run of
blanks takes is found by matching characters, and no offset is computed. -/
def scan (c : Char) (cs : List Char) : Except Fault (Except Problem Front) :=
  if c = '/' ∧ cs.head? = some '/' then lineComment (c :: cs)
  else if c = '/' ∧ cs.head? = some '*' then blockComment (c :: cs)
  else if c = '"' then stringLiteral (c :: cs)
  else if c = '\'' then charLiteral (c :: cs)
  else .ok ((Token.scan c cs).map (.ofPiece c))

variable {c : Char} {cs body : List Char} {n : ℕ}

/-- A line comment ends where the line does. -/
lemma lineComment_eq (cs : List Char) :
    lineComment ('/' :: cs) = .ok ((scanLineComment cs).map (.ofPiece '/')) := by
  have hmem : '\n' ∈ '/' :: cs ↔ '\n' ∈ cs := by simp
  rw [lineComment, offsetOf?_newline, scanLineComment]
  simp only [hmem]
  by_cases hend : '\n' ∈ cs
  · have hsplit := List.takeWhile_append_dropWhile (p := (· ≠ '\n')) (l := '/' :: cs)
    simp only [if_pos hend, sliceUpTo_eq_ok hsplit.symm rfl, ok_bind]
    rfl
  · simp only [if_neg hend]
    rfl

/-- Of a block comment, the first two bytes and the last two are added to what is between them. -/
lemma blockComment_eq (cs : List Char) :
    blockComment ('/' :: '*' :: cs) = .ok ((scanBlockComment cs).map (.ofPiece '/')) := by
  have hinner : sliceFrom 2 ('/' :: '*' :: cs) = .ok cs :=
    sliceFrom_eq_ok ['/', '*'] rfl rfl
  have hend := offsetOf?_commentEnd cs
  rw [blockComment, hinner, ok_bind, scanBlockComment]
  cases hbody : throughCommentEnd cs with
  | none =>
      rw [hbody, Option.map_none, Option.map_eq_none_iff] at hend
      rw [hend]
      rfl
  | some body =>
      rw [hbody, Option.map_some, Option.map_eq_some_iff] at hend
      obtain ⟨stop, hstop, hlength⟩ := hend
      obtain ⟨rest, rfl⟩ := throughCommentEnd_prefix hbody
      have hfront : stop + 4 = utf8Length ('/' :: '*' :: body) := by
        rw [utf8Length_cons, utf8Length_cons, ← hlength, show '/'.utf8Size = 1 from rfl,
          show '*'.utf8Size = 1 from rfl]
        omega
      have htext : sliceUpTo (stop + 4) ('/' :: '*' :: (body ++ rest)) = .ok ('/' :: '*' :: body) :=
        sliceUpTo_eq_ok rfl hfront
      simp only [hstop, htext, ok_bind]
      rw [hfront]
      rfl

/-- Between two quotes of one byte a literal takes two bytes more than its text. -/
lemma Front.ofPiece_quoted {q : Char} (kind : Kind) (body : List Char) (hq : q.utf8Size = 1) :
    Front.ofPiece q (.quoted kind q body) = ⟨some (kind, body), utf8Length body + 2⟩ := by
  have hlength : utf8Length (q :: (body ++ [q])) = utf8Length body + 2 := by
    rw [utf8Length_cons, utf8Length_append, utf8Length_cons, utf8Length_nil, hq]
    omega
  rw [Front.ofPiece, Piece.quoted, hlength]

/-- The closing quote of a string literal is found after its text. -/
lemma closingQuote_eq (n : ℕ) (cs : List Char) :
    closingQuote n cs = (stringBody cs).map (n + utf8Length ·) := by
  fun_induction closingQuote n cs with
  | case1 => rfl
  | case2 => rfl
  | case3 => rfl
  | case4 n e cs hne ih =>
      rw [ih, stringBody.eq_4 e cs hne]
      cases stringBody cs with
      | error => rfl
      | ok body => simp [Except.map, Nat.add_assoc]; rfl
  | case5 => rfl
  | case6 n c cs hquote hnewline hescaped hescape hlast ih =>
      rw [ih, stringBody.eq_6 c cs hquote hnewline hescaped hescape hlast]
      cases stringBody cs with
      | error => rfl
      | ok body => simp [Except.map, Nat.add_assoc]
  | case7 => rfl

/-- A string literal ends at its closing quote. -/
lemma stringLiteral_eq (cs : List Char) :
    stringLiteral ('"' :: cs)
      = .ok (((stringBody cs).map (.quoted .string '"')).map (.ofPiece '"')) := by
  have hbody : sliceFrom 1 ('"' :: cs) = .ok cs := sliceFrom_eq_ok ['"'] rfl rfl
  rw [stringLiteral, hbody, ok_bind, closingQuote_eq]
  cases htext : stringBody cs with
  | error problem => rfl
  | ok text =>
      obtain ⟨rest, rfl⟩ := stringBody_prefix htext
      have hlexeme : sliceUpTo (utf8Length text) (text ++ ['"'] ++ rest) = .ok text :=
        sliceUpTo_eq_ok (List.append_assoc _ _ _) rfl
      simp only [Except.map, Nat.zero_add, hlexeme, ok_bind]
      rw [Front.ofPiece_quoted .string text rfl]
      rfl

lemma closingApostrophe_eq (body rest : List Char) :
    closingApostrophe (body ++ rest) (utf8Length body) rest
      = .ok ((closeChar body rest).map (.ofPiece '\'')) := by
  have hlexeme : sliceUpTo (utf8Length body) (body ++ rest) = .ok body := sliceUpTo_eq_ok rfl rfl
  fun_cases closeChar body rest with
  | case1 rest =>
      rw [closingApostrophe, hlexeme, ok_bind, Except.map, Front.ofPiece_quoted .char body rfl]
      rfl
  | case2 rest => rfl
  | case3 rest hquote hnewline => rw [closingApostrophe.eq_3 _ _ _ hquote hnewline]; rfl

/-- What follows the character of a literal is its closing quote, or the literal is none. -/
lemma charLiteral_of_character (body : List Char) {rest : List Char}
    (h : character (body ++ rest) = .ok (utf8Length body, rest)) :
    charLiteral ('\'' :: (body ++ rest)) = .ok ((closeChar body rest).map (.ofPiece '\'')) := by
  have hbody : sliceFrom 1 ('\'' :: (body ++ rest)) = .ok (body ++ rest) :=
    sliceFrom_eq_ok ['\''] rfl rfl
  rw [charLiteral, hbody, ok_bind, h]
  exact closingApostrophe_eq body rest

/-- A character literal ends after one character or one escape. -/
lemma charLiteral_eq (cs : List Char) :
    charLiteral ('\'' :: cs) = .ok ((scanChar cs).map (.ofPiece '\'')) := by
  fun_cases scanChar cs with
  | case1 => rfl
  | case2 => rfl
  | case3 => rfl
  | case4 => rfl
  | case5 => rfl
  | case6 e cs hnewline =>
      exact charLiteral_of_character ['\\', e] (character.eq_6 e cs hnewline)
  | case7 c cs hquote hnewline hlast hescaped hescape =>
      exact charLiteral_of_character [c]
        (character.eq_7 c cs hquote hnewline hlast hescaped hescape)

/-- **Pieces by the byte.** At the front of every text, no offset is wrong, and the piece found there
is the one that the rules for characters give. -/
lemma scan_eq (c : Char) (cs : List Char) :
    scan c cs = .ok ((Token.scan c cs).map (.ofPiece c)) := by
  unfold scan
  split
  · next h =>
    obtain ⟨rfl, hhead⟩ := h
    rw [lineComment_eq, Token.scan]
    simp [hhead, show isBlank '/' = false from rfl]
  split
  · next h =>
    obtain ⟨rfl, hhead⟩ := h
    obtain ⟨ds, rfl⟩ := List.head?_eq_some_iff.mp hhead
    rw [blockComment_eq, Token.scan]
    simp [show isBlank '/' = false from rfl]
  split
  · next h =>
    subst h
    rw [stringLiteral_eq, Token.scan]
    simp [show isBlank '"' = false from rfl]
  split
  · next h =>
    subst h
    rw [charLiteral_eq, Token.scan]
    simp [show isBlank '\'' = false from rfl]
  · rfl

/-! ### Tokens -/

/-- The tokens from a position on. The first problem ends the reading. -/
def tokensFrom (k : Cursor) : Except Fault (Except Diagnostic (List Token)) :=
  match k.rest with
  | [] => .ok (.ok [])
  | c :: cs => do
    match ← scan c cs with
    | .error problem => return .error (.error problem k.location)
    | .ok front =>
      let next ← advance k front.length
      if next.rest.length < k.rest.length then
        let others ← tokensFrom next
        let token := front.token.map fun (kind, lexeme) =>
          ⟨kind, String.ofList lexeme, k.location⟩
        return others.map (token.toList ++ ·)
      else throw .stuck
termination_by k.rest.length

/-- The tokens of a source text. A problem is recorded, and then there are none. -/
def tokenize (source : String) (log : Log) : Except Fault (Option (List Token) × Log) := do
  match ← tokensFrom (.ofText source.toList) with
  | .ok tokens => return (some tokens, log)
  | .error d => return (none, log.record d)

/-- From a position on with a text after it that is short enough, no fault is met. -/
lemma tokensFrom_eq (k : Cursor)
    (hoffset : k.offset + utf8Length k.rest < Cursor.offsetBound)
    (hplace : k.location.line + k.location.column + k.rest.length < Location.wordBound) :
    tokensFrom k = .ok (Fern.tokensFrom k.location k.rest) := by
  obtain ⟨rest, offset, l⟩ := k
  dsimp only at hoffset hplace ⊢
  fun_induction Fern.tokensFrom l rest generalizing offset with
  | case1 => rw [tokensFrom]
  | case2 l c cs problem hscan =>
      rw [tokensFrom]
      simp only [scan_eq, hscan, Except.map, ok_bind]
      rfl
  | case3 l c cs piece hscan ih =>
      obtain ⟨after, rfl⟩ := scan_more_prefix hscan
      have hbytes : utf8Length (c :: (piece.more ++ after))
          = utf8Length (c :: piece.more) + utf8Length after :=
        utf8Length_append (c :: piece.more) after
      have hlength : (c :: (piece.more ++ after)).length
          = (c :: piece.more).length + after.length := by
        simp only [List.length_cons, List.length_append]
        omega
      have hcounted := l.line_add_column_advanceOver_le (c :: piece.more)
      have hadvance : advance ⟨c :: (piece.more ++ after), offset, l⟩ (utf8Length (c :: piece.more))
          = .ok ⟨after, offset + utf8Length (c :: piece.more), l.advanceOver (c :: piece.more)⟩ :=
        advance_eq_ok rfl (by dsimp only; omega) (by dsimp only; omega)
      have hprogress : after.length < (c :: (piece.more ++ after)).length := by
        rw [hlength, List.length_cons]
        omega
      rw [List.drop_left] at ih ⊢
      have hothers := ih (offset + utf8Length (c :: piece.more)) (by omega) (by omega)
      rw [tokensFrom]
      simp only [scan_eq, hscan, Except.map, ok_bind, Front.ofPiece, hadvance, hothers,
        if_pos hprogress]
      rfl

/-- **Tokens without a fault.** In a text of fewer than `2 ^ 32` characters, every offset at which
the text is cut on the way to its tokens lies between two characters, and every line and column can
be counted; the tokens are those that the rules for characters give. -/
lemma tokenize_eq {source : String} (hlength : source.length < Location.wordBound) (log : Log) :
    tokenize source log = .ok (Fern.tokenize source log) := by
  have hbytes := utf8Length_le source.toList
  rw [String.length_toList] at hbytes
  have htokens : tokensFrom (.ofText source.toList)
      = .ok (Fern.tokensFrom .start source.toList) := by
    refine tokensFrom_eq (.ofText source.toList) ?_ ?_
    · simp only [Cursor.ofText, Cursor.offsetBound, Location.wordBound] at *
      omega
    · simpa [Cursor.ofText, Location.start, String.length_toList] using hlength
  rw [tokenize, htokens, ok_bind, Fern.tokenize]
  cases Fern.tokensFrom .start source.toList with
  | ok tokens => rfl
  | error d => rfl

end Guarded

end Fern
